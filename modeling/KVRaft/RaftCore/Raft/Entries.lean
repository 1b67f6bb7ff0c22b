import KVRaft.RaftCore.Raft.Handler

/-!
# Where entries come from

But for `Start` a handler only keeps entries of its own log and takes over those of a
request.  What has been applied moves in the applier alone, as long as nothing is
compacted.
-/

namespace KVRaft
namespace RaftCore

open Foundation (bind_eq_ok check_eq_ok)

variable {n : Nat}

/-- A step that takes over entries from `received` and compacts nothing. -/
structure TakesOver (received : List LogEntry) (rf rf' : Raft n) : Prop where
  entries : forall log, log ∈ rf'.logs -> log ∈ rf.logs ∨ log ∈ received
  lastApplied : rf'.lastApplied = rf.lastApplied
  snapshot : rf'.lastSnapshotIncludeIndex = rf.lastSnapshotIncludeIndex

theorem TakesOver.of_eq {received : List LogEntry} {rf rf' : Raft n}
    (hlogs : rf'.logs = rf.logs) (hlastApplied : rf'.lastApplied = rf.lastApplied)
    (hsnapshot : rf'.lastSnapshotIncludeIndex = rf.lastSnapshotIncludeIndex) :
    TakesOver received rf rf' where
  entries _ hlog := Or.inl (hlogs ▸ hlog)
  lastApplied := hlastApplied
  snapshot := hsnapshot

namespace Raft

theorem appendEntry_entries {rf rf' : Raft n} {log : LogEntry}
    (h : rf.appendEntry log = .ok rf') {e : LogEntry} (he : e ∈ rf'.logs) :
    e ∈ rf.logs ∨ e = log := by
  unfold appendEntry at h
  by_cases hnew : log.logIndex > rf.getLastLogIndex
  · rw [if_pos hnew] at h
    cases h
    rcases List.mem_append.mp he with hold | hlast
    · exact Or.inl hold
    · exact Or.inr (List.mem_singleton.mp hlast)
  rw [if_neg hnew] at h
  rcases bind_eq_ok.mp h with ⟨slot, _, h⟩
  rcases bind_eq_ok.mp h with ⟨held, _, h⟩
  by_cases hclash : held.logTerm = log.logTerm ∧ held.command ≠ log.command
  · rw [if_pos hclash] at h
    cases h
  rw [if_neg hclash] at h
  by_cases hother : held.logTerm ≠ log.logTerm
  · rw [if_pos hother] at h
    cases h
    exact List.mem_or_eq_of_mem_set he
  · rw [if_neg hother] at h
    cases h
    exact Or.inl he

theorem foldlM_appendEntry_entries {entries : List LogEntry} {rf rf' : Raft n}
    (h : entries.foldlM appendEntry rf = .ok rf') {e : LogEntry} (he : e ∈ rf'.logs) :
    e ∈ rf.logs ∨ e ∈ entries := by
  induction entries generalizing rf with
  | nil =>
      cases h
      exact Or.inl he
  | cons log rest ih =>
      rw [List.foldlM_cons] at h
      rcases bind_eq_ok.mp h with ⟨rf1, hfirst, hrest⟩
      rcases ih hrest with hbefore | hin
      · rcases appendEntry_entries hfirst hbefore with hold | rfl
        · exact Or.inl hold
        · exact Or.inr List.mem_cons_self
      · exact Or.inr (List.mem_cons_of_mem log hin)

theorem heartBeatTo_entries {rf : Raft n} {i server : Fin n} {args : AppendEntriesArgs}
    (h : rf.heartBeatTo i = .ok (.appendEntries server args)) {e : LogEntry}
    (he : e ∈ args.entries) : e ∈ rf.logs := by
  unfold heartBeatTo at h
  rcases bind_eq_ok.mp h with ⟨_, _, h⟩
  by_cases hbehind : rf.nextIndex i ≤ rf.lastSnapshotIncludeIndex
  · rw [if_pos hbehind] at h
    cases h
  rw [if_neg hbehind] at h
  rcases bind_eq_ok.mp h with ⟨prev, _, h⟩
  rcases bind_eq_ok.mp h with ⟨entries, hentries, h⟩
  rcases bind_eq_ok.mp h with ⟨_, _, h⟩
  cases h
  unfold entriesAfter at hentries
  by_cases hprev : prev.1 ≠ rf.lastSnapshotIncludeIndex
  · rw [if_pos hprev] at hentries
    rcases bind_eq_ok.mp hentries with ⟨slot, _, hentries⟩
    cases hentries
    exact List.mem_of_mem_drop he
  · rw [if_neg hprev] at hentries
    cases hentries
    exact he

/-- A leader without a snapshot has none to send. -/
theorem heartBeatTo_snapShot {rf : Raft n} {i server : Fin n}
    (hnone : rf.lastSnapshotIncludeIndex = 0) :
    rf.heartBeatTo i ≠ .ok (.snapShot server) := by
  intro h
  unfold heartBeatTo at h
  rcases bind_eq_ok.mp h with ⟨_, hnext, h⟩
  have hpos := check_eq_ok.mp hnext
  have hahead : ¬ rf.nextIndex i ≤ rf.lastSnapshotIncludeIndex := by
    rw [hnone]
    omega
  rw [if_neg hahead] at h
  rcases bind_eq_ok.mp h with ⟨_, _, h⟩
  rcases bind_eq_ok.mp h with ⟨_, _, h⟩
  rcases bind_eq_ok.mp h with ⟨_, _, h⟩
  cases h

theorem sendAppendEntries_takesOver {rf rf' : Raft n} {server : Fin n}
    {args : AppendEntriesArgs} {reply : AppendEntriesReply} {appendNums appendNums' : Nat}
    (h : rf.sendAppendEntries server args reply appendNums = .ok (rf', appendNums')) :
    TakesOver [] rf rf' := by
  cases sendAppendEntries_effect h with
  | newerTerm _ => exact .of_eq rfl rfl rfl
  | ignored => exact .of_eq rfl rfl rfl
  | hinted _ _ _ _ => exact .of_eq rfl rfl rfl
  | counted _ _ _ _ => exact .of_eq rfl rfl rfl
  | majority _ _ _ _ _ =>
      rcases commitSent_cases (rf.recordMatch server args) args with hstate | ⟨_, hstate⟩
      · rw [hstate]
        exact .of_eq rfl rfl rfl
      · rw [hstate]
        exact .of_eq rfl rfl rfl

variable [Archive]

theorem requestVote_takesOver {rf rf' : Raft n} {args : RequestVoteArgs}
    {reply : RequestVoteReply} (h : rf.requestVote args = .ok (rf', reply)) :
    TakesOver [] rf rf' := by
  have hobserve : forall votedFor, TakesOver [] rf
      ({ rf.observe args.term with votedFor := votedFor } : Raft n).persist := fun _ =>
    .of_eq (observe_logs rf args.term) (observe_lastApplied rf args.term)
      (observe_lastSnapshotIncludeIndex rf args.term)
  cases requestVote_effect h with
  | stale _ _ => exact .of_eq rfl rfl rfl
  | refused _ _ => exact hobserve (rf.observe args.term).votedFor
  | granted _ _ _ _ _ => exact hobserve args.candidateId

theorem sendRequestVote_takesOver {rf rf' : Raft n} {reply : RequestVoteReply}
    {votedNum votedNum' : Nat}
    (h : rf.sendRequestVote reply votedNum = .ok (rf', votedNum')) :
    TakesOver [] rf rf' := by
  cases sendRequestVote_effect h with
  | newerTerm _ => exact .of_eq rfl rfl rfl
  | ignored => exact .of_eq rfl rfl rfl
  | counted _ _ _ => exact .of_eq rfl rfl rfl
  | elected _ _ _ _ => exact .of_eq rfl rfl rfl

theorem appendEntries1_takesOver {rf rf' : Raft n} {args : AppendEntriesArgs}
    {reply : AppendEntriesReply} (h : rf.appendEntries1 args = .ok (rf', reply)) :
    TakesOver args.entries rf rf' := by
  have hfollow : TakesOver args.entries rf (rf.follow args.term).persist :=
    .of_eq (follow_logs rf args.term) (follow_lastApplied rf args.term)
      (follow_lastSnapshotIncludeIndex rf args.term)
  cases appendEntries1_effect h with
  | stale _ _ _ => exact .of_eq rfl rfl rfl
  | tooNew _ _ _ _ _ => exact hfollow
  | mismatch _ _ _ _ _ => exact hfollow
  | @accepted rf1 _ _ _ hfold _ _ _ =>
      have hstate := foldlM_appendEntry_eq hfold
      rw [advanceCommit_eq]
      constructor
      · intro log hlog
        rcases foldlM_appendEntry_entries hfold hlog with hold | hnew
        · rw [follow_logs] at hold
          exact Or.inl hold
        · exact Or.inr hnew
      · change rf1.lastApplied = rf.lastApplied
        rw [hstate]
        exact follow_lastApplied rf args.term
      · change rf1.lastSnapshotIncludeIndex = rf.lastSnapshotIncludeIndex
        rw [hstate]
        exact follow_lastSnapshotIncludeIndex rf args.term

end Raft
end RaftCore
end KVRaft
