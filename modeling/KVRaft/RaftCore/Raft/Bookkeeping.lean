import KVRaft.RaftCore.Raft.FullLog

/-!
# The leader's bookkeeping

Which handlers move `nextIndex` and `matchIndex`, and which only let the last
index and the snapshot index grow under them.
-/

namespace KVRaft
namespace RaftCore

open Foundation (bind_eq_ok)

namespace Raft

variable {n : Nat}

/-- What a leader has noted about its peers fits its own log. -/
structure InRange (v : Fin n) (rf : Raft n) : Prop where
  next : forall j, j ≠ v ->
    1 ≤ rf.nextIndex j ∧ rf.nextIndex j ≤ rf.getLastLogIndex + 1
  matched : forall j, j ≠ v ->
    0 ≤ rf.matchIndex j ∧ rf.matchIndex j ≤ rf.getLastLogIndex

/-- A handler that neither elects nor touches the bookkeeping. -/
structure Advances (rf rf' : Raft n) : Prop where
  status : rf'.status = .leader -> rf.status = .leader
  nextIndex : rf'.nextIndex = rf.nextIndex
  matchIndex : rf'.matchIndex = rf.matchIndex
  last : rf'.status = .leader -> rf.getLastLogIndex ≤ rf'.getLastLogIndex
  snapshot : rf.lastSnapshotIncludeIndex ≤ rf'.lastSnapshotIncludeIndex

theorem InRange.advance {v : Fin n} {rf rf' : Raft n} (h : InRange v rf)
    (hadv : Advances rf rf') (hstatus : rf'.status = .leader) : InRange v rf' where
  next := by
    intro j hj
    have hnext := h.next j hj
    have hlast := hadv.last hstatus
    rw [hadv.nextIndex]
    omega
  matched := by
    intro j hj
    have hmatched := h.matched j hj
    have hlast := hadv.last hstatus
    rw [hadv.matchIndex]
    omega

theorem Advances.refl (rf : Raft n) : Advances rf rf where
  status := id
  nextIndex := rfl
  matchIndex := rfl
  last _ := le_refl _
  snapshot := le_refl _

theorem Advances.trans {rf rf' rf'' : Raft n} (h : Advances rf rf')
    (k : Advances rf' rf'') : Advances rf rf'' where
  status hl := h.status (k.status hl)
  nextIndex := k.nextIndex.trans h.nextIndex
  matchIndex := k.matchIndex.trans h.matchIndex
  last hl := (h.last (k.status hl)).trans (k.last hl)
  snapshot := h.snapshot.trans k.snapshot

/-- Fields outside the bookkeeping and the log may change freely. -/
theorem Advances.congr {rf rf' : Raft n}
    (hstatus : rf'.status = .leader -> rf.status = .leader)
    (hnext : rf'.nextIndex = rf.nextIndex) (hmatch : rf'.matchIndex = rf.matchIndex)
    (hlogs : rf'.logs = rf.logs)
    (hindex : rf'.lastSnapshotIncludeIndex = rf.lastSnapshotIncludeIndex) :
    Advances rf rf' where
  status := hstatus
  nextIndex := hnext
  matchIndex := hmatch
  last := by
    intro _
    rw [getLastLogIndex, getLastLogIndex, getLastLogIndexAndTerm, getLastLogIndexAndTerm,
      hlogs, hindex]
    cases rf.logs.getLast? with
    | none => exact le_refl _
    | some log => exact le_refl _
  snapshot := le_of_eq hindex.symm

/-- A follower may do what it likes with its log as long as its snapshot stays. -/
theorem Advances.follower {rf rf' : Raft n} (hstatus : rf'.status = .follower)
    (hnext : rf'.nextIndex = rf.nextIndex) (hmatch : rf'.matchIndex = rf.matchIndex)
    (hindex : rf.lastSnapshotIncludeIndex ≤ rf'.lastSnapshotIncludeIndex) :
    Advances rf rf' where
  status := by
    intro hl
    rw [hstatus] at hl
    cases hl
  nextIndex := hnext
  matchIndex := hmatch
  last := by
    intro hl
    rw [hstatus] at hl
    cases hl
  snapshot := hindex

theorem observe_advances (rf : Raft n) (term : Int) : Advances rf (rf.observe term) := by
  unfold observe
  by_cases hgt : term > rf.currentTerm
  · rw [if_pos hgt]
    exact Advances.follower rfl rfl rfl (le_refl _)
  · rw [if_neg hgt]
    exact Advances.refl rf

theorem foldlM_appendEntry_eq {entries : List LogEntry} {rf rf' : Raft n}
    (h : entries.foldlM appendEntry rf = .ok rf') :
    rf' = { rf with logs := rf'.logs } := by
  induction entries generalizing rf with
  | nil =>
      cases h
      rfl
  | cons log rest ih =>
      rw [List.foldlM_cons] at h
      rcases bind_eq_ok.mp h with ⟨rf1, hfirst, hrest⟩
      have hone : rf1 = { rf with logs := rf1.logs } := by
        unfold appendEntry at hfirst
        by_cases hnew : log.logIndex > rf.getLastLogIndex
        · rw [if_pos hnew] at hfirst
          cases hfirst
          rfl
        rw [if_neg hnew] at hfirst
        rcases bind_eq_ok.mp hfirst with ⟨slot, _, hfirst⟩
        rcases bind_eq_ok.mp hfirst with ⟨held, _, hfirst⟩
        by_cases hclash : held.logTerm = log.logTerm ∧ held.command ≠ log.command
        · rw [if_pos hclash] at hfirst
          cases hfirst
        rw [if_neg hclash] at hfirst
        by_cases hother : held.logTerm ≠ log.logTerm
        · rw [if_pos hother] at hfirst
          cases hfirst
          rfl
        · rw [if_neg hother] at hfirst
          cases hfirst
          rfl
      rw [ih hrest, hone]

theorem getLastLogIndex_append (rf : Raft n) (log : LogEntry) :
    ({ rf with logs := rf.logs ++ [log] } : Raft n).getLastLogIndex = log.logIndex := by
  rw [getLastLogIndex, getLastLogIndexAndTerm]
  simp only [List.getLast?_append, List.getLast?_singleton, Option.some_or]

variable [Archive]

theorem requestVote_advances {rf rf' : Raft n} {args : RequestVoteArgs}
    {reply : RequestVoteReply} (h : rf.requestVote args = .ok (rf', reply)) :
    Advances rf rf' := by
  cases requestVote_effect h with
  | stale _ _ => exact Advances.congr id rfl rfl rfl rfl
  | refused _ _ =>
      exact (observe_advances rf args.term).trans (Advances.congr id rfl rfl rfl rfl)
  | granted _ _ _ _ _ =>
      exact (observe_advances rf args.term).trans (Advances.congr id rfl rfl rfl rfl)

theorem appendEntries1_advances {rf rf' : Raft n} {args : AppendEntriesArgs}
    {reply : AppendEntriesReply} (h : rf.appendEntries1 args = .ok (rf', reply)) :
    Advances rf rf' := by
  have hfollow : Advances rf (rf.follow args.term).persist :=
    Advances.follower rfl (follow_nextIndex _ _) (follow_matchIndex _ _)
      (le_of_eq (follow_lastSnapshotIncludeIndex _ _).symm)
  cases appendEntries1_effect h with
  | stale _ _ _ => exact Advances.refl rf
  | tooNew _ _ _ _ _ => exact hfollow
  | mismatch _ _ _ _ _ => exact hfollow
  | accepted _ _ hfold _ _ _ =>
      rw [advanceCommit_eq, foldlM_appendEntry_eq hfold]
      exact hfollow.trans (Advances.follower rfl rfl rfl (le_refl _))

theorem start_advances (rf : Raft n) (command : Bytes) :
    Advances rf (rf.start command).1 := by
  rcases start_cases rf command with hstart | ⟨_, hstart⟩
  · rw [hstart]
    exact Advances.refl rf
  · rw [hstart]
    exact
      { status := id
        nextIndex := rfl
        matchIndex := rfl
        last := by
          intro _
          refine le_trans ?_ (le_of_eq (getLastLogIndex_append rf _).symm)
          show rf.getLastLogIndex ≤ rf.getNewCommandIndex
          rw [getNewCommandIndex]
          omega
        snapshot := le_refl _ }

omit [Archive] in
theorem snapshotEffect_advances {rf rf' : Raft n} {L : List LogEntry} {s : Nat}
    (hs : Holds rf L s) (hcommit : rf.commitIndex ≤ L.length)
    (h : SnapshotEffect rf L rf') : Advances rf rf' := by
  cases h with
  | rejected => exact Advances.refl rf
  | @compacted k persister hlo hhi =>
      exact
        { status := id
          nextIndex := rfl
          matchIndex := rfl
          last := by
            intro _
            have hnew : Holds
                { rf with
                  persister := persister
                  lastSnapshotIncludeIndex := k
                  lastSnapshotIncludeTerm := termAt L k
                  logs := L.drop k
                  lastApplied := max rf.lastApplied k } L k :=
              hs.compact (by omega) rfl rfl rfl
            rw [hnew.lastIndex, hs.lastIndex]
          snapshot := hlo.le }

theorem installSnapshot_advances {rf rf' : Raft n} {args : InstallSnapshotRequest}
    {reply : InstallSnapshotResponse} {msg : Option ApplyMsg}
    (h : rf.installSnapshot args = .ok (rf', reply, msg)) : Advances rf rf' := by
  have hnext := follow_nextIndex rf args.term
  have hmatch := follow_matchIndex rf args.term
  cases installSnapshot_effect h with
  | stale _ => exact Advances.refl rf
  | outdated _ _ =>
      exact Advances.follower rfl hnext hmatch
        (le_of_eq (follow_lastSnapshotIncludeIndex _ _).symm)
  | installed _ hlt _ _ => exact Advances.follower rfl hnext hmatch hlt.le

theorem becomeLeader_inRange (v : Fin n) (rf : Raft n) (h : 0 ≤ rf.getLastLogIndex) :
    InRange v rf.becomeLeader where
  next := by
    intro j _
    show 1 ≤ rf.getLastLogIndex + 1 ∧ rf.getLastLogIndex + 1 ≤ rf.getLastLogIndex + 1
    omega
  matched := by
    intro j _
    exact ⟨le_refl _, h⟩

section

omit [Archive]

theorem hinted_inRange {v : Fin n} {rf : Raft n} (h : InRange v rf) (server : Fin n)
    {hint : Int} (hlo : 1 ≤ hint) (hhi : hint ≤ rf.getLastLogIndex + 1) :
    InRange v { rf with nextIndex := Function.update rf.nextIndex server hint } where
  next := by
    intro j hj
    show 1 ≤ Function.update rf.nextIndex server hint j ∧
      Function.update rf.nextIndex server hint j ≤ rf.getLastLogIndex + 1
    rw [Function.update_apply]
    by_cases hserver : j = server
    · rw [if_pos hserver]
      exact ⟨hlo, hhi⟩
    · rw [if_neg hserver]
      exact h.next j hj
  matched := h.matched

/-- Noting that a peer holds the log up to some index. -/
theorem noted_inRange {v : Fin n} {rf : Raft n} (h : InRange v rf) (server : Fin n)
    {index : Int} (hlo : 0 ≤ index) (hhi : index ≤ rf.getLastLogIndex) :
    InRange v
      { rf with
        matchIndex := Function.update rf.matchIndex server index
        nextIndex := Function.update rf.nextIndex server (index + 1) } where
  next := (hinted_inRange h server (by omega) (by omega)).next
  matched := by
    intro j hj
    show 0 ≤ Function.update rf.matchIndex server index j ∧
      Function.update rf.matchIndex server index j ≤ rf.getLastLogIndex
    rw [Function.update_apply]
    by_cases hserver : j = server
    · rw [if_pos hserver]
      exact ⟨hlo, hhi⟩
    · rw [if_neg hserver]
      exact h.matched j hj

theorem recordMatch_inRange {v : Fin n} {rf : Raft n} (h : InRange v rf)
    {server : Fin n} (hserver : server ≠ v) {args : AppendEntriesArgs}
    (hhi : args.prevLogIndex + args.entriesSize ≤ rf.getLastLogIndex) :
    InRange v (rf.recordMatch server args) := by
  have hmatched := h.matched server hserver
  exact noted_inRange h server (by omega) (by omega)

theorem commitSent_inRange {v : Fin n} {rf : Raft n} (h : InRange v rf)
    (args : AppendEntriesArgs) : InRange v (rf.commitSent args) := by
  rcases commitSent_cases rf args with hstate | ⟨_, hstate⟩
  · rw [hstate]
    exact h
  · rw [hstate]
    exact { next := h.next, matched := h.matched }

/-- A reply keeps the leader's notes in range if the numbers it brings are. -/
theorem sendAppendEntries_inRange {v server : Fin n} {rf rf' : Raft n}
    {args : AppendEntriesArgs} {reply : AppendEntriesReply} {appendNums appendNums' : Nat}
    (heffect : AppendReplyEffect rf server args reply appendNums rf' appendNums')
    (hserver : server ≠ v) (h : rf.status = .leader -> InRange v rf)
    (hsent : reply.success = true -> reply.term = rf.currentTerm -> rf.status = .leader ->
      args.prevLogIndex + args.entriesSize ≤ rf.getLastLogIndex)
    (hhint : reply.success = false -> reply.updateNextIndex ≠ -100 ->
      reply.term = rf.currentTerm -> rf.status = .leader ->
      1 ≤ reply.updateNextIndex ∧ reply.updateNextIndex ≤ rf.getLastLogIndex + 1) :
    (rf'.status = .leader -> InRange v rf') ∧
      rf'.lastSnapshotIncludeIndex = rf.lastSnapshotIncludeIndex := by
  cases heffect with
  | newerTerm _ => exact ⟨nofun, rfl⟩
  | ignored => exact ⟨h, rfl⟩
  | hinted hterm hleader hno hother =>
      rcases hhint hno hother hterm hleader with ⟨hlo, hhi⟩
      exact ⟨fun _ => hinted_inRange (h hleader) server hlo hhi, rfl⟩
  | counted hterm hleader hyes _ =>
      exact ⟨fun _ => recordMatch_inRange (h hleader) hserver (hsent hyes hterm hleader), rfl⟩
  | majority hterm hleader hyes _ _ =>
      refine ⟨fun _ => commitSent_inRange
        (recordMatch_inRange (h hleader) hserver (hsent hyes hterm hleader)) args, ?_⟩
      rcases commitSent_cases (rf.recordMatch server args) args with hstate | ⟨_, hstate⟩
      · rw [hstate]
        rfl
      · rw [hstate]
        rfl

end

theorem sendRequestVote_inRange {v : Fin n} {rf rf' : Raft n} {reply : RequestVoteReply}
    {votedNum votedNum' : Nat} (heffect : VoteReplyEffect rf reply votedNum rf' votedNum')
    (h : rf.status = .leader -> InRange v rf) (hlast : 0 ≤ rf.getLastLogIndex) :
    (rf'.status = .leader -> InRange v rf') ∧
      rf'.lastSnapshotIncludeIndex = rf.lastSnapshotIncludeIndex := by
  cases heffect with
  | newerTerm _ => exact ⟨nofun, rfl⟩
  | ignored => exact ⟨h, rfl⟩
  | counted _ _ _ => exact ⟨h, rfl⟩
  | elected _ _ _ _ => exact ⟨fun _ => becomeLeader_inRange v rf hlast, rfl⟩

end Raft
end RaftCore
end KVRaft
