import KVRaft.RaftCore.Raft.Consecutive

/-!
# No handler goes back

Whatever a handler is called with, the indices of its node stay in order and none of
them goes back, nor does the term, if the entries it may receive are consecutive.
-/

namespace KVRaft
namespace RaftCore

variable {n : Nat}

/-- The entries of a request follow on its previous entry, as a heartbeat sends them. -/
def Handler.FollowsOn : Handler n -> Prop
  | .appendEntries1 args => Consecutive (args.prevLogIndex + 1) args.entries
  | _ => True

instance : DecidablePred (Handler.FollowsOn (n := n))
  | .appendEntries1 args =>
      inferInstanceAs (Decidable (Consecutive (args.prevLogIndex + 1) args.entries))
  | .doElection => isTrue trivial
  | .requestVote _ => isTrue trivial
  | .sendRequestVote _ _ => isTrue trivial
  | .sendAppendEntries _ _ _ _ => isTrue trivial
  | .start _ => isTrue trivial
  | .getApplyLogs => isTrue trivial
  | .snapshot _ _ => isTrue trivial
  | .leaderSendSnapShot => isTrue trivial
  | .leaderSendSnapShotReply _ _ _ => isTrue trivial
  | .installSnapshot _ => isTrue trivial

namespace Raft

/-!
# Applying
-/

theorem getApplyLogs_proceeds {rf rf' : Raft n} {msgs : List ApplyMsg} (h : Indexed rf)
    (hrun : rf.getApplyLogs = .ok (rf', msgs)) : Proceeds rf rf' := by
  rcases getApplyLogs_eq hrun with ⟨hstate, hlength⟩
  have hle := h.applied
  have happlied : rf.lastApplied + msgs.length = rf.commitIndex := by
    omega
  rw [hstate, happlied]
  constructor
  · exact { h with snapshot := h.snapshot.trans hle, applied := le_refl _ }
  · exact { NoneLess.refl rf with applied := hle }

/-!
# Leading
-/

theorem start_index [Archive] {rf : Raft n} {command : Bytes} {index term : Int}
    (h : (rf.start command).2 = some (index, term)) :
    index = rf.getLastLogIndex + 1 ∧ (rf.start command).1.getLastLogIndex = index := by
  rcases start_cases rf command with hstart | ⟨_, hstart⟩
  · rw [hstart] at h
    cases h
  · rw [hstart] at h ⊢
    cases h
    exact ⟨rfl, getLastLogIndex_append rf _⟩

theorem start_proceeds [Archive] {rf : Raft n} (h : Indexed rf) (command : Bytes) :
    Proceeds rf (rf.start command).1 := by
  rcases start_cases rf command with hstart | ⟨_, hstart⟩
  · rw [hstart]
    exact .refl h
  rw [hstart]
  have hless : rf.getLastLogIndex ≤ rf.getNewCommandIndex := by
    unfold getNewCommandIndex
    omega
  have hlast := getLastLogIndex_append rf
    { command := command, logTerm := rf.currentTerm, logIndex := rf.getNewCommandIndex }
  constructor
  · constructor
    · apply h.logs.concat
      change rf.getLastLogIndex + 1 = _
      rw [h.logs.lastIndex]
      omega
    · exact h.snapshot
    · exact h.applied
    · exact (h.commit.trans hless).trans hlast.ge
  · constructor
    · exact le_refl _
    · exact le_refl _
    · exact le_refl _
    · exact le_refl _
    · exact hless.trans hlast.ge

theorem commitSent_proceeds {rf : Raft n} (h : Indexed rf) {args : AppendEntriesArgs}
    (hcommit : (rf.commitSent args).commitIndex ≤ rf.getLastLogIndex) :
    Proceeds rf (rf.commitSent args) := by
  rcases commitSent_cases rf args with hstate | ⟨_, hstate⟩
  · rw [hstate]
    exact .refl h
  · rw [hstate] at hcommit ⊢
    constructor
    · exact { h with applied := h.applied.trans (le_max_left _ _), commit := hcommit }
    · exact { NoneLess.refl rf with commit := le_max_left _ _ }

theorem sendAppendEntries_proceeds {rf rf' : Raft n} {server : Fin n}
    {args : AppendEntriesArgs} {reply : AppendEntriesReply} {appendNums appendNums' : Nat}
    (h : Indexed rf)
    (hrun : rf.sendAppendEntries server args reply appendNums = .ok (rf', appendNums')) :
    Proceeds rf rf' := by
  cases sendAppendEntries_effect hrun with
  | newerTerm hlt => exact .of_same h hlt.le rfl rfl rfl rfl
  | ignored => exact .refl h
  | hinted _ _ _ _ => exact .of_same h (le_refl _) rfl rfl rfl rfl
  | counted _ _ _ _ => exact .of_same h (le_refl _) rfl rfl rfl rfl
  | majority _ _ _ _ hcommit =>
      have hnoted : Proceeds rf (rf.recordMatch server args) :=
        .of_same h (le_refl _) rfl rfl rfl rfl
      exact hnoted.trans (commitSent_proceeds hnoted.indexed hcommit)

/-!
# Following
-/

variable [Archive]

theorem persist_proceeds {rf rf' : Raft n} (h : Proceeds rf rf') :
    Proceeds rf rf'.persist :=
  h.trans (.of_same h.indexed (le_refl _) rfl rfl rfl rfl)

theorem appendEntries1_proceeds {rf rf' : Raft n} {args : AppendEntriesArgs}
    {reply : AppendEntriesReply} (h : Indexed rf)
    (hentries : Consecutive (args.prevLogIndex + 1) args.entries)
    (hrun : rf.appendEntries1 args = .ok (rf', reply)) : Proceeds rf rf' := by
  have hfollow := follow_proceeds h args.term
  cases appendEntries1_effect hrun with
  | stale _ _ _ => exact .refl h
  | tooNew _ _ _ _ _ => exact persist_proceeds hfollow
  | mismatch _ _ _ _ _ => exact persist_proceeds hfollow
  | accepted _ hmatch hfold _ _ _ =>
      have hprev : args.prevLogIndex ≤ (rf.follow args.term).getLastLogIndex := by
        rw [getLastLogIndex, follow_getLastLogIndexAndTerm]
        exact matchLog_le hmatch
      apply persist_proceeds
      exact hfollow.trans (accept_proceeds hfollow.indexed hprev hentries hfold _)

theorem installSnapshot_proceeds {rf rf' : Raft n} {args : InstallSnapshotRequest}
    {reply : InstallSnapshotResponse} {msg : Option ApplyMsg} (h : Indexed rf)
    (hrun : rf.installSnapshot args = .ok (rf', reply, msg)) : Proceeds rf rf' := by
  have hterm := (installSnapshot_durably hrun).keeps.term
  have hfollow := follow_proceeds h args.term
  cases installSnapshot_effect hrun with
  | stale _ => exact .refl h
  | outdated _ _ => exact hfollow.trans (.of_same hfollow.indexed (le_refl _) rfl rfl rfl rfl)
  | installed _ hindex hlogs _ =>
      rcases logsBeyond_consecutive h.logs hindex hlogs with ⟨hconsecutive, hlast⟩
      exact compact_proceeds h hindex hterm rfl rfl rfl hconsecutive hlast

theorem snapshot_proceeds {rf rf' : Raft n} {index : Int} {data : Bytes} (h : Indexed rf)
    (hrun : rf.snapshot index data = .ok rf') : Proceeds rf rf' := by
  rcases snapshot_cases hrun with rfl | ⟨newLast, kept, hindex, hle, hkept, htotal, rfl⟩
  · exact .refl h
  have hlength : index + kept.length = max rf.getLastLogIndex index := by
    omega
  exact compact_proceeds h hindex (le_refl _) rfl rfl rfl (h.logs.trunckedLogs hkept) hlength

/-!
# All handlers
-/

theorem requestVote_proceeds {rf rf' : Raft n} {args : RequestVoteArgs}
    {reply : RequestVoteReply} (h : Indexed rf)
    (hrun : rf.requestVote args = .ok (rf', reply)) : Proceeds rf rf' := by
  have hobserve : Proceeds rf (rf.observe args.term) :=
    .of_same h (observe_keepsVote rf args.term).term (observe_logs rf _)
      (observe_lastSnapshotIncludeIndex rf _) (observe_lastApplied rf _)
      (observe_commitIndex rf _)
  cases requestVote_effect hrun with
  | stale _ _ => exact persist_proceeds (.refl h)
  | refused _ _ => exact persist_proceeds hobserve
  | granted _ _ _ _ _ =>
      exact hobserve.trans (.of_same hobserve.indexed (le_refl _) rfl rfl rfl rfl)

theorem sendRequestVote_proceeds {rf rf' : Raft n} {reply : RequestVoteReply}
    {votedNum votedNum' : Nat} (h : Indexed rf)
    (hrun : rf.sendRequestVote reply votedNum = .ok (rf', votedNum')) : Proceeds rf rf' := by
  cases sendRequestVote_effect hrun with
  | newerTerm hlt => exact .of_same h hlt.le rfl rfl rfl rfl
  | ignored => exact .refl h
  | counted _ _ _ => exact .refl h
  | elected _ _ _ _ => exact .of_same h (le_refl _) rfl rfl rfl rfl

theorem doElection_proceeds {rf : Raft n} (h : Indexed rf) :
    Proceeds rf rf.doElection.1 := by
  rcases doElection_cases rf with hstate | hstate
  · rw [hstate]
    exact .refl h
  · rw [hstate]
    exact .of_same h (Int.lt_succ rf.currentTerm).le rfl rfl rfl rfl

theorem leaderSendSnapShotReply_proceeds {rf : Raft n} (h : Indexed rf) (server : Fin n)
    (args : InstallSnapshotRequest) (reply : InstallSnapshotResponse) :
    Proceeds rf (rf.leaderSendSnapShotReply server args reply) := by
  generalize hrun : rf.leaderSendSnapShotReply server args reply = rf'
  cases leaderSendSnapShotReply_effect hrun with
  | ignored => exact .refl h
  | newerTerm hlt => exact .of_same h hlt.le rfl rfl rfl rfl
  | noted _ => exact .of_same h (le_refl _) rfl rfl rfl rfl

end Raft

variable [Archive]

theorem Handler.run_proceeds {handler : Handler n} {rf rf' : Raft n} (h : Indexed rf)
    (hentries : handler.FollowsOn) (hrun : handler.run rf = .ok rf') : Proceeds rf rf' := by
  cases handler with
  | doElection =>
      cases hrun
      exact Raft.doElection_proceeds h
  | requestVote args =>
      rcases map_ok hrun with ⟨⟨rf1, reply⟩, hcall, rfl⟩
      exact Raft.requestVote_proceeds h hcall
  | sendRequestVote reply votedNum =>
      rcases map_ok hrun with ⟨⟨rf1, votedNum'⟩, hcall, rfl⟩
      exact Raft.sendRequestVote_proceeds h hcall
  | appendEntries1 args =>
      rcases map_ok hrun with ⟨⟨rf1, reply⟩, hcall, rfl⟩
      exact Raft.appendEntries1_proceeds h hentries hcall
  | sendAppendEntries server args reply appendNums =>
      rcases map_ok hrun with ⟨⟨rf1, appendNums'⟩, hcall, rfl⟩
      exact Raft.sendAppendEntries_proceeds h hcall
  | start command =>
      cases hrun
      exact Raft.start_proceeds h command
  | getApplyLogs =>
      rcases map_ok hrun with ⟨⟨rf1, msgs⟩, hcall, rfl⟩
      exact Raft.getApplyLogs_proceeds h hcall
  | snapshot index data => exact Raft.snapshot_proceeds h hrun
  | leaderSendSnapShot =>
      cases hrun
      exact .of_same h (le_refl _) rfl rfl rfl rfl
  | leaderSendSnapShotReply server args reply =>
      cases hrun
      exact Raft.leaderSendSnapShotReply_proceeds h server args reply
  | installSnapshot args =>
      rcases map_ok hrun with ⟨⟨rf1, reply, msg⟩, hcall, rfl⟩
      exact Raft.installSnapshot_proceeds h hcall

end RaftCore
end KVRaft
