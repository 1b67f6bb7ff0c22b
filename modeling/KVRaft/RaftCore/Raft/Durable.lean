import KVRaft.RaftCore.Raft.Bookkeeping

/-!
# What a node keeps on disk

The values a state file stands for, and how each handler moves the term, the vote
and the file.
-/

namespace KVRaft
namespace RaftCore

/-- The fields that survive a restart if the state file does. -/
structure Durable where
  currentTerm : Int
  votedFor : Int
  lastSnapshotIncludeIndex : Int
  lastSnapshotIncludeTerm : Int
  logs : List LogEntry
  deriving DecidableEq, Repr

namespace Durable

/-- The values of a node that has never run. -/
def initial : Durable where
  currentTerm := 0
  votedFor := -1
  lastSnapshotIncludeIndex := 0
  lastSnapshotIncludeTerm := 0
  logs := []

/-- The values a state file stands for; an empty file stands for none. -/
def decode [Archive] (data : Bytes) : Option Durable :=
  if data.isEmpty then
    none
  else
    (Archive.textIarchive data).map fun node =>
      { currentTerm := node.currentTerm
        votedFor := node.votedFor
        lastSnapshotIncludeIndex := node.lastSnapshotIncludeIndex
        lastSnapshotIncludeTerm := node.lastSnapshotIncludeTerm
        logs := node.logs.map Archive.parseFromString }

end Durable

namespace Raft

variable {n : Nat}

def durable (rf : Raft n) : Durable where
  currentTerm := rf.currentTerm
  votedFor := rf.votedFor
  lastSnapshotIncludeIndex := rf.lastSnapshotIncludeIndex
  lastSnapshotIncludeTerm := rf.lastSnapshotIncludeTerm
  logs := rf.logs

theorem blank_durable (me : Fin n) (persister : Persister) :
    (blank me persister).durable = Durable.initial :=
  rfl

/-- A handler that moves to a newer term or stays in its term with its vote. -/
structure KeepsVote (rf rf' : Raft n) : Prop where
  term : rf.currentTerm ≤ rf'.currentTerm
  vote : rf'.currentTerm = rf.currentTerm -> rf.votedFor ≠ -1 ->
    rf'.votedFor = rf.votedFor

theorem KeepsVote.refl (rf : Raft n) : KeepsVote rf rf where
  term := le_refl _
  vote _ _ := rfl

theorem KeepsVote.congr {rf rf' : Raft n} (hterm : rf'.currentTerm = rf.currentTerm)
    (hvote : rf'.votedFor = rf.votedFor) : KeepsVote rf rf' where
  term := le_of_eq hterm.symm
  vote _ _ := hvote

theorem KeepsVote.newer {rf rf' : Raft n} (h : rf.currentTerm < rf'.currentTerm) :
    KeepsVote rf rf' where
  term := h.le
  vote := by
    intro hsame
    rw [hsame] at h
    exact absurd h (lt_irrefl _)

theorem observe_keepsVote (rf : Raft n) (term : Int) : KeepsVote rf (rf.observe term) := by
  unfold observe
  by_cases hgt : term > rf.currentTerm
  · rw [if_pos hgt]
    exact KeepsVote.newer hgt
  · rw [if_neg hgt]
    exact KeepsVote.refl rf

theorem follow_keepsVote (rf : Raft n) (term : Int) : KeepsVote rf (rf.follow term) where
  term := (observe_keepsVote rf term).term
  vote := (observe_keepsVote rf term).vote

variable [Archive]

theorem decode_persistData [LawfulArchive] (rf : Raft n) :
    Durable.decode rf.persistData = some rf.durable := by
  have hne : rf.persistData.isEmpty = false := by
    rw [List.isEmpty_eq_false_iff]
    exact LawfulArchive.textOarchive_ne_nil _
  have hlogs : (rf.logs.map Archive.serializeAsString).map Archive.parseFromString =
      rf.logs := by
    rw [List.map_map]
    apply List.map_id''
    intro log
    exact LawfulArchive.parseFromString_serializeAsString log
  rw [Durable.decode, hne, persistData, LawfulArchive.textIarchive_textOarchive]
  simp only [Bool.false_eq_true, if_false, Option.map_some, hlogs]
  rfl

/-- A handler that keeps the vote and writes its state file last, if at all. -/
structure Durably (rf rf' : Raft n) : Prop where
  keeps : KeepsVote rf rf'
  file : rf'.persister.raftStateFile = rf.persister.raftStateFile ∨
    rf'.persister.raftStateFile = rf'.persistData

theorem Durably.unwritten {rf rf' : Raft n} (h : KeepsVote rf rf')
    (hfile : rf'.persister.raftStateFile = rf.persister.raftStateFile) :
    Durably rf rf' where
  keeps := h
  file := Or.inl hfile

theorem Durably.written {rf rf' : Raft n} (h : KeepsVote rf rf')
    (hfile : rf'.persister.raftStateFile = rf'.persistData) : Durably rf rf' where
  keeps := h
  file := Or.inr hfile

theorem Durably.refl (rf : Raft n) : Durably rf rf :=
  .unwritten (KeepsVote.refl rf) rfl

theorem Durably.persist {rf rf' : Raft n} (h : KeepsVote rf rf') : Durably rf rf'.persist :=
  .written { term := h.term, vote := h.vote } rfl

/-!
# The handlers
-/

theorem doElection_durably (rf : Raft n) : Durably rf rf.doElection.1 := by
  rcases doElection_cases rf with hstate | hstate
  · rw [hstate]
    exact .refl rf
  · rw [hstate]
    exact .written (KeepsVote.newer (Int.lt_succ rf.currentTerm)) rfl

theorem sendRequestVote_durably {rf rf' : Raft n} {reply : RequestVoteReply}
    {votedNum votedNum' : Nat}
    (h : rf.sendRequestVote reply votedNum = .ok (rf', votedNum')) : Durably rf rf' := by
  cases sendRequestVote_effect h with
  | newerTerm hlt => exact .persist (KeepsVote.newer hlt)
  | ignored => exact .refl rf
  | counted _ _ _ => exact .refl rf
  | elected _ _ _ _ => exact .persist (KeepsVote.congr rfl rfl)

theorem requestVote_durably {rf rf' : Raft n} {args : RequestVoteArgs}
    {reply : RequestVoteReply} (h : rf.requestVote args = .ok (rf', reply)) :
    Durably rf rf' := by
  cases requestVote_effect h with
  | stale _ _ => exact .persist (KeepsVote.refl rf)
  | refused _ _ => exact .persist (observe_keepsVote rf args.term)
  | granted _ _ hfree _ _ =>
      have hkeeps := observe_keepsVote rf args.term
      apply Durably.persist
      constructor
      · exact hkeeps.term
      · intro hsame hvoted
        have hold := hkeeps.vote hsame hvoted
        rcases hfree with hnone | hcandidate
        · rw [hnone] at hold
          exact absurd hold.symm hvoted
        · exact hcandidate.symm.trans hold

theorem appendEntries1_durably {rf rf' : Raft n} {args : AppendEntriesArgs}
    {reply : AppendEntriesReply} (h : rf.appendEntries1 args = .ok (rf', reply)) :
    Durably rf rf' := by
  have hkeeps := follow_keepsVote rf args.term
  cases appendEntries1_effect h with
  | stale _ _ _ => exact .refl rf
  | tooNew _ _ _ _ _ => exact .persist hkeeps
  | mismatch _ _ _ _ _ => exact .persist hkeeps
  | accepted _ _ hfold _ _ _ =>
      rw [advanceCommit_eq, foldlM_appendEntry_eq hfold]
      exact .persist { term := hkeeps.term, vote := hkeeps.vote }

theorem sendAppendEntries_durably {rf rf' : Raft n} {server : Fin n}
    {args : AppendEntriesArgs} {reply : AppendEntriesReply} {appendNums appendNums' : Nat}
    (h : rf.sendAppendEntries server args reply appendNums = .ok (rf', appendNums')) :
    Durably rf rf' := by
  cases sendAppendEntries_effect h with
  | newerTerm hlt => exact .unwritten (KeepsVote.newer hlt) rfl
  | ignored => exact .refl rf
  | hinted _ _ _ _ => exact .unwritten (KeepsVote.congr rfl rfl) rfl
  | counted _ _ _ _ => exact .unwritten (KeepsVote.congr rfl rfl) rfl
  | majority _ _ _ _ _ =>
      rcases commitSent_cases (rf.recordMatch server args) args with hstate | ⟨_, hstate⟩
      · rw [hstate]
        exact .unwritten (KeepsVote.congr rfl rfl) rfl
      · rw [hstate]
        exact .unwritten (KeepsVote.congr rfl rfl) rfl

theorem start_durably (rf : Raft n) (command : Bytes) : Durably rf (rf.start command).1 := by
  rcases start_cases rf command with hstart | ⟨_, hstart⟩
  · rw [hstart]
    exact .refl rf
  · rw [hstart]
    exact .persist (KeepsVote.congr rfl rfl)

theorem getApplyLogs_durably {rf rf' : Raft n} {msgs : List ApplyMsg}
    (h : rf.getApplyLogs = .ok (rf', msgs)) : Durably rf rf' := by
  rw [(getApplyLogs_eq h).1]
  exact .unwritten (KeepsVote.congr rfl rfl) rfl

theorem snapshot_durably {rf rf' : Raft n} {index : Int} {data : Bytes}
    (h : rf.snapshot index data = .ok rf') : Durably rf rf' := by
  rcases snapshot_cases h with rfl | ⟨newLast, kept, _, _, _, _, rfl⟩
  · exact .refl rf'
  · exact .written (KeepsVote.congr rfl rfl) rfl

theorem leaderSendSnapShot_durably (rf : Raft n) : Durably rf rf.leaderSendSnapShot.1 :=
  .unwritten (KeepsVote.congr rfl rfl) rfl

theorem leaderSendSnapShotReply_durably (rf : Raft n) (server : Fin n)
    (args : InstallSnapshotRequest) (reply : InstallSnapshotResponse) :
    Durably rf (rf.leaderSendSnapShotReply server args reply) := by
  generalize hrun : rf.leaderSendSnapShotReply server args reply = rf'
  cases leaderSendSnapShotReply_effect hrun with
  | ignored => exact .refl rf
  | newerTerm hlt => exact .persist (KeepsVote.newer hlt)
  | noted _ => exact .unwritten (KeepsVote.congr rfl rfl) rfl

theorem followSnapshot_durably (rf : Raft n) (term : Int) :
    Durably rf (rf.followSnapshot term) := by
  unfold followSnapshot
  by_cases hgt : term > rf.currentTerm
  · rw [if_pos hgt]
    exact .written (KeepsVote.newer hgt) rfl
  · rw [if_neg hgt]
    exact .unwritten (KeepsVote.congr rfl rfl) rfl

theorem installSnapshot_durably {rf rf' : Raft n} {args : InstallSnapshotRequest}
    {reply : InstallSnapshotResponse} {msg : Option ApplyMsg}
    (h : rf.installSnapshot args = .ok (rf', reply, msg)) : Durably rf rf' := by
  have hfollow := followSnapshot_durably rf args.term
  rcases installSnapshot_cases h with ⟨_, rfl, _⟩ | ⟨_, ⟨_, rfl, _, _⟩ |
    ⟨logs, _, _, rfl, _, _⟩⟩
  · exact .refl rf'
  · exact hfollow
  · exact .written { term := hfollow.keeps.term, vote := hfollow.keeps.vote } rfl

end Raft
end RaftCore
end KVRaft
