import KVRaft.RaftCore.Safety.CompactionTransparent

/-!
# Heartbeats send the missing suffix

A peer whose next index the leader still retains is sent the entries from there on and
told what lies before them, at the snapshot boundary as elsewhere.
-/

namespace KVRaft
namespace RaftCore

open Foundation (bind_eq_ok check_of)

variable {n : Nat}

/-- The request covers the log of its sender from the next index of peer `i` on. -/
structure SendsSuffix (rf : Raft n) (i : Fin n) (args : AppendEntriesArgs) : Prop where
  prevLogIndex : args.prevLogIndex = rf.nextIndex i - 1
  prevLogTerm : rf.getLogTermFromLogIndex (rf.nextIndex i - 1) = .ok args.prevLogTerm
  atBase : rf.nextIndex i = rf.lastSnapshotIncludeIndex + 1 ->
    args.prevLogTerm = rf.lastSnapshotIncludeTerm
  length : args.prevLogIndex + args.entriesSize = rf.getLastLogIndex
  entries : forall k : Nat, k < args.entries.length -> exists log,
    args.entries[k]? = some log ∧ rf.logAtIndex (rf.nextIndex i + k) = .ok log ∧
      log.logIndex = rf.nextIndex i + k

section

variable {rf : Raft n} {i : Fin n} {m : Nat}

/-- The request built for a peer that misses the entries from place `m` on. -/
def Raft.suffixArgs (rf : Raft n) (prevLogTerm : Int) (m : Nat) : AppendEntriesArgs where
  term := rf.currentTerm
  leaderId := (rf.me : Nat)
  prevLogIndex := rf.lastSnapshotIncludeIndex + m
  prevLogTerm := prevLogTerm
  entries := rf.logs.drop m
  leaderCommit := rf.commitIndex

private theorem place_succ (base : Int) (m : Nat) :
    base + ((m + 1 : Nat) : Int) = base + 1 + m := by
  push_cast
  omega

theorem Consecutive.getPrevLogInfo
    (h : Consecutive (rf.lastSnapshotIncludeIndex + 1) rf.logs) (hm : m ≤ rf.logs.length)
    (hnext : rf.nextIndex i = rf.lastSnapshotIncludeIndex + 1 + m) :
    exists prevLogTerm,
      rf.getPrevLogInfo i = .ok (rf.lastSnapshotIncludeIndex + m, prevLogTerm) ∧
      rf.getLogTermFromLogIndex (rf.lastSnapshotIncludeIndex + m) = .ok prevLogTerm := by
  unfold Raft.getPrevLogInfo
  cases m with
  | zero =>
      have hbase : rf.lastSnapshotIncludeIndex + ((0 : Nat) : Int) =
          rf.lastSnapshotIncludeIndex := by omega
      rw [if_pos (by rw [hnext]; omega), hbase]
      exact ⟨_, rfl, h.term_base⟩
  | succ m =>
      rcases getElem?_of_lt (show m < rf.logs.length by omega) with ⟨log, hlog⟩
      have hprev : rf.nextIndex i - 1 = rf.lastSnapshotIncludeIndex + 1 + m := by
        rw [hnext]
        push_cast
        omega
      rw [if_neg (by rw [hnext]; push_cast; omega), hprev, place_succ]
      simp only [bind, Except.bind, h.logAtIndex_eq hlog]
      exact ⟨_, rfl, h.term_eq hlog⟩

/-- Both ways of copying take the same entries. -/
theorem Consecutive.entriesAfter
    (h : Consecutive (rf.lastSnapshotIncludeIndex + 1) rf.logs)
    (hm : m ≤ rf.logs.length) :
    rf.entriesAfter (rf.lastSnapshotIncludeIndex + m) = .ok (rf.logs.drop m) := by
  unfold Raft.entriesAfter
  cases m with
  | zero =>
      rw [if_neg (not_not_intro (by omega))]
      rfl
  | succ m =>
      rw [if_pos (by push_cast; omega), place_succ]
      simp only [bind, Except.bind, h.slice_eq (show m < rf.logs.length by omega)]
      rfl

theorem Consecutive.sendsSuffix
    (h : Consecutive (rf.lastSnapshotIncludeIndex + 1) rf.logs) (hm : m ≤ rf.logs.length)
    (hnext : rf.nextIndex i = rf.lastSnapshotIncludeIndex + 1 + m) {prevLogTerm : Int}
    (hterm : rf.getLogTermFromLogIndex (rf.lastSnapshotIncludeIndex + m) =
      .ok prevLogTerm) : SendsSuffix rf i (rf.suffixArgs prevLogTerm m) where
  prevLogIndex := by
    rw [hnext]
    change rf.lastSnapshotIncludeIndex + m = _
    omega
  prevLogTerm := by
    rw [hnext, show rf.lastSnapshotIncludeIndex + 1 + m - 1 =
      rf.lastSnapshotIncludeIndex + m by omega]
    exact hterm
  atBase := by
    intro hbase
    have hzero : rf.lastSnapshotIncludeIndex + m = rf.lastSnapshotIncludeIndex := by omega
    rw [hzero, h.term_base] at hterm
    exact (Except.ok.inj hterm).symm
  length := by
    rw [h.lastIndex, AppendEntriesArgs.entriesSize]
    change rf.lastSnapshotIncludeIndex + m + ((rf.logs.drop m).length : Int) = _
    rw [List.length_drop]
    omega
  entries := by
    intro k hk
    change k < (rf.logs.drop m).length at hk
    rw [List.length_drop] at hk
    rcases getElem?_of_lt (show m + k < rf.logs.length by omega) with ⟨log, hlog⟩
    have hplace : rf.nextIndex i + k =
        rf.lastSnapshotIncludeIndex + 1 + ((m + k : Nat) : Int) := by
      rw [hnext]
      push_cast
      omega
    refine ⟨log, ?_, ?_, ?_⟩
    · change (rf.logs.drop m)[k]? = _
      rw [List.getElem?_drop]
      exact hlog
    · rw [hplace]
      exact h.logAtIndex_eq hlog
    · rw [hplace]
      exact consecutive_iff.mp h _ log hlog

end

/-- The heartbeat for a peer whose next index is retained asserts that this index is
positive and nothing else can stop it. -/
theorem heartBeatTo_suffix {rf : Raft n} (h : NodeInvariant rf) {i : Fin n}
    (hlo : rf.lastSnapshotIncludeIndex < rf.nextIndex i)
    (hhi : rf.nextIndex i ≤ rf.getLastLogIndex + 1) :
    exists args, SendsSuffix rf i args ∧
      rf.heartBeatTo i = (myAssert (rf.nextIndex i ≥ 1) .heartBeatNextIndex).map
        fun _ => .appendEntries i args := by
  have hlogs := h.consecutive
  rw [hlogs.lastIndex] at hhi
  obtain ⟨m, hnext⟩ : exists m : Nat,
      rf.nextIndex i = rf.lastSnapshotIncludeIndex + 1 + m :=
    ⟨(rf.nextIndex i - rf.lastSnapshotIncludeIndex - 1).toNat, by omega⟩
  have hm : m ≤ rf.logs.length := by omega
  rcases hlogs.getPrevLogInfo hm hnext with ⟨prevLogTerm, hprev, hterm⟩
  have hsuffix := hlogs.sendsSuffix hm hnext hterm
  refine ⟨_, hsuffix, ?_⟩
  unfold Raft.heartBeatTo
  cases hnextIndex : (myAssert (rf.nextIndex i ≥ 1) .heartBeatNextIndex : Outcome Unit) with
  | error fault => rfl
  | ok _ =>
      simp only [bind, Except.bind, if_neg (not_le.mpr hlo), hprev, hlogs.entriesAfter hm]
      exact congrArg (fun x => Except.bind x fun _ => _) (check_of hsuffix.length)

/-- A leader's heartbeat sends a peer whose next index is retained exactly the entries
from there on. -/
theorem doHeartBeat_sends_suffix {rf : Raft n} (h : NodeInvariant rf)
    (hl : rf.status = .leader) {i : Fin n}
    (hlo : rf.lastSnapshotIncludeIndex < rf.nextIndex i)
    (hhi : rf.nextIndex i ≤ rf.getLastLogIndex + 1) :
    (exists args, SendsSuffix rf i args ∧
      rf.heartBeatTo i = (myAssert (rf.nextIndex i ≥ 1) .heartBeatNextIndex).map
        fun _ => .appendEntries i args) ∧
    exists messages fault, rf.doHeartBeat = some (messages, fault) ∧
      forall message, message ∈ messages -> message.server = i ->
        exists args, message = .appendEntries i args ∧ SendsSuffix rf i args := by
  rcases heartBeatTo_suffix h hlo hhi with ⟨args, hsuffix, hrun⟩
  refine ⟨⟨args, hsuffix, hrun⟩, _, _, if_pos hl, ?_⟩
  intro message hmessage hserver
  have hto := Raft.mem_heartBeats hmessage
  rw [hserver, hrun] at hto
  rcases map_ok hto with ⟨_, _, heq⟩
  exact ⟨args, heq.symm, hsuffix⟩

/-- The same node as a leader, with one peer at the snapshot boundary and one at the end
of the log. -/
def compactedLeader : Raft 3 :=
  { compactedNode with
    status := .leader
    nextIndex := fun j => if j = 1 then 3 else 5 }

theorem compactedLeader_invariant : NodeInvariant compactedLeader where
  logs := compactedNode_invariant.logs
  snapshot := by decide
  applied := by decide
  commit := by decide

theorem compactedLeader_sends_suffix :
    exists messages fault, compactedLeader.doHeartBeat = some (messages, fault) ∧
      forall message, message ∈ messages -> message.server = 1 ->
        exists args, message = .appendEntries 1 args ∧ SendsSuffix compactedLeader 1 args :=
  (doHeartBeat_sends_suffix compactedLeader_invariant rfl (by decide) (by decide)).2

end RaftCore
end KVRaft
