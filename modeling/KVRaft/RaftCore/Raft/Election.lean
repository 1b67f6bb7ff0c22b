import KVRaft.RaftCore.Raft.Index

/-!
# Leader election

The handlers that raise terms and count votes, each with the list of things a
call that does not fault can do.
-/

namespace KVRaft
namespace RaftCore

open Foundation (bind_eq_ok check_of check_of_not check_eq_ok)

namespace Raft

variable {n : Nat}

/-- All peers but one, in the order the source visits them. -/
def othersOf (me : Fin n) : List (Fin n) :=
  (List.finRange n).filter fun i => i ≠ me

/-- Falling back to Follower in a newer term. -/
def stepDown (rf : Raft n) (term : Int) : Raft n :=
  { rf with
    status := .follower
    currentTerm := term
    votedFor := -1 }

/-- The reaction to the term of an incoming request. -/
def observe (rf : Raft n) (term : Int) : Raft n :=
  if term > rf.currentTerm then rf.stepDown term else rf

def upToDate (rf : Raft n) (index term : Int) : Bool :=
  let (lastIndex, lastTerm) := rf.getLastLogIndexAndTerm
  term > lastTerm || (term == lastTerm && index ≥ lastIndex)

variable [Archive]

def becomeCandidate (rf : Raft n) : Raft n :=
  ({ rf with
    status := .candidate
    currentTerm := rf.currentTerm + 1
    votedFor := (rf.me : Nat) } : Raft n).persist

def requestVoteArgs (rf : Raft n) : RequestVoteArgs where
  term := rf.currentTerm
  candidateId := (rf.me : Nat)
  lastLogIndex := rf.getLastLogIndexAndTerm.1
  lastLogTerm := rf.getLastLogIndexAndTerm.2

/-- The new state and the requests sent, all with one shared vote counter. -/
def doElection (rf : Raft n) : Raft n × Option (List (Fin n × RequestVoteArgs)) :=
  if rf.status ≠ .leader then
    let rf := rf.becomeCandidate
    (rf, some ((othersOf rf.me).map fun i => (i, rf.requestVoteArgs)))
  else
    (rf, none)

def becomeLeader (rf : Raft n) : Raft n :=
  let lastLogIndex := rf.getLastLogIndex
  ({ rf with
    status := .leader
    nextIndex := fun _ => lastLogIndex + 1
    matchIndex := fun _ => 0 } : Raft n).persist

/-- What the sending thread does with a reply; it shares `votedNum` with the
other threads of its election. -/
def sendRequestVote (rf : Raft n) (reply : RequestVoteReply) (votedNum : Nat) :
    Outcome (Raft n × Nat) :=
  if reply.term > rf.currentTerm then
    .ok ((rf.stepDown reply.term).persist, votedNum)
  else if reply.term < rf.currentTerm then
    .ok (rf, votedNum)
  else do
    myAssert (reply.term = rf.currentTerm) .voteReplyTerm
    if reply.voteGranted = false then
      return (rf, votedNum)
    else if votedNum + 1 ≥ n / 2 + 1 then
      myAssert (rf.status ≠ .leader) .leaderTwice
      return (rf.becomeLeader, 0)
    else
      return (rf, votedNum + 1)

def requestVote (rf : Raft n) (args : RequestVoteArgs) :
    Outcome (Raft n × RequestVoteReply) :=
  if args.term < rf.currentTerm then
    .ok (rf.persist,
      { term := rf.currentTerm, voteState := expire, voteGranted := false })
  else
    let rf := rf.observe args.term
    do
      myAssert (args.term = rf.currentTerm) .requestVoteTerm
      if rf.upToDate args.lastLogIndex args.lastLogTerm = false then
        return (rf.persist,
          { term := rf.currentTerm, voteState := voted, voteGranted := false })
      else if rf.votedFor ≠ -1 ∧ rf.votedFor ≠ args.candidateId then
        return (rf.persist,
          { term := rf.currentTerm, voteState := voted, voteGranted := false })
      else
        let rf := { rf with votedFor := args.candidateId }
        return (rf.persist,
          { term := rf.currentTerm, voteState := normal, voteGranted := true })

/-!
# What the handlers do
-/

theorem doElection_cases (rf : Raft n) :
    rf.doElection.1 = rf ∨ rf.doElection.1 = rf.becomeCandidate := by
  unfold doElection
  by_cases hstatus : rf.status ≠ .leader
  · rw [if_pos hstatus]
    exact Or.inr rfl
  · rw [if_neg hstatus]
    exact Or.inl rfl

inductive VoteReplyEffect (rf : Raft n) (reply : RequestVoteReply) (votedNum : Nat) :
    Raft n -> Nat -> Prop where
  | newerTerm : rf.currentTerm < reply.term ->
      VoteReplyEffect rf reply votedNum (rf.stepDown reply.term).persist votedNum
  | ignored : VoteReplyEffect rf reply votedNum rf votedNum
  | counted : reply.term = rf.currentTerm -> reply.voteGranted = true ->
      votedNum + 1 < n / 2 + 1 ->
      VoteReplyEffect rf reply votedNum rf (votedNum + 1)
  | elected : reply.term = rf.currentTerm -> reply.voteGranted = true ->
      n / 2 + 1 ≤ votedNum + 1 -> rf.status ≠ .leader ->
      VoteReplyEffect rf reply votedNum rf.becomeLeader 0

theorem sendRequestVote_effect {rf rf' : Raft n} {reply : RequestVoteReply}
    {votedNum votedNum' : Nat}
    (h : rf.sendRequestVote reply votedNum = .ok (rf', votedNum')) :
    VoteReplyEffect rf reply votedNum rf' votedNum' := by
  unfold sendRequestVote at h
  by_cases hgt : reply.term > rf.currentTerm
  · rw [if_pos hgt] at h
    cases h
    exact .newerTerm hgt
  rw [if_neg hgt] at h
  by_cases hlt : reply.term < rf.currentTerm
  · rw [if_pos hlt] at h
    cases h
    exact .ignored
  rw [if_neg hlt] at h
  rcases bind_eq_ok.mp h with ⟨_, hterm, h⟩
  have hterm := check_eq_ok.mp hterm
  by_cases hno : reply.voteGranted = false
  · rw [if_pos hno] at h
    cases h
    exact .ignored
  rw [if_neg hno] at h
  have hyes : reply.voteGranted = true := by simpa using hno
  by_cases hquorum : votedNum + 1 ≥ n / 2 + 1
  · rw [if_pos hquorum] at h
    rcases bind_eq_ok.mp h with ⟨_, hstatus, h⟩
    cases h
    exact .elected hterm hyes hquorum (check_eq_ok.mp hstatus)
  · rw [if_neg hquorum] at h
    cases h
    exact .counted hterm hyes (by omega)

/-- The only way a vote reply can bring a server down. -/
theorem sendRequestVote_fault {rf : Raft n} {reply : RequestVoteReply} {votedNum : Nat}
    {fault : Fault} (h : rf.sendRequestVote reply votedNum = .error fault) :
    fault = .leaderTwice ∧ reply.term = rf.currentTerm ∧ reply.voteGranted = true ∧
      n / 2 + 1 ≤ votedNum + 1 ∧ rf.status = .leader := by
  unfold sendRequestVote at h
  by_cases hgt : reply.term > rf.currentTerm
  · rw [if_pos hgt] at h
    cases h
  rw [if_neg hgt] at h
  by_cases hlt : reply.term < rf.currentTerm
  · rw [if_pos hlt] at h
    cases h
  have hterm : reply.term = rf.currentTerm := by omega
  rw [if_neg hlt, myAssert, check_of hterm] at h
  by_cases hno : reply.voteGranted = false
  · rw [hno] at h
    cases h
  have hyes : reply.voteGranted = true := by simpa using hno
  by_cases hquorum : votedNum + 1 ≥ n / 2 + 1
  · by_cases hstatus : rf.status = .leader
    · simp only [hyes, hquorum, myAssert, check_of_not (not_not_intro hstatus)] at h
      cases h
      exact ⟨rfl, hterm, hyes, hquorum, hstatus⟩
    · simp only [hyes, hquorum, myAssert, check_of hstatus] at h
      cases h
  · simp only [hyes, hquorum] at h
    cases h

inductive RequestVoteEffect (rf : Raft n) (args : RequestVoteArgs) :
    Raft n -> RequestVoteReply -> Prop where
  | stale {reply : RequestVoteReply} : args.term < rf.currentTerm ->
      reply.voteGranted = false -> RequestVoteEffect rf args rf.persist reply
  | refused {reply : RequestVoteReply} : rf.currentTerm ≤ args.term ->
      reply.voteGranted = false ->
      RequestVoteEffect rf args (rf.observe args.term).persist reply
  | granted {reply : RequestVoteReply} : rf.currentTerm ≤ args.term ->
      rf.upToDate args.lastLogIndex args.lastLogTerm = true ->
      ((rf.observe args.term).votedFor = -1 ∨
        (rf.observe args.term).votedFor = args.candidateId) ->
      reply.term = args.term -> reply.voteGranted = true ->
      RequestVoteEffect rf args
        ({ rf.observe args.term with votedFor := args.candidateId } : Raft n).persist
        reply

omit [Archive] in
theorem observe_currentTerm {rf : Raft n} {term : Int} (h : rf.currentTerm ≤ term) :
    (rf.observe term).currentTerm = term := by
  unfold observe
  by_cases hgt : term > rf.currentTerm
  · rw [if_pos hgt]
    rfl
  · rw [if_neg hgt]
    omega

omit [Archive] in
/-- A newer term changes the status, the term and the vote only. -/
theorem observe_eq (rf : Raft n) (term : Int) :
    rf.observe term =
      { rf with
        status := (rf.observe term).status
        currentTerm := (rf.observe term).currentTerm
        votedFor := (rf.observe term).votedFor } := by
  unfold observe
  by_cases hgt : term > rf.currentTerm
  · rw [if_pos hgt]
    rfl
  · rw [if_neg hgt]

section

omit [Archive]

@[simp] theorem observe_me (rf : Raft n) (term : Int) :
    (rf.observe term).me = rf.me := by
  rw [observe_eq]

@[simp] theorem observe_logs (rf : Raft n) (term : Int) :
    (rf.observe term).logs = rf.logs := by
  rw [observe_eq]

@[simp] theorem observe_commitIndex (rf : Raft n) (term : Int) :
    (rf.observe term).commitIndex = rf.commitIndex := by
  rw [observe_eq]

@[simp] theorem observe_lastApplied (rf : Raft n) (term : Int) :
    (rf.observe term).lastApplied = rf.lastApplied := by
  rw [observe_eq]

@[simp] theorem observe_nextIndex (rf : Raft n) (term : Int) :
    (rf.observe term).nextIndex = rf.nextIndex := by
  rw [observe_eq]

@[simp] theorem observe_matchIndex (rf : Raft n) (term : Int) :
    (rf.observe term).matchIndex = rf.matchIndex := by
  rw [observe_eq]

@[simp] theorem observe_lastSnapshotIncludeIndex (rf : Raft n) (term : Int) :
    (rf.observe term).lastSnapshotIncludeIndex = rf.lastSnapshotIncludeIndex := by
  rw [observe_eq]

@[simp] theorem observe_lastSnapshotIncludeTerm (rf : Raft n) (term : Int) :
    (rf.observe term).lastSnapshotIncludeTerm = rf.lastSnapshotIncludeTerm := by
  rw [observe_eq]

end

omit [Archive] in
theorem observe_upToDate (rf : Raft n) (term index last : Int) :
    (rf.observe term).upToDate index last = rf.upToDate index last := by
  rw [observe_eq]
  rfl

theorem requestVote_effect {rf rf' : Raft n} {args : RequestVoteArgs}
    {reply : RequestVoteReply} (h : rf.requestVote args = .ok (rf', reply)) :
    RequestVoteEffect rf args rf' reply := by
  unfold requestVote at h
  by_cases hlt : args.term < rf.currentTerm
  · rw [if_pos hlt] at h
    cases h
    exact .stale hlt rfl
  rw [if_neg hlt] at h
  have hle : rf.currentTerm ≤ args.term := by omega
  simp only [observe_upToDate] at h
  rcases bind_eq_ok.mp h with ⟨_, _, h⟩
  by_cases hold : rf.upToDate args.lastLogIndex args.lastLogTerm = false
  · rw [if_pos hold] at h
    cases h
    exact .refused hle rfl
  rw [if_neg hold] at h
  by_cases hvote : (rf.observe args.term).votedFor ≠ -1 ∧
      (rf.observe args.term).votedFor ≠ args.candidateId
  · rw [if_pos hvote] at h
    cases h
    exact .refused hle rfl
  · rw [if_neg hvote] at h
    cases h
    have hfree : (rf.observe args.term).votedFor = -1 ∨
        (rf.observe args.term).votedFor = args.candidateId := by
      by_contra hother
      rw [not_or] at hother
      exact hvote hother
    exact .granted hle (by simpa using hold) hfree (observe_currentTerm hle) rfl

end Raft
end RaftCore
end KVRaft
