import Mathlib.Data.Finset.Card
import KVRaft.RaftCore.Safety.LeaderNotes
import KVRaft.RaftCore.Raft.PlainArchive

/-!
# Commits that are missed

A leader commits when the replies to one round make a majority, and then by the entries
of the last of them.  What its match indices say of all rounds together is not looked at.
-/

namespace KVRaft
namespace RaftCore

open Foundation LogSystem Cluster

namespace Raft

variable {n : Nat}

/-- The servers known to hold the log up to an index, the leader itself counted. -/
def matching (rf : Raft n) (index : Int) : Finset (Fin n) :=
  Finset.univ.filter fun j => j = rf.me ∨ index ≤ rf.matchIndex j

/-- Every entry of the leader's term that a majority is known to hold is committed. -/
def CommitsMatched (rf : Raft n) : Prop :=
  forall index, rf.getLogTermFromLogIndex index = .ok rf.currentTerm ->
    n / 2 + 1 ≤ (rf.matching index).card -> index ≤ rf.commitIndex

/-- A good reply that reaches the leader in the term it is from. -/
def CountsSuccess (rf : Raft n) (reply : AppendEntriesReply) : Prop :=
  reply.appState ≠ disconnected ∧ rf.status = .leader ∧ reply.term = rf.currentTerm ∧
    reply.success = true

/-- The reply of `server` is the one by which a majority is known to hold an entry of the
leader's term that is not committed yet. -/
structure Completes (rf : Raft n) (server : Fin n) (args : AppendEntriesArgs)
    (index : Int) : Prop where
  new : rf.commitIndex < index
  own : rf.getLogTermFromLogIndex index = .ok rf.currentTerm
  missing : rf.matchIndex server < index
  sent : index ≤ args.prevLogIndex + args.entriesSize
  majority : n / 2 + 1 ≤ (rf.matching index).card + 1

theorem mem_matching {rf : Raft n} {index : Int} {j : Fin n} :
    j ∈ rf.matching index <-> j = rf.me ∨ index ≤ rf.matchIndex j := by
  simp [matching]

/-- A majority of two or more servers has a member beside the leader. -/
theorem exists_matched {rf : Raft n} (hn : 2 ≤ n) {index : Int}
    (h : n / 2 + 1 ≤ (rf.matching index).card) : exists j, index ≤ rf.matchIndex j := by
  rcases Finset.exists_mem_ne (show 1 < (rf.matching index).card by omega) rf.me with
    ⟨j, hj, hne⟩
  rcases mem_matching.mp hj with hme | hmatch
  · exact absurd hme hne
  · exact ⟨j, hmatch⟩

/-- A peer that comes to match adds one. -/
theorem matching_recordMatch {rf : Raft n} {server : Fin n} {args : AppendEntriesArgs}
    {index : Int} (hme : server ≠ rf.me) (hmissing : rf.matchIndex server < index)
    (hsent : index ≤ args.prevLogIndex + args.entriesSize) :
    ((rf.recordMatch server args).matching index).card = (rf.matching index).card + 1 := by
  have hnot : server ∉ rf.matching index := by
    intro hmem
    rcases mem_matching.mp hmem with heq | hle
    · exact hme heq
    · omega
  rw [← Finset.card_insert_of_notMem hnot]
  congr 1
  ext j
  rw [Finset.mem_insert, mem_matching, mem_matching]
  change j = rf.me ∨ index ≤ Function.update rf.matchIndex server _ j <-> _
  rw [Function.update_apply]
  by_cases hj : j = server
  · rw [if_pos hj]
    exact ⟨fun _ => Or.inl hj, fun _ => Or.inr (hsent.trans (le_max_right _ _))⟩
  · rw [if_neg hj]
    exact ⟨Or.inr, fun h => h.resolve_left hj⟩

/-- A peer that is not sent enough, or has matched before, adds nothing. -/
theorem matching_recordMatch_same {rf : Raft n} {server : Fin n} {args : AppendEntriesArgs}
    {index : Int}
    (h : ¬ (rf.matchIndex server < index ∧ index ≤ args.prevLogIndex + args.entriesSize)) :
    (rf.recordMatch server args).matching index = rf.matching index := by
  ext j
  rw [mem_matching, mem_matching]
  change j = rf.me ∨ index ≤ Function.update rf.matchIndex server _ j <-> _
  rw [Function.update_apply]
  by_cases hj : j = server
  · rw [if_pos hj, hj]
    apply or_congr_right
    rw [le_max_iff]
    constructor
    · rintro (hold | hnew)
      · exact hold
      · by_contra hmissing
        exact h ⟨not_le.mp hmissing, hnew⟩
    · exact Or.inl
  · rw [if_neg hj]

/-- The leader after a good reply to a round with so many good ones before. -/
def afterSuccess (rf : Raft n) (server : Fin n) (args : AppendEntriesArgs)
    (appendNums : Nat) : Raft n :=
  if n / 2 + 1 ≤ appendNums + 1 then
    (rf.recordMatch server args).commitSent args
  else
    rf.recordMatch server args

theorem sendAppendEntries_success {rf rf' : Raft n} {server : Fin n}
    {args : AppendEntriesArgs} {reply : AppendEntriesReply} {appendNums appendNums' : Nat}
    (h : rf.CountsSuccess reply)
    (hrun : rf.sendAppendEntries server args reply appendNums = .ok (rf', appendNums')) :
    rf' = rf.afterSuccess server args appendNums := by
  rcases h with ⟨hup, hleader, hterm, hyes⟩
  unfold sendAppendEntries at hrun
  rw [if_neg hup, if_neg (not_lt.mpr hterm.le), if_neg (not_lt.mpr hterm.ge),
    if_neg (not_not_intro hleader), myAssert, check_of hterm, hyes] at hrun
  rcases Foundation.bind_eq_ok.mp hrun with ⟨_, _, hrun⟩
  rw [if_neg Bool.noConfusion] at hrun
  rcases Foundation.bind_eq_ok.mp hrun with ⟨_, _, hrun⟩
  unfold afterSuccess
  by_cases hquorum : n / 2 + 1 ≤ appendNums + 1
  · rw [if_pos (show appendNums + 1 ≥ 1 + n / 2 by omega)] at hrun
    rcases Foundation.bind_eq_ok.mp hrun with ⟨_, _, hrun⟩
    cases hrun
    rw [if_pos hquorum]
  · rw [if_neg (show ¬ appendNums + 1 ≥ 1 + n / 2 by omega)] at hrun
    cases hrun
    rw [if_neg hquorum]

/-- A good reply moves the commit index besides what it records, and only forward. -/
theorem afterSuccess_eq (rf : Raft n) (server : Fin n) (args : AppendEntriesArgs)
    (appendNums : Nat) : exists commitIndex, rf.commitIndex ≤ commitIndex ∧
      rf.afterSuccess server args appendNums =
        { rf.recordMatch server args with commitIndex := commitIndex } := by
  unfold afterSuccess
  by_cases hquorum : n / 2 + 1 ≤ appendNums + 1
  · rw [if_pos hquorum]
    rcases commitSent_cases (rf.recordMatch server args) args with heq | ⟨_, heq⟩
    · rw [heq]
      exact ⟨rf.commitIndex, le_refl _, rfl⟩
    · rw [heq]
      exact ⟨_, le_max_left _ _, rfl⟩
  · rw [if_neg hquorum]
    exact ⟨rf.commitIndex, le_refl _, rfl⟩

/-- What the match indices allow after a good reply. -/
theorem afterSuccess_commitsMatched (rf : Raft n) (server : Fin n)
    (args : AppendEntriesArgs) (appendNums : Nat) :
    (rf.afterSuccess server args appendNums).CommitsMatched <->
      forall index, rf.getLogTermFromLogIndex index = .ok rf.currentTerm ->
        n / 2 + 1 ≤ ((rf.recordMatch server args).matching index).card ->
        index ≤ (rf.afterSuccess server args appendNums).commitIndex := by
  rcases afterSuccess_eq rf server args appendNums with ⟨commitIndex, _, heq⟩
  rw [heq]
  exact Iff.rfl

/-- A reply that completes a majority commits by its round only if it is the one that
completes the round, with an entry of the leader's term at its end. -/
theorem counted_of_commitsMatched {rf : Raft n} {server : Fin n} {args : AppendEntriesArgs}
    {appendNums : Nat} (hme : server ≠ rf.me)
    (h : (rf.afterSuccess server args appendNums).CommitsMatched) {index : Int}
    (hcompletes : rf.Completes server args index) :
    n / 2 + 1 ≤ appendNums + 1 ∧
      args.entries.getLast?.map LogEntry.logTerm = some rf.currentTerm := by
  have hmajority : n / 2 + 1 ≤ ((rf.recordMatch server args).matching index).card := by
    rw [matching_recordMatch hme hcompletes.missing hcompletes.sent]
    exact hcompletes.majority
  have hindex := (afterSuccess_commitsMatched rf server args appendNums).mp h index
    hcompletes.own hmajority
  have hnew := not_le.mpr hcompletes.new
  unfold afterSuccess at hindex
  by_cases hquorum : n / 2 + 1 ≤ appendNums + 1
  · refine ⟨hquorum, ?_⟩
    rw [if_pos hquorum] at hindex
    rcases commitSent_cases (rf.recordMatch server args) args with heq | ⟨hown, _⟩
    · rw [heq] at hindex
      exact absurd hindex hnew
    · exact hown
  · rw [if_neg hquorum] at hindex
    exact absurd hindex hnew

/-- The commit rule of a round keeps up with the match indices as long as the reply that
completes a majority is the one its round commits by. -/
theorem success_commitsMatched {rf : Raft n} {server : Fin n} {args : AppendEntriesArgs}
    {appendNums : Nat} (hme : server ≠ rf.me) (h : rf.CommitsMatched)
    (hcounted : forall index, rf.Completes server args index ->
      n / 2 + 1 ≤ appendNums + 1 ∧
        args.entries.getLast?.map LogEntry.logTerm = some rf.currentTerm) :
    (rf.afterSuccess server args appendNums).CommitsMatched := by
  rw [afterSuccess_commitsMatched]
  intro index hown hmajority
  have hcommit : rf.commitIndex ≤ (rf.afterSuccess server args appendNums).commitIndex := by
    rcases afterSuccess_eq rf server args appendNums with ⟨commitIndex, hle, heq⟩
    rw [heq]
    exact hle
  by_cases hold : index ≤ rf.commitIndex
  · exact hold.trans hcommit
  by_cases hcover : rf.matchIndex server < index ∧
      index ≤ args.prevLogIndex + args.entriesSize
  · rcases hcover with ⟨hmissing, hsent⟩
    rw [matching_recordMatch hme hmissing hsent] at hmajority
    rcases hcounted index ⟨not_le.mp hold, hown, hmissing, hsent, hmajority⟩ with
      ⟨hquorum, hlast⟩
    have hlast' : args.entries.getLast?.map LogEntry.logTerm =
        some (rf.recordMatch server args).currentTerm := hlast
    rw [afterSuccess, if_pos hquorum, commitSent, if_pos hlast']
    exact hsent.trans (le_max_right _ _)
  · rw [matching_recordMatch_same hcover] at hmajority
    exact (h index hown hmajority).trans hcommit

/-- Overwriting a match index by one that is committed completes no majority. -/
theorem noteSnapshot_commitsMatched {rf : Raft n} (h : rf.CommitsMatched) (server : Fin n)
    {index : Int} (hle : index ≤ rf.commitIndex) :
    (rf.noteSnapshot server index).CommitsMatched := by
  intro i hown hmajority
  by_contra hnew
  change ¬ i ≤ rf.commitIndex at hnew
  have hsub : (rf.noteSnapshot server index).matching i ⊆ rf.matching i := by
    intro j hj
    rw [mem_matching] at hj ⊢
    change j = rf.me ∨ i ≤ Function.update rf.matchIndex server index j at hj
    rw [Function.update_apply] at hj
    by_cases hserver : j = server
    · rw [if_pos hserver] at hj
      rcases hj with hme | hpast
      · exact Or.inl hme
      · omega
    · rw [if_neg hserver] at hj
      exact hj
  exact hnew (h i hown (hmajority.trans (Finset.card_le_card hsub)))

end Raft

section

variable {n : Nat}

/-- After each good reply the leader has committed what its match indices allow. -/
def NeverMissed [Archive] (r : (clusterSystem n).Run) : Prop :=
  forall t, t ∈ r.trace -> forall k, t.action = .appendEntriesReply k -> forall call,
    t.before.appendCalls[k]? = some call -> forall reply, call.phase = .replied reply ->
    (t.before.raft call.caller).CountsSuccess reply ->
    (t.after.raft call.caller).CommitsMatched

/-- A reply that completes a majority for an entry of the leader's term also completes
the majority of its round, and its request ends in an entry of that term. -/
def CompletesRound (t : Transition (Cluster n) (Action n)) : Prop :=
  forall k, t.action = .appendEntriesReply k -> forall call,
    t.before.appendCalls[k]? = some call -> forall reply, call.phase = .replied reply ->
    (t.before.raft call.caller).CountsSuccess reply -> forall index,
    (t.before.raft call.caller).Completes call.callee call.args index ->
    n / 2 + 1 ≤ (t.before.appendNums call.caller).getD call.counter 0 + 1 ∧
      call.args.entries.getLast?.map LogEntry.logTerm =
        some (t.before.raft call.caller).currentTerm

variable {α β : Logs n} {σ σ' : Cluster n}

/-- An entry that its leader holds has had its term before, if it was there. -/
theorem Represents.ownTerm_before {v : Fin n} {rf rf' : Raft n} (h : Represents α v rf)
    (h' : Represents β v rf') (hlog : α.log v <+: β.log v) (index : Int) {term : Int}
    (hlo : rf.commitIndex < index) (hhi : index ≤ rf.getLastLogIndex)
    (hterm : rf'.getLogTermFromLogIndex index = .ok term) :
    rf.getLogTermFromLogIndex index = .ok term := by
  rcases h.held with ⟨s, hs, happ⟩
  rcases h'.held with ⟨s', hs', _⟩
  rcases hs'.termOf_inv hterm with ⟨k, rfl, _, _, rfl⟩
  have happlied := h.applied
  rw [hs.lastIndex] at hhi
  rw [termAt_of_isPrefix hlog (by omega)]
  exact hs.termOf (by omega) (by omega)

/-- A leader that leads on only adds to its log. -/
theorem leader_log_grows (h : Refines α σ) (h' : Refines β σ')
    (hgrow : Grows α β) {i : Fin n} (hl : (σ.raft i).status = .leader)
    (hl' : (σ'.raft i).status = .leader)
    (hterm : (σ'.raft i).currentTerm = (σ.raft i).currentTerm) : α.log i <+: β.log i := by
  rw [((h.node i).leads hl).2.2, ((h'.node i).leads hl').2.2, hterm]
  exact hgrow.leaderLog _

/-- As long as the notes stay, so do the majorities that they show. -/
theorem kept_commitsMatched (hn : 2 ≤ n) (h : Refines α σ) (hnoted : Noted σ) {i : Fin n}
    {rf : Raft n} (hrf : Represents β i rf) (hkeep : (σ.raft i).KeepsNotes rf)
    (hlog : α.log i <+: β.log i) (hcommit : (σ.raft i).commitIndex ≤ rf.commitIndex)
    (hl : rf.status = .leader) (hmatched : (σ.raft i).CommitsMatched) :
    rf.CommitsMatched := by
  rcases hkeep.leads hl with ⟨hbefore, hterm⟩
  intro index hown hmajority
  by_contra hnew
  have hsame : rf.matching index = (σ.raft i).matching index := by
    rw [Raft.matching, Raft.matching, hkeep.matchIndex, hrf.me, (h.node i).me]
  rw [hsame] at hmajority
  rcases Raft.exists_matched hn hmajority with ⟨j, hj⟩
  have hlast := (hnoted.matched i hbefore j).2
  have hown' := (h.node i).ownTerm_before hrf hlog index (by omega) (by omega) hown
  rw [hterm] at hown'
  have hdone := hmatched index hown' hmajority
  omega

theorem elected_commitsMatched [Archive] (hn : 2 ≤ n) {i : Fin n} {rf : Raft n}
    (h : Represents α i rf) : rf.becomeLeader.CommitsMatched := by
  intro index _ hmajority
  rcases Raft.exists_matched hn hmajority with ⟨j, hj⟩
  rcases h.held with ⟨s, hs, happ⟩
  have happlied := h.applied
  change index ≤ 0 at hj
  change index ≤ rf.commitIndex
  omega

theorem replied_commitsMatched {rf rf' : Raft n} {server : Fin n}
    {args : AppendEntriesArgs} {reply : AppendEntriesReply} {appendNums appendNums' : Nat}
    (hme : server ≠ rf.me)
    (hrun : rf.sendAppendEntries server args reply appendNums = .ok (rf', appendNums'))
    (hround : rf.CountsSuccess reply -> forall index, rf.Completes server args index ->
      n / 2 + 1 ≤ appendNums + 1 ∧
        args.entries.getLast?.map LogEntry.logTerm = some rf.currentTerm)
    (hl : rf'.status = .leader)
    (hmatched : rf.status = .leader -> rf.CommitsMatched) : rf'.CommitsMatched := by
  by_cases hdown : reply.appState = disconnected
  · rw [Raft.sendAppendEntries, if_pos hdown] at hrun
    cases hrun
    exact hmatched hl
  have hsuccess : reply.term = rf.currentTerm -> rf.status = .leader ->
      reply.success = true -> rf'.CommitsMatched := by
    intro hterm hleader hyes
    have hcounts : rf.CountsSuccess reply := ⟨hdown, hleader, hterm, hyes⟩
    rw [Raft.sendAppendEntries_success hcounts hrun]
    exact Raft.success_commitsMatched hme (hmatched hleader) (hround hcounts)
  cases Raft.sendAppendEntries_effect hrun with
  | newerTerm _ => cases hl
  | ignored => exact hmatched hl
  | hinted _ hleader _ _ => exact hmatched hleader
  | counted hterm hleader hyes _ => exact hsuccess hterm hleader hyes
  | majority hterm hleader hyes _ _ => exact hsuccess hterm hleader hyes

variable [Archive]

/-- One step keeps what every leader has committed up to date. -/
theorem commitsMatched_step {a : Action n} (hn : 2 ≤ n) (h : Refines α σ)
    (h' : Refines β σ') (hgrow : Grows α β) (hnoted : Noted σ) (hstep : StepEffect σ a σ')
    (hless : forall i, NoneLess (σ.raft i) (σ'.raft i))
    (hround : CompletesRound { before := σ, action := a, after := σ' })
    (hmatched : forall i, (σ.raft i).status = .leader -> (σ.raft i).CommitsMatched)
    (i : Fin n) (hl : (σ'.raft i).status = .leader) : (σ'.raft i).CommitsMatched := by
  have hnote := hstep.noteStep i
  have hlog := leader_log_grows h h' hgrow (i := i)
  have hnode' := h'.node i
  have hcommit := (hless i).commit
  revert hl hnote hlog hnode' hcommit
  generalize σ'.raft i = rf
  intro hl hnote hlog hnode' hcommit
  cases hnote with
  | kept hkeep =>
      rcases hkeep.leads hl with ⟨hbefore, hterm⟩
      exact kept_commitsMatched hn h hnoted hnode' hkeep (hlog hbefore hl hterm) hcommit hl
        (hmatched i hbefore)
  | elected _ => exact elected_commitsMatched hn (h.node i)
  | @replied k appendNums call reply _ hk hcaller hphase hrun =>
      have hme : call.callee ≠ (σ.raft i).me := by
        rw [(h.node i).me, ← hcaller]
        exact h.rounds.other (List.mem_of_getElem? hk)
      have hcompletes := hround k rfl call hk reply hphase
      rw [hcaller] at hcompletes
      exact replied_commitsMatched hme hrun hcompletes hl (hmatched i)
  | @noted k call args reply hk hcaller hphase hcounts =>
      rcases hnoted.base call (List.mem_of_getElem? hk) args (Or.inr ⟨reply, hphase⟩) with
        ⟨_, hbase⟩
      rw [hcaller] at hbase
      rcases (h.node i).held with ⟨s, hs, happ⟩
      have hindex := hs.index
      have happlied := (h.node i).applied
      exact Raft.noteSnapshot_commitsMatched (hmatched i hcounts.1) call.callee (by omega)

theorem commitsMatched {tr : List (Transition (Cluster n) (Action n))} (hn : 2 ≤ n)
    (h : (clusterSystem n).Trace tr σ) (hround : forall t, t ∈ tr -> CompletesRound t)
    (i : Fin n) (hl : (σ.raft i).status = .leader) : (σ.raft i).CommitsMatched := by
  refine TransitionSystem.Trace.invariant_under
    (P := fun _ σ => forall i, (Cluster.raft σ i).status = .leader ->
      (Cluster.raft σ i).CommitsMatched) ?_ ?_ h hround i hl
  · intro i hl
    change ((Cluster.initial n).raft i).status = .leader at hl
    rw [initial_raft] at hl
    cases hl
  · intro tr σ σ' a htrace _ hold hstep hlast i hl
    rcases explained htrace with ⟨α, hα⟩
    rcases simulates hα.ballots hα.refines (step_effect hstep) with ⟨β, hsim⟩
    rcases hsim.moves with ⟨v, hmoves⟩
    exact commitsMatched_step hn hα.refines hsim.refines (hmoves.grows hα.ballots)
      (noted htrace) (step_effect hstep) (noneLess_of_step htrace hstep) hlast hold i hl

/-- What a good reply leaves of the leader; its thread does not fault. -/
theorem success_step {tr : List (Transition (Cluster n) (Action n))} {k : Nat}
    {call : AppendCall n} {reply : AppendEntriesReply} (htrace : (clusterSystem n).Trace tr σ)
    (hstep : StepEffect σ (.appendEntriesReply k) σ')
    (hk : σ.appendCalls[k]? = some call) (hphase : call.phase = .replied reply)
    (hcounts : (σ.raft call.caller).CountsSuccess reply) :
    call.callee ≠ call.caller ∧ call.callee ≠ (σ.raft call.caller).me ∧
      σ'.raft call.caller =
        (σ.raft call.caller).afterSuccess call.callee call.args
          ((σ.appendNums call.caller).getD call.counter 0) := by
  have hcall := List.mem_of_getElem? hk
  rcases explained htrace with ⟨α, hα⟩
  have hother := hα.refines.rounds.other hcall
  refine ⟨hother, ?_, ?_⟩
  · rw [(hα.refines.node call.caller).me]
    exact hother
  · rcases (noted htrace).sendAppendEntries hα.refines hcall hphase
      ((σ.appendNums call.caller).getD call.counter 0) with ⟨⟨rf, appendNums⟩, hrun⟩
    rw [hstep.appendEntriesReply_raft hk hphase hrun]
    exact Raft.sendAppendEntries_success hcounts hrun

/-- No commit is missed exactly in the runs whose completed majorities each complete
their round too. -/
theorem never_missed_iff (r : (clusterSystem n).Run) :
    NeverMissed r <-> r.Always CompletesRound := by
  constructor
  · intro hnever t ht k haction call hk reply hphase hcounts index hcompletes
    rcases r.valid.before_of_mem ht with ⟨earlier, htrace, _⟩
    have hstep := step_effect (r.valid.step_of_mem ht)
    rw [haction] at hstep
    rcases success_step htrace hstep hk hphase hcounts with ⟨_, hme, hafter⟩
    have hmatched := hnever t ht k haction call hk reply hphase hcounts
    rw [hafter] at hmatched
    exact Raft.counted_of_commitsMatched hme hmatched hcompletes
  · intro hround t ht k haction call hk reply hphase hcounts
    rcases r.valid.before_of_mem ht with ⟨earlier, htrace, hsub⟩
    have hstep := step_effect (r.valid.step_of_mem ht)
    rw [haction] at hstep
    rcases success_step htrace hstep hk hphase hcounts with ⟨hother, hme, hafter⟩
    have hn : 2 ≤ n := by
      have hcallee := call.callee.isLt
      have hcaller := call.caller.isLt
      by_contra hone
      exact hother (Fin.ext (by omega))
    have hbefore := commitsMatched hn htrace (fun u hu => hround u (hsub u hu)) call.caller
      hcounts.2.1
    rw [hafter]
    exact Raft.success_commitsMatched hme hbefore
      (hround t ht k haction call hk reply hphase hcounts)

end

/-!
# A majority of two rounds

Server 0 of four sends its entry in two rounds.  In each of them one reply comes back,
from server 1 in the first and from server 2 in the second: three servers hold the
entry, and the leader knows it, but neither round has a majority.
-/

def splitRoundsSchedule : List (Action 4) :=
  [.doElection 0, .requestVote 0, .requestVote 1, .requestVoteReply 0,
    .requestVoteReply 1, .start 0 [1], .doHeartBeat 0, .appendEntries 0,
    .appendEntriesReply 0, .doHeartBeat 0, .appendEntries 4, .appendEntriesReply 4]

def splitRoundsRun : (@clusterSystem plainArchive 4).Run :=
  TransitionSystem.runOf _ splitRoundsSchedule (by decide +kernel)

theorem splitRoundsRun_missed : ¬ @NeverMissed 4 plainArchive splitRoundsRun := by
  intro h
  have hreply : exists t, t ∈ splitRoundsRun.trace ∧ t.action = .appendEntriesReply 4 ∧
      exists call, t.before.appendCalls[4]? = some call ∧ call.caller = 0 ∧
        call.phase = .replied { appState := appNormal, success := true, term := 1 } ∧
        (t.before.raft 0).status = .leader ∧ (t.before.raft 0).currentTerm = 1 ∧
        (t.after.raft 0).getLogTermFromLogIndex 1 = .ok (t.after.raft 0).currentTerm ∧
        ((t.after.raft 0).matching 1).card = 3 ∧ (t.after.raft 0).commitIndex = 0 := by
    decide +kernel
  rcases hreply with
    ⟨t, ht, haction, call, hk, hcaller, hphase, hleader, hterm, hown, hcard, hcommit⟩
  have hmatched := h t ht 4 haction call hk _ hphase
    (by rw [hcaller]; exact ⟨by decide, hleader, hterm.symm, rfl⟩)
  rw [hcaller] at hmatched
  have hdone := hmatched 1 hown (by omega)
  omega

end RaftCore
end KVRaft
