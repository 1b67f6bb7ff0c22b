import KVRaft.RaftCore.Safety.LeaderCompleteness

/-!
# Commit advances are backed by a majority

Whatever rounds are under way and in whatever order their replies come back, a
leader raises its commit index only to the last index of a round that a majority
has accepted.
-/

namespace KVRaft
namespace RaftCore

open Foundation LogSystem Cluster

section

variable {n : Nat}

/-- Leader `i` and the peers whose good replies of term `T` the threads of one
heartbeat have seen, to requests that end at index `N`. -/
structure Backed (calls : List (AppendCall n)) (i : Fin n) (round : Nat) (T N : Int)
    (Q : Finset (Fin n)) : Prop where
  leader : i ∈ Q
  majority : n / 2 + 1 ≤ Q.card
  replied : forall q, q ∈ Q -> q ≠ i -> exists call reply, call ∈ calls ∧
    call.caller = i ∧ call.callee = q ∧ call.counter = round ∧
    call.phase = .returned reply ∧ reply.success = true ∧ reply.term = T ∧
    call.args.prevLogIndex + call.args.entriesSize = N

theorem Rounds.sent_eq {α : Logs n} {calls : List (AppendCall n)}
    {counters : Fin n -> List Nat} (h : Rounds α calls counters) {c : AppendCall n}
    (hc : c ∈ calls) : c.args.prevLogIndex + c.args.entriesSize = c.args.sent := by
  rcases h.request hc with ⟨M, p, hreq⟩
  rw [hreq.length, hreq.sent]

/-- A full tally is a majority with its leader. -/
theorem Rounds.backed {α : Logs n} {calls : List (AppendCall n)}
    {counters : Fin n -> List Nat} (h : Rounds α calls counters) {c : AppendCall n}
    (hc : c ∈ calls)
    (hquorum : n / 2 + 1 ≤
      1 + (tally calls AppendEntriesReply.success c.caller c.counter).card) :
    exists Q, Backed calls c.caller c.counter c.args.term c.args.sent Q := by
  have hself : c.caller ∉ tally calls AppendEntriesReply.success c.caller c.counter := by
    intro hmem
    rcases mem_tally.mp hmem with ⟨d, hd, h1, _, h3, _⟩
    exact h.other hd (h3.trans h1.symm)
  refine ⟨insert c.caller (tally calls AppendEntriesReply.success c.caller c.counter),
    Finset.mem_insert_self _ _, ?_, ?_⟩
  · rw [Finset.card_insert_of_notMem hself]
    omega
  · intro q hq hne
    rcases Finset.mem_insert.mp hq with heq | hin
    · exact absurd heq hne
    · rcases mem_tally.mp hin with ⟨d, hd, h1, h2, h3, reply, hphase, hyes⟩
      rcases h.round hd hc h1 h2 with ⟨hterm, hsent⟩
      have hreply := (h.accepted hd (Or.inr hphase) hyes).1
      refine ⟨d, reply, hd, h1, h3, h2, hphase, hyes, hreply.trans hterm, ?_⟩
      rw [h.sent_eq hd, hsent]

/-- The last entry a leader sends is the one it holds at that index. -/
theorem Represents.lastSent {α : Logs n} {v c : Fin n} {rf : Raft n}
    (h : Represents α v rf) {args : AppendEntriesArgs} {M : List LogEntry} {p : Nat}
    (hreq : AppendRequest α c args M p) (hleader : rf.status = .leader)
    (hterm : args.term = rf.currentTerm) {T : Int}
    (hlast : args.entries.getLast?.map LogEntry.logTerm = some T)
    (hnew : rf.commitIndex < args.sent) :
    exists log, rf.logAtIndex args.sent = .ok log ∧ log.logTerm = T := by
  rcases Option.map_eq_some_iff.mp hlast with ⟨log, hlog, hown⟩
  rw [hreq.entries, List.getLast?_drop] at hlog
  have hlt : ¬ M.length ≤ p := by
    intro hle
    rw [if_pos hle] at hlog
    cases hlog
  rw [if_neg hlt, List.getLast?_eq_getElem?] at hlog
  have hpre : M <+: α.log v := by
    rw [(h.leads hleader).2.2, ← hterm]
    exact hreq.log
  rcases h.held with ⟨s, hs, happ⟩
  have hheld := h.applied
  rw [hreq.sent] at hnew ⊢
  have hlook := hs.logAtIndex (show s ≤ M.length - 1 by omega)
    (getElem?_of_isPrefix hpre hlog)
  rw [show ((M.length - 1 : Nat) : Int) + 1 = (M.length : Nat) by omega] at hlook
  exact ⟨log, hlook, hown⟩

/-- A reply that raises the commit index completes its round, whose entries end in one of
the leader's own term. -/
theorem Raft.AppendReplyEffect.raises {rf rf' : Raft n} {server : Fin n}
    {args : AppendEntriesArgs} {reply : AppendEntriesReply} {appendNums appendNums' : Nat}
    (h : Raft.AppendReplyEffect rf server args reply appendNums rf' appendNums')
    (hraise : rf.commitIndex < rf'.commitIndex) :
    (reply.term = rf.currentTerm ∧ rf.status = .leader ∧ reply.success = true ∧
      n / 2 + 1 ≤ appendNums + 1) ∧
    args.entries.getLast?.map LogEntry.logTerm = some rf.currentTerm ∧
    rf.commitIndex < args.prevLogIndex + args.entriesSize ∧
    rf' = { rf.recordMatch server args with
      commitIndex := args.prevLogIndex + args.entriesSize } := by
  cases h with
  | newerTerm _ => exact absurd hraise (lt_irrefl _)
  | ignored => exact absurd hraise (lt_irrefl _)
  | hinted _ _ _ _ => exact absurd hraise (lt_irrefl _)
  | counted _ _ _ _ => exact absurd hraise (lt_irrefl _)
  | majority hterm hleader hyes hquorum _ =>
      rcases commitSent_cases (rf.recordMatch server args) args with
        hsame | ⟨hown, hcommit⟩
      · rw [hsame] at hraise
        exact absurd hraise (lt_irrefl _)
      rw [hcommit] at hraise
      have hnew : rf.commitIndex < args.prevLogIndex + args.entriesSize :=
        (lt_max_iff.mp hraise).resolve_left (lt_irrefl _)
      refine ⟨⟨hterm, hleader, hyes, hquorum⟩, hown, hnew, ?_⟩
      rw [hcommit]
      congr 1
      exact max_eq_right hnew.le

/-- The server that commits on a reply is the one whose thread goes on with it. -/
theorem appendEntriesReply_raises {σ : Cluster n} {k : Nat} {call : AppendCall n}
    {reply : AppendEntriesReply} {i : Fin n}
    (hraise : (σ.raft i).commitIndex <
      ((σ.appendEntriesReply k call reply).raft i).commitIndex) :
    i = call.caller ∧
      (σ.appendEntriesReply k call reply).appendCalls =
        σ.appendCalls.set k (call.finish reply) ∧
      exists appendNums, Raft.AppendReplyEffect (σ.raft call.caller) call.callee call.args
        reply ((σ.appendNums call.caller).getD call.counter 0)
        ((σ.appendEntriesReply k call reply).raft i) appendNums := by
  rcases appendEntriesReply_cases σ k call reply with
    ⟨fault, heq⟩ | ⟨rf, appendNums, hrun, heq⟩
  · -- a server that stops commits nothing
    rw [heq, raft_stop] at hraise
    exact absurd hraise (lt_irrefl _)
  have htouch : Touches σ (σ.appendEntriesReply k call reply) call.caller rf := by
    rw [heq]
    exact touches_setServer σ call.caller _
  have hi : i = call.caller := by
    by_contra hne
    rw [htouch i, if_neg hne] at hraise
    exact absurd hraise (lt_irrefl _)
  refine ⟨hi, by rw [heq], appendNums, ?_⟩
  rw [htouch i, if_pos hi]
  exact Raft.sendAppendEntries_effect hrun

variable [Archive]

/-- What a reply that raises a commit index has done. -/
theorem commit_backed {α β : Logs n} {σ σ' : Cluster n} {k : Nat} (h : Refines α σ)
    (h' : Refines β σ') (hstep : StepEffect σ (.appendEntriesReply k) σ') {i : Fin n}
    (hraise : (σ.raft i).commitIndex < (σ'.raft i).commitIndex) :
    (σ'.raft i).status = .leader ∧
      (exists log, (σ'.raft i).logAtIndex (σ'.raft i).commitIndex = .ok log ∧
        log.logTerm = (σ'.raft i).currentTerm) ∧
      exists round Q, Backed σ'.appendCalls i round (σ'.raft i).currentTerm
        (σ'.raft i).commitIndex Q := by
  cases hstep with
  | @appendEntriesReply _ call reply hk _ hphase =>
      have hcall := List.mem_of_getElem? hk
      rcases appendEntriesReply_raises hraise with ⟨rfl, hcalls, appendNums, heffect⟩
      rcases heffect.raises hraise with
        ⟨⟨hterm, hleader, hyes, hquorum⟩, hown, hnew, hafter⟩
      have hargs : call.args.term = (σ.raft call.caller).currentTerm :=
        ((h.rounds.accepted hcall (Or.inl hphase) hyes).1).symm.trans hterm
      rw [h.rounds.sent_eq hcall] at hnew hafter
      rw [hafter]
      refine ⟨hleader, ?_, ?_⟩
      · rcases h.rounds.request hcall with ⟨M, p, hreq⟩
        exact (h.node call.caller).lastSent hreq hleader hargs hown hnew
      · have hin : call.finish reply ∈
            (σ.appendEntriesReply k call reply).appendCalls := by
          rw [hcalls]
          exact mem_set_found hk _
        have hcount := h.rounds.count (counter_getD (h.rounds.counted hcall))
        have hone := tally_finish_card h.rounds.distinct hk hphase hyes
        have hfull : n / 2 + 1 ≤ 1 + (tally
            (σ.appendEntriesReply k call reply).appendCalls
            AppendEntriesReply.success call.caller call.counter).card := by
          rw [hcalls]
          omega
        rcases h'.rounds.backed hin hfull with ⟨Q, hQ⟩
        refine ⟨call.counter, Q, ?_⟩
        change Backed _ _ _ (σ.raft call.caller).currentTerm _ _
        rw [← hargs]
        exact hQ

/-- A reply commits what a majority, the leader included, has accepted in one round. -/
theorem commit_backed_by_majority (r : (clusterSystem n).Run)
    {t : Transition (Cluster n) (Action n)} (ht : t ∈ r.trace) {i : Fin n} {T N : Int}
    (hcommit : Commits t i T N) :
    (t.after.raft i).status = .leader ∧
      (exists log, (t.after.raft i).logAtIndex N = .ok log ∧ log.logTerm = T) ∧
      exists round Q, Backed t.after.appendCalls i round T N Q := by
  rcases hcommit with ⟨⟨k, haction⟩, hraise, rfl, rfl⟩
  rcases r.valid.before_of_mem ht with ⟨earlier, htrace, _⟩
  rcases explained htrace with ⟨α, hα⟩
  have hstep := step_effect (r.valid.step_of_mem ht)
  rcases simulates hα.ballots hα.refines hstep with ⟨β, hsim⟩
  rw [haction] at hstep
  exact commit_backed hα.refines hsim.refines hstep hraise

end

/-!
# Two rounds at once

Server 0 of five sends its entry in two rounds.  Replies to both come back in turn, and
the third server of the second round completes its majority.
-/

def twoRoundsSchedule : List (Action 5) :=
  [.doElection 0, .requestVote 0, .requestVote 1, .requestVoteReply 0,
    .requestVoteReply 1, .start 0 [1], .doHeartBeat 0, .doHeartBeat 0, .appendEntries 0,
    .appendEntriesReply 0, .appendEntries 4, .appendEntries 5, .appendEntriesReply 5,
    .appendEntriesReply 4]

def twoRoundsRun : (@clusterSystem plainArchive 5).Run :=
  TransitionSystem.runOf _ twoRoundsSchedule (by decide +kernel)

theorem twoRoundsRun_backed : exists t, t ∈ twoRoundsRun.trace ∧
    t.action = .appendEntriesReply 4 ∧
    exists round Q, Backed t.after.appendCalls 0 round 1 1 Q := by
  have hcommit : exists t, t ∈ twoRoundsRun.trace ∧ t.action = .appendEntriesReply 4 ∧
      (t.before.raft 0).commitIndex < (t.after.raft 0).commitIndex ∧
      (t.after.raft 0).currentTerm = 1 ∧ (t.after.raft 0).commitIndex = 1 := by
    decide +kernel
  rcases hcommit with ⟨t, ht, haction, hcommits⟩
  exact ⟨t, ht, haction, (@commit_backed_by_majority 5 plainArchive twoRoundsRun t ht 0 1 1
    ⟨⟨4, haction⟩, hcommits⟩).2.2⟩

end RaftCore
end KVRaft
