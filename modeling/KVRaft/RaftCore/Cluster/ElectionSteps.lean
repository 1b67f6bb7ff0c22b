import KVRaft.RaftCore.Cluster.Refinement

/-!
# Election steps

Standing, voting and counting votes are steps of the abstract protocol.
-/

namespace KVRaft
namespace RaftCore

open Foundation LogSystem Cluster

variable {n : Nat} {α : Logs n} {σ : Cluster n}

theorem observe_status {rf : Raft n} {term : Int}
    (h : (rf.observe term).status = .leader) : rf.status = .leader := by
  unfold Raft.observe at h
  by_cases hgt : term > rf.currentTerm
  · rw [if_pos hgt] at h
    cases h
  · rw [if_neg hgt] at h
    exact h

/-- Nothing happens at all. -/
theorem simulated_same {a : Action n} (hb : (raftLogs n).Ballots α) (h : Refines α σ)
    (v : Fin n) : Simulated α σ a σ α :=
  simulated_quiet hb h (Steps.refl α) (h.node v) (touches_refl σ v) List.prefix_rfl rfl id
    h.elections h.rounds h.snapshots (fun _ => same_appends rfl) (fun _ => same_snapshots rfl)

variable [Archive]

theorem doElection_eq (σ : Cluster n) (i : Fin n) :
    σ.doElection i =
      if (σ.raft i).status ≠ .leader then
        { σ.setServer i
            { σ.servers i with
              raft := (σ.raft i).becomeCandidate
              votedNum := σ.votedNums i ++ [1] } with
          voteCalls := σ.voteCalls ++
            voteCallsOf i (σ.votedNums i).length
              ((Raft.othersOf (σ.raft i).me).map fun j =>
                (j, (σ.raft i).becomeCandidate.requestVoteArgs)) }
      else
        σ := by
  unfold Cluster.doElection Raft.doElection
  by_cases hstatus : (σ.raft i).status ≠ .leader
  · simp only [if_pos hstatus]
    rfl
  · simp only [if_neg hstatus]

theorem simulated_doElection (hb : (raftLogs n).Ballots α) (h : Refines α σ) (i : Fin n) :
    exists β, Simulated α σ (.doElection i) (σ.doElection i) β := by
  rw [doElection_eq]
  by_cases hstatus : (σ.raft i).status ≠ .leader
  · rw [if_pos hstatus]
    rcases (h.node i).stand with ⟨β, hsteps, hv, hreq, hlog, hlead⟩
    have hgrow := hsteps.moves.grows hb
    have hnew : α.term i < (σ.raft i).becomeCandidate.requestVoteArgs.term := by
      rw [← (h.node i).term]
      exact lt_add_one _
    refine ⟨β, simulated_quiet hb h hsteps hv (touches_setServer σ i _) ?_ rfl nofun ?_ ?_
      (h.snapshots.grow hgrow) (fun _ => same_appends rfl) (fun _ => same_snapshots rfl)⟩
    · rw [hlog]
    · change Elections β _ (σ.setServer i _).votedNums
      rw [votedNums_update, (h.node i).me]
      exact h.elections.send hb hnew hreq hgrow hlead
    · change Rounds β _ (σ.setServer i _).appendNums
      rw [appendNums_setServer]
      · exact h.rounds.grow hgrow
      · rfl
  · rw [if_neg hstatus]
    exact ⟨α, simulated_same hb h i⟩

omit [Archive] in
/-- A vote request changes the voter's node and its own call only. -/
private theorem simulated_vote {k : Nat} {call : VoteCall n} {β : Logs n} {rf : Raft n}
    {reply : RequestVoteReply} (hb : (raftLogs n).Ballots α) (h : Refines α σ)
    (hk : σ.voteCalls[k]? = some call) (hphase : call.phase = .requested)
    (hsteps : (raftLogs n).Steps call.callee α β) (hv : Represents β call.callee rf)
    (hlog : β.log = α.log) (hlead : β.leader = α.leader)
    (hcommit : rf.commitIndex = (σ.raft call.callee).commitIndex)
    (hstatus : rf.status = .leader -> (σ.raft call.callee).status = .leader)
    (hgrant : reply.voteGranted = true ->
      reply.term = call.args.term ∧
        β.vote call.callee call.args.term = some call.caller) :
    Simulated α σ (.requestVote k)
      { σ.setRaft call.callee rf with
        voteCalls := σ.voteCalls.set k (call.answer reply) } β := by
  have hgrow := hsteps.moves.grows hb
  refine simulated_quiet hb h hsteps hv (touches_setServer σ call.callee _) ?_ hcommit
    hstatus ?_ ?_ (h.snapshots.grow hgrow) (fun _ => same_appends rfl)
    (fun _ => same_snapshots rfl)
  · rw [hlog]
  · change Elections β _ (σ.setRaft call.callee rf).votedNums
    rw [votedNums_setRaft]
    exact (h.elections.grow hgrow hlead).answer hk hphase hgrant
  · change Rounds β _ (σ.setRaft call.callee rf).appendNums
    rw [appendNums_setRaft]
    exact h.rounds.grow hgrow

theorem simulated_requestVote (hb : (raftLogs n).Ballots α) (h : Refines α σ) {k : Nat}
    {call : VoteCall n} (hk : σ.voteCalls[k]? = some call)
    (hphase : call.phase = .requested) :
    exists β, Simulated α σ (.requestVote k) (σ.requestVote k call) β := by
  unfold Cluster.requestVote resume
  cases houtcome : (σ.raft call.callee).requestVote call.args with
  | error fault => exact ⟨α, simulated_stop hb h call.callee fault⟩
  | ok result =>
      rcases result with ⟨rf, reply⟩
      have hcall := List.mem_of_getElem? hk
      have hreq := h.elections.request hcall
      have hnode := h.node call.callee
      cases Raft.requestVote_effect houtcome with
      | stale hlt hno =>
          refine ⟨α, simulated_vote hb h hk hphase (Steps.refl α) hnode.persist rfl rfl rfl
            id ?_⟩
          intro hyes
          rw [hno] at hyes
          cases hyes
      | refused hle hno =>
          rcases hnode.learn hb hle with ⟨β, hsteps, hv, _, hlog, hlead⟩
          refine ⟨β, simulated_vote hb h hk hphase hsteps hv.persist hlog hlead ?_
            observe_status ?_⟩
          · exact Raft.observe_commitIndex _ _
          · intro hyes
            rw [hno] at hyes
            cases hyes
      | granted hle hup hfree hterm _ =>
          rcases hnode.learn hb hle with ⟨β, hsteps, hv, _, hlog, hlead⟩
          have hgrow := hsteps.moves.grows hb
          rw [← Raft.observe_upToDate (σ.raft call.callee) call.args.term] at hup
          rcases hv.grant (hreq.mono hgrow) (Raft.observe_currentTerm hle) hup hfree with
            ⟨γ, hsteps', hv', hvote, hlog', hlead'⟩
          refine ⟨γ, simulated_vote hb h hk hphase (hsteps.trans hsteps') hv'.persist
            (hlog'.trans hlog) (hlead'.trans hlead) ?_ observe_status ?_⟩
          · exact Raft.observe_commitIndex _ _
          · intro _
            exact ⟨hterm, hvote⟩

omit [Archive] in
/-- A vote reply that elects nobody. -/
private theorem simulated_voteReply {k : Nat} {call : VoteCall n} {β : Logs n}
    {rf : Raft n} {reply : RequestVoteReply} {votedNum : Nat}
    (hb : (raftLogs n).Ballots α) (h : Refines α σ)
    (hsteps : (raftLogs n).Steps call.caller α β) (hv : Represents β call.caller rf)
    (hlog : β.log = α.log) (hlead : β.leader = α.leader)
    (hcommit : rf.commitIndex = (σ.raft call.caller).commitIndex)
    (hstatus : rf.status = .leader -> (σ.raft call.caller).status = .leader)
    (helections : Elections α (σ.voteCalls.set k (call.finish reply))
      (setCounter σ.votedNums call.caller call.counter votedNum)) :
    Simulated α σ (.requestVoteReply k)
      { σ.setServer call.caller
          { σ.servers call.caller with
            raft := rf
            votedNum := (σ.servers call.caller).votedNum.set call.counter votedNum } with
        voteCalls := σ.voteCalls.set k (call.finish reply) } β := by
  have hgrow := hsteps.moves.grows hb
  refine simulated_quiet hb h hsteps hv (touches_setServer σ call.caller _) ?_ hcommit
    hstatus ?_ ?_ (h.snapshots.grow hgrow) (fun _ => same_appends rfl)
    (fun _ => same_snapshots rfl)
  · rw [hlog]
  · change Elections β _ (σ.setServer call.caller _).votedNums
    rw [votedNums_update]
    exact helections.grow hgrow hlead
  · change Rounds β _ (σ.setServer call.caller _).appendNums
    rw [appendNums_setServer]
    · exact h.rounds.grow hgrow
    · rfl

theorem simulated_requestVoteReply (hb : (raftLogs n).Ballots α) (h : Refines α σ)
    {k : Nat} {call : VoteCall n} {reply : RequestVoteReply}
    (hk : σ.voteCalls[k]? = some call) (hphase : call.phase = .replied reply) :
    exists β, Simulated α σ (.requestVoteReply k) (σ.requestVoteReply k call reply) β := by
  have hcall := List.mem_of_getElem? hk
  have hnode := h.node call.caller
  have hcount := counter_getD (h.elections.counted hcall)
  unfold Cluster.requestVoteReply resume
  cases houtcome : (σ.raft call.caller).sendRequestVote reply
      ((σ.votedNums call.caller).getD call.counter 0) with
  | error fault =>
      change (σ.servers call.caller).raft.sendRequestVote reply
        ((σ.servers call.caller).votedNum.getD call.counter 0) = _ at houtcome
      simp only [houtcome]
      exact ⟨α, simulated_stop hb h call.caller fault⟩
  | ok result =>
      rcases result with ⟨rf, votedNum⟩
      have heffect := Raft.sendRequestVote_effect houtcome
      change (σ.servers call.caller).raft.sendRequestVote reply
        ((σ.servers call.caller).votedNum.getD call.counter 0) = _ at houtcome
      simp only [houtcome]
      have hsame := h.elections.finish_same hk hphase hcount
      cases heffect with
      | newerTerm hlt =>
          rcases hnode.learn hb hlt.le with ⟨β, hsteps, hv, _, hlog, hlead⟩
          rw [Raft.observe, if_pos hlt] at hv
          exact ⟨β, simulated_voteReply hb h hsteps hv.persist hlog hlead rfl nofun hsame⟩
      | ignored =>
          exact ⟨α, simulated_voteReply hb h (Steps.refl α) hnode rfl rfl rfl id hsame⟩
      | counted hterm hgrant _ =>
          exact ⟨α, simulated_voteReply hb h (Steps.refl α) hnode rfl rfl rfl id
            (h.elections.finish_counted hk hphase hgrant hcount)⟩
      | elected hterm hgrant hquorum hstatus =>
          have hcur : (σ.raft call.caller).currentTerm = call.args.term :=
            hterm.symm.trans (h.elections.granted hcall (Or.inl hphase) hgrant).1
          rcases h.elections.fresh hb hk hphase hgrant hcount hquorum with
            ⟨hnone, Q, hQ, hvote⟩
          rcases h.elections.finish_elected hk hphase hgrant hcount hquorum with
            ⟨hnext, hmajority⟩
          have hpos := (h.elections.request hcall).positive
          rw [← hcur] at hnone hvote hpos
          rcases hnode.win hpos hnone hQ hvote with ⟨β, hsteps, hv, hlog, hbase, hnew⟩
          have hgrow := hsteps.moves.grows hb
          have htouch : Touches σ
              { σ.setServer call.caller
                  { σ.servers call.caller with
                    raft := (σ.raft call.caller).becomeLeader
                    votedNum := (σ.servers call.caller).votedNum.set call.counter 0 } with
                voteCalls := σ.voteCalls.set k (call.finish reply) }
              call.caller (σ.raft call.caller).becomeLeader :=
            touches_setServer σ call.caller _
          refine ⟨β, ?_⟩
          exact
            { moves := ⟨call.caller, hsteps.moves⟩
              refines :=
                { node := node_update hb h hsteps.moves hv htouch
                  elections := by
                    change Elections β _ (σ.setServer call.caller _).votedNums
                    rw [votedNums_update]
                    refine hnext.mono hgrow ?_
                    intro d v hd hdv hdl
                    change (setCounter σ.votedNums call.caller call.counter 0
                      d.caller)[d.counter]? = some v at hdv
                    rcases hnew hdl with hold | ⟨hdterm, hdcaller⟩
                    · exact hnext.won hd hdv hold
                    · -- the one counter of the new term has just been reset
                      have hdcounter : d.counter = call.counter :=
                        (hnext.election hd (mem_set_found hk _) hdcaller).mpr
                          (hdterm.trans hcur)
                      rw [hdcaller, hdcounter,
                        setCounter_self (h.elections.counted hcall)] at hdv
                      rw [hdcaller, hdcounter, ← Option.some.inj hdv, Nat.zero_add]
                      exact hmajority
                  rounds := by
                    change Rounds β _ (σ.setServer call.caller _).appendNums
                    rw [appendNums_setServer]
                    · exact h.rounds.grow hgrow
                    · rfl
                  snapshots := h.snapshots.grow hgrow }
              crowned := by
                intro i hno hyes
                rw [htouch i] at hyes
                rw [htouch i]
                by_cases hi : i = call.caller
                · rw [if_pos hi, hi]
                  exact ⟨hnone, by rw [hlog]; exact hbase⟩
                · rw [if_neg hi] at hyes
                  exact absurd hyes hno
              settled := nofun
              sound := by
                intro hs _
                refine sound_update hb h hsteps htouch hs ?_ (same_appends rfl)
                  (same_snapshots rfl)
                refine commit_mono (hs.commit call.caller) hnode.commit ?_ hgrow
                rw [hlog] }

end RaftCore
end KVRaft
