import Mathlib.Data.Finset.Max
import Mathlib.Data.Prod.Lex
import KVRaft.Foundation.Schedules
import KVRaft.RaftCore.Cluster.Simulation
import KVRaft.RaftCore.Raft.PlainArchive

/-!
# A leader can be elected

Wherever a cluster has got to, a majority of running servers can agree on a leader by
elections alone: one candidate first brings everybody to a common term, and then the one
with the best log stands.
-/

namespace KVRaft
namespace RaftCore

open Foundation Cluster TransitionSystem

variable {n : Nat}

/-- The steps of an election. -/
def Action.Electoral : Action n -> Prop
  | .doElection _ => True
  | .requestVote _ => True
  | .requestVoteReply _ => True
  | _ => False

/-- What elections leave as it is. -/
structure Kept (σ σ' : Cluster n) : Prop where
  me : forall j, (σ'.raft j).me = (σ.raft j).me
  stopped : forall j, (σ'.servers j).stopped = (σ.servers j).stopped
  logs : forall j, (σ'.raft j).logs = (σ.raft j).logs
  snapshot : forall j,
    (σ'.raft j).lastSnapshotIncludeIndex = (σ.raft j).lastSnapshotIncludeIndex ∧
      (σ'.raft j).lastSnapshotIncludeTerm = (σ.raft j).lastSnapshotIncludeTerm
  commitIndex : forall j, (σ'.raft j).commitIndex = (σ.raft j).commitIndex

namespace Kept

variable {σ σ' σ'' : Cluster n}

theorem refl (σ : Cluster n) : Kept σ σ where
  me _ := rfl
  stopped _ := rfl
  logs _ := rfl
  snapshot _ := ⟨rfl, rfl⟩
  commitIndex _ := rfl

theorem trans (h : Kept σ σ') (h' : Kept σ' σ'') : Kept σ σ'' where
  me j := (h'.me j).trans (h.me j)
  stopped j := (h'.stopped j).trans (h.stopped j)
  logs j := (h'.logs j).trans (h.logs j)
  snapshot j := ⟨(h'.snapshot j).1.trans (h.snapshot j).1,
    (h'.snapshot j).2.trans (h.snapshot j).2⟩
  commitIndex j := (h'.commitIndex j).trans (h.commitIndex j)

theorem running (h : Kept σ σ') {j : Fin n} (hrun : σ.Running j) : σ'.Running j :=
  (h.stopped j).trans hrun

theorem last (h : Kept σ σ') (j : Fin n) :
    (σ'.raft j).getLastLogIndexAndTerm = (σ.raft j).getLastLogIndexAndTerm := by
  rw [Raft.getLastLogIndexAndTerm, Raft.getLastLogIndexAndTerm, h.logs, (h.snapshot j).1,
    (h.snapshot j).2]

theorem upToDate (h : Kept σ σ') (j : Fin n) (index term : Int) :
    (σ'.raft j).upToDate index term = (σ.raft j).upToDate index term := by
  rw [Raft.upToDate, Raft.upToDate, h.last]

end Kept

/-- The node of one server changes its status, term and vote. -/
theorem kept_setServer {σ : Cluster n} {i : Fin n} (server : Server n)
    (hstopped : server.stopped = (σ.servers i).stopped) (hme : server.raft.me = (σ.raft i).me)
    (hlogs : server.raft.logs = (σ.raft i).logs)
    (hindex : server.raft.lastSnapshotIncludeIndex = (σ.raft i).lastSnapshotIncludeIndex)
    (hterm : server.raft.lastSnapshotIncludeTerm = (σ.raft i).lastSnapshotIncludeTerm)
    (hcommit : server.raft.commitIndex = (σ.raft i).commitIndex) (calls : List (VoteCall n)) :
    Kept σ { σ.setServer i server with voteCalls := calls } := by
  have hsplit : forall (P : Fin n -> Server n -> Prop), P i server ->
      (forall j, P j (σ.servers j)) -> forall j, P j ((σ.setServer i server).servers j) := by
    intro P hi hj j
    rw [setServer_servers]
    by_cases hji : j = i
    · rw [if_pos hji, hji]
      exact hi
    · rw [if_neg hji]
      exact hj j
  exact
    { me := hsplit (fun j s => s.raft.me = (σ.raft j).me) hme fun _ => rfl
      stopped := hsplit (fun j s => s.stopped = (σ.servers j).stopped) hstopped fun _ => rfl
      logs := hsplit (fun j s => s.raft.logs = (σ.raft j).logs) hlogs fun _ => rfl
      snapshot := hsplit
        (fun j s => s.raft.lastSnapshotIncludeIndex = (σ.raft j).lastSnapshotIncludeIndex ∧
          s.raft.lastSnapshotIncludeTerm = (σ.raft j).lastSnapshotIncludeTerm)
        ⟨hindex, hterm⟩ fun _ => ⟨rfl, rfl⟩
      commitIndex := hsplit (fun j s => s.raft.commitIndex = (σ.raft j).commitIndex)
        hcommit fun _ => rfl }

/-!
# One election
-/

/-- The server is a candidate, and so many votes are counted. -/
structure Standing (σ : Cluster n) (i : Fin n) (counter votes : Nat) : Prop where
  status : (σ.raft i).status = .candidate
  votes : (σ.servers i).votedNum[counter]? = some votes

/-- A request for a vote of `j`. -/
def voteCall (i : Fin n) (counter : Nat) (args : RequestVoteArgs) (j : Fin n)
    (phase : Phase RequestVoteReply) : VoteCall n where
  caller := i
  callee := j
  args := args
  counter := counter
  phase := phase

/-- The request is under way. -/
def Asked (σ : Cluster n) (i : Fin n) (counter : Nat) (args : RequestVoteArgs) (j : Fin n) :
    Prop :=
  exists k : Nat, σ.voteCalls[k]? = some (voteCall i counter args j .requested)

/-- The vote is under way. -/
def Granted (σ : Cluster n) (i : Fin n) (counter : Nat) (args : RequestVoteArgs) (j : Fin n) :
    Prop :=
  exists (k : Nat) (reply : RequestVoteReply),
    σ.voteCalls[k]? = some (voteCall i counter args j (.replied reply)) ∧
      reply.term = args.term ∧ reply.voteGranted = true

variable {σ : Cluster n} {i : Fin n}

theorem setServer_self (σ : Cluster n) (i : Fin n) (server : Server n) :
    (σ.setServer i server).servers i = server := by
  rw [setServer_servers, if_pos rfl]

theorem setServer_ne (σ : Cluster n) {i j : Fin n} (server : Server n) (hj : j ≠ i) :
    (σ.setServer i server).servers j = σ.servers j := by
  rw [setServer_servers, if_neg hj]

section

variable [Archive]

/-- The server once it stands. -/
def candidate (σ : Cluster n) (i : Fin n) : Server n :=
  { σ.servers i with
    raft := (σ.raft i).becomeCandidate
    votedNum := σ.votedNums i ++ [1] }

/-- A server that is not leader can stand. -/
theorem can_stand (hme : (σ.raft i).me = i) (hrun : σ.Running i)
    (hstatus : (σ.raft i).status ≠ .leader) :
    exists σ' counter, (clusterSystem n).Leads Action.Electoral σ σ' ∧ Kept σ σ' ∧
      Standing σ' i counter 1 ∧
      (σ'.raft i).currentTerm = (σ.raft i).currentTerm + 1 ∧
      (forall j, j ≠ i -> σ'.servers j = σ.servers j) ∧
      forall j, j ≠ i -> Asked σ' i counter (σ'.raft i).requestVoteArgs j := by
  have hstep : (clusterSystem n).step σ (.doElection i) = some (σ.doElection i) := if_pos hrun
  rw [doElection_eq, if_pos hstatus] at hstep
  have hserver := setServer_self σ i (candidate σ i)
  have hraft := congrArg Server.raft hserver
  refine ⟨_, (σ.votedNums i).length, Leads.single (a := .doElection i) trivial hstep,
    kept_setServer (candidate σ i) rfl rfl rfl rfl rfl rfl _, ⟨?_, ?_⟩, ?_,
    fun j hj => setServer_ne σ _ hj, ?_⟩
  · exact congrArg Raft.status hraft
  · exact (congrArg (fun s => s.votedNum[(σ.votedNums i).length]?) hserver).trans
      List.getElem?_concat_length
  · exact congrArg Raft.currentTerm hraft
  · intro j hj
    have hother : j ∈ Raft.othersOf (σ.raft i).me := by
      refine List.mem_filter.mpr ⟨List.mem_finRange j, decide_eq_true ?_⟩
      rw [hme]
      exact hj
    have hmem : voteCall i (σ.votedNums i).length (σ.raft i).becomeCandidate.requestVoteArgs j
        .requested ∈ voteCallsOf i (σ.votedNums i).length
          ((Raft.othersOf (σ.raft i).me).map fun j =>
            (j, (σ.raft i).becomeCandidate.requestVoteArgs)) :=
      List.mem_map.mpr ⟨(j, _), List.mem_map.mpr ⟨j, hother, rfl⟩, rfl⟩
    rcases List.mem_iff_getElem?.mp (List.mem_append_right σ.voteCalls hmem) with ⟨k, hk⟩
    have hargs := congrArg Raft.requestVoteArgs hraft
    exact ⟨k, hk.trans (congrArg (fun args => some (voteCall i _ args j .requested)) hargs.symm)⟩

/-- It can stand again and again, until its term is as large as it is to be. -/
theorem can_outgrow (hme : (σ.raft i).me = i) (hrun : σ.Running i)
    (hstatus : (σ.raft i).status ≠ .leader) (T : Int) :
    exists σ' counter, (clusterSystem n).Leads Action.Electoral σ σ' ∧ Kept σ σ' ∧
      Standing σ' i counter 1 ∧ T < (σ'.raft i).currentTerm ∧
      (forall j, j ≠ i -> σ'.servers j = σ.servers j) ∧
      forall j, j ≠ i -> Asked σ' i counter (σ'.raft i).requestVoteArgs j := by
  generalize hmissing : (T - (σ.raft i).currentTerm).toNat = missing
  induction missing generalizing σ with
  | zero =>
      rcases can_stand hme hrun hstatus with ⟨σ', c, hleads, hkept, hstand, hterm, hother, hasked⟩
      exact ⟨σ', c, hleads, hkept, hstand, by omega, hother, hasked⟩
  | succ missing ih =>
      rcases can_stand hme hrun hstatus with ⟨σ', _, hleads, hkept, hstand, hterm, hother, _⟩
      have hcandidate : (σ'.raft i).status ≠ .leader := by
        rw [hstand.status]
        exact Status.noConfusion
      rcases ih ((hkept.me i).trans hme) (hkept.running hrun) hcandidate (by omega) with
        ⟨σ'', c, hleads', hkept', hstand', hterm', hother', hasked⟩
      exact ⟨σ'', c, hleads.trans hleads', hkept.trans hkept', hstand', hterm',
        fun j hj => (hother' j hj).trans (hother j hj), hasked⟩

/-!
# Asking for votes
-/

/-- A request with a newer term makes a follower, which votes for a log that is as good as
its own. -/
theorem requestVote_newer {rf : Raft n} {args : RequestVoteArgs}
    (hlt : rf.currentTerm < args.term) :
    exists vote reply, rf.requestVote args =
        .ok (({ rf.stepDown args.term with votedFor := vote } : Raft n).persist, reply) ∧
      (rf.upToDate args.lastLogIndex args.lastLogTerm = true ->
        reply.term = args.term ∧ reply.voteGranted = true) := by
  have hobserve : rf.observe args.term = rf.stepDown args.term := if_pos hlt
  have hup : (rf.stepDown args.term).upToDate args.lastLogIndex args.lastLogTerm =
      rf.upToDate args.lastLogIndex args.lastLogTerm := rfl
  unfold Raft.requestVote
  rw [if_neg (by omega)]
  dsimp only
  rw [hobserve, hup, myAssert,
    check_of (show args.term = (rf.stepDown args.term).currentTerm from rfl)]
  cases rf.upToDate args.lastLogIndex args.lastLogTerm with
  | false => exact ⟨-1, _, rfl, fun hgranted => Bool.noConfusion hgranted⟩
  | true =>
      refine ⟨args.candidateId, { term := args.term, voteState := normal, voteGranted := true },
        ?_, fun _ => ⟨rfl, rfl⟩⟩
      have hfree : ¬ ((rf.stepDown args.term).votedFor ≠ -1 ∧
          (rf.stepDown args.term).votedFor ≠ args.candidateId) :=
        fun h => h.1 rfl
      refine bind_eq_ok.mpr ⟨(), rfl, ?_⟩
      rw [if_neg Bool.noConfusion, if_neg hfree]
      rfl

/-- What one server does with a request of a newer term. -/
theorem can_ask {counter : Nat} {args : RequestVoteArgs} {j : Fin n}
    (hasked : Asked σ i counter args j) (hrun : σ.Running j)
    (hlt : (σ.raft j).currentTerm < args.term) :
    exists σ', (clusterSystem n).Leads Action.Electoral σ σ' ∧ Kept σ σ' ∧
      (forall l, l ≠ j -> σ'.servers l = σ.servers l) ∧
      ((σ'.raft j).status = .follower ∧ (σ'.raft j).currentTerm = args.term) ∧
      ((σ.raft j).upToDate args.lastLogIndex args.lastLogTerm = true ->
        Granted σ' i counter args j) ∧
      (forall l, l ≠ j -> Asked σ i counter args l -> Asked σ' i counter args l) ∧
      forall l, l ≠ j -> Granted σ i counter args l -> Granted σ' i counter args l := by
  rcases hasked with ⟨k, hk⟩
  rcases requestVote_newer hlt with ⟨vote, reply, hrequest, hgrant⟩
  let server : Server n := { σ.servers j with
    raft := ({ (σ.raft j).stepDown args.term with votedFor := vote } : Raft n).persist }
  have hstep : (clusterSystem n).step σ (.requestVote k) =
      some { σ.setServer j server with
        voteCalls := σ.voteCalls.set k (voteCall i counter args j (.replied reply)) } := by
    change Cluster.step σ (.requestVote k) = _
    simp only [Cluster.step, hk]
    rw [if_pos ⟨hrun, rfl⟩, Cluster.requestVote]
    change some (σ.resume j ((σ.raft j).requestVote args) _) = _
    rw [hrequest]
    rfl
  have hlength := (List.getElem?_eq_some_iff.mp hk).1
  have hother : forall (m : Nat) (l : Fin n) (phase : Phase RequestVoteReply), l ≠ j ->
      σ.voteCalls[m]? = some (voteCall i counter args l phase) ->
      (σ.voteCalls.set k (voteCall i counter args j (.replied reply)))[m]? =
        some (voteCall i counter args l phase) := by
    intro m l phase hl hm
    have hne : k ≠ m := by
      rintro rfl
      rw [hk] at hm
      exact hl (congrArg Call.callee (Option.some.inj hm)).symm
    rw [List.getElem?_set_ne hne]
    exact hm
  have hraft : ({ σ.setServer j server with
      voteCalls := σ.voteCalls.set k (voteCall i counter args j (.replied reply)) } :
        Cluster n).raft j = server.raft := congrArg Server.raft (setServer_self σ j server)
  refine ⟨_, Leads.single (a := .requestVote k) trivial hstep,
    kept_setServer server rfl rfl rfl rfl rfl rfl _, fun l hl => setServer_ne σ server hl,
    ⟨congrArg Raft.status hraft, congrArg Raft.currentTerm hraft⟩, ?_, ?_, ?_⟩
  · intro hup
    rcases hgrant hup with ⟨hterm, hyes⟩
    exact ⟨k, reply, List.getElem?_set_self hlength, hterm, hyes⟩
  · rintro l hl ⟨m, hm⟩
    exact ⟨m, hother m l _ hl hm⟩
  · rintro l hl ⟨m, r, hm, hr⟩
    exact ⟨m, r, hother m l _ hl hm, hr⟩

/-- All of them are followers of the new term then, and those with no better log vote. -/
theorem can_ask_all {counter : Nat} {args : RequestVoteArgs} {js : List (Fin n)}
    (hnodup : js.Nodup) (hasked : forall j, j ∈ js -> Asked σ i counter args j)
    (hrun : forall j, j ∈ js -> σ.Running j)
    (hlt : forall j, j ∈ js -> (σ.raft j).currentTerm < args.term) :
    exists σ', (clusterSystem n).Leads Action.Electoral σ σ' ∧ Kept σ σ' ∧
      (forall l, l ∉ js -> σ'.servers l = σ.servers l) ∧
      forall j, j ∈ js ->
        ((σ'.raft j).status = .follower ∧ (σ'.raft j).currentTerm = args.term) ∧
        ((σ.raft j).upToDate args.lastLogIndex args.lastLogTerm = true ->
          Granted σ' i counter args j) := by
  let AskedOf (done : List (Fin n)) (s : Cluster n) : Prop :=
    Kept σ s ∧ (forall l, l ∉ done -> s.servers l = σ.servers l) ∧
      (forall j, j ∈ js -> j ∉ done -> Asked s i counter args j) ∧
      forall j, j ∈ done ->
        ((s.raft j).status = .follower ∧ (s.raft j).currentTerm = args.term) ∧
        ((σ.raft j).upToDate args.lastLogIndex args.lastLogTerm = true ->
          Granted s i counter args j)
  have hnext : forall done j s, j ∈ js -> j ∉ done -> AskedOf done s ->
      exists s', (clusterSystem n).Leads Action.Electoral s s' ∧ AskedOf (done ++ [j]) s' := by
    rintro done j s hj hnew ⟨hkept, hsame, htodo, hdone⟩
    have hraft : s.raft j = σ.raft j := congrArg Server.raft (hsame j hnew)
    have hnewer : (s.raft j).currentTerm < args.term := by
      rw [hraft]
      exact hlt j hj
    rcases can_ask (htodo j hj hnew) (hkept.running (hrun j hj)) hnewer with
      ⟨s', hleads, hkept', hother, hfollower, hvote, hasked', hgranted'⟩
    rw [hraft] at hvote
    refine ⟨s', hleads, hkept.trans hkept', ?_, ?_, ?_⟩
    · intro l hl
      rw [List.mem_append, List.mem_singleton, not_or] at hl
      exact (hother l hl.2).trans (hsame l hl.1)
    · intro l hl hout
      rw [List.mem_append, List.mem_singleton, not_or] at hout
      exact hasked' l hout.2 (htodo l hl hout.1)
    · intro l hl
      by_cases hlj : l = j
      · rw [hlj]
        exact ⟨hfollower, hvote⟩
      · have hold : l ∈ done := by
          rcases List.mem_append.mp hl with hold | hlast
          · exact hold
          · exact absurd (List.mem_singleton.mp hlast) hlj
        rcases hdone l hold with ⟨hwas, hgranted⟩
        have hraftl : s'.raft l = s.raft l := congrArg Server.raft (hother l hlj)
        rw [hraftl]
        exact ⟨hwas, fun hup => hgranted' l hlj (hgranted hup)⟩
  rcases Leads.forall_mem hnext hnodup
      ⟨Kept.refl σ, fun _ _ => rfl, fun j hj _ => hasked j hj, nofun⟩ with
    ⟨σ', hleads, hkept, hsame, _, hdone⟩
  exact ⟨σ', hleads, hkept, hsame, hdone⟩

/-!
# Counting the votes
-/

/-- A vote that comes back is counted, and the one that makes a majority elects. -/
theorem can_count {counter votes : Nat} {args : RequestVoteArgs} {j : Fin n}
    (hgranted : Granted σ i counter args j) (hrun : σ.Running i)
    (hstand : Standing σ i counter votes) (hterm : args.term = (σ.raft i).currentTerm) :
    exists σ', (clusterSystem n).Leads Action.Electoral σ σ' ∧ Kept σ σ' ∧
      (forall l, l ≠ i -> σ'.servers l = σ.servers l) ∧
      (σ'.raft i).currentTerm = args.term ∧
      (votes < n / 2 -> Standing σ' i counter (votes + 1) ∧
        forall l, l ≠ j -> Granted σ i counter args l -> Granted σ' i counter args l) ∧
      (n / 2 ≤ votes -> (σ'.raft i).status = .leader) := by
  rcases hgranted with ⟨k, reply, hk, hreply, hyes⟩
  have hsame : reply.term = (σ.raft i).currentTerm := hreply.trans hterm
  have hlength := (List.getElem?_eq_some_iff.mp hstand.votes).1
  have hvotes : (σ.servers i).votedNum.getD counter 0 = votes := by
    rw [List.getD_eq_getElem?_getD, hstand.votes]
    rfl
  have hguard : (clusterSystem n).step σ (.requestVoteReply k) =
      some (σ.requestVoteReply k (voteCall i counter args j (.replied reply)) reply) := by
    change Cluster.step σ (.requestVoteReply k) = _
    simp only [Cluster.step, hk]
    exact if_pos hrun
  have hother : forall (l : Fin n), l ≠ j -> Granted σ i counter args l ->
      exists (m : Nat) (r : RequestVoteReply),
        (σ.voteCalls.set k ((voteCall i counter args j (.replied reply)).finish reply))[m]? =
          some (voteCall i counter args l (.replied r)) ∧
        r.term = args.term ∧ r.voteGranted = true := by
    rintro l hl ⟨m, r, hm, hr⟩
    have hne : k ≠ m := by
      rintro rfl
      rw [hk] at hm
      exact hl (congrArg Call.callee (Option.some.inj hm)).symm
    exact ⟨m, r, (List.getElem?_set_ne hne).trans hm, hr⟩
  by_cases hfew : votes < n / 2
  · let server : Server n := { σ.servers i with
      votedNum := (σ.servers i).votedNum.set counter (votes + 1) }
    have hsend : (σ.raft i).sendRequestVote reply votes = .ok (σ.raft i, votes + 1) := by
      unfold Raft.sendRequestVote
      rw [if_neg (by omega), if_neg (by omega), myAssert, check_of hsame, hyes]
      refine bind_eq_ok.mpr ⟨(), rfl, ?_⟩
      rw [if_neg Bool.noConfusion, if_neg (by omega)]
      rfl
    have hstep : (clusterSystem n).step σ (.requestVoteReply k) =
        some { σ.setServer i server with
          voteCalls := σ.voteCalls.set k
            ((voteCall i counter args j (.replied reply)).finish reply) } := by
      rw [hguard, Cluster.requestVoteReply]
      dsimp only [voteCall]
      rw [hvotes, hsend]
      rfl
    have hserver := setServer_self σ i server
    refine ⟨_, Leads.single (a := .requestVoteReply k) trivial hstep,
      kept_setServer server rfl rfl rfl rfl rfl rfl _, fun l hl => setServer_ne σ server hl,
      ?_, fun _ => ⟨⟨?_, ?_⟩, hother⟩, fun hmany => absurd hfew (by omega)⟩
    · exact (congrArg (fun s => s.raft.currentTerm) hserver).trans hterm.symm
    · exact (congrArg (fun s => s.raft.status) hserver).trans hstand.status
    · exact (congrArg (fun s => s.votedNum[counter]?) hserver).trans
        (List.getElem?_set_self hlength)
  · let server : Server n := { σ.servers i with
      raft := (σ.raft i).becomeLeader
      votedNum := (σ.servers i).votedNum.set counter 0 }
    have hsend : (σ.raft i).sendRequestVote reply votes = .ok ((σ.raft i).becomeLeader, 0) := by
      have hcandidate : (σ.raft i).status ≠ .leader := by
        rw [hstand.status]
        exact Status.noConfusion
      unfold Raft.sendRequestVote
      rw [if_neg (by omega), if_neg (by omega), myAssert, check_of hsame, hyes]
      refine bind_eq_ok.mpr ⟨(), rfl, ?_⟩
      rw [if_neg Bool.noConfusion, if_pos (by omega), myAssert, check_of hcandidate]
      rfl
    have hstep : (clusterSystem n).step σ (.requestVoteReply k) =
        some { σ.setServer i server with
          voteCalls := σ.voteCalls.set k
            ((voteCall i counter args j (.replied reply)).finish reply) } := by
      rw [hguard, Cluster.requestVoteReply]
      dsimp only [voteCall]
      rw [hvotes, hsend]
      rfl
    have hserver := setServer_self σ i server
    refine ⟨_, Leads.single (a := .requestVoteReply k) trivial hstep,
      kept_setServer server rfl rfl rfl rfl rfl rfl _, fun l hl => setServer_ne σ server hl,
      ?_, fun hmore => absurd hmore hfew, fun _ => ?_⟩
    · exact (congrArg (fun s => s.raft.currentTerm) hserver).trans hterm.symm
    · exact congrArg (fun s => s.raft.status) hserver

/-- With votes from half of the servers the candidate wins. -/
theorem can_count_all {counter : Nat} {args : RequestVoteArgs} {js : List (Fin n)}
    (hn : 2 ≤ n) (hnodup : js.Nodup) (hmany : n / 2 ≤ js.length)
    (hgranted : forall j, j ∈ js -> Granted σ i counter args j) (hrun : σ.Running i)
    (hstand : Standing σ i counter 1) (hterm : args.term = (σ.raft i).currentTerm) :
    exists σ', (clusterSystem n).Leads Action.Electoral σ σ' ∧ Kept σ σ' ∧
      (forall l, l ≠ i -> σ'.servers l = σ.servers l) ∧
      (σ'.raft i).currentTerm = args.term ∧ (σ'.raft i).status = .leader := by
  let Counted (done : List (Fin n)) (s : Cluster n) : Prop :=
    Kept σ s ∧ (forall l, l ≠ i -> s.servers l = σ.servers l) ∧
      (s.raft i).currentTerm = args.term ∧
      (done.length < n / 2 -> Standing s i counter (done.length + 1) ∧
        forall j, j ∈ js -> j ∉ done -> Granted s i counter args j) ∧
      (n / 2 ≤ done.length -> (s.raft i).status = .leader)
  have hnext : forall done j s, j ∈ js -> j ∉ done -> Counted done s ->
      exists s', (clusterSystem n).Leads Action.Electoral s s' ∧ Counted (done ++ [j]) s' := by
    rintro done j s hj hnew ⟨hkept, hsame, hsterm, hfew, hwon⟩
    have hlength : (done ++ [j]).length = done.length + 1 := List.length_append
    by_cases hmore : done.length < n / 2
    · rcases hfew hmore with ⟨hstanding, hvotes⟩
      rcases can_count (hvotes j hj hnew) (hkept.running hrun) hstanding hsterm.symm with
        ⟨s', hleads, hkept', hother, hterm', hcount, helect⟩
      refine ⟨s', hleads, hkept.trans hkept', fun l hl => (hother l hl).trans (hsame l hl),
        hterm', ?_, ?_⟩
      · intro hless
        rw [hlength] at hless ⊢
        rcases hcount hless with ⟨hstanding', hvotes'⟩
        refine ⟨hstanding', fun l hl hout => ?_⟩
        rw [List.mem_append, List.mem_singleton, not_or] at hout
        exact hvotes' l hout.2 (hvotes l hl hout.1)
      · intro hall
        rw [hlength] at hall
        exact helect hall
    · -- The candidate has won already: further votes are left alone.
      refine ⟨s, Leads.refl s, hkept, hsame, hsterm, fun hless => ?_, fun _ => hwon (by omega)⟩
      rw [hlength] at hless
      omega
  have hstart : Counted [] σ :=
    ⟨Kept.refl σ, fun _ _ => rfl, hterm.symm, fun _ => ⟨hstand, fun j hj _ => hgranted j hj⟩,
      fun hnone => absurd hnone (by rw [List.length_nil]; omega)⟩
  rcases Leads.forall_mem hnext hnodup hstart with ⟨σ', hleads, hkept, hsame, hterm', _, hwon⟩
  exact ⟨σ', hleads, hkept, hsame, hterm', hwon hmany⟩

/-!
# A majority of running servers
-/

/-- One server stands and asks all the others, in a term that is new to them. -/
theorem can_ask_others {Q : Finset (Fin n)} (hme : (σ.raft i).me = i) (hi : i ∈ Q)
    (hrun : forall j, j ∈ Q -> σ.Running j) (hstatus : (σ.raft i).status ≠ .leader)
    (hmax : forall j, j ∈ Q -> (σ.raft j).currentTerm ≤ (σ.raft i).currentTerm) :
    exists σ' counter, (clusterSystem n).Leads Action.Electoral σ σ' ∧ Kept σ σ' ∧
      Standing σ' i counter 1 ∧
      forall j, j ∈ Q -> j ≠ i ->
        ((σ'.raft j).status = .follower ∧ (σ'.raft j).currentTerm = (σ'.raft i).currentTerm) ∧
        ((σ.raft j).upToDate (σ.raft i).getLastLogIndexAndTerm.1
          (σ.raft i).getLastLogIndexAndTerm.2 = true ->
            Granted σ' i counter (σ'.raft i).requestVoteArgs j) := by
  rcases can_outgrow hme (hrun i hi) hstatus (σ.raft i).currentTerm with
    ⟨σ₁, counter, hleads, hkept, hstand, hnewer, hsame, hasked⟩
  have hraft : forall j, j ≠ i -> σ₁.raft j = σ.raft j :=
    fun j hj => congrArg Server.raft (hsame j hj)
  have hmem : forall j, j ∈ (Q.erase i).toList <-> j ≠ i ∧ j ∈ Q := by
    intro j
    rw [Finset.mem_toList, Finset.mem_erase]
  have hlt : forall j, j ∈ (Q.erase i).toList ->
      (σ₁.raft j).currentTerm < (σ₁.raft i).requestVoteArgs.term := by
    intro j hj
    rcases (hmem j).mp hj with ⟨hne, hin⟩
    rw [hraft j hne]
    exact lt_of_le_of_lt (hmax j hin) hnewer
  rcases can_ask_all (Finset.nodup_toList _) (fun j hj => hasked j ((hmem j).mp hj).1)
      (fun j hj => hkept.running (hrun j ((hmem j).mp hj).2)) hlt with
    ⟨σ₂, hleads', hkept', hrest, hdone⟩
  have hself : σ₂.servers i = σ₁.servers i := hrest i fun h => ((hmem i).mp h).1 rfl
  have hselfRaft : σ₂.raft i = σ₁.raft i := congrArg Server.raft hself
  refine ⟨σ₂, counter, hleads.trans hleads', hkept.trans hkept', ⟨?_, ?_⟩, ?_⟩
  · rw [hselfRaft]
    exact hstand.status
  · rw [hself]
    exact hstand.votes
  · intro j hin hne
    rcases hdone j ((hmem j).mpr ⟨hne, hin⟩) with ⟨hfollower, hvote⟩
    rw [hselfRaft]
    refine ⟨hfollower, fun hup => hvote ?_⟩
    change (σ₁.raft j).upToDate (σ₁.raft i).getLastLogIndexAndTerm.1
      (σ₁.raft i).getLastLogIndexAndTerm.2 = true
    rw [hkept.last, hraft j hne]
    exact hup

omit [Archive] in
/-- Among some servers one has a log that none of the others is ahead of. -/
theorem exists_best (σ : Cluster n) {Q : Finset (Fin n)} (hne : Q.Nonempty) :
    exists i, i ∈ Q ∧ forall j, j ∈ Q ->
      (σ.raft j).upToDate (σ.raft i).getLastLogIndexAndTerm.1
        (σ.raft i).getLastLogIndexAndTerm.2 = true := by
  rcases Q.exists_max_image (fun j => toLex ((σ.raft j).getLastLogIndexAndTerm.2,
      (σ.raft j).getLastLogIndexAndTerm.1)) hne with ⟨i, hi, hmax⟩
  refine ⟨i, hi, fun j hj => ?_⟩
  unfold Raft.upToDate
  rcases Prod.Lex.le_iff.mp (hmax j hj) with hlt | ⟨heq, hle⟩
  · exact Bool.or_eq_true_iff.mpr (Or.inl (decide_eq_true hlt))
  · refine Bool.or_eq_true_iff.mpr (Or.inr (Bool.and_eq_true_iff.mpr ⟨?_, decide_eq_true hle⟩))
    exact beq_iff_eq.mpr heq.symm

/-- After any run a majority of running servers can elect a leader, whose term none of them
exceeds; nobody stops on the way, and no log changes. -/
theorem leader_electable (hn : 2 ≤ n) (r : (clusterSystem n).Run) (Q : Finset (Fin n))
    (hmajority : n / 2 < Q.card) (hrun : forall j, j ∈ Q -> r.state.Running j) :
    exists (r' : (clusterSystem n).Run) (later : List (Transition (Cluster n) (Action n))),
      r'.trace = r.trace ++ later ∧ (forall t, t ∈ later -> t.action.Electoral) ∧
      Kept r.state r'.state ∧
      exists i, i ∈ Q ∧ (r'.state.raft i).status = .leader ∧
        forall j, j ∈ Q -> (r'.state.raft j).currentTerm ≤ (r'.state.raft i).currentTerm := by
  rcases explained r.valid with ⟨α, hα⟩
  have hme : forall j, (r.state.raft j).me = j := fun j => (hα.refines.node j).me
  have hnonempty : Q.Nonempty := Finset.card_pos.mp (by omega)
  rcases Q.exists_max_image (fun j => (r.state.raft j).currentTerm) hnonempty with
    ⟨j₀, hj₀, hmax⟩
  by_cases hleader : (r.state.raft j₀).status = .leader
  · exact ⟨r, [], (List.append_nil _).symm, nofun, Kept.refl _, j₀, hj₀, hleader, hmax⟩
  -- The one with the newest term takes all of them to one term first.
  rcases can_ask_others (hme j₀) hj₀ hrun hleader hmax with
    ⟨σ₁, _, hleads₁, hkept₁, hstand₁, hlevel⟩
  have hterm₁ : forall j, j ∈ Q -> (σ₁.raft j).currentTerm = (σ₁.raft j₀).currentTerm := by
    intro j hj
    by_cases hj₀j : j = j₀
    · rw [hj₀j]
    · exact (hlevel j hj hj₀j).1.2
  have hstatus₁ : forall j, j ∈ Q -> (σ₁.raft j).status ≠ .leader := by
    intro j hj
    by_cases hj₀j : j = j₀
    · rw [hj₀j, hstand₁.status]
      exact Status.noConfusion
    · rw [(hlevel j hj hj₀j).1.1]
      exact Status.noConfusion
  -- Then the one with the best log stands.
  rcases exists_best σ₁ hnonempty with ⟨i, hi, hbest⟩
  rcases can_ask_others ((hkept₁.me i).trans (hme i)) hi
      (fun j hj => hkept₁.running (hrun j hj)) (hstatus₁ i hi)
      (fun j hj => le_of_eq ((hterm₁ j hj).trans (hterm₁ i hi).symm)) with
    ⟨σ₂, counter, hleads₂, hkept₂, hstand₂, hvotes⟩
  have hgranted : forall j, j ∈ (Q.erase i).toList ->
      Granted σ₂ i counter (σ₂.raft i).requestVoteArgs j := by
    intro j hj
    rw [Finset.mem_toList, Finset.mem_erase] at hj
    exact (hvotes j hj.2 hj.1).2 (hbest j hj.2)
  have hmany : n / 2 ≤ (Q.erase i).toList.length := by
    rw [Finset.length_toList, Finset.card_erase_of_mem hi]
    omega
  rcases can_count_all hn (Finset.nodup_toList _) hmany hgranted
      (hkept₂.running (hkept₁.running (hrun i hi))) hstand₂ rfl with
    ⟨σ₃, hleads₃, hkept₃, hsame, hterm₃, hwon⟩
  rcases (hleads₁.trans (hleads₂.trans hleads₃)).run with ⟨r', rfl, later, htrace, hlater⟩
  refine ⟨r', later, htrace, hlater, hkept₁.trans (hkept₂.trans hkept₃), i, hi, hwon, ?_⟩
  intro j hj
  by_cases hji : j = i
  · rw [hji]
  · have hraft : r'.state.raft j = σ₂.raft j := congrArg Server.raft (hsame j hji)
    rw [hraft, (hvotes j hj hji).1.2, hterm₃]
    exact le_refl _

end

/-!
# The leader falls silent

Server 0 of three leads term 1, and its entry has reached server 1 alone.  The other two
are a majority.
-/

def silentLeaderSchedule : List (Action 3) :=
  [.doElection 0, .requestVote 0, .requestVoteReply 0, .start 0 [1], .doHeartBeat 0,
    .appendEntries 0]

def silentLeaderRun : (@clusterSystem plainArchive 3).Run :=
  TransitionSystem.runOf _ silentLeaderSchedule (by decide +kernel)

theorem silentLeaderRun_electable :
    exists (r' : (@clusterSystem plainArchive 3).Run)
      (later : List (Transition (Cluster 3) (Action 3))),
      r'.trace = silentLeaderRun.trace ++ later ∧
      (forall t, t ∈ later -> t.action.Electoral) ∧ Kept silentLeaderRun.state r'.state ∧
      exists i, i ∈ ({1, 2} : Finset (Fin 3)) ∧ (r'.state.raft i).status = .leader ∧
        forall j, j ∈ ({1, 2} : Finset (Fin 3)) ->
          (r'.state.raft j).currentTerm ≤ (r'.state.raft i).currentTerm :=
  @leader_electable 3 plainArchive (by decide) silentLeaderRun {1, 2} (by decide)
    (by decide +kernel)

end RaftCore
end KVRaft
