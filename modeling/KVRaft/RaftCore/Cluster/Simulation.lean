import KVRaft.RaftCore.Cluster.SnapshotSteps

/-!
# Simulation

Every step of a cluster is matched by steps of the abstract protocol, and what
the steps of a run have done stays recorded in the abstract state.
-/

namespace KVRaft
namespace RaftCore

open Foundation LogSystem Cluster

/-!
# Single steps
-/

section

variable {n : Nat} [Archive] {α : Logs n} {σ σ' : Cluster n}

theorem simulates {a : Action n} (hb : (raftLogs n).Ballots α) (h : Refines α σ)
    (hstep : StepEffect σ a σ') : exists β, Simulated α σ a σ' β := by
  cases hstep with
  | @doElection i _ => exact simulated_doElection hb h i
  | @doHeartBeat i _ => exact simulated_doHeartBeat hb h i
  | @start i command _ => exact simulated_start hb h i command
  | @applierTicker i _ => exact simulated_applierTicker hb h i
  | @snapshot i index data _ => exact simulated_snapshot hb h i index data
  | requestVote hk _ hphase => exact simulated_requestVote hb h hk hphase
  | requestVoteReply hk _ hphase => exact simulated_requestVoteReply hb h hk hphase
  | appendEntries hk _ hphase => exact simulated_appendEntries hb h hk hphase
  | appendEntriesReply hk _ hphase => exact simulated_appendEntriesReply hb h hk hphase
  | leaderSendSnapShot _ _ _ => exact simulated_leaderSendSnapShot hb h
  | installSnapshot hk _ hphase => exact simulated_installSnapshot hb h hk hphase
  | installSnapshotReply hk _ _ => exact simulated_installSnapshotReply hb h hk

end

/-!
# The initial state
-/

section

variable {n : Nat} [Archive]

theorem initial_raft (i : Fin n) :
    (Cluster.initial n).raft i = Raft.blank i (Persister.create [] []) :=
  congrArg Server.raft (startServer_eq i)

omit [Archive] in
theorem holds_blank (i : Fin n) (persister : Persister) :
    Holds (Raft.blank i persister) [] 0 where
  le := Nat.le_refl 0
  index := rfl
  term := rfl
  logs := rfl
  numbered := nofun

theorem represents_initial (i : Fin n) :
    Represents (LogState.initial 0) i ((Cluster.initial n).raft i) := by
  rw [initial_raft]
  exact
    { me := rfl
      term := rfl
      term_nonneg := le_refl _
      votedFor := rfl
      held := ⟨0, holds_blank i _, le_refl _⟩
      applied := le_refl _
      commit := le_refl _
      leads := nofun }

theorem refines_initial : Refines (LogState.initial 0) (Cluster.initial n) where
  node := represents_initial
  elections := Elections.empty _ _ fun i => congrArg Server.votedNum (startServer_eq i)
  rounds := Rounds.empty _ _ fun i => congrArg Server.appendNums (startServer_eq i)
  snapshots _ hc := absurd hc List.not_mem_nil

theorem sound_initial : Sound (LogState.initial 0) (Cluster.initial n) where
  safe := Safe.initial _ _
  commit _ := Or.inl (List.take_nil)
  leaderCommit _ hc := absurd hc List.not_mem_nil
  snapshot _ hc := absurd hc List.not_mem_nil

end

/-!
# Events of a run
-/

namespace Cluster

variable {n : Nat}

/-- The step makes server `i` leader of term `T`. -/
def BecomesLeader (t : Transition (Cluster n) (Action n)) (i : Fin n) (T : Int) : Prop :=
  (t.before.raft i).status ≠ .leader ∧ (t.after.raft i).status = .leader ∧
    (t.after.raft i).currentTerm = T

/-- A reply makes the leader `i` of term `T` commit up to `index`. -/
def Commits (t : Transition (Cluster n) (Action n)) (i : Fin n) (T index : Int) : Prop :=
  (exists k, t.action = .appendEntriesReply k) ∧
    (t.before.raft i).commitIndex < (t.after.raft i).commitIndex ∧
    (t.after.raft i).currentTerm = T ∧ (t.after.raft i).commitIndex = index

/-- The applier of server `i` hands over the message. -/
def Produces (t : Transition (Cluster n) (Action n)) (i : Fin n) (msg : ApplyMsg) : Prop :=
  t.action = .applierTicker i ∧ msg ∈ (t.before.raft i).applyMsgs

instance (t : Transition (Cluster n) (Action n)) (i : Fin n) (T : Int) :
    Decidable (BecomesLeader t i T) := by
  unfold BecomesLeader
  infer_instance

instance (t : Transition (Cluster n) (Action n)) (i : Fin n) (msg : ApplyMsg) :
    Decidable (Produces t i msg) := by
  unfold Produces
  infer_instance

end Cluster

section

variable {n : Nat} {α β : Logs n}

/-- What a step of the run has left in the abstract state. -/
structure Recorded (α : Logs n) (t : Transition (Cluster n) (Action n)) : Prop where
  elected : forall {i T}, BecomesLeader t i T ->
    α.leader T = some i ∧ exists s, Holds (t.after.raft i) (α.base T) s
  committed : forall {i T index}, Commits t i T index ->
    (raftLogs n).Settled α T index.toNat
  leads : forall {i}, (t.before.raft i).status = .leader ->
    α.leader (t.before.raft i).currentTerm = some i ∧
      exists L s, Holds (t.before.raft i) L s ∧
        L <+: α.leaderLog (t.before.raft i).currentTerm

/-- The message hands over a committed entry. -/
def Delivers (α : Logs n) (msg : ApplyMsg) : Prop :=
  exists (L : List LogEntry) (T : Int) (k : Nat) (log : LogEntry),
    (raftLogs n).Committed α L T ∧ L[k]? = some log ∧ msg = Raft.commandMsg log k

/-- An abstract state that accounts for a whole run. -/
structure Explains (α : Logs n) (tr : List (Transition (Cluster n) (Action n)))
    (σ : Cluster n) : Prop where
  ballots : (raftLogs n).Ballots α
  refines : Refines α σ
  recorded : forall t, t ∈ tr -> Recorded α t
  elections : tr.Pairwise fun t u => forall {i j T U}, BecomesLeader t i T ->
    BecomesLeader u j U -> T ≠ U
  sound : (forall t, t ∈ tr -> Clean t) -> Sound α σ ∧
    forall t, t ∈ tr -> forall i msg, Produces t i msg -> Delivers α msg

theorem Recorded.mono {t : Transition (Cluster n) (Action n)} (h : Recorded α t)
    (hgrow : Grows α β) : Recorded β t where
  elected := by
    intro i T he
    rcases h.elected he with ⟨hlead, s, hs⟩
    refine ⟨hgrow.leader hlead, s, ?_⟩
    rw [hgrow.base hlead]
    exact hs
  committed hc := (h.committed hc).mono hgrow
  leads := by
    intro i hl
    rcases h.leads hl with ⟨hlead, L, s, hs, hpre⟩
    exact ⟨hgrow.leader hlead, L, s, hs, hpre.trans (hgrow.leaderLog _)⟩

theorem Delivers.mono {msg : ApplyMsg} (h : Delivers α msg) (hgrow : Grows α β) :
    Delivers β msg := by
  rcases h with ⟨L, T, k, log, hcom, hlog, hmsg⟩
  exact ⟨L, T, k, log, hcom.mono hgrow (le_refl _), hlog, hmsg⟩

variable {σ σ' : Cluster n}

theorem Simulated.recorded {a : Action n} (hb : (raftLogs n).Ballots α)
    (h : Refines α σ) (hsim : Simulated α σ a σ' β) :
    Recorded β { before := σ, action := a, after := σ' } where
  elected := by
    rintro i T ⟨hno, hyes, rfl⟩
    rcases (hsim.refines.node i).leads hyes with ⟨_, hlead, _⟩
    rcases (hsim.refines.node i).held with ⟨s, hs, _⟩
    rw [(hsim.crowned i hno hyes).2]
    exact ⟨hlead, s, hs⟩
  committed := by
    rintro i T index ⟨⟨k, hk⟩, hlt, rfl, rfl⟩
    exact hsim.settled k hk i hlt
  leads := by
    intro i hl
    rcases hsim.moves with ⟨v, hmoves⟩
    rcases (h.node i).leads hl with ⟨_, hlead, hlog⟩
    rcases (h.node i).held with ⟨s, hs, _⟩
    have hgrow := hmoves.grows hb
    refine ⟨hgrow.leader hlead, α.log i, s, hs, ?_⟩
    rw [hlog]
    exact hgrow.leaderLog _

/-- A server with a sound commit index hands over committed entries only. -/
theorem Sound.delivers {t : Transition (Cluster n) (Action n)} (h : Refines α t.before)
    (hs : Sound α t.before) {i : Fin n} {msg : ApplyMsg} (hmsg : Produces t i msg) :
    Delivers α msg := by
  rcases hmsg with ⟨_, hmem⟩
  rcases (h.node i).getApplyLogs with ⟨msgs, hrun, hall⟩
  rw [Raft.applyMsgs, hrun] at hmem
  rcases hall msg hmem with ⟨j, log, hj, hlog, hmsg⟩
  refine ⟨_, _, j, log, hs.commit i, ?_, hmsg⟩
  rw [List.getElem?_take_of_lt (by omega)]
  exact hlog

/-!
# Whole runs
-/

theorem Explains.snoc {tr : List (Transition (Cluster n) (Action n))} {a : Action n}
    (h : Explains α tr σ) (hsim : Simulated α σ a σ' β) :
    Explains β (tr ++ [{ before := σ, action := a, after := σ' }]) σ' := by
  rcases hsim.moves with ⟨v, hmoves⟩
  have hgrow := hmoves.grows h.ballots
  have hold : forall t, t ∈ tr -> Recorded β t := fun t ht => (h.recorded t ht).mono hgrow
  exact
    { ballots := hmoves.ballots h.ballots
      refines := hsim.refines
      recorded := by
        intro t ht
        rcases List.mem_append.mp ht with hin | hin
        · exact hold t hin
        · rw [List.mem_singleton.mp hin]
          exact hsim.recorded h.ballots h.refines
      elections := by
        refine List.pairwise_append.mpr ⟨h.elections, List.pairwise_singleton _ _, ?_⟩
        intro t ht u hu i j T U hT hU
        rw [List.mem_singleton.mp hu] at hU
        rcases hU with ⟨hno, hyes, rfl⟩
        have hnone := (hsim.crowned j hno hyes).1
        rintro rfl
        rw [((h.recorded t ht).elected hT).1] at hnone
        cases hnone
      sound := by
        intro hcl
        rcases h.sound fun t ht => hcl t (List.mem_append_left _ ht) with ⟨hs, hmsgs⟩
        have hlast := hcl _ (List.mem_append_right tr (List.mem_singleton_self _))
        refine ⟨hsim.sound hs hlast, ?_⟩
        intro t ht i msg hmsg
        rcases List.mem_append.mp ht with hin | hin
        · exact (hmsgs t hin i msg hmsg).mono hgrow
        · rw [List.mem_singleton.mp hin] at hmsg
          exact (hs.delivers h.refines hmsg).mono hgrow }

theorem Explains.initial [Archive] :
    Explains (LogState.initial 0) [] (Cluster.initial n) where
  ballots := Ballots.initial _ _
  refines := refines_initial
  recorded _ ht := absurd ht List.not_mem_nil
  elections := List.Pairwise.nil
  sound _ := ⟨sound_initial, fun _ ht => absurd ht List.not_mem_nil⟩

theorem explained [Archive] {tr : List (Transition (Cluster n) (Action n))}
    (h : (clusterSystem n).Trace tr σ) : exists α, Explains α tr σ := by
  refine TransitionSystem.Trace.invariant
    (P := fun tr σ => exists α : Logs n, Explains α tr σ) ⟨_, Explains.initial⟩ ?_ h
  rintro tr σ σ' a _ ⟨α, hα⟩ hstep
  rcases simulates hα.ballots hα.refines (step_effect hstep) with ⟨β, hsim⟩
  exact ⟨β, hα.snoc hsim⟩

end

end RaftCore
end KVRaft
