import KVRaft.KvServer.PlainKvArchive
import KVRaft.RaftClerk.DeploymentRuns
import KVRaft.RaftCore.Raft.PlainArchive

/-!
# The whole system is linearizable

Clerks of any number of processes, key-value servers and the Raft nodes under them, in
any interleaving in which no logs are mixed and the clerks keep apart: the clerks see
one store that does their calls one after the other.
-/

namespace KVRaft
namespace RaftClerk

open Foundation KvServer
open RaftCore (Archive ApplyMsg Cluster clusterSystem plainArchive)

variable {n : Nat}

def DeploymentAction.Begins : DeploymentAction n -> Prop
  | .clerk a => a.Begins
  | _ => False

instance : DecidablePred (DeploymentAction.Begins (n := n)) := fun a =>
  match a with
  | .clerk a => inferInstanceAs (Decidable a.Begins)
  | .start _ => .isFalse id
  | .raft _ => .isFalse id
  | .applierTicker _ => .isFalse id
  | .getCommandFromRaft _ => .isFalse id

namespace Deployment

/-- Call `a` had returned when call `b` began. -/
def Precedes (tr : List (Transition (Deployment n) (DeploymentAction n))) (a b : Nat) :
    Prop :=
  exists t, t ∈ tr ∧ t.action.Begins ∧ t.before.calls.length = b ∧
    a ∈ t.before.returned.map Prod.fst

/-- The channel that all others are a part of. -/
structure Longest (δ : Deployment n) (longest : List ApplyMsg) : Prop where
  holds : forall i, δ.applyChan i <+: longest
  held : longest = [] ∨ exists i, δ.applyChan i = longest

variable [Archive] [OpArchive]

/-- A run of the service that a run of the deployment comes to. -/
structure Simulates [NeZero n] (rand : Nat -> Nat)
    (tr : List (Transition (Deployment n) (DeploymentAction n))) (δ : Deployment n)
    (ctr : List (Transition (Cluster n) (RaftCore.Action n))) (longest : List ApplyMsg)
    (str : List (Transition (Service n) (Action n))) : Prop where
  coupled : Coupled ctr δ
  channels : Longest δ longest
  run : OrderlyRun rand str (δ.service (entriesOf δ.proposals longest))
  begun : forall t, t ∈ tr -> t.action.Begins -> exists u, u ∈ str ∧
    u.before.calls = t.before.calls ∧ u.before.returned = t.before.returned

variable {δ : Deployment n} {longest : List ApplyMsg}
variable {ctr : List (Transition (Cluster n) (RaftCore.Action n))}

theorem Longest.proposed (h : Longest δ longest) (hcoupled : Coupled ctr δ) (msg : ApplyMsg)
    (hmsg : msg ∈ longest) : Proposed δ.proposals msg.command msg.commandIndex := by
  rcases h.held with rfl | ⟨i, rfl⟩
  · cases hmsg
  · exact (hcoupled.pushed i).proposed msg hmsg

theorem Longest.numbered (h : Longest δ longest) (hcoupled : Coupled ctr δ) {k : Nat}
    {msg : ApplyMsg} (hmsg : longest[k]? = some msg) : msg.commandIndex = (k : Int) + 1 := by
  rcases h.held with rfl | ⟨i, rfl⟩
  · cases hmsg
  · exact (hcoupled.pushed i).numbered k msg hmsg

omit [Archive] [OpArchive] in
theorem Longest.of_same {δ' : Deployment n} (h : Longest δ longest)
    (hchan : δ'.applyChan = δ.applyChan) : Longest δ' longest where
  holds := by
    rw [hchan]
    exact h.holds
  held := by
    rw [hchan]
    exact h.held

/-- When a channel has grown, it is the longest from now on, or was not and is not. -/
theorem Longest.grow {δ' : Deployment n} (h : Longest δ longest)
    {ctr' : List (Transition (Cluster n) (RaftCore.Action n))} (hcoupled : Coupled ctr' δ')
    {i : Fin n} (hself : δ.applyChan i <+: δ'.applyChan i)
    (hother : forall j, j ≠ i -> δ'.applyChan j = δ.applyChan j) :
    exists more, Longest δ' (longest ++ more) := by
  have hgrows : forall j, δ.applyChan j <+: δ'.applyChan j := by
    intro j
    by_cases hj : j = i
    · rw [hj]
      exact hself
    · rw [hother j hj]
  have hcomparable : longest <+: δ'.applyChan i ∨ δ'.applyChan i <+: longest := by
    rcases h.held with rfl | ⟨j, rfl⟩
    · exact Or.inl List.nil_prefix
    · by_cases hj : j = i
      · rw [hj]
        exact Or.inl hself
      · rw [← hother j hj]
        exact hcoupled.comparable j i
  rcases hcomparable with ⟨more, hmore⟩ | hshort
  · refine ⟨more, ?_, Or.inr ⟨i, hmore.symm⟩⟩
    intro j
    by_cases hj : j = i
    · rw [hj, hmore]
    · rw [hother j hj]
      exact (h.holds j).trans (List.prefix_append _ _)
  · refine ⟨[], ?_, ?_⟩
    · intro j
      rw [List.append_nil]
      by_cases hj : j = i
      · rw [hj]
        exact hshort
      · rw [hother j hj]
        exact h.holds j
    · rw [List.append_nil]
      rcases h.held with hnil | ⟨j, hj⟩
      · exact Or.inl hnil
      · refine Or.inr ⟨j, ?_⟩
        by_cases hi : j = i
        · subst hi
          rw [← hj] at hshort ⊢
          exact (hshort.eq_of_length_le (hgrows j).length_le)
        · rw [hother j hi, hj]

/-!
# Steps
-/

omit [Archive] in
theorem entriesOf_prefix [LawfulOpArchive] {proposals : List (Entry × Int)}
    {msgs msgs' : List ApplyMsg} (hbegin : msgs <+: msgs')
    (h : forall msg, msg ∈ msgs' -> Proposed proposals msg.command msg.commandIndex) :
    entriesOf proposals msgs <+: entriesOf proposals msgs' := by
  rcases hbegin with ⟨more, rfl⟩
  have happend := entriesOf_append (fun msg hmsg => h msg (List.mem_append_left more hmsg))
    [] more
  rw [List.append_nil] at happend
  rw [happend]
  exact List.prefix_append _ _

omit [Archive] [OpArchive] in
theorem handle_proposals [NeZero n] {rand : Nat -> Nat} {σ σ' : Service n} {a : Nat}
    {action : HandlerAction} (h : σ.step rand (.handle a action) = some σ') :
    exists attempt, σ.attempts[a]? = some attempt ∧
      σ'.proposals = σ.proposals ++ Service.proposed attempt.entry action := by
  simp only [Service.step] at h
  cases hattempt : σ.attempts[a]? with
  | none =>
      rw [hattempt] at h
      cases h
  | some attempt =>
      simp only [hattempt] at h
      cases hrun : (σ.server attempt.server).kv.handle attempt.entry.op attempt.phase
          action with
      | none =>
          rw [hrun] at h
          cases h
      | some result =>
          rw [hrun] at h
          cases h
          exact ⟨attempt, rfl, rfl⟩

omit [Archive] [OpArchive] in
theorem turn_proposals (σ : Service n) (client : Nat) (clerk : Clerk n)
    (attempt : Attempt n) (reply : Option Reply) :
    (σ.turn client clerk attempt reply).proposals = σ.proposals := by
  unfold Service.turn
  cases clerk.turn attempt.entry.op attempt.server reply with
  | next server => rfl
  | done recentLeaderId value => rfl

omit [Archive] [OpArchive] in
/-- What the clerks do by themselves proposes and commits nothing. -/
theorem Runs.not_committing {a : Action n} (h : δ.Runs a) :
    (forall p, a ≠ .commit p) ∧ forall i, a ≠ .getCommandFromRaft i := by
  constructor
  · rintro p rfl
    exact h
  · rintro i rfl
    exact h

omit [Archive] [OpArchive] in
theorem Runs.proposals [NeZero n] {rand : Nat -> Nat} {a : Action n} (h : δ.Runs a)
    {σ : Service n} (hstep : (δ.service []).step rand a = some σ) :
    σ.proposals = δ.proposals := by
  cases a with
  | newClerk drawn =>
      cases hstep
      rfl
  | invoke client request =>
      simp only [Service.step] at hstep
      cases hclient : (δ.service []).clients[client]? with
      | none =>
          rw [hclient] at hstep
          cases hstep
      | some x =>
          rcases x with ⟨clerk, waits⟩
          rw [hclient] at hstep
          cases waits with
          | some a => cases hstep
          | none =>
              cases hstep
              rfl
  | handle a action =>
      rcases handle_proposals hstep with ⟨attempt, _, hproposals⟩
      rw [hproposals]
      cases action with
      | start raftIndex => exact absurd h id
      | openWaitChan => exact List.append_nil _
      | timeOutPop => exact List.append_nil _
      | timeOut leader => exact List.append_nil _
      | executeGetOpOnKVDB => exact List.append_nil _
      | closeWaitChan => exact List.append_nil _
  | commit p => exact absurd h id
  | getCommandFromRaft i => exact absurd h id
  | fail client =>
      simp only [Service.step] at hstep
      cases hcurrent : (δ.service []).current client with
      | none =>
          rw [hcurrent] at hstep
          cases hstep
      | some result =>
          rw [hcurrent] at hstep
          cases hstep
          exact turn_proposals _ _ _ _ _
  | receive client =>
      simp only [Service.step] at hstep
      cases hcurrent : (δ.service []).current client with
      | none =>
          rw [hcurrent] at hstep
          cases hstep
      | some result =>
          rcases result with ⟨clerk, attempt⟩
          simp only [hcurrent] at hstep
          cases hphase : attempt.phase with
          | replied raftIndex reply =>
              simp only [hphase] at hstep
              cases hstep
              exact turn_proposals _ _ _ _ _
          | _ =>
              simp only [hphase] at hstep
              cases hstep

variable [LawfulOpArchive] [NeZero n] {rand : Nat -> Nat}
variable {tr : List (Transition (Deployment n) (DeploymentAction n))}
variable {str : List (Transition (Service n) (Action n))}

omit [LawfulOpArchive] in
/-- A step that is no step of the service, or several commits. -/
theorem Simulates.begun_keep (h : Simulates rand tr δ ctr longest str)
    {t : Transition (Deployment n) (DeploymentAction n)}
    (hnot : ¬ t.action.Begins) (later : List (Transition (Service n) (Action n))) :
    forall u, u ∈ tr ++ [t] -> u.action.Begins -> exists v, v ∈ str ++ later ∧
      v.before.calls = u.before.calls ∧ v.before.returned = u.before.returned := by
  intro u hu hbegins
  rcases List.mem_append.mp hu with hold | hnew
  · rcases h.begun u hold hbegins with ⟨v, hv, hsame⟩
    exact ⟨v, List.mem_append_left _ hv, hsame⟩
  · rw [List.mem_singleton.mp hnew] at hbegins
    exact absurd hbegins hnot

omit [LawfulOpArchive] in
theorem Simulates.clerk (h : Simulates rand tr δ ctr longest str) {a : Action n}
    {σ : Service n} (hruns : δ.Runs a) (hstep : (δ.service []).step rand a = some σ)
    (hapart : KeepsApart rand
      { before := δ.service [], action := a, after := (δ.withService σ).service [] }) :
    exists str', Simulates rand
      (tr ++ [{ before := δ, action := .clerk a, after := δ.withService σ }])
      (δ.withService σ) ctr longest str' := by
  rcases hruns.not_committing with ⟨hcommit, hloop⟩
  have hproposals := hruns.proposals hstep
  have hgrow : δ.proposals <+: (δ.withService σ).proposals := by
    change _ <+: σ.proposals
    rw [hproposals]
  have hnext := Service.step_committed (entriesOf δ.proposals longest) hcommit hloop hstep
  have hrun := h.run.snoc hnext hapart
  have hsame : { σ with committed := entriesOf δ.proposals longest } =
      (δ.withService σ).service (entriesOf (δ.withService σ).proposals longest) := by
    rw [← hproposals]
    rfl
  refine ⟨_, h.coupled.keep rfl hgrow rfl, h.channels.of_same rfl, hsame ▸ hrun, ?_⟩
  intro u hu hbegins
  rcases List.mem_append.mp hu with hold | hnew
  · rcases h.begun u hold hbegins with ⟨v, hv, hbefore⟩
    exact ⟨v, List.mem_append_left _ hv, hbefore⟩
  · rw [List.mem_singleton.mp hnew]
    exact ⟨_, List.mem_append_right _ (List.mem_singleton_self _), rfl, rfl⟩

theorem Simulates.started (h : Simulates rand tr δ ctr longest str) {a : Nat}
    {attempt : Attempt n} {σ : Service n} {raftIndex : Option Int}
    {δ' : Deployment n} (hattempt : δ.attempts[a]? = some attempt)
    (hrunning : δ.cluster.Running attempt.server)
    (hindex : raftIndex = ((δ.cluster.raft attempt.server).start
      (OpArchive.asString attempt.entry.op)).2.map Prod.fst)
    (hstep : (δ.service []).step rand (.handle a (.start raftIndex)) = some σ)
    (hafter : δ' =
      { δ.withService σ with
        cluster := δ.cluster.setRaft attempt.server
          ((δ.cluster.raft attempt.server).start (OpArchive.asString attempt.entry.op)).1 }) :
    exists ctr' str', Simulates rand
      (tr ++ [{ before := δ, action := .start a, after := δ' }]) δ' ctr' longest str' := by
  rcases handle_proposals hstep with ⟨attempt', hattempt', hproposals⟩
  have hsame : some attempt = some attempt' := hattempt.symm.trans hattempt'
  cases hsame
  have hgrow : δ'.proposals =
      δ.proposals ++ Service.proposed attempt.entry (.start raftIndex) := by
    rw [hafter]
    exact hproposals
  have hcoupled : Coupled _ δ' := h.coupled.start hrunning (by rw [hafter]) rfl
    (by rw [hgrow, hindex]) (by rw [hafter]; rfl)
  have hnext := Service.step_committed (a := .handle a (.start raftIndex))
    (entriesOf δ.proposals longest) nofun nofun hstep
  have hrun := h.run.snoc hnext (keepsApart_of_none rfl rfl)
  have hsame : δ'.service (entriesOf δ'.proposals longest) =
      { σ with committed := entriesOf δ.proposals longest } := by
    rw [hgrow, entriesOf_later (h.channels.proposed h.coupled), hafter]
    rfl
  rw [← hsame] at hrun
  exact ⟨_, _, hcoupled, h.channels.of_same (by rw [hafter]; rfl), hrun, h.begun_keep id _⟩

omit [LawfulOpArchive] in
theorem Simulates.raft (h : Simulates rand tr δ ctr longest str) {a : RaftCore.Action n}
    {cluster : Cluster n} (hinternal : a.Internal) (hstep : δ.cluster.step a = some cluster)
    (hclean : RaftCore.Cluster.Clean
      { before := δ.cluster, action := a, after := cluster }) :
    exists ctr', Simulates rand
      (tr ++ [{ before := δ, action := .raft a, after := { δ with cluster := cluster } }])
      { δ with cluster := cluster } ctr' longest str := by
  have hbegun := h.begun_keep
    (t := { before := δ, action := .raft a, after := { δ with cluster := cluster } }) id []
  rw [List.append_nil] at hbegun
  exact ⟨_, h.coupled.raft hinternal hstep hclean, h.channels.of_same rfl, h.run, hbegun⟩

theorem Simulates.pushed (h : Simulates rand tr δ ctr longest str) {i : Fin n}
    {δ' : Deployment n} (hstep : δ.cluster.step (.applierTicker i) = some δ'.cluster)
    (hservice : forall committed, δ'.service committed = δ.service committed)
    (hself : δ'.applyChan i = δ.applyChan i ++ (δ.cluster.raft i).applyMsgs)
    (hother : forall j, j ≠ i -> δ'.applyChan j = δ.applyChan j) :
    exists ctr' longest' str', Simulates rand
      (tr ++ [{ before := δ, action := .applierTicker i, after := δ' }])
      δ' ctr' longest' str' := by
  have hproposals : δ'.proposals = δ.proposals :=
    congrArg Service.proposals (hservice [])
  have hcoupled : Coupled _ δ' := h.coupled.push hstep hproposals hself hother
  have hlonger : δ.applyChan i <+: δ'.applyChan i := hself ▸ List.prefix_append _ _
  rcases h.channels.grow hcoupled hlonger hother with ⟨more, hlongest⟩
  have hproposed : forall msg, msg ∈ longest ++ more ->
      Proposed δ.proposals msg.command msg.commandIndex := by
    rw [← hproposals]
    exact hlongest.proposed hcoupled
  have hold := length_entriesOf fun msg hmsg =>
    hproposed msg (List.mem_append_left more hmsg)
  have hnumbered : forall (k : Nat) msg, more[k]? = some msg ->
      msg.commandIndex = ((entriesOf δ.proposals longest).length + k : Nat) + 1 := by
    intro k msg hmsg
    rw [hold]
    apply hlongest.numbered hcoupled
    rw [List.getElem?_append_right (Nat.le_add_right _ _), Nat.add_sub_cancel_left]
    exact hmsg
  rcases h.run.commit (fun msg hmsg => hproposed msg (List.mem_append_right _ hmsg))
    hnumbered with ⟨later, hlater⟩
  refine ⟨_, longest ++ more, str ++ later, hcoupled, hlongest, ?_, h.begun_keep id later⟩
  have happend := entriesOf_append (fun msg hmsg =>
    hproposed msg (List.mem_append_left more hmsg)) [] more
  rw [List.append_nil] at happend
  rw [hservice, hproposals, happend]
  exact hlater

theorem Simulates.consumed (h : Simulates rand tr δ ctr longest str) {i : Fin n}
    {server : Server}
    (hserver : (δ.server i).getCommandFromRaft (entriesOf δ.proposals (δ.applyChan i)) =
      some server) :
    exists str', Simulates rand
      (tr ++ [{ before := δ
                action := .getCommandFromRaft i
                after := { δ with server := Function.update δ.server i server } }])
      { δ with server := Function.update δ.server i server } ctr longest str' := by
  have hbegin := entriesOf_prefix (h.channels.holds i) (h.channels.proposed h.coupled)
  have hread := Server.getCommandFromRaft_of_prefix hbegin hserver
  have hstep : (δ.service (entriesOf δ.proposals longest)).step rand
      (.getCommandFromRaft i) =
      some (Deployment.service { δ with server := Function.update δ.server i server }
        (entriesOf δ.proposals longest)) := by
    simp only [Service.step]
    have hsame : ((δ.service (entriesOf δ.proposals longest)).server i).getCommandFromRaft
        (δ.service (entriesOf δ.proposals longest)).committed = some server := hread
    rw [hsame]
    rfl
  exact ⟨_, h.coupled.keep rfl List.prefix_rfl rfl, h.channels.of_same rfl,
    h.run.snoc hstep (keepsApart_of_none rfl rfl), h.begun_keep id _⟩

/-- Every run comes to one of the service. -/
theorem simulates (htr : (deploymentSystem n rand).Trace tr δ)
    (hC : forall t, t ∈ tr -> CleanStep t ∧ ClerksApart rand t) :
    exists ctr longest str, Simulates rand tr δ ctr longest str := by
  refine TransitionSystem.Trace.invariant_under
    (P := fun tr δ => exists ctr longest str, Simulates rand tr δ ctr longest str)
    ?_ ?_ htr hC
  · exact ⟨[], [], [], Coupled.initial rand, ⟨fun _ => List.prefix_rfl, Or.inl rfl⟩,
      ⟨.nil, nofun⟩, nofun⟩
  · rintro tr δ δ' a _ _ ⟨ctr, longest, str, h⟩ hstep ⟨hclean, hapart⟩
    cases step_effect hstep with
    | clerk hruns hσ =>
        rcases h.clerk hruns hσ (hapart _ rfl) with ⟨str', h'⟩
        exact ⟨_, _, str', h'⟩
    | started hattempt hrunning hσ =>
        rcases h.started hattempt hrunning rfl hσ rfl with ⟨ctr', str', h'⟩
        exact ⟨ctr', _, str', h'⟩
    | raft hinternal hcluster =>
        rcases h.raft hinternal hcluster (hclean _ rfl) with ⟨ctr', h'⟩
        exact ⟨ctr', _, _, h'⟩
    | @pushed i cluster hcluster =>
        exact h.pushed hcluster (fun _ => rfl) (Function.update_self ..)
          fun j hj => Function.update_of_ne hj ..
    | consumed hserver =>
        rcases h.consumed hserver with ⟨str', h'⟩
        exact ⟨_, _, str', h'⟩

end Deployment

/-!
# Whole runs
-/

theorem deployment_linearizable [NeZero n] [Archive] [OpArchive] [LawfulOpArchive]
    {rand : Nat -> Nat} (r : (deploymentSystem n rand).Run)
    (hclean : r.Always CleanStep) (hapart : r.Always (ClerksApart rand)) :
    exists order,
      Linearizes kvStore r.state.calls r.state.returned (Deployment.Precedes r.trace) order ∧
      forall i, exists earlier, earlier <+: order ∧
        kvStore.Legal kvStore.init earlier (contents (r.state.server i).kv.skipList) := by
  rcases Deployment.simulates r.valid fun t ht => ⟨hclean t ht, hapart t ht⟩ with
    ⟨ctr, longest, str, hsim⟩
  have haccounted := accounted hsim.run.trace hsim.run.apart
  refine ⟨_, Service.order_linearizes haccounted ?_, Service.order_server haccounted⟩
  rintro a b ⟨t, ht, hbegins, hbegun, hreturned⟩
  rcases hsim.begun t ht hbegins with ⟨u, hu, hcalls, hsame⟩
  rcases hsim.run.trace.before_of_mem hu with ⟨earlier, hearlier, hsub⟩
  have hbefore := accounted hearlier fun v hv => hsim.run.apart v (hsub v hv)
  refine ⟨u.before, hbefore, ?_, hcalls ▸ hbegun, hsame ▸ hreturned⟩
  have hgrows : forall v, v ∈ str -> v.before.Extends v.after :=
    fun v hv => extends_of_effect (Service.step_effect (hsim.run.trace.step_of_mem hv))
  have htrans : forall σ σ' σ'' : Service n, σ.Extends σ' -> σ'.Extends σ'' ->
      σ.Extends σ'' := fun _ _ _ h h' => h.trans h'
  exact hsim.run.trace.before_rel htrans hgrows hu

/-!
Server 0 leads and takes a Put.  Server 1 is elected, and a Get that server 0 still
accepts is lost with the entry it stood in; the clerk asks server 1.
-/

/-- The loop of a server consumes a command. -/
def consumes (i : Fin 3) : List (DeploymentAction 3) :=
  List.replicate 3 (.getCommandFromRaft i)

/-- The server of a handler call leads, and another server takes over its log. -/
def replicated (leader : Fin 3) (attempt call : Nat) : List (DeploymentAction 3) :=
  [.start attempt, .clerk (.handle attempt .openWaitChan), .raft (.doHeartBeat leader),
    .raft (.appendEntries call), .raft (.appendEntriesReply call), .applierTicker leader] ++
    consumes leader

def electedTwiceSchedule : List (DeploymentAction 3) :=
  [.clerk (.newClerk 0), .clerk (.newClerk 4), .raft (.doElection 0),
    .raft (.requestVote 1), .raft (.requestVoteReply 1),
    .clerk (.invoke 0 (.put [120] [97]))] ++ replicated 0 0 0 ++
    [.clerk (.handle 0 .timeOutPop), .clerk (.handle 0 .closeWaitChan), .clerk (.receive 0),
      .raft (.doElection 1), .raft (.requestVote 3), .raft (.requestVoteReply 3),
      .clerk (.invoke 1 (.get [120])), .start 1, .clerk (.handle 1 .openWaitChan),
      .clerk (.handle 1 (.timeOut true)), .clerk (.handle 1 .closeWaitChan),
      .clerk (.receive 1)] ++ replicated 1 2 2 ++ consumes 1 ++
    [.clerk (.handle 2 .timeOutPop), .clerk (.handle 2 .executeGetOpOnKVDB),
      .clerk (.handle 2 .closeWaitChan), .clerk (.receive 1), .raft (.doHeartBeat 1),
      .raft (.appendEntries 4), .applierTicker 0] ++ consumes 0

def electedTwiceRun :
    (@deploymentSystem plainArchive plainKvArchive.toOpArchive 3 _ unseeded).Run :=
  TransitionSystem.runOf _ electedTwiceSchedule (by decide +kernel)

theorem electedTwiceRun_linearizable :
    electedTwiceRun.state.returned = [(0, []), (1, [97])] ∧
    Deployment.Precedes electedTwiceRun.trace 0 1 ∧
      exists order, Linearizes kvStore electedTwiceRun.state.calls
        electedTwiceRun.state.returned (Deployment.Precedes electedTwiceRun.trace) order := by
  have hclean : forall t, t ∈ electedTwiceRun.trace -> CleanStep t := by
    decide +kernel
  have hapart : forall t, t ∈ electedTwiceRun.trace -> ClerksApart unseeded t := by
    decide +kernel
  rcases @deployment_linearizable 3 _ plainArchive plainKvArchive.toOpArchive
    plainKvArchive_lawful.toLawfulOpArchive unseeded electedTwiceRun hclean hapart with
    ⟨order, horder, _⟩
  refine ⟨by decide +kernel, ?_, order, horder⟩
  unfold Deployment.Precedes
  decide +kernel

end RaftClerk
end KVRaft
