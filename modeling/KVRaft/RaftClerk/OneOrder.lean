import KVRaft.RaftClerk.Deployment
import KVRaft.RaftCore.Safety.StateMachineSafety

/-!
# One committed order

The nodes of a deployment run as a cluster by themselves.  Every message an applier
pushes carries the next index and an operation that was handed to Raft at that index,
and as long as no logs are mixed the messages of all servers agree.
-/

namespace KVRaft
namespace RaftClerk

open Foundation KvServer
open RaftCore (Archive ApplyMsg Cluster LogEntry Raft clusterSystem)
open RaftCore.Cluster (Clean Produces Uncompacted PassesAround)

variable {n : Nat}

/-- The step of Raft in a step of the deployment mixes no logs. -/
def CleanStep (t : Transition (Deployment n) (DeploymentAction n)) : Prop :=
  forall a, a ∈ t.action.ofRaft ->
    Clean { before := t.before.cluster, action := a, after := t.after.cluster }

instance : DecidablePred (CleanStep (n := n)) := fun t =>
  inferInstanceAs (Decidable (forall a, a ∈ t.action.ofRaft ->
    Clean { before := t.before.cluster, action := a, after := t.after.cluster }))

variable [Archive] [OpArchive]

/-- An operation has been handed to Raft at an index. -/
def Proposed (proposals : List (Entry × Int)) (command : Bytes) (index : Int) : Prop :=
  exists entry, (entry, index) ∈ proposals ∧ OpArchive.asString entry.op = command

omit [Archive] in
theorem Proposed.append {proposals : List (Entry × Int)} {command : Bytes} {index : Int}
    (h : Proposed proposals command index) (later : List (Entry × Int)) :
    Proposed (proposals ++ later) command index := by
  rcases h with ⟨entry, hentry, hcommand⟩
  exact ⟨entry, List.mem_append_left _ hentry, hcommand⟩

namespace Deployment

/-- What the applier of server `i` has pushed, message by message. -/
structure PushedWell (ctr : List (Transition (Cluster n) (RaftCore.Action n)))
    (δ : Deployment n) (i : Fin n) : Prop where
  applied : (δ.cluster.raft i).lastApplied = (δ.applyChan i).length
  numbered : forall (k : Nat) msg, (δ.applyChan i)[k]? = some msg ->
    msg.commandIndex = (k : Int) + 1
  produced : forall msg, msg ∈ δ.applyChan i -> exists t, t ∈ ctr ∧ Produces t i msg
  proposed : forall msg, msg ∈ δ.applyChan i ->
    Proposed δ.proposals msg.command msg.commandIndex

/-- The nodes have run as a cluster, and all entries come from the handlers. -/
structure Coupled (ctr : List (Transition (Cluster n) (RaftCore.Action n)))
    (δ : Deployment n) : Prop where
  trace : (clusterSystem n).Trace ctr δ.cluster
  clean : forall t, t ∈ ctr -> Clean t
  uncompacted : Uncompacted δ.cluster
  proposed : forall log, δ.cluster.Present log ->
    Proposed δ.proposals log.command log.logIndex
  pushed : forall i, δ.PushedWell ctr i

variable {ctr : List (Transition (Cluster n) (RaftCore.Action n))} {δ : Deployment n}

/-!
# Messages with one index
-/

/-- Two appliers that have come to the same index have pushed the same message. -/
theorem Coupled.agree (h : Coupled ctr δ) {i j : Fin n} {k : Nat} {msg msg' : ApplyMsg}
    (hi : (δ.applyChan i)[k]? = some msg) (hj : (δ.applyChan j)[k]? = some msg') :
    msg = msg' := by
  rcases RaftCore.explained h.trace with ⟨α, hα⟩
  rcases hα.sound h.clean with ⟨hs, hdelivers⟩
  rcases (h.pushed i).produced msg (List.mem_of_getElem? hi) with ⟨t, ht, hmsg⟩
  rcases (h.pushed j).produced msg' (List.mem_of_getElem? hj) with ⟨u, hu, hmsg'⟩
  apply (hdelivers t ht i msg hmsg).agree hα.ballots hs.safe (hdelivers u hu j msg' hmsg')
  rw [(h.pushed i).numbered k msg hi, (h.pushed j).numbered k msg' hj]

theorem Coupled.comparable (h : Coupled ctr δ) (i j : Fin n) :
    δ.applyChan i <+: δ.applyChan j ∨ δ.applyChan j <+: δ.applyChan i := by
  rcases Nat.le_total (δ.applyChan i).length (δ.applyChan j).length with hle | hle
  · exact Or.inl (prefix_of_agree hle fun k _ _ hi hj => h.agree hi hj)
  · exact Or.inr (prefix_of_agree hle fun k _ _ hj hi => h.agree hj hi)

/-!
# Steps
-/

theorem Coupled.initial [NeZero n] (rand : Nat -> Nat) :
    Coupled [] (deploymentSystem n rand).init where
  trace := .nil
  clean := nofun
  uncompacted :=
    { node := fun i => congrArg Raft.lastSnapshotIncludeIndex (RaftCore.initial_raft i)
      calls := rfl }
  proposed := by
    rintro log (⟨i, hlog⟩ | ⟨call, hcall, _⟩)
    · change log ∈ ((Cluster.initial n).raft i).logs at hlog
      rw [RaftCore.initial_raft] at hlog
      cases hlog
    · cases hcall
  pushed i :=
    { applied := congrArg Raft.lastApplied (RaftCore.initial_raft i)
      numbered := nofun
      produced := nofun
      proposed := nofun }

omit [Archive] in
theorem PushedWell.keep {ctr' : List (Transition (Cluster n) (RaftCore.Action n))}
    {δ' : Deployment n} {i : Fin n} (h : δ.PushedWell ctr i)
    (hctr : forall t, t ∈ ctr -> t ∈ ctr')
    (happlied : (δ'.cluster.raft i).lastApplied = (δ.cluster.raft i).lastApplied)
    (hproposals : δ.proposals <+: δ'.proposals) (hchan : δ'.applyChan i = δ.applyChan i) :
    δ'.PushedWell ctr' i where
  applied := by
    rw [happlied, hchan]
    exact h.applied
  numbered := by
    rw [hchan]
    exact h.numbered
  produced := by
    rw [hchan]
    intro msg hmsg
    rcases h.produced msg hmsg with ⟨t, ht, hproduces⟩
    exact ⟨t, hctr t ht, hproduces⟩
  proposed := by
    rw [hchan]
    rcases hproposals with ⟨later, hlater⟩
    rw [← hlater]
    intro msg hmsg
    exact (h.proposed msg hmsg).append later

/-- A step of the clerks or of a handler, with no part of Raft in it. -/
theorem Coupled.keep {δ' : Deployment n} (h : Coupled ctr δ)
    (hcluster : δ'.cluster = δ.cluster) (hproposals : δ.proposals <+: δ'.proposals)
    (hchan : δ'.applyChan = δ.applyChan) : Coupled ctr δ' where
  trace := hcluster ▸ h.trace
  clean := h.clean
  uncompacted := hcluster ▸ h.uncompacted
  proposed := by
    rw [hcluster]
    rcases hproposals with ⟨later, hlater⟩
    rw [← hlater]
    intro log hlog
    exact (h.proposed log hlog).append later
  pushed i := (h.pushed i).keep (fun _ ht => ht) (by rw [hcluster]) hproposals
    (congrFun hchan i)

theorem Coupled.raft (h : Coupled ctr δ) {a : RaftCore.Action n} {cluster : Cluster n}
    (hinternal : a.Internal) (hstep : δ.cluster.step a = some cluster)
    (hclean : Clean { before := δ.cluster, action := a, after := cluster }) :
    Coupled (ctr ++ [{ before := δ.cluster, action := a, after := cluster }])
      { δ with cluster := cluster } := by
  have hpasses := (RaftCore.Cluster.step_effect hstep).passesAround h.uncompacted hinternal
  exact
    { trace := .snoc h.trace hstep
      clean := by
        intro t ht
        rcases List.mem_append.mp ht with hold | hnew
        · exact h.clean t hold
        · rw [List.mem_singleton.mp hnew]
          exact hclean
      uncompacted := hpasses.uncompacted h.uncompacted
      proposed := fun log hlog => h.proposed log (hpasses.present log hlog)
      pushed := fun i => (h.pushed i).keep (fun _ ht => List.mem_append_left _ ht)
        (hpasses.lastApplied i) List.prefix_rfl rfl }

omit [Archive] [OpArchive] in
theorem clean_of_not_received {σ σ' : Cluster n} {a : RaftCore.Action n}
    (happend : σ.deliveredAppend a = none) (hsnapshot : σ.deliveredSnapshot a = none) :
    Clean { before := σ, action := a, after := σ' } := by
  constructor
  · intro call hcall
    rw [happend] at hcall
    cases hcall
  · intro call hcall
    rw [hsnapshot] at hcall
    cases hcall

theorem Coupled.start (h : Coupled ctr δ) {i : Fin n} {op : Op} {entry : Entry}
    {δ' : Deployment n} (hrunning : δ.cluster.Running i)
    (hcluster : δ'.cluster =
      δ.cluster.setRaft i ((δ.cluster.raft i).start (OpArchive.asString op)).1)
    (hentry : entry.op = op)
    (hproposals : δ'.proposals = δ.proposals ++ Service.proposed entry (.start
      (((δ.cluster.raft i).start (OpArchive.asString op)).2.map Prod.fst)))
    (hchan : δ'.applyChan = δ.applyChan) :
    Coupled (ctr ++ [{ before := δ.cluster
                       action := .start i (OpArchive.asString op)
                       after := δ'.cluster }]) δ' := by
  have hgrow : δ.proposals <+: δ'.proposals := hproposals ▸ List.prefix_append _ _
  have htakes : forall j, (δ'.cluster.raft j).lastApplied = (δ.cluster.raft j).lastApplied ∧
      (δ'.cluster.raft j).lastSnapshotIncludeIndex =
        (δ.cluster.raft j).lastSnapshotIncludeIndex := by
    intro j
    rw [hcluster]
    have htouch := RaftCore.touches_setServer δ.cluster i
      { δ.cluster.servers i with
        raft := ((δ.cluster.raft i).start (OpArchive.asString op)).1 } j
    change ((δ.cluster.setServer i _).raft j).lastApplied = _ ∧
      ((δ.cluster.setServer i _).raft j).lastSnapshotIncludeIndex = _
    rw [htouch]
    by_cases hj : j = i
    · rw [if_pos hj, hj]
      rcases Raft.start_cases (δ.cluster.raft i) (OpArchive.asString op) with
        hstart | ⟨_, hstart⟩
      · rw [hstart]
        exact ⟨rfl, rfl⟩
      · rw [hstart]
        exact ⟨rfl, rfl⟩
    · rw [if_neg hj]
      exact ⟨rfl, rfl⟩
  have hstep : δ.cluster.step (.start i (OpArchive.asString op)) = some δ'.cluster := by
    rw [hcluster]
    exact if_pos hrunning
  constructor
  · exact .snoc h.trace hstep
  · intro t ht
    rcases List.mem_append.mp ht with hold | hnew
    · exact h.clean t hold
    · rw [List.mem_singleton.mp hnew]
      exact clean_of_not_received rfl rfl
  · refine ⟨fun j => (htakes j).2.trans (h.uncompacted.node j), ?_⟩
    rw [hcluster]
    exact h.uncompacted.calls
  · intro log hlog
    rw [hcluster] at hlog
    rcases RaftCore.Cluster.start_present i _ hlog with hold | ⟨hcommand, hresult⟩
    · rcases hgrow with ⟨later, hlater⟩
      rw [← hlater]
      exact (h.proposed log hold).append later
    · refine ⟨entry, ?_, by rw [hentry, hcommand]⟩
      rw [hproposals, hresult]
      exact List.mem_append_right _ (List.mem_singleton_self _)
  · intro j
    exact (h.pushed j).keep (fun _ ht => List.mem_append_left _ ht) (htakes j).1 hgrow
      (congrFun hchan j)

omit [Archive] [OpArchive] in
theorem commandIndex_of_handsOn {first : Int} {msgs : List ApplyMsg}
    (h : RaftCore.HandsOn first msgs) {k : Nat} {msg : ApplyMsg} (hk : msgs[k]? = some msg) :
    msg.commandIndex = first + k := by
  induction msgs generalizing first k with
  | nil => cases hk
  | cons next rest ih =>
      rcases h with ⟨_, _, hindex, hrest⟩
      cases k with
      | zero =>
          cases hk
          rw [hindex]
          exact (Int.add_zero first).symm
      | succ k =>
          rw [ih hrest hk]
          push_cast
          omega

omit [Archive] [OpArchive] in
theorem mem_of_logAtIndex {rf : Raft n} {index : Int} {log : LogEntry}
    (h : rf.logAtIndex index = .ok log) : log ∈ rf.logs := by
  rcases bind_eq_ok.mp h with ⟨slot, _, h⟩
  unfold RaftCore.logAt at h
  by_cases hslot : 0 ≤ slot
  · rw [if_pos hslot] at h
    split at h
    · rename_i held hheld
      cases h
      exact List.mem_of_getElem? hheld
    · cases h
  · rw [if_neg hslot] at h
    cases h

/-- The applier of one server hands on what it has collected. -/
theorem PushedWell.push {δ' : Deployment n} (h : Coupled ctr δ) {i : Fin n} {rf : Raft n}
    {msgs : List ApplyMsg} (hrun : (δ.cluster.raft i).getApplyLogs = .ok (rf, msgs))
    (hraft : δ'.cluster.raft i = rf) (hproposals : δ'.proposals = δ.proposals)
    (hchan : δ'.applyChan i = δ.applyChan i ++ msgs) :
    δ'.PushedWell (ctr ++ [{ before := δ.cluster
                             action := .applierTicker i
                             after := δ'.cluster }]) i := by
  have hwell := h.pushed i
  rcases RaftCore.getApplyLogs_handsOn hrun with ⟨hhands, happlied⟩
  constructor
  · rw [hraft, happlied, hwell.applied, hchan, List.length_append]
    rfl
  · intro k msg hk
    rw [hchan] at hk
    rcases Nat.lt_or_ge k (δ.applyChan i).length with hlt | hge
    · rw [List.getElem?_append_left hlt] at hk
      exact hwell.numbered k msg hk
    · rw [List.getElem?_append_right hge] at hk
      rw [commandIndex_of_handsOn hhands hk, hwell.applied]
      omega
  · intro msg hmsg
    rw [hchan] at hmsg
    rcases List.mem_append.mp hmsg with hold | hnew
    · rcases hwell.produced msg hold with ⟨t, ht, hproduces⟩
      exact ⟨t, List.mem_append_left _ ht, hproduces⟩
    · refine ⟨_, List.mem_append_right _ (List.mem_singleton_self _), rfl, ?_⟩
      rw [Raft.applyMsgs, hrun]
      exact hnew
  · intro msg hmsg
    rw [hchan] at hmsg
    rw [hproposals]
    rcases List.mem_append.mp hmsg with hold | hnew
    · exact hwell.proposed msg hold
    · rcases RaftCore.getApplyLogs_logged hrun hnew with ⟨log, hlog, hindex, hcommand⟩
      rw [← hindex, ← hcommand]
      exact h.proposed log (Or.inl ⟨i, mem_of_logAtIndex hlog⟩)

theorem Coupled.push {δ' : Deployment n} (h : Coupled ctr δ) {i : Fin n}
    (hstep : δ.cluster.step (.applierTicker i) = some δ'.cluster)
    (hproposals : δ'.proposals = δ.proposals)
    (hself : δ'.applyChan i = δ.applyChan i ++ (δ.cluster.raft i).applyMsgs)
    (hother : forall j, j ≠ i -> δ'.applyChan j = δ.applyChan j) :
    Coupled (ctr ++ [{ before := δ.cluster
                       action := .applierTicker i
                       after := δ'.cluster }]) δ' := by
  have hgrow : δ.proposals <+: δ'.proposals := hproposals ▸ List.prefix_rfl
  have hkeep : forall j, j ≠ i ->
      (δ'.cluster.raft j).lastApplied = (δ.cluster.raft j).lastApplied ->
      δ'.PushedWell (ctr ++ [{ before := δ.cluster
                               action := .applierTicker i
                               after := δ'.cluster }]) j := by
    intro j hj happlied
    exact (h.pushed j).keep (fun _ ht => List.mem_append_left _ ht) happlied hgrow
      (hother j hj)
  have hclean : forall t, t ∈ ctr ++ [{ before := δ.cluster
                                        action := .applierTicker i
                                        after := δ'.cluster }] -> Clean t := by
    intro t ht
    rcases List.mem_append.mp ht with hold | hnew
    · exact h.clean t hold
    · rw [List.mem_singleton.mp hnew]
      exact clean_of_not_received rfl rfl
  rcases RaftCore.Cluster.applierTicker_cases hstep with
    ⟨⟨fault, hstop⟩, hnone⟩ | ⟨rf, msgs, hrun, hmsgs, hset⟩
  · have hraft : forall j, δ'.cluster.raft j = δ.cluster.raft j := by
      intro j
      rw [hstop]
      exact RaftCore.raft_stop δ.cluster i j fault
    rw [hnone, List.append_nil] at hself
    constructor
    · exact .snoc h.trace hstep
    · exact hclean
    · refine ⟨fun j => by rw [hraft, h.uncompacted.node j], ?_⟩
      rw [hstop]
      exact h.uncompacted.calls
    · intro log hlog
      rw [hstop] at hlog
      rw [hproposals]
      have htouch := RaftCore.touches_setServer δ.cluster i
        { δ.cluster.servers i with stopped := some fault }
      exact h.proposed log (RaftCore.Cluster.present_of_same_logs htouch rfl rfl hlog)
    · intro j
      by_cases hj : j = i
      · exact (h.pushed j).keep (fun _ ht => List.mem_append_left _ ht) (by rw [hraft]) hgrow
          (by rw [hj, hself])
      · exact hkeep j hj (by rw [hraft])
  · have hstate := (Raft.getApplyLogs_eq hrun).1
    have htouch : RaftCore.Cluster.Touches δ.cluster δ'.cluster i rf := by
      rw [hset]
      exact RaftCore.touches_setServer δ.cluster i _
    have hindex : rf.lastSnapshotIncludeIndex =
        (δ.cluster.raft i).lastSnapshotIncludeIndex := by
      rw [hstate]
    rw [hmsgs] at hself
    constructor
    · exact .snoc h.trace hstep
    · exact hclean
    · refine ⟨?_, ?_⟩
      · intro j
        rw [htouch j]
        by_cases hj : j = i
        · rw [if_pos hj, hindex, h.uncompacted.node i]
        · rw [if_neg hj, h.uncompacted.node j]
      · rw [hset]
        exact h.uncompacted.calls
    · intro log hlog
      rw [hproposals]
      apply h.proposed log
      refine RaftCore.Cluster.present_of_same_logs htouch ?_ ?_ hlog
      · rw [hstate]
      · rw [hset]
        rfl
    · intro j
      by_cases hj : j = i
      · rw [hj]
        have hnode := htouch i
        rw [if_pos rfl] at hnode
        exact PushedWell.push h hrun hnode hproposals hself
      · apply hkeep j hj
        rw [htouch j, if_neg hj]

end Deployment
end RaftClerk
end KVRaft
