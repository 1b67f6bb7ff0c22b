import KVRaft.RaftCore.Cluster.Elections
import KVRaft.RaftCore.Cluster.Rounds

/-!
# The cluster refines the replicated-log protocol

The refinement relation between clusters and abstract protocol states, and the
parts of one simulated step that all handlers share.
-/

namespace KVRaft
namespace RaftCore

open Foundation LogSystem

namespace Cluster

variable {n : Nat}

def votedNums (σ : Cluster n) (i : Fin n) : List Nat :=
  (σ.servers i).votedNum

def appendNums (σ : Cluster n) (i : Fin n) : List Nat :=
  (σ.servers i).appendNums

/-- The append call whose request the step delivers. -/
def deliveredAppend (σ : Cluster n) : Action n -> Option (AppendCall n)
  | .appendEntries k => σ.appendCalls[k]?
  | _ => none

/-- The snapshot call whose request the step delivers. -/
def deliveredSnapshot (σ : Cluster n) : Action n -> Option (SnapshotCall n)
  | .installSnapshot k => σ.snapshotCalls[k]?
  | _ => none

/-- The step does not mix two logs in one server. -/
def Clean (t : Transition (Cluster n) (Action n)) : Prop :=
  (forall call, t.before.deliveredAppend t.action = some call ->
    ¬ MixesLogs (t.before.raft call.callee) call.args) ∧
  (forall call, t.before.deliveredSnapshot t.action = some call ->
    forall args, call.request = some args ->
      ¬ KeepsForeignTail (t.before.raft call.callee) args)

instance (t : Transition (Cluster n) (Action n)) : Decidable (Clean t) :=
  inferInstanceAs (Decidable
    ((forall call, call ∈ t.before.deliveredAppend t.action -> _) ∧
      (forall call, call ∈ t.before.deliveredSnapshot t.action ->
        forall args, args ∈ call.request -> _)))

/-- The only node that may differ is that of server `v`. -/
def Touches (σ σ' : Cluster n) (v : Fin n) (rf : Raft n) : Prop :=
  forall j, σ'.raft j = if j = v then rf else σ.raft j

end Cluster

open Cluster

structure Refines {n : Nat} (α : Logs n) (σ : Cluster n) : Prop where
  node : forall i, Represents α i (σ.raft i)
  elections : Elections α σ.voteCalls σ.votedNums
  rounds : Rounds α σ.appendCalls σ.appendNums
  snapshots : Snapshots α σ.snapshotCalls

/-!
# What holds while no logs are mixed
-/

/-- The commit index of a request lies in what it covers and is committed. -/
structure CommitRequest {n : Nat} (α : Logs n) (args : AppendEntriesArgs) : Prop where
  le : args.leaderCommit ≤ args.sent
  committed : (raftLogs n).Committed α
    ((α.leaderLog args.term).take args.leaderCommit.toNat) args.term

def SnapshotCommitted {n : Nat} (α : Logs n) (args : InstallSnapshotRequest) : Prop :=
  exists M, SnapshotRequest α args M ∧ (raftLogs n).Committed α M args.term

structure Sound {n : Nat} (α : Logs n) (σ : Cluster n) : Prop where
  safe : (raftLogs n).Safe α
  commit : forall i, (raftLogs n).Committed α
    ((α.log i).take (σ.raft i).commitIndex.toNat) (α.term i)
  leaderCommit : forall c, c ∈ σ.appendCalls -> CommitRequest α c.args
  snapshot : forall c, c ∈ σ.snapshotCalls -> forall args, c.Carries args ->
    SnapshotCommitted α args

/-- One step of the cluster, matched by steps of the protocol. -/
structure Simulated {n : Nat} (α : Logs n) (σ : Cluster n) (a : Action n) (σ' : Cluster n)
    (β : Logs n) : Prop where
  moves : exists v, (raftLogs n).Moves v α β
  refines : Refines β σ'
  crowned : forall i, (σ.raft i).status ≠ .leader -> (σ'.raft i).status = .leader ->
    α.leader (σ'.raft i).currentTerm = none ∧
      β.base (σ'.raft i).currentTerm = β.log i
  settled : forall k, a = .appendEntriesReply k -> forall i,
    (σ.raft i).commitIndex < (σ'.raft i).commitIndex ->
    (raftLogs n).Settled β (σ'.raft i).currentTerm (σ'.raft i).commitIndex.toNat
  sound : Sound α σ -> Clean { before := σ, action := a, after := σ' } -> Sound β σ'

variable {n : Nat} {α β : Logs n} {σ σ' : Cluster n} {v : Fin n} {rf : Raft n}

theorem CommitRequest.mono {args : AppendEntriesArgs} (h : CommitRequest α args)
    (hlen : args.sent ≤ (α.leaderLog args.term).length) (hgrow : Grows α β) :
    CommitRequest β args where
  le := h.le
  committed := by
    have hle := h.le
    rw [take_eq_of_isPrefix (hgrow.leaderLog _) (by omega)]
    exact h.committed.mono hgrow (le_refl _)

theorem Rounds.sent_le {calls : List (AppendCall n)} {counters : Fin n -> List Nat}
    (h : Rounds α calls counters) {c : AppendCall n} (hc : c ∈ calls) :
    c.args.sent ≤ (α.leaderLog c.args.term).length := by
  rcases h.request hc with ⟨M, p, hreq⟩
  rw [hreq.sent]
  exact hreq.log.length_le

theorem SnapshotCommitted.mono {args : InstallSnapshotRequest}
    (h : SnapshotCommitted α args) (hgrow : Grows α β) : SnapshotCommitted β args := by
  rcases h with ⟨M, hreq, hcom⟩
  exact ⟨M, hreq.mono hgrow, hcom.mono hgrow (le_refl _)⟩

/-- A commit index stays good while the log below it stays. -/
theorem commit_mono {c : Int}
    (h : (raftLogs n).Committed α ((α.log v).take c.toNat) (α.term v))
    (hlen : c ≤ (α.log v).length) (hlog : α.log v <+: β.log v) (hgrow : Grows α β) :
    (raftLogs n).Committed β ((β.log v).take c.toNat) (β.term v) := by
  rw [take_eq_of_isPrefix hlog (by omega)]
  exact h.mono hgrow (hgrow.term v)

theorem node_update (hb : (raftLogs n).Ballots α) (h : Refines α σ)
    (hmoves : (raftLogs n).Moves v α β) (hv : Represents β v rf)
    (htouch : Touches σ σ' v rf) (i : Fin n) : Represents β i (σ'.raft i) := by
  rw [htouch i]
  by_cases hi : i = v
  · rw [if_pos hi, hi]
    exact hv
  · rw [if_neg hi]
    exact (h.node i).frame (hmoves.grows hb) (hmoves.elsewhere hb) hi

/-!
# Assembling a step
-/

/-- What the sound part of a step asks of each handler. -/
theorem sound_update (hb : (raftLogs n).Ballots α) (h : Refines α σ)
    (hsteps : (raftLogs n).Steps v α β) (htouch : Touches σ σ' v rf) (hs : Sound α σ)
    (hcommit : (raftLogs n).Committed β ((β.log v).take rf.commitIndex.toNat) (β.term v))
    (happend : forall c, c ∈ σ'.appendCalls ->
      (exists d, d ∈ σ.appendCalls ∧ d.args = c.args) ∨ CommitRequest β c.args)
    (hsnapshot : forall c, c ∈ σ'.snapshotCalls -> forall args, c.Carries args ->
      (exists d, d ∈ σ.snapshotCalls ∧ d.Carries args) ∨ SnapshotCommitted β args) :
    Sound β σ' where
  safe := hsteps.safe hb hs.safe
  commit := by
    intro i
    have hgrow := hsteps.moves.grows hb
    have helse := hsteps.moves.elsewhere hb
    rw [htouch i]
    by_cases hi : i = v
    · rw [if_pos hi, hi]
      exact hcommit
    · rw [if_neg hi]
      refine commit_mono (hs.commit i) (h.node i).commit ?_ hgrow
      rw [helse.log hi]
  leaderCommit := by
    intro c hc
    rcases happend c hc with ⟨d, hd, hargs⟩ | hnew
    · rw [← hargs]
      exact (hs.leaderCommit d hd).mono (h.rounds.sent_le hd) (hsteps.moves.grows hb)
    · exact hnew
  snapshot := by
    intro c hc args hargs
    rcases hsnapshot c hc args hargs with ⟨d, hd, hcarry⟩ | hnew
    · exact (hs.snapshot d hd args hcarry).mono (hsteps.moves.grows hb)
    · exact hnew

/-- Steps that neither shorten the log nor commit nor elect anybody: the calls
are all that is left to check. -/
theorem simulated_quiet {a : Action n} (hb : (raftLogs n).Ballots α) (h : Refines α σ)
    (hsteps : (raftLogs n).Steps v α β) (hv : Represents β v rf)
    (htouch : Touches σ σ' v rf) (hlog : α.log v <+: β.log v)
    (hcommit : rf.commitIndex = (σ.raft v).commitIndex)
    (hstatus : rf.status = .leader -> (σ.raft v).status = .leader)
    (helections : Elections β σ'.voteCalls σ'.votedNums)
    (hrounds : Rounds β σ'.appendCalls σ'.appendNums)
    (hsnapshots : Snapshots β σ'.snapshotCalls)
    (happend : Sound α σ -> forall c, c ∈ σ'.appendCalls ->
      (exists d, d ∈ σ.appendCalls ∧ d.args = c.args) ∨ CommitRequest β c.args)
    (hsnapshot : Sound α σ -> forall c, c ∈ σ'.snapshotCalls -> forall args,
      c.Carries args ->
      (exists d, d ∈ σ.snapshotCalls ∧ d.Carries args) ∨ SnapshotCommitted β args) :
    Simulated α σ a σ' β where
  moves := ⟨v, hsteps.moves⟩
  refines :=
    { node := node_update hb h hsteps.moves hv htouch
      elections := helections
      rounds := hrounds
      snapshots := hsnapshots }
  crowned := by
    intro i hno hyes
    rw [htouch i] at hyes
    by_cases hi : i = v
    · rw [if_pos hi] at hyes
      rw [hi] at hno
      exact absurd (hstatus hyes) hno
    · rw [if_neg hi] at hyes
      exact absurd hyes hno
  settled := by
    intro k _ i hlt
    rw [htouch i] at hlt
    by_cases hi : i = v
    · rw [if_pos hi, hi, hcommit] at hlt
      exact absurd hlt (lt_irrefl _)
    · rw [if_neg hi] at hlt
      exact absurd hlt (lt_irrefl _)
  sound := by
    intro hs _
    refine sound_update hb h hsteps htouch hs ?_ (happend hs) (hsnapshot hs)
    rw [hcommit]
    exact commit_mono (hs.commit v) (h.node v).commit hlog (hsteps.moves.grows hb)

/-- A follower's log is rewritten, faithfully or not. -/
theorem simulated_moved {a : Action n} (hb : (raftLogs n).Ballots α) (h : Refines α σ)
    (hmoves : (raftLogs n).Moves v α β) (hv : Represents β v rf)
    (htouch : Touches σ σ' v rf) (hstatus : rf.status = .follower)
    (haction : forall k, a ≠ .appendEntriesReply k)
    (helections : Elections β σ'.voteCalls σ'.votedNums)
    (hrounds : Rounds β σ'.appendCalls σ'.appendNums)
    (hsnapshots : Snapshots β σ'.snapshotCalls)
    (hsound : Sound α σ -> Clean { before := σ, action := a, after := σ' } ->
      Sound β σ') : Simulated α σ a σ' β where
  moves := ⟨v, hmoves⟩
  refines :=
    { node := node_update hb h hmoves hv htouch
      elections := helections
      rounds := hrounds
      snapshots := hsnapshots }
  crowned := by
    intro i hno hyes
    rw [htouch i] at hyes
    by_cases hi : i = v
    · rw [if_pos hi, hstatus] at hyes
      cases hyes
    · rw [if_neg hi] at hyes
      exact absurd hyes hno
  settled := fun k hk => absurd hk (haction k)
  sound := hsound

theorem same_appends {calls calls' : List (AppendCall n)} (heq : calls' = calls)
    (c : AppendCall n) (hc : c ∈ calls') :
    (exists d, d ∈ calls ∧ d.args = c.args) ∨ CommitRequest β c.args := by
  rw [heq] at hc
  exact Or.inl ⟨c, hc, rfl⟩

theorem set_appends {calls : List (AppendCall n)} {k : Nat} {d e : AppendCall n}
    (hk : calls[k]? = some d) (hde : SameCall d e) (c : AppendCall n)
    (hc : c ∈ calls.set k e) :
    (exists d, d ∈ calls ∧ d.args = c.args) ∨ CommitRequest β c.args := by
  rcases mem_set_back hk hde hc with ⟨c', hc', hsame, _⟩
  exact Or.inl ⟨c', hc', hsame.args⟩

theorem same_snapshots {calls calls' : List (SnapshotCall n)} (heq : calls' = calls)
    (c : SnapshotCall n) (hc : c ∈ calls') (args : InstallSnapshotRequest)
    (hargs : c.Carries args) :
    (exists d, d ∈ calls ∧ d.Carries args) ∨ SnapshotCommitted β args := by
  rw [heq] at hc
  exact Or.inl ⟨c, hc, hargs⟩

theorem set_snapshots {calls : List (SnapshotCall n)} {k : Nat} {d e : SnapshotCall n}
    (hk : calls[k]? = some d)
    (hcarry : forall args, e.Carries args -> d.Carries args) (c : SnapshotCall n)
    (hc : c ∈ calls.set k e) (args : InstallSnapshotRequest) (hargs : c.Carries args) :
    (exists d, d ∈ calls ∧ d.Carries args) ∨ SnapshotCommitted β args := by
  rcases List.mem_or_eq_of_mem_set hc with hin | rfl
  · exact Or.inl ⟨c, hin, hargs⟩
  · exact Or.inl ⟨d, List.mem_of_getElem? hk, hcarry args hargs⟩

theorem Snapshots.set {calls : List (SnapshotCall n)} (h : Snapshots α calls) {k : Nat}
    {d e : SnapshotCall n} (hk : calls[k]? = some d)
    (hcarry : forall args, e.Carries args -> d.Carries args) :
    Snapshots α (calls.set k e) := by
  intro c hc args hargs
  rcases List.mem_or_eq_of_mem_set hc with hin | rfl
  · exact h c hin args hargs
  · exact h d (List.mem_of_getElem? hk) args (hcarry args hargs)

/-!
# Parts of a cluster after an update
-/

theorem touches_refl (σ : Cluster n) (v : Fin n) : Touches σ σ v (σ.raft v) := by
  intro j
  by_cases hj : j = v
  · rw [if_pos hj, hj]
  · rw [if_neg hj]

theorem touches_setServer (σ : Cluster n) (v : Fin n) (server : Server n) :
    Touches σ (σ.setServer v server) v server.raft := by
  intro j
  rw [Cluster.raft, setServer_servers]
  by_cases hj : j = v
  · rw [if_pos hj, if_pos hj]
  · rw [if_neg hj, if_neg hj]

/-- A server that stops keeps its node. -/
theorem raft_stop (σ : Cluster n) (v i : Fin n) (fault : Fault) :
    (σ.stop v fault).raft i = σ.raft i := by
  refine (touches_setServer σ v _ i).trans ?_
  by_cases hi : i = v
  · rw [if_pos hi, hi]
  · rw [if_neg hi]

theorem votedNums_setServer (σ : Cluster n) (v : Fin n) (server : Server n)
    (h : server.votedNum = (σ.servers v).votedNum) :
    (σ.setServer v server).votedNums = σ.votedNums := by
  funext j
  rw [votedNums, setServer_servers]
  by_cases hj : j = v
  · rw [if_pos hj, h, hj]
    rfl
  · rw [if_neg hj]
    rfl

theorem appendNums_setServer (σ : Cluster n) (v : Fin n) (server : Server n)
    (h : server.appendNums = (σ.servers v).appendNums) :
    (σ.setServer v server).appendNums = σ.appendNums := by
  funext j
  rw [appendNums, setServer_servers]
  by_cases hj : j = v
  · rw [if_pos hj, h, hj]
    rfl
  · rw [if_neg hj]
    rfl

theorem votedNums_update (σ : Cluster n) (v : Fin n) (server : Server n) :
    (σ.setServer v server).votedNums =
      Function.update σ.votedNums v server.votedNum := by
  funext j
  rw [votedNums, setServer_servers, Function.update_apply]
  by_cases hj : j = v
  · rw [if_pos hj, if_pos hj]
  · rw [if_neg hj, if_neg hj]
    rfl

theorem appendNums_update (σ : Cluster n) (v : Fin n) (server : Server n) :
    (σ.setServer v server).appendNums =
      Function.update σ.appendNums v server.appendNums := by
  funext j
  rw [appendNums, setServer_servers, Function.update_apply]
  by_cases hj : j = v
  · rw [if_pos hj, if_pos hj]
  · rw [if_neg hj, if_neg hj]
    rfl

theorem votedNums_setRaft (σ : Cluster n) (v : Fin n) (rf : Raft n) :
    (σ.setRaft v rf).votedNums = σ.votedNums :=
  votedNums_setServer σ v _ rfl

theorem appendNums_setRaft (σ : Cluster n) (v : Fin n) (rf : Raft n) :
    (σ.setRaft v rf).appendNums = σ.appendNums :=
  appendNums_setServer σ v _ rfl

theorem votedNums_stop (σ : Cluster n) (v : Fin n) (fault : Fault) :
    (σ.stop v fault).votedNums = σ.votedNums :=
  votedNums_setServer σ v _ rfl

theorem appendNums_stop (σ : Cluster n) (v : Fin n) (fault : Fault) :
    (σ.stop v fault).appendNums = σ.appendNums :=
  appendNums_setServer σ v _ rfl

/-- Only the node of server `v` changes. -/
theorem simulated_setRaft {a : Action n} (hb : (raftLogs n).Ballots α) (h : Refines α σ)
    (hsteps : (raftLogs n).Steps v α β) (hv : Represents β v rf)
    (hlog : α.log v <+: β.log v) (hlead : β.leader = α.leader)
    (hcommit : rf.commitIndex = (σ.raft v).commitIndex)
    (hstatus : rf.status = .leader -> (σ.raft v).status = .leader) :
    Simulated α σ a (σ.setRaft v rf) β := by
  have hgrow := hsteps.moves.grows hb
  refine simulated_quiet hb h hsteps hv (touches_setServer σ v _) hlog hcommit hstatus
    ?_ ?_ (h.snapshots.grow hgrow) (fun _ => same_appends rfl) (fun _ => same_snapshots rfl)
  · rw [votedNums_setRaft]
    exact h.elections.grow hgrow hlead
  · rw [appendNums_setRaft]
    exact h.rounds.grow hgrow

/-- A server that stops keeps its last state and takes no further part. -/
theorem simulated_stop {a : Action n} (hb : (raftLogs n).Ballots α) (h : Refines α σ)
    (v : Fin n) (fault : Fault) : Simulated α σ a (σ.stop v fault) α := by
  refine simulated_quiet hb h (Steps.refl α) (h.node v) (touches_setServer σ v _)
    List.prefix_rfl rfl id ?_ ?_ h.snapshots (fun _ => same_appends rfl)
    (fun _ => same_snapshots rfl)
  · rw [votedNums_stop]
    exact h.elections
  · rw [appendNums_stop]
    exact h.rounds

end RaftCore
end KVRaft
