import Mathlib.Data.List.Induction
import KVRaft.RaftCore.Cluster.Notes

/-!
# Reading the snapshot

Reading the snapshot leaves its file truncated.  So it keeps the file only when
there is nothing in it, and a leader that has a snapshot to send can send it
once.
-/

namespace KVRaft
namespace RaftCore

open Foundation

/-!
# Sequences of operations
-/

inductive PersisterOp where
  | save (raftstate snapshot : Bytes)
  | saveRaftState (data : Bytes)
  | readRaftState
  | readSnapshot
  | raftStateSize
  deriving DecidableEq, Repr

namespace PersisterOp

def run (p : Persister) : PersisterOp -> Persister
  | .save raftstate snapshot => p.save raftstate snapshot
  | .saveRaftState data => p.saveRaftState data
  | .readRaftState => p
  | .readSnapshot => p.readSnapshot.1
  | .raftStateSize => p

/-- The snapshot of the last `Save`, given that of the one before. -/
def saved (last : Bytes) : PersisterOp -> Bytes
  | .save _ snapshot => snapshot
  | _ => last

def isSave : PersisterOp -> Bool
  | .save _ _ => true
  | _ => false

end PersisterOp

/-- The persister after these operations on a new one. -/
def afterOps (ops : List PersisterOp) : Persister :=
  ops.foldl PersisterOp.run (Persister.create [] [])

def lastSnapshot (ops : List PersisterOp) : Bytes :=
  ops.foldl PersisterOp.saved []

/-- No read touches the snapshot file, and up to the next `Save` all reads agree. -/
structure ReadsKeep (ops : List PersisterOp) : Prop where
  kept : forall earlier later, ops = earlier ++ .readSnapshot :: later ->
    (afterOps (earlier ++ [.readSnapshot])).snapshotFile = (afterOps earlier).snapshotFile
  same : forall earlier middle later,
    ops = earlier ++ .readSnapshot :: (middle ++ .readSnapshot :: later) ->
    (forall op, op ∈ middle -> op.isSave = false) ->
    (afterOps earlier).readSnapshot.2 =
      (afterOps (earlier ++ .readSnapshot :: middle)).readSnapshot.2

@[simp] theorem afterOps_snoc (ops : List PersisterOp) (op : PersisterOp) :
    afterOps (ops ++ [op]) = op.run (afterOps ops) := by
  rw [afterOps, List.foldl_append]
  rfl

@[simp] theorem lastSnapshot_snoc (ops : List PersisterOp) (op : PersisterOp) :
    lastSnapshot (ops ++ [op]) = op.saved (lastSnapshot ops) := by
  rw [lastSnapshot, List.foldl_append]
  rfl

/-- The file holds the last snapshot as long as no read has found one. -/
theorem snapshotFile_of_reads {ops : List PersisterOp}
    (h : forall earlier later, ops = earlier ++ .readSnapshot :: later ->
      (afterOps earlier).snapshotFile = [] ∨ lastSnapshot earlier = []) :
    (afterOps ops).snapshotFile = lastSnapshot ops := by
  induction ops using List.reverseRecOn with
  | nil => rfl
  | append_singleton ops op ih =>
      have hbefore : (afterOps ops).snapshotFile = lastSnapshot ops := by
        apply ih
        intro earlier later hsplit
        apply h earlier (later ++ [op])
        rw [hsplit, List.append_assoc, List.cons_append]
      rw [afterOps_snoc, lastSnapshot_snoc]
      cases op with
      | save raftstate snapshot => rfl
      | saveRaftState data => exact hbefore
      | readRaftState => exact hbefore
      | raftStateSize => exact hbefore
      | readSnapshot =>
          change [] = lastSnapshot ops
          rcases h ops [] rfl with hempty | hempty
          · rw [← hbefore, hempty]
          · exact hempty.symm

theorem readsKeep_iff (ops : List PersisterOp) :
    ReadsKeep ops <->
      forall earlier later, ops = earlier ++ .readSnapshot :: later ->
        lastSnapshot earlier = [] := by
  constructor
  · intro h earlier later hsplit
    have hempty : forall first rest, ops = first ++ .readSnapshot :: rest ->
        (afterOps first).snapshotFile = [] := by
      intro first rest hfirst
      have hkept := h.kept first rest hfirst
      rw [afterOps_snoc] at hkept
      exact hkept.symm
    have hfile : (afterOps earlier).snapshotFile = lastSnapshot earlier := by
      apply snapshotFile_of_reads
      intro first rest hfirst
      apply Or.inl
      apply hempty first (rest ++ .readSnapshot :: later)
      rw [hsplit, hfirst, List.append_assoc, List.cons_append]
    rw [← hfile]
    exact hempty earlier later hsplit
  · intro h
    have hempty : forall earlier later, ops = earlier ++ .readSnapshot :: later ->
        (afterOps earlier).snapshotFile = [] := by
      intro earlier later hsplit
      rw [snapshotFile_of_reads]
      · exact h earlier later hsplit
      · intro first rest hfirst
        apply Or.inr
        apply h first (rest ++ .readSnapshot :: later)
        rw [hsplit, hfirst, List.append_assoc, List.cons_append]
    have hread : forall earlier later, ops = earlier ++ .readSnapshot :: later ->
        (afterOps earlier).readSnapshot.2 = [] := by
      intro earlier later hsplit
      exact congrArg readFile (hempty earlier later hsplit)
    constructor
    · intro earlier later hsplit
      rw [afterOps_snoc, hempty earlier later hsplit]
      rfl
    · intro earlier middle later hsplit _
      have hsecond : ops = (earlier ++ .readSnapshot :: middle) ++ .readSnapshot :: later := by
        rw [hsplit, List.append_assoc, List.cons_append]
      rw [hread earlier _ hsplit, hread _ later hsecond]

/-!
# Requests to install a snapshot
-/

section

variable {n : Nat}

/-- The sender is still the leader of the term and hears of no newer one, so it counts
the follower as caught up. -/
def Accepts (rf : Raft n) (args : InstallSnapshotRequest)
    (reply : InstallSnapshotResponse) : Prop :=
  rf.status = .leader ∧ rf.currentTerm = args.term ∧ reply.term ≤ rf.currentTerm

theorem Accepts.caughtUp [Archive] {rf : Raft n} {args : InstallSnapshotRequest}
    {reply : InstallSnapshotResponse} (h : Accepts rf args reply) (server : Fin n) :
    rf.leaderSendSnapShotReply server args reply =
      { rf with
        matchIndex := Function.update rf.matchIndex server args.lastSnapshotIncludeIndex
        nextIndex :=
          Function.update rf.nextIndex server (args.lastSnapshotIncludeIndex + 1) } :=
  Raft.leaderSendSnapShotReply_counts h server

/-- The transition builds this request. -/
def Sends (t : Transition (Cluster n) (Action n)) (args : InstallSnapshotRequest) : Prop :=
  exists k call, t.action = .leaderSendSnapShot k ∧ t.after.snapshotCalls[k]? = some call ∧
    call.phase = .requested args

/-- The transition counts the follower of this request as caught up. -/
def CatchesUp (t : Transition (Cluster n) (Action n)) (args : InstallSnapshotRequest) :
    Prop :=
  exists k call reply, t.action = .installSnapshotReply k ∧
    t.before.snapshotCalls[k]? = some call ∧ call.phase = .replied args reply ∧
    Accepts (t.before.raft call.caller) args reply

/-- Sending changes no snapshot file, one server sends the same data for one index, and
no follower is counted as caught up with an empty snapshot. -/
structure SendingKeeps [Archive] (r : (clusterSystem n).Run) : Prop where
  kept : forall t, t ∈ r.trace -> forall k, t.action = .leaderSendSnapShot k ->
    forall i, (t.after.raft i).persister.snapshotFile =
      (t.before.raft i).persister.snapshotFile
  same : forall t u, t ∈ r.trace -> u ∈ r.trace -> forall args args', Sends t args ->
    Sends u args' -> args.leaderId = args'.leaderId ->
    args.lastSnapshotIncludeIndex = args'.lastSnapshotIncludeIndex ->
    args.data = args'.data
  caughtUp : forall t, t ∈ r.trace -> forall args, CatchesUp t args -> args.data ≠ []

/-- The sender of a snapshot finds none in its file. -/
def FindsNone (t : Transition (Cluster n) (Action n)) : Prop :=
  forall k call, t.action = .leaderSendSnapShot k ->
    t.before.snapshotCalls[k]? = some call ->
    (t.before.raft call.caller).persister.snapshotFile = []

/-- No reply to a snapshot is accepted. -/
def AcceptsNone (t : Transition (Cluster n) (Action n)) : Prop :=
  forall k call args reply, t.action = .installSnapshotReply k ->
    t.before.snapshotCalls[k]? = some call -> call.phase = .replied args reply ->
    ¬ Accepts (t.before.raft call.caller) args reply

/-!
A request in flight carries what its sender found in the file.
-/

variable {σ σ' : Cluster n}

/-- Requests come from earlier ones or are built by the step. -/
def Carried [Archive] (σ : Cluster n) (a : Action n) (args : InstallSnapshotRequest) :
    Prop :=
  (exists d, d ∈ σ.snapshotCalls ∧ d.Carries args) ∨
    exists k call, a = .leaderSendSnapShot k ∧ σ.snapshotCalls[k]? = some call ∧
      args = (σ.raft call.caller).leaderSendSnapShot.2

variable [Archive]

theorem carried_of_resume {β : Type} {a : Action n} {i : Fin n} {outcome : Outcome β}
    {next : β -> Cluster n} {c : SnapshotCall n}
    (hc : c ∈ (σ.resume i outcome next).snapshotCalls) {args : InstallSnapshotRequest}
    (hargs : c.Carries args) (h : forall b, (next b).snapshotCalls = σ.snapshotCalls) :
    Carried σ a args := by
  cases houtcome : outcome with
  | error fault =>
      rw [houtcome] at hc
      exact Or.inl ⟨c, hc, hargs⟩
  | ok b =>
      rw [houtcome] at hc
      change c ∈ (next b).snapshotCalls at hc
      rw [h b] at hc
      exact Or.inl ⟨c, hc, hargs⟩

theorem carried_of_step {a : Action n} (h : Cluster.StepEffect σ a σ')
    {c : SnapshotCall n} (hc : c ∈ σ'.snapshotCalls) {args : InstallSnapshotRequest}
    (hargs : c.Carries args) : Carried σ a args := by
  cases h with
  | @doElection i _ =>
      rw [doElection_eq] at hc
      by_cases hstatus : (σ.raft i).status ≠ .leader
      · rw [if_pos hstatus] at hc
        exact Or.inl ⟨c, hc, hargs⟩
      · rw [if_neg hstatus] at hc
        exact Or.inl ⟨c, hc, hargs⟩
  | @doHeartBeat i _ =>
      rw [doHeartBeat_eq] at hc
      by_cases hstatus : (σ.raft i).status = .leader
      · rw [if_pos hstatus] at hc
        rcases List.mem_append.mp hc with hin | hin
        · exact Or.inl ⟨c, hin, hargs⟩
        · exact absurd hargs (not_carries_started (mem_snapshotCallsOf hin))
      · rw [if_neg hstatus] at hc
        exact Or.inl ⟨c, hc, hargs⟩
  | start _ => exact Or.inl ⟨c, hc, hargs⟩
  | applierTicker _ => exact carried_of_resume hc hargs fun _ => rfl
  | snapshot _ => exact carried_of_resume hc hargs fun _ => rfl
  | requestVote _ _ _ => exact carried_of_resume hc hargs fun _ => rfl
  | requestVoteReply _ _ _ => exact carried_of_resume hc hargs fun _ => rfl
  | appendEntries _ _ _ => exact carried_of_resume hc hargs fun _ => rfl
  | appendEntriesReply _ _ _ => exact carried_of_resume hc hargs fun _ => rfl
  | @leaderSendSnapShot k call hk _ _ =>
      rcases List.mem_or_eq_of_mem_set hc with hin | rfl
      · exact Or.inl ⟨c, hin, hargs⟩
      · right
        exact ⟨k, call, rfl, hk, SnapshotCall.eq_of_requested rfl hargs⟩
  | @installSnapshot k call args' hk _ hphase =>
      unfold Cluster.installSnapshot Cluster.resume at hc
      split at hc
      · rcases List.mem_or_eq_of_mem_set hc with hin | rfl
        · exact Or.inl ⟨c, hin, hargs⟩
        · left
          exact ⟨call, List.mem_of_getElem? hk,
            SnapshotCall.carries_of_replied hphase hargs⟩
      · exact Or.inl ⟨c, hc, hargs⟩
  | @installSnapshotReply k call args' reply hk _ hphase =>
      rcases List.mem_or_eq_of_mem_set hc with hin | rfl
      · exact Or.inl ⟨c, hin, hargs⟩
      · exact Or.inl ⟨call, List.mem_of_getElem? hk, SnapshotCall.carries_of_returned hargs⟩

/-- If nobody finds anything, all requests in flight are empty. -/
theorem carries_nothing {tr : List (Transition (Cluster n) (Action n))}
    (h : (clusterSystem n).Trace tr σ) (hnone : forall t, t ∈ tr -> FindsNone t) :
    forall c, c ∈ σ.snapshotCalls -> forall args, c.Carries args -> args.data = [] := by
  refine TransitionSystem.Trace.invariant_under
    (P := fun _ σ => forall c, c ∈ Cluster.snapshotCalls σ -> forall args,
      c.Carries args -> args.data = []) ?_ ?_ h hnone
  · intro c hc
    cases hc
  · intro tr σ σ' a _ _ hbefore hstep hlast c hc args hargs
    rcases carried_of_step (Cluster.step_effect hstep) hc hargs with
      ⟨d, hd, hcarries⟩ | ⟨k, call, ha, hk, rfl⟩
    · exact hbefore d hd args hcarries
    · exact congrArg readFile (hlast k call ha hk)

theorem Sends.data {r : (clusterSystem n).Run} (hnone : r.Always FindsNone)
    {t : Transition (Cluster n) (Action n)} (ht : t ∈ r.trace)
    {args : InstallSnapshotRequest} (h : Sends t args) : args.data = [] := by
  rcases h with ⟨k, call, _, hk, hphase⟩
  rcases (r.visits_after ht).trace with ⟨earlier, htrace, hsub⟩
  exact carries_nothing htrace (fun u hu => hnone u (hsub u hu)) call
    (List.mem_of_getElem? hk) args (Or.inl hphase)

theorem CatchesUp.data {r : (clusterSystem n).Run} (hnone : r.Always FindsNone)
    {t : Transition (Cluster n) (Action n)} (ht : t ∈ r.trace)
    {args : InstallSnapshotRequest} (h : CatchesUp t args) : args.data = [] := by
  rcases h with ⟨k, call, reply, _, hk, hphase, _⟩
  rcases r.valid.before_of_mem ht with ⟨earlier, htrace, hsub⟩
  exact carries_nothing htrace (fun u hu => hnone u (hsub u hu)) call
    (List.mem_of_getElem? hk) args (Or.inr ⟨reply, hphase⟩)

omit [Archive] in
/-- The file of the sender is empty afterwards, the others are left alone. -/
theorem snapshotFile_leaderSendSnapShot (σ : Cluster n) (k : Nat) (call : SnapshotCall n)
    (i : Fin n) :
    ((σ.leaderSendSnapShot k call).raft i).persister.snapshotFile =
      if i = call.caller then [] else (σ.raft i).persister.snapshotFile := by
  change (((σ.setRaft call.caller (σ.raft call.caller).leaderSendSnapShot.1).servers
    i).raft).persister.snapshotFile = _
  rw [Cluster.setRaft, Cluster.setServer_servers]
  by_cases hi : i = call.caller
  · rw [if_pos hi, if_pos hi]
    rfl
  · rw [if_neg hi, if_neg hi]

/-- Only a sender that finds nothing keeps its file. -/
theorem findsNone_iff {r : (clusterSystem n).Run}
    {t : Transition (Cluster n) (Action n)} (ht : t ∈ r.trace) :
    FindsNone t <->
      forall k, t.action = .leaderSendSnapShot k -> forall i,
        (t.after.raft i).persister.snapshotFile =
          (t.before.raft i).persister.snapshotFile := by
  have hstep := Cluster.step_effect (r.valid.step_of_mem ht)
  rcases t with ⟨σ, a, σ'⟩
  change Cluster.StepEffect σ a σ' at hstep
  constructor
  · rintro hnone k rfl i
    cases hstep with
    | @leaderSendSnapShot _ call hk _ _ =>
        change ((σ.leaderSendSnapShot k call).raft i).persister.snapshotFile = _
        rw [snapshotFile_leaderSendSnapShot]
        by_cases hi : i = call.caller
        · rw [if_pos hi, hi]
          exact (hnone k call rfl hk).symm
        · rw [if_neg hi]
  · rintro hkept k call rfl hk
    have hkept := hkept k rfl call.caller
    cases hstep with
    | @leaderSendSnapShot _ call' hk' _ _ =>
        change σ.snapshotCalls[k]? = some call at hk
        rw [hk] at hk'
        cases hk'
        change ((σ.leaderSendSnapShot k call).raft _).persister.snapshotFile = _ at hkept
        rw [snapshotFile_leaderSendSnapShot, if_pos rfl] at hkept
        exact hkept.symm

theorem sendingKeeps_iff (r : (clusterSystem n).Run) :
    SendingKeeps r <-> r.Always FindsNone ∧ r.Always AcceptsNone := by
  constructor
  · intro h
    have hnone : r.Always FindsNone := fun t ht => (findsNone_iff ht).mpr (h.kept t ht)
    refine ⟨hnone, ?_⟩
    intro t ht k call args reply ha hk hphase haccepts
    have hcatches : CatchesUp t args := ⟨k, call, reply, ha, hk, hphase, haccepts⟩
    exact h.caughtUp t ht args hcatches (hcatches.data hnone ht)
  · rintro ⟨hnone, haccepts⟩
    constructor
    · intro t ht
      exact (findsNone_iff ht).mp (hnone t ht)
    · intro t u ht hu args args' hsends hsends' _ _
      rw [hsends.data hnone ht, hsends'.data hnone hu]
    · rintro t ht args ⟨k, call, reply, ha, hk, hphase, hcaught⟩
      exact absurd hcaught (haccepts t ht k call args reply ha hk hphase)

end

/-- Reading keeps the snapshot only where there is none: in no sequence of operations may
a read follow a snapshot that was saved, and in no run may a leader find one to send. -/
theorem reading_keeps_snapshot_iff [Archive] (n : Nat) :
    (forall ops, ReadsKeep ops <->
      forall earlier later, ops = earlier ++ .readSnapshot :: later ->
        lastSnapshot earlier = []) ∧
      forall r : (clusterSystem n).Run,
        SendingKeeps r <-> r.Always FindsNone ∧ r.Always AcceptsNone :=
  ⟨readsKeep_iff, sendingKeeps_iff⟩

/-- The second reader of a snapshot gets nothing. -/
theorem second_read_finds_nothing :
    ¬ ReadsKeep [.save [] [115], .readSnapshot, .readSnapshot] ∧
      (afterOps [.save [] [115]]).readSnapshot.2 = [115] ∧
      (afterOps [.save [] [115], .readSnapshot]).readSnapshot.2 = [] := by
  refine ⟨?_, rfl, rfl⟩
  intro h
  have hsame := h.same [.save [] [115]] [] [] rfl (by simp)
  exact absurd hsame (by decide)

end RaftCore
end KVRaft
