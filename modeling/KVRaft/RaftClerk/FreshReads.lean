import KVRaft.RaftClerk.ExactlyOnce

/-!
# Acknowledged reads

The value a Get is answered with was in the map after some number of operations,
and that number reaches the index of the Get itself or, where its handler timed
out, an earlier entry of the same request.
-/

namespace KVRaft
namespace RaftClerk

open Foundation KvServer Service

variable {n : Nat}

/-!
# What a reader may answer
-/

/-- The reply to a Get that looks its key up in a map. -/
def lookUp (map : SkipList Bytes Bytes) (op : Op) : Reply :=
  match map.searchElement op.key with
  | some value => { err := .ok, value := value }
  | none => { err := .errNoKey, value := [] }

/-- An earlier entry of the same request, among the first `k` of the history. -/
def EarlierEntry (history : List (Entry × Bool)) (op : Op) (raftIndex : Int) (k : Nat) :
    Prop :=
  exists (j : Nat) (p : Entry × Bool), history[j]? = some p ∧ j < k ∧
    (j : Int) + 1 < raftIndex ∧ p.1.op.clientId = op.clientId ∧
    p.1.op.requestId = op.requestId

/-- The first `k` operations reach the index of a handler, or an earlier entry of
its request if it has timed out. -/
def Reaches (timedOut : Prop) (history : List (Entry × Bool)) (op : Op) (raftIndex : Int)
    (k : Nat) : Prop :=
  raftIndex ≤ k ∨ (timedOut ∧ EarlierEntry history op raftIndex k)

/-- The handler call with a number has timed out in the course of a run. -/
def TimedOut (tr : List (Transition (Service n) (Action n))) (a : Nat) : Prop :=
  exists t, t ∈ tr ∧ exists isLeader, t.action = .handle a (.timeOut isLeader)

/-- The reply is what the map held after the first `k` operations, for a `k` that
reaches the request. -/
def FreshReply (timedOut : Prop) (history : List (Entry × Bool)) (op : Op)
    (raftIndex : Int) (reply : Reply) : Prop :=
  exists k, k ≤ history.length ∧ reply = lookUp (mapAfter (history.take k)) op ∧
    Reaches timedOut history op raftIndex k

/-- A handler that will read may do so now; one that has read answers afresh. -/
def ReadFits (timedOut : Prop) (history : List (Entry × Bool)) (op : Op) : Phase -> Prop
  | .reading raftIndex => Reaches timedOut history op raftIndex history.length
  | .answered raftIndex reply =>
      reply.err ≠ .errWrongLeader -> FreshReply timedOut history op raftIndex reply
  | .replied raftIndex reply =>
      reply.err ≠ .errWrongLeader -> FreshReply timedOut history op raftIndex reply
  | _ => True

/-- Every Get that was answered was answered afresh. -/
def ReadsFresh (tr : List (Transition (Service n) (Action n))) (σ : Service n) : Prop :=
  forall (a : Nat) (attempt : Attempt n), σ.attempts[a]? = some attempt ->
    attempt.entry.op.operation = .get ->
    forall raftIndex reply, (attempt.phase = .answered raftIndex reply ∨
        attempt.phase = .replied raftIndex reply) ->
      reply.err ≠ .errWrongLeader ->
      FreshReply (TimedOut tr a) (σ.server attempt.server).history attempt.entry.op
        raftIndex reply

/-!
# What stays as the history grows
-/

theorem TimedOut.append {tr : List (Transition (Service n) (Action n))} {a : Nat}
    (h : TimedOut tr a) (t : Transition (Service n) (Action n)) : TimedOut (tr ++ [t]) a := by
  rcases h with ⟨u, hu, htimeOut⟩
  exact ⟨u, List.mem_append_left _ hu, htimeOut⟩

theorem EarlierEntry.mono {history history' : List (Entry × Bool)} {op : Op}
    {raftIndex : Int} {k k' : Nat} (h : EarlierEntry history op raftIndex k)
    (hhistory : history <+: history') (hk : k ≤ k') :
    EarlierEntry history' op raftIndex k' := by
  rcases h with ⟨j, p, hp, hj, hrest⟩
  rcases hhistory with ⟨later, rfl⟩
  refine ⟨j, p, ?_, hj.trans_le hk, hrest⟩
  exact getElem?_append_found hp _

theorem Reaches.mono {timedOut timedOut' : Prop} {history history' : List (Entry × Bool)}
    {op : Op} {raftIndex : Int} {k k' : Nat} (h : Reaches timedOut history op raftIndex k)
    (htimedOut : timedOut -> timedOut') (hhistory : history <+: history') (hk : k ≤ k') :
    Reaches timedOut' history' op raftIndex k' := by
  rcases h with hown | ⟨hout, hearlier⟩
  · exact Or.inl (hown.trans (Int.ofNat_le.mpr hk))
  · exact Or.inr ⟨htimedOut hout, hearlier.mono hhistory hk⟩

theorem FreshReply.mono {timedOut timedOut' : Prop} {history history' : List (Entry × Bool)}
    {op : Op} {raftIndex : Int} {reply : Reply}
    (h : FreshReply timedOut history op raftIndex reply)
    (htimedOut : timedOut -> timedOut') (hhistory : history <+: history') :
    FreshReply timedOut' history' op raftIndex reply := by
  rcases h with ⟨k, hk, hreply, hreaches⟩
  refine ⟨k, hk.trans hhistory.length_le, ?_, hreaches.mono htimedOut hhistory (le_refl k)⟩
  rcases hhistory with ⟨later, rfl⟩
  rw [List.take_append_of_le_length hk]
  exact hreply

theorem ReadFits.mono {timedOut timedOut' : Prop} {history history' : List (Entry × Bool)}
    {op : Op} {phase : Phase} (h : ReadFits timedOut history op phase)
    (htimedOut : timedOut -> timedOut') (hhistory : history <+: history') :
    ReadFits timedOut' history' op phase := by
  cases phase with
  | reading raftIndex => exact Reaches.mono h htimedOut hhistory hhistory.length_le
  | answered raftIndex reply =>
      intro herr
      exact (h herr).mono htimedOut hhistory
  | replied raftIndex reply =>
      intro herr
      exact (h herr).mono htimedOut hhistory
  | sent => trivial
  | started raftIndex => trivial
  | waiting raftIndex => trivial

/-!
# A step of the reader
-/

theorem onRead_executeGet (kv : KvServer) (op : Op) (raftIndex : Int) :
    onRead raftIndex (kv.executeGetOpOnKVDB op).2.1 (kv.executeGetOpOnKVDB op).2.2 =
      .answered raftIndex (lookUp kv.skipList op) := by
  unfold onRead executeGetOpOnKVDB lookUp
  cases hfound : kv.skipList.searchElement op.key with
  | none => rfl
  | some value => rfl

/-- What a handler that timed out finds in the table stands for an entry it has
gone past. -/
theorem reaches_of_seen {timedOut : Prop} (hout : timedOut) {server : Server}
    {entry : Entry} (hseen : entry ∈ server.seen) (raftIndex : Int) :
    Reaches timedOut server.history entry.op raftIndex server.history.length := by
  rcases List.mem_map.mp hseen with ⟨p, hp, hentry⟩
  rcases List.mem_iff_getElem?.mp hp with ⟨j, hj⟩
  have hlt := (List.getElem?_eq_some_iff.mp hj).1
  rcases lt_or_ge ((j : Int) + 1) raftIndex with hbefore | hafter
  · right
    exact ⟨hout, j, p, hj, hlt, hbefore, by rw [hentry], by rw [hentry]⟩
  · exact Or.inl (hafter.trans (Int.add_one_le_iff.mpr (Int.ofNat_lt.mpr hlt)))

theorem readFits_handle {timedOut timedOut' : Prop} {server : Server}
    {committed : List Entry} (h : server.Consistent committed) {entry : Entry}
    (hget : entry.op.operation = .get) {phase phase' : Phase} {action : HandlerAction}
    {kv : KvServer} (heffect : HandlerEffect server.kv entry.op phase action kv phase')
    (hfits : ReadFits timedOut server.history entry.op phase)
    (htimedOut : timedOut -> timedOut')
    (hout : forall isLeader, action = .timeOut isLeader -> timedOut')
    (hseen : phase'.Settled -> entry ∈ server.seen) :
    ReadFits timedOut' server.history entry.op phase' := by
  cases heffect with
  | refused =>
      intro herr
      exact absurd rfl herr
  | started raftIndex => trivial
  | opened raftIndex => trivial
  | @popped raftIndex raftCommitOp chan hchan =>
      have hpassed := h.channels raftIndex raftCommitOp ⟨_, hchan, List.mem_cons_self⟩
      unfold onCommit
      by_cases hsame : raftCommitOp.clientId = entry.op.clientId ∧
          raftCommitOp.requestId = entry.op.requestId
      · rw [if_pos hsame, if_pos hget]
        exact Or.inl hpassed.le
      · rw [if_neg hsame]
        intro herr
        exact absurd rfl herr
  | timedOut raftIndex isLeader =>
      unfold onTimeOut at hseen ⊢
      rw [if_pos hget] at hseen ⊢
      split
      · rename_i hduplicate
        rw [if_pos hduplicate] at hseen
        exact reaches_of_seen (hout isLeader rfl) (hseen trivial) raftIndex
      · intro herr
        exact absurd rfl herr
  | read raftIndex =>
      rw [onRead_executeGet]
      intro _
      refine ⟨server.history.length, le_refl _, ?_, ?_⟩
      · rw [List.take_length, h.map]
      · exact Reaches.mono hfits htimedOut List.prefix_rfl (le_refl _)
  | closed raftIndex reply =>
      intro herr
      exact (hfits herr).mono htimedOut List.prefix_rfl

/-!
# Whole runs
-/

/-- The reads of all handler calls fit the histories of their servers. -/
def AllReadsFit (tr : List (Transition (Service n) (Action n))) (σ : Service n) : Prop :=
  forall (a : Nat) (attempt : Attempt n), σ.attempts[a]? = some attempt ->
    attempt.entry.op.operation = .get ->
    ReadFits (TimedOut tr a) (σ.server attempt.server).history attempt.entry.op attempt.phase

/-- A step that only adds handler calls not yet begun, and lets histories grow. -/
theorem AllReadsFit.grow {tr : List (Transition (Service n) (Action n))} {σ σ' : Service n}
    (h : AllReadsFit tr σ) (t : Transition (Service n) (Action n))
    (hattempts : forall (a : Nat) attempt, σ'.attempts[a]? = some attempt ->
      σ.attempts[a]? = some attempt ∨ attempt.phase = .sent)
    (hhistory : forall i, (σ.server i).history <+: (σ'.server i).history) :
    AllReadsFit (tr ++ [t]) σ' := by
  intro a attempt hattempt hget
  rcases hattempts a attempt hattempt with hold | hnew
  · exact (h a attempt hold hget).mono (fun hout => hout.append t) (hhistory attempt.server)
  · rw [hnew]
    trivial

theorem AllReadsFit.step [NeZero n] {rand : Nat -> Nat}
    {tr : List (Transition (Service n) (Action n))} {σ σ' : Service n} {a : Action n}
    (h : AllReadsFit tr σ) (horderly : Orderly σ) (horderly' : Orderly σ')
    (heffect : StepEffect rand σ a σ') :
    AllReadsFit (tr ++ [{ before := σ, action := a, after := σ' }]) σ' := by
  cases heffect with
  | created =>
      exact h.grow _ (fun _ _ hattempt => Or.inl hattempt) fun _ => List.prefix_rfl
  | committed _ =>
      exact h.grow _ (fun _ _ hattempt => Or.inl hattempt) fun _ => List.prefix_rfl
  | returned _ _ _ =>
      exact h.grow _ (fun _ _ hattempt => Or.inl hattempt) fun _ => List.prefix_rfl
  | invoked _ =>
      refine h.grow _ ?_ fun _ => List.prefix_rfl
      intro b attempt hattempt
      rcases getElem?_concat_cases hattempt with hold | ⟨_, rfl⟩
      · exact Or.inl hold
      · exact Or.inr rfl
  | resent _ =>
      refine h.grow _ ?_ fun _ => List.prefix_rfl
      intro b attempt hattempt
      rcases getElem?_concat_cases hattempt with hold | ⟨_, rfl⟩
      · exact Or.inl hold
      · exact Or.inr rfl
  | @consumed i server hstep =>
      refine h.grow _ (fun _ _ hattempt => Or.inl hattempt) ?_
      intro j
      by_cases hj : j = i
      · rw [hj]
        change (σ.server i).history <+: (Function.update σ.server i server i).history
        rw [Function.update_self]
        exact Server.history_getCommandFromRaft hstep
      · change (σ.server j).history <+: (Function.update σ.server i server j).history
        have hkept : forall s, s = σ.server j -> (σ.server j).history <+: s.history := by
          rintro s rfl
          exact List.prefix_rfl
        exact hkept _ (Function.update_of_ne hj _ _)
  | @handled b attempt action kv phase hattempt hrun =>
      have hmem : { attempt with phase := phase } ∈
          (σ.handled b attempt action kv phase).attempts :=
        List.mem_iff_getElem?.mpr
          ⟨b, getElem?_set_found hattempt _⟩
      intro c other hother hget
      rw [handled_history]
      by_cases hc : b = c
      · have hsame : other = { attempt with phase := phase } := by
          have hself : (σ.handled b attempt action kv phase).attempts[c]? =
              some { attempt with phase := phase } := by
            rw [← hc]
            exact getElem?_set_found hattempt _
          exact Option.some.inj (hother.symm.trans hself)
        rw [hsame] at hget ⊢
        rw [← hc]
        refine readFits_handle (horderly.server attempt.server) hget (handle_effect hrun)
          (h b attempt hattempt hget) (fun hout => hout.append _) ?_ ?_
        · rintro isLeader rfl
          exact ⟨_, List.mem_append_right _ (List.mem_singleton_self _), isLeader, rfl⟩
        · intro hsettled
          have hseen := horderly'.settled _ hmem hsettled
          rw [handled_seen] at hseen
          exact hseen
      · have hold : σ.attempts[c]? = some other :=
          (List.getElem?_set_ne hc).symm.trans hother
        exact (h c other hold hget).mono (fun hout => hout.append _) List.prefix_rfl

theorem allReadsFit [NeZero n] {rand : Nat -> Nat}
    {tr : List (Transition (Service n) (Action n))} {σ : Service n}
    (h : (serviceSystem n rand).Trace tr σ) (hfresh : forall t, t ∈ tr -> FreshId rand t) :
    AllReadsFit tr σ := by
  refine TransitionSystem.Trace.invariant_under (P := fun tr σ => AllReadsFit tr σ)
    ?_ ?_ h hfresh
  · intro a attempt hattempt
    cases hattempt
  · intro tr σ σ' a htrace hbefore ih hstep hlast
    have horderly := orderly htrace hbefore
    exact ih.step horderly (horderly.step (step_effect hstep) hlast) (step_effect hstep)

theorem acknowledged_reads_fresh [NeZero n] {rand : Nat -> Nat}
    (r : (serviceSystem n rand).Run) (hfresh : r.Always (FreshId rand)) :
    ReadsFresh r.trace r.state := by
  intro a attempt hattempt hget raftIndex reply hphase herr
  have hfits := allReadsFit r.valid hfresh a attempt hattempt hget
  rcases hphase with hanswered | hreplied
  · rw [hanswered] at hfits
    exact hfits herr
  · rw [hreplied] at hfits
    exact hfits herr

/-- A Get whose first reply is lost.  Server 1 is not the leader, and on server 0 the
second handler times out and reads all the same. -/
def retriedGetSchedule : List (Action 2) :=
  [.newClerk 0, .invoke 0 (.put [120] [97])] ++ answered 0 0 0 1 ++
    [.invoke 0 (.get [120]), .handle 1 (.start (some 2)), .handle 1 .openWaitChan,
      .commit 1, .getCommandFromRaft 0, .getCommandFromRaft 0, .getCommandFromRaft 0,
      .handle 1 .timeOutPop, .handle 1 .executeGetOpOnKVDB, .handle 1 .closeWaitChan,
      .fail 0, .handle 2 (.start none), .receive 0, .handle 3 (.start (some 3)),
      .handle 3 .openWaitChan, .handle 3 (.timeOut true), .handle 3 .executeGetOpOnKVDB,
      .handle 3 .closeWaitChan]

def retriedGetRun : (serviceSystem 2 unseeded).Run :=
  TransitionSystem.runOf _ retriedGetSchedule (by decide +kernel)

theorem retriedGetRun_fresh :
    exists attempt, retriedGetRun.state.attempts[3]? = some attempt ∧
      attempt.phase = .replied 3 { err := .ok, value := [97] } ∧
      FreshReply (TimedOut retriedGetRun.trace 3)
        (retriedGetRun.state.server attempt.server).history attempt.entry.op 3
        { err := .ok, value := [97] } := by
  have hfresh : forall t, t ∈ retriedGetRun.trace -> FreshId unseeded t := by
    decide +kernel
  have hfound : exists attempt, attempt ∈ retriedGetRun.state.attempts[3]? ∧
      attempt.phase = .replied 3 { err := .ok, value := [97] } ∧
      attempt.entry.op.operation = .get := by
    decide +kernel
  rcases hfound with ⟨attempt, hattempt, hphase, hget⟩
  refine ⟨attempt, hattempt, hphase, ?_⟩
  exact acknowledged_reads_fresh retriedGetRun hfresh 3 attempt hattempt hget 3 _
    (Or.inr hphase) nofun

end RaftClerk
end KVRaft
