import KVRaft.RaftClerk.Linearizable
import KVRaft.RaftClerk.OneOrder

/-!
# Runs of the whole system

Every run of a deployment is one of the service: what the longest channel holds is the
committed order, a message that makes it longer is a commit, and the steps of Raft that
push nothing are no steps at all.
-/

namespace KVRaft
namespace RaftClerk

open Foundation KvServer
open RaftCore (Archive ApplyMsg)

variable {n : Nat}

/-- The clerks have ids of their own, and no reader sets the number of a request back. -/
def ClerksApart (rand : Nat -> Nat)
    (t : Transition (Deployment n) (DeploymentAction n)) : Prop :=
  forall a, a ∈ t.action.ofClerks ->
    KeepsApart rand
      { before := t.before.service [], action := a, after := t.after.service [] }

instance (rand : Nat -> Nat) : DecidablePred (ClerksApart (n := n) rand) := fun t =>
  inferInstanceAs (Decidable (forall a, a ∈ t.action.ofClerks ->
    KeepsApart rand
      { before := t.before.service [], action := a, after := t.after.service [] }))

/-!
# The operations of messages
-/

section EntriesOf

theorem callOf_append {proposals : List (Entry × Int)} {entry : Entry} {index : Int}
    (h : (entry, index) ∈ proposals) :
    exists found, (found, index) ∈ proposals ∧ found.op = entry.op ∧
      forall later, callOf (proposals ++ later) entry.op index = found.call := by
  have hsome : (proposals.find? fun p => p.2 = index ∧ p.1.op = entry.op).isSome := by
    rw [List.find?_isSome]
    exact ⟨_, h, decide_eq_true ⟨rfl, rfl⟩⟩
  rcases Option.isSome_iff_exists.mp hsome with ⟨⟨found, foundIndex⟩, hfound⟩
  have hmatch := List.find?_some hfound
  rcases of_decide_eq_true hmatch with ⟨rfl, hop⟩
  refine ⟨found, List.mem_of_find?_eq_some hfound, hop, ?_⟩
  intro later
  unfold callOf
  rw [List.find?_append, hfound]
  rfl

variable [OpArchive] [LawfulOpArchive]

theorem entriesOf_cons {proposals : List (Entry × Int)} {message : ApplyMsg}
    (h : Proposed proposals message.command message.commandIndex) :
    exists entry, (entry, message.commandIndex) ∈ proposals ∧ forall later rest,
      entriesOf (proposals ++ later) (message :: rest) =
        entry :: entriesOf (proposals ++ later) rest := by
  rcases h with ⟨entry, hentry, hcommand⟩
  rcases callOf_append hentry with ⟨found, hfound, hop, hcall⟩
  refine ⟨found, hfound, ?_⟩
  intro later rest
  rw [entriesOf, ← hcommand, LawfulOpArchive.parseFromString_asString]
  have hhead : Entry.mk (callOf (proposals ++ later) entry.op message.commandIndex)
      entry.op = found := by
    rw [hcall later, ← hop]
  simp only [hhead]

theorem entriesOf_append {proposals : List (Entry × Int)} {msgs : List ApplyMsg}
    (h : forall msg, msg ∈ msgs -> Proposed proposals msg.command msg.commandIndex)
    (later : List (Entry × Int)) (rest : List ApplyMsg) :
    entriesOf (proposals ++ later) (msgs ++ rest) =
      entriesOf proposals msgs ++ entriesOf (proposals ++ later) rest := by
  induction msgs with
  | nil => rfl
  | cons msg msgs ih =>
      rcases entriesOf_cons (h msg List.mem_cons_self) with ⟨entry, _, hentry⟩
      have hnone := hentry [] msgs
      rw [List.append_nil] at hnone
      rw [List.cons_append, hentry, hnone,
        ih fun next hnext => h next (List.mem_cons_of_mem _ hnext)]
      rfl

/-- What was proposed later does not change what a message stands for. -/
theorem entriesOf_later {proposals : List (Entry × Int)} {msgs : List ApplyMsg}
    (h : forall msg, msg ∈ msgs -> Proposed proposals msg.command msg.commandIndex)
    (later : List (Entry × Int)) :
    entriesOf (proposals ++ later) msgs = entriesOf proposals msgs := by
  have happend := entriesOf_append h later []
  rw [List.append_nil] at happend
  rw [happend]
  exact List.append_nil _

theorem length_entriesOf {proposals : List (Entry × Int)} {msgs : List ApplyMsg}
    (h : forall msg, msg ∈ msgs -> Proposed proposals msg.command msg.commandIndex) :
    (entriesOf proposals msgs).length = msgs.length := by
  induction msgs with
  | nil => rfl
  | cons msg msgs ih =>
      rcases entriesOf_cons (h msg List.mem_cons_self) with ⟨entry, _, hentry⟩
      have hnone := hentry [] msgs
      rw [List.append_nil] at hnone
      rw [hnone, List.length_cons, List.length_cons,
        ih fun next hnext => h next (List.mem_cons_of_mem _ hnext)]

end EntriesOf

/-!
# Steps of the service
-/

theorem Service.current_committed (σ : Service n) (committed : List Entry) (client : Nat) :
    { σ with committed := committed }.current client = σ.current client :=
  rfl

theorem Service.turn_committed (σ : Service n) (committed : List Entry) (client : Nat)
    (clerk : Clerk n) (attempt : Attempt n) (reply : Option Reply) :
    { σ with committed := committed }.turn client clerk attempt reply =
      { σ.turn client clerk attempt reply with committed := committed } := by
  unfold Service.turn
  cases clerk.turn attempt.entry.op attempt.server reply with
  | next server => rfl
  | done recentLeaderId value => rfl

/-- Only commits and the loops of the servers look at what is committed. -/
theorem Service.step_committed [NeZero n] {rand : Nat -> Nat} {σ σ' : Service n}
    {a : Action n} (committed : List Entry) (hcommit : forall p, a ≠ .commit p)
    (hloop : forall i, a ≠ .getCommandFromRaft i) (h : σ.step rand a = some σ') :
    { σ with committed := committed }.step rand a =
      some { σ' with committed := committed } := by
  cases a with
  | newClerk drawn =>
      cases h
      rfl
  | invoke client request =>
      simp only [Service.step] at h ⊢
      cases hclient : σ.clients[client]? with
      | none =>
          rw [hclient] at h
          cases h
      | some x =>
          rcases x with ⟨clerk, waits⟩
          rw [hclient] at h
          cases waits with
          | some a => cases h
          | none =>
              cases h
              rfl
  | handle a action =>
      simp only [Service.step] at h ⊢
      cases hattempt : σ.attempts[a]? with
      | none =>
          rw [hattempt] at h
          cases h
      | some attempt =>
          simp only [hattempt] at h ⊢
          cases hrun : (σ.server attempt.server).kv.handle attempt.entry.op attempt.phase
              action with
          | none =>
              rw [hrun] at h
              cases h
          | some result =>
              rw [hrun] at h
              cases h
              rfl
  | commit p => exact absurd rfl (hcommit p)
  | getCommandFromRaft i => exact absurd rfl (hloop i)
  | fail client =>
      simp only [Service.step] at h ⊢
      rw [σ.current_committed committed client]
      cases hcurrent : σ.current client with
      | none =>
          rw [hcurrent] at h
          cases h
      | some result =>
          rw [hcurrent] at h
          cases h
          exact congrArg some (σ.turn_committed committed _ _ _ _)
  | receive client =>
      simp only [Service.step] at h ⊢
      rw [σ.current_committed committed client]
      cases hcurrent : σ.current client with
      | none =>
          rw [hcurrent] at h
          cases h
      | some result =>
          rcases result with ⟨clerk, attempt⟩
          simp only [hcurrent] at h ⊢
          cases hphase : attempt.phase with
          | replied raftIndex reply =>
              simp only [hphase] at h ⊢
              cases h
              exact congrArg some (σ.turn_committed committed _ _ _ _)
          | _ =>
              simp only [hphase] at h
              cases h

theorem Server.getCommandFromRaft_of_prefix {server server' : Server}
    {committed committed' : List Entry} (hbegin : committed <+: committed')
    (h : server.getCommandFromRaft committed = some server') :
    server.getCommandFromRaft committed' = some server' := by
  unfold Server.getCommandFromRaft at h ⊢
  cases hphase : server.loop with
  | pop =>
      simp only [hphase] at h
      cases hnext : committed[server.applied]? with
      | none =>
          rw [hnext] at h
          cases h
      | some entry =>
          rw [hnext] at h
          rcases hbegin with ⟨later, rfl⟩
          simp only [getElem?_append_found hnext]
          exact h
  | checked entry duplicate =>
      simp only [hphase] at h
      exact h
  | executed op =>
      simp only [hphase] at h
      exact h

/-- A run of the service whose clerks keep apart. -/
structure OrderlyRun [NeZero n] (rand : Nat -> Nat)
    (str : List (Transition (Service n) (Action n))) (σ : Service n) : Prop where
  trace : (serviceSystem n rand).Trace str σ
  apart : forall t, t ∈ str -> KeepsApart rand t

theorem OrderlyRun.snoc [NeZero n] {rand : Nat -> Nat}
    {str : List (Transition (Service n) (Action n))} {σ σ' : Service n} {a : Action n}
    (h : OrderlyRun rand str σ) (hstep : σ.step rand a = some σ')
    (hapart : KeepsApart rand { before := σ, action := a, after := σ' }) :
    OrderlyRun rand (str ++ [{ before := σ, action := a, after := σ' }]) σ' where
  trace := .snoc h.trace hstep
  apart := by
    intro t ht
    rcases List.mem_append.mp ht with hold | hnew
    · exact h.apart t hold
    · rw [List.mem_singleton.mp hnew]
      exact hapart

theorem keepsApart_of_none {rand : Nat -> Nat}
    {t : Transition (Service n) (Action n)} (hcreates : t.action.creates = none)
    (hreader : t.before.reader t.action = none) : KeepsApart rand t := by
  constructor
  · intro drawn hdrawn
    rw [hcreates] at hdrawn
    cases hdrawn
  · intro attempt hattempt
    rw [hreader] at hattempt
    cases hattempt

/-- Messages that carry the next indices are committed one by one. -/
theorem OrderlyRun.commit [NeZero n] [OpArchive] [LawfulOpArchive] {rand : Nat -> Nat}
    {str : List (Transition (Service n) (Action n))} {σ : Service n}
    (h : OrderlyRun rand str σ) {msgs : List ApplyMsg}
    (hproposed : forall msg, msg ∈ msgs ->
      Proposed σ.proposals msg.command msg.commandIndex)
    (hnumbered : forall (k : Nat) msg, msgs[k]? = some msg ->
      msg.commandIndex = (σ.committed.length + k : Nat) + 1) :
    exists later, OrderlyRun rand (str ++ later)
      { σ with committed := σ.committed ++ entriesOf σ.proposals msgs } := by
  induction msgs generalizing str σ with
  | nil =>
      refine ⟨[], ?_⟩
      rw [entriesOf, List.append_nil, List.append_nil]
      exact h
  | cons msg msgs ih =>
      rcases entriesOf_cons (hproposed msg List.mem_cons_self) with ⟨entry, hentry, hhead⟩
      have hnone := hhead [] msgs
      rw [List.append_nil] at hnone
      rcases List.mem_iff_getElem?.mp hentry with ⟨p, hp⟩
      have hindex : msg.commandIndex = (σ.committed.length : Int) + 1 := hnumbered 0 msg rfl
      have hstep : σ.step rand (.commit p) =
          some { σ with committed := σ.committed ++ [entry] } := by
        simp only [Service.step, hp]
        exact if_pos hindex
      have hfirst := h.snoc hstep (keepsApart_of_none rfl rfl)
      let first : Transition (Service n) (Action n) :=
        { before := σ
          action := .commit p
          after := { σ with committed := σ.committed ++ [entry] } }
      have hrest : forall (k : Nat) next, msgs[k]? = some next ->
          next.commandIndex = ((σ.committed ++ [entry]).length + k : Nat) + 1 := by
        intro k next hnext
        rw [hnumbered (k + 1) next hnext, List.length_append, List.length_singleton]
        omega
      rcases ih hfirst (fun next hnext => hproposed next (List.mem_cons_of_mem _ hnext))
        hrest with ⟨later, hlater⟩
      refine ⟨first :: later, ?_⟩
      rw [hnone]
      simpa only [List.append_assoc, List.singleton_append] using hlater

end RaftClerk
end KVRaft
