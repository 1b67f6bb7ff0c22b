import KVRaft.RaftClerk.ExactlyOnce
import KVRaft.RaftClerk.FreshReads
import KVRaft.RaftClerk.OneStore

/-!
# Calls that have returned

No call returns twice, and the value a clerk returns with is what the store held at
some place of the log: for a Get one that its own operation had reached.
-/

namespace KVRaft
namespace RaftClerk

open Foundation KvServer Service

variable {n : Nat}

/-!
# What a step leaves
-/

/-- Nothing that was begun, committed or returned is taken back. -/
structure Service.Extends (σ σ' : Service n) : Prop where
  calls : σ.calls <+: σ'.calls
  committed : σ.committed <+: σ'.committed
  returned : σ.returned <+: σ'.returned

theorem Service.Extends.trans {σ σ' σ'' : Service n} (h : σ.Extends σ')
    (h' : σ'.Extends σ'') : σ.Extends σ'' where
  calls := h.calls.trans h'.calls
  committed := h.committed.trans h'.committed
  returned := h.returned.trans h'.returned

theorem extends_of_effect [NeZero n] {rand : Nat -> Nat} {σ σ' : Service n} {a : Action n}
    (heffect : StepEffect rand σ a σ') : σ.Extends σ' := by
  cases heffect with
  | created => exact ⟨List.prefix_rfl, List.prefix_rfl, List.prefix_rfl⟩
  | invoked _ => exact ⟨List.prefix_append _ _, List.prefix_rfl, List.prefix_rfl⟩
  | handled _ _ => exact ⟨List.prefix_rfl, List.prefix_rfl, List.prefix_rfl⟩
  | committed _ => exact ⟨List.prefix_rfl, List.prefix_append _ _, List.prefix_rfl⟩
  | consumed _ => exact ⟨List.prefix_rfl, List.prefix_rfl, List.prefix_rfl⟩
  | resent _ => exact ⟨List.prefix_rfl, List.prefix_rfl, List.prefix_rfl⟩
  | returned _ _ _ => exact ⟨List.prefix_rfl, List.prefix_rfl, List.prefix_append _ _⟩

theorem history_of_effect [NeZero n] {rand : Nat -> Nat} {σ σ' : Service n} {a : Action n}
    (heffect : StepEffect rand σ a σ') (i : Fin n) :
    (σ.server i).history <+: (σ'.server i).history := by
  cases heffect with
  | created => exact List.prefix_rfl
  | invoked _ => exact List.prefix_rfl
  | committed _ => exact List.prefix_rfl
  | resent _ => exact List.prefix_rfl
  | returned _ _ _ => exact List.prefix_rfl
  | handled _ _ => exact (handled_history _ _ _ _ _ _ i).symm ▸ List.prefix_rfl
  | @consumed j server hstep =>
      change (σ.server i).history <+: (Function.update σ.server j server i).history
      by_cases hi : i = j
      · rw [hi, Function.update_self]
        exact Server.history_getCommandFromRaft hstep
      · have hsame : Function.update σ.server j server i = σ.server i :=
          Function.update_of_ne hi _ _
        exact hsame.symm ▸ List.prefix_rfl

/-- A clerk returns from a call with the value its loop ended with. -/
structure Service.Returns (σ σ' : Service n) (client : Nat) (clerk : Clerk n)
    (attempt : Attempt n) (reply : Reply) (leader : Fin n) (value : Bytes) : Prop where
  current : σ.current client = some (clerk, attempt)
  replied : exists raftIndex, attempt.phase = .replied raftIndex reply
  turn : clerk.turn attempt.entry.op attempt.server (some reply) = .done leader value
  after : σ' = σ.finish client clerk attempt.entry.call leader value

theorem turn_returned (σ : Service n) {client : Nat} {clerk : Clerk n}
    {attempt : Attempt n} (hcurrent : σ.current client = some (clerk, attempt))
    {reply : Option Reply}
    (hreply : forall r, reply = some r -> exists i, attempt.phase = .replied i r) :
    (σ.turn client clerk attempt reply).returned = σ.returned ∨
      exists r leader value,
        σ.Returns (σ.turn client clerk attempt reply) client clerk attempt r leader value := by
  unfold Service.turn
  cases hturn : clerk.turn attempt.entry.op attempt.server reply with
  | next server => exact Or.inl rfl
  | done leader value =>
      rcases Clerk.turn_done hturn with ⟨r, rfl, _⟩
      exact Or.inr ⟨r, leader, value, hcurrent, hreply r rfl, hturn, rfl⟩

theorem step_returned [NeZero n] {rand : Nat -> Nat} {σ σ' : Service n} {a : Action n}
    (h : σ.step rand a = some σ') :
    σ'.returned = σ.returned ∨ exists client clerk attempt reply leader value,
      σ.Returns σ' client clerk attempt reply leader value := by
  cases a with
  | newClerk drawn =>
      cases h
      exact Or.inl rfl
  | invoke client request =>
      simp only [Service.step] at h
      cases hclient : σ.clients[client]? with
      | none =>
          rw [hclient] at h
          cases h
      | some x =>
          rcases x with ⟨clerk, waits⟩
          rw [hclient] at h
          cases waits with
          | some a => cases h
          | none =>
              cases h
              exact Or.inl rfl
  | handle a action =>
      simp only [Service.step] at h
      cases hattempt : σ.attempts[a]? with
      | none =>
          rw [hattempt] at h
          cases h
      | some attempt =>
          simp only [hattempt] at h
          cases hrun : (σ.server attempt.server).kv.handle attempt.entry.op attempt.phase
              action with
          | none =>
              rw [hrun] at h
              cases h
          | some result =>
              rw [hrun] at h
              cases h
              exact Or.inl rfl
  | commit proposal =>
      simp only [Service.step] at h
      cases hproposal : σ.proposals[proposal]? with
      | none =>
          rw [hproposal] at h
          cases h
      | some p =>
          rcases p with ⟨entry, raftIndex⟩
          simp only [hproposal] at h
          by_cases hnext : raftIndex = σ.committed.length + 1
          · rw [if_pos hnext] at h
            cases h
            exact Or.inl rfl
          · rw [if_neg hnext] at h
            cases h
  | getCommandFromRaft i =>
      simp only [Service.step] at h
      cases hrun : (σ.server i).getCommandFromRaft σ.committed with
      | none =>
          rw [hrun] at h
          cases h
      | some server =>
          rw [hrun] at h
          cases h
          exact Or.inl rfl
  | fail client =>
      simp only [Service.step] at h
      cases hcurrent : σ.current client with
      | none =>
          rw [hcurrent] at h
          cases h
      | some result =>
          rcases result with ⟨clerk, attempt⟩
          rw [hcurrent] at h
          cases h
          have hreply : forall r, (none : Option Reply) = some r ->
              exists i, attempt.phase = .replied i r := by
            intro r hr
            cases hr
          rcases turn_returned σ hcurrent hreply with hsame | hreturns
          · exact Or.inl hsame
          · exact Or.inr ⟨client, clerk, attempt, hreturns⟩
  | receive client =>
      simp only [Service.step] at h
      cases hcurrent : σ.current client with
      | none =>
          rw [hcurrent] at h
          cases h
      | some result =>
          rcases result with ⟨clerk, attempt⟩
          simp only [hcurrent] at h
          cases hphase : attempt.phase with
          | replied raftIndex reply =>
              simp only [hphase] at h
              cases h
              have hreply : forall r, some reply = some r ->
                  exists i, attempt.phase = .replied i r := by
                intro r hr
                cases hr
                exact ⟨raftIndex, hphase⟩
              rcases turn_returned σ hcurrent hreply with hsame | hreturns
              · exact Or.inl hsame
              · exact Or.inr ⟨client, clerk, attempt, hreturns⟩
          | _ =>
              simp only [hphase] at h
              cases h

/-- What a Get returns is the value of the reply, or nothing where there is no key. -/
theorem turn_done_get {clerk : Clerk n} {op : Op} {server leader : Fin n} {reply : Reply}
    {value : Bytes} (hget : op.operation = .get)
    (h : clerk.turn op server (some reply) = .done leader value) :
    (reply.err = .ok ∧ value = reply.value) ∨ (reply.err = .errNoKey ∧ value = []) := by
  rw [Clerk.turn, if_pos hget] at h
  simp only [Clerk.get] at h
  cases herr : reply.err with
  | ok =>
      simp only [herr] at h
      cases h
      exact Or.inl ⟨rfl, rfl⟩
  | errNoKey =>
      simp only [herr] at h
      cases h
      exact Or.inr ⟨rfl, rfl⟩
  | errWrongLeader =>
      simp only [herr] at h
      cases h

theorem turn_done_write {clerk : Clerk n} {op : Op} {server leader : Fin n} {reply : Reply}
    {value : Bytes} (hwrites : op.Writes)
    (h : clerk.turn op server (some reply) = .done leader value) : value = [] := by
  rw [Clerk.turn, if_neg hwrites] at h
  simp only [Clerk.putAppend] at h
  split at h
  · cases h
  · cases h
  · cases h
    rfl

/-!
# Where a read takes effect
-/

/-- The answer is what the first `k` operations make of the map, and the operation of
the handler is one of them. -/
def ReadAt (server : Server) (entry : Entry) (reply : Reply) : Prop :=
  exists k, k ≤ server.history.length ∧
    reply = lookUp (mapAfter (server.history.take k)) entry.op ∧
    entry ∈ History.seen (server.history.take k)

def AnsweredFrom (server : Server) (entry : Entry) : Phase -> Prop
  | .answered _ reply => reply.err ≠ .errWrongLeader -> ReadAt server entry reply
  | .replied _ reply => reply.err ≠ .errWrongLeader -> ReadAt server entry reply
  | _ => True

theorem ReadAt.mono {server server' : Server} {entry : Entry} {reply : Reply}
    (h : ReadAt server entry reply) (hhistory : server.history <+: server'.history) :
    ReadAt server' entry reply := by
  rcases h with ⟨k, hk, hreply, hmem⟩
  refine ⟨k, hk.trans hhistory.length_le, ?_⟩
  rcases hhistory with ⟨later, hlater⟩
  rw [← hlater, List.take_append_of_le_length hk]
  exact ⟨hreply, hmem⟩

theorem AnsweredFrom.mono {server server' : Server} {entry : Entry} {phase : Phase}
    (h : AnsweredFrom server entry phase) (hhistory : server.history <+: server'.history) :
    AnsweredFrom server' entry phase := by
  cases phase with
  | answered raftIndex reply => exact fun herr => (h herr).mono hhistory
  | replied raftIndex reply => exact fun herr => (h herr).mono hhistory
  | sent => trivial
  | started raftIndex => trivial
  | waiting raftIndex => trivial
  | reading raftIndex => trivial

/-- A handler of a Get gets its answer in the step that reads. -/
theorem AnsweredFrom.handle {server : Server} {committed : List Entry}
    (h : server.Consistent committed) {entry : Entry} (hget : entry.op.operation = .get)
    {phase phase' : Phase} {action : HandlerAction} {kv : KvServer}
    (heffect : HandlerEffect server.kv entry.op phase action kv phase')
    (hfrom : AnsweredFrom server entry phase) (hseen : phase.Settled -> entry ∈ server.seen) :
    AnsweredFrom server entry phase' := by
  cases heffect with
  | refused => exact fun herr => absurd rfl herr
  | started raftIndex => trivial
  | opened raftIndex => trivial
  | @popped raftIndex raftCommitOp chan hchan =>
      unfold onCommit
      rw [if_pos hget]
      split
      · trivial
      · exact fun herr => absurd rfl herr
  | timedOut raftIndex isLeader =>
      unfold onTimeOut
      rw [if_pos hget]
      split
      · trivial
      · exact fun herr => absurd rfl herr
  | read raftIndex =>
      rw [onRead_executeGet]
      intro _
      refine ⟨server.history.length, le_refl _, ?_, ?_⟩
      · rw [List.take_length, h.map]
      · rw [List.take_length]
        exact hseen trivial
  | closed raftIndex reply => exact hfrom

/-- A Get that takes effect after the first `k` operations of the log. -/
structure ReadPoint (committed : List Entry) (call : Nat) (op : Op) (value : Bytes)
    (k : Nat) : Prop where
  bound : k ≤ committed.length
  value : value = (storeAt committed k op.key).getD []
  after : exists entry, entry ∈ committed.take k ∧ entry.call = call

theorem ReadPoint.mono {committed committed' : List Entry} {call : Nat} {op : Op}
    {value : Bytes} {k : Nat} (h : ReadPoint committed call op value k)
    (hcommitted : committed <+: committed') : ReadPoint committed' call op value k := by
  rcases hcommitted with ⟨later, rfl⟩
  constructor
  · exact h.bound.trans (List.prefix_append _ _).length_le
  · rw [storeAt_append later h.bound]
    exact h.value
  · rw [List.take_append_of_le_length h.bound]
    exact h.after

/-- The answer of a server that judges repetitions rightly. -/
theorem ReadAt.readPoint {server : Server} {committed : List Entry}
    (hlog : server.seen <+: committed) (hexact : server.Exact) {entry : Entry}
    {reply : Reply} (h : ReadAt server entry reply) {value : Bytes}
    (hvalue : (reply.err = .ok ∧ value = reply.value) ∨
      (reply.err = .errNoKey ∧ value = [])) :
    exists k, ReadPoint committed entry.call entry.op value k := by
  rcases h with ⟨k, hk, hreply, hmem⟩
  have hpart : History.seen (server.history.take k) <+: committed := by
    rw [History.seen, List.map_take]
    exact (List.take_prefix k _).trans hlog
  have hjudged := hexact.judged.of_prefix (List.take_prefix k server.history)
  have hlength : (server.history.take k).length = k := List.length_take_of_le hk
  have hstore := contents_mapAfter hpart hjudged
  rw [hlength] at hstore
  have hseen : History.seen (server.history.take k) = committed.take k := by
    rw [List.prefix_iff_eq_take.mp hpart, History.seen, List.length_map, hlength]
  refine ⟨k, ?_, ?_, entry, hseen ▸ hmem, rfl⟩
  · have hle := hpart.length_le
    rw [History.seen, List.length_map, hlength] at hle
    exact hle
  · rw [← hstore, contents]
    unfold lookUp at hreply
    cases hfound : (mapAfter (server.history.take k)).searchElement entry.op.key with
    | none =>
        rw [hfound] at hreply
        rcases hvalue with ⟨herr, _⟩ | ⟨_, rfl⟩
        · rw [hreply] at herr
          cases herr
        · rfl
    | some found =>
        rw [hfound] at hreply
        rcases hvalue with ⟨_, rfl⟩ | ⟨herr, _⟩
        · rw [hreply]
          rfl
        · rw [hreply] at herr
          cases herr

/-!
# The invariants of a run
-/

namespace Service

/-- Every answer a handler has for a Get was in a map its own operation had reached. -/
def Answered (σ : Service n) : Prop :=
  forall attempt, attempt ∈ σ.attempts -> attempt.entry.op.operation = .get ->
    AnsweredFrom (σ.server attempt.server) attempt.entry attempt.phase

/-- A clerk waits for a call of its own that has not returned, and none returns twice. -/
structure ReturnsOnce (σ : Service n) : Prop where
  waits : forall x, x ∈ σ.clients -> forall a, x.attempt = some a ->
    exists attempt, σ.attempts[a]? = some attempt ∧
      attempt.entry.op.clientId = x.clerk.clientId ∧
      attempt.entry.call ∉ σ.returned.map Prod.fst
  once : (σ.returned.map Prod.fst).Nodup

/-- The values returned are those of the log. -/
structure Explained (σ : Service n) : Prop where
  reads : forall call value op, (call, value) ∈ σ.returned -> σ.calls[call]? = some op ->
    op.operation = .get -> exists k, ReadPoint σ.committed call op value k
  writes : forall call value op, (call, value) ∈ σ.returned -> σ.calls[call]? = some op ->
    op.Writes -> value = []

theorem Answered.grow {σ σ' : Service n} (h : Answered σ)
    (hattempts : forall attempt, attempt ∈ σ'.attempts ->
      attempt ∈ σ.attempts ∨ attempt.phase = .sent)
    (hhistory : forall i, (σ.server i).history <+: (σ'.server i).history) : Answered σ' := by
  intro attempt hattempt hget
  rcases hattempts attempt hattempt with hold | hnew
  · exact (h attempt hold hget).mono (hhistory attempt.server)
  · rw [hnew]
    trivial

theorem Answered.step [NeZero n] {rand : Nat -> Nat} {σ σ' : Service n} {a : Action n}
    (h : Answered σ) (horderly : Orderly σ) (heffect : StepEffect rand σ a σ') :
    Answered σ' := by
  have hsent : forall {entry : Entry} {server : Fin n} (attempt : Attempt n),
      attempt ∈ σ.attempts ++ [{ entry := entry, server := server, phase := .sent }] ->
        attempt ∈ σ.attempts ∨ attempt.phase = .sent := by
    intro entry server attempt hattempt
    rcases List.mem_append.mp hattempt with hold | hnew
    · exact Or.inl hold
    · rw [List.mem_singleton.mp hnew]
      exact Or.inr rfl
  have hhistory := history_of_effect heffect
  cases heffect with
  | created => exact h.grow (fun _ hattempt => Or.inl hattempt) hhistory
  | committed _ => exact h.grow (fun _ hattempt => Or.inl hattempt) hhistory
  | returned _ _ _ => exact h.grow (fun _ hattempt => Or.inl hattempt) hhistory
  | consumed _ => exact h.grow (fun _ hattempt => Or.inl hattempt) hhistory
  | invoked _ => exact h.grow hsent hhistory
  | resent _ => exact h.grow hsent hhistory
  | @handled b attempt action kv phase hattempt hrun =>
      have hmem := List.mem_of_getElem? hattempt
      intro other hother hget
      rcases List.mem_or_eq_of_mem_set hother with hold | rfl
      · exact (h other hold hget).mono (hhistory other.server)
      · refine AnsweredFrom.mono ?_ (hhistory attempt.server)
        exact (h attempt hmem hget).handle (horderly.server attempt.server) hget
          (handle_effect hrun) (horderly.settled attempt hmem)

/-- The handler call a clerk waits for keeps its number and its entry. -/
theorem ReturnsOnce.keep {σ σ' : Service n} (h : ReturnsOnce σ)
    (hclients : forall x, x ∈ σ'.clients -> x.attempt = none ∨ x ∈ σ.clients)
    (hattempts : forall (a : Nat) attempt, σ.attempts[a]? = some attempt ->
      exists attempt', σ'.attempts[a]? = some attempt' ∧ attempt'.entry = attempt.entry)
    (hreturned : σ'.returned = σ.returned) : ReturnsOnce σ' where
  waits := by
    intro x hx a hwaits
    rcases hclients x hx with hidle | hold
    · rw [hidle] at hwaits
      cases hwaits
    · rcases h.waits x hold a hwaits with ⟨attempt, hattempt, hid, hopen⟩
      rcases hattempts a attempt hattempt with ⟨attempt', hattempt', hentry⟩
      rw [← hentry] at hid hopen
      exact ⟨attempt', hattempt', hid, hreturned ▸ hopen⟩
  once := hreturned ▸ h.once

/-- A clerk sends its call to a server, for the first time or once more. -/
theorem ReturnsOnce.send {σ : Service n} (h : ReturnsOnce σ) (hnumbered : Numbered σ)
    {client : Nat} {x : Client n} (hclient : σ.clients[client]? = some x) {clerk : Clerk n}
    {entry : Entry} (hid : entry.op.clientId = clerk.clientId)
    (hopen : entry.call ∉ σ.returned.map Prod.fst) (server : Fin n) :
    ReturnsOnce (σ.send client clerk entry server) where
  waits := by
    intro y hy a hwaits
    rcases mem_set_nodup hnumbered.ids hclient hy with rfl | ⟨hold, _⟩
    · cases hwaits
      exact ⟨_, List.getElem?_concat_length, hid, hopen⟩
    · rcases h.waits y hold a hwaits with ⟨attempt, hattempt, hid', hopen'⟩
      refine ⟨attempt, ?_, hid', hopen'⟩
      exact getElem?_append_found hattempt _
  once := h.once

theorem ReturnsOnce.current_open {σ : Service n} (h : ReturnsOnce σ) {client : Nat}
    {clerk : Clerk n} {attempt : Attempt n}
    (hcurrent : σ.current client = some (clerk, attempt)) :
    attempt.entry.op.clientId = clerk.clientId ∧
      attempt.entry.call ∉ σ.returned.map Prod.fst := by
  rcases current_eq_some hcurrent with ⟨a, hclient, hattempt⟩
  rcases h.waits _ (List.mem_of_getElem? hclient) a rfl with ⟨other, hother, hid, hopen⟩
  rw [hattempt] at hother
  cases hother
  exact ⟨hid, hopen⟩

theorem ReturnsOnce.finish {σ : Service n} (h : ReturnsOnce σ) (horderly : Orderly σ)
    {client : Nat} {clerk : Clerk n} {attempt : Attempt n}
    (hcurrent : σ.current client = some (clerk, attempt)) (leader : Fin n) (value : Bytes) :
    ReturnsOnce (σ.finish client clerk attempt.entry.call leader value) := by
  rcases current_eq_some hcurrent with ⟨a, hclient, hattempt⟩
  rcases h.current_open hcurrent with ⟨hid, hopen⟩
  have hreturned : (σ.finish client clerk attempt.entry.call leader value).returned.map
      Prod.fst = σ.returned.map Prod.fst ++ [attempt.entry.call] := by
    rw [Service.finish, List.map_append]
    rfl
  constructor
  · intro y hy b hwaits
    rcases mem_set_nodup horderly.numbered.ids hclient hy with rfl | ⟨hold, hother⟩
    · cases hwaits
    · rcases h.waits y hold b hwaits with ⟨waiting, hwaiting, hyid, hyopen⟩
      refine ⟨waiting, hwaiting, hyid, ?_⟩
      rw [hreturned, List.mem_append, List.mem_singleton]
      rintro (hdone | hcall)
      · exact hyopen hdone
      · -- one call has one operation, and so one client
        have hsame := issued_call
          (horderly.authentic.attempts _ (List.mem_of_getElem? hwaiting))
          (horderly.authentic.attempts _ (List.mem_of_getElem? hattempt)) hcall
        rw [hsame, hid] at hyid
        exact hother hyid.symm
  · rw [hreturned, ← List.concat_eq_append]
    exact h.once.concat hopen

theorem ReturnsOnce.step [NeZero n] {rand : Nat -> Nat} {σ σ' : Service n} {a : Action n}
    (h : ReturnsOnce σ) (horderly : Orderly σ) (heffect : StepEffect rand σ a σ') :
    ReturnsOnce σ' := by
  cases heffect with
  | created =>
      refine h.keep ?_ (fun a attempt hattempt => ⟨attempt, hattempt, rfl⟩) rfl
      intro x hx
      rcases List.mem_append.mp hx with hold | hnew
      · exact Or.inr hold
      · rw [List.mem_singleton.mp hnew]
        exact Or.inl rfl
  | committed _ =>
      exact h.keep (fun _ hx => Or.inr hx)
        (fun a attempt hattempt => ⟨attempt, hattempt, rfl⟩) rfl
  | consumed _ =>
      exact h.keep (fun _ hx => Or.inr hx)
        (fun a attempt hattempt => ⟨attempt, hattempt, rfl⟩) rfl
  | @handled b attempt action kv phase hattempt _ =>
      refine h.keep (fun _ hx => Or.inr hx) ?_ rfl
      intro c other hother
      by_cases hc : b = c
      · rw [← hc, hattempt] at hother
        cases hother
        refine ⟨{ attempt with phase := phase }, ?_, rfl⟩
        rw [← hc]
        exact getElem?_set_found hattempt _
      · exact ⟨other, (List.getElem?_set_ne hc).trans hother, rfl⟩
  | @invoked client clerk request hclient =>
      have hopen : σ.calls.length ∉ σ.returned.map Prod.fst := by
        intro hmem
        rcases horderly.committed_of_returned hmem with ⟨entry, hentry, hcall⟩
        have hlt := (List.getElem?_eq_some_iff.mp
          (horderly.authentic.committed entry hentry)).1
        exact absurd hcall hlt.ne
      constructor
      · intro y hy b hwaits
        rcases mem_invoke_clients horderly.numbered hclient hy with rfl | ⟨hold, _⟩
        · cases hwaits
          exact ⟨_, List.getElem?_concat_length, Clerk.args_clientId _ _, hopen⟩
        · rcases h.waits y hold b hwaits with ⟨attempt, hattempt, hid, hstill⟩
          refine ⟨attempt, ?_, hid, hstill⟩
          exact getElem?_append_found hattempt _
      · exact h.once
  | resent hcurrent =>
      rcases current_eq_some hcurrent with ⟨_, hclient, _⟩
      rcases h.current_open hcurrent with ⟨hid, hopen⟩
      exact h.send horderly.numbered hclient hid hopen _
  | returned hcurrent _ _ => exact h.finish horderly hcurrent _ _

theorem returned_issued {σ : Service n} (h : Orderly σ) {call : Nat}
    (hcall : call ∈ σ.returned.map Prod.fst) :
    exists entry, entry ∈ σ.committed ∧ entry.call = call ∧ σ.Issued entry := by
  rcases h.committed_of_returned hcall with ⟨entry, hentry, rfl⟩
  exact ⟨entry, hentry, rfl, h.authentic.committed entry hentry⟩

theorem Explained.keep {σ σ' : Service n} (h : Explained σ) (hextends : σ.Extends σ')
    (horderly : Orderly σ) {call : Nat} {value : Bytes} {op : Op}
    (hreturned : (call, value) ∈ σ.returned) (hop : σ'.calls[call]? = some op) :
    (op.operation = .get -> exists k, ReadPoint σ'.committed call op value k) ∧
      (op.Writes -> value = []) := by
  have hcall : call ∈ σ.returned.map Prod.fst := List.mem_map.mpr ⟨_, hreturned, rfl⟩
  rcases returned_issued horderly hcall with ⟨entry, _, rfl, hissued⟩
  have hbefore : σ.calls[entry.call]? = some op := by
    have hsame := getElem?_of_isPrefix hextends.calls hissued
    rw [hop] at hsame
    cases hsame
    exact hissued
  constructor
  · intro hget
    rcases h.reads entry.call value op hreturned hbefore hget with ⟨k, hk⟩
    exact ⟨k, hk.mono hextends.committed⟩
  · exact h.writes entry.call value op hreturned hbefore

/-- The value a clerk returns with. -/
theorem Returns.explained {σ σ' : Service n} {client : Nat} {clerk : Clerk n}
    {attempt : Attempt n} {reply : Reply} {leader : Fin n} {value : Bytes}
    (h : σ.Returns σ' client clerk attempt reply leader value) (horderly : Orderly σ)
    (hexact : forall i, (σ.server i).Exact) (hanswered : Answered σ) {op : Op}
    (hop : σ'.calls[attempt.entry.call]? = some op) :
    (op.operation = .get -> exists k, ReadPoint σ'.committed attempt.entry.call op value k) ∧
      (op.Writes -> value = []) := by
  rcases h with ⟨hcurrent, ⟨raftIndex, hphase⟩, hturn, rfl⟩
  rcases current_eq_some hcurrent with ⟨a, _, hattempt⟩
  have hmem := List.mem_of_getElem? hattempt
  have hissued : some attempt.entry.op = some op :=
    (horderly.authentic.attempts attempt hmem).symm.trans hop
  cases hissued
  constructor
  · intro hget
    have hvalue := turn_done_get hget hturn
    have hfrom := hanswered attempt hmem hget
    rw [hphase] at hfrom
    have herr : reply.err ≠ .errWrongLeader := by
      intro hwrong
      rcases hvalue with ⟨hok, _⟩ | ⟨hno, _⟩
      · rw [hok] at hwrong
        cases hwrong
      · rw [hno] at hwrong
        cases hwrong
    exact (hfrom herr).readPoint (horderly.server attempt.server).log
      (hexact attempt.server) hvalue
  · intro hwrites
    exact turn_done_write hwrites hturn

theorem Explained.step [NeZero n] {rand : Nat -> Nat} {σ σ' : Service n} {a : Action n}
    (h : Explained σ) (horderly : Orderly σ) (hexact : forall i, (σ.server i).Exact)
    (hanswered : Answered σ) (hstep : σ.step rand a = some σ') : Explained σ' := by
  have hextends := extends_of_effect (step_effect hstep)
  have hall : forall call value op, (call, value) ∈ σ'.returned ->
      σ'.calls[call]? = some op ->
        (op.operation = .get -> exists k, ReadPoint σ'.committed call op value k) ∧
          (op.Writes -> value = []) := by
    intro call value op hreturned hop
    rcases step_returned hstep with hsame | ⟨client, clerk, attempt, reply, leader, v, hnew⟩
    · rw [hsame] at hreturned
      exact h.keep hextends horderly hreturned hop
    · have hafter : σ'.returned = σ.returned ++ [(attempt.entry.call, v)] := by
        rw [hnew.after, Service.finish]
      rw [hafter] at hreturned
      rcases List.mem_append.mp hreturned with hold | hlast
      · exact h.keep hextends horderly hold hop
      · cases List.mem_singleton.mp hlast
        exact hnew.explained horderly hexact hanswered hop
  constructor
  · intro call value op hreturned hop
    exact (hall call value op hreturned hop).1
  · intro call value op hreturned hop
    exact (hall call value op hreturned hop).2

/-- All that is known of a state of a run. -/
structure Accounted (σ : Service n) : Prop where
  orderly : Orderly σ
  exact : forall i, (σ.server i).Exact
  answered : Answered σ
  returnsOnce : ReturnsOnce σ
  explained : Explained σ

end Service

theorem accounted [NeZero n] {rand : Nat -> Nat}
    {tr : List (Transition (Service n) (Action n))} {σ : Service n}
    (h : (serviceSystem n rand).Trace tr σ)
    (hapart : forall t, t ∈ tr -> KeepsApart rand t) : Accounted σ := by
  refine TransitionSystem.Trace.invariant_under (P := fun _ σ => Accounted σ) ?_ ?_ h hapart
  · constructor
    · exact Orderly.initial rand
    · exact fun _ => Server.exact_initial
    · intro attempt hattempt
      cases hattempt
    · exact ⟨nofun, List.nodup_nil⟩
    · exact ⟨nofun, nofun⟩
  · intro tr σ σ' a _ _ ih hstep hlast
    have heffect := step_effect hstep
    exact
      { orderly := ih.orderly.step heffect hlast.1
        exact := exact_step ih.orderly ih.exact heffect hlast.2
        answered := ih.answered.step ih.orderly heffect
        returnsOnce := ih.returnsOnce.step ih.orderly heffect
        explained := ih.explained.step ih.orderly ih.exact ih.answered hstep }

end RaftClerk
end KVRaft
