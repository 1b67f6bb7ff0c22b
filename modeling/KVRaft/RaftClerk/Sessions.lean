import KVRaft.Foundation.Sessions
import KVRaft.RaftClerk.Service

/-!
# Numbered calls

With ids of their own the clerks number their calls, each waiting for one call
before it begins the next.  So the calls of a clerk are committed in order.
-/

namespace KVRaft
namespace RaftClerk

open Foundation KvServer

def requests : Numbering Entry Bytes Int where
  session entry := entry.op.clientId
  number entry := entry.op.requestId

namespace Service

variable {n : Nat}

/-!
# Calls under way
-/

/-- Clerks have ids of their own and number their calls upwards. -/
structure Numbered (σ : Service n) : Prop where
  ids : (σ.clients.map fun x => x.clerk.clientId).Nodup
  known : forall op, op ∈ σ.calls ->
    exists x, x ∈ σ.clients ∧ x.clerk.clientId = op.clientId
  bound : forall x, x ∈ σ.clients -> forall op, op ∈ σ.calls ->
    op.clientId = x.clerk.clientId -> op.requestId ≤ x.clerk.requestId
  increasing : σ.calls.Pairwise fun a b =>
    a.clientId = b.clientId -> a.requestId < b.requestId

/-- A clerk waits for every call of its own that has not returned. -/
def Sequential (σ : Service n) : Prop :=
  forall x, x ∈ σ.clients -> forall entry, σ.Issued entry ->
    entry.op.clientId = x.clerk.clientId ->
    entry.call ∈ σ.returned.map Prod.fst ∨
      exists a attempt, x.attempt = some a ∧ σ.attempts[a]? = some attempt ∧
        attempt.entry = entry

/-- Whatever is under way was issued by a clerk. -/
structure Authentic (σ : Service n) : Prop where
  attempts : forall attempt, attempt ∈ σ.attempts -> σ.Issued attempt.entry
  proposals : forall entry raftIndex, (entry, raftIndex) ∈ σ.proposals -> σ.Issued entry
  committed : forall entry, entry ∈ σ.committed -> σ.Issued entry

/-- A call of a clerk has been committed when its next one begins. -/
structure InSequence (σ : Service n) : Prop where
  order : requests.InOrder σ.Issued σ.committed
  earlier : forall a b, σ.Issued a -> σ.Issued b -> requests.Precedes a b ->
    a ∈ σ.committed

theorem issued_call {σ : Service n} {a b : Entry} (ha : σ.Issued a) (hb : σ.Issued b)
    (hcall : a.call = b.call) : a = b := by
  rcases a with ⟨call, op⟩
  rcases b with ⟨call', op'⟩
  cases hcall
  have hop : some op = some op' := ha.symm.trans hb
  cases hop
  rfl

theorem Issued.mem {σ : Service n} {entry : Entry} (h : σ.Issued entry) :
    entry.op ∈ σ.calls :=
  List.mem_of_getElem? h

theorem Issued.append {σ σ' : Service n} {entry : Entry} {op : Op} (h : σ.Issued entry)
    (hcalls : σ'.calls = σ.calls ++ [op]) : σ'.Issued entry := by
  unfold Issued
  rw [hcalls]
  exact getElem?_append_found h _

theorem issued_append_cases {σ σ' : Service n} {entry : Entry} {op : Op}
    (hcalls : σ'.calls = σ.calls ++ [op]) (h : σ'.Issued entry) :
    σ.Issued entry ∨ entry = { call := σ.calls.length, op := op } := by
  unfold Issued at h
  rw [hcalls] at h
  rcases getElem?_concat_cases h with hold | ⟨hcall, hop⟩
  · exact Or.inl hold
  · rcases entry with ⟨call, op'⟩
    cases hcall
    cases hop
    exact Or.inr rfl

theorem Numbered.distinguishes {σ : Service n} (h : Numbered σ) :
    requests.Distinguishes σ.Issued := by
  intro a b ha hb hsession hnumber
  apply issued_call ha hb
  rcases List.getElem?_eq_some_iff.mp ha with ⟨hia, hopa⟩
  rcases List.getElem?_eq_some_iff.mp hb with ⟨hib, hopb⟩
  have hordered := List.pairwise_iff_getElem.mp h.increasing
  have hirrefl : ¬ requests.number a < requests.number b := by
    rw [hnumber]
    exact lt_irrefl _
  have hirrefl' : ¬ requests.number b < requests.number a := by
    rw [hnumber]
    exact lt_irrefl _
  rcases Nat.lt_trichotomy a.call b.call with hlt | heq | hgt
  · have hless := hordered a.call b.call hia hib hlt
    rw [hopa, hopb] at hless
    exact absurd (hless hsession) hirrefl
  · exact heq
  · have hless := hordered b.call a.call hib hia hgt
    rw [hopa, hopb] at hless
    exact absurd (hless hsession.symm) hirrefl'

/-!
# Creating a clerk
-/

theorem Numbered.create {σ : Service n} (h : Numbered σ) {x : Client n}
    (hfresh : forall y, y ∈ σ.clients -> y.clerk.clientId ≠ x.clerk.clientId) :
    Numbered { σ with clients := σ.clients ++ [x] } where
  ids := by
    rw [List.map_append, List.map_singleton, ← List.concat_eq_append]
    apply h.ids.concat
    intro hmem
    rcases List.mem_map.mp hmem with ⟨y, hy, hid⟩
    exact hfresh y hy hid
  known op hop := by
    rcases h.known op hop with ⟨y, hy, hid⟩
    exact ⟨y, List.mem_append_left _ hy, hid⟩
  bound y hy op hop hid := by
    rcases List.mem_append.mp hy with hold | hnew
    · exact h.bound y hold op hop hid
    · rcases h.known op hop with ⟨z, hz, hknown⟩
      rw [List.mem_singleton.mp hnew] at hid
      exact absurd (hknown.trans hid) (hfresh z hz)
  increasing := h.increasing

theorem Sequential.create {σ : Service n} (h : Sequential σ) (hnumbered : Numbered σ)
    {x : Client n}
    (hfresh : forall y, y ∈ σ.clients -> y.clerk.clientId ≠ x.clerk.clientId) :
    Sequential { σ with clients := σ.clients ++ [x] } := by
  intro y hy entry hentry hid
  rcases List.mem_append.mp hy with hold | hnew
  · exact h y hold entry hentry hid
  · rcases hnumbered.known entry.op (Issued.mem hentry) with ⟨z, hz, hknown⟩
    rw [List.mem_singleton.mp hnew] at hid
    exact absurd (hknown.trans hid) (hfresh z hz)

/-!
# Beginning a call
-/

theorem invoke_calls (σ : Service n) (client : Nat) (clerk : Clerk n) (request : Request) :
    (σ.invoke client clerk request).calls =
      σ.calls ++ [clerk.nextRequest.args request] :=
  rfl

/-- The clients after a call has begun: only one has changed. -/
theorem mem_invoke_clients {σ : Service n} (h : Numbered σ) {client : Nat}
    {clerk : Clerk n} {waits : Option Nat} {request : Request}
    (hclient : σ.clients[client]? = some { clerk := clerk, attempt := waits })
    {y : Client n} (hy : y ∈ (σ.invoke client clerk request).clients) :
    y = { clerk := clerk.nextRequest, attempt := some σ.attempts.length } ∨
      (y ∈ σ.clients ∧ y.clerk.clientId ≠ clerk.clientId) :=
  mem_set_nodup h.ids hclient hy

theorem Numbered.invoke {σ : Service n} (h : Numbered σ) {client : Nat} {clerk : Clerk n}
    {waits : Option Nat} {request : Request}
    (hclient : σ.clients[client]? = some { clerk := clerk, attempt := waits }) :
    Numbered (σ.invoke client clerk request) := by
  have hx := List.mem_of_getElem? hclient
  have hids := map_set_same (f := fun x : Client n => x.clerk.clientId)
    (y := { clerk := clerk.nextRequest, attempt := some σ.attempts.length }) hclient rfl
  have hop := clerk.nextRequest.args_clientId request
  have hnumber := clerk.nextRequest.args_requestId request
  have hlast : forall op, op ∈ σ.calls -> op.clientId = clerk.clientId ->
      op.requestId < clerk.nextRequest.requestId := by
    intro op hold hid
    exact Int.lt_add_one_of_le (h.bound _ hx op hold hid)
  constructor
  · exact hids ▸ h.ids
  · intro op hcall
    have hmem : op.clientId ∈ σ.clients.map fun x => x.clerk.clientId := by
      rcases List.mem_append.mp hcall with hold | hnew
      · rcases h.known op hold with ⟨y, hy, hid⟩
        exact List.mem_map.mpr ⟨y, hy, hid⟩
      · rw [List.mem_singleton.mp hnew, hop]
        exact List.mem_map.mpr ⟨_, hx, rfl⟩
    rw [← hids] at hmem
    exact List.mem_map.mp hmem
  · intro y hy op hcall hid
    rcases mem_invoke_clients h hclient hy with rfl | ⟨hold, hother⟩
    · rcases List.mem_append.mp hcall with hbefore | hnew
      · exact (hlast op hbefore hid).le
      · rw [List.mem_singleton.mp hnew, hnumber]
    · rcases List.mem_append.mp hcall with hbefore | hnew
      · exact h.bound y hold op hbefore hid
      · rw [List.mem_singleton.mp hnew, hop] at hid
        exact absurd hid.symm hother
  · rw [invoke_calls, List.pairwise_append]
    refine ⟨h.increasing, List.pairwise_singleton _ _, ?_⟩
    intro op hold op' hnew hid
    rw [List.mem_singleton.mp hnew] at hid ⊢
    rw [hnumber]
    exact hlast op hold (hid.trans hop)

theorem Sequential.invoke {σ : Service n} (h : Sequential σ) (hnumbered : Numbered σ)
    {client : Nat} {clerk : Clerk n} {request : Request}
    (hclient : σ.clients[client]? = some { clerk := clerk, attempt := none }) :
    Sequential (σ.invoke client clerk request) := by
  intro y hy entry hentry hid
  have hop := clerk.nextRequest.args_clientId request
  rcases mem_invoke_clients hnumbered hclient hy with rfl | ⟨hold, hother⟩
  · rcases issued_append_cases (invoke_calls σ client clerk request) hentry with
      hbefore | hnew
    · rcases h _ (List.mem_of_getElem? hclient) entry hbefore hid with
        hreturned | ⟨a, attempt, hwaits, _⟩
      · exact Or.inl hreturned
      · cases hwaits
    · right
      refine ⟨_, _, rfl, List.getElem?_concat_length, ?_⟩
      exact hnew.symm
  · rcases issued_append_cases (invoke_calls σ client clerk request) hentry with
      hbefore | hnew
    · rcases h y hold entry hbefore hid with hreturned | ⟨a, attempt, hwaits, ha, hattempt⟩
      · exact Or.inl hreturned
      · right
        refine ⟨a, attempt, hwaits, ?_, hattempt⟩
        exact getElem?_append_found ha _
    · rw [hnew] at hid
      exact absurd (hid.symm.trans hop) hother

/-- A clerk that waits for no call has all its calls in the log. -/
theorem committed_of_idle {σ : Service n} (h : Sequential σ) (hauthentic : Authentic σ)
    (hreturned : forall call, call ∈ σ.returned.map Prod.fst ->
      exists entry, entry ∈ σ.committed ∧ entry.call = call)
    {x : Client n} (hx : x ∈ σ.clients) (hidle : x.attempt = none) {entry : Entry}
    (hentry : σ.Issued entry) (hid : entry.op.clientId = x.clerk.clientId) :
    entry ∈ σ.committed := by
  rcases h x hx entry hentry hid with hdone | ⟨a, attempt, hwaits, _⟩
  · rcases hreturned entry.call hdone with ⟨b, hb, hcall⟩
    rw [issued_call hentry (hauthentic.committed b hb) hcall.symm]
    exact hb
  · rw [hidle] at hwaits
    cases hwaits

theorem Authentic.invoke {σ : Service n} (h : Authentic σ) (client : Nat)
    (clerk : Clerk n) (request : Request) : Authentic (σ.invoke client clerk request) where
  attempts attempt hattempt := by
    rcases List.mem_append.mp hattempt with hold | hnew
    · exact (h.attempts attempt hold).append (invoke_calls σ client clerk request)
    · rw [List.mem_singleton.mp hnew]
      exact List.getElem?_concat_length
  proposals entry raftIndex hproposal :=
    (h.proposals entry raftIndex hproposal).append (invoke_calls σ client clerk request)
  committed entry hentry :=
    (h.committed entry hentry).append (invoke_calls σ client clerk request)

theorem InSequence.invoke {σ : Service n} (h : InSequence σ) (hnumbered : Numbered σ)
    (hsequential : Sequential σ) (hauthentic : Authentic σ)
    (hreturned : forall call, call ∈ σ.returned.map Prod.fst ->
      exists entry, entry ∈ σ.committed ∧ entry.call = call)
    {client : Nat} {clerk : Clerk n} {request : Request}
    (hclient : σ.clients[client]? = some { clerk := clerk, attempt := none }) :
    InSequence (σ.invoke client clerk request) := by
  have hx := List.mem_of_getElem? hclient
  have hop := clerk.nextRequest.args_clientId request
  have hnumber := clerk.nextRequest.args_requestId request
  have hnew : forall b, σ.Issued b -> ¬ requests.Precedes
      { call := σ.calls.length, op := clerk.nextRequest.args request } b := by
    rintro b hb ⟨hsession, hless⟩
    have hbound := hnumbered.bound _ hx b.op hb.mem (hsession.symm.trans hop)
    have hless' : clerk.requestId + 1 < b.op.requestId := by
      have hnumber' : (clerk.nextRequest.args request).requestId = clerk.requestId + 1 :=
        hnumber
      rw [← hnumber']
      exact hless
    exact absurd (Int.lt_add_one_of_le hbound) (not_lt.mpr hless'.le)
  constructor
  · apply h.order.issue
    intro a ha
    rcases issued_append_cases (invoke_calls σ client clerk request) ha with hold | rfl
    · exact Or.inl hold
    · exact Or.inr fun b hb => hnew b (hauthentic.committed b hb)
  · intro a b ha hb hprecedes
    rcases issued_append_cases (invoke_calls σ client clerk request) hb with hbold | rfl
    · rcases issued_append_cases (invoke_calls σ client clerk request) ha with haold | rfl
      · exact h.earlier a b haold hbold hprecedes
      · exact absurd hprecedes (hnew b hbold)
    · rcases issued_append_cases (invoke_calls σ client clerk request) ha with haold | rfl
      · exact committed_of_idle hsequential hauthentic hreturned hx rfl haold
          (hprecedes.1.trans hop)
      · exact absurd hprecedes.2 (lt_irrefl _)

/-!
# Going on with a call
-/

/-- A clerk may note a leader, and its client another call. -/
theorem Numbered.setClient {σ σ' : Service n} (h : Numbered σ) {client : Nat}
    {x : Client n} (hclient : σ.clients[client]? = some x) (x' : Client n)
    (hid : x'.clerk.clientId = x.clerk.clientId)
    (hnumber : x'.clerk.requestId = x.clerk.requestId)
    (hclients : σ'.clients = σ.clients.set client x') (hcalls : σ'.calls = σ.calls) :
    Numbered σ' := by
  have hx := List.mem_of_getElem? hclient
  have hids := map_set_same (f := fun x : Client n => x.clerk.clientId) hclient hid
  constructor
  · rw [hclients, hids]
    exact h.ids
  · intro op hop
    rw [hcalls] at hop
    rcases h.known op hop with ⟨y, hy, hknown⟩
    have hmem : op.clientId ∈ σ.clients.map fun x => x.clerk.clientId :=
      List.mem_map.mpr ⟨y, hy, hknown⟩
    rw [← hids, ← hclients] at hmem
    exact List.mem_map.mp hmem
  · intro y hy op hop hsame
    rw [hclients] at hy
    rw [hcalls] at hop
    rcases mem_set_nodup h.ids hclient hy with rfl | ⟨hold, _⟩
    · rw [hnumber]
      exact h.bound x hx op hop (hsame.trans hid)
    · exact h.bound y hold op hop hsame
  · rw [hcalls]
    exact h.increasing

/-- The next handler call of a clerk is for the call it waited for. -/
theorem Sequential.send {σ : Service n} (h : Sequential σ) (hnumbered : Numbered σ)
    {client : Nat} {clerk : Clerk n} {attempt : Attempt n}
    (hcurrent : σ.current client = some (clerk, attempt)) (server : Fin n) :
    Sequential (σ.send client clerk attempt.entry server) := by
  rcases current_eq_some hcurrent with ⟨a, hclient, hattempt⟩
  intro y hy entry hentry hid
  rcases mem_set_nodup hnumbered.ids hclient hy with rfl | ⟨hold, _⟩
  · rcases h _ (List.mem_of_getElem? hclient) entry hentry hid with
      hreturned | ⟨b, other, hwaits, hother, hsame⟩
    · exact Or.inl hreturned
    · cases hwaits
      rw [hattempt] at hother
      cases hother
      right
      exact ⟨_, _, rfl, List.getElem?_concat_length, hsame⟩
  · rcases h y hold entry hentry hid with hreturned | ⟨b, other, hwaits, hother, hsame⟩
    · exact Or.inl hreturned
    · right
      refine ⟨b, other, hwaits, ?_, hsame⟩
      exact getElem?_append_found hother _

theorem Sequential.finish {σ : Service n} (h : Sequential σ) (hnumbered : Numbered σ)
    {client : Nat} {clerk : Clerk n} {attempt : Attempt n}
    (hcurrent : σ.current client = some (clerk, attempt)) (recentLeaderId : Fin n)
    (value : Bytes) :
    Sequential (σ.finish client clerk attempt.entry.call recentLeaderId value) := by
  rcases current_eq_some hcurrent with ⟨a, hclient, hattempt⟩
  have hreturned : (σ.finish client clerk attempt.entry.call recentLeaderId value).returned.map
      Prod.fst = σ.returned.map Prod.fst ++ [attempt.entry.call] := by
    rw [Service.finish, List.map_append]
    rfl
  intro y hy entry hentry hid
  rw [hreturned]
  rcases mem_set_nodup hnumbered.ids hclient hy with rfl | ⟨hold, _⟩
  · left
    rcases h _ (List.mem_of_getElem? hclient) entry hentry hid with
      hdone | ⟨b, other, hwaits, hother, rfl⟩
    · exact List.mem_append_left _ hdone
    · cases hwaits
      rw [hattempt] at hother
      cases hother
      exact List.mem_append_right _ (List.mem_singleton_self _)
  · rcases h y hold entry hentry hid with hdone | hwaits
    · exact Or.inl (List.mem_append_left _ hdone)
    · exact Or.inr hwaits

/-- A handler step leaves every call with its entry. -/
theorem Sequential.handled {σ : Service n} (h : Sequential σ) {a : Nat}
    {attempt : Attempt n} (hattempt : σ.attempts[a]? = some attempt)
    (action : HandlerAction) (kv : KvServer) (phase : Phase) :
    Sequential (σ.handled a attempt action kv phase) := by
  intro y hy entry hentry hid
  rcases h y hy entry hentry hid with hdone | ⟨b, other, hwaits, hother, hsame⟩
  · exact Or.inl hdone
  · right
    by_cases hb : a = b
    · rw [← hb, hattempt] at hother
      cases hother
      refine ⟨b, { attempt with phase := phase }, hwaits, ?_, hsame⟩
      rw [← hb]
      exact getElem?_set_found hattempt _
    · refine ⟨b, other, hwaits, ?_, hsame⟩
      exact (List.getElem?_set_ne hb).trans hother

theorem Authentic.send {σ : Service n} (h : Authentic σ) (client : Nat) (clerk : Clerk n)
    {entry : Entry} (hentry : σ.Issued entry) (server : Fin n) :
    Authentic (σ.send client clerk entry server) where
  attempts attempt hattempt := by
    rcases List.mem_append.mp hattempt with hold | hnew
    · exact h.attempts attempt hold
    · rw [List.mem_singleton.mp hnew]
      exact hentry
  proposals := h.proposals
  committed := h.committed

theorem Authentic.handled {σ : Service n} (h : Authentic σ) {a : Nat} {attempt : Attempt n}
    (hattempt : σ.attempts[a]? = some attempt) (action : HandlerAction) (kv : KvServer)
    (phase : Phase) : Authentic (σ.handled a attempt action kv phase) where
  attempts other hother := by
    rcases List.mem_or_eq_of_mem_set hother with hold | rfl
    · exact h.attempts other hold
    · exact h.attempts attempt (List.mem_of_getElem? hattempt)
  proposals entry raftIndex hproposal := by
    rcases List.mem_append.mp hproposal with hold | hnew
    · exact h.proposals entry raftIndex hold
    · unfold proposed at hnew
      split at hnew
      · cases List.mem_singleton.mp hnew
        exact h.attempts attempt (List.mem_of_getElem? hattempt)
      · cases hnew
  committed := h.committed

/-!
# Committing
-/

theorem Authentic.commit {σ : Service n} (h : Authentic σ) {entry : Entry}
    {raftIndex : Int} (hproposal : (entry, raftIndex) ∈ σ.proposals) :
    Authentic { σ with committed := σ.committed ++ [entry] } where
  attempts := h.attempts
  proposals := h.proposals
  committed other hother := by
    rcases List.mem_append.mp hother with hold | hnew
    · exact h.committed other hold
    · rw [List.mem_singleton.mp hnew]
      exact h.proposals entry raftIndex hproposal

theorem InSequence.commit {σ : Service n} (h : InSequence σ) (hauthentic : Authentic σ)
    {entry : Entry} {raftIndex : Int} (hproposal : (entry, raftIndex) ∈ σ.proposals) :
    InSequence { σ with committed := σ.committed ++ [entry] } where
  order := by
    apply h.order.concat
    intro a ha hprecedes
    exact h.earlier a entry ha (hauthentic.proposals entry raftIndex hproposal) hprecedes
  earlier a b ha hb hprecedes := List.mem_append_left _ (h.earlier a b ha hb hprecedes)

end Service
end RaftClerk
end KVRaft
