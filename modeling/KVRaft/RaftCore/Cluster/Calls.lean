import Mathlib.Data.Fintype.Card
import Mathlib.Data.Fintype.Basic
import Mathlib.Logic.Function.Basic
import KVRaft.Foundation.Lists

/-!
# Calls in flight

A remote call is made, answered by its callee and, perhaps much later, returned
to the thread that made it.  Calls made by one loop share a counter of their
caller.  A call that is never answered or never returned is a lost message, so
the list of calls only gets longer.
-/

namespace KVRaft
namespace RaftCore

open Foundation (getElem?_concat_cases getElem?_set_cases mem_set_found mem_set_of_ne)

inductive Phase (Reply : Type) where
  | requested
  | replied (reply : Reply)
  | returned (reply : Reply)
  deriving DecidableEq, Repr

structure Call (n : Nat) (Args Reply : Type) where
  caller : Fin n
  callee : Fin n
  args : Args
  counter : Nat
  phase : Phase Reply
  deriving DecidableEq, Repr

namespace Call

variable {n : Nat} {Args Reply : Type}

/-- The callee has produced this reply. -/
def Answered (call : Call n Args Reply) (reply : Reply) : Prop :=
  call.phase = .replied reply ∨ call.phase = .returned reply

def answer (call : Call n Args Reply) (reply : Reply) : Call n Args Reply :=
  { call with phase := .replied reply }

def finish (call : Call n Args Reply) (reply : Reply) : Call n Args Reply :=
  { call with phase := .returned reply }

@[simp] theorem answered_answer (call : Call n Args Reply) (reply r : Reply) :
    (call.answer reply).Answered r <-> r = reply := by
  simp [Answered, answer, eq_comm]

@[simp] theorem answered_finish (call : Call n Args Reply) (reply r : Reply) :
    (call.finish reply).Answered r <-> r = reply := by
  simp [Answered, finish, eq_comm]

end Call

section

variable {n : Nat} {Args Reply : Type}

/-- One loop calls each peer at most once. -/
def Distinct (calls : List (Call n Args Reply)) : Prop :=
  forall (j k : Nat) (c d : Call n Args Reply), calls[j]? = some c ->
    calls[k]? = some d -> c.caller = d.caller -> c.counter = d.counter ->
    c.callee = d.callee -> j = k

/-- The peers whose good replies a loop's threads have seen. -/
noncomputable def tally (calls : List (Call n Args Reply)) (good : Reply -> Bool)
    (caller : Fin n) (counter : Nat) : Finset (Fin n) := by
  classical
  exact Finset.univ.filter fun callee =>
    exists c, c ∈ calls ∧ c.caller = caller ∧ c.counter = counter ∧
      c.callee = callee ∧ exists reply, c.phase = .returned reply ∧ good reply = true

theorem mem_tally {calls : List (Call n Args Reply)} {good : Reply -> Bool}
    {caller callee : Fin n} {counter : Nat} :
    callee ∈ tally calls good caller counter <->
      exists c, c ∈ calls ∧ c.caller = caller ∧ c.counter = counter ∧
        c.callee = callee ∧
        exists reply, c.phase = .returned reply ∧ good reply = true := by
  simp [tally]

/-- Two stages of one call. -/
structure SameCall (c d : Call n Args Reply) : Prop where
  caller : c.caller = d.caller
  callee : c.callee = d.callee
  counter : c.counter = d.counter
  args : c.args = d.args

/-- Every call of a list with one call moved on was there before, and but for
that call it has not changed. -/
theorem mem_set_back {calls : List (Call n Args Reply)} {k : Nat}
    {c d e : Call n Args Reply} (hk : calls[k]? = some c) (hcd : SameCall c d)
    (he : e ∈ calls.set k d) : exists e', e' ∈ calls ∧ SameCall e' e ∧ (e = d ∨ e' = e) := by
  rcases List.mem_or_eq_of_mem_set he with hin | heq
  · exact ⟨e, hin, ⟨rfl, rfl, rfl, rfl⟩, Or.inr rfl⟩
  · rw [heq]
    exact ⟨c, List.mem_of_getElem? hk, hcd, Or.inl rfl⟩

theorem sameCall_answer (c : Call n Args Reply) (reply : Reply) :
    SameCall c (c.answer reply) :=
  ⟨rfl, rfl, rfl, rfl⟩

theorem sameCall_finish (c : Call n Args Reply) (reply : Reply) :
    SameCall c (c.finish reply) :=
  ⟨rfl, rfl, rfl, rfl⟩

theorem Distinct.set {calls : List (Call n Args Reply)} (h : Distinct calls) {k : Nat}
    {c d : Call n Args Reply} (hk : calls[k]? = some c) (hcd : SameCall c d) :
    Distinct (calls.set k d) := by
  -- the replaced call still carries the same three names
  have hback : forall {j : Nat} {e : Call n Args Reply}, (calls.set k d)[j]? = some e ->
      exists e', calls[j]? = some e' ∧ e'.caller = e.caller ∧
        e'.counter = e.counter ∧ e'.callee = e.callee := by
    intro j e he
    rcases getElem?_set_cases he with ⟨rfl, rfl⟩ | ⟨_, hold⟩
    · exact ⟨c, hk, hcd.caller, hcd.counter, hcd.callee⟩
    · exact ⟨e, hold, rfl, rfl, rfl⟩
  intro i j e f he hf h1 h2 h3
  rcases hback he with ⟨e', he', a1, a2, a3⟩
  rcases hback hf with ⟨f', hf', b1, b2, b3⟩
  exact h i j e' f' he' hf' (by rw [a1, b1, h1]) (by rw [a2, b2, h2])
    (by rw [a3, b3, h3])

/-- New calls of one loop with a fresh counter keep the list distinct. -/
theorem Distinct.append {calls news : List (Call n Args Reply)} (h : Distinct calls)
    (caller : Fin n) (counter : Nat)
    (hfresh : forall c, c ∈ calls -> c.caller = caller -> c.counter < counter)
    (hnew : forall c, c ∈ news -> c.caller = caller ∧ c.counter = counter)
    (hnodup : (news.map Call.callee).Nodup) : Distinct (calls ++ news) := by
  have hcross : forall {c d : Call n Args Reply}, c ∈ calls -> d ∈ news ->
      c.caller = d.caller -> c.counter = d.counter -> False := by
    intro c d hc hd hcd heq
    have hlt := hfresh c hc (hcd.trans (hnew d hd).1)
    rw [heq, (hnew d hd).2] at hlt
    exact absurd hlt (Nat.lt_irrefl _)
  have hinj : forall {j k : Nat} {c d : Call n Args Reply}, news[j]? = some c ->
      news[k]? = some d -> c.callee = d.callee -> j = k := by
    intro j k c d hc hd heq
    have hj : (news.map Call.callee)[j]? = some c.callee := by
      rw [List.getElem?_map, hc]
      rfl
    have hk : (news.map Call.callee)[k]? = some c.callee := by
      rw [List.getElem?_map, hd, heq]
      rfl
    have hlt := (List.getElem?_eq_some_iff.mp hj).1
    exact (List.getElem?_inj hlt hnodup).mp (hj.trans hk.symm)
  intro j k c d hc hd h1 h2 h3
  rcases lt_or_ge j calls.length with hj | hj
  · rw [List.getElem?_append_left hj] at hc
    rcases lt_or_ge k calls.length with hk | hk
    · rw [List.getElem?_append_left hk] at hd
      exact h j k c d hc hd h1 h2 h3
    · rw [List.getElem?_append_right hk] at hd
      exact (hcross (List.mem_of_getElem? hc) (List.mem_of_getElem? hd) h1 h2).elim
  · rw [List.getElem?_append_right hj] at hc
    rcases lt_or_ge k calls.length with hk | hk
    · rw [List.getElem?_append_left hk] at hd
      exact (hcross (List.mem_of_getElem? hd) (List.mem_of_getElem? hc) h1.symm
        h2.symm).elim
    · rw [List.getElem?_append_right hk] at hd
      have := hinj hc hd h3
      omega

/-- Each call that has been answered well stays so when one call moves on. -/
theorem answered_back {calls : List (Call n Args Reply)} {k : Nat}
    {c e : Call n Args Reply} {reply r : Reply} (hphase : c.phase = .replied reply)
    (hk : calls[k]? = some c) (he : e ∈ calls.set k (c.finish reply))
    (hr : e.Answered r) : exists e', e' ∈ calls ∧ SameCall e' e ∧ e'.Answered r := by
  rcases mem_set_back hk (sameCall_finish c reply) he with ⟨e', he', hsame, heq | heq⟩
  · rw [heq, Call.answered_finish] at hr
    rw [heq, hr]
    exact ⟨c, List.mem_of_getElem? hk, sameCall_finish c reply, Or.inl hphase⟩
  · rw [heq] at he' hsame
    exact ⟨e, he', hsame, hr⟩

/-!
# Shared counters
-/

/-- One more counter, starting at 1. -/
def addCounter (counters : Fin n -> List Nat) (i : Fin n) : Fin n -> List Nat :=
  Function.update counters i (counters i ++ [1])

def setCounter (counters : Fin n -> List Nat) (i : Fin n) (k v : Nat) : Fin n -> List Nat :=
  Function.update counters i ((counters i).set k v)

theorem addCounter_length (counters : Fin n -> List Nat) (i j : Fin n) :
    (counters j).length ≤ (addCounter counters i j).length := by
  unfold addCounter
  by_cases hj : j = i
  · rw [hj, Function.update_self, List.length_append]
    exact Nat.le_add_right _ _
  · rw [Function.update_of_ne hj]

theorem addCounter_self (counters : Fin n -> List Nat) (i : Fin n) :
    (addCounter counters i i).length = (counters i).length + 1 := by
  rw [addCounter, Function.update_self, List.length_append, List.length_singleton]

theorem addCounter_get {counters : Fin n -> List Nat} {i j : Fin n} {k v : Nat}
    (hv : (addCounter counters i j)[k]? = some v) :
    (counters j)[k]? = some v ∨ (j = i ∧ k = (counters i).length ∧ v = 1) := by
  unfold addCounter at hv
  by_cases hj : j = i
  · rw [hj, Function.update_self] at hv
    rcases getElem?_concat_cases hv with hold | ⟨hk, hnew⟩
    · rw [hj]
      exact Or.inl hold
    · exact Or.inr ⟨hj, hk, hnew⟩
  · rw [Function.update_of_ne hj] at hv
    exact Or.inl hv

theorem setCounter_length (counters : Fin n -> List Nat) (i j : Fin n) (k v : Nat) :
    (setCounter counters i k v j).length = (counters j).length := by
  unfold setCounter
  by_cases hj : j = i
  · rw [hj, Function.update_self, List.length_set]
  · rw [Function.update_of_ne hj]

theorem setCounter_self {counters : Fin n -> List Nat} {i : Fin n} {k v : Nat}
    (hk : k < (counters i).length) : (setCounter counters i k v i)[k]? = some v := by
  rw [setCounter, Function.update_self, List.getElem?_set_self hk]

theorem counter_getD {counters : Fin n -> List Nat} {i : Fin n} {k : Nat}
    (hk : k < (counters i).length) :
    (counters i)[k]? = some ((counters i).getD k 0) := by
  rw [List.getD_eq_getElem?_getD, List.getElem?_eq_getElem hk]
  rfl

theorem setCounter_get {counters : Fin n -> List Nat} {i j : Fin n} {k m v v' : Nat}
    (hv : (setCounter counters i k v' j)[m]? = some v) :
    (j = i ∧ m = k ∧ v = v') ∨ (counters j)[m]? = some v := by
  unfold setCounter at hv
  by_cases hj : j = i
  · rw [hj, Function.update_self] at hv
    rcases getElem?_set_cases hv with ⟨hm, hnew⟩ | ⟨_, hold⟩
    · exact Or.inl ⟨hj, hm, hnew⟩
    · rw [hj]
      exact Or.inr hold
  · rw [Function.update_of_ne hj] at hv
    exact Or.inr hv

/-!
# How a tally changes
-/

variable {calls : List (Call n Args Reply)} {good : Reply -> Bool} {caller : Fin n}
  {counter k : Nat} {c : Call n Args Reply} {reply : Reply}

theorem tally_append {news : List (Call n Args Reply)}
    (hnew : forall d, d ∈ news -> d.phase = .requested) :
    tally (calls ++ news) good caller counter = tally calls good caller counter := by
  ext callee
  rw [mem_tally, mem_tally]
  constructor
  · rintro ⟨d, hd, h1, h2, h3, r, hr, hgood⟩
    rcases List.mem_append.mp hd with hold | hin
    · exact ⟨d, hold, h1, h2, h3, r, hr, hgood⟩
    · rw [hnew d hin] at hr
      cases hr
  · rintro ⟨d, hd, hrest⟩
    exact ⟨d, List.mem_append_left _ hd, hrest⟩

/-- A call that had not returned before does not leave a tally. -/
theorem tally_subset {d : Call n Args Reply} (hk : calls[k]? = some c)
    (hphase : forall r, c.phase ≠ .returned r) :
    tally calls good caller counter ⊆ tally (calls.set k d) good caller counter := by
  intro callee hcallee
  rcases mem_tally.mp hcallee with ⟨e, he, h1, h2, h3, r, hr, hgood⟩
  have hne : e ≠ c := by
    intro heq
    rw [heq] at hr
    exact hphase r hr
  exact mem_tally.mpr ⟨e, mem_set_of_ne hk he hne _, h1, h2, h3, r, hr, hgood⟩

theorem tally_answer (hk : calls[k]? = some c) (hphase : c.phase = .requested) :
    tally (calls.set k (c.answer reply)) good caller counter =
      tally calls good caller counter := by
  apply Finset.Subset.antisymm
  · intro callee hcallee
    rcases mem_tally.mp hcallee with ⟨e, he, h1, h2, h3, r, hr, hgood⟩
    rcases List.mem_or_eq_of_mem_set he with hold | hnew
    · exact mem_tally.mpr ⟨e, hold, h1, h2, h3, r, hr, hgood⟩
    · rw [hnew] at hr
      cases hr
  · exact tally_subset hk (by intro r hr; rw [hphase] at hr; cases hr)

theorem tally_finish_subset (hk : calls[k]? = some c) (hphase : c.phase = .replied reply) :
    tally calls good caller counter ⊆
      tally (calls.set k (c.finish reply)) good caller counter :=
  tally_subset hk (by intro r hr; rw [hphase] at hr; cases hr)

theorem tally_finish_le (hk : calls[k]? = some c) (hphase : c.phase = .replied reply) :
    (tally calls good caller counter).card ≤
      (tally (calls.set k (c.finish reply)) good caller counter).card :=
  Finset.card_le_card (tally_finish_subset hk hphase)

/-- A good reply adds its callee to the tally of its own loop. -/
theorem tally_finish_card (hdist : Distinct calls) (hk : calls[k]? = some c)
    (hphase : c.phase = .replied reply) (hgood : good reply = true) :
    (tally calls good c.caller c.counter).card + 1 ≤
      (tally (calls.set k (c.finish reply)) good c.caller c.counter).card := by
  have hnot : c.callee ∉ tally calls good c.caller c.counter := by
    intro hmem
    rcases mem_tally.mp hmem with ⟨e, he, h1, h2, h3, r, hr, _⟩
    rcases List.mem_iff_getElem?.mp he with ⟨j, hj⟩
    have hjk := hdist j k e c hj hk h1 h2 h3
    rw [hjk, hk] at hj
    rw [← Option.some.inj hj, hphase] at hr
    cases hr
  have hin : c.callee ∈
      tally (calls.set k (c.finish reply)) good c.caller c.counter :=
    mem_tally.mpr ⟨c.finish reply, mem_set_found hk _, rfl, rfl, rfl, reply, rfl, hgood⟩
  rw [← Finset.card_insert_of_notMem hnot]
  exact Finset.card_le_card (Finset.insert_subset hin (tally_finish_subset hk hphase))

end

end RaftCore
end KVRaft
