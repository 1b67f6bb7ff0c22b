import Mathlib.Data.Int.Order.Basic
import Mathlib.Data.List.Basic
import Mathlib.Data.List.Induction

/-!
# Deliveries without gaps

A consumer receives commands with indices, and snapshots that stand for all
commands up to an index.  A sequence of deliveries has no gap when everything
below a command comes before it, as a command or within a snapshot.
-/

namespace KVRaft
namespace Foundation

/-- Splitting a list that ends in a known element. -/
theorem split_concat {α : Type} {items earlier later : List α} {a b : α}
    (h : items ++ [a] = earlier ++ b :: later) :
    (items = earlier ∧ a = b) ∨
      exists rest, later = rest ++ [a] ∧ items = earlier ++ b :: rest := by
  rcases List.eq_nil_or_concat later with rfl | ⟨rest, c, rfl⟩
  · left
    have heq := List.append_inj' h rfl
    exact ⟨heq.1, List.cons.inj heq.2 |>.1⟩
  · right
    rw [List.concat_eq_append, ← List.cons_append, ← List.append_assoc] at h
    have heq := List.append_inj' h rfl
    rw [List.concat_eq_append]
    exact ⟨rest, by rw [(List.cons.inj heq.2).1], heq.1⟩

/-- Each element fits what comes before it. -/
def EachFits {α : Type} (Fits : List α -> α -> Prop) (items : List α) : Prop :=
  forall earlier b later, items = earlier ++ b :: later -> Fits earlier b

section

variable {α : Type} {Fits : List α -> α -> Prop} {items : List α} {b : α}

theorem EachFits.nil : EachFits Fits [] := by
  intro earlier b later h
  cases earlier with
  | nil => cases h
  | cons c rest => cases h

theorem EachFits.concat (h : EachFits Fits items) (hb : Fits items b) :
    EachFits Fits (items ++ [b]) := by
  intro earlier c later hsplit
  rcases split_concat hsplit with ⟨rfl, rfl⟩ | ⟨rest, _, hold⟩
  · exact hb
  · exact h earlier c rest hold

theorem EachFits.of_concat (h : EachFits Fits (items ++ [b])) : EachFits Fits items := by
  intro earlier c later hsplit
  apply h earlier c (later ++ [b])
  rw [hsplit, List.append_assoc]
  rfl

theorem EachFits.last (h : EachFits Fits (items ++ [b])) : Fits items b :=
  h items b [] rfl

end

inductive Delivery (ι : Type) where
  | command (k : ι)
  | snapshot (s : ι)
  deriving DecidableEq, Repr

namespace Delivery

variable {ι : Type}

def index : Delivery ι -> ι
  | .command k => k
  | .snapshot s => s

variable [LE ι]

/-- An index that a sequence of deliveries accounts for. -/
def Covers (deliveries : List (Delivery ι)) (j : ι) : Prop :=
  .command j ∈ deliveries ∨ exists s, .snapshot s ∈ deliveries ∧ j ≤ s

theorem Covers.mono {ds es : List (Delivery ι)} {j : ι} (h : Covers ds j)
    (hsub : forall d, d ∈ ds -> d ∈ es) : Covers es j := by
  rcases h with hcommand | ⟨s, hsnapshot, hle⟩
  · exact Or.inl (hsub _ hcommand)
  · exact Or.inr ⟨s, hsub _ hsnapshot, hle⟩

theorem Covers.append_left {ds : List (Delivery ι)} {j : ι} (h : Covers ds j)
    (es : List (Delivery ι)) : Covers (ds ++ es) j :=
  h.mono fun _ hd => List.mem_append_left es hd

theorem covers_command {ds : List (Delivery ι)} (k : ι) : Covers (ds ++ [.command k]) k :=
  Or.inl (List.mem_append_right ds (List.mem_singleton_self _))

theorem covers_snapshot {ds : List (Delivery ι)} {j s : ι} (h : j ≤ s) :
    Covers (ds ++ [.snapshot s]) j :=
  Or.inr ⟨s, List.mem_append_right ds (List.mem_singleton_self _), h⟩

variable [LT ι]

/-- Nothing from `first` on is missing below a command when it comes. -/
def GapFree (first : ι) (deliveries : List (Delivery ι)) : Prop :=
  forall earlier k later, deliveries = earlier ++ .command k :: later ->
    forall j, first ≤ j -> j < k -> Covers earlier j

theorem GapFree.nil (first : ι) : GapFree first [] := by
  intro earlier k later h
  cases earlier with
  | nil => cases h
  | cons d rest => cases h

theorem GapFree.concat {first : ι} {ds : List (Delivery ι)} (h : GapFree first ds)
    {d : Delivery ι}
    (hnew : forall k, d = .command k -> forall j, first ≤ j -> j < k -> Covers ds j) :
    GapFree first (ds ++ [d]) := by
  intro earlier k later hsplit
  rcases split_concat hsplit with ⟨rfl, hd⟩ | ⟨rest, _, hold⟩
  · exact hnew k hd
  · exact h earlier k rest hold

variable [Std.IsPartialOrder ι] [Std.LawfulOrderLT ι]

/-- Without gaps, whatever lies below a delivery is accounted for. -/
theorem GapFree.covers {first : ι} {ds : List (Delivery ι)} (h : GapFree first ds)
    {d : Delivery ι} (hd : d ∈ ds) {j : ι} (hlo : first ≤ j) (hhi : j ≤ d.index) :
    Covers ds j := by
  cases d with
  | snapshot s => exact Or.inr ⟨s, hd, hhi⟩
  | command k =>
      by_cases heq : j = k
      · rw [heq]
        exact Or.inl hd
      · rcases List.append_of_mem hd with ⟨earlier, later, rfl⟩
        exact (h earlier k later rfl j hlo (Std.lt_of_le_of_ne hhi heq)).append_left _

/-!
# Deliveries in sequence
-/

/-- The highest index that the deliveries reach, from `start` on. -/
def reached (start : Int) (deliveries : List (Delivery Int)) : Int :=
  deliveries.foldl (fun top d => max top d.index) start

/-- Every command is the next one after all that was delivered before it. -/
def InSequence (start : Int) (deliveries : List (Delivery Int)) : Prop :=
  EachFits (fun earlier d => forall k, d = .command k -> k = reached start earlier + 1)
    deliveries

section

variable {start : Int} {ds : List (Delivery Int)}

theorem reached_concat (d : Delivery Int) :
    reached start (ds ++ [d]) = max (reached start ds) d.index := by
  rw [reached, List.foldl_append]
  rfl

theorem index_le_reached {d : Delivery Int} (h : d ∈ ds) : d.index ≤ reached start ds := by
  induction ds using List.reverseRecOn with
  | nil => cases h
  | append_singleton ds e ih =>
      rw [reached_concat]
      rcases List.mem_append.mp h with hold | hlast
      · exact le_trans (ih hold) (le_max_left _ _)
      · rw [List.mem_singleton.mp hlast]
        exact le_max_right _ _

theorem InSequence.nil (start : Int) : InSequence start [] :=
  EachFits.nil

theorem InSequence.command (h : InSequence start ds) :
    InSequence start (ds ++ [.command (reached start ds + 1)]) := by
  apply EachFits.concat h
  intro k hk
  cases hk
  rfl

theorem InSequence.snapshot (h : InSequence start ds) (s : Int) :
    InSequence start (ds ++ [.snapshot s]) := by
  apply EachFits.concat h
  intro k hk
  cases hk

theorem reached_command (start : Int) (ds : List (Delivery Int)) :
    reached start (ds ++ [.command (reached start ds + 1)]) = reached start ds + 1 := by
  rw [reached_concat]
  exact max_eq_right (Int.le_add_one (le_refl _))

/-- A command comes above everything before it. -/
theorem InSequence.pairwise (h : InSequence start ds) :
    ds.Pairwise fun a b => forall k, b = .command k -> a.index < k := by
  induction ds using List.reverseRecOn with
  | nil => exact List.Pairwise.nil
  | append_singleton ds d ih =>
      apply List.pairwise_append.mpr
      refine ⟨ih (EachFits.of_concat h), List.pairwise_singleton _ _, ?_⟩
      intro a ha b hb k hk
      rw [List.mem_singleton.mp hb] at hk
      rw [EachFits.last h k hk]
      exact Int.lt_add_one_of_le (index_le_reached ha)

/-- Between a command and the next there is no gap, except for snapshots, which all lie
below the next. -/
theorem InSequence.next (h : InSequence start ds) {earlier between later : List (Delivery Int)}
    {k k' : Int}
    (hsplit : ds = earlier ++ .command k :: (between ++ .command k' :: later)) :
    (between = [] -> k' = k + 1) ∧ forall d, d ∈ between -> d.index < k' := by
  have hfirst := h earlier (.command k) _ hsplit k rfl
  have hsecond := h (earlier ++ .command k :: between) (.command k') later
    (by rw [hsplit, List.append_assoc, List.cons_append]) k' rfl
  constructor
  · rintro rfl
    rw [hsecond, hfirst, reached_command]
  · intro d hd
    rw [hsecond]
    exact Int.lt_add_one_of_le
      (index_le_reached (List.mem_append_right earlier (List.mem_cons_of_mem _ hd)))

end

end Delivery
end Foundation
end KVRaft
