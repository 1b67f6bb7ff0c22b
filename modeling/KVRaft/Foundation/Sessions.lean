import KVRaft.Foundation.Coverage
import Mathlib.Data.List.Induction
import Mathlib.Data.List.Nodup

/-!
# Numbered requests

Sessions number their requests, and a log puts the requests in one order, perhaps
several times.  A consumer of the log keeps for each session the number of a last
request.  As long as every request comes before the later ones of its session,
that number tells the requests seen before from the new ones.
-/

namespace KVRaft
namespace Foundation

/-!
# Verdicts

A history lists what a consumer has gone past, each request with the verdict that
it was a duplicate.  Requests that are not recorded are passed over in any case.
-/

namespace History

variable {ρ : Type}

def seen (history : List (ρ × Bool)) : List ρ :=
  history.map Prod.fst

def executed (Recorded : ρ -> Prop) [DecidablePred Recorded] (history : List (ρ × Bool)) :
    List ρ :=
  (history.filter fun p => p.2 = false ∧ Recorded p.1).map Prod.fst

/-- A recorded request counts as a duplicate just when it was seen before. -/
def Judged (Recorded : ρ -> Prop) (history : List (ρ × Bool)) : Prop :=
  forall earlier p later, history = earlier ++ p :: later -> Recorded p.1 ->
    (p.2 = true <-> p.1 ∈ seen earlier)

variable {Recorded : ρ -> Prop} {history : List (ρ × Bool)}

theorem seen_concat (p : ρ × Bool) : seen (history ++ [p]) = seen history ++ [p.1] := by
  rw [seen, List.map_append]
  rfl

theorem Judged.nil : Judged Recorded [] := by
  intro earlier p later h
  cases earlier with
  | nil => cases h
  | cons q rest => cases h

theorem Judged.concat (h : Judged Recorded history) {p : ρ × Bool}
    (hp : Recorded p.1 -> (p.2 = true <-> p.1 ∈ seen history)) :
    Judged Recorded (history ++ [p]) := by
  intro earlier q later hsplit
  rcases split_concat hsplit with ⟨rfl, rfl⟩ | ⟨rest, _, hold⟩
  · exact hp
  · exact h earlier q rest hold

theorem Judged.of_concat {p : ρ × Bool} (h : Judged Recorded (history ++ [p])) :
    Judged Recorded history := by
  intro earlier q later hsplit
  apply h earlier q (later ++ [p])
  rw [hsplit, List.append_assoc]
  rfl

theorem Judged.of_prefix {earlier : List (ρ × Bool)} (h : Judged Recorded history)
    (hpart : earlier <+: history) : Judged Recorded earlier := by
  rcases hpart with ⟨rest, rfl⟩
  intro before q later hsplit
  apply h before q (later ++ rest)
  rw [hsplit, List.append_assoc]
  rfl

theorem Judged.last {p : ρ × Bool} (h : Judged Recorded (history ++ [p]))
    (hp : Recorded p.1) : p.2 = true <-> p.1 ∈ seen history :=
  h history p [] rfl hp

section

variable [DecidablePred Recorded]

theorem executed_concat_skip {p : ρ × Bool} (h : ¬ (p.2 = false ∧ Recorded p.1)) :
    executed Recorded (history ++ [p]) = executed Recorded history := by
  rw [executed, List.filter_append, List.filter_singleton, decide_eq_false h]
  rw [cond_false, List.append_nil, executed]

theorem executed_concat_execute {p : ρ × Bool} (h : p.2 = false ∧ Recorded p.1) :
    executed Recorded (history ++ [p]) = executed Recorded history ++ [p.1] := by
  rw [executed, List.filter_append, List.filter_singleton, decide_eq_true h]
  rw [cond_true, List.map_append, executed]
  rfl

theorem executed_seen {a : ρ} (h : a ∈ executed Recorded history) : a ∈ seen history := by
  rcases List.mem_map.mp h with ⟨p, hp, rfl⟩
  exact List.mem_map.mpr ⟨p, (List.mem_filter.mp hp).1, rfl⟩

/-- Nothing is executed twice. -/
theorem Judged.nodup (h : Judged Recorded history) : (executed Recorded history).Nodup := by
  induction history using List.reverseRecOn with
  | nil => exact List.nodup_nil
  | append_singleton history p ih =>
      by_cases hrun : p.2 = false ∧ Recorded p.1
      · rw [executed_concat_execute hrun, ← List.concat_eq_append]
        apply (ih h.of_concat).concat
        intro hmem
        have hdup := (h.last hrun.2).mpr (executed_seen hmem)
        rw [hrun.1] at hdup
        cases hdup
      · rw [executed_concat_skip hrun]
        exact ih h.of_concat

/-- Every recorded request that was seen has been executed. -/
theorem Judged.executed_of_seen (h : Judged Recorded history) {a : ρ} (ha : a ∈ seen history)
    (hrecorded : Recorded a) : a ∈ executed Recorded history := by
  induction history using List.reverseRecOn with
  | nil => cases ha
  | append_singleton history p ih =>
      rw [seen_concat] at ha
      by_cases hrun : p.2 = false ∧ Recorded p.1
      · rw [executed_concat_execute hrun]
        rcases List.mem_append.mp ha with hold | hnew
        · exact List.mem_append_left _ (ih h.of_concat hold)
        · exact List.mem_append_right _ hnew
      · rw [executed_concat_skip hrun]
        apply ih h.of_concat
        rcases List.mem_append.mp ha with hold | hnew
        · exact hold
        · rw [List.mem_singleton.mp hnew] at hrecorded ⊢
          apply (h.last hrecorded).mp
          cases hdup : p.2 with
          | true => rfl
          | false => exact absurd ⟨hdup, hrecorded⟩ hrun

end

/-- Two consumers of the same requests come to the same verdicts. -/
theorem Judged.agree {history' : List (ρ × Bool)} (h : Judged Recorded history)
    (h' : Judged Recorded history') (hseen : seen history = seen history') {k : Nat}
    {p q : ρ × Bool} (hp : history[k]? = some p) (hq : history'[k]? = some q)
    (hrecorded : Recorded p.1) : p = q := by
  have hsplit : forall {l : List (ρ × Bool)} {r : ρ × Bool}, l[k]? = some r ->
      l = l.take k ++ r :: l.drop (k + 1) := by
    intro l r hr
    rcases List.getElem?_eq_some_iff.mp hr with ⟨hk, rfl⟩
    rw [← List.drop_eq_getElem_cons hk, List.take_append_drop]
  have hfirst : some p.1 = some q.1 := by
    have hmap : (seen history)[k]? = (seen history')[k]? := by rw [hseen]
    rw [seen, seen, List.getElem?_map, List.getElem?_map, hp, hq] at hmap
    exact hmap
  have hsame : p.1 = q.1 := Option.some.inj hfirst
  have hbefore : seen (history.take k) = seen (history'.take k) := by
    rw [seen, seen, List.map_take, List.map_take]
    exact congrArg (List.take k) hseen
  have hverdict := h _ _ _ (hsplit hp) hrecorded
  have hverdict' := h' _ _ _ (hsplit hq) (hsame ▸ hrecorded)
  rw [hbefore, hsame, ← hverdict'] at hverdict
  exact Prod.ext hsame (Bool.eq_iff_iff.mpr hverdict)

/-- Two consumers of the same requests have executed the same ones. -/
theorem Judged.executed_eq [DecidablePred Recorded] {history' : List (ρ × Bool)}
    (h : Judged Recorded history) (h' : Judged Recorded history')
    (hseen : seen history = seen history') :
    executed Recorded history = executed Recorded history' := by
  induction history using List.reverseRecOn generalizing history' with
  | nil =>
      rw [List.map_eq_nil_iff.mp hseen.symm]
  | append_singleton history p ih =>
      rcases List.eq_nil_or_concat history' with rfl | ⟨rest, q, rfl⟩
      · rw [seen_concat] at hseen
        cases List.append_ne_nil_of_right_ne_nil _ (List.cons_ne_nil _ _) hseen
      · rw [List.concat_eq_append] at h' hseen ⊢
        rw [seen_concat, seen_concat] at hseen
        have hparts := List.append_inj' hseen rfl
        have hfirst : p.1 = q.1 := List.singleton_inj.mp hparts.2
        have hrest := ih h.of_concat h'.of_concat hparts.1
        by_cases hrecorded : Recorded p.1
        · have hlast : p.2 = true <-> q.2 = true := by
            rw [h.last hrecorded, h'.last (hfirst ▸ hrecorded), hparts.1, hfirst]
          have hsame : p = q := Prod.ext hfirst (Bool.eq_iff_iff.mpr hlast)
          rw [← hsame]
          by_cases hrun : p.2 = false ∧ Recorded p.1
          · rw [executed_concat_execute hrun, executed_concat_execute hrun, hrest]
          · rw [executed_concat_skip hrun, executed_concat_skip hrun, hrest]
        · rw [executed_concat_skip fun hrun => hrecorded hrun.2,
            executed_concat_skip fun hrun => hrecorded (hfirst ▸ hrun.2), hrest]

end History

structure Numbering (ρ κ ι : Type) where
  session : ρ -> κ
  number : ρ -> ι

namespace Numbering

variable {ρ κ ι : Type} (N : Numbering ρ κ ι)

/-- Session and number determine a request. -/
def Distinguishes (Issued : ρ -> Prop) : Prop :=
  forall a b, Issued a -> Issued b -> N.session a = N.session b ->
    N.number a = N.number b -> a = b

/-!
# Order within a session
-/

section

variable [LT ι]

def Precedes (a b : ρ) : Prop :=
  N.session a = N.session b ∧ N.number a < N.number b

/-- No request of the log comes before an earlier one of its session. -/
def InOrder (Issued : ρ -> Prop) (log : List ρ) : Prop :=
  forall earlier b later, log = earlier ++ b :: later ->
    forall a, Issued a -> N.Precedes a b -> a ∈ earlier

variable {N} {Issued : ρ -> Prop} {log : List ρ}

theorem InOrder.nil : N.InOrder Issued [] := by
  intro earlier b later h
  cases earlier with
  | nil => cases h
  | cons c rest => cases h

theorem InOrder.concat (h : N.InOrder Issued log) {b : ρ}
    (hnew : forall a, Issued a -> N.Precedes a b -> a ∈ log) :
    N.InOrder Issued (log ++ [b]) := by
  intro earlier c later hsplit a ha hprecedes
  rcases split_concat hsplit with ⟨rfl, rfl⟩ | ⟨rest, _, hold⟩
  · exact hnew a ha hprecedes
  · exact h earlier c rest hold a ha hprecedes

/-- A request that precedes none of the log may be issued. -/
theorem InOrder.issue (h : N.InOrder Issued log) {Issued' : ρ -> Prop}
    (hnew : forall a, Issued' a -> Issued a ∨ forall b, b ∈ log -> ¬ N.Precedes a b) :
    N.InOrder Issued' log := by
  intro earlier b later hsplit a ha hprecedes
  rcases hnew a ha with hold | hlast
  · exact h earlier b later hsplit a hold hprecedes
  · have hb : b ∈ log := by
      rw [hsplit]
      exact List.mem_append_right earlier List.mem_cons_self
    exact absurd hprecedes (hlast b hb)

end

/-!
# The table of last numbers
-/

section

/-- Every number in the table is that of a request seen. -/
def Backed (table : κ -> Option ι) (seen : List ρ) : Prop :=
  forall c last, table c = some last ->
    exists a, a ∈ seen ∧ N.session a = c ∧ N.number a = last

/-- The number of a request has been written into the table. -/
structure Records (b : ρ) (table table' : κ -> Option ι) : Prop where
  self : table' (N.session b) = some (N.number b)
  other : forall c, c ≠ N.session b -> table' c = table c

variable {N} {table table' : κ -> Option ι} {seen : List ρ}

theorem Backed.concat (h : N.Backed table seen) (b : ρ) : N.Backed table (seen ++ [b]) := by
  intro c last hlast
  rcases h c last hlast with ⟨a, ha, hsession, hnumber⟩
  exact ⟨a, List.mem_append_left [b] ha, hsession, hnumber⟩

theorem Backed.record (h : N.Backed table seen) {b : ρ} (hb : b ∈ seen)
    (hrecords : N.Records b table table') : N.Backed table' seen := by
  intro c last hlast
  by_cases hc : c = N.session b
  · rw [hc, hrecords.self] at hlast
    cases hlast
    exact ⟨b, hb, hc.symm, rfl⟩
  · rw [hrecords.other c hc] at hlast
    exact h c last hlast

end

section

variable [LE ι]

/-- A request no later than the last one of its session. -/
def Covers (table : κ -> Option ι) (a : ρ) : Prop :=
  exists last, table (N.session a) = some last ∧ N.number a ≤ last

/-- No recorded request that was seen is later than the table says. -/
def Complete (Recorded : ρ -> Prop) (table : κ -> Option ι) (seen : List ρ) : Prop :=
  forall a, a ∈ seen -> Recorded a -> N.Covers table a

variable {N} {Recorded : ρ -> Prop} {table table' : κ -> Option ι} {seen : List ρ}

/-- Seeing a request that is not recorded, or one that was seen before. -/
theorem Complete.concat (h : N.Complete Recorded table seen) {b : ρ}
    (hold : Recorded b -> N.Covers table b) : N.Complete Recorded table (seen ++ [b]) := by
  intro a ha hrecorded
  rcases List.mem_append.mp ha with hseen | hb
  · exact h a hseen hrecorded
  · rw [List.mem_singleton.mp hb] at hrecorded ⊢
    exact hold hrecorded

/-- A number is written down, unless its session has a higher one. -/
theorem Complete.record [Std.IsPreorder ι] (h : N.Complete Recorded table seen) {b : ρ}
    (hrecords : N.Records b table table')
    (hraise : forall last, table (N.session b) = some last -> last ≤ N.number b) :
    N.Complete Recorded table' seen := by
  intro a ha hrecorded
  rcases h a ha hrecorded with ⟨last, hlast, hle⟩
  by_cases hc : N.session a = N.session b
  · rw [hc] at hlast
    exact ⟨N.number b, by rw [hc, hrecords.self], Std.le_trans hle (hraise last hlast)⟩
  · exact ⟨last, (hrecords.other _ hc).trans hlast, hle⟩

theorem Records.covers [Std.IsPreorder ι] {b : ρ} (h : N.Records b table table') :
    N.Covers table' b :=
  ⟨N.number b, h.self, Std.le_refl _⟩

end

section

variable [LE ι] [LT ι] [Std.IsPartialOrder ι] [Std.LawfulOrderLT ι] {N}
variable {Issued : ρ -> Prop} {table : κ -> Option ι} {seen later : List ρ}

/-- Where requests come in order, a request the table covers has been seen. -/
theorem Backed.mem_of_covers (h : N.Backed table seen)
    (horder : N.InOrder Issued (seen ++ later)) (hdistinct : N.Distinguishes Issued)
    (hissued : forall a, a ∈ seen -> Issued a) {a : ρ} (ha : Issued a)
    (hcovers : N.Covers table a) : a ∈ seen := by
  rcases hcovers with ⟨last, hlast, hle⟩
  rcases h _ _ hlast with ⟨b, hb, hsession, rfl⟩
  by_cases heq : N.number a = N.number b
  · rw [hdistinct a b ha (hissued b hb) hsession.symm heq]
    exact hb
  · rcases List.append_of_mem hb with ⟨earlier, rest, rfl⟩
    have hmem := horder earlier b (rest ++ later) (by rw [List.append_assoc]; rfl) a ha
      ⟨hsession.symm, Std.lt_of_le_of_ne hle heq⟩
    exact List.mem_append_left _ hmem

end

/-!
# First occurrences
-/

section

/-- The same number of the same session. -/
def Same (a b : ρ) : Prop :=
  N.session a = N.session b ∧ N.number a = N.number b

instance [DecidableEq κ] [DecidableEq ι] (a b : ρ) : Decidable (N.Same a b) :=
  inferInstanceAs (Decidable (N.session a = N.session b ∧ N.number a = N.number b))

/-- A log without its repetitions. -/
def firsts [DecidableEq κ] [DecidableEq ι] (log : List ρ) : List ρ :=
  log.foldl (fun kept b => if kept.any fun a => N.Same a b then kept else kept ++ [b]) []

/-- A number that is new has all numbers of its session before it below it. -/
def RisesAfter [LT ι] (earlier : List ρ) (b : ρ) : Prop :=
  (forall a, a ∈ earlier -> ¬ N.Same a b) ->
    forall a, a ∈ earlier -> N.session a = N.session b -> N.number a < N.number b

/-- A recorded request that is repeated comes after a recorded one of its session
that is no earlier. -/
def RecordedBefore [LE ι] (Recorded : ρ -> Prop) (earlier : List ρ) (b : ρ) : Prop :=
  Recorded b -> (exists a, a ∈ earlier ∧ N.Same a b) ->
    exists a, a ∈ earlier ∧ Recorded a ∧ N.session a = N.session b ∧ N.number b ≤ N.number a

variable {N}

section

variable [DecidableEq κ] [DecidableEq ι]

theorem firsts_concat (log : List ρ) (b : ρ) :
    N.firsts (log ++ [b]) =
      if (N.firsts log).any fun a => N.Same a b then N.firsts log else N.firsts log ++ [b] := by
  rw [firsts, List.foldl_append]
  rfl

/-- Every request of a log is among the first occurrences, perhaps as another one of its
number. -/
theorem exists_same_firsts {log : List ρ} {b : ρ} :
    (exists a, a ∈ N.firsts log ∧ N.Same a b) <-> exists a, a ∈ log ∧ N.Same a b := by
  induction log using List.reverseRecOn with
  | nil => rfl
  | append_singleton log c ih =>
      rw [firsts_concat]
      by_cases hany : (N.firsts log).any fun a => N.Same a c
      · rw [if_pos hany, ih]
        constructor
        · rintro ⟨a, ha, hsame⟩
          exact ⟨a, List.mem_append_left [c] ha, hsame⟩
        · rintro ⟨a, ha, hsame⟩
          rcases List.mem_append.mp ha with hold | hlast
          · exact ⟨a, hold, hsame⟩
          · rw [List.mem_singleton.mp hlast] at hsame
            rcases List.any_eq_true.mp hany with ⟨d, hd, hdc⟩
            have hrepeats := of_decide_eq_true hdc
            exact ih.mp ⟨d, hd, hrepeats.1.trans hsame.1, hrepeats.2.trans hsame.2⟩
      · rw [if_neg hany]
        constructor
        · rintro ⟨a, ha, hsame⟩
          rcases List.mem_append.mp ha with hold | hlast
          · rcases ih.mp ⟨a, hold, hsame⟩ with ⟨d, hd, hdb⟩
            exact ⟨d, List.mem_append_left [c] hd, hdb⟩
          · exact ⟨a, List.mem_append_right log hlast, hsame⟩
        · rintro ⟨a, ha, hsame⟩
          rcases List.mem_append.mp ha with hold | hlast
          · rcases ih.mpr ⟨a, hold, hsame⟩ with ⟨d, hd, hdb⟩
            exact ⟨d, List.mem_append_left [c] hd, hdb⟩
          · exact ⟨a, List.mem_append_right _ hlast, hsame⟩

theorem firsts_concat_repeated {log : List ρ} {b : ρ}
    (h : exists a, a ∈ log ∧ N.Same a b) : N.firsts (log ++ [b]) = N.firsts log := by
  rcases exists_same_firsts.mpr h with ⟨a, ha, hsame⟩
  rw [firsts_concat, if_pos (List.any_eq_true.mpr ⟨a, ha, decide_eq_true hsame⟩)]

theorem firsts_concat_new {log : List ρ} {b : ρ}
    (h : ¬ exists a, a ∈ log ∧ N.Same a b) : N.firsts (log ++ [b]) = N.firsts log ++ [b] := by
  rw [firsts_concat, if_neg]
  intro hany
  rcases List.any_eq_true.mp hany with ⟨a, ha, hsame⟩
  exact h (exists_same_firsts.mp ⟨a, ha, of_decide_eq_true hsame⟩)

end

variable {Recorded : ρ -> Prop} [DecidablePred Recorded] {table : κ -> Option ι}
  {seen : List ρ} [LE ι]

/-- A table with the numbers of recorded requests, none of them above it, covers what
is no later than one of these. -/
theorem Backed.covers_iff [Std.IsPreorder ι] (h : N.Backed table (seen.filter Recorded))
    (hcomplete : N.Complete Recorded table seen) {b : ρ} :
    N.Covers table b <-> exists a, a ∈ seen ∧ Recorded a ∧ N.session a = N.session b ∧
      N.number b ≤ N.number a := by
  constructor
  · rintro ⟨last, hlast, hle⟩
    rcases h _ _ hlast with ⟨a, ha, hsession, rfl⟩
    rcases List.mem_filter.mp ha with ⟨hseen, hrecorded⟩
    exact ⟨a, hseen, of_decide_eq_true hrecorded, hsession, hle⟩
  · rintro ⟨a, ha, hrecorded, hsession, hle⟩
    rcases hcomplete a ha hrecorded with ⟨last, hlast, hlast'⟩
    rw [hsession] at hlast
    exact ⟨last, hlast, Std.le_trans hle hlast'⟩

/-- Where new numbers rise, such a table tells the repeated requests from the new ones. -/
theorem Backed.covers_iff_repeated [LT ι] [Std.IsPreorder ι] [Std.LawfulOrderLT ι]
    (h : N.Backed table (seen.filter Recorded)) (hcomplete : N.Complete Recorded table seen)
    {b : ρ} (hrecorded : Recorded b) (hrises : N.RisesAfter seen b)
    (hbefore : N.RecordedBefore Recorded seen b) :
    N.Covers table b <-> exists a, a ∈ seen ∧ N.Same a b := by
  rw [h.covers_iff hcomplete]
  constructor
  · rintro ⟨a, ha, _, hsession, hle⟩
    by_contra hnew
    have hlt := hrises (fun c hc hsame => hnew ⟨c, hc, hsame⟩) a ha hsession
    exact Std.not_le_of_gt hlt hle
  · exact hbefore hrecorded

end

end Numbering
end Foundation
end KVRaft
