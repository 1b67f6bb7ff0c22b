import Mathlib.Data.List.AList
import KVRaft.Foundation.Checked
import KVRaft.SkipList.Chain
import KVRaft.SkipList.Operations

/-!
# The skip list as a finite map

The linked nodes stand for the chain of their entries, and the chain for a
finite map.  Which levels the nodes have been given makes no difference.
-/

namespace KVRaft

open Foundation

namespace LevelledList

variable {K V : Type} [LT K]

/-!
# The place of a key
-/

/-- Either a cell has the key, or there is a place where a cell with it belongs. -/
inductive Place (key : K) : List (Cell K V) -> Prop where
  | found (smaller : List (Cell K V)) {rest : List (Cell K V)} {c : Cell K V} :
      SplitAt key smaller (c :: rest) -> c.key = key -> Place key (smaller ++ c :: rest)
  | missing (smaller : List (Cell K V)) {rest : List (Cell K V)} :
      SplitAt key smaller rest -> (forall c, c ∈ rest -> key < c.key) ->
      Place key (smaller ++ rest)

theorem place_of_sorted [IsStrictTotalOrder K (· < ·)] {cells : List (Cell K V)}
    (h : cells.Pairwise fun a b => a.key < b.key) (key : K) : Place key cells := by
  induction cells with
  | nil => exact .missing [] { smaller := nofun, rest := nofun } nofun
  | cons a cells ih =>
      rcases List.pairwise_cons.mp h with ⟨hhead, htail⟩
      rcases trichotomous_of (· < ·) a.key key with hlt | heq | hgt
      · cases ih htail with
        | found smaller hsplit hkey => exact .found (a :: smaller) (hsplit.cons hlt) hkey
        | missing smaller hsplit hrest =>
            exact .missing (a :: smaller) (hsplit.cons hlt) hrest
      · have hrest : forall c, c ∈ a :: cells -> ¬ c.key < key := by
          intro c hc
          rw [← heq]
          rcases List.mem_cons.mp hc with rfl | hlater
          · exact irrefl_of (· < ·) c.key
          · exact asymm_of (· < ·) (hhead c hlater)
        exact .found [] { smaller := nofun, rest := hrest } heq
      · have hrest : forall c, c ∈ a :: cells -> key < c.key := by
          intro c hc
          rcases List.mem_cons.mp hc with rfl | hlater
          · exact hgt
          · exact trans_of (· < ·) hgt (hhead c hlater)
        exact .missing []
          { smaller := nofun, rest := fun c hc => asymm_of (· < ·) (hrest c hc) } hrest

theorem SplitAt.entries {key : K} {smaller rest : List (Cell K V)}
    (h : SplitAt key smaller rest) (a : K × V) (ha : a ∈ smaller.map Cell.entry) :
    a.1 < key := by
  rcases List.mem_map.mp ha with ⟨c, hc, rfl⟩
  exact h.smaller c hc

theorem greater_entries {key : K} {rest : List (Cell K V)}
    (h : forall c, c ∈ rest -> key < c.key) (a : K × V) (ha : a ∈ rest.map Cell.entry) :
    key < a.1 := by
  rcases List.mem_map.mp ha with ⟨c, hc, rfl⟩
  exact h c hc

theorem key_ne_of_greater [IsStrictTotalOrder K (· < ·)] {key : K} {rest : List (Cell K V)}
    (h : forall c, c ∈ rest -> key < c.key) (c : Cell K V) (hc : c ∈ rest) : c.key ≠ key := by
  intro heq
  have hlt := h c hc
  rw [heq] at hlt
  exact irrefl_of (· < ·) key hlt

theorem SplitAt.key_ne [IsStrictTotalOrder K (· < ·)] {key : K}
    {smaller rest : List (Cell K V)} (h : SplitAt key smaller rest)
    (hrest : forall c, c ∈ rest -> key < c.key) (c : Cell K V) (hc : c ∈ smaller ++ rest) :
    c.key ≠ key := by
  rcases List.mem_append.mp hc with hc | hc
  · intro heq
    have hlt := h.smaller c hc
    rw [heq] at hlt
    exact irrefl_of (· < ·) key hlt
  · exact key_ne_of_greater hrest c hc

theorem contains_iff_cell {cells : List (Cell K V)} {chain : SkipList K V} {key : K}
    (h : cells.map Cell.entry = chain.chain) :
    chain.Contains key <-> exists c, c ∈ cells ∧ c.key = key := by
  constructor
  · rintro ⟨value, hmem⟩
    rw [← h] at hmem
    rcases List.mem_map.mp hmem with ⟨c, hc, heq⟩
    exact ⟨c, hc, congrArg Prod.fst heq⟩
  · rintro ⟨c, hc, rfl⟩
    refine ⟨c.value, ?_⟩
    rw [← h]
    exact List.mem_map_of_mem hc

/-!
# The chain of the entries
-/

variable [Inhabited K] [Inhabited V]

/-- The linked nodes of the list have the entries of the chain. -/
def Represents (list : LevelledList K V) (chain : SkipList K V) : Prop :=
  exists cells, Linked list cells ∧ cells.map Cell.entry = chain.chain

variable [DecidableLT K] [DecidableEq K] [IsStrictTotalOrder K (· < ·)]
  {list : LevelledList K V} {chain : SkipList K V}

omit [Inhabited K] [Inhabited V] in
/-- A key with no cell at its place is not in the chain. -/
theorem SplitAt.not_found {key : K} {smaller rest : List (Cell K V)}
    (h : SplitAt key smaller rest) (hrest : forall c, c ∈ rest -> key < c.key)
    (hchain : (smaller ++ rest).map Cell.entry = chain.chain) :
    ¬ (chain.searchElement key).isSome := by
  rw [← SkipList.contains_iff, contains_iff_cell hchain]
  rintro ⟨c, hc, hkey⟩
  exact h.key_ne hrest c hc hkey

theorem Represents.searchElement (h : Represents list chain) (key : K) :
    list.searchElement key = some (chain.searchElement key) := by
  rcases h with ⟨cells, hlinked, hchain⟩
  cases place_of_sorted hlinked.sorted key with
  | @found smaller rest c hs hkey =>
      have hmem : (key, c.value) ∈ chain.chain := by
        rw [← hchain, ← hkey]
        exact List.mem_map_of_mem (List.mem_append_right smaller List.mem_cons_self)
      have hsearch : chain.searchElement key = some c.value :=
        (SkipList.searchIn_eq_some chain.sorted).mpr hmem
      rw [hlinked.searchElement_found hs hkey, hsearch]
  | @missing smaller rest hs hrest =>
      have hnot := hs.not_found hrest hchain
      rw [hlinked.searchElement_missing hs (key_ne_of_greater hrest),
        Option.not_isSome_iff_eq_none.mp hnot]

theorem Represents.insertElement (h : Represents list chain) (key : K) (value : V)
    (heads : Nat) :
    exists list', list.insertElement key value heads =
        some (list', (chain.insertElement key value).2) ∧
      Represents list' (chain.insertElement key value).1 := by
  rcases h with ⟨cells, hlinked, hchain⟩
  rw [SkipList.insertElement_code]
  cases place_of_sorted hlinked.sorted key with
  | @found smaller rest c hs hkey =>
      have hcontains : chain.Contains key := (contains_iff_cell hchain).mpr
        ⟨c, List.mem_append_right smaller List.mem_cons_self, hkey⟩
      refine ⟨list, ?_, ?_⟩
      · rw [hlinked.insertElement_found hs hkey, if_pos (SkipList.contains_iff.mp hcontains)]
      · rw [SkipList.insertElement_of_contains value hcontains]
        exact ⟨_, hlinked, hchain⟩
  | @missing smaller rest hs hrest =>
      have hnot := hs.not_found hrest hchain
      rcases hlinked.insertElement_missing hs (key_ne_of_greater hrest) value heads with
        ⟨list', hrun, hinserted⟩
      refine ⟨list', ?_, _, hlinked.insert hs hrest hinserted (getRandomLevel_le list heads),
        ?_⟩
      · rw [hrun, if_neg hnot]
      · change _ = SkipList.insertIn key value chain.chain
        rw [← hchain, List.map_append, List.map_append, List.map_cons,
          SkipList.insertIn_append hs.entries,
          SkipList.insertIn_of_greater (greater_entries hrest)]
        rfl

theorem Represents.deleteElement (h : Represents list chain) (key : K) :
    exists list', list.deleteElement key = some list' ∧
      Represents list' (chain.deleteElement key) := by
  rcases h with ⟨cells, hlinked, hchain⟩
  cases place_of_sorted hlinked.sorted key with
  | @found smaller rest c hs hkey =>
      rcases hlinked.deleteElement_found hs hkey with ⟨list', hrun, hdeleted⟩
      refine ⟨list', hrun, _, hlinked.delete hdeleted, ?_⟩
      change _ = SkipList.deleteIn key chain.chain
      rw [← hchain, List.map_append, List.map_append, List.map_cons,
        SkipList.deleteIn_append hs.entries, SkipList.deleteIn_cons hkey]
  | @missing smaller rest hs hrest =>
      have hrun := hlinked.deleteElement_missing hs (key_ne_of_greater hrest)
      refine ⟨list, hrun, _, hlinked, ?_⟩
      change _ = SkipList.deleteIn key chain.chain
      rw [← hchain, List.map_append, SkipList.deleteIn_append hs.entries,
        SkipList.deleteIn_of_greater (greater_entries hrest)]

theorem Represents.insertSetElement (h : Represents list chain) (key : K) (value : V)
    (heads : Nat) :
    exists list', list.insertSetElement key value heads = some list' ∧
      Represents list' (chain.insertSetElement key value) := by
  have hlookup := h.searchElement key
  unfold SkipList.insertSetElement
  cases hsearch : chain.searchElement key with
  | none =>
      rw [hsearch] at hlookup
      rcases h.insertElement key value heads with ⟨list', hinsert, hrep⟩
      exact ⟨list', insertSetElement_absent hlookup hinsert, hrep⟩
  | some old =>
      rw [hsearch] at hlookup
      rcases h.deleteElement key with ⟨deleted, hdelete, hdeleted⟩
      rcases hdeleted.insertElement key value heads with ⟨list', hinsert, hrep⟩
      exact ⟨list', insertSetElement_present hlookup hdelete hinsert, hrep⟩

end LevelledList

/-!
# Sequences of calls
-/

inductive SkipListCall (K V : Type) where
  | insertElement (key : K) (value : V)
  | insertSetElement (key : K) (value : V)
  | deleteElement (key : K)
  deriving DecidableEq, Repr

namespace SkipListCall

variable {K V : Type} [DecidableEq K]

/-- What the call does to a finite map. -/
def apply (map : AList fun _ : K => V) : SkipListCall K V -> AList fun _ : K => V
  | .insertElement key value => if key ∈ map then map else map.insert key value
  | .insertSetElement key value => map.insert key value
  | .deleteElement key => map.erase key

def applyAll (calls : List (SkipListCall K V)) : AList fun _ : K => V :=
  calls.foldl apply ∅

variable [LT K] [DecidableLT K]

/-- The call, and the coin tosses for the level of the node it may create. -/
def run (list : LevelledList K V) : SkipListCall K V × Nat -> Option (LevelledList K V)
  | (.insertElement key value, heads) => (list.insertElement key value heads).map Prod.fst
  | (.insertSetElement key value, heads) => list.insertSetElement key value heads
  | (.deleteElement key, _) => list.deleteElement key

def runAll [Inhabited K] [Inhabited V] (maxLevel : Nat)
    (calls : List (SkipListCall K V × Nat)) : Option (LevelledList K V) :=
  calls.foldlM run (LevelledList.create maxLevel)

end SkipListCall

section

open LevelledList

variable {K V : Type} [Inhabited K] [Inhabited V] [LT K] [DecidableLT K] [DecidableEq K]
  [IsStrictTotalOrder K (· < ·)]

/-- The linked nodes answer as the map does. -/
def RefinesMap (list : LevelledList K V) (map : AList fun _ : K => V) : Prop :=
  exists chain : SkipList K V, Represents list chain ∧
    forall key, chain.searchElement key = map.lookup key

theorem RefinesMap.run {list : LevelledList K V} {map : AList fun _ : K => V}
    (h : RefinesMap list map) (call : SkipListCall K V) (heads : Nat) :
    exists list', SkipListCall.run list (call, heads) = some list' ∧
      RefinesMap list' (call.apply map) := by
  rcases h with ⟨chain, hrep, hanswers⟩
  cases call with
  | insertElement key value =>
      rcases hrep.insertElement key value heads with ⟨list', hrun, hrep'⟩
      refine ⟨list', ?_, _, hrep', ?_⟩
      · rw [SkipListCall.run, hrun]
        rfl
      · intro k
        rw [SkipList.searchElement_insertElement, hanswers, SkipListCall.apply]
        by_cases hkey : k = key
        · rw [if_pos hkey, hkey]
          by_cases hmem : key ∈ map
          · rcases Option.isSome_iff_exists.mp (AList.lookup_isSome.mpr hmem) with ⟨v, hv⟩
            rw [if_pos hmem, hv, Option.some_or]
          · rw [if_neg hmem, AList.lookup_insert, AList.lookup_eq_none.mpr hmem,
              Option.none_or]
        · rw [if_neg hkey, Option.or_none]
          by_cases hmem : key ∈ map
          · rw [if_pos hmem]
          · rw [if_neg hmem, AList.lookup_insert_ne hkey]
  | insertSetElement key value =>
      rcases hrep.insertSetElement key value heads with ⟨list', hrun, hrep'⟩
      refine ⟨list', hrun, _, hrep', ?_⟩
      intro k
      rw [SkipList.searchElement_insertSetElement, hanswers, SkipListCall.apply]
      by_cases hkey : k = key
      · rw [if_pos hkey, hkey, AList.lookup_insert]
      · rw [if_neg hkey, AList.lookup_insert_ne hkey]
  | deleteElement key =>
      rcases hrep.deleteElement key with ⟨list', hrun, hrep'⟩
      refine ⟨list', hrun, _, hrep', ?_⟩
      intro k
      rw [SkipList.searchElement_deleteElement, hanswers, SkipListCall.apply]
      by_cases hkey : k = key
      · rw [if_pos hkey, hkey, AList.lookup_erase]
      · rw [if_neg hkey, AList.lookup_erase_ne hkey]

theorem RefinesMap.runAll {list : LevelledList K V} {map : AList fun _ : K => V}
    (h : RefinesMap list map) (calls : List (SkipListCall K V × Nat)) :
    exists list', calls.foldlM SkipListCall.run list = some list' ∧
      RefinesMap list' ((calls.map Prod.fst).foldl SkipListCall.apply map) := by
  rw [List.foldl_map]
  exact foldlM_simulates (fun _ _ call h => h.run call.1 call.2) h calls

omit [IsStrictTotalOrder K (· < ·)] in
theorem RefinesMap.create (maxLevel : Nat) :
    RefinesMap (LevelledList.create maxLevel : LevelledList K V) ∅ :=
  ⟨SkipList.empty, ⟨[], create_linked maxLevel, rfl⟩, fun _ => rfl⟩

/-- Whatever levels the nodes are given, the calls go through, searches answer from the
finite map of the calls and an insertion tells whether its key is there. -/
theorem skip_list_refines_map (maxLevel : Nat) (calls : List (SkipListCall K V × Nat)) :
    exists list, SkipListCall.runAll maxLevel calls = some list ∧
      (forall key, list.searchElement key =
        some ((SkipListCall.applyAll (calls.map Prod.fst)).lookup key)) ∧
      forall key value heads, (list.insertElement key value heads).map Prod.snd =
        some (if key ∈ SkipListCall.applyAll (calls.map Prod.fst) then 1 else 0) := by
  rcases (RefinesMap.create maxLevel).runAll calls with ⟨list, hrun, chain, hrep, hanswers⟩
  refine ⟨list, hrun, ?_, ?_⟩
  · intro key
    rw [hrep.searchElement key, hanswers]
    rfl
  · intro key value heads
    rcases hrep.insertElement key value heads with ⟨list', hinsert, _⟩
    rw [hinsert, Option.map_some, SkipList.insertElement_code, hanswers]
    simp only [AList.lookup_isSome]
    rfl

end

def stringCalls : List (SkipListCall Bytes Bytes × Nat) :=
  [(.insertElement [5] [50], 9), (.insertSetElement [5] [51], 0), (.deleteElement [7], 0)]

/-- Strings as keys, and a node on the highest level. -/
theorem skip_list_refines_map_strings :
    exists list, SkipListCall.runAll 3 stringCalls = some list ∧
      list.searchElement [5] = some (some [51]) ∧
      list.searchElement [7] = some none := by
  rcases skip_list_refines_map 3 stringCalls with ⟨list, hrun, hsearch, _⟩
  exact ⟨list, hrun, hsearch [5], hsearch [7]⟩

end KVRaft
