import Mathlib.Order.Defs.Unbundled
import KVRaft.Common.Bytes

/-!
# The skip list

The list that links all nodes at level 0, in the order of their keys.  The levels
above it only shorten the search for a place in it and are left out.
-/

namespace KVRaft

structure SkipList (K V : Type) [LT K] where
  chain : List (K × V)
  sorted : chain.Pairwise fun a b => a.1 < b.1

/-- What a dump writes: keys and values apart, in the order of the chain. -/
structure SkipListDump (K V : Type) where
  keyDumpVt : List K
  valDumpVt : List V
  deriving DecidableEq, Repr

/-- Text archives of dumps.  Reading throws when the text is not an archive. -/
class DumpArchive (K V : Type) where
  textOarchive : SkipListDump K V -> Bytes
  textIarchive : Bytes -> Option (SkipListDump K V)

class LawfulDumpArchive (K V : Type) [DumpArchive K V] : Prop where
  textIarchive_textOarchive : forall dumper : SkipListDump K V,
    DumpArchive.textIarchive (DumpArchive.textOarchive dumper) = some dumper
  textOarchive_ne_nil : forall dumper : SkipListDump K V,
    DumpArchive.textOarchive dumper ≠ []

namespace SkipList

variable {K V : Type} [LT K] [DecidableLT K] [DecidableEq K]

/-!
# Walking the chain

Each operation skips the smaller keys and looks at the next one.
-/

def insertIn (key : K) (value : V) : List (K × V) -> List (K × V)
  | [] => [(key, value)]
  | (k, v) :: rest =>
      if k < key then
        (k, v) :: insertIn key value rest
      else if k = key then
        (k, v) :: rest
      else
        (key, value) :: (k, v) :: rest

def deleteIn (key : K) : List (K × V) -> List (K × V)
  | [] => []
  | (k, v) :: rest =>
      if k < key then
        (k, v) :: deleteIn key rest
      else if k = key then
        rest
      else
        (k, v) :: rest

def searchIn (key : K) : List (K × V) -> Option V
  | [] => none
  | (k, v) :: rest =>
      if k < key then
        searchIn key rest
      else if k = key then
        some v
      else
        none

theorem insertIn_append {key : K} {smaller : List (K × V)}
    (h : forall a, a ∈ smaller -> a.1 < key) (value : V) (rest : List (K × V)) :
    insertIn key value (smaller ++ rest) = smaller ++ insertIn key value rest := by
  induction smaller with
  | nil => rfl
  | cons b smaller ih =>
      rw [List.cons_append, insertIn, if_pos (h b List.mem_cons_self),
        ih (fun a ha => h a (List.mem_cons_of_mem b ha)), List.cons_append]

theorem deleteIn_append {key : K} {smaller : List (K × V)}
    (h : forall a, a ∈ smaller -> a.1 < key) (rest : List (K × V)) :
    deleteIn key (smaller ++ rest) = smaller ++ deleteIn key rest := by
  induction smaller with
  | nil => rfl
  | cons b smaller ih =>
      rw [List.cons_append, deleteIn, if_pos (h b List.mem_cons_self),
        ih (fun a ha => h a (List.mem_cons_of_mem b ha)), List.cons_append]

theorem mem_insertIn {key : K} {value : V} {chain : List (K × V)} {a : K × V}
    (h : a ∈ insertIn key value chain) : a = (key, value) ∨ a ∈ chain := by
  induction chain with
  | nil => exact Or.inl (List.mem_singleton.mp h)
  | cons b rest ih =>
      unfold insertIn at h
      by_cases hlt : b.1 < key
      · rw [if_pos hlt] at h
        rcases List.mem_cons.mp h with rfl | hrest
        · exact Or.inr List.mem_cons_self
        · exact (ih hrest).imp_right (List.mem_cons_of_mem b)
      rw [if_neg hlt] at h
      by_cases heq : b.1 = key
      · rw [if_pos heq] at h
        exact Or.inr h
      · rw [if_neg heq] at h
        exact List.mem_cons.mp h

theorem deleteIn_sublist (key : K) (chain : List (K × V)) :
    (deleteIn key chain).Sublist chain := by
  induction chain with
  | nil => exact List.Sublist.slnil
  | cons b rest ih =>
      unfold deleteIn
      by_cases hlt : b.1 < key
      · rw [if_pos hlt]
        exact ih.cons_cons b
      rw [if_neg hlt]
      by_cases heq : b.1 = key
      · rw [if_pos heq]
        exact List.sublist_cons_self b rest
      · rw [if_neg heq]

theorem mem_of_mem_insertIn {key : K} {value : V} {chain : List (K × V)} {a : K × V}
    (h : a ∈ chain) : a ∈ insertIn key value chain := by
  induction chain with
  | nil => cases h
  | cons b rest ih =>
      unfold insertIn
      by_cases hlt : b.1 < key
      · rw [if_pos hlt]
        rcases List.mem_cons.mp h with rfl | hrest
        · exact List.mem_cons_self
        · exact List.mem_cons_of_mem b (ih hrest)
      rw [if_neg hlt]
      by_cases heq : b.1 = key
      · rw [if_pos heq]
        exact h
      · rw [if_neg heq]
        exact List.mem_cons_of_mem _ h

theorem exists_mem_insertIn (key : K) (value : V) (chain : List (K × V)) :
    exists v, (key, v) ∈ insertIn key value chain := by
  induction chain with
  | nil => exact ⟨value, List.mem_singleton_self _⟩
  | cons b rest ih =>
      unfold insertIn
      by_cases hlt : b.1 < key
      · rw [if_pos hlt]
        rcases ih with ⟨v, hv⟩
        exact ⟨v, List.mem_cons_of_mem b hv⟩
      rw [if_neg hlt]
      by_cases heq : b.1 = key
      · rw [if_pos heq, ← heq]
        exact ⟨b.2, List.mem_cons_self⟩
      · rw [if_neg heq]
        exact ⟨value, List.mem_cons_self⟩

theorem mem_deleteIn {key : K} {chain : List (K × V)} {a : K × V} (h : a ∈ chain)
    (hne : a.1 ≠ key) : a ∈ deleteIn key chain := by
  induction chain with
  | nil => cases h
  | cons b rest ih =>
      unfold deleteIn
      by_cases hlt : b.1 < key
      · rw [if_pos hlt]
        rcases List.mem_cons.mp h with rfl | hrest
        · exact List.mem_cons_self
        · exact List.mem_cons_of_mem b (ih hrest)
      rw [if_neg hlt]
      by_cases heq : b.1 = key
      · rw [if_pos heq]
        rcases List.mem_cons.mp h with rfl | hrest
        · exact absurd heq hne
        · exact hrest
      · rw [if_neg heq]
        exact h

theorem mem_insertIn_iff {key : K} {value : V} {chain : List (K × V)}
    (h : forall v, (key, v) ∉ chain) {a : K × V} :
    a ∈ insertIn key value chain <-> a = (key, value) ∨ a ∈ chain := by
  constructor
  · exact mem_insertIn
  · rintro (rfl | hmem)
    · rcases exists_mem_insertIn key value chain with ⟨v, hv⟩
      rcases mem_insertIn hv with heq | hold
      · rw [heq] at hv
        exact hv
      · exact absurd hold (h v)
    · exact mem_of_mem_insertIn hmem

section

variable [IsStrictTotalOrder K (· < ·)]

theorem insertIn_of_greater {key : K} {rest : List (K × V)}
    (h : forall a, a ∈ rest -> key < a.1) (value : V) :
    insertIn key value rest = (key, value) :: rest := by
  cases rest with
  | nil => rfl
  | cons b rest =>
      have hlt := h b List.mem_cons_self
      have hne : b.1 ≠ key := ne_of_irrefl' hlt
      unfold insertIn
      rw [if_neg (asymm_of (· < ·) hlt), if_neg hne]

theorem deleteIn_of_greater {key : K} {rest : List (K × V)}
    (h : forall a, a ∈ rest -> key < a.1) : deleteIn key rest = rest := by
  cases rest with
  | nil => rfl
  | cons b rest =>
      have hlt := h b List.mem_cons_self
      have hne : b.1 ≠ key := ne_of_irrefl' hlt
      unfold deleteIn
      rw [if_neg (asymm_of (· < ·) hlt), if_neg hne]

theorem deleteIn_cons {key : K} {a : K × V} (h : a.1 = key) (rest : List (K × V)) :
    deleteIn key (a :: rest) = rest := by
  have hlt : ¬ a.1 < key := by
    rw [h]
    exact irrefl_of (· < ·) key
  unfold deleteIn
  rw [if_neg hlt, if_pos h]

theorem insertIn_sorted {key : K} {value : V} {chain : List (K × V)}
    (h : chain.Pairwise fun a b => a.1 < b.1) :
    (insertIn key value chain).Pairwise fun a b => a.1 < b.1 := by
  induction chain with
  | nil => exact List.pairwise_singleton _ _
  | cons b rest ih =>
      rcases List.pairwise_cons.mp h with ⟨hhead, hrest⟩
      unfold insertIn
      by_cases hlt : b.1 < key
      · rw [if_pos hlt]
        apply List.pairwise_cons.mpr
        constructor
        · intro a ha
          rcases mem_insertIn ha with rfl | hold
          · exact hlt
          · exact hhead a hold
        · exact ih hrest
      rw [if_neg hlt]
      by_cases heq : b.1 = key
      · rw [if_pos heq]
        exact h
      · rw [if_neg heq]
        have hkey : key < b.1 := by
          rcases trichotomous_of (· < ·) b.1 key with h1 | h1 | h1
          · exact absurd h1 hlt
          · exact absurd h1 heq
          · exact h1
        apply List.pairwise_cons.mpr
        constructor
        · intro a ha
          rcases List.mem_cons.mp ha with rfl | hold
          · exact hkey
          · exact trans_of (· < ·) hkey (hhead a hold)
        · exact h

theorem searchIn_eq_some {key : K} {value : V} {chain : List (K × V)}
    (h : chain.Pairwise fun a b => a.1 < b.1) :
    searchIn key chain = some value <-> (key, value) ∈ chain := by
  induction chain with
  | nil =>
      constructor
      · intro hsome
        cases hsome
      · intro hmem
        cases hmem
  | cons b rest ih =>
      rcases List.pairwise_cons.mp h with ⟨hhead, hrest⟩
      unfold searchIn
      by_cases hlt : b.1 < key
      · rw [if_pos hlt, ih hrest]
        constructor
        · exact List.mem_cons_of_mem b
        · intro hmem
          rcases List.mem_cons.mp hmem with rfl | hold
          · exact absurd hlt (irrefl_of (· < ·) key)
          · exact hold
      rw [if_neg hlt]
      by_cases heq : b.1 = key
      · rw [if_pos heq]
        constructor
        · intro hsome
          rw [← heq, ← Option.some.inj hsome]
          exact List.mem_cons_self
        · intro hmem
          rcases List.mem_cons.mp hmem with rfl | hold
          · rfl
          · have hless := hhead _ hold
            rw [heq] at hless
            exact absurd hless (irrefl_of (· < ·) key)
      · rw [if_neg heq]
        constructor
        · intro hsome
          cases hsome
        · intro hmem
          rcases List.mem_cons.mp hmem with rfl | hold
          · exact absurd rfl heq
          · exact absurd (hhead _ hold) hlt

theorem mem_deleteIn_iff {key : K} {chain : List (K × V)}
    (h : chain.Pairwise fun a b => a.1 < b.1) {a : K × V} :
    a ∈ deleteIn key chain <-> a ∈ chain ∧ a.1 ≠ key := by
  constructor
  · intro hmem
    refine ⟨(deleteIn_sublist key chain).subset hmem, ?_⟩
    induction chain with
    | nil => cases hmem
    | cons b rest ih =>
        rcases List.pairwise_cons.mp h with ⟨hhead, hrest⟩
        unfold deleteIn at hmem
        by_cases hlt : b.1 < key
        · rw [if_pos hlt] at hmem
          rcases List.mem_cons.mp hmem with rfl | hold
          · intro hkey
            rw [hkey] at hlt
            exact irrefl_of (· < ·) key hlt
          · exact ih hrest hold
        rw [if_neg hlt] at hmem
        by_cases heq : b.1 = key
        · rw [if_pos heq] at hmem
          intro hkey
          have hless := hhead a hmem
          rw [heq, hkey] at hless
          exact irrefl_of (· < ·) key hless
        · rw [if_neg heq] at hmem
          rcases List.mem_cons.mp hmem with rfl | hold
          · exact heq
          · intro hkey
            have hless := hhead a hold
            rw [hkey] at hless
            exact hlt hless
  · intro hmem
    exact mem_deleteIn hmem.1 hmem.2

theorem searchIn_cons {a : K × V} {rest : List (K × V)}
    (h : (a :: rest).Pairwise fun a b => a.1 < b.1) (k : K) :
    searchIn k (a :: rest) = (if k = a.1 then some a.2 else none).or (searchIn k rest) := by
  rcases List.pairwise_cons.mp h with ⟨hhead, hrest⟩
  by_cases heq : k = a.1
  · rw [if_pos heq, Option.some_or, searchIn_eq_some h, heq]
    exact List.mem_cons_self
  · rw [if_neg heq, Option.none_or]
    apply Option.ext
    intro v
    rw [searchIn_eq_some h, searchIn_eq_some hrest, List.mem_cons]
    constructor
    · rintro (rfl | hmem)
      · exact absurd rfl heq
      · exact hmem
    · exact Or.inr

theorem insertIn_of_mem {key : K} {value v : V} {chain : List (K × V)}
    (h : chain.Pairwise fun a b => a.1 < b.1) (hmem : (key, v) ∈ chain) :
    insertIn key value chain = chain := by
  induction chain with
  | nil => cases hmem
  | cons b rest ih =>
      rcases List.pairwise_cons.mp h with ⟨hhead, hrest⟩
      unfold insertIn
      by_cases hlt : b.1 < key
      · rw [if_pos hlt]
        rcases List.mem_cons.mp hmem with rfl | hold
        · exact absurd hlt (irrefl_of (· < ·) key)
        · rw [ih hrest hold]
      rw [if_neg hlt]
      rcases List.mem_cons.mp hmem with rfl | hold
      · rw [if_pos rfl]
      · exact absurd (hhead _ hold) hlt

end

/-!
# The operations
-/

def empty : SkipList K V where
  chain := []
  sorted := List.Pairwise.nil

def searchElement (list : SkipList K V) (key : K) : Option V :=
  searchIn key list.chain

def deleteElement (list : SkipList K V) (key : K) : SkipList K V where
  chain := deleteIn key list.chain
  sorted := list.sorted.sublist (deleteIn_sublist key list.chain)

def dumpFile [DumpArchive K V] (list : SkipList K V) : Bytes :=
  DumpArchive.textOarchive
    { keyDumpVt := list.chain.map Prod.fst
      valDumpVt := list.chain.map Prod.snd }

variable [IsStrictTotalOrder K (· < ·)]

/-- The second component is 1 when the key is there already. -/
def insertElement (list : SkipList K V) (key : K) (value : V) : SkipList K V × Int :=
  ({ chain := insertIn key value list.chain
     sorted := insertIn_sorted list.sorted },
    if (searchIn key list.chain).isSome then 1 else 0)

def insertSetElement (list : SkipList K V) (key : K) (value : V) : SkipList K V :=
  let list :=
    if (list.searchElement key).isSome then list.deleteElement key else list
  (list.insertElement key value).1

/-- Loading inserts; keys already there keep their values. -/
def loadFile [DumpArchive K V] (list : SkipList K V) (dumpStr : Bytes) :
    Option (SkipList K V) :=
  if dumpStr.isEmpty then
    some list
  else
    (DumpArchive.textIarchive dumpStr).map fun dumper =>
      (dumper.keyDumpVt.zip dumper.valDumpVt).foldl
        (fun list (key, value) => (list.insertElement key value).1) list

/-!
# Keys
-/

omit [DecidableLT K] [DecidableEq K] [IsStrictTotalOrder K (· < ·)] in
@[ext] theorem ext_chain {list other : SkipList K V} (h : list.chain = other.chain) :
    list = other := by
  cases list
  cases other
  cases h
  rfl

def Contains (list : SkipList K V) (key : K) : Prop :=
  exists value, (key, value) ∈ list.chain

theorem contains_iff {list : SkipList K V} {key : K} :
    list.Contains key <-> (list.searchElement key).isSome := by
  rw [Option.isSome_iff_exists]
  constructor
  · rintro ⟨value, hmem⟩
    exact ⟨value, (searchIn_eq_some list.sorted).mpr hmem⟩
  · rintro ⟨value, hsome⟩
    exact ⟨value, (searchIn_eq_some list.sorted).mp hsome⟩

theorem insertElement_of_contains {list : SkipList K V} {key : K} (value : V)
    (h : list.Contains key) : (list.insertElement key value).1 = list := by
  rcases h with ⟨v, hmem⟩
  exact ext_chain (insertIn_of_mem list.sorted hmem)

/-!
# The answers of a search

Each operation changes the answer for its own key only.
-/

theorem searchElement_insertElement (list : SkipList K V) (key : K) (value : V) (k : K) :
    (list.insertElement key value).1.searchElement k =
      (list.searchElement k).or (if k = key then some value else none) := by
  by_cases hfound : list.Contains key
  · rw [insertElement_of_contains value hfound]
    by_cases hkey : k = key
    · rw [hkey]
      rcases Option.isSome_iff_exists.mp (contains_iff.mp hfound) with ⟨v, hv⟩
      rw [hv, Option.some_or]
    · rw [if_neg hkey, Option.or_none]
  · apply Option.ext
    intro v
    have hnone : forall w, (key, w) ∉ list.chain := fun w hw => hfound ⟨w, hw⟩
    change searchIn k (insertIn key value list.chain) = some v <-> _
    rw [searchIn_eq_some (insertIn_sorted list.sorted), mem_insertIn_iff hnone]
    by_cases hkey : k = key
    · have hsearch : list.searchElement k = none := by
        rw [← Option.not_isSome_iff_eq_none, ← contains_iff, hkey]
        exact hfound
      rw [hsearch, Option.none_or, if_pos hkey, hkey]
      constructor
      · rintro (heq | hmem)
        · rw [(Prod.mk.inj heq).2]
        · exact absurd hmem (hnone v)
      · intro heq
        rw [Option.some.inj heq]
        exact Or.inl rfl
    · rw [if_neg hkey, Option.or_none]
      change _ <-> searchIn k list.chain = some v
      rw [searchIn_eq_some list.sorted]
      constructor
      · rintro (heq | hmem)
        · exact absurd (Prod.mk.inj heq).1 hkey
        · exact hmem
      · exact Or.inr

/-- The code 1 says that the key was there already. -/
theorem insertElement_code (list : SkipList K V) (key : K) (value : V) :
    (list.insertElement key value).2 =
      if (list.searchElement key).isSome then 1 else 0 :=
  rfl

theorem searchElement_deleteElement (list : SkipList K V) (key k : K) :
    (list.deleteElement key).searchElement k =
      if k = key then none else list.searchElement k := by
  apply Option.ext
  intro v
  change searchIn k (list.deleteElement key).chain = some v <-> _
  rw [searchIn_eq_some (list.deleteElement key).sorted]
  change (k, v) ∈ deleteIn key list.chain <-> _
  rw [mem_deleteIn_iff list.sorted]
  by_cases hkey : k = key
  · rw [if_pos hkey]
    constructor
    · intro hmem
      exact absurd hkey hmem.2
    · intro hsome
      cases hsome
  · rw [if_neg hkey]
    change _ <-> searchIn k list.chain = some v
    rw [searchIn_eq_some list.sorted]
    constructor
    · exact And.left
    · intro hmem
      exact ⟨hmem, hkey⟩

theorem searchElement_insertSetElement (list : SkipList K V) (key : K) (value : V) (k : K) :
    (list.insertSetElement key value).searchElement k =
      if k = key then some value else list.searchElement k := by
  unfold insertSetElement
  rw [searchElement_insertElement]
  by_cases hfound : (list.searchElement key).isSome
  · rw [if_pos hfound, searchElement_deleteElement]
    by_cases hkey : k = key
    · rw [if_pos hkey, if_pos hkey, if_pos hkey, Option.none_or]
    · rw [if_neg hkey, if_neg hkey, if_neg hkey, Option.or_none]
  · rw [if_neg hfound]
    by_cases hkey : k = key
    · rw [if_pos hkey, if_pos hkey, hkey, Option.not_isSome_iff_eq_none.mp hfound,
        Option.none_or]
    · rw [if_neg hkey, if_neg hkey, Option.or_none]

/-!
# Loading a dump
-/

omit [DecidableLT K] [DecidableEq K] [IsStrictTotalOrder K (· < ·)] in
theorem zip_chain (list : SkipList K V) :
    (list.chain.map Prod.fst).zip (list.chain.map Prod.snd) = list.chain :=
  (List.zip_of_prod rfl rfl).symm

variable [DumpArchive K V] [LawfulDumpArchive K V]

theorem loadFile_dumpFile (list other : SkipList K V) :
    list.loadFile other.dumpFile =
      some (other.chain.foldl
        (fun list (key, value) => (list.insertElement key value).1) list) := by
  have hne : other.dumpFile.isEmpty = false := by
    rw [List.isEmpty_eq_false_iff]
    exact LawfulDumpArchive.textOarchive_ne_nil _
  rw [loadFile, hne, dumpFile, LawfulDumpArchive.textIarchive_textOarchive]
  simp only [Bool.false_eq_true, if_false, Option.map_some, zip_chain]

omit [DumpArchive K V] [LawfulDumpArchive K V] in
theorem searchElement_foldl_insertElement {entries : List (K × V)}
    (h : entries.Pairwise fun a b => a.1 < b.1) (list : SkipList K V) (k : K) :
    (entries.foldl (fun list (key, value) => (list.insertElement key value).1)
      list).searchElement k = (list.searchElement k).or (searchIn k entries) := by
  induction entries generalizing list with
  | nil => exact (Option.or_none (o := list.searchElement k)).symm
  | cons a rest ih =>
      rw [List.foldl_cons, ih (List.pairwise_cons.mp h).2, searchIn_cons h]
      change ((list.insertElement a.1 a.2).1.searchElement k).or _ = _
      rw [searchElement_insertElement, Option.or_assoc]

omit [DumpArchive K V] [LawfulDumpArchive K V] in
/-- Entries with larger and larger keys are inserted at the end. -/
theorem chain_foldl_insertElement {entries : List (K × V)} {list : SkipList K V}
    (h : (list.chain ++ entries).Pairwise fun a b => a.1 < b.1) :
    (entries.foldl (fun list (key, value) => (list.insertElement key value).1)
      list).chain = list.chain ++ entries := by
  induction entries generalizing list with
  | nil => exact (List.append_nil list.chain).symm
  | cons a rest ih =>
      have hsmaller : forall b, b ∈ list.chain -> b.1 < a.1 := by
        intro b hb
        exact (List.pairwise_append.mp h).2.2 b hb a List.mem_cons_self
      have hchain : (list.insertElement a.1 a.2).1.chain = list.chain ++ [a] := by
        have hlast := insertIn_append hsmaller a.2 []
        rw [List.append_nil] at hlast
        exact hlast
      have hsorted : ((list.insertElement a.1 a.2).1.chain ++ rest).Pairwise
          fun a b => a.1 < b.1 := by
        rw [hchain, List.append_assoc]
        exact h
      rw [List.foldl_cons, ih hsorted, hchain, List.append_assoc]
      rfl

/-- An empty list becomes the dumped one. -/
theorem loadFile_dumpFile_empty (other : SkipList K V) :
    (empty : SkipList K V).loadFile other.dumpFile = some other := by
  rw [loadFile_dumpFile, Option.some_inj]
  apply ext_chain
  rw [chain_foldl_insertElement other.sorted]
  rfl

/-- The keys a list holds keep their values; the dump adds its other keys. -/
theorem searchElement_loadFile {list other loaded : SkipList K V}
    (h : list.loadFile other.dumpFile = some loaded) (k : K) :
    loaded.searchElement k = (list.searchElement k).or (other.searchElement k) := by
  rw [loadFile_dumpFile] at h
  cases h
  exact searchElement_foldl_insertElement other.sorted list k

/-- Loading a dump changes nothing exactly when all of its keys are there. -/
theorem loadFile_dumpFile_same {list other loaded : SkipList K V}
    (h : list.loadFile other.dumpFile = some loaded) :
    (forall key, loaded.searchElement key = list.searchElement key) <->
      forall key, other.Contains key -> list.Contains key := by
  constructor
  · intro hsame key hkey
    rw [contains_iff] at hkey
    rw [contains_iff, ← hsame key, searchElement_loadFile h, Option.isSome_or, hkey,
      Bool.or_true]
  · intro hkeys key
    rw [searchElement_loadFile h]
    cases hlist : list.searchElement key with
    | some v => rfl
    | none =>
        rw [Option.none_or, ← Option.not_isSome_iff_eq_none, ← contains_iff]
        intro hother
        have hheld := contains_iff.mp (hkeys key hother)
        rw [hlist] at hheld
        cases hheld

/-- It makes the list equal to the dumped one exactly when that one agrees with what
the list held. -/
theorem loadFile_dumpFile_replaces {list other loaded : SkipList K V}
    (h : list.loadFile other.dumpFile = some loaded) :
    (forall key, loaded.searchElement key = other.searchElement key) <->
      forall key value, list.searchElement key = some value ->
        other.searchElement key = some value := by
  constructor
  · intro hsame key value hvalue
    rw [← hsame key, searchElement_loadFile h, hvalue, Option.some_or]
  · intro hagrees key
    rw [searchElement_loadFile h]
    cases hlist : list.searchElement key with
    | some value =>
        rw [Option.some_or, hagrees key value hlist]
    | none => rw [Option.none_or]

end SkipList

/-!
Strings compare byte by byte.
-/

instance : IsStrictTotalOrder Bytes (· < ·) where
  trichotomous := by
    intro a b hab hba
    exact List.le_antisymm hba hab
  irrefl := List.lt_irrefl
  trans := by
    intro a b c
    exact List.lt_trans

end KVRaft
