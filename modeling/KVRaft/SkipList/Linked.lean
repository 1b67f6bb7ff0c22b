import Mathlib.Data.List.Nodup
import KVRaft.Foundation.Levels
import KVRaft.SkipList.Nodes

/-!
# The levels of the skip list

Level by level, the nodes of a skip list are linked in the order of their keys.
A search for a key leaves each level at the last node with a smaller key there.
-/

namespace KVRaft

open Foundation

/-- A node of the list, apart from its pointers. -/
structure Cell (K V : Type) where
  address : Nat
  level : Nat
  key : K
  value : V

def Cell.entry {K V : Type} (c : Cell K V) : K × V :=
  (c.key, c.value)

namespace LevelledList

variable {K V : Type} [Inhabited K] [Inhabited V]

/-- The header is on every level; nobody looks at its key. -/
def headerCell (list : LevelledList K V) : Cell K V where
  address := header
  level := list.maxLevel
  key := default
  value := default

variable [LT K]

structure Linked (list : LevelledList K V) (cells : List (Cell K V)) : Prop where
  sorted : cells.Pairwise fun a b => a.key < b.key
  addresses : ((list.headerCell :: cells).map Cell.address).Nodup
  allocated : forall c, c ∈ list.headerCell :: cells -> c.address < list.next
  key : forall c, c ∈ cells -> list.getKey c.address = some c.key
  value : forall c, c ∈ cells -> list.getValue c.address = some c.value
  forward : forall p post, p :: post <:+ list.headerCell :: cells ->
    forall i, i ≤ p.level ->
      list.forwardOf p.address i = some ((firstAt Cell.level i post).map Cell.address)
  level : forall c, c ∈ cells -> c.level ≤ list.skipListLevel
  skipListLevel : list.skipListLevel ≤ list.maxLevel
  elementCount : list.elementCount = cells.length

theorem create_linked (maxLevel : Nat) :
    Linked (create maxLevel : LevelledList K V) [] where
  sorted := List.Pairwise.nil
  addresses := List.nodup_singleton _
  allocated := by
    intro c hc
    rw [List.mem_singleton.mp hc]
    exact Nat.zero_lt_one
  key := nofun
  value := nofun
  forward := by
    intro p post hsuffix i hi
    rcases List.suffix_cons_iff.mp hsuffix with heq | hnil
    · cases heq
      have hlt : i < maxLevel + 1 := Nat.lt_succ_of_le hi
      change ((Function.update (fun _ => none) header
        (some (newNode default default maxLevel)) : Nat -> Option (Node K V)) header).bind _ = _
      rw [Function.update_self]
      exact List.getElem?_replicate_of_lt hlt
    · exact absurd (List.suffix_nil.mp hnil) (List.cons_ne_nil _ _)
  level := nofun
  skipListLevel := Nat.zero_le _
  elementCount := rfl

/-!
# Finding the place of a key
-/

/-- The cells with smaller keys, and the others. -/
structure SplitAt (key : K) (smaller rest : List (Cell K V)) : Prop where
  smaller : forall c, c ∈ smaller -> c.key < key
  rest : forall c, c ∈ rest -> ¬ c.key < key

omit [Inhabited K] [Inhabited V] in
theorem SplitAt.cons {key : K} {a : Cell K V} {smaller rest : List (Cell K V)}
    (hlt : a.key < key) (h : SplitAt key smaller rest) : SplitAt key (a :: smaller) rest where
  smaller := by
    intro c hc
    rcases List.mem_cons.mp hc with rfl | htail
    · exact hlt
    · exact h.smaller c htail
  rest := h.rest

/-- The node at which the search leaves level `i`. -/
def leftAt (list : LevelledList K V) (smaller : List (Cell K V)) (i : Nat) : Cell K V :=
  (lastAt Cell.level i (list.headerCell :: smaller)).getD list.headerCell

theorem suffix_append_of_split {α : Type} {l before mid : List α} {p : α}
    (h : l = before ++ p :: mid) (rest : List α) : p :: (mid ++ rest) <:+ l ++ rest :=
  ⟨before, by rw [h, List.append_assoc, List.cons_append]⟩

/-- What follows an element follows the head. -/
theorem mem_tail_of_split {α : Type} {a p c : α} {l before mid : List α}
    (h : a :: l = before ++ p :: mid) (hc : c ∈ mid) : c ∈ l := by
  cases before with
  | nil =>
      cases h
      exact hc
  | cons b before =>
      cases h
      exact List.mem_append_right before (List.mem_cons_of_mem p hc)

section

variable {list : LevelledList K V} {smaller rest before mid : List (Cell K V)} {key : K}
  {i : Nat} {p : Cell K V}

omit [LT K] in
theorem lastAt_leftAt (h : i ≤ list.maxLevel) :
    lastAt Cell.level i (list.headerCell :: smaller) = some (list.leftAt smaller i) := by
  rw [leftAt]
  cases hfirst : firstAt Cell.level i smaller with
  | none =>
      have hheader : i ≤ list.headerCell.level := h
      have hlast : lastAt Cell.level i (list.headerCell :: smaller) = some list.headerCell :=
        lastAt_append_cons hheader [] hfirst
      rw [hlast]
      rfl
  | some c =>
      rcases lastAt_of_firstAt hfirst [list.headerCell] with ⟨b, _, hlast⟩
      rw [List.singleton_append] at hlast
      rw [hlast]
      rfl

omit [LT K] in
/-- It is the last one that reaches the level. -/
theorem leftAt_split (smaller : List (Cell K V)) (h : i ≤ list.maxLevel) :
    i ≤ (list.leftAt smaller i).level ∧ exists before mid,
      list.headerCell :: smaller = before ++ list.leftAt smaller i :: mid ∧
        firstAt Cell.level i mid = none :=
  lastAt_eq_some.mp (lastAt_leftAt h)

omit [LT K] in
theorem leftAt_of_split (hsplit : list.headerCell :: smaller = before ++ p :: mid)
    (hlevel : i ≤ p.level) (hnone : firstAt Cell.level i mid = none) :
    list.leftAt smaller i = p := by
  rw [leftAt, hsplit, lastAt_append_cons hlevel before hnone]
  rfl

theorem Linked.walk (h : Linked list (smaller ++ rest)) (hs : SplitAt key smaller rest)
    [DecidableLT K] {steps : Nat} (hsplit : list.headerCell :: smaller = before ++ p :: mid)
    (hlevel : i ≤ p.level) (hsteps : mid.length < steps) :
    list.walk key i steps p.address = some (list.leftAt smaller i).address := by
  induction steps generalizing before mid p with
  | zero => exact absurd hsteps (Nat.not_lt_zero _)
  | succ steps ih =>
      have hsuffix : p :: (mid ++ rest) <:+ list.headerCell :: (smaller ++ rest) :=
        suffix_append_of_split hsplit rest
      have hforward := h.forward p (mid ++ rest) hsuffix i hlevel
      cases hfirst : firstAt Cell.level i mid with
      | none =>
          rw [leftAt_of_split hsplit hlevel hfirst]
          rw [firstAt_append_of_none hfirst] at hforward
          cases hnext : firstAt Cell.level i rest with
          | none =>
              rw [hnext] at hforward
              simp only [LevelledList.walk, Option.bind_eq_bind, hforward, Option.map_none,
                Option.bind_some]
              rfl
          | some c =>
              have hc := mem_of_firstAt hnext
              have hkey := h.key c (List.mem_append_right smaller hc)
              rw [hnext] at hforward
              simp only [LevelledList.walk, Option.bind_eq_bind, hforward, Option.map_some,
                Option.bind_some, hkey, hs.rest c hc, if_false]
              rfl
      | some c =>
          rcases firstAt_eq_some.mp hfirst with ⟨hreach, between, after, rfl, _⟩
          have hc : c ∈ smaller := mem_tail_of_split hsplit (mem_of_firstAt hfirst)
          have hkey := h.key c (List.mem_append_left rest hc)
          rw [firstAt_append_of_some hfirst] at hforward
          simp only [LevelledList.walk, Option.bind_eq_bind, hforward, Option.map_some,
            Option.bind_some, hkey, hs.smaller c hc, if_true]
          have hnext : list.headerCell :: smaller = (before ++ p :: between) ++ c :: after := by
            rw [hsplit, List.append_assoc, List.cons_append]
          apply ih hnext hreach
          rw [List.length_append, List.length_cons] at hsteps
          omega

theorem Linked.walkLevel (h : Linked list (smaller ++ rest))
    (hs : SplitAt key smaller rest) [DecidableLT K]
    (hsplit : list.headerCell :: smaller = before ++ p :: mid) (hlevel : i ≤ p.level) :
    list.walkLevel key i p.address = some (list.leftAt smaller i).address := by
  apply h.walk hs hsplit hlevel
  have hlength := congrArg List.length hsplit
  simp only [List.length_cons, List.length_append] at hlength
  rw [h.elementCount, List.length_append]
  omega

/-- The loop of a search ends at the last node with a smaller key. -/
theorem Linked.descend (h : Linked list (smaller ++ rest)) (hs : SplitAt key smaller rest)
    [DecidableLT K] (hsplit : list.headerCell :: smaller = before ++ p :: mid)
    (hlevel : i ≤ p.level) (hmax : i ≤ list.maxLevel) :
    list.descend key (i + 1) p.address = some (list.leftAt smaller 0).address := by
  induction i generalizing before mid p with
  | zero =>
      simp only [LevelledList.descend, Option.bind_eq_bind, h.walkLevel hs hsplit hlevel,
        Option.bind_some]
  | succ i ih =>
      rcases leftAt_split smaller hmax with ⟨hreach, before', mid', hsplit', _⟩
      rw [LevelledList.descend, h.walkLevel hs hsplit hlevel]
      exact ih hsplit' (by omega) (by omega)

theorem Linked.descend_header (h : Linked list (smaller ++ rest))
    (hs : SplitAt key smaller rest) [DecidableLT K] :
    list.descend key (list.skipListLevel + 1) header =
      some (list.leftAt smaller 0).address := by
  have hsplit : list.headerCell :: smaller = [] ++ list.headerCell :: smaller := rfl
  exact h.descend hs hsplit h.skipListLevel h.skipListLevel

theorem Linked.locate (h : Linked list (smaller ++ rest)) (hs : SplitAt key smaller rest)
    [DecidableLT K] (hsplit : list.headerCell :: smaller = before ++ p :: mid)
    (hlevel : i ≤ p.level) (hmax : i ≤ list.maxLevel) {update : List (Option Nat)}
    (hlength : i < update.length) :
    exists update', list.locate key (i + 1) p.address update =
        some ((list.leftAt smaller 0).address, update') ∧
      update'.length = update.length ∧
      forall j, predecessor update' j =
        if j ≤ i then some (list.leftAt smaller j).address else predecessor update j := by
  induction i generalizing before mid p update with
  | zero =>
      refine ⟨update.set 0 (some (list.leftAt smaller 0).address), ?_, List.length_set, ?_⟩
      · simp only [LevelledList.locate, Option.bind_eq_bind, h.walkLevel hs hsplit hlevel,
          Option.bind_some]
      · intro j
        rw [predecessor_set hlength]
        by_cases hj : j = 0
        · rw [if_pos hj, if_pos (Nat.le_of_eq hj), hj]
        · rw [if_neg hj, if_neg (by omega)]
  | succ i ih =>
      rcases leftAt_split smaller hmax with ⟨hreach, before', mid', hsplit', _⟩
      have hset : i <
          (update.set (i + 1) (some (list.leftAt smaller (i + 1)).address)).length := by
        rw [List.length_set]
        omega
      rcases ih hsplit' (by omega) (by omega) hset with ⟨update', hrun, hlen, hpred⟩
      refine ⟨update', ?_, hlen.trans List.length_set, ?_⟩
      · rw [LevelledList.locate, h.walkLevel hs hsplit hlevel]
        exact hrun
      · intro j
        rw [hpred, predecessor_set hlength]
        by_cases hj : j ≤ i
        · rw [if_pos hj, if_pos (by omega)]
        · rw [if_neg hj]
          by_cases htop : j = i + 1
          · rw [if_pos htop, if_pos (by omega), htop]
          · rw [if_neg htop, if_neg (by omega)]

/-- The loop of every operation, from the header on the highest level. -/
theorem Linked.locate_header (h : Linked list (smaller ++ rest))
    (hs : SplitAt key smaller rest) [DecidableLT K] :
    exists update, list.locate key (list.skipListLevel + 1) header
        (List.replicate (list.maxLevel + 1) none) =
          some ((list.leftAt smaller 0).address, update) ∧
      update.length = list.maxLevel + 1 ∧
      forall i, i ≤ list.skipListLevel ->
        predecessor update i = some (list.leftAt smaller i).address := by
  have hlength : list.skipListLevel < (List.replicate (list.maxLevel + 1)
      (none : Option Nat)).length := by
    rw [List.length_replicate]
    exact Nat.lt_succ_of_le h.skipListLevel
  have hsplit : list.headerCell :: smaller = [] ++ list.headerCell :: smaller := rfl
  rcases h.locate hs hsplit h.skipListLevel h.skipListLevel hlength with
    ⟨update, hrun, hlen, hpred⟩
  refine ⟨update, hrun, hlen.trans (List.length_replicate), ?_⟩
  intro i hi
  rw [hpred, if_pos hi]

/-- Behind it comes the first node whose key is not smaller. -/
theorem Linked.forward_leftAt (h : Linked list (smaller ++ rest)) :
    list.forwardOf (list.leftAt smaller 0).address 0 = some (rest.head?.map Cell.address) := by
  rcases leftAt_split smaller (Nat.zero_le list.maxLevel) with
    ⟨hreach, before, mid, hsplit, hnone⟩
  have hforward := h.forward _ (mid ++ rest) (suffix_append_of_split hsplit rest) 0 hreach
  rw [hforward, firstAt_append_of_none hnone, firstAt_zero]

end

end LevelledList
end KVRaft
