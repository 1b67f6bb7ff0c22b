import KVRaft.SkipList.Relinking

/-!
# The operations of the skip list

No operation follows a null or dangling pointer, and each leaves the levels
linked, with its node added or removed at the place of its key.
-/

namespace KVRaft

open Foundation

namespace LevelledList

variable {K V : Type} [Inhabited K] [Inhabited V] [LT K] [DecidableLT K] [DecidableEq K]
  {list : LevelledList K V} {cells smaller rest : List (Cell K V)} {c : Cell K V} {key : K}

omit [DecidableLT K] in
theorem Linked.withKey_found (h : Linked list (smaller ++ c :: rest)) (hkey : c.key = key) :
    list.withKey key (some c.address) = some (some c.address) := by
  have hc := h.key c (List.mem_append_right smaller List.mem_cons_self)
  simp only [withKey, Option.bind_eq_bind, hc, Option.bind_some, hkey, if_true]
  rfl

omit [DecidableLT K] in
theorem Linked.withKey_missing (h : Linked list (smaller ++ rest))
    (hrest : forall c, c ∈ rest -> c.key ≠ key) :
    list.withKey key (rest.head?.map Cell.address) = some none := by
  cases rest with
  | nil => rfl
  | cons c rest =>
      have hc := h.key c (List.mem_append_right smaller List.mem_cons_self)
      have hne := hrest c List.mem_cons_self
      simp only [List.head?_cons, Option.map_some, withKey, Option.bind_eq_bind, hc,
        Option.bind_some, hne, if_false]
      rfl

/-!
# Searching
-/

theorem Linked.searchElement_found (h : Linked list (smaller ++ c :: rest))
    (hs : SplitAt key smaller (c :: rest)) (hkey : c.key = key) :
    list.searchElement key = some (some c.value) := by
  have hvalue := h.value c (List.mem_append_right smaller List.mem_cons_self)
  simp only [searchElement, Option.bind_eq_bind, h.descend_header hs, h.forward_leftAt,
    Option.bind_some, List.head?_cons, Option.map_some, h.withKey_found hkey, hvalue]
  rfl

theorem Linked.searchElement_missing (h : Linked list (smaller ++ rest))
    (hs : SplitAt key smaller rest) (hrest : forall c, c ∈ rest -> c.key ≠ key) :
    list.searchElement key = some none := by
  simp only [searchElement, Option.bind_eq_bind, h.descend_header hs, h.forward_leftAt,
    Option.bind_some, h.withKey_missing hrest]
  rfl

/-!
# Inserting
-/

theorem Linked.insertElement_found (h : Linked list (smaller ++ c :: rest))
    (hs : SplitAt key smaller (c :: rest)) (hkey : c.key = key) (value : V) (heads : Nat) :
    list.insertElement key value heads = some (list, 1) := by
  rcases h.locate_header hs with ⟨update, hlocate, _, _⟩
  have hforward := h.forward_leftAt
  simp only [insertElement, Option.bind_eq_bind, hlocate, hforward, Option.bind_some,
    List.head?_cons, Option.map_some, h.withKey_found hkey]
  rfl

omit [DecidableLT K] [DecidableEq K] in
/-- The loop that links a new node on its levels. -/
theorem Linked.linkLevels_created (h : Linked list (smaller ++ rest))
    {created : LevelledList K V} {randomLevel : Nat} (hmax : randomLevel ≤ list.maxLevel)
    (hcreated : forall p i, created.forwardOf p i =
      if p = list.next then (List.replicate (randomLevel + 1) none)[i]?
      else list.forwardOf p i)
    {update : List (Option Nat)} (hupdate : forall i, i < randomLevel + 1 ->
      predecessor update i = some (list.leftAt smaller i).address) :
    exists linked, linkLevels update list.next (randomLevel + 1) 0 created = some linked ∧
      SameNodes created linked ∧
      (forall i, i ≤ randomLevel ->
        linked.forwardOf list.next i = list.forwardOf (list.leftAt smaller i).address i) ∧
      forall p i, p ≠ list.next -> linked.forwardOf p i =
        if i ≤ randomLevel ∧ p = (list.leftAt smaller i).address then some (some list.next)
        else list.forwardOf p i := by
  have hother : forall i, i < randomLevel + 1 ->
      (list.leftAt smaller i).address ≠ list.next := by
    intro i hi
    exact h.ne_next (List.mem_append_left rest (mem_leftAt (by omega)))
  have hbefore : forall i, i < randomLevel + 1 ->
      (created.forwardOf (list.leftAt smaller i).address i).isSome := by
    intro i hi
    rw [hcreated, if_neg (hother i hi), h.forward_left (by omega)]
    rfl
  have hnew : forall i, i < randomLevel + 1 -> (created.forwardOf list.next i).isSome := by
    intro i hi
    rw [hcreated, if_pos rfl, List.getElem?_replicate_of_lt hi]
    rfl
  rcases linkLevels_eq hupdate hother created (Nat.zero_add (randomLevel + 1)) hbefore hnew with
    ⟨linked, hlink, hsame, hlinked⟩
  refine ⟨linked, hlink, hsame, ?_, ?_⟩
  · intro i hi
    have hlt : i < randomLevel + 1 := Nat.lt_succ_of_le hi
    rw [hlinked, if_pos ⟨Nat.zero_le i, hlt⟩, if_pos rfl, hcreated, if_neg (hother i hlt)]
  · intro p i hp
    rw [hlinked]
    by_cases hi : i ≤ randomLevel
    · rw [if_pos ⟨Nat.zero_le i, Nat.lt_succ_of_le hi⟩, if_neg hp, hcreated, if_neg hp]
      simp only [hi, true_and]
    · have hout : ¬ (0 ≤ i ∧ i < randomLevel + 1) := by omega
      rw [if_neg hout, hcreated, if_neg hp, if_neg (fun hboth => hi hboth.1)]

theorem Linked.insertElement_missing (h : Linked list (smaller ++ rest))
    (hs : SplitAt key smaller rest) (hrest : forall c, c ∈ rest -> c.key ≠ key) (value : V)
    (heads : Nat) :
    exists list', list.insertElement key value heads = some (list', 0) ∧
      Inserted list list' smaller key value (list.getRandomLevel heads) := by
  rcases h.locate_header hs with ⟨update, hlocate, hlength, hpred⟩
  have hforward := h.forward_leftAt
  have hmax := getRandomLevel_le list heads
  generalize hr : list.getRandomLevel heads = randomLevel at hmax ⊢
  rcases h.raiseTo_eq hlength hpred hmax with ⟨update', hraised, hupdate⟩
  let raised : LevelledList K V :=
    { list with skipListLevel := max list.skipListLevel randomLevel }
  have hcreated := forwardOf_createNode raised key value randomLevel
  rcases h.linkLevels_created hmax hcreated hupdate with ⟨linked, hlink, hsame, hnew, hold⟩
  refine ⟨{ linked with elementCount := linked.elementCount + 1 }, ?_, ?_⟩
  · simp only [insertElement, Option.bind_eq_bind, hlocate, hforward, Option.bind_some,
      h.withKey_missing hrest, hr, hraised]
    change (linkLevels update' list.next (randomLevel + 1) 0
      (raised.createNode key value randomLevel).1).bind _ = _
    rw [hlink]
    rfl
  · constructor
    · exact hsame.maxLevel
    · exact hsame.skipListLevel
    · exact congrArg (· + 1) hsame.elementCount
    · exact hsame.next
    · intro p
      exact (hsame.key p).trans (getKey_createNode raised key value randomLevel p)
    · intro p
      exact (hsame.value p).trans (getValue_createNode raised key value randomLevel p)
    · exact hnew
    · exact hold

/-!
# Deleting
-/

theorem Linked.deleteElement_missing (h : Linked list (smaller ++ rest))
    (hs : SplitAt key smaller rest) (hrest : forall c, c ∈ rest -> c.key ≠ key) :
    list.deleteElement key = some list := by
  rcases h.locate_header hs with ⟨update, hlocate, _, _⟩
  simp only [deleteElement, Option.bind_eq_bind, hlocate, h.forward_leftAt, Option.bind_some,
    h.withKey_missing hrest]
  rfl

omit [DecidableLT K] [DecidableEq K] in
/-- The loop that unlinks the node of a cell on its levels. -/
theorem Linked.unlinkLevels_cell (h : Linked list (smaller ++ c :: rest))
    {update : List (Option Nat)} (hpred : forall i, i ≤ list.skipListLevel ->
      predecessor update i = some (list.leftAt smaller i).address) :
    exists unlinked,
      unlinkLevels update c.address (list.skipListLevel + 1) 0 list = some unlinked ∧
      SameNodes list unlinked ∧ forall p i, unlinked.forwardOf p i =
        if i ≤ c.level ∧ p = (list.leftAt smaller i).address then list.forwardOf c.address i
        else list.forwardOf p i := by
  have hlevel := h.level c (List.mem_append_right smaller List.mem_cons_self)
  have hupdate : forall i, i < list.skipListLevel + 1 ->
      predecessor update i = some (list.leftAt smaller i).address := by
    intro i hi
    exact hpred i (Nat.le_of_lt_succ hi)
  have hpoints : forall i, 0 ≤ i -> i < list.skipListLevel + 1 ->
      exists q, list.forwardOf (list.leftAt smaller i).address i = some q ∧
        (q = some c.address <-> i ≤ c.level) := by
    intro i _ hi
    exact h.left_points (Nat.le_trans (Nat.le_of_lt_succ hi) h.skipListLevel)
  have hcell : forall i, i ≤ c.level -> (list.forwardOf c.address i).isSome := by
    intro i hi
    rw [h.forward_cell hi]
    rfl
  rcases unlinkLevels_eq hupdate list (Nat.zero_add (list.skipListLevel + 1)) hpoints hcell with
    ⟨unlinked, hunlink, hsame, hunlinked⟩
  refine ⟨unlinked, hunlink, hsame, ?_⟩
  intro p i
  have hiff : 0 ≤ i ∧ i < list.skipListLevel + 1 ∧ i ≤ c.level ∧
      p = (list.leftAt smaller i).address <->
        i ≤ c.level ∧ p = (list.leftAt smaller i).address := by
    omega
  rw [hunlinked]
  simp only [hiff]

omit [DecidableLT K] [DecidableEq K] in
/-- The loop that drops the levels on which nothing is left. -/
theorem Linked.dropLevels_unlinked (h : Linked list (smaller ++ c :: rest))
    {unlinked : LevelledList K V}
    (hunlinked : forall p i, unlinked.forwardOf p i =
      if i ≤ c.level ∧ p = (list.leftAt smaller i).address then list.forwardOf c.address i
      else list.forwardOf p i) :
    exists level, unlinked.dropLevels list.skipListLevel = some level ∧
      level ≤ list.skipListLevel ∧ forall i, level < i -> i ≤ list.skipListLevel ->
        unlinked.forwardOf header i = some none := by
  apply dropLevels_eq
  intro i hi
  rw [hunlinked]
  by_cases hleft : i ≤ c.level ∧ header = (list.leftAt smaller i).address
  · rw [if_pos hleft, h.forward_cell hleft.1]
    rfl
  · rw [if_neg hleft]
    have hold := h.forward list.headerCell (smaller ++ c :: rest) List.suffix_rfl i
      (Nat.le_trans hi h.skipListLevel)
    change list.forwardOf header i = _ at hold
    rw [hold]
    rfl

theorem Linked.deleteElement_found (h : Linked list (smaller ++ c :: rest))
    (hs : SplitAt key smaller (c :: rest)) (hkey : c.key = key) :
    exists list', list.deleteElement key = some list' ∧ Deleted list list' smaller c := by
  rcases h.locate_header hs with ⟨update, hlocate, _, hpred⟩
  have hforward := h.forward_leftAt
  rcases h.unlinkLevels_cell hpred with ⟨unlinked, hunlink, hsame, hunlinked⟩
  rcases h.dropLevels_unlinked hunlinked with ⟨level, hdrop, hle, hempty⟩
  let dropped : LevelledList K V := { unlinked with skipListLevel := level }
  refine ⟨{ dropped.setNode c.address none with
    elementCount := unlinked.elementCount - 1 }, ?_, ?_⟩
  · simp only [deleteElement, Option.bind_eq_bind, hlocate, hforward, Option.bind_some,
      List.head?_cons, Option.map_some, h.withKey_found hkey, hunlink, hsame.skipListLevel,
      hdrop]
    rfl
  · have hgone : forall p i, p ≠ c.address ->
        (dropped.setNode c.address none).forwardOf p i = unlinked.forwardOf p i := by
      intro p i hp
      rw [forwardOf_setNode, if_neg hp]
      rfl
    constructor
    · exact hsame.maxLevel
    · exact congrArg (· - 1) hsame.elementCount
    · exact hsame.next
    · intro p hp
      refine Eq.trans ?_ (hsame.key p)
      exact (getKey_setNode dropped c.address none p).trans (if_neg hp)
    · intro p hp
      refine Eq.trans ?_ (hsame.value p)
      exact (getValue_setNode dropped c.address none p).trans (if_neg hp)
    · intro p i hp
      exact (hgone p i hp).trans (hunlinked p i)
    · exact hle
    · intro i hlt hi
      have hne : header ≠ c.address :=
        (h.address_ne (q := list.headerCell) List.mem_cons_self List.mem_cons_self).symm
      exact (hgone header i hne).trans (hempty i hlt hi)

/-!
# Overwriting
-/

omit [Inhabited K] [Inhabited V] in
theorem insertSetElement_absent {list' : LevelledList K V} {value : V} {heads : Nat}
    {code : Int} (hsearch : list.searchElement key = some none)
    (hinsert : list.insertElement key value heads = some (list', code)) :
    list.insertSetElement key value heads = some list' := by
  simp only [insertSetElement, Option.bind_eq_bind, hsearch, Option.bind_some, hinsert]
  rfl

omit [Inhabited K] [Inhabited V] in
theorem insertSetElement_present {deleted list' : LevelledList K V} {old value : V}
    {heads : Nat} {code : Int} (hsearch : list.searchElement key = some (some old))
    (hdelete : list.deleteElement key = some deleted)
    (hinsert : deleted.insertElement key value heads = some (list', code)) :
    list.insertSetElement key value heads = some list' := by
  simp only [insertSetElement, Option.bind_eq_bind, hsearch, Option.bind_some, hdelete,
    hinsert]
  rfl

end LevelledList
end KVRaft
