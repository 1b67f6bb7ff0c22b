import KVRaft.SkipList.Linked

/-!
# Adding and removing a node

Both change what the nodes at which a search leaves the levels point to, and
nothing else.
-/

namespace KVRaft

open Foundation

namespace LevelledList

variable {K V : Type} [Inhabited K] [Inhabited V] [LT K] {list list' : LevelledList K V}
  {cells smaller rest before mid : List (Cell K V)} {c p : Cell K V} {key : K} {value : V}
  {i randomLevel : Nat}

/-!
# Changing the links of the nodes before a place
-/

omit [LT K] in
theorem mem_leftAt (h : i ≤ list.maxLevel) :
    list.leftAt smaller i ∈ list.headerCell :: smaller := by
  rcases leftAt_split smaller h with ⟨_, before, mid, hsplit, _⟩
  rw [hsplit]
  exact List.mem_append_right before List.mem_cons_self

/-- What the nodes at which a search leaves the levels point to. -/
theorem Linked.forward_left (h : Linked list (smaller ++ rest)) (hmax : i ≤ list.maxLevel) :
    list.forwardOf (list.leftAt smaller i).address i =
      some ((firstAt Cell.level i rest).map Cell.address) := by
  rcases leftAt_split smaller hmax with ⟨hreach, before, mid, hsplit, hnone⟩
  have hforward := h.forward _ (mid ++ rest) (suffix_append_of_split hsplit rest) i hreach
  rw [hforward, firstAt_append_of_none hnone]

/-- The nodes before a place are not those behind it. -/
theorem Linked.address_ne (h : Linked list (smaller ++ rest)) {q : Cell K V}
    (hq : q ∈ list.headerCell :: smaller) (hp : p ∈ rest) : p.address ≠ q.address := by
  have hnodup := h.addresses
  rw [← List.cons_append, List.map_append, List.nodup_append] at hnodup
  exact (hnodup.2.2 _ (List.mem_map_of_mem hq) _ (List.mem_map_of_mem hp)).symm

/-- So a search leaves no level at a node behind its place. -/
theorem Linked.behind_ne_left (h : Linked list (smaller ++ rest)) {top : Nat}
    (hmax : top ≤ list.maxLevel) (hp : p ∈ rest) :
    ¬ (i ≤ top ∧ p.address = (list.leftAt smaller i).address) := by
  rintro ⟨hle, heq⟩
  exact h.address_ne (mem_leftAt (Nat.le_trans hle hmax)) hp heq

/-- Nor are they the node of a cell at the place. -/
theorem Linked.ne_cell (h : Linked list (smaller ++ c :: rest)) {d : Cell K V}
    (hd : d ∈ list.headerCell :: (smaller ++ rest)) : d.address ≠ c.address := by
  have hnodup := h.addresses
  rw [← List.cons_append, List.map_append, List.map_cons (l := rest), List.nodup_middle,
    ← List.map_append, List.cons_append] at hnodup
  intro heq
  have hnot := (List.nodup_cons.mp hnodup).1
  rw [← heq] at hnot
  exact hnot (List.mem_map_of_mem hd)

/-- A node is that of a level exactly when no later one reaches it. -/
theorem Linked.address_leftAt (h : Linked list (smaller ++ rest))
    (hsplit : list.headerCell :: smaller = before ++ p :: mid) (hlevel : i ≤ p.level) :
    p.address = (list.leftAt smaller i).address <-> firstAt Cell.level i mid = none := by
  constructor
  · intro haddress
    cases hfirst : firstAt Cell.level i mid with
    | none => rfl
    | some d =>
        rcases lastAt_of_firstAt hfirst (before ++ [p]) with ⟨b, hb, hlast⟩
        have hleft : list.leftAt smaller i = b := by
          rw [List.append_assoc, List.singleton_append, ← hsplit] at hlast
          rw [leftAt, hlast]
          rfl
        have hnodup : ((p :: (mid ++ rest)).map Cell.address).Nodup :=
          h.addresses.sublist ((suffix_append_of_split hsplit rest).sublist.map _)
        have hnot := (List.nodup_cons.mp hnodup).1
        rw [hleft] at haddress
        rw [haddress] at hnot
        exact absurd (List.mem_map_of_mem (List.mem_append_left rest hb)) hnot
  · intro hnone
    rw [leftAt_of_split hsplit hlevel hnone]

/-- Those nodes alone are set to what comes behind the place from now on. -/
theorem Linked.relink {back : List (Cell K V)} (h : Linked list (smaller ++ rest)) (top : Nat)
    (hforward : forall p, p ∈ list.headerCell :: smaller -> forall i, i ≤ p.level ->
      list'.forwardOf p.address i =
        if i ≤ top ∧ p.address = (list.leftAt smaller i).address then
          some ((firstAt Cell.level i back).map Cell.address)
        else list.forwardOf p.address i)
    (hsame : forall i, top < i -> firstAt Cell.level i back = firstAt Cell.level i rest)
    (hsplit : list.headerCell :: smaller = before ++ p :: mid) (hlevel : i ≤ p.level) :
    list'.forwardOf p.address i =
      some ((firstAt Cell.level i (mid ++ back)).map Cell.address) := by
  have hp : p ∈ list.headerCell :: smaller := by
    rw [hsplit]
    exact List.mem_append_right before List.mem_cons_self
  have hold := h.forward p (mid ++ rest) (suffix_append_of_split hsplit rest) i hlevel
  have haddress := h.address_leftAt hsplit hlevel
  rw [hforward p hp i hlevel]
  cases hfirst : firstAt Cell.level i mid with
  | none =>
      rw [firstAt_append_of_none hfirst]
      rw [firstAt_append_of_none hfirst] at hold
      by_cases htop : i ≤ top
      · rw [if_pos ⟨htop, haddress.mpr hfirst⟩]
      · rw [if_neg (fun hboth => htop hboth.1), hold, hsame i (Nat.lt_of_not_le htop)]
  | some d =>
      rw [firstAt_append_of_some hfirst]
      rw [firstAt_append_of_some hfirst] at hold
      rw [hfirst] at haddress
      rw [if_neg (fun hboth => nomatch haddress.mp hboth.2), hold]

theorem suffix_append_cases {α : Type} {p : α} {post l r : List α}
    (h : p :: post <:+ l ++ r) :
    p :: post <:+ r ∨ exists before mid, l = before ++ p :: mid ∧ post = mid ++ r := by
  rcases h with ⟨before, heq⟩
  rcases List.append_eq_append_iff.mp heq with ⟨mid, hl, hr⟩ | ⟨mid, hl, hr⟩
  · cases mid with
    | nil =>
        left
        exact ⟨[], hr⟩
    | cons a mid =>
        right
        rw [List.cons_append] at hr
        cases hr
        exact ⟨before, mid, hl, rfl⟩
  · left
    exact ⟨mid, hr.symm⟩

/-!
# A new node
-/

/-- A new node, linked behind the nodes at which the search leaves its levels. -/
structure Inserted (list list' : LevelledList K V) (smaller : List (Cell K V)) (key : K)
    (value : V) (randomLevel : Nat) : Prop where
  maxLevel : list'.maxLevel = list.maxLevel
  skipListLevel : list'.skipListLevel = max list.skipListLevel randomLevel
  elementCount : list'.elementCount = list.elementCount + 1
  next : list'.next = list.next + 1
  key : forall p, list'.getKey p = if p = list.next then some key else list.getKey p
  value : forall p, list'.getValue p = if p = list.next then some value else list.getValue p
  new : forall i, i ≤ randomLevel ->
    list'.forwardOf list.next i = list.forwardOf (list.leftAt smaller i).address i
  old : forall p i, p ≠ list.next -> list'.forwardOf p i =
    if i ≤ randomLevel ∧ p = (list.leftAt smaller i).address then some (some list.next)
    else list.forwardOf p i

/-- On the levels that the list did not have, every search stays at the header. -/
theorem Linked.leftAt_above (h : Linked list (smaller ++ rest))
    (hlt : list.skipListLevel < i) (hmax : i ≤ list.maxLevel) :
    list.leftAt smaller i = list.headerCell := by
  have hnone : firstAt Cell.level i smaller = none := by
    apply firstAt_eq_none.mpr
    intro c hc
    have := h.level c (List.mem_append_left rest hc)
    omega
  have hreach : i ≤ list.headerCell.level := hmax
  have hsplit : list.headerCell :: smaller = [] ++ list.headerCell :: smaller := rfl
  exact leftAt_of_split hsplit hreach hnone

theorem Linked.raiseTo_eq (h : Linked list (smaller ++ rest))
    {update : List (Option Nat)} (hlength : update.length = list.maxLevel + 1)
    (hpred : forall i, i ≤ list.skipListLevel ->
      predecessor update i = some (list.leftAt smaller i).address)
    (hmax : randomLevel ≤ list.maxLevel) :
    exists update', raiseTo list.skipListLevel randomLevel update =
        (max list.skipListLevel randomLevel, update') ∧
      forall i, i < randomLevel + 1 ->
        predecessor update' i = some (list.leftAt smaller i).address := by
  have hroom : randomLevel < update.length := by
    rw [hlength]
    exact Nat.lt_succ_of_le hmax
  rcases LevelledList.raiseTo_eq list.skipListLevel hroom with ⟨hlevel, hraise⟩
  refine ⟨_, Prod.ext hlevel rfl, ?_⟩
  intro i hi
  rw [hraise]
  by_cases hnew : list.skipListLevel < i ∧ i ≤ randomLevel
  · rw [if_pos hnew, h.leftAt_above hnew.1 (by omega)]
    rfl
  · rw [if_neg hnew, hpred i (by omega)]

omit [LT K] in
theorem headerCell_congr (h : list'.maxLevel = list.maxLevel) :
    list'.headerCell = list.headerCell := by
  rw [headerCell, headerCell, h]

/-- The cell of a new node. -/
def newCell (list : LevelledList K V) (key : K) (value : V) (level : Nat) : Cell K V where
  address := list.next
  level := level
  key := key
  value := value

theorem Linked.ne_next (h : Linked list cells) (hc : c ∈ list.headerCell :: cells) :
    c.address ≠ list.next :=
  Nat.ne_of_lt (h.allocated c hc)

theorem Linked.forward_insert (h : Linked list (smaller ++ rest))
    (hins : Inserted list list' smaller key value randomLevel)
    (hmax : randomLevel ≤ list.maxLevel) {post : List (Cell K V)}
    (hsuffix : p :: post <:+
      list.headerCell :: smaller ++ list.newCell key value randomLevel :: rest)
    (hi : i ≤ p.level) :
    list'.forwardOf p.address i = some ((firstAt Cell.level i post).map Cell.address) := by
  rcases suffix_append_cases hsuffix with hback | ⟨before, mid, hsplit, rfl⟩
  · rcases List.suffix_cons_iff.mp hback with heq | hback
    · cases heq
      change list'.forwardOf list.next i = _
      rw [hins.new i hi, h.forward_left (Nat.le_trans hi hmax)]
    · have hp : p ∈ rest := hback.subset List.mem_cons_self
      have hbefore := hback.trans (List.suffix_append (list.headerCell :: smaller) rest)
      rw [hins.old _ _ (h.ne_next (List.mem_append_right (list.headerCell :: smaller) hp)),
        if_neg (h.behind_ne_left hmax hp), h.forward p post hbefore i hi]
  · apply h.relink randomLevel ?_ ?_ hsplit hi
    · intro q hq j _
      rw [hins.old _ _ (h.ne_next (List.mem_append_left rest hq))]
      by_cases hleft : j ≤ randomLevel ∧ q.address = (list.leftAt smaller j).address
      · rw [if_pos hleft, if_pos hleft, firstAt_cons_of_le hleft.1]
        rfl
      · rw [if_neg hleft, if_neg hleft]
    · intro j hj
      exact firstAt_cons_of_lt hj rest

omit [Inhabited K] [Inhabited V] in
theorem SplitAt.sorted_insert (hs : SplitAt key smaller rest)
    (hsorted : (smaller ++ rest).Pairwise fun a b => a.key < b.key)
    (hrest : forall c, c ∈ rest -> key < c.key) (hkey : c.key = key) :
    (smaller ++ c :: rest).Pairwise fun a b => a.key < b.key := by
  subst hkey
  rcases List.pairwise_append.mp hsorted with ⟨hsmaller, hback, hacross⟩
  apply List.pairwise_append.mpr
  refine ⟨hsmaller, List.pairwise_cons.mpr ⟨hrest, hback⟩, ?_⟩
  intro a ha b hb
  rcases List.mem_cons.mp hb with rfl | hb
  · exact hs.smaller a ha
  · exact hacross a ha b hb

/-- A new node leaves the list linked. -/
theorem Linked.insert (h : Linked list (smaller ++ rest)) (hs : SplitAt key smaller rest)
    (hrest : forall c, c ∈ rest -> key < c.key)
    (hins : Inserted list list' smaller key value randomLevel)
    (hmax : randomLevel ≤ list.maxLevel) :
    Linked list' (smaller ++ list.newCell key value randomLevel :: rest) := by
  have hheader := headerCell_congr hins.maxLevel
  have hmem : forall d, d ∈ smaller ++ list.newCell key value randomLevel :: rest ->
      d = list.newCell key value randomLevel ∨ d ∈ smaller ++ rest := by
    intro d hd
    exact List.mem_cons.mp (List.perm_middle.mem_iff.mp hd)
  constructor
  · exact hs.sorted_insert h.sorted hrest rfl
  · rw [hheader, ← List.cons_append, List.map_append, List.map_cons (l := rest),
      List.nodup_middle, ← List.map_append, List.cons_append]
    apply List.nodup_cons.mpr
    refine ⟨?_, h.addresses⟩
    intro hold
    rcases List.mem_map.mp hold with ⟨d, hd, heq⟩
    exact h.ne_next hd heq
  · intro d hd
    rw [hheader] at hd
    rw [hins.next]
    rcases List.mem_cons.mp hd with rfl | hd
    · exact Nat.lt_succ_of_lt (h.allocated _ List.mem_cons_self)
    · rcases hmem d hd with rfl | hd
      · exact Nat.lt_succ_self _
      · exact Nat.lt_succ_of_lt (h.allocated d (List.mem_cons_of_mem _ hd))
  · intro d hd
    rw [hins.key]
    rcases hmem d hd with rfl | hd
    · exact if_pos rfl
    · rw [if_neg (h.ne_next (List.mem_cons_of_mem _ hd)), h.key d hd]
  · intro d hd
    rw [hins.value]
    rcases hmem d hd with rfl | hd
    · exact if_pos rfl
    · rw [if_neg (h.ne_next (List.mem_cons_of_mem _ hd)), h.value d hd]
  · intro p post hsuffix i hi
    rw [hheader, ← List.cons_append] at hsuffix
    exact h.forward_insert hins hmax hsuffix hi
  · intro d hd
    rw [hins.skipListLevel]
    rcases hmem d hd with rfl | hd
    · exact Nat.le_max_right _ _
    · exact Nat.le_trans (h.level d hd) (Nat.le_max_left _ _)
  · rw [hins.skipListLevel, hins.maxLevel]
    exact Nat.max_le.mpr ⟨h.skipListLevel, hmax⟩
  · rw [hins.elementCount, h.elementCount]
    simp only [List.length_append, List.length_cons]
    omega

/-!
# A removed node
-/

/-- The node of a cell is gone, and those that pointed to it point behind it. -/
structure Deleted (list list' : LevelledList K V) (smaller : List (Cell K V)) (c : Cell K V) :
    Prop where
  maxLevel : list'.maxLevel = list.maxLevel
  elementCount : list'.elementCount = list.elementCount - 1
  next : list'.next = list.next
  key : forall p, p ≠ c.address -> list'.getKey p = list.getKey p
  value : forall p, p ≠ c.address -> list'.getValue p = list.getValue p
  forward : forall p i, p ≠ c.address -> list'.forwardOf p i =
    if i ≤ c.level ∧ p = (list.leftAt smaller i).address then list.forwardOf c.address i
    else list.forwardOf p i
  skipListLevel : list'.skipListLevel ≤ list.skipListLevel
  dropped : forall i, list'.skipListLevel < i -> i ≤ list.skipListLevel ->
    list'.forwardOf header i = some none

theorem Linked.forward_cell (h : Linked list (smaller ++ c :: rest))
    (hi : i ≤ c.level) :
    list.forwardOf c.address i = some ((firstAt Cell.level i rest).map Cell.address) :=
  h.forward c rest (List.suffix_append (list.headerCell :: smaller) (c :: rest)) i hi

/-- The search leaves a level at a pointer to the cell exactly on the levels of the cell. -/
theorem Linked.left_points (h : Linked list (smaller ++ c :: rest))
    (hmax : i ≤ list.maxLevel) :
    exists q, list.forwardOf (list.leftAt smaller i).address i = some q ∧
      (q = some c.address <-> i ≤ c.level) := by
  refine ⟨_, h.forward_left hmax, ?_⟩
  by_cases hi : i ≤ c.level
  · rw [firstAt_cons_of_le hi]
    exact ⟨fun _ => hi, fun _ => rfl⟩
  · rw [firstAt_cons_of_lt (Nat.lt_of_not_le hi)]
    constructor
    · intro heq
      rcases Option.map_eq_some_iff.mp heq with ⟨d, hd, haddress⟩
      have hmem := List.mem_append_right (list.headerCell :: smaller) (mem_of_firstAt hd)
      exact absurd haddress (h.ne_cell hmem)
    · intro hle
      exact absurd hle hi

theorem Linked.forward_delete (h : Linked list (smaller ++ c :: rest))
    (hdel : Deleted list list' smaller c) {post : List (Cell K V)}
    (hsuffix : p :: post <:+ list.headerCell :: (smaller ++ rest)) (hi : i ≤ p.level) :
    list'.forwardOf p.address i = some ((firstAt Cell.level i post).map Cell.address) := by
  have hmax : c.level ≤ list.maxLevel :=
    Nat.le_trans (h.level c (List.mem_append_right smaller List.mem_cons_self)) h.skipListLevel
  rw [← List.cons_append] at hsuffix
  rcases suffix_append_cases hsuffix with hrest | ⟨before, mid, hsplit, rfl⟩
  · have hp : p ∈ rest := hrest.subset List.mem_cons_self
    have hne := h.ne_cell (List.mem_append_right (list.headerCell :: smaller) hp)
    have hbefore : p :: post <:+ list.headerCell :: (smaller ++ c :: rest) :=
      (hrest.trans (List.suffix_cons c rest)).trans
        (List.suffix_append (list.headerCell :: smaller) (c :: rest))
    rw [hdel.forward _ _ hne, if_neg (h.behind_ne_left hmax (List.mem_cons_of_mem c hp)),
      h.forward p post hbefore i hi]
  · apply h.relink c.level ?_ ?_ hsplit hi
    · intro q hq j _
      rw [hdel.forward _ _ (h.address_ne hq List.mem_cons_self).symm]
      by_cases hleft : j ≤ c.level ∧ q.address = (list.leftAt smaller j).address
      · rw [if_pos hleft, if_pos hleft, h.forward_cell hleft.1]
      · rw [if_neg hleft, if_neg hleft]
    · intro j hj
      exact (firstAt_cons_of_lt hj rest).symm

/-- A node above the new level would make one of the dropped levels not empty. -/
theorem Linked.level_delete (h : Linked list (smaller ++ c :: rest))
    (hdel : Deleted list list' smaller c) {d : Cell K V} (hd : d ∈ smaller ++ rest)
    (hle : d.level ≤ list.skipListLevel) : d.level ≤ list'.skipListLevel := by
  apply Nat.le_of_not_lt
  intro hlt
  have hlink := h.forward_delete hdel (p := list.headerCell) List.suffix_rfl
    (Nat.le_trans hle h.skipListLevel)
  change list'.forwardOf header d.level = _ at hlink
  rw [hdel.dropped d.level hlt hle, Option.some_inj] at hlink
  have hnone := Option.map_eq_none_iff.mp hlink.symm
  exact absurd (firstAt_eq_none.mp hnone d hd) (Nat.lt_irrefl _)

/-- A removed node leaves the list linked. -/
theorem Linked.delete (h : Linked list (smaller ++ c :: rest))
    (hdel : Deleted list list' smaller c) : Linked list' (smaller ++ rest) := by
  have hheader := headerCell_congr hdel.maxLevel
  have hsub : (smaller ++ rest).Sublist (smaller ++ c :: rest) :=
    (List.Sublist.refl smaller).append (List.sublist_cons_self c rest)
  have hne : forall d, d ∈ smaller ++ rest -> d.address ≠ c.address := by
    intro d hd
    exact h.ne_cell (List.mem_cons_of_mem _ hd)
  constructor
  · exact h.sorted.sublist hsub
  · rw [hheader]
    exact h.addresses.sublist ((hsub.cons_cons list.headerCell).map _)
  · intro d hd
    rw [hheader] at hd
    rw [hdel.next]
    exact h.allocated d ((hsub.cons_cons list.headerCell).subset hd)
  · intro d hd
    rw [hdel.key _ (hne d hd), h.key d (hsub.subset hd)]
  · intro d hd
    rw [hdel.value _ (hne d hd), h.value d (hsub.subset hd)]
  · intro p post hsuffix i hi
    rw [hheader] at hsuffix
    exact h.forward_delete hdel hsuffix hi
  · intro d hd
    exact h.level_delete hdel hd (h.level d (hsub.subset hd))
  · rw [hdel.maxLevel]
    exact Nat.le_trans hdel.skipListLevel h.skipListLevel
  · rw [hdel.elementCount, h.elementCount]
    simp only [List.length_append, List.length_cons]
    omega

end LevelledList
end KVRaft
