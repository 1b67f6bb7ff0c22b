import KVRaft.SkipList.FiniteMap

/-!
# The representation of the skip list

All levels together: the chain of every level is ordered, it has the nodes of
the level below that reach it, and the top is the highest level of a node.
-/

namespace KVRaft

open Foundation

namespace LevelledList

variable {K V : Type}

def getLevel (list : LevelledList K V) (p : Nat) : Option Nat :=
  (list.nodes p).map Node.nodeLevel

def levelOf (list : LevelledList K V) (p : Nat) : Nat :=
  (list.getLevel p).getD 0

/-- The nodes behind a node on level `i`, up to the null pointer. -/
def chainFrom (list : LevelledList K V) (i : Nat) : Nat -> Nat -> Option (List Nat)
  | 0, _ => none
  | steps + 1, p => do
      match <- list.forwardOf p i with
      | none => return []
      | some next => return next :: (<- chainFrom list i steps next)

def levelChain (list : LevelledList K V) (i : Nat) : Option (List Nat) :=
  list.chainFrom i (list.elementCount + 1) header

def KeyBefore [LT K] (list : LevelledList K V) (p q : Nat) : Prop :=
  exists a b, list.getKey p = some a ∧ list.getKey q = some b ∧ a < b

structure Representation [LT K] (list : LevelledList K V) (chain : Nat -> List Nat) :
    Prop where
  follows : forall i, i ≤ list.maxLevel -> list.levelChain i = some (chain i)
  nodes : forall p, p ∈ chain 0 -> (list.nodes p).isSome
  increasing : forall i, i ≤ list.maxLevel -> (chain i).Pairwise list.KeyBefore
  above : forall i, i < list.maxLevel ->
    chain (i + 1) = (chain i).filter fun p => i + 1 ≤ list.levelOf p
  empty : forall i, list.skipListLevel < i -> i ≤ list.maxLevel ->
    list.forwardOf header i = some none
  top : list.skipListLevel = (((chain 0).map list.levelOf).max?).getD 0
  count : list.elementCount = (chain 0).length

/-!
# Which levels the nodes have

Writing a pointer changes none of them.
-/

def SameLevels (list list' : LevelledList K V) : Prop :=
  forall p, list'.getLevel p = list.getLevel p

theorem SameLevels.refl (list : LevelledList K V) : SameLevels list list :=
  fun _ => rfl

theorem SameLevels.trans {a b c : LevelledList K V} (h : SameLevels a b)
    (h' : SameLevels b c) : SameLevels a c :=
  fun p => (h' p).trans (h p)

theorem getLevel_setNode (list : LevelledList K V) (p : Nat) (node : Option (Node K V))
    (p' : Nat) :
    (list.setNode p node).getLevel p' =
      if p' = p then node.map Node.nodeLevel else list.getLevel p' := by
  rw [getLevel, getLevel, nodes_setNode]
  by_cases hp : p' = p
  · rw [if_pos hp, if_pos hp]
  · rw [if_neg hp, if_neg hp]

theorem getLevel_createNode (list : LevelledList K V) (key : K) (value : V)
    (level p : Nat) :
    (list.createNode key value level).1.getLevel p =
      if p = list.next then some level else list.getLevel p :=
  getLevel_setNode list list.next (some (newNode key value level)) p

theorem setForward_levels {list list' : LevelledList K V} {p i : Nat} {q : Option Nat}
    (h : list.setForward p i q = some list') : SameLevels list list' := by
  rw [setForward] at h
  cases hnode : list.nodes p with
  | none =>
      rw [hnode] at h
      cases h
  | some node =>
      simp only [hnode] at h
      by_cases hi : i < node.forward.length
      · rw [if_pos hi] at h
        cases h
        intro p'
        rw [getLevel_setNode]
        by_cases hp : p' = p
        · rw [if_pos hp, hp, getLevel, hnode]
          rfl
        · rw [if_neg hp]
      · rw [if_neg hi] at h
        cases h

theorem linkLevels_levels {update : List (Option Nat)} {insertedNode steps i : Nat}
    {list list' : LevelledList K V}
    (h : linkLevels update insertedNode steps i list = some list') :
    SameLevels list list' := by
  induction steps generalizing i list with
  | zero =>
      cases h
      exact SameLevels.refl _
  | succ steps ih =>
      simp only [linkLevels, Option.bind_eq_bind, Option.bind_eq_some_iff] at h
      rcases h with ⟨before, _, next, _, list1, hset1, list2, hset2, hrest⟩
      have hlinked := (setForward_levels hset1).trans (setForward_levels hset2)
      exact hlinked.trans (ih hrest)

theorem unlinkLevels_levels {update : List (Option Nat)} {current steps i : Nat}
    {list list' : LevelledList K V}
    (h : unlinkLevels update current steps i list = some list') :
    SameLevels list list' := by
  induction steps generalizing i list with
  | zero =>
      cases h
      exact SameLevels.refl _
  | succ steps ih =>
      simp only [unlinkLevels, Option.bind_eq_bind, Option.bind_eq_some_iff] at h
      rcases h with ⟨before, _, q, _, h⟩
      by_cases hpoints : q ≠ some current
      · rw [if_pos hpoints] at h
        cases h
        exact SameLevels.refl _
      · rw [if_neg hpoints] at h
        simp only [Option.bind_eq_some_iff] at h
        rcases h with ⟨next, _, list1, hset, hrest⟩
        exact (setForward_levels hset).trans (ih hrest)

/-- The loop that drops levels stops at one that is not empty, or at the lowest. -/
theorem dropLevels_stops {list : LevelledList K V} {top level : Nat}
    (h : list.dropLevels top = some level) :
    level = 0 ∨ list.forwardOf header level ≠ some none := by
  induction top with
  | zero =>
      cases h
      exact .inl rfl
  | succ top ih =>
      simp only [dropLevels, Option.bind_eq_bind, Option.bind_eq_some_iff] at h
      rcases h with ⟨q, hq, h⟩
      by_cases hnone : q = none
      · rw [if_pos hnone] at h
        exact ih h
      · rw [if_neg hnone] at h
        cases h
        right
        rw [hq]
        exact fun heq => hnone (Option.some_inj.mp heq)

section

variable [LT K] [DecidableLT K] [DecidableEq K] {list list' : LevelledList K V} {key : K}

theorem insertElement_levels {value : V} {heads : Nat}
    (h : list.insertElement key value heads = some (list', 0)) (p : Nat) :
    list'.getLevel p =
      if p = list.next then some (list.getRandomLevel heads) else list.getLevel p := by
  simp only [insertElement, Option.bind_eq_bind, Option.bind_eq_some_iff] at h
  rcases h with ⟨⟨current, update⟩, _, q, _, found, _, h⟩
  cases found with
  | some current => cases h
  | none =>
      simp only [Option.bind_eq_some_iff] at h
      rcases h with ⟨linked, hlink, h⟩
      cases h
      exact (linkLevels_levels hlink p).trans (getLevel_createNode _ key value _ p)

/-- Either nothing is deleted, or one node, and the top is a level with a node. -/
theorem deleteElement_levels (h : list.deleteElement key = some list') :
    list' = list ∨
      (exists gone, list'.nodes gone = none ∧
        forall p, p ≠ gone -> list'.getLevel p = list.getLevel p) ∧
      (list'.skipListLevel = 0 ∨
        list'.forwardOf header list'.skipListLevel ≠ some none) := by
  simp only [deleteElement, Option.bind_eq_bind, Option.bind_eq_some_iff] at h
  rcases h with ⟨⟨current, update⟩, _, q, _, found, _, h⟩
  cases found with
  | none =>
      cases h
      exact .inl rfl
  | some gone =>
      simp only [Option.bind_eq_some_iff] at h
      rcases h with ⟨unlinked, hunlink, level, hdrop, h⟩
      cases h
      right
      refine ⟨⟨gone, ?_, ?_⟩, ?_⟩
      · exact (nodes_setNode _ gone none gone).trans (if_pos rfl)
      · intro p hp
        have hkept := (getLevel_setNode unlinked gone none p).trans (if_neg hp)
        exact hkept.trans (unlinkLevels_levels hunlink p)
      · rcases dropLevels_stops hdrop with hzero | hstop
        · exact .inl hzero
        · right
          intro hforward
          have hgone := forwardOf_setNode unlinked gone none header level
          change (unlinked.setNode gone none).forwardOf header level = some none at hforward
          rw [hforward] at hgone
          by_cases hheader : header = gone
          · rw [if_pos hheader] at hgone
            cases hgone
          · rw [if_neg hheader] at hgone
            exact hstop hgone.symm

end

/-!
# The levels of the cells
-/

variable [Inhabited K] [Inhabited V] [LT K]

/-- The cells have the levels of their nodes, and one of them that of the list. -/
structure Levelled (list : LevelledList K V) (cells : List (Cell K V)) : Prop
    extends Linked list cells where
  nodeLevel : forall c, c ∈ cells -> list.getLevel c.address = some c.level
  attained : list.skipListLevel = 0 ∨ exists c, c ∈ cells ∧ c.level = list.skipListLevel

theorem create_levelled (maxLevel : Nat) :
    Levelled (create maxLevel : LevelledList K V) [] where
  toLinked := create_linked maxLevel
  nodeLevel := nofun
  attained := .inl rfl

variable {list list' : LevelledList K V} {cells smaller rest : List (Cell K V)}
  {c : Cell K V} {key : K} {value : V} {randomLevel : Nat}

/-- A new node attains the top, or an old one still does. -/
theorem Levelled.insert (h : Levelled list (smaller ++ rest)) (hs : SplitAt key smaller rest)
    (hrest : forall c, c ∈ rest -> key < c.key)
    (hins : Inserted list list' smaller key value randomLevel)
    (hmax : randomLevel ≤ list.maxLevel) (hlevels : forall p, list'.getLevel p =
      if p = list.next then some randomLevel else list.getLevel p) :
    Levelled list' (smaller ++ list.newCell key value randomLevel :: rest) where
  toLinked := h.toLinked.insert hs hrest hins hmax
  nodeLevel := by
    intro d hd
    rw [hlevels]
    rcases List.mem_cons.mp (List.perm_middle.mem_iff.mp hd) with rfl | hold
    · exact if_pos rfl
    · rw [if_neg (h.ne_next (List.mem_cons_of_mem _ hold)), h.nodeLevel d hold]
  attained := by
    have hnew : list.newCell key value randomLevel ∈
        smaller ++ list.newCell key value randomLevel :: rest :=
      List.mem_append_right smaller List.mem_cons_self
    rw [hins.skipListLevel]
    by_cases hle : list.skipListLevel ≤ randomLevel
    · right
      exact ⟨_, hnew, (Nat.max_eq_right hle).symm⟩
    · rw [Nat.max_eq_left (by omega)]
      rcases h.attained with hzero | ⟨d, hd, htop⟩
      · omega
      · right
        exact ⟨d, List.perm_middle.mem_iff.mpr (List.mem_cons_of_mem _ hd), htop⟩

/-- The levels are dropped down to one that a node is left on. -/
theorem Linked.attained (h : Linked list cells)
    (hstop : list.skipListLevel = 0 ∨ list.forwardOf header list.skipListLevel ≠ some none) :
    list.skipListLevel = 0 ∨ exists c, c ∈ cells ∧ c.level = list.skipListLevel := by
  rcases hstop with hzero | hstop
  · exact .inl hzero
  · have hforward := h.forward list.headerCell cells List.suffix_rfl _ h.skipListLevel
    change list.forwardOf header list.skipListLevel = _ at hforward
    rw [hforward] at hstop
    cases hfirst : firstAt Cell.level list.skipListLevel cells with
    | none =>
        rw [hfirst] at hstop
        exact absurd rfl hstop
    | some c =>
        have hc := mem_of_firstAt hfirst
        right
        exact ⟨c, hc, Nat.le_antisymm (h.level c hc) (firstAt_eq_some.mp hfirst).1⟩

theorem Linked.alive (h : Linked list cells) (hc : c ∈ cells) :
    (list.nodes c.address).isSome := by
  have hkey := h.key c hc
  rcases Option.map_eq_some_iff.mp hkey with ⟨node, hnode, _⟩
  exact Option.isSome_of_eq_some hnode

variable [DecidableLT K] [DecidableEq K]

/-- The nodes that are left keep their levels. -/
theorem Levelled.delete (h : Levelled list (smaller ++ c :: rest))
    (hdel : Deleted list list' smaller c) (hrun : list.deleteElement key = some list') :
    Levelled list' (smaller ++ rest) := by
  have hlinked := h.toLinked.delete hdel
  rcases deleteElement_levels hrun with rfl | ⟨⟨gone, hgone, hkept⟩, hstop⟩
  · have hcount := h.elementCount
    rw [hlinked.elementCount, List.length_append, List.length_append, List.length_cons] at hcount
    omega
  · refine { toLinked := hlinked, nodeLevel := ?_, attained := hlinked.attained hstop }
    intro d hd
    have hne : d.address ≠ gone := by
      intro heq
      have halive := hlinked.alive hd
      rw [heq, hgone] at halive
      cases halive
    have hold : d ∈ smaller ++ c :: rest :=
      List.perm_middle.mem_iff.mpr (List.mem_cons_of_mem c hd)
    rw [hkept d.address hne, h.nodeLevel d hold]

/-!
# What every operation keeps
-/

variable [IsStrictTotalOrder K (· < ·)]

/-- The levels stand in the way they should, for a list made with a number of levels. -/
def Sound (maxLevel : Nat) (list : LevelledList K V) : Prop :=
  list.maxLevel = maxLevel ∧ exists cells, Levelled list cells

variable {maxLevel : Nat}

omit [DecidableLT K] [DecidableEq K] [IsStrictTotalOrder K (· < ·)] in
theorem create_sound (maxLevel : Nat) : Sound maxLevel (create maxLevel : LevelledList K V) :=
  ⟨rfl, [], create_levelled maxLevel⟩

theorem Sound.searchElement (h : Sound maxLevel list) (key : K) :
    exists found, list.searchElement key = some found := by
  rcases h with ⟨_, cells, hcells⟩
  cases place_of_sorted hcells.sorted key with
  | found smaller hs hkey => exact ⟨_, hcells.searchElement_found hs hkey⟩
  | missing smaller hs hrest =>
      exact ⟨none, hcells.searchElement_missing hs (key_ne_of_greater hrest)⟩

theorem Sound.insertElement (h : Sound maxLevel list) (key : K) (value : V) (heads : Nat) :
    exists list' code, list.insertElement key value heads = some (list', code) ∧
      Sound maxLevel list' := by
  rcases h with ⟨hmax, cells, hcells⟩
  cases place_of_sorted hcells.sorted key with
  | found smaller hs hkey =>
      exact ⟨list, 1, hcells.insertElement_found hs hkey value heads, hmax, _, hcells⟩
  | missing smaller hs hrest =>
      rcases hcells.insertElement_missing hs (key_ne_of_greater hrest) value heads with
        ⟨list', hrun, hins⟩
      have hlevelled := hcells.insert hs hrest hins (getRandomLevel_le list heads)
        (insertElement_levels hrun)
      exact ⟨list', 0, hrun, hins.maxLevel.trans hmax, _, hlevelled⟩

theorem Sound.deleteElement (h : Sound maxLevel list) (key : K) :
    exists list', list.deleteElement key = some list' ∧ Sound maxLevel list' := by
  rcases h with ⟨hmax, cells, hcells⟩
  cases place_of_sorted hcells.sorted key with
  | found smaller hs hkey =>
      rcases hcells.deleteElement_found hs hkey with ⟨list', hrun, hdel⟩
      exact ⟨list', hrun, hdel.maxLevel.trans hmax, _, hcells.delete hdel hrun⟩
  | missing smaller hs hrest =>
      have hrun := hcells.deleteElement_missing hs (key_ne_of_greater hrest)
      exact ⟨list, hrun, hmax, _, hcells⟩

theorem Sound.insertSetElement (h : Sound maxLevel list) (key : K) (value : V)
    (heads : Nat) :
    exists list', list.insertSetElement key value heads = some list' ∧
      Sound maxLevel list' := by
  rcases h.searchElement key with ⟨found, hsearch⟩
  cases found with
  | none =>
      rcases h.insertElement key value heads with ⟨list', code, hinsert, hlist'⟩
      exact ⟨list', insertSetElement_absent hsearch hinsert, hlist'⟩
  | some old =>
      rcases h.deleteElement key with ⟨deleted, hdelete, hdeleted⟩
      rcases hdeleted.insertElement key value heads with ⟨list', code, hinsert, hlist'⟩
      exact ⟨list', insertSetElement_present hsearch hdelete hinsert, hlist'⟩

theorem Sound.run (h : Sound maxLevel list) (call : SkipListCall K V × Nat) :
    exists list', SkipListCall.run list call = some list' ∧ Sound maxLevel list' := by
  rcases call with ⟨call, heads⟩
  cases call with
  | insertElement key value =>
      rcases h.insertElement key value heads with ⟨list', code, hrun, hlist'⟩
      refine ⟨list', ?_, hlist'⟩
      rw [SkipListCall.run, hrun]
      rfl
  | insertSetElement key value => exact h.insertSetElement key value heads
  | deleteElement key => exact h.deleteElement key

/-!
# The chains of the levels
-/

omit [DecidableLT K] [DecidableEq K] [IsStrictTotalOrder K (· < ·)]

/-- The nodes that reach a level. -/
def onLevel (cells : List (Cell K V)) (i : Nat) : List Nat :=
  (cells.filter fun c => i ≤ c.level).map Cell.address

omit [Inhabited K] [Inhabited V] [LT K] in
theorem onLevel_of_firstAt_none {i : Nat} (h : firstAt Cell.level i cells = none) :
    onLevel cells i = [] := by
  rw [firstAt_eq_none] at h
  rw [onLevel, List.map_eq_nil_iff, List.filter_eq_nil_iff]
  intro c hc
  have hlt := h c hc
  simpa using hlt

omit [Inhabited K] [Inhabited V] [LT K] in
theorem onLevel_append_cons {before after : List (Cell K V)} {i : Nat}
    (hbefore : firstAt Cell.level i before = none) (hreach : i ≤ c.level) :
    onLevel (before ++ c :: after) i = c.address :: onLevel after i := by
  have hnil := onLevel_of_firstAt_none hbefore
  have hhere : (c :: after).filter (fun c => i ≤ c.level) =
      c :: after.filter (fun c => i ≤ c.level) :=
    List.filter_cons_of_pos (decide_eq_true hreach)
  rw [onLevel, List.filter_append, List.map_append, ← onLevel, hnil, List.nil_append, hhere,
    List.map_cons, ← onLevel]

theorem Linked.chainFrom (h : Linked list cells) {steps i : Nat} {p : Cell K V}
    {post : List (Cell K V)} (hsuffix : p :: post <:+ list.headerCell :: cells)
    (hi : i ≤ p.level) (hsteps : post.length < steps) :
    list.chainFrom i steps p.address = some (onLevel post i) := by
  induction steps generalizing p post with
  | zero => exact absurd hsteps (Nat.not_lt_zero _)
  | succ steps ih =>
      have hforward := h.forward p post hsuffix i hi
      cases hfirst : firstAt Cell.level i post with
      | none =>
          rw [hfirst] at hforward
          simp only [LevelledList.chainFrom, Option.bind_eq_bind, hforward, Option.map_none,
            Option.bind_some, onLevel_of_firstAt_none hfirst]
          rfl
      | some c =>
          rcases firstAt_eq_some.mp hfirst with ⟨hreach, before, after, rfl, hnone⟩
          have hnext : c :: after <:+ list.headerCell :: cells :=
            (List.suffix_append (p :: before) (c :: after)).trans hsuffix
          rw [List.length_append, List.length_cons] at hsteps
          rw [hfirst] at hforward
          simp only [LevelledList.chainFrom, Option.bind_eq_bind, hforward, Option.map_some,
            Option.bind_some, ih hnext hreach (by omega), onLevel_append_cons hnone hreach]
          rfl

theorem Linked.levelChain (h : Linked list cells) {i : Nat} (hi : i ≤ list.maxLevel) :
    list.levelChain i = some (onLevel cells i) := by
  apply h.chainFrom (p := list.headerCell) List.suffix_rfl hi
  rw [h.elementCount]
  exact Nat.lt_succ_self _

theorem Linked.increasing (h : Linked list cells) (i : Nat) :
    (onLevel cells i).Pairwise list.KeyBefore := by
  have hsorted : cells.Pairwise fun a b => list.KeyBefore a.address b.address := by
    apply h.sorted.imp_of_mem
    intro a b ha hb hlt
    exact ⟨a.key, b.key, h.key a ha, h.key b hb, hlt⟩
  exact List.pairwise_map.mpr (hsorted.sublist List.filter_sublist)

omit [Inhabited K] [Inhabited V] [LT K] in
theorem onLevel_zero (cells : List (Cell K V)) : onLevel cells 0 = cells.map Cell.address := by
  have hall : cells.filter (fun c => 0 ≤ c.level) = cells := by
    apply List.filter_eq_self.mpr
    intro c _
    exact decide_eq_true (Nat.zero_le c.level)
  rw [onLevel, hall]

theorem Levelled.levelOf (h : Levelled list cells) (hc : c ∈ cells) :
    list.levelOf c.address = c.level := by
  rw [LevelledList.levelOf, h.nodeLevel c hc]
  rfl

/-- A level has the nodes of the one below that reach it. -/
theorem Levelled.above (h : Levelled list cells) (i : Nat) :
    onLevel cells (i + 1) = (onLevel cells i).filter fun p => i + 1 ≤ list.levelOf p := by
  rw [onLevel, onLevel, List.filter_map, List.filter_filter]
  congr 1
  apply List.filter_congr
  intro c hc
  rw [Function.comp_apply, h.levelOf hc, ← Bool.decide_and]
  exact decide_eq_decide.mpr (by omega)

theorem Linked.empty (h : Linked list cells) {i : Nat} (hi : list.skipListLevel < i)
    (hmax : i ≤ list.maxLevel) : list.forwardOf header i = some none := by
  have hnone : firstAt Cell.level i cells = none := by
    apply firstAt_eq_none.mpr
    intro c hc
    exact Nat.lt_of_le_of_lt (h.level c hc) hi
  have hforward := h.forward list.headerCell cells List.suffix_rfl i hmax
  rw [hnone] at hforward
  exact hforward

theorem Levelled.levels (h : Levelled list cells) :
    (cells.map Cell.address).map list.levelOf = cells.map Cell.level := by
  rw [List.map_map]
  exact List.map_congr_left fun c hc => h.levelOf hc

/-- The top is the highest level of a cell. -/
theorem Levelled.top (h : Levelled list cells) :
    list.skipListLevel = ((cells.map Cell.level).max?).getD 0 := by
  cases cells with
  | nil =>
      rcases h.attained with hzero | ⟨c, hc, _⟩
      · exact hzero
      · cases hc
  | cons a cells =>
      have hmax : ((a :: cells).map Cell.level).max? = some list.skipListLevel := by
        apply List.max?_eq_some_iff.mpr
        refine ⟨?_, ?_⟩
        · rcases h.attained with hzero | ⟨c, hc, htop⟩
          · have ha := h.level a List.mem_cons_self
            have heq : a.level = list.skipListLevel := by omega
            rw [← heq]
            exact List.mem_map_of_mem List.mem_cons_self
          · rw [← htop]
            exact List.mem_map_of_mem hc
        · intro level hlevel
          rcases List.mem_map.mp hlevel with ⟨c, hc, rfl⟩
          exact h.level c hc
      rw [hmax]
      rfl

theorem Levelled.representation (h : Levelled list cells) :
    Representation list (onLevel cells) where
  follows _ hi := h.levelChain hi
  nodes := by
    intro p hp
    rw [onLevel_zero] at hp
    rcases List.mem_map.mp hp with ⟨c, hc, rfl⟩
    exact h.alive hc
  increasing i _ := h.increasing i
  above i _ := h.above i
  empty _ hi hmax := h.empty hi hmax
  top := by
    rw [onLevel_zero, h.levels]
    exact h.top
  count := by
    rw [onLevel_zero, List.length_map]
    exact h.elementCount

end LevelledList

section

open LevelledList

variable {K V : Type} [Inhabited K] [Inhabited V] [LT K] [DecidableLT K] [DecidableEq K]
  [IsStrictTotalOrder K (· < ·)]

/-- Whatever levels the nodes are given, no call follows a null pointer, and all levels
stand in the way they should after any calls. -/
theorem skip_list_represented (maxLevel : Nat) (calls : List (SkipListCall K V × Nat)) :
    exists list chain, SkipListCall.runAll maxLevel calls = some list ∧
      list.maxLevel = maxLevel ∧ list.Representation chain := by
  rcases foldlM_keeps (fun _ call h => h.run call) (create_sound maxLevel) calls with
    ⟨list, hrun, hmax, cells, hcells⟩
  exact ⟨list, onLevel cells, hrun, hmax, hcells.representation⟩

end

/-- A node on the highest level makes way for one on a lower level. -/
theorem stringCalls_represented :
    exists list chain, SkipListCall.runAll 3 stringCalls = some list ∧
      list.maxLevel = 3 ∧ list.Representation chain :=
  skip_list_represented 3 stringCalls

end KVRaft
