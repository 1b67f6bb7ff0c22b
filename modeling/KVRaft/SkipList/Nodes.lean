import Mathlib.Logic.Function.Basic

/-!
# The nodes of the skip list

The list as the source keeps it: nodes on the heap, each with an array of
pointers to the next node of every level it reaches.  Following a null or a
dangling pointer, and leaving an array, have no result.
-/

namespace KVRaft

structure Node (K V : Type) where
  key : K
  value : V
  nodeLevel : Nat
  forward : List (Option Nat)
  deriving DecidableEq, Repr

/-- The skip list and the heap of its nodes, by address. -/
structure LevelledList (K V : Type) where
  maxLevel : Nat
  skipListLevel : Nat
  elementCount : Nat
  nodes : Nat -> Option (Node K V)
  next : Nat

namespace LevelledList

variable {K V : Type}

/-- The address of the header. -/
def header : Nat := 0

def newNode (key : K) (value : V) (level : Nat) : Node K V where
  key := key
  value := value
  nodeLevel := level
  forward := List.replicate (level + 1) none

def create [Inhabited K] [Inhabited V] (maxLevel : Nat) : LevelledList K V where
  maxLevel := maxLevel
  skipListLevel := 0
  elementCount := 0
  nodes := Function.update (fun _ => none) header (some (newNode default default maxLevel))
  next := 1

/-- The heap with a node, or none any more, at an address. -/
def setNode (list : LevelledList K V) (p : Nat) (node : Option (Node K V)) :
    LevelledList K V :=
  { list with nodes := Function.update list.nodes p node }

def forwardOf (list : LevelledList K V) (p i : Nat) : Option (Option Nat) :=
  (list.nodes p).bind fun node => node.forward[i]?

def getKey (list : LevelledList K V) (p : Nat) : Option K :=
  (list.nodes p).map Node.key

def getValue (list : LevelledList K V) (p : Nat) : Option V :=
  (list.nodes p).map Node.value

/-- `p->forward[i] = q`. -/
def setForward (list : LevelledList K V) (p i : Nat) (q : Option Nat) :
    Option (LevelledList K V) :=
  match list.nodes p with
  | none => none
  | some node =>
      if i < node.forward.length then
        some (list.setNode p (some { node with forward := node.forward.set i q }))
      else
        none

/-- The level of a new node, when `rand` has come up odd `heads` times in a row. -/
def getRandomLevel (list : LevelledList K V) (heads : Nat) : Nat :=
  let k := 1 + heads
  if k < list.maxLevel then k else list.maxLevel

def createNode (list : LevelledList K V) (key : K) (value : V) (level : Nat) :
    LevelledList K V × Nat :=
  ({ list.setNode list.next (some (newNode key value level)) with next := list.next + 1 },
    list.next)

section

variable [LT K] [DecidableLT K]

/-- The inner loop: moving right on level `i` while the next key is smaller. -/
def walk (list : LevelledList K V) (key : K) (i : Nat) : Nat -> Nat -> Option Nat
  | 0, _ => none
  | steps + 1, current => do
      match <- list.forwardOf current i with
      | none => return current
      | some next =>
          if (<- list.getKey next) < key then
            walk list key i steps next
          else
            return current

/-- No level has more nodes than the list, which bounds the steps of the loop. -/
def walkLevel (list : LevelledList K V) (key : K) (i current : Nat) : Option Nat :=
  list.walk key i (list.elementCount + 1) current

/-- The loop of a search, over the levels below `levels`, from above. -/
def descend (list : LevelledList K V) (key : K) : Nat -> Nat -> Option Nat
  | 0, current => some current
  | i + 1, current => do
      let current <- list.walkLevel key i current
      descend list key i current

/-- The same loop, which also keeps the node it leaves each level at. -/
def locate (list : LevelledList K V) (key : K) :
    Nat -> Nat -> List (Option Nat) -> Option (Nat × List (Option Nat))
  | 0, current, update => some (current, update)
  | i + 1, current, update => do
      let current <- list.walkLevel key i current
      locate list key i current (update.set i (some current))

end

/-- The node, if there is one and it has the key. -/
def withKey [DecidableEq K] (list : LevelledList K V) (key : K) :
    Option Nat -> Option (Option Nat)
  | none => some none
  | some p => do
      if (<- list.getKey p) = key then
        return some p
      else
        return none

/-- Subscripting the array of predecessors and dereferencing what is there. -/
def predecessor (update : List (Option Nat)) (i : Nat) : Option Nat :=
  (update[i]?).join

/-- The levels a new node adds to the list have the header before it. -/
def raiseTo (skipListLevel randomLevel : Nat) (update : List (Option Nat)) :
    Nat × List (Option Nat) :=
  if randomLevel > skipListLevel then
    (randomLevel,
      (List.range' (skipListLevel + 1) (randomLevel - skipListLevel)).foldl
        (fun update i => update.set i (some header)) update)
  else
    (skipListLevel, update)

/-- The loop that links a new node, `steps` levels from `i` on. -/
def linkLevels (update : List (Option Nat)) (insertedNode : Nat) :
    Nat -> Nat -> LevelledList K V -> Option (LevelledList K V)
  | 0, _, list => some list
  | steps + 1, i, list => do
      let before <- predecessor update i
      let list <- list.setForward insertedNode i (<- list.forwardOf before i)
      let list <- list.setForward before i (some insertedNode)
      linkLevels update insertedNode steps (i + 1) list

/-- The loop that unlinks a node, up to the first level it is not on. -/
def unlinkLevels (update : List (Option Nat)) (current : Nat) :
    Nat -> Nat -> LevelledList K V -> Option (LevelledList K V)
  | 0, _, list => some list
  | steps + 1, i, list => do
      let before <- predecessor update i
      if (<- list.forwardOf before i) ≠ some current then
        return list
      else
        let list <- list.setForward before i (<- list.forwardOf current i)
        unlinkLevels update current steps (i + 1) list

/-- The highest level that is not empty, from level `i` down. -/
def dropLevels (list : LevelledList K V) : Nat -> Option Nat
  | 0 => some 0
  | i + 1 => do
      if (<- list.forwardOf header (i + 1)) = none then
        dropLevels list i
      else
        return i + 1

variable [LT K] [DecidableLT K] [DecidableEq K]

def searchElement (list : LevelledList K V) (key : K) : Option (Option V) := do
  let current <- list.descend key (list.skipListLevel + 1) header
  match <- list.withKey key (<- list.forwardOf current 0) with
  | none => return none
  | some current => return some (<- list.getValue current)

/-- The second component is 1 when the key is there already. -/
def insertElement (list : LevelledList K V) (key : K) (value : V) (heads : Nat) :
    Option (LevelledList K V × Int) := do
  let (current, update) <- list.locate key (list.skipListLevel + 1) header
    (List.replicate (list.maxLevel + 1) none)
  match <- list.withKey key (<- list.forwardOf current 0) with
  | some _ => return (list, 1)
  | none =>
      let randomLevel := list.getRandomLevel heads
      let (level, update) := raiseTo list.skipListLevel randomLevel update
      let list := { list with skipListLevel := level }
      let (list, insertedNode) := list.createNode key value randomLevel
      let list <- linkLevels update insertedNode (randomLevel + 1) 0 list
      return ({ list with elementCount := list.elementCount + 1 }, 0)

def deleteElement (list : LevelledList K V) (key : K) : Option (LevelledList K V) := do
  let (current, update) <- list.locate key (list.skipListLevel + 1) header
    (List.replicate (list.maxLevel + 1) none)
  match <- list.withKey key (<- list.forwardOf current 0) with
  | none => return list
  | some current =>
      let list <- unlinkLevels update current (list.skipListLevel + 1) 0 list
      let list := { list with skipListLevel := <- list.dropLevels list.skipListLevel }
      let list := list.setNode current none
      return { list with elementCount := list.elementCount - 1 }

def insertSetElement (list : LevelledList K V) (key : K) (value : V) (heads : Nat) :
    Option (LevelledList K V) := do
  let list <-
    match <- list.searchElement key with
    | some _ => list.deleteElement key
    | none => some list
  return (<- list.insertElement key value heads).1

/-!
# Writing pointers
-/

omit [LT K] [DecidableLT K] [DecidableEq K]

/-- The same nodes with the same keys and values, whatever they point to. -/
structure SameNodes (list list' : LevelledList K V) : Prop where
  maxLevel : list'.maxLevel = list.maxLevel
  skipListLevel : list'.skipListLevel = list.skipListLevel
  elementCount : list'.elementCount = list.elementCount
  next : list'.next = list.next
  key : forall p, list'.getKey p = list.getKey p
  value : forall p, list'.getValue p = list.getValue p

theorem SameNodes.refl (list : LevelledList K V) : SameNodes list list where
  maxLevel := rfl
  skipListLevel := rfl
  elementCount := rfl
  next := rfl
  key _ := rfl
  value _ := rfl

theorem SameNodes.trans {a b c : LevelledList K V} (h : SameNodes a b)
    (h' : SameNodes b c) : SameNodes a c where
  maxLevel := h'.maxLevel.trans h.maxLevel
  skipListLevel := h'.skipListLevel.trans h.skipListLevel
  elementCount := h'.elementCount.trans h.elementCount
  next := h'.next.trans h.next
  key p := (h'.key p).trans (h.key p)
  value p := (h'.value p).trans (h.value p)

theorem nodes_setNode (list : LevelledList K V) (p : Nat) (node : Option (Node K V))
    (p' : Nat) : (list.setNode p node).nodes p' = if p' = p then node else list.nodes p' :=
  Function.update_apply _ _ _ _

theorem forwardOf_setNode (list : LevelledList K V) (p : Nat) (node : Option (Node K V))
    (p' i : Nat) :
    (list.setNode p node).forwardOf p' i =
      if p' = p then node.bind fun node => node.forward[i]? else list.forwardOf p' i := by
  rw [forwardOf, forwardOf, nodes_setNode]
  by_cases hp : p' = p
  · rw [if_pos hp, if_pos hp]
  · rw [if_neg hp, if_neg hp]

theorem getKey_setNode (list : LevelledList K V) (p : Nat) (node : Option (Node K V))
    (p' : Nat) :
    (list.setNode p node).getKey p' =
      if p' = p then node.map Node.key else list.getKey p' := by
  rw [getKey, getKey, nodes_setNode]
  by_cases hp : p' = p
  · rw [if_pos hp, if_pos hp]
  · rw [if_neg hp, if_neg hp]

theorem getValue_setNode (list : LevelledList K V) (p : Nat) (node : Option (Node K V))
    (p' : Nat) :
    (list.setNode p node).getValue p' =
      if p' = p then node.map Node.value else list.getValue p' := by
  rw [getValue, getValue, nodes_setNode]
  by_cases hp : p' = p
  · rw [if_pos hp, if_pos hp]
  · rw [if_neg hp, if_neg hp]

theorem forwardOf_createNode (list : LevelledList K V) (key : K) (value : V) (level p i : Nat) :
    (list.createNode key value level).1.forwardOf p i =
      if p = list.next then (List.replicate (level + 1) none)[i]?
      else list.forwardOf p i :=
  forwardOf_setNode list list.next (some (newNode key value level)) p i

theorem getKey_createNode (list : LevelledList K V) (key : K) (value : V) (level p : Nat) :
    (list.createNode key value level).1.getKey p =
      if p = list.next then some key else list.getKey p :=
  getKey_setNode list list.next (some (newNode key value level)) p

theorem getValue_createNode (list : LevelledList K V) (key : K) (value : V)
    (level p : Nat) :
    (list.createNode key value level).1.getValue p =
      if p = list.next then some value else list.getValue p :=
  getValue_setNode list list.next (some (newNode key value level)) p

theorem forwardOf_eq_some {list : LevelledList K V} {p i : Nat} {q : Option Nat} :
    list.forwardOf p i = some q <->
      exists node, list.nodes p = some node ∧ node.forward[i]? = some q := by
  rw [forwardOf, Option.bind_eq_some_iff]

/-- Writing a pointer that is there changes this pointer and nothing else. -/
theorem setForward_of_isSome {list : LevelledList K V} {p i : Nat}
    (h : (list.forwardOf p i).isSome) (q : Option Nat) :
    exists list', list.setForward p i q = some list' ∧ SameNodes list list' ∧
      forall p' i', list'.forwardOf p' i' =
        if p' = p ∧ i' = i then some q else list.forwardOf p' i' := by
  rcases Option.isSome_iff_exists.mp h with ⟨old, hold⟩
  rcases forwardOf_eq_some.mp hold with ⟨node, hnode, hslot⟩
  have hlt : i < node.forward.length := (List.getElem?_eq_some_iff.mp hslot).1
  refine ⟨list.setNode p (some { node with forward := node.forward.set i q }), ?_, ?_, ?_⟩
  · rw [setForward, hnode]
    exact if_pos hlt
  · constructor
    · rfl
    · rfl
    · rfl
    · rfl
    · intro p'
      rw [getKey_setNode]
      by_cases hp : p' = p
      · rw [if_pos hp, hp, getKey, hnode]
        rfl
      · rw [if_neg hp]
    · intro p'
      rw [getValue_setNode]
      by_cases hp : p' = p
      · rw [if_pos hp, hp, getValue, hnode]
        rfl
      · rw [if_neg hp]
  · intro p' i'
    rw [forwardOf_setNode]
    by_cases hp : p' = p
    · rw [if_pos hp]
      by_cases hi : i' = i
      · rw [if_pos ⟨hp, hi⟩, hi]
        exact List.getElem?_set_self hlt
      · rw [if_neg (fun hboth => hi hboth.2), hp, forwardOf, hnode]
        exact List.getElem?_set_ne (Ne.symm hi)
    · rw [if_neg hp, if_neg (fun hboth => hp hboth.1)]

theorem setForward_isSome {list list' : LevelledList K V} {p i : Nat} {q : Option Nat}
    (h : forall p' i', list'.forwardOf p' i' =
      if p' = p ∧ i' = i then some q else list.forwardOf p' i')
    {p' i' : Nat} (hsome : (list.forwardOf p' i').isSome) :
    (list'.forwardOf p' i').isSome := by
  rw [h]
  by_cases hboth : p' = p ∧ i' = i
  · rw [if_pos hboth]
    rfl
  · rw [if_neg hboth]
    exact hsome

/-!
The loops over the levels below `bound`, given the node `u i` kept for each level.
-/

section

variable {update : List (Option Nat)} {u : Nat -> Nat} {c bound : Nat}

/-- After linking, the kept nodes point to the new one and it to what they pointed to. -/
theorem linkLevels_eq (hupdate : forall i, i < bound -> predecessor update i = some (u i))
    (hother : forall i, i < bound -> u i ≠ c) {steps i : Nat} (list : LevelledList K V)
    (hsteps : i + steps = bound)
    (hbefore : forall i, i < bound -> (list.forwardOf (u i) i).isSome)
    (hnew : forall i, i < bound -> (list.forwardOf c i).isSome) :
    exists list', linkLevels update c steps i list = some list' ∧ SameNodes list list' ∧
      forall p j, list'.forwardOf p j =
        if i ≤ j ∧ j < bound then
          if p = c then list.forwardOf (u j) j
          else if p = u j then some (some c)
          else list.forwardOf p j
        else list.forwardOf p j := by
  induction steps generalizing i list with
  | zero =>
      refine ⟨list, rfl, SameNodes.refl list, ?_⟩
      intro p j
      rw [if_neg (by omega)]
  | succ steps ih =>
      have hi : i < bound := by omega
      rcases Option.isSome_iff_exists.mp (hbefore i hi) with ⟨q, hq⟩
      rcases setForward_of_isSome (hnew i hi) q with ⟨list1, hset1, hsame1, hforward1⟩
      rcases setForward_of_isSome (setForward_isSome hforward1 (hbefore i hi)) (some c) with
        ⟨list2, hset2, hsame2, hforward2⟩
      rcases ih (i := i + 1) list2 (by omega)
          (fun j hj => setForward_isSome hforward2 (setForward_isSome hforward1 (hbefore j hj)))
          (fun j hj => setForward_isSome hforward2 (setForward_isSome hforward1 (hnew j hj)))
        with ⟨list', hrun, hsame, hforward⟩
      refine ⟨list', ?_, (hsame1.trans hsame2).trans hsame, ?_⟩
      · simp only [linkLevels, Option.bind_eq_bind, hupdate i hi, hq, hset1, hset2,
          Option.bind_some, hrun]
      · intro p j
        rw [hforward]
        by_cases hj : j = i
        · rw [hj, if_neg (by omega), if_pos ⟨Nat.le_refl i, hi⟩, hforward2, hforward1, hq]
          simp only [and_true]
          by_cases hp : p = c
          · have hne : p ≠ u i := fun heq => hother i hi (heq.symm.trans hp)
            rw [if_neg hne, if_pos hp, if_pos hp]
          · rw [if_neg hp, if_neg hp]
        · have hlevel : forall p, list2.forwardOf p j = list.forwardOf p j := by
            intro p
            rw [hforward2, if_neg (fun hboth => hj hboth.2), hforward1,
              if_neg (fun hboth => hj hboth.2)]
          rw [hlevel, hlevel]
          have hiff : i + 1 ≤ j ∧ j < bound <-> i ≤ j ∧ j < bound := by omega
          simp only [hiff]

/-- After unlinking up to level `top`, they point to what the removed node points to. -/
theorem unlinkLevels_eq {top : Nat}
    (hupdate : forall i, i < bound -> predecessor update i = some (u i))
    {steps i : Nat} (list : LevelledList K V)
    (hsteps : i + steps = bound)
    (hbefore : forall j, i ≤ j -> j < bound -> exists q, list.forwardOf (u j) j = some q ∧
      (q = some c <-> j ≤ top))
    (hold : forall j, j ≤ top -> (list.forwardOf c j).isSome) :
    exists list', unlinkLevels update c steps i list = some list' ∧ SameNodes list list' ∧
      forall p j, list'.forwardOf p j =
        if i ≤ j ∧ j < bound ∧ j ≤ top ∧ p = u j then list.forwardOf c j
        else list.forwardOf p j := by
  induction steps generalizing i list with
  | zero =>
      refine ⟨list, rfl, SameNodes.refl list, ?_⟩
      intro p j
      rw [if_neg (by omega)]
  | succ steps ih =>
      have hi : i < bound := by omega
      rcases hbefore i (Nat.le_refl i) hi with ⟨q, hq, htop⟩
      by_cases hpoints : q = some c
      · have hle := htop.mp hpoints
        rcases Option.isSome_iff_exists.mp (hold i hle) with ⟨next, hnext⟩
        have hisSome : (list.forwardOf (u i) i).isSome := by
          rw [hq]
          rfl
        rcases setForward_of_isSome hisSome next with ⟨list1, hset, hsame1, hforward1⟩
        have hlevel : forall p j, j ≠ i -> list1.forwardOf p j = list.forwardOf p j := by
          intro p j hj
          rw [hforward1, if_neg (fun hboth => hj hboth.2)]
        rcases ih (i := i + 1) list1 (by omega)
            (fun j hj hlt => by
              rw [hlevel _ _ (by omega)]
              exact hbefore j (by omega) hlt)
            (fun j hj => setForward_isSome hforward1 (hold j hj)) with
          ⟨list', hrun, hsame, hforward⟩
        refine ⟨list', ?_, hsame1.trans hsame, ?_⟩
        · simp only [unlinkLevels, Option.bind_eq_bind, hupdate i hi, hq, hpoints, hnext, hset,
            Option.bind_some, ne_eq, not_true_eq_false, if_false, hrun]
        · intro p j
          rw [hforward]
          by_cases hj : j = i
          · rw [hj, if_neg (by omega), hforward1]
            simp only [and_true, Nat.le_refl, hi, hle, true_and, hnext]
          · rw [hlevel _ _ hj, hlevel _ _ hj]
            have hiff : i + 1 ≤ j ∧ j < bound ∧ j ≤ top ∧ p = u j <->
                i ≤ j ∧ j < bound ∧ j ≤ top ∧ p = u j := by
              omega
            simp only [hiff]
      · refine ⟨list, ?_, SameNodes.refl list, ?_⟩
        · simp only [unlinkLevels, Option.bind_eq_bind, hupdate i hi, hq, Option.bind_some,
            ne_eq, hpoints, not_false_eq_true, if_true]
          rfl
        · intro p j
          have hgt : ¬ i ≤ top := fun hle => hpoints (htop.mpr hle)
          rw [if_neg (by omega)]

end

theorem predecessor_set {update : List (Option Nat)} {i : Nat} (h : i < update.length)
    (p j : Nat) :
    predecessor (update.set i (some p)) j =
      if j = i then some p else predecessor update j := by
  by_cases hj : j = i
  · rw [if_pos hj, hj, predecessor, List.getElem?_set_self h]
    rfl
  · rw [if_neg hj, predecessor, List.getElem?_set_ne (Ne.symm hj), predecessor]

theorem predecessor_raise {update : List (Option Nat)} {first count : Nat}
    (h : first + count ≤ update.length) (j : Nat) :
    predecessor ((List.range' first count).foldl
      (fun update i => update.set i (some header)) update) j =
        if first ≤ j ∧ j < first + count then some header else predecessor update j := by
  induction count generalizing first update with
  | zero =>
      rw [if_neg (by omega)]
      rfl
  | succ count ih =>
      have hlength : first + 1 + count ≤ (update.set first (some header)).length := by
        rw [List.length_set]
        omega
      rw [List.range'_succ, List.foldl_cons, ih hlength, predecessor_set (by omega)]
      by_cases hj : j = first
      · rw [if_neg (by omega), if_pos hj, if_pos (by omega)]
      · rw [if_neg hj]
        have hiff : first + 1 ≤ j ∧ j < first + 1 + count <->
            first ≤ j ∧ j < first + (count + 1) := by
          omega
        simp only [hiff]

/-- The level of the list after raising it, and the header before every new level. -/
theorem raiseTo_eq {update : List (Option Nat)} {randomLevel : Nat} (skipListLevel : Nat)
    (h : randomLevel < update.length) :
    (raiseTo skipListLevel randomLevel update).1 = max skipListLevel randomLevel ∧
      forall j, predecessor (raiseTo skipListLevel randomLevel update).2 j =
        if skipListLevel < j ∧ j ≤ randomLevel then some header
        else predecessor update j := by
  unfold raiseTo
  by_cases hgt : randomLevel > skipListLevel
  · rw [if_pos hgt]
    refine ⟨(Nat.max_eq_right (Nat.le_of_lt hgt)).symm, ?_⟩
    intro j
    rw [predecessor_raise (by omega)]
    have hiff : skipListLevel + 1 ≤ j ∧
        j < skipListLevel + 1 + (randomLevel - skipListLevel) <->
          skipListLevel < j ∧ j ≤ randomLevel := by
      omega
    simp only [hiff]
  · rw [if_neg hgt]
    refine ⟨(Nat.max_eq_left (Nat.le_of_not_lt hgt)).symm, ?_⟩
    intro j
    rw [if_neg (by omega)]

/-- The levels that are dropped are empty. -/
theorem dropLevels_eq {list : LevelledList K V} {top : Nat}
    (h : forall i, i ≤ top -> (list.forwardOf header i).isSome) :
    exists level, list.dropLevels top = some level ∧ level ≤ top ∧
      forall i, level < i -> i ≤ top -> list.forwardOf header i = some none := by
  induction top with
  | zero =>
      refine ⟨0, rfl, Nat.le_refl 0, ?_⟩
      intro i hlt hle
      omega
  | succ top ih =>
      rcases Option.isSome_iff_exists.mp (h (top + 1) (Nat.le_refl _)) with ⟨q, hq⟩
      by_cases hnone : q = none
      · rcases ih (fun i hi => h i (by omega)) with ⟨level, hdrop, hle, hempty⟩
        refine ⟨level, ?_, by omega, ?_⟩
        · simp only [dropLevels, Option.bind_eq_bind, hq, Option.bind_some, hnone, if_true,
            hdrop]
        · intro i hlt hi
          by_cases htop : i = top + 1
          · rw [htop, hq, hnone]
          · exact hempty i hlt (by omega)
      · refine ⟨top + 1, ?_, Nat.le_refl _, ?_⟩
        · simp only [dropLevels, Option.bind_eq_bind, hq, Option.bind_some, hnone, if_false]
          rfl
        · intro i hlt hle
          omega

theorem getRandomLevel_le (list : LevelledList K V) (heads : Nat) :
    list.getRandomLevel heads ≤ list.maxLevel := by
  rw [getRandomLevel]
  split
  · omega
  · exact Nat.le_refl _

end LevelledList
end KVRaft
