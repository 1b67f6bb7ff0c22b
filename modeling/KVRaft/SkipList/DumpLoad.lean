import KVRaft.KvServer.PlainKvArchive
import KVRaft.SkipList.FiniteMap

/-!
# Dumping and loading the linked list

A dump follows the pointers of level 0.  Loading it inserts the entries again, with
new levels.
-/

namespace KVRaft

open Foundation

/-- Keys and values are kept apart. -/
def SkipListDump.insert {K V : Type} (dumper : SkipListDump K V) (node : Node K V) :
    SkipListDump K V where
  keyDumpVt := dumper.keyDumpVt ++ [node.key]
  valDumpVt := dumper.valDumpVt ++ [node.value]

namespace LevelledList

variable {K V : Type}

def size (list : LevelledList K V) : Nat :=
  list.elementCount

/-- The loop of a dump, from a node on. -/
def dumpFrom (list : LevelledList K V) :
    Nat -> Option Nat -> SkipListDump K V -> Option (SkipListDump K V)
  | _, none, dumper => some dumper
  | 0, some _, _ => none
  | steps + 1, some p, dumper => do
      let node <- list.nodes p
      dumpFrom list steps (<- node.forward[0]?) (dumper.insert node)

def dumpFile [DumpArchive K V] (list : LevelledList K V) : Option Bytes := do
  let first <- list.forwardOf header 0
  let dumper <- list.dumpFrom list.elementCount first { keyDumpVt := [], valDumpVt := [] }
  return DumpArchive.textOarchive dumper

section

variable [LT K] [DecidableLT K] [DecidableEq K]

/-- The loop of a load, over `steps` entries from `i` on, with the coin tosses for the
level of each node. -/
def loadFrom (dumper : SkipListDump K V) (heads : Nat -> Nat) :
    Nat -> Nat -> LevelledList K V -> Option (LevelledList K V)
  | 0, _, list => some list
  | steps + 1, i, list => do
      let key <- dumper.keyDumpVt[i]?
      let value <- dumper.valDumpVt[i]?
      let (list, _) <- list.insertElement key value (heads i)
      loadFrom dumper heads steps (i + 1) list

def loadFile [DumpArchive K V] (list : LevelledList K V) (dumpStr : Bytes)
    (heads : Nat -> Nat) : Option (LevelledList K V) :=
  if dumpStr.isEmpty then
    some list
  else do
    let dumper <- DumpArchive.textIarchive dumpStr
    loadFrom dumper heads dumper.keyDumpVt.length 0 list

end

/-!
# Following level 0
-/

variable [Inhabited K] [Inhabited V] [LT K] {list : LevelledList K V}
  {cells rest : List (Cell K V)}

theorem Linked.node (h : Linked list cells) {c : Cell K V} (hc : c ∈ cells) :
    exists node, list.nodes c.address = some node ∧ node.key = c.key ∧
      node.value = c.value := by
  rcases Option.map_eq_some_iff.mp (h.key c hc) with ⟨node, hnode, hkey⟩
  rcases Option.map_eq_some_iff.mp (h.value c hc) with ⟨node', hnode', hvalue⟩
  rw [hnode] at hnode'
  cases hnode'
  exact ⟨node, hnode, hkey, hvalue⟩

theorem Linked.dumpFrom (h : Linked list cells) (hsuffix : rest <:+ cells) {steps : Nat}
    (hsteps : rest.length ≤ steps) (dumper : SkipListDump K V) :
    list.dumpFrom steps (rest.head?.map Cell.address) dumper =
      some { keyDumpVt := dumper.keyDumpVt ++ rest.map Cell.key
             valDumpVt := dumper.valDumpVt ++ rest.map Cell.value } := by
  induction rest generalizing steps dumper with
  | nil => simp [LevelledList.dumpFrom]
  | cons c rest ih =>
      rcases h.node (hsuffix.subset List.mem_cons_self) with ⟨node, hnode, hkey, hvalue⟩
      have hnext := h.forward c rest (hsuffix.trans (List.suffix_cons _ cells)) 0
        (Nat.zero_le _)
      rw [firstAt_zero, forwardOf, hnode, Option.bind_some] at hnext
      cases steps with
      | zero => exact absurd hsteps (Nat.not_succ_le_zero _)
      | succ steps =>
          have hrest := ih ((List.suffix_cons c rest).trans hsuffix)
            (Nat.le_of_succ_le_succ hsteps) (dumper.insert node)
          simp only [List.head?_cons, Option.map_some, LevelledList.dumpFrom,
            Option.bind_eq_bind, hnode, Option.bind_some, hnext, hrest]
          simp [SkipListDump.insert, hkey, hvalue]

theorem Represents.size {chain : SkipList K V} (h : Represents list chain) :
    list.size = chain.chain.length := by
  rcases h with ⟨cells, hlinked, hchain⟩
  rw [← hchain, List.length_map]
  exact hlinked.elementCount

theorem Represents.dumpFile [DumpArchive K V] {chain : SkipList K V}
    (h : Represents list chain) : list.dumpFile = some chain.dumpFile := by
  rcases h with ⟨cells, hlinked, hchain⟩
  have hfirst := hlinked.forward list.headerCell cells List.suffix_rfl 0 (Nat.zero_le _)
  rw [firstAt_zero] at hfirst
  change list.forwardOf header 0 = _ at hfirst
  have hall := hlinked.dumpFrom List.suffix_rfl (Nat.le_of_eq hlinked.elementCount.symm)
    { keyDumpVt := [], valDumpVt := [] }
  have hkeys : cells.map Cell.key = chain.chain.map Prod.fst := by
    rw [← hchain, List.map_map]
    rfl
  have hvalues : cells.map Cell.value = chain.chain.map Prod.snd := by
    rw [← hchain, List.map_map]
    rfl
  simp only [LevelledList.dumpFile, Option.bind_eq_bind, hfirst, Option.bind_some, hall,
    List.nil_append, hkeys, hvalues]
  rfl

/-!
# Inserting again
-/

variable [DecidableLT K] [DecidableEq K] [IsStrictTotalOrder K (· < ·)]

theorem Represents.loadFrom {chain : SkipList K V} (h : Represents list chain)
    (heads : Nat -> Nat) {all entries : List (K × V)} {i : Nat}
    (hentries : all.drop i = entries) :
    exists list', LevelledList.loadFrom
        { keyDumpVt := all.map Prod.fst, valDumpVt := all.map Prod.snd } heads
        entries.length i list = some list' ∧
      Represents list' (entries.foldl
        (fun list (key, value) => (list.insertElement key value).1) chain) := by
  induction entries generalizing i list chain with
  | nil => exact ⟨list, rfl, h⟩
  | cons a rest ih =>
      have hget : all[i]? = some a := by
        have hhead : (all.drop i)[0]? = all[i]? := List.getElem?_drop
        rw [← hhead, hentries]
        rfl
      have hrest : all.drop (i + 1) = rest := by
        rw [← List.tail_drop, hentries, List.tail_cons]
      rcases h.insertElement a.1 a.2 (heads i) with ⟨next, hinsert, hnext⟩
      rcases ih hnext hrest with ⟨list', hload, hlist'⟩
      refine ⟨list', ?_, hlist'⟩
      simp only [List.length_cons, LevelledList.loadFrom, Option.bind_eq_bind,
        List.getElem?_map, hget, Option.map_some, Option.bind_some, hinsert, hload]

theorem Represents.loadFile [DumpArchive K V] [LawfulDumpArchive K V] {chain : SkipList K V}
    (h : Represents list chain) (other : SkipList K V) (heads : Nat -> Nat) :
    exists list', list.loadFile other.dumpFile heads = some list' ∧
      exists loaded, chain.loadFile other.dumpFile = some loaded ∧
        Represents list' loaded := by
  rcases h.loadFrom heads (List.drop_zero (l := other.chain)) with ⟨list', hload, hlist'⟩
  refine ⟨list', ?_, _, SkipList.loadFile_dumpFile chain other, hlist'⟩
  have hne : other.dumpFile.isEmpty = false := by
    rw [List.isEmpty_eq_false_iff]
    exact LawfulDumpArchive.textOarchive_ne_nil _
  rw [LevelledList.loadFile, hne, SkipList.dumpFile,
    LawfulDumpArchive.textIarchive_textOarchive]
  simp only [Bool.false_eq_true, if_false, Option.bind_eq_bind, Option.bind_some,
    List.length_map]
  exact hload

/-- Whatever levels the nodes have had and are given, a dump loaded into a new list has
the same entries, the same size and the same dump. -/
theorem load_dump_round_trip [DumpArchive K V] [LawfulDumpArchive K V]
    (maxLevel : Nat) (calls : List (SkipListCall K V × Nat)) (newMaxLevel : Nat)
    (heads : Nat -> Nat) :
    exists list dumpStr loaded, SkipListCall.runAll maxLevel calls = some list ∧
      list.dumpFile = some dumpStr ∧
      (create newMaxLevel).loadFile dumpStr heads = some loaded ∧
      (forall key, loaded.searchElement key = list.searchElement key) ∧
      loaded.size = list.size ∧ loaded.dumpFile = some dumpStr := by
  rcases (RefinesMap.create maxLevel).runAll calls with ⟨list, hrun, chain, hrep, _⟩
  have hnew : Represents (create newMaxLevel : LevelledList K V) SkipList.empty :=
    ⟨[], create_linked newMaxLevel, rfl⟩
  rcases hnew.loadFile chain heads with ⟨loaded, hload, same, hsame, hloaded⟩
  rw [SkipList.loadFile_dumpFile_empty, Option.some_inj] at hsame
  subst hsame
  refine ⟨list, chain.dumpFile, loaded, hrun, hrep.dumpFile, hload, ?_, ?_, hloaded.dumpFile⟩
  · intro key
    rw [hloaded.searchElement key, hrep.searchElement key]
  · rw [hloaded.size, hrep.size]

end LevelledList

/-- A list of strings that is dumped and loaded into a lower one. -/
theorem string_dump_loaded :
    exists list dumpStr loaded, SkipListCall.runAll 3 stringCalls = some list ∧
      @LevelledList.dumpFile Bytes Bytes KvServer.plainKvArchive.toDumpArchive list =
        some dumpStr ∧
      @LevelledList.loadFile Bytes Bytes _ _ _ KvServer.plainKvArchive.toDumpArchive
        (LevelledList.create 1) dumpStr (fun i => i) = some loaded ∧
      (forall key, loaded.searchElement key = list.searchElement key) ∧
      loaded.size = list.size ∧
      @LevelledList.dumpFile Bytes Bytes KvServer.plainKvArchive.toDumpArchive loaded =
        some dumpStr := by
  let _ := KvServer.plainKvArchive
  have hlawful := KvServer.plainKvArchive_lawful.toLawfulDumpArchive
  exact LevelledList.load_dump_round_trip 3 stringCalls 1 fun i => i

end KVRaft
