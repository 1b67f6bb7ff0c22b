import KVRaft.Foundation.Linearizability
import KVRaft.RaftClerk.Execution

/-!
# One store behind the log

What the clerks are promised is one store.  A write takes effect in it where it is
committed for the first time, and a server that judges repetitions rightly holds the
store of the place it has come to.
-/

namespace KVRaft
namespace RaftClerk

open Foundation KvServer
open Foundation.History (Judged)

/-- One store, that knows nothing of Raft. -/
abbrev Store : Type :=
  Bytes -> Option Bytes

def Store.apply (store : Store) (op : Op) : Store × Bytes :=
  match op.operation with
  | .get => (store, (store op.key).getD [])
  | .put => (Function.update store op.key (some op.value), [])
  | .append => (Function.update store op.key (some ((store op.key).getD [] ++ op.value)), [])

def kvStore : SequentialObject Store Op Bytes where
  init := fun _ => none
  apply := Store.apply

def contents (map : SkipList Bytes Bytes) : Store :=
  map.searchElement

theorem contents_insertSetElement (map : SkipList Bytes Bytes) (key value : Bytes) :
    contents (map.insertSetElement key value) =
      Function.update (contents map) key (some value) := by
  funext k
  rw [contents, SkipList.searchElement_insertSetElement, Function.update_apply]
  rfl

/-- The map of a server changes as the store does. -/
theorem contents_written (map : SkipList Bytes Bytes) (op : Op) :
    contents (written map op) = ((contents map).apply op).1 := by
  cases hop : op.operation with
  | get => simp only [written, Store.apply, hop]
  | put => simp only [written, Store.apply, hop, contents_insertSetElement]
  | append =>
      simp only [written, Store.apply, hop]
      cases hfound : map.searchElement op.key with
      | none =>
          have hstore : contents map op.key = none := hfound
          simp only [hstore, contents_insertSetElement, Option.getD_none, List.nil_append]
      | some oldValue =>
          have hstore : contents map op.key = some oldValue := hfound
          simp only [hstore, contents_insertSetElement, Option.getD_some]

theorem Store.apply_of_writes {op : Op} (h : op.Writes) (store : Store) :
    (store.apply op).2 = [] := by
  unfold Store.apply
  cases hop : op.operation with
  | get => exact absurd hop h
  | put => rfl
  | append => rfl

theorem Store.apply_of_get {op : Op} (h : op.operation = .get) (store : Store) :
    store.apply op = (store, (store op.key).getD []) := by
  simp only [Store.apply, h]

/-!
# Where writes take effect
-/

/-- The write that takes effect at a place of the log: one that is not a repetition. -/
def effectsAt (log : List Entry) (k : Nat) : List (Effect Op Bytes) :=
  match log[k]? with
  | none => []
  | some entry =>
      if entry.op.Writes ∧ entry ∉ log.take k then
        [{ call := entry.call, op := entry.op, value := [] }]
      else
        []

/-- The store before each place of the log. -/
def storeAt (log : List Entry) : Nat -> Store
  | 0 => kvStore.init
  | k + 1 =>
      (effectsAt log k).foldl (fun store x => (store.apply x.op).1) (storeAt log k)

theorem mem_effectsAt {log : List Entry} {k : Nat} {x : Effect Op Bytes} :
    x ∈ effectsAt log k <-> exists entry, log[k]? = some entry ∧ entry.op.Writes ∧
      entry ∉ log.take k ∧ x = { call := entry.call, op := entry.op, value := [] } := by
  unfold effectsAt
  cases hentry : log[k]? with
  | none =>
      constructor
      · intro h
        cases h
      · rintro ⟨entry, h, _⟩
        cases h
  | some entry =>
      by_cases hnew : entry.op.Writes ∧ entry ∉ log.take k
      · simp only [if_pos hnew, List.mem_singleton]
        constructor
        · rintro rfl
          exact ⟨entry, rfl, hnew.1, hnew.2, rfl⟩
        · rintro ⟨other, hsame, _, _, rfl⟩
          cases hsame
          rfl
      · simp only [if_neg hnew, List.not_mem_nil, false_iff]
        rintro ⟨other, hsame, hwrites, hfirst, _⟩
        cases hsame
        exact hnew ⟨hwrites, hfirst⟩

theorem effectsAt_pairwise (R : Effect Op Bytes -> Effect Op Bytes -> Prop)
    (log : List Entry) (k : Nat) : (effectsAt log k).Pairwise R := by
  unfold effectsAt
  split
  · exact List.Pairwise.nil
  · split
    · exact List.pairwise_singleton R _
    · exact List.Pairwise.nil

theorem effectsAt_append {log : List Entry} {k : Nat} (later : List Entry)
    (hk : k < log.length) : effectsAt (log ++ later) k = effectsAt log k := by
  unfold effectsAt
  rw [List.getElem?_append_left hk, List.take_append_of_le_length hk.le]

theorem legal_effectsAt (log : List Entry) (k : Nat) :
    kvStore.Legal (storeAt log k) (effectsAt log k) (storeAt log (k + 1)) := by
  rw [storeAt]
  have hwrites : forall x, x ∈ effectsAt log k -> x.op.Writes ∧ x.value = [] := by
    intro x hx
    rcases mem_effectsAt.mp hx with ⟨entry, _, hwrites, _, rfl⟩
    exact ⟨hwrites, rfl⟩
  generalize storeAt log k = store
  generalize effectsAt log k = xs at hwrites
  induction xs generalizing store with
  | nil => rfl
  | cons x xs ih =>
      rcases hwrites x List.mem_cons_self with ⟨hop, hvalue⟩
      refine ⟨?_, ih _ fun y hy => hwrites y (List.mem_cons_of_mem x hy)⟩
      change (store.apply x.op).2 = x.value
      rw [Store.apply_of_writes hop, hvalue]

theorem storeAt_append {log : List Entry} (later : List Entry) {k : Nat}
    (hk : k ≤ log.length) : storeAt (log ++ later) k = storeAt log k := by
  induction k with
  | zero => rfl
  | succ k ih => rw [storeAt, storeAt, ih (Nat.le_of_succ_le hk), effectsAt_append later hk]

/-- A server that judges repetitions rightly holds the store of the place it has
come to. -/
theorem contents_mapAfter {log : List Entry} {history : List (Entry × Bool)}
    (hseen : History.seen history <+: log)
    (hjudged : Judged (fun entry : Entry => entry.op.Writes) history) :
    contents (mapAfter history) = storeAt log history.length := by
  induction history using List.reverseRecOn with
  | nil =>
      funext key
      rfl
  | append_singleton history p ih =>
      rw [History.seen_concat] at hseen
      have hbefore := (List.prefix_append (History.seen history) [p.1]).trans hseen
      have hlength : (History.seen history).length = history.length := List.length_map _
      have hplace : log[history.length]? = some p.1 := by
        rcases hseen with ⟨later, rfl⟩
        rw [← hlength, List.append_assoc, List.getElem?_append_right (le_refl _),
          Nat.sub_self]
        rfl
      have htake : log.take history.length = History.seen history := by
        rw [← hlength]
        exact (List.prefix_iff_eq_take.mp hbefore).symm
      have hrest := ih hbefore hjudged.of_concat
      rw [List.length_append, List.length_singleton, storeAt, ← hrest]
      by_cases hrun : p.2 = false ∧ p.1.op.Writes
      · have hnew : p.1 ∉ log.take history.length := by
          rw [htake]
          intro hmem
          have hduplicate := (hjudged.last hrun.2).mpr hmem
          rw [hrun.1] at hduplicate
          cases hduplicate
        have heffects : effectsAt log history.length =
            [{ call := p.1.call, op := p.1.op, value := [] }] := by
          unfold effectsAt
          simp only [hplace, if_pos (And.intro hrun.2 hnew)]
        rw [heffects, mapAfter, History.executed_concat_execute hrun, mapOf, List.foldl_append]
        exact contents_written (mapAfter history) p.1.op
      · have heffects : effectsAt log history.length = [] := by
          unfold effectsAt
          simp only [hplace]
          apply if_neg
          rintro ⟨hwrites, hnew⟩
          rw [htake] at hnew
          apply hrun
          refine ⟨?_, hwrites⟩
          cases hduplicate : p.2 with
          | false => rfl
          | true => exact absurd ((hjudged.last hwrites).mp hduplicate) hnew
        rw [heffects, mapAfter, History.executed_concat_skip hrun]
        rfl

end RaftClerk
end KVRaft
