import KVRaft.Common.Bytes

/-!
# A plain archive format

Numbers in unary, strings and lists behind their length.  It stands in for the
serialisation libraries wherever a concrete run needs one: what is read back is
what was written, and what follows it is left alone.
-/

namespace KVRaft
namespace PlainText

def putNat : Nat -> Bytes
  | 0 => [0]
  | k + 1 => 1 :: putNat k

def getNat : Bytes -> Option (Nat × Bytes)
  | [] => none
  | c :: rest =>
      if c = 0 then
        some (0, rest)
      else
        (getNat rest).map fun (k, rest) => (k + 1, rest)

theorem getNat_putNat (k : Nat) (rest : Bytes) :
    getNat (putNat k ++ rest) = some (k, rest) := by
  induction k with
  | zero => rfl
  | succ k ih =>
      have hone : (1 : UInt8) ≠ 0 := by decide
      rw [putNat, List.cons_append, getNat, if_neg hone, ih]
      rfl

def putInt : Int -> Bytes
  | .ofNat k => putNat (2 * k)
  | .negSucc k => putNat (2 * k + 1)

def getInt (data : Bytes) : Option (Int × Bytes) :=
  (getNat data).map fun (k, rest) =>
    (if k % 2 = 0 then Int.ofNat (k / 2) else Int.negSucc (k / 2), rest)

theorem getInt_putInt (i : Int) (rest : Bytes) :
    getInt (putInt i ++ rest) = some (i, rest) := by
  cases i with
  | ofNat k =>
      have hmod : 2 * k % 2 = 0 := by omega
      have hdiv : 2 * k / 2 = k := by omega
      simp only [getInt, putInt, getNat_putNat, Option.map_some, if_pos hmod, hdiv]
  | negSucc k =>
      have hmod : ¬ (2 * k + 1) % 2 = 0 := by omega
      have hdiv : (2 * k + 1) / 2 = k := by omega
      simp only [getInt, putInt, getNat_putNat, Option.map_some, if_neg hmod, hdiv]

def putBytes (data : Bytes) : Bytes :=
  putNat data.length ++ data

def getBytes (data : Bytes) : Option (Bytes × Bytes) :=
  (getNat data).map fun (k, rest) => rest.splitAt k

theorem getBytes_putBytes (data rest : Bytes) :
    getBytes (putBytes data ++ rest) = some (data, rest) := by
  simp only [getBytes, putBytes, List.append_assoc, getNat_putNat, Option.map_some,
    List.splitAt_eq, List.take_left, List.drop_left]

section

variable {α : Type} (put : α -> Bytes) (get : Bytes -> Option (α × Bytes))

def putList (items : List α) : Bytes :=
  putNat items.length ++ items.flatMap put

def getItems : Nat -> Bytes -> Option (List α × Bytes)
  | 0, data => some ([], data)
  | k + 1, data =>
      (get data).bind fun (item, data) =>
        (getItems k data).map fun (items, data) => (item :: items, data)

def getList (data : Bytes) : Option (List α × Bytes) :=
  (getNat data).bind fun (k, data) => getItems get k data

theorem getItems_flatMap (h : forall item rest, get (put item ++ rest) = some (item, rest))
    (items : List α) (rest : Bytes) :
    getItems get items.length (items.flatMap put ++ rest) = some (items, rest) := by
  induction items with
  | nil => rfl
  | cons item items ih =>
      simp only [List.length_cons, getItems, List.flatMap_cons, List.append_assoc, h, ih,
        Option.bind_some, Option.map_some]

theorem getList_putList (h : forall item rest, get (put item ++ rest) = some (item, rest))
    (items : List α) (rest : Bytes) :
    getList get (putList put items ++ rest) = some (items, rest) := by
  rw [getList, putList, List.append_assoc, getNat_putNat]
  exact getItems_flatMap put get h items rest

end

/-!
Nothing is written as the empty string.
-/

theorem putNat_ne_nil (k : Nat) : putNat k ≠ [] := by
  cases k with
  | zero => exact List.cons_ne_nil 0 []
  | succ k => exact List.cons_ne_nil 1 _

theorem putInt_ne_nil (i : Int) : putInt i ≠ [] := by
  cases i with
  | ofNat k => exact putNat_ne_nil _
  | negSucc k => exact putNat_ne_nil _

theorem putBytes_ne_nil (data : Bytes) : putBytes data ≠ [] :=
  List.append_ne_nil_of_left_ne_nil (putNat_ne_nil data.length) _

theorem putList_ne_nil {α : Type} (put : α -> Bytes) (items : List α) :
    putList put items ≠ [] :=
  List.append_ne_nil_of_left_ne_nil (putNat_ne_nil items.length) _

end PlainText
end KVRaft
