import Mathlib.Algebra.Group.Nat.Defs
import Mathlib.Data.List.Basic
import Mathlib.Logic.Basic

/-!
# A tagged wire format

Numbers in base 128, byte strings behind their length, and messages that are
sequences of tagged fields.  A reader gives what it has read and the bytes behind it.
-/

namespace KVRaft
namespace Foundation
namespace Wire

abbrev Octets := List UInt8

/-!
# Numbers

The least significant digits come first, and every byte but the last has its high bit
set.
-/

def putVarint : Nat -> Nat -> Octets
  | 0, _ => []
  | k + 1, n =>
      if n < 128 then
        [UInt8.ofNat n]
      else
        UInt8.ofNat (n % 128 + 128) :: putVarint k (n / 128)

/-- Ten bytes are enough for 64 bits. -/
def varint (n : Nat) : Octets :=
  putVarint 10 n

def getVarint : Nat -> Octets -> Option (Nat × Octets)
  | 0, _ => none
  | _ + 1, [] => none
  | k + 1, b :: rest =>
      if b.toNat < 128 then
        some (b.toNat, rest)
      else
        match getVarint k rest with
        | none => none
        | some (n, left) => some (b.toNat - 128 + 128 * n, left)

theorem toNat_ofNat {n : Nat} (h : n < 256) : (UInt8.ofNat n).toNat = n := by
  rw [UInt8.toNat_ofNat']
  exact Nat.mod_eq_of_lt h

theorem getVarint_small {n : Nat} (h : n < 128) (k : Nat) (rest : Octets) :
    getVarint (k + 1) (UInt8.ofNat n :: rest) = some (n, rest) := by
  have hbyte := toNat_ofNat (show n < 256 by omega)
  rw [getVarint, hbyte, if_pos h]

/-- A number that fits is read back, whatever comes behind it. -/
theorem getVarint_putVarint {j k n : Nat} (hj : n < 128 ^ (j + 1)) (hk : n < 128 ^ (k + 1))
    (rest : Octets) : getVarint (j + 1) (putVarint (k + 1) n ++ rest) = some (n, rest) := by
  induction k generalizing j n with
  | zero =>
      have hsmall : n < 128 := by simpa using hk
      rw [putVarint, if_pos hsmall]
      exact getVarint_small hsmall j rest
  | succ k ih =>
      rw [putVarint]
      by_cases hsmall : n < 128
      · rw [if_pos hsmall]
        exact getVarint_small hsmall j rest
      · rw [if_neg hsmall]
        cases j with
        | zero =>
            rw [Nat.zero_add, Nat.pow_one] at hj
            exact absurd hj hsmall
        | succ j =>
            have hbyte := toNat_ofNat (show n % 128 + 128 < 256 by omega)
            rw [Nat.pow_succ] at hj hk
            rw [List.cons_append, getVarint, hbyte, if_neg (by omega),
              ih (show n / 128 < 128 ^ (j + 1) by omega) (by omega)]
            have hdigits : n % 128 + 128 - 128 + 128 * (n / 128) = n := by omega
            simp only [hdigits]

theorem getVarint_varint {j n : Nat} (hj : n < 128 ^ (j + 1)) (hn : n < 128 ^ 10)
    (rest : Octets) : getVarint (j + 1) (varint n ++ rest) = some (n, rest) :=
  getVarint_putVarint hj hn rest

theorem putVarint_mono (k : Nat) {m n : Nat} (h : m ≤ n) :
    (putVarint k m).length ≤ (putVarint k n).length := by
  induction k generalizing m n with
  | zero => exact Nat.le_refl _
  | succ k ih =>
      rw [putVarint, putVarint]
      by_cases hn : n < 128
      · rw [if_pos (Nat.lt_of_le_of_lt h hn), if_pos hn]
        exact Nat.le_refl _
      · rw [if_neg hn]
        by_cases hm : m < 128
        · rw [if_pos hm, List.length_cons, List.length_cons]
          exact Nat.succ_le_succ (Nat.zero_le _)
        · rw [if_neg hm, List.length_cons, List.length_cons]
          exact Nat.succ_le_succ (ih (Nat.div_le_div_right h))

theorem varint_mono {m n : Nat} (h : m ≤ n) : (varint m).length ≤ (varint n).length :=
  putVarint_mono 10 h

theorem varint_pos (n : Nat) : 0 < (varint n).length := by
  unfold varint
  rw [putVarint]
  split
  · exact Nat.zero_lt_one
  · exact Nat.succ_pos _

/-- No other way to write a number is shorter. -/
theorem getVarint_length {j k n : Nat} {bytes rest : Octets}
    (h : getVarint j bytes = some (n, rest)) :
    (putVarint k n).length + rest.length ≤ bytes.length := by
  induction j generalizing bytes n k with
  | zero => cases h
  | succ j ih =>
      cases bytes with
      | nil => cases h
      | cons b bytes =>
          rw [getVarint] at h
          by_cases hsmall : b.toNat < 128
          · rw [if_pos hsmall] at h
            cases h
            have hone : (putVarint k b.toNat).length ≤ 1 := by
              cases k with
              | zero => exact Nat.zero_le 1
              | succ k =>
                  rw [putVarint, if_pos hsmall]
                  exact Nat.le_refl 1
            rw [List.length_cons]
            omega
          · rw [if_neg hsmall] at h
            cases hmore : getVarint j bytes with
            | none =>
                rw [hmore] at h
                cases h
            | some result =>
                rw [hmore] at h
                cases h
                cases k with
                | zero =>
                    have hnone := @ih 0 _ _ hmore
                    rw [List.length_cons, putVarint, List.length_nil] at *
                    omega
                | succ k =>
                    rw [putVarint, List.length_cons]
                    have hmany := @ih k _ _ hmore
                    have hlt := b.toNat_lt
                    split
                    · rw [List.length_singleton]
                      omega
                    · have hdiv : (b.toNat - 128 + 128 * result.1) / 128 = result.1 := by omega
                      rw [List.length_cons, hdiv]
                      omega

/-!
# Byte strings
-/

def getBytes (size : Nat) (bytes : Octets) : Option (Octets × Octets) :=
  if size ≤ bytes.length then some (bytes.take size, bytes.drop size) else none

def putSized (payload : Octets) : Octets :=
  varint payload.length ++ payload

/-- A byte string behind its length, which is less than 2 GiB. -/
def getSized (bytes : Octets) : Option (Octets × Octets) :=
  match getVarint 5 bytes with
  | none => none
  | some (size, rest) => if size < 2 ^ 31 then getBytes size rest else none

theorem getBytes_append (payload rest : Octets) :
    getBytes payload.length (payload ++ rest) = some (payload, rest) := by
  unfold getBytes
  rw [if_pos (by simp), List.take_left, List.drop_left]

theorem getBytes_length {size : Nat} {bytes payload rest : Octets}
    (h : getBytes size bytes = some (payload, rest)) :
    payload.length = size ∧ payload.length + rest.length = bytes.length := by
  unfold getBytes at h
  split at h
  · cases h
    rw [List.length_take, List.length_drop]
    omega
  · cases h

theorem getSized_putSized {payload : Octets} (h : payload.length < 2 ^ 31) (rest : Octets) :
    getSized (putSized payload ++ rest) = some (payload, rest) := by
  unfold getSized putSized
  rw [List.append_assoc, getVarint_varint (by omega) (by omega)]
  dsimp only
  rw [if_pos h, getBytes_append]

theorem getSized_length {bytes payload rest : Octets}
    (h : getSized bytes = some (payload, rest)) :
    (putSized payload).length + rest.length ≤ bytes.length := by
  unfold getSized at h
  cases hsize : getVarint 5 bytes with
  | none =>
      rw [hsize] at h
      cases h
  | some result =>
      rw [hsize] at h
      dsimp only at h
      split at h
      · rcases getBytes_length h with ⟨hpayload, hrest⟩
        have hcost := @getVarint_length 5 10 _ _ _ hsize
        rw [putSized, List.length_append, varint, hpayload]
        omega
      · cases h

/-!
# Fields

A tag is the number of a field together with its wire type.
-/

def getTag (bytes : Octets) : Option (Nat × Octets) :=
  match getVarint 5 bytes with
  | none => none
  | some (tag, rest) => some (tag % 2 ^ 32, rest)

/-- The value of a field that is not a group. -/
def skipValue (tag : Nat) (bytes : Octets) : Option Octets :=
  match tag % 8 with
  | 0 => (getVarint 10 bytes).map Prod.snd
  | 1 => (getBytes 8 bytes).map Prod.snd
  | 2 => (getSized bytes).map Prod.snd
  | 5 => (getBytes 4 bytes).map Prod.snd
  | _ => none

/-- The numbers of the groups that are open, the innermost first; groups may be nested a
hundred deep. -/
def skipGroup : Nat -> List Nat -> Octets -> Option Octets
  | _, [], bytes => some bytes
  | 0, _ :: _, _ => none
  | fuel + 1, group :: outer, bytes =>
      match getTag bytes with
      | none => none
      | some (tag, rest) =>
          if tag / 8 = 0 then
            none
          else if tag % 8 = 4 then
            if tag / 8 = group then skipGroup fuel outer rest else none
          else if tag % 8 = 3 then
            if outer.length + 1 < 100 then
              skipGroup fuel (tag / 8 :: group :: outer) rest
            else
              none
          else
            match skipValue tag rest with
            | none => none
            | some rest => skipGroup fuel (group :: outer) rest

/-- A field that the message does not have. -/
def skipField (tag : Nat) (bytes : Octets) : Option Octets :=
  if tag / 8 = 0 then
    none
  else if tag % 8 = 3 then
    skipGroup bytes.length [tag / 8] bytes
  else
    skipValue tag bytes

theorem getTag_length {bytes rest : Octets} {tag : Nat} (h : getTag bytes = some (tag, rest)) :
    rest.length < bytes.length := by
  unfold getTag at h
  cases hnumber : getVarint 5 bytes with
  | none =>
      rw [hnumber] at h
      cases h
  | some result =>
      rw [hnumber] at h
      cases h
      have hcost := @getVarint_length 5 10 _ _ _ hnumber
      have hpos := varint_pos result.1
      unfold varint at hpos
      omega

theorem getTag_small {n : Nat} (h : n < 128) (rest : Octets) :
    getTag (UInt8.ofNat n :: rest) = some (n, rest) := by
  unfold getTag
  rw [getVarint_small h]
  dsimp only
  rw [Nat.mod_eq_of_lt (by omega)]

theorem skipValue_length {tag : Nat} {bytes rest : Octets}
    (h : skipValue tag bytes = some rest) :
    rest.length ≤ bytes.length := by
  have hmap : forall {α : Type} {result : Option (α × Octets)},
      (forall a left, result = some (a, left) -> left.length ≤ bytes.length) ->
      result.map Prod.snd = some rest -> rest.length ≤ bytes.length := by
    intro α result hresult hrest
    rcases Option.map_eq_some_iff.mp hrest with ⟨⟨a, left⟩, hsome, rfl⟩
    exact hresult a left hsome
  unfold skipValue at h
  split at h
  · refine hmap (fun n left hn => ?_) h
    have hcost := @getVarint_length 10 0 _ _ _ hn
    omega
  · refine hmap (fun payload left hp => ?_) h
    have hcost := (getBytes_length hp).2
    omega
  · refine hmap (fun payload left hp => ?_) h
    have hcost := getSized_length hp
    omega
  · refine hmap (fun payload left hp => ?_) h
    have hcost := (getBytes_length hp).2
    omega
  · cases h

theorem skipGroup_length {fuel : Nat} {groups : List Nat} {bytes rest : Octets}
    (h : skipGroup fuel groups bytes = some rest) : rest.length ≤ bytes.length := by
  induction fuel generalizing groups bytes with
  | zero =>
      cases groups with
      | nil =>
          cases h
          exact Nat.le_refl _
      | cons group outer => cases h
  | succ fuel ih =>
      cases groups with
      | nil =>
          cases h
          exact Nat.le_refl _
      | cons group outer =>
          rw [skipGroup] at h
          cases htag : getTag bytes with
          | none =>
              rw [htag] at h
              cases h
          | some result =>
              rcases result with ⟨tag, left⟩
              rw [htag] at h
              dsimp only at h
              have hleft := getTag_length htag
              split at h
              · cases h
              split at h
              · split at h
                · have hrest := ih h
                  omega
                · cases h
              split at h
              · split at h
                · have hrest := ih h
                  omega
                · cases h
              split at h
              · cases h
              · rename_i value hvalue
                have hskip := skipValue_length hvalue
                have hrest := ih h
                omega

theorem skipField_length {tag : Nat} {bytes rest : Octets}
    (h : skipField tag bytes = some rest) :
    rest.length ≤ bytes.length := by
  unfold skipField at h
  split at h
  · cases h
  split at h
  · exact skipGroup_length h
  · exact skipValue_length h

/-!
# Messages

A message is read field by field until the bytes are used up.
-/

section Message

variable {σ : Type} (field : σ -> Octets -> Option (σ × Octets))

/-- Every field takes at least its tag, so as many rounds as there are bytes are enough. -/
def parseFields : Nat -> σ -> Octets -> Option σ
  | _, s, [] => some s
  | 0, _, _ :: _ => none
  | fuel + 1, s, b :: bytes =>
      match field s (b :: bytes) with
      | none => none
      | some (s, rest) => parseFields fuel s rest

def parseMessage (init : σ) (bytes : Octets) : Option σ :=
  parseFields field bytes.length init bytes

variable {field}

/-- A field gives back fewer bytes than it was given. -/
def Shortens (field : σ -> Octets -> Option (σ × Octets)) : Prop :=
  forall s bytes s' rest, field s bytes = some (s', rest) -> rest.length < bytes.length

theorem parseFields_fuel (hfield : Shortens field) {fuel fuel' : Nat} {s : σ} {bytes : Octets}
    (h : bytes.length ≤ fuel) (h' : bytes.length ≤ fuel') :
    parseFields field fuel s bytes = parseFields field fuel' s bytes := by
  induction fuel generalizing fuel' s bytes with
  | zero =>
      rw [List.length_eq_zero_iff.mp (Nat.le_zero.mp h), parseFields, parseFields]
  | succ fuel ih =>
      cases bytes with
      | nil => rw [parseFields, parseFields]
      | cons b bytes =>
          rw [List.length_cons] at h h'
          cases fuel' with
          | zero => exact absurd h' (Nat.not_succ_le_zero _)
          | succ fuel' =>
              rw [parseFields, parseFields]
              cases hstep : field s (b :: bytes) with
              | none => rfl
              | some result =>
                  have hshort := hfield _ _ _ _ hstep
                  rw [List.length_cons] at hshort
                  exact ih (by omega) (by omega)

@[simp] theorem parseMessage_nil (s : σ) : parseMessage field s [] = some s := by
  rw [parseMessage, parseFields]

/-- The first field and then the others. -/
theorem parseMessage_step (hfield : Shortens field) {s s' : σ} {bytes rest : Octets}
    (hbytes : bytes ≠ []) (h : field s bytes = some (s', rest)) :
    parseMessage field s bytes = parseMessage field s' rest := by
  cases bytes with
  | nil => exact absurd rfl hbytes
  | cons b bytes =>
      have hshort := hfield _ _ _ _ h
      rw [List.length_cons] at hshort
      rw [parseMessage, List.length_cons, parseFields, h]
      exact parseFields_fuel hfield (by omega) (Nat.le_refl _)

/-- Whatever a message costs was paid for with the bytes of its fields. -/
theorem parseMessage_cost {cost : σ -> Nat}
    (hcost : forall s bytes s' rest, field s bytes = some (s', rest) ->
      cost s' + rest.length ≤ cost s + bytes.length)
    {s s' : σ} {bytes : Octets} (h : parseMessage field s bytes = some s') :
    cost s' ≤ cost s + bytes.length := by
  have hloop : forall fuel (s : σ) (bytes : Octets), parseFields field fuel s bytes = some s' ->
      cost s' ≤ cost s + bytes.length := by
    intro fuel
    induction fuel with
    | zero =>
        intro s bytes h
        cases bytes with
        | nil =>
            cases h
            exact Nat.le_refl _
        | cons b bytes => cases h
    | succ fuel ih =>
        intro s bytes h
        cases bytes with
        | nil =>
            cases h
            exact Nat.le_refl _
        | cons b bytes =>
            rw [parseFields] at h
            cases hstep : field s (b :: bytes) with
            | none =>
                rw [hstep] at h
                cases h
            | some result =>
                rw [hstep] at h
                exact Nat.le_trans (ih result.1 result.2 h) (hcost _ _ _ _ hstep)
  exact hloop _ s bytes h

end Message

end Wire
end Foundation
end KVRaft
