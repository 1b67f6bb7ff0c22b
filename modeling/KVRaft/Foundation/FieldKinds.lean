import KVRaft.Foundation.Descriptor
import KVRaft.Foundation.Narrowing

/-!
# Byte strings, numbers, flags and nested messages

The kinds of values that the fields of a message have.  All but the repeated ones are left
out when they have their default value.
-/

namespace KVRaft
namespace Foundation
namespace Wire

/-!
# Readers do not look ahead
-/

theorem getVarint_append {k n : Nat} {bytes rest : Octets}
    (h : getVarint k bytes = some (n, rest)) (more : Octets) :
    getVarint k (bytes ++ more) = some (n, rest ++ more) := by
  induction k generalizing bytes n with
  | zero => cases h
  | succ k ih =>
      cases bytes with
      | nil => cases h
      | cons b bytes =>
          rw [List.cons_append]
          rw [getVarint] at h ⊢
          by_cases hsmall : b.toNat < 128
          · rw [if_pos hsmall] at h ⊢
            cases h
            rfl
          · rw [if_neg hsmall] at h ⊢
            cases hnext : getVarint k bytes with
            | none =>
                rw [hnext] at h
                cases h
            | some result =>
                rw [hnext] at h
                cases h
                rw [ih hnext]

theorem getBytes_append_of_some {size : Nat} {bytes payload rest : Octets}
    (h : getBytes size bytes = some (payload, rest)) (more : Octets) :
    getBytes size (bytes ++ more) = some (payload, rest ++ more) := by
  unfold getBytes at h ⊢
  split at h
  · rename_i hsize
    cases h
    rw [if_pos (by rw [List.length_append]; omega), List.take_append_of_le_length hsize,
      List.drop_append_of_le_length hsize]
  · cases h

theorem getSized_append {bytes payload rest : Octets}
    (h : getSized bytes = some (payload, rest)) (more : Octets) :
    getSized (bytes ++ more) = some (payload, rest ++ more) := by
  unfold getSized at h ⊢
  cases hsize : getVarint 5 bytes with
  | none =>
      rw [hsize] at h
      cases h
  | some result =>
      rw [hsize] at h
      dsimp only at h
      rw [getVarint_append hsize]
      dsimp only
      by_cases hsmall : result.1 < 2 ^ 31
      · rw [if_pos hsmall] at h ⊢
        exact getBytes_append_of_some h more
      · rw [if_neg hsmall] at h
        cases h

/-- A reader that does not look ahead does not read a part of what it reads whole. -/
theorem read_cut {α : Type} {read : Octets -> Option (α × Octets)}
    (happend : forall {bytes v rest}, read bytes = some (v, rest) ->
      forall more, read (bytes ++ more) = some (v, rest ++ more))
    {p part : Octets} {v : α} (hread : read p = some (v, [])) (hpart : part.IsPrefix p)
    (hcut : part ≠ p) : read part = none := by
  rcases hpart with ⟨more, rfl⟩
  cases h : read part with
  | none => rfl
  | some result =>
      have hwhole := happend h more
      rw [hread] at hwhole
      have hempty : result.2 ++ more = [] := (congrArg Prod.snd (Option.some.inj hwhole)).symm
      rw [(List.append_eq_nil_iff.mp hempty).2, List.append_nil] at hcut
      exact absurd rfl hcut

/-!
# Values that are written once or not at all
-/

/-- A value that is written unless it is the default one. -/
structure Scalar (α : Type) where
  wireType : Fin 8
  default : α
  Fits : α -> Prop
  /-- the value is written -/
  present : α -> Bool
  write : α -> Octets
  read : Octets -> Option (α × Octets)
  fits_default : Fits default
  absent : forall {v : α}, present v = false <-> v = default
  fits_read : forall {v : α} {bytes rest : Octets}, read bytes = some (v, rest) -> Fits v
  read_length : forall {v : α} {bytes rest : Octets}, read bytes = some (v, rest) ->
    rest.length ≤ bytes.length
  read_write : forall {v : α}, Fits v -> (write v).length < 2 ^ 31 -> forall rest,
    read (write v ++ rest) = some (v, rest)
  read_append : forall {bytes : Octets} {v : α} {rest : Octets}, read bytes = some (v, rest) ->
    forall more, read (bytes ++ more) = some (v, rest ++ more)

namespace Scalar

variable {α : Type} (k : Scalar α)

def put (v : α) : List Octets :=
  if k.present v then [k.write v] else []

def get (_ : α) (bytes : Octets) : Option (α × Octets) :=
  k.read bytes

theorem put_default : k.put k.default = [] := by
  rw [put, k.absent.mpr rfl]
  rfl

theorem put_cases (v : α) : v = k.default ∧ k.put v = [] ∨ k.put v = [k.write v] := by
  cases h : k.present v with
  | false =>
      have hv := k.absent.mp h
      rw [hv]
      exact Or.inl ⟨rfl, k.put_default⟩
  | true =>
      rw [put, h]
      exact Or.inr rfl

theorem get_put {w : α} (hw : k.Fits w) (hsmall : forall p, p ∈ k.put w -> p.length < 2 ^ 31) :
    Reads k.get k.default (k.put w) w := by
  rcases k.put_cases w with ⟨hv, hput⟩ | hput
  · rw [hput]
    exact hv.symm
  · rw [hput] at hsmall ⊢
    exact ⟨w, k.read_write hw (hsmall _ List.mem_cons_self), rfl⟩

theorem get_cut {v w : α} {p part : Octets} (hw : k.Fits w) (hp : p ∈ k.put w)
    (hsmall : p.length < 2 ^ 31) (hpart : part.IsPrefix p) (hcut : part ≠ p) :
    k.get v part = none := by
  rcases k.put_cases w with ⟨_, hput⟩ | hput
  · rw [hput] at hp
    cases hp
  · rw [hput, List.mem_singleton] at hp
    rw [hp] at hpart hcut hsmall
    have hread := k.read_write hw hsmall []
    rw [List.append_nil] at hread
    exact read_cut (fun h => k.read_append h) hread hpart hcut

theorem put_part {w : α} {ps : List Octets} (hw : k.Fits w) (hps : ps.IsPrefix (k.put w)) :
    exists u, k.Fits u ∧ k.put u = ps := by
  cases ps with
  | nil => exact ⟨k.default, k.fits_default, k.put_default⟩
  | cons p ps =>
      refine ⟨w, hw, (hps.eq_of_length_le ?_).symm⟩
      rcases k.put_cases w with ⟨_, hput⟩ | hput
      · rw [hput]
        exact Nat.zero_le _
      · rw [hput, List.length_singleton, List.length_cons]
        omega

def kind : Kind α where
  wireType := k.wireType
  default := k.default
  Fits := k.Fits
  put := k.put
  get := k.get
  fits_default := k.fits_default
  fits_get _ h := k.fits_read h
  get_length h := k.read_length h
  get_put := k.get_put
  get_cut := k.get_cut
  put_part := k.put_part

/-- A value that is read is not shorter than it is written. -/
def Economical : Prop :=
  forall {v : α} {bytes rest : Octets}, k.read bytes = some (v, rest) ->
    (k.write v).length + rest.length ≤ bytes.length

theorem Economical.kind {k : Scalar α} (h : k.Economical) : k.kind.Economical where
  put_default := k.put_default
  get_paid := by
    intro v w bytes rest hget
    have hpaid := h hget
    have hput : written (k.put w) ≤ (k.write w).length + 1 := by
      rcases k.put_cases w with ⟨_, hnone⟩ | hone
      · rw [hnone]
        exact Nat.zero_le _
      · rw [hone]
        exact Nat.le_refl _
    change written (k.put w) + rest.length ≤ _
    omega

end Scalar

/-!
# Byte strings, numbers and flags
-/

theorem getSized_shortens {bytes payload rest : Octets}
    (h : getSized bytes = some (payload, rest)) : rest.length ≤ bytes.length :=
  Nat.le_trans (Nat.le_add_left _ _) (getSized_length h)

theorem getSized_put {v : Octets} (hsmall : (putSized v).length < 2 ^ 31) (rest : Octets) :
    getSized (putSized v ++ rest) = some (v, rest) := by
  rw [putSized, List.length_append] at hsmall
  exact getSized_putSized (by omega) rest

theorem isEmpty_iff {v : Octets} : decide (v.length > 0) = false <-> v = [] := by
  rw [decide_eq_false_iff_not, Nat.not_lt, Nat.le_zero, List.length_eq_zero_iff]

def bytesScalar : Scalar Octets where
  wireType := 2
  default := []
  Fits _ := True
  present v := v.length > 0
  write := putSized
  read := getSized
  fits_default := trivial
  absent := isEmpty_iff
  fits_read _ := trivial
  read_length := getSized_shortens
  read_write _ := getSized_put
  read_append := getSized_append

@[simp] theorem bytesScalar_default : bytesScalar.kind.default = [] :=
  rfl

@[simp] theorem bytesScalar_fits (v : Octets) : bytesScalar.kind.Fits v :=
  trivial

theorem bytesScalar_economical : bytesScalar.Economical :=
  getSized_length

/-- A number of at most 64 bits and what it stands for. -/
def getNumber {α : Type} (cut : Nat -> α) (bytes : Octets) : Option (α × Octets) :=
  (getVarint 10 bytes).map fun (n, rest) => (cut n, rest)

section Number

variable {α : Type} {cut : Nat -> α} {v : α} {bytes rest : Octets}

theorem getNumber_cases (h : getNumber cut bytes = some (v, rest)) :
    exists n : Nat, getVarint 10 bytes = some (n, rest) ∧ v = cut n := by
  rcases Option.map_eq_some_iff.mp h with ⟨⟨n, left⟩, hget, heq⟩
  rcases Prod.mk.inj heq with ⟨hv, rfl⟩
  exact ⟨n, hget, hv.symm⟩

theorem getNumber_of {n : Nat} (h : getVarint 10 bytes = some (n, rest)) :
    getNumber cut bytes = some (cut n, rest) := by
  rw [getNumber, h, Option.map_some]

theorem getNumber_varint {n : Nat} (h : n < 2 ^ 64) (rest : Octets) :
    getNumber cut (varint n ++ rest) = some (cut n, rest) :=
  getNumber_of (getVarint_varint (by omega) (by omega) rest)

theorem getNumber_length (h : getNumber cut bytes = some (v, rest)) :
    rest.length ≤ bytes.length := by
  rcases getNumber_cases h with ⟨n, hget, _⟩
  have hcost := @getVarint_length 10 0 _ _ _ hget
  omega

theorem getNumber_append (h : getNumber cut bytes = some (v, rest)) (more : Octets) :
    getNumber cut (bytes ++ more) = some (v, rest ++ more) := by
  rcases getNumber_cases h with ⟨n, hget, hv⟩
  rw [hv]
  exact getNumber_of (getVarint_append hget more)

end Number

/-- A negative number is extended to 64 bits. -/
def putInt32 (v : Int) : Octets :=
  varint (v % 2 ^ 64).toNat

/-- What is read as 64 bits is cut to 32. -/
def getInt32 : Octets -> Option (Int × Octets) :=
  getNumber fun n => toInt32 n

theorem toInt32_extended {v : Int} (h : IsInt32 v) : toInt32 (v % 2 ^ 64).toNat = v := by
  unfold IsInt32 at h
  unfold toInt32
  have hcast : ((v % 2 ^ 64).toNat : Int) = v % 2 ^ 64 := Int.toNat_of_nonneg (by omega)
  rw [hcast, Int.bmod_def]
  omega

theorem isInt32_of_getInt32 {v : Int} {bytes rest : Octets}
    (h : getInt32 bytes = some (v, rest)) : IsInt32 v := by
  rcases getNumber_cases h with ⟨n, _, hv⟩
  rw [hv]
  exact isInt32_toInt32 n

theorem getInt32_put {v : Int} (hv : IsInt32 v) (rest : Octets) :
    getInt32 (putInt32 v ++ rest) = some (v, rest) := by
  rw [getInt32, putInt32, getNumber_varint (by omega), toInt32_extended hv]

theorem isZero_iff {v : Int} : decide (v ≠ 0) = false <-> v = 0 := by
  rw [decide_eq_false_iff_not, Decidable.not_not]

def int32Scalar : Scalar Int where
  wireType := 0
  default := 0
  Fits := IsInt32
  present v := v ≠ 0
  write := putInt32
  read := getInt32
  fits_default := isInt32_zero
  absent := isZero_iff
  fits_read := isInt32_of_getInt32
  read_length := getNumber_length
  read_write hv _ := getInt32_put hv
  read_append := getNumber_append

@[simp] theorem int32Scalar_default : int32Scalar.kind.default = 0 :=
  rfl

@[simp] theorem int32Scalar_fits (v : Int) : int32Scalar.kind.Fits v <-> IsInt32 v :=
  Iff.rfl

/-- What is read as 64 bits is cut to 32. -/
def getUInt32 : Octets -> Option (Nat × Octets) :=
  getNumber fun n => n % 2 ^ 32

theorem getUInt32_lt {v : Nat} {bytes rest : Octets} (h : getUInt32 bytes = some (v, rest)) :
    v < 2 ^ 32 := by
  rcases getNumber_cases h with ⟨n, _, rfl⟩
  exact Nat.mod_lt n (by decide)

theorem getUInt32_paid {v : Nat} {bytes rest : Octets}
    (h : getUInt32 bytes = some (v, rest)) :
    (varint v).length + rest.length ≤ bytes.length := by
  rcases getNumber_cases h with ⟨n, hget, rfl⟩
  have hmono := varint_mono (Nat.mod_le n (2 ^ 32))
  have hcost := @getVarint_length 10 10 _ _ _ hget
  unfold varint at hmono ⊢
  omega

theorem getUInt32_put {v : Nat} (hv : v < 2 ^ 32) (rest : Octets) :
    getUInt32 (varint v ++ rest) = some (v, rest) := by
  rw [getUInt32, getNumber_varint (by omega), Nat.mod_eq_of_lt hv]

theorem isZeroNat_iff {v : Nat} : decide (v ≠ 0) = false <-> v = 0 := by
  rw [decide_eq_false_iff_not, Decidable.not_not]

def uint32Scalar : Scalar Nat where
  wireType := 0
  default := 0
  Fits v := v < 2 ^ 32
  present v := v ≠ 0
  write := varint
  read := getUInt32
  fits_default := Nat.two_pow_pos 32
  absent := isZeroNat_iff
  fits_read := getUInt32_lt
  read_length := getNumber_length
  read_write hv _ := getUInt32_put hv
  read_append := getNumber_append

@[simp] theorem uint32Scalar_default : uint32Scalar.kind.default = 0 :=
  rfl

@[simp] theorem uint32Scalar_fits (v : Nat) : uint32Scalar.kind.Fits v <-> v < 2 ^ 32 :=
  Iff.rfl

theorem uint32Scalar_economical : uint32Scalar.Economical :=
  getUInt32_paid

def putBool (v : Bool) : Octets :=
  [if v then 1 else 0]

/-- Any 64 bits that are not all zero are `true`. -/
def getBool : Octets -> Option (Bool × Octets) :=
  getNumber fun n => n % 2 ^ 64 ≠ 0

theorem getBool_put (v : Bool) (rest : Octets) :
    getBool (putBool v ++ rest) = some (v, rest) := by
  cases v with
  | false => rfl
  | true => rfl

def boolScalar : Scalar Bool where
  wireType := 0
  default := false
  Fits _ := True
  present v := v
  write := putBool
  read := getBool
  fits_default := trivial
  absent := Iff.rfl
  fits_read _ := trivial
  read_length := getNumber_length
  read_write _ _ := getBool_put _
  read_append := getNumber_append

@[simp] theorem boolScalar_default : boolScalar.kind.default = false :=
  rfl

@[simp] theorem boolScalar_fits (v : Bool) : boolScalar.kind.Fits v :=
  trivial

/-!
# Repeated messages
-/

namespace Descriptor

variable {ν : Type} (d : Descriptor ν)

def putMessages (es : List ν) : List Octets :=
  es.map fun e => putSized (d.internalSerialize e)

/-- One more message behind those read so far. -/
def getMessage (es : List ν) (bytes : Octets) : Option (List ν × Octets) :=
  match getSized bytes with
  | none => none
  | some (payload, rest) => (d.parseFromArray payload).map fun e => (es ++ [e], rest)

variable {d : Descriptor ν}

theorem getMessage_eq_some {es es' : List ν} {bytes rest : Octets}
    (h : d.getMessage es bytes = some (es', rest)) :
    exists payload e, getSized bytes = some (payload, rest) ∧
      d.parseFromArray payload = some e ∧ es' = es ++ [e] := by
  unfold getMessage at h
  cases hsized : getSized bytes with
  | none =>
      rw [hsized] at h
      cases h
  | some result =>
      rw [hsized] at h
      rcases Option.map_eq_some_iff.mp h with ⟨e, he, heq⟩
      cases heq
      exact ⟨result.1, e, rfl, he, rfl⟩

theorem getMessage_put {e : ν} (he : d.Fits e)
    (hsmall : (putSized (d.internalSerialize e)).length < 2 ^ 31) (es : List ν)
    (rest : Octets) :
    d.getMessage es (putSized (d.internalSerialize e) ++ rest) = some (es ++ [e], rest) := by
  have hlength : (d.internalSerialize e).length < 2 ^ 31 := by
    rw [putSized, List.length_append] at hsmall
    omega
  have hserialize := (@serializeToString_eq_some ν d e _).mpr ⟨hlength, rfl⟩
  rw [getMessage, getSized_put hsmall]
  dsimp only
  rw [parse_serialize he hserialize, Option.map_some]

theorem reads_messages {es : List ν} (hes : forall e, e ∈ es -> d.Fits e)
    (hsmall : forall p, p ∈ d.putMessages es -> p.length < 2 ^ 31) (first : List ν) :
    Reads d.getMessage first (d.putMessages es) (first ++ es) := by
  induction es generalizing first with
  | nil => exact (List.append_nil first).symm
  | cons e es ih =>
      refine ⟨first ++ [e], getMessage_put (hes e List.mem_cons_self)
        (hsmall _ List.mem_cons_self) first, ?_⟩
      have hrest := ih (fun e' h => hes e' (List.mem_cons_of_mem e h))
        (fun p h => hsmall p (List.mem_cons_of_mem _ h)) (first ++ [e])
      rw [List.append_assoc] at hrest
      exact hrest

theorem fits_getMessage {es es' : List ν} {bytes rest : Octets}
    (hes : forall e, e ∈ es -> d.Fits e) (h : d.getMessage es bytes = some (es', rest)) :
    forall e, e ∈ es' -> d.Fits e := by
  rcases getMessage_eq_some h with ⟨payload, e, _, he, rfl⟩
  intro e' he'
  rcases List.mem_append.mp he' with hold | hnew
  · exact hes e' hold
  · rw [List.mem_singleton.mp hnew]
    exact fits_parse he

theorem getMessage_length {es es' : List ν} {bytes rest : Octets}
    (h : d.getMessage es bytes = some (es', rest)) : rest.length ≤ bytes.length := by
  rcases getMessage_eq_some h with ⟨payload, e, hsized, _, _⟩
  exact getSized_shortens hsized

theorem getMessage_cut {es es' : List ν} {p part : Octets} (hp : p ∈ d.putMessages es')
    (hsmall : p.length < 2 ^ 31) (hpart : part.IsPrefix p) (hcut : part ≠ p) :
    d.getMessage es part = none := by
  rcases List.mem_map.mp hp with ⟨e, he, rfl⟩
  have hread := getSized_put hsmall []
  rw [List.append_nil] at hread
  rw [getMessage, read_cut (fun h => getSized_append h) hread hpart hcut]

theorem putMessages_part {es : List ν} {ps : List Octets} (hes : forall e, e ∈ es -> d.Fits e)
    (hps : ps.IsPrefix (d.putMessages es)) :
    exists es', (forall e, e ∈ es' -> d.Fits e) ∧ d.putMessages es' = ps := by
  refine ⟨es.take ps.length, fun e he => hes e (List.mem_of_mem_take he), ?_⟩
  rw [putMessages, List.map_take]
  exact (List.prefix_iff_eq_take.mp hps).symm

variable (d)

theorem fits_nil : forall e, e ∈ ([] : List ν) -> d.Fits e :=
  nofun

def repeatedKind : Kind (List ν) where
  wireType := 2
  default := []
  Fits es := forall e, e ∈ es -> d.Fits e
  put := d.putMessages
  get := d.getMessage
  fits_default := d.fits_nil
  fits_get := fits_getMessage
  get_length := getMessage_length
  get_put hes hsmall := reads_messages hes hsmall []
  get_cut _ := getMessage_cut
  put_part := putMessages_part

@[simp] theorem repeatedKind_default : d.repeatedKind.default = [] :=
  rfl

@[simp] theorem repeatedKind_fits (es : List ν) :
    d.repeatedKind.Fits es <-> forall e, e ∈ es -> d.Fits e :=
  Iff.rfl

end Descriptor

end Wire
end Foundation
end KVRaft
