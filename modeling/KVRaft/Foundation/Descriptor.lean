import Mathlib.Algebra.GroupWithZero.Nat
import Mathlib.Data.List.Pairwise
import KVRaft.Foundation.WireFormat

/-!
# Messages by their fields

A message is described by its fields, and a field by its number and the kind of its value.
The description gives the serialisation, the parser and their round trip.
-/

namespace KVRaft
namespace Foundation
namespace Wire

/-!
# Kinds of values
-/

/-- The value that payloads read one after the other leave. -/
def Reads {α : Type} (get : α -> Octets -> Option (α × Octets)) : α -> List Octets -> α -> Prop
  | v, [], w => v = w
  | v, p :: ps, w => exists u, (forall rest, get v (p ++ rest) = some (u, rest)) ∧
      Reads get u ps w

/-- How the values of a field are written.  Each payload is written behind a tag, and read
with the value that the field has had so far. -/
structure Kind (α : Type) where
  wireType : Fin 8
  default : α
  Fits : α -> Prop
  put : α -> List Octets
  get : α -> Octets -> Option (α × Octets)
  fits_default : Fits default
  fits_get : forall {v w : α} {bytes rest : Octets}, Fits v -> get v bytes = some (w, rest) ->
    Fits w
  get_length : forall {v w : α} {bytes rest : Octets}, get v bytes = some (w, rest) ->
    rest.length ≤ bytes.length
  /-- What is written is read back. -/
  get_put : forall {w : α}, Fits w -> (forall p, p ∈ put w -> p.length < 2 ^ 31) ->
    Reads get default (put w) w
  /-- A payload that is cut off is not read. -/
  get_cut : forall {v w : α} {p part : Octets}, Fits w -> p ∈ put w -> p.length < 2 ^ 31 ->
    part.IsPrefix p -> part ≠ p -> get v part = none
  /-- Leaving out payloads at the end gives another value. -/
  put_part : forall {w : α} {ps : List Octets}, Fits w -> ps.IsPrefix (put w) ->
    exists u, Fits u ∧ put u = ps

/-- The bytes of payloads with their tags. -/
def written (ps : List Octets) : Nat :=
  (ps.map fun p => p.length + 1).sum

/-- What is read could not have been written shorter, a tag included. -/
structure Kind.Economical {α : Type} (k : Kind α) : Prop where
  put_default : k.put k.default = []
  get_paid : forall {v w : α} {bytes rest : Octets}, k.get v bytes = some (w, rest) ->
    written (k.put w) + rest.length ≤ written (k.put v) + bytes.length + 1

/-!
# Fields
-/

/-- There are field numbers whose tag is one byte. -/
instance fieldNumbers : NeZero 16 :=
  ⟨Nat.succ_ne_zero 15⟩

/-- A field of the messages of type `μ`. -/
structure Field (μ : Type) where
  {Value : Type}
  number : Fin 16
  kind : Kind Value
  value : μ -> Value
  set : Value -> μ -> μ
  value_set : forall v m, value (set v m) = v := by intros; rfl
  set_value : forall m, set (value m) m = m := by intros; rfl
  set_set : forall v w m, set v (set w m) = set v m := by intros; rfl

namespace Field

variable {μ : Type}

def tag (f : Field μ) : Nat :=
  f.number.val * 8 + f.kind.wireType.val

theorem tag_lt (f : Field μ) : f.tag < 128 := by
  have hnumber := f.number.isLt
  have htype := f.kind.wireType.isLt
  unfold tag
  omega

theorem tag_div (f : Field μ) : f.tag / 8 = f.number.val := by
  have htype := f.kind.wireType.isLt
  unfold tag
  omega

/-- A payload behind its tag. -/
def tagged (f : Field μ) (payload : Octets) : Octets :=
  UInt8.ofNat f.tag :: payload

def write (f : Field μ) (m : μ) : Octets :=
  (f.kind.put (f.value m)).flatMap f.tagged

def read (f : Field μ) (m : μ) (bytes : Octets) : Option (μ × Octets) :=
  (f.kind.get (f.value m) bytes).map fun (v, rest) => (f.set v m, rest)

/-- Setting one field does not change the other. -/
def Independent (f g : Field μ) : Prop :=
  (forall v m, g.value (f.set v m) = g.value m) ∧ forall v m, f.value (g.set v m) = f.value m

theorem Independent.symm {f g : Field μ} (h : Independent f g) : Independent g f :=
  ⟨h.2, h.1⟩

instance : Std.Symm (@Independent μ) where
  symm _ _ h := h.symm

theorem read_length {f : Field μ} {m m' : μ} {bytes rest : Octets}
    (h : f.read m bytes = some (m', rest)) : rest.length ≤ bytes.length := by
  rcases Option.map_eq_some_iff.mp h with ⟨⟨v, left⟩, hget, heq⟩
  cases heq
  exact f.kind.get_length hget

end Field

/-!
# Descriptors
-/

structure Descriptor (μ : Type) where
  init : μ
  fields : List (Field μ)
  numbered : fields.Pairwise fun f g => f.number ≠ g.number
  independent : fields.Pairwise Field.Independent
  init_default : forall f, f ∈ fields -> f.value init = f.kind.default
  ext : forall m m', (forall f, f ∈ fields -> f.value m = f.value m') -> m = m'

/-- The bytes of some fields, in their order. -/
def writeFields {μ : Type} (fields : List (Field μ)) (m : μ) : Octets :=
  fields.flatMap fun f => f.write m

/-- What follows a tag: the payload of a field, the end of a group that was never opened, or
a field that the message does not have. -/
def readField {μ : Type} : List (Field μ) -> Nat -> μ -> Octets -> Option (μ × Octets)
  | [], tag, m, rest =>
      if tag % 8 = 4 ∨ tag = 0 then none else (skipField tag rest).map fun rest => (m, rest)
  | f :: fields, tag, m, rest =>
      if tag / 8 = f.number.val ∧ tag % 256 = f.tag then
        f.read m rest
      else
        readField fields tag m rest

namespace Descriptor

variable {μ : Type} (d : Descriptor μ)

def internalSerialize (m : μ) : Octets :=
  writeFields d.fields m

/-- No message is larger than 2 GiB. -/
def serializeToString (m : μ) : Option Octets :=
  if (d.internalSerialize m).length < 2 ^ 31 then some (d.internalSerialize m) else none

/-- One round of the parser's loop. -/
def parseField (m : μ) (bytes : Octets) : Option (μ × Octets) :=
  match getTag bytes with
  | none => none
  | some (tag, rest) => readField d.fields tag m rest

def parseFromArray (bytes : Octets) : Option μ :=
  parseMessage d.parseField d.init bytes

/-- The values are of the types of their fields. -/
def Fits (m : μ) : Prop :=
  forall f, f ∈ d.fields -> f.kind.Fits (f.value m)

end Descriptor

/-!
# Parsing
-/

section Reading

variable {μ : Type} {fields : List (Field μ)} {f : Field μ} {m m' : μ} {bytes rest : Octets}

theorem readField_length {tag : Nat} (h : readField fields tag m bytes = some (m', rest)) :
    rest.length ≤ bytes.length := by
  induction fields with
  | nil =>
      rw [readField] at h
      split at h
      · cases h
      · rcases Option.map_eq_some_iff.mp h with ⟨left, hskip, heq⟩
        cases heq
        exact skipField_length hskip
  | cons f fields ih =>
      rw [readField] at h
      split at h
      · exact Field.read_length h
      · exact ih h

/-- The tag of a field leads to its payload. -/
theorem readField_tag (hfields : fields.Pairwise fun f g => f.number ≠ g.number)
    (hf : f ∈ fields) : readField fields f.tag m bytes = f.read m bytes := by
  induction fields with
  | nil => cases hf
  | cons g fields ih =>
      rw [List.pairwise_cons] at hfields
      rw [readField, Field.tag_div, Nat.mod_eq_of_lt (Nat.lt_trans f.tag_lt (by decide))]
      rcases List.mem_cons.mp hf with rfl | htail
      · rw [if_pos ⟨rfl, rfl⟩]
      · rw [if_neg fun h => hfields.1 f htail (Fin.ext h.1.symm)]
        exact ih hfields.2 htail

end Reading

namespace Descriptor

variable {μ : Type} {d : Descriptor μ} {f : Field μ} {s s' m m' : μ} {bytes rest : Octets}

theorem parseField_shortens : Shortens d.parseField := by
  intro s bytes s' rest h
  unfold parseField at h
  cases htag : getTag bytes with
  | none =>
      rw [htag] at h
      cases h
  | some result =>
      rcases result with ⟨tag, left⟩
      rw [htag] at h
      have hleft := getTag_length htag
      have hrest := readField_length h
      omega

theorem parseField_tagged (hf : f ∈ d.fields) (s : μ) (bytes : Octets) :
    d.parseField s (f.tagged bytes) = f.read s bytes := by
  unfold parseField Field.tagged
  rw [getTag_small f.tag_lt]
  exact readField_tag d.numbered hf

/-- The payloads of one field, read one after the other. -/
theorem parseMessage_payloads (hf : f ∈ d.fields) {ps : List Octets} {w : f.Value}
    (hreads : Reads f.kind.get (f.value s) ps w) (rest : Octets) :
    parseMessage d.parseField s (ps.flatMap f.tagged ++ rest) =
      parseMessage d.parseField (f.set w s) rest := by
  induction ps generalizing s with
  | nil =>
      rw [show w = f.value s from hreads.symm, f.set_value]
      rfl
  | cons p ps ih =>
      rcases hreads with ⟨u, hread, hrest⟩
      have hfirst : d.parseField s (f.tagged (p ++ (ps.flatMap f.tagged ++ rest))) =
          some (f.set u s, ps.flatMap f.tagged ++ rest) := by
        rw [parseField_tagged hf, Field.read, hread, Option.map_some]
      have hnext : Reads f.kind.get (f.value (f.set u s)) ps w := by
        rw [f.value_set]
        exact hrest
      calc
        parseMessage d.parseField s ((p :: ps).flatMap f.tagged ++ rest) =
          parseMessage d.parseField s (f.tagged (p ++ (ps.flatMap f.tagged ++ rest))) := by
            rw [List.flatMap_cons, Field.tagged, Field.tagged, List.append_assoc,
              List.cons_append]
        _ = parseMessage d.parseField (f.set u s) (ps.flatMap f.tagged ++ rest) :=
            parseMessage_step parseField_shortens (List.cons_ne_nil _ _) hfirst
        _ = parseMessage d.parseField (f.set w s) rest := by
            rw [ih hnext, f.set_set]

/-!
# Round trip
-/

/-- What some fields are read with: they have had their default value so far. -/
def Unread (fields : List (Field μ)) (s : μ) : Prop :=
  forall f, f ∈ fields -> f.value s = f.kind.default

theorem Unread.set {fields : List (Field μ)} (h : Unread (f :: fields) s)
    (hindependent : forall g, g ∈ fields -> Field.Independent f g) (v : f.Value) :
    Unread fields (f.set v s) := by
  intro g hg
  rw [(hindependent g hg).1]
  exact h g (List.mem_cons_of_mem _ hg)

theorem small_payload {fields : List (Field μ)} (hsize : (writeFields fields m).length < 2 ^ 31)
    (hf : f ∈ fields) {p : Octets} (hp : p ∈ f.kind.put (f.value m)) : p.length < 2 ^ 31 := by
  have hwrite : (f.write m).length ≤ (writeFields fields m).length :=
    (List.sublist_flatten_of_mem (List.mem_map_of_mem (f := fun g => g.write m) hf)).length_le
  have htagged : (f.tagged p).length ≤ (f.write m).length :=
    (List.sublist_flatten_of_mem (List.mem_map_of_mem hp)).length_le
  rw [Field.tagged, List.length_cons] at htagged
  omega

section Fields

variable {fields : List (Field μ)} (hmem : forall f, f ∈ fields -> f ∈ d.fields)
  (hindependent : fields.Pairwise Field.Independent)
  (hfits : forall f, f ∈ fields -> f.kind.Fits (f.value m))
  (hsize : (writeFields fields m).length < 2 ^ 31) (hunread : Unread fields s)

include hmem hindependent hfits hsize hunread

/-- Fields that have not been read yet are read back, and the others stay as they are. -/
theorem parseMessage_fields (rest : Octets) :
    exists s', parseMessage d.parseField s (writeFields fields m ++ rest) =
        parseMessage d.parseField s' rest ∧
      (forall f, f ∈ fields -> f.value s' = f.value m) ∧
      forall g, (forall f, f ∈ fields -> Field.Independent f g) -> g.value s' = g.value s := by
  induction fields generalizing s with
  | nil => exact ⟨s, rfl, fun f hf => absurd hf List.not_mem_nil, fun g _ => rfl⟩
  | cons f fields ih =>
      rw [List.pairwise_cons] at hindependent
      have hf : f ∈ f :: fields := List.mem_cons_self
      have htail : forall g, g ∈ fields -> g ∈ f :: fields := fun g => List.mem_cons_of_mem f
      have hreads := f.kind.get_put (hfits f hf) fun p hp => small_payload hsize hf hp
      rw [← hunread f hf] at hreads
      have hbytes : writeFields (f :: fields) m ++ rest =
          (f.kind.put (f.value m)).flatMap f.tagged ++ (writeFields fields m ++ rest) := by
        rw [writeFields, List.flatMap_cons, List.append_assoc]
        rfl
      have hless : (writeFields fields m).length < 2 ^ 31 := by
        rw [writeFields, List.flatMap_cons, List.length_append] at hsize
        exact Nat.lt_of_le_of_lt (Nat.le_add_left _ _) hsize
      rcases ih (fun g hg => hmem g (htail g hg)) hindependent.2
        (fun g hg => hfits g (htail g hg)) hless (hunread.set hindependent.1 _) with
        ⟨s', hparse, hread, hkept⟩
      refine ⟨s', ?_, ?_, ?_⟩
      · rw [hbytes, parseMessage_payloads (hmem f hf) hreads]
        exact hparse
      · intro g hg
        rcases List.mem_cons.mp hg with rfl | hg
        · rw [hkept g fun h hh => (hindependent.1 h hh).symm, g.value_set]
        · exact hread g hg
      · intro g hg
        rw [hkept g fun h hh => hg h (htail h hh), (hg f hf).1]

end Fields

/-- Whatever every field keeps is kept by the whole message. -/
theorem parseMessage_keeps {field : μ -> Octets -> Option (μ × Octets)} {P : μ -> Prop}
    (hkeeps : forall s bytes s' rest, field s bytes = some (s', rest) -> P s -> P s')
    (h : parseMessage field s bytes = some s') (hs : P s) : P s' := by
  have hloop : forall fuel (s : μ) (bytes : Octets), parseFields field fuel s bytes = some s' ->
      P s -> P s' := by
    intro fuel
    induction fuel with
    | zero =>
        intro s bytes h hs
        cases bytes with
        | nil =>
            cases h
            exact hs
        | cons b bytes => cases h
    | succ fuel ih =>
        intro s bytes h hs
        cases bytes with
        | nil =>
            cases h
            exact hs
        | cons b bytes =>
            rw [parseFields] at h
            cases hstep : field s (b :: bytes) with
            | none =>
                rw [hstep] at h
                cases h
            | some result =>
                rw [hstep] at h
                exact ih result.1 result.2 h (hkeeps _ _ _ _ hstep hs)
  exact hloop _ s bytes h hs

theorem fits_init (d : Descriptor μ) : d.Fits d.init := by
  intro f hf
  rw [d.init_default f hf]
  exact f.kind.fits_default

theorem fits_set (hf : f ∈ d.fields) (h : d.Fits m) {v : f.Value} (hv : f.kind.Fits v) :
    d.Fits (f.set v m) := by
  intro g hg
  by_cases hsame : f = g
  · cases hsame
    rw [f.value_set]
    exact hv
  · have hindependent := d.independent.forall hf hg hsame
    rw [hindependent.1]
    exact h g hg

theorem fits_parseField (h : d.parseField m bytes = some (m', rest)) (hfits : d.Fits m) :
    d.Fits m' := by
  have hloop : forall (fields : List (Field μ)) (tag : Nat) (bytes : Octets),
      (forall f, f ∈ fields -> f ∈ d.fields) -> readField fields tag m bytes = some (m', rest) ->
      d.Fits m' := by
    intro fields
    induction fields with
    | nil =>
        intro tag bytes hmem h
        rw [readField] at h
        split at h
        · cases h
        · rcases Option.map_eq_some_iff.mp h with ⟨left, _, heq⟩
          cases heq
          exact hfits
    | cons f fields ih =>
        intro tag bytes hmem h
        rw [readField] at h
        split at h
        · rcases Option.map_eq_some_iff.mp h with ⟨⟨v, left⟩, hget, heq⟩
          cases heq
          have hf := hmem f List.mem_cons_self
          exact fits_set hf hfits (f.kind.fits_get (hfits f hf) hget)
        · exact ih tag bytes (fun g hg => hmem g (List.mem_cons_of_mem _ hg)) h
  unfold parseField at h
  cases htag : getTag bytes with
  | none =>
      rw [htag] at h
      cases h
  | some result =>
      rw [htag] at h
      exact hloop d.fields result.1 result.2 (fun f hf => hf) h

/-- Whatever is parsed has values of the types of its fields. -/
theorem fits_parse (h : d.parseFromArray bytes = some m) : d.Fits m :=
  parseMessage_keeps (fun _ _ _ _ hstep => fits_parseField hstep) h d.fits_init

theorem serializeToString_eq_some : d.serializeToString m = some bytes <->
    (d.internalSerialize m).length < 2 ^ 31 ∧ bytes = d.internalSerialize m := by
  rw [serializeToString, Option.ite_none_right_eq_some, Option.some.injEq, eq_comm]

/-- What was serialised is parsed. -/
theorem parse_serialize (hfits : d.Fits m) (h : d.serializeToString m = some bytes) :
    d.parseFromArray bytes = some m := by
  rcases serializeToString_eq_some.mp h with ⟨hsize, rfl⟩
  rcases parseMessage_fields (fun f hf => hf) d.independent hfits hsize d.init_default [] with
    ⟨s', hparse, hread, _⟩
  rw [parseFromArray, internalSerialize, ← List.append_nil (writeFields d.fields m), hparse,
    parseMessage_nil, d.ext s' m hread]

/-!
# Cut messages
-/

theorem parseMessage_none {field : μ -> Octets -> Option (μ × Octets)} (hbytes : bytes ≠ [])
    (h : field s bytes = none) : parseMessage field s bytes = none := by
  cases bytes with
  | nil => exact absurd rfl hbytes
  | cons b bytes => rw [parseMessage, List.length_cons, parseFields, h]

theorem prefix_append_cases {α : Type} {part xs ys : List α} (h : part.IsPrefix (xs ++ ys)) :
    part.IsPrefix xs ∨ exists t, part = xs ++ t ∧ t.IsPrefix ys := by
  rcases List.prefix_or_prefix_of_prefix h (List.prefix_append xs ys) with hshort | hlong
  · exact Or.inl hshort
  · rcases hlong with ⟨t, rfl⟩
    exact Or.inr ⟨t, rfl, (List.prefix_append_right_inj xs).mp h⟩

/-- Payloads are cut between two of them or inside of one. -/
theorem payloads_cut {f : Field μ} {ps : List Octets} {part : Octets}
    (h : part.IsPrefix (ps.flatMap f.tagged)) :
    exists ps', part = ps'.flatMap f.tagged ∧ ps'.IsPrefix ps ∨
      exists p q, part = ps'.flatMap f.tagged ++ f.tagged q ∧ (ps' ++ [p]).IsPrefix ps ∧
        q.IsPrefix p ∧ q ≠ p := by
  induction ps generalizing part with
  | nil => exact ⟨[], Or.inl ⟨List.prefix_nil.mp h, List.prefix_rfl⟩⟩
  | cons p ps ih =>
      cases part with
      | nil => exact ⟨[], Or.inl ⟨rfl, List.nil_prefix⟩⟩
      | cons b part =>
          rw [List.flatMap_cons, Field.tagged, List.cons_append, List.cons_prefix_cons] at h
          rcases h with ⟨rfl, h⟩
          have htagged : forall t, f.tagged (p ++ t) = f.tagged p ++ t := fun t => rfl
          rcases prefix_append_cases h with hshort | ⟨t, rfl, ht⟩
          · by_cases hwhole : part = p
            · refine ⟨[p], Or.inl ⟨?_, ?_⟩⟩
              · rw [hwhole, List.flatMap_cons, List.flatMap_nil, List.append_nil]
                rfl
              · exact List.prefix_append [p] ps
            · exact ⟨[], Or.inr ⟨p, part, rfl, List.prefix_append [p] ps, hshort, hwhole⟩⟩
          · rcases ih ht with ⟨ps', ⟨rfl, hps⟩ | ⟨q, r, rfl, hps, hr, hcut⟩⟩
            · exact ⟨p :: ps', Or.inl ⟨rfl, List.cons_prefix_cons.mpr ⟨rfl, hps⟩⟩⟩
            · refine ⟨p :: ps', Or.inr ⟨q, r, ?_, ?_, hr, hcut⟩⟩
              · rw [List.flatMap_cons, List.append_assoc]
                rfl
              · exact List.cons_prefix_cons.mpr ⟨rfl, hps⟩

/-- A part of the bytes of one field is not parsed, or gives the field another value. -/
theorem field_whole (hf : f ∈ d.fields) (hfits : f.kind.Fits (f.value m))
    (hsmall : forall p, p ∈ f.kind.put (f.value m) -> p.length < 2 ^ 31)
    (hunread : f.value s = f.kind.default) {part : Octets} (hpart : part.IsPrefix (f.write m))
    (hparse : parseMessage d.parseField s part = some m') (hsame : f.value m' = f.value m) :
    part = f.write m := by
  rcases payloads_cut hpart with ⟨ps', hcase⟩
  have hps : ps'.IsPrefix (f.kind.put (f.value m)) := by
    rcases hcase with ⟨_, h⟩ | ⟨p, _, _, h, _⟩
    · exact h
    · exact (List.prefix_append ps' [p]).trans h
  rcases f.kind.put_part hfits hps with ⟨u, hu, rfl⟩
  have hreads := f.kind.get_put hu fun p hp => hsmall p (hps.subset hp)
  rw [← hunread] at hreads
  rcases hcase with ⟨rfl, _⟩ | ⟨p, q, rfl, hp, hq, hcut⟩
  · have hread := parseMessage_payloads hf hreads []
    rw [List.append_nil, hparse, parseMessage_nil] at hread
    cases hread
    rw [f.value_set] at hsame
    rw [Field.write, hsame]
  · have hmem : p ∈ f.kind.put (f.value m) := hp.subset (by simp)
    have hnone : d.parseField (f.set u s) (f.tagged q) = none := by
      rw [parseField_tagged hf, Field.read, f.kind.get_cut hfits hmem (hsmall p hmem) hq hcut,
        Option.map_none]
    have htagged : f.tagged q ≠ [] := List.cons_ne_nil _ _
    rw [parseMessage_payloads hf hreads, parseMessage_none htagged hnone] at hparse
    cases hparse

theorem fields_whole {fields : List (Field μ)} (hmem : forall f, f ∈ fields -> f ∈ d.fields)
    (hindependent : fields.Pairwise Field.Independent)
    (hfits : forall f, f ∈ fields -> f.kind.Fits (f.value m))
    (hsize : (writeFields fields m).length < 2 ^ 31) (hunread : Unread fields s)
    {part : Octets} (hpart : part.IsPrefix (writeFields fields m))
    (hparse : parseMessage d.parseField s part = some m')
    (hsame : forall f, f ∈ fields -> f.value m' = f.value m) : part = writeFields fields m := by
  induction fields generalizing s part with
  | nil => exact List.prefix_nil.mp hpart
  | cons f fields ih =>
      rw [List.pairwise_cons] at hindependent
      have hf : f ∈ f :: fields := List.mem_cons_self
      have htail : forall g, g ∈ fields -> g ∈ f :: fields := fun g => List.mem_cons_of_mem f
      have hsmall : forall p, p ∈ f.kind.put (f.value m) -> p.length < 2 ^ 31 :=
        fun p hp => small_payload hsize hf hp
      have hbytes : writeFields (f :: fields) m = f.write m ++ writeFields fields m :=
        List.flatMap_cons
      rw [hbytes] at hpart hsize ⊢
      have hlong : exists t, part = f.write m ++ t ∧ t.IsPrefix (writeFields fields m) := by
        rcases prefix_append_cases hpart with hshort | hlong
        · have hwhole := field_whole (hmem f hf) (hfits f hf) hsmall (hunread f hf) hshort hparse
            (hsame f hf)
          exact ⟨[], by rw [hwhole, List.append_nil], List.nil_prefix⟩
        · exact hlong
      rcases hlong with ⟨t, rfl, ht⟩
      have hreads := f.kind.get_put (hfits f hf) hsmall
      rw [← hunread f hf] at hreads
      rw [List.length_append] at hsize
      rw [Field.write, parseMessage_payloads (hmem f hf) hreads] at hparse
      rw [ih (fun g hg => hmem g (htail g hg)) hindependent.2 (fun g hg => hfits g (htail g hg))
        (by omega) (hunread.set hindependent.1 _) ht hparse fun g hg => hsame g (htail g hg)]

/-- Nothing shorter than what was serialised is parsed as the message. -/
theorem parse_part (hfits : d.Fits m) (h : d.serializeToString m = some bytes) {part : Octets}
    (hpart : part.IsPrefix bytes) (hparse : d.parseFromArray part = some m) : part = bytes := by
  rcases serializeToString_eq_some.mp h with ⟨hsize, rfl⟩
  exact fields_whole (fun f hf => hf) d.independent hfits hsize d.init_default hpart hparse
    fun f _ => rfl

/-!
# What messages cost
-/

theorem write_length (f : Field μ) (m : μ) :
    (f.write m).length = written (f.kind.put (f.value m)) :=
  List.length_flatMap

theorem writeFields_congr {fields : List (Field μ)}
    (h : forall f, f ∈ fields -> f.value m' = f.value m) :
    writeFields fields m' = writeFields fields m := by
  induction fields with
  | nil => rfl
  | cons f fields ih =>
      have hf : f.write m' = f.write m := by
        rw [Field.write, Field.write, h f List.mem_cons_self]
      have htail := ih fun g hg => h g (List.mem_cons_of_mem f hg)
      rw [writeFields, writeFields, List.flatMap_cons, List.flatMap_cons, hf]
      exact congrArg _ htail

/-- Setting a field changes what that field costs. -/
theorem writeFields_set {fields : List (Field μ)}
    (hindependent : fields.Pairwise Field.Independent) (hf : f ∈ fields) (v : f.Value) :
    (writeFields fields (f.set v m)).length + (f.write m).length =
      (writeFields fields m).length + (f.write (f.set v m)).length := by
  induction fields with
  | nil => cases hf
  | cons g fields ih =>
      rw [List.pairwise_cons] at hindependent
      have hsplit : forall m, (writeFields (g :: fields) m).length =
          (g.write m).length + (writeFields fields m).length := by
        intro m
        rw [writeFields, List.flatMap_cons, List.length_append]
        rfl
      rw [hsplit, hsplit]
      rcases List.mem_cons.mp hf with rfl | htail
      · rw [writeFields_congr fun g hg => (hindependent.1 g hg).1 v m]
        omega
      · have hhead : g.write (f.set v m) = g.write m := by
          rw [Field.write, Field.write, (hindependent.1 f htail).2]
        have hrest := ih hindependent.2 htail
        rw [hhead]
        omega

/-- One round pays for what it reads. -/
theorem parseField_paid (heconomical : forall f, f ∈ d.fields -> f.kind.Economical)
    (h : d.parseField m bytes = some (m', rest)) :
    (d.internalSerialize m').length + rest.length ≤
      (d.internalSerialize m).length + bytes.length := by
  have hloop : forall (fields : List (Field μ)) (tag : Nat) (after : Octets),
      (forall f, f ∈ fields -> f ∈ d.fields) ->
      readField fields tag m after = some (m', rest) ->
      (d.internalSerialize m').length + rest.length ≤
        (d.internalSerialize m).length + after.length + 1 := by
    intro fields
    induction fields with
    | nil =>
        intro tag after hmem h
        rw [readField] at h
        split at h
        · cases h
        · rcases Option.map_eq_some_iff.mp h with ⟨left, hskip, heq⟩
          cases heq
          have hpaid := skipField_length hskip
          omega
    | cons f fields ih =>
        intro tag after hmem h
        rw [readField] at h
        split at h
        · rcases Option.map_eq_some_iff.mp h with ⟨⟨v, left⟩, hget, heq⟩
          cases heq
          have hf := hmem f List.mem_cons_self
          have hpaid := (heconomical f hf).get_paid hget
          have hset := writeFields_set (m := m) d.independent hf v
          rw [write_length, write_length, f.value_set] at hset
          unfold internalSerialize
          omega
        · exact ih tag after (fun g hg => hmem g (List.mem_cons_of_mem _ hg)) h
  unfold parseField at h
  cases htag : getTag bytes with
  | none =>
      rw [htag] at h
      cases h
  | some result =>
      rw [htag] at h
      have hshort := getTag_length htag
      have hpaid := hloop d.fields result.1 result.2 (fun f hf => hf) h
      omega

/-- There is no shorter way to write a message than the one that is used. -/
theorem internalSerialize_le (heconomical : forall f, f ∈ d.fields -> f.kind.Economical)
    (h : d.parseFromArray bytes = some m) : (d.internalSerialize m).length ≤ bytes.length := by
  have hcost : (d.internalSerialize m).length ≤
      (d.internalSerialize d.init).length + bytes.length :=
    parseMessage_cost (fun _ _ _ _ hstep => parseField_paid heconomical hstep) h
  have hempty : d.internalSerialize d.init = [] := by
    refine List.flatMap_eq_nil_iff.mpr fun f hf => ?_
    rw [Field.write, d.init_default f hf, (heconomical f hf).put_default, List.flatMap_nil]
  rw [hempty, List.length_nil, Nat.zero_add] at hcost
  exact hcost

end Descriptor

end Wire
end Foundation
end KVRaft
