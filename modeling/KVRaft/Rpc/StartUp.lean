import KVRaft.Foundation.Transition
import KVRaft.Rpc.Config

/-!
# The addresses of the servers

Every server appends its address to one file, in two lines.  Servers and clerks read the
list of all servers back from it.
-/

namespace KVRaft
namespace Rpc

open Foundation

/-- `std::to_string` -/
def toString : Int -> Bytes
  | .ofNat k => Decimal.digits k
  | .negSucc k => 45 :: Decimal.digits (k + 1)

def atoi (data : Bytes) : Int :=
  match data.dropWhile isSpace with
  | [] => 0
  | c :: rest =>
      if c = 45 then -(Decimal.value 0 rest)
      else if c = 43 then Decimal.value 0 rest
      else Decimal.value 0 (c :: rest)

/-- The conversion of `int` to `short`. -/
def toShort (k : Int) : Int :=
  k.bmod 65536

/-- What `inet_ntoa` gives, and a `short`. -/
structure Address where
  ip : Bytes
  port : Int
  dotted : forall c, c ∈ ip -> Decimal.IsDigit c ∨ c = 46
  nonempty : ip ≠ []
  length : ip.length ≤ 15
  short : -32768 ≤ port ∧ port < 32768

inductive Field where
  | ip
  | port
  deriving DecidableEq, Repr

namespace Field

def text : Field -> Bytes
  | .ip => [105, 112]
  | .port => [112, 111, 114, 116]

/-- `node<i>ip` and `node<i>port` -/
def key (i : Nat) (field : Field) : Bytes :=
  [110, 111, 100, 101] ++ (Decimal.digits i ++ field.text)

def value (address : Address) : Field -> Bytes
  | .ip => address.ip
  | .port => toString address.port

/-- How many lines come before. -/
def rank : Field -> Nat
  | .ip => 0
  | .port => 1

/-- The next line after so many. -/
def next : Nat -> Option Field
  | 0 => some .ip
  | 1 => some .port
  | _ => none

end Field

namespace RpcProvider

/-- The file, and how many of its lines each server has written. -/
structure StartUp where
  file : Bytes
  written : Nat -> Nat

/-- A server comes to one of the two statements that write a line and flush it. -/
def writeLine (addresses : List Address) (σ : StartUp) (nodeIndex : Nat) : Option StartUp :=
  match addresses[nodeIndex]? with
  | none => none
  | some address =>
      match Field.next (σ.written nodeIndex) with
      | none => none
      | some field =>
          some
            { file := σ.file ++ MprpcConfig.lineOf (field.key nodeIndex, field.value address)
              written := Function.update σ.written nodeIndex (σ.written nodeIndex + 1) }

end RpcProvider

/-- All orders in which the servers write; the file is empty at first. -/
def startUpSystem (addresses : List Address) : TransitionSystem RpcProvider.StartUp Nat where
  init :=
    { file := []
      written := fun _ => 0 }
  step := RpcProvider.writeLine addresses

/-- The loop over `node0`, `node1` and so on, up to one that is missing. -/
def ipPortVt (config : ConfigMap) : Nat -> Nat -> List (Bytes × Int)
  | 0, _ => []
  | fuel + 1, i =>
      let nodeIp := MprpcConfig.load config (Field.ip.key i)
      let nodePortStr := MprpcConfig.load config (Field.port.key i)
      if nodeIp = [] then
        []
      else
        (nodeIp, toShort (atoi nodePortStr)) :: ipPortVt config fuel (i + 1)

/-- The servers that a process finds in the file. -/
def peers (file : Bytes) : List (Bytes × Int) :=
  ipPortVt (MprpcConfig.loadConfigFile file) 2147483646 0

/-!
# Texts
-/

theorem not_isSpace_of_isDigit {c : UInt8} (h : Decimal.IsDigit c) : isSpace c = false := by
  have hge : (48 : Nat) ≤ c.toNat := UInt8.le_iff_toNat_le.mp h.1
  have hne : ¬ c = 32 := by
    rintro rfl
    exact absurd hge (by decide)
  have hgt : ¬ c ≤ 13 := by
    rw [UInt8.le_iff_toNat_le]
    exact fun hle => absurd (Nat.le_trans hge hle) (by decide)
  unfold isSpace
  rw [beq_eq_false_iff_ne.mpr hne, decide_eq_false hgt, Bool.and_false, Bool.or_false]

theorem atoi_digits (k : Nat) : atoi (Decimal.digits k) = k := by
  have hvalue := Decimal.value_digits k
  cases hdigits : Decimal.digits k with
  | nil => exact absurd hdigits (Decimal.digits_ne_nil k)
  | cons c rest =>
      have hc : Decimal.IsDigit c := Decimal.isDigit_of_mem (hdigits ▸ List.mem_cons_self)
      have hspace : ¬ isSpace c = true := Bool.eq_false_iff.mp (not_isSpace_of_isDigit hc)
      have hminus : c ≠ 45 := by
        rintro rfl
        exact absurd hc (by decide)
      have hplus : c ≠ 43 := by
        rintro rfl
        exact absurd hc (by decide)
      rw [hdigits] at hvalue
      simp only [atoi, List.dropWhile_cons, if_neg hspace, if_neg hminus, if_neg hplus, hvalue]

theorem atoi_toString (k : Int) : atoi (toString k) = k := by
  cases k with
  | ofNat k => exact atoi_digits k
  | negSucc k =>
      have hspace : ¬ isSpace 45 = true := by decide
      simp only [atoi, toString, List.dropWhile_cons, if_neg hspace, if_true,
        Decimal.value_digits]
      rfl

theorem toShort_eq {k : Int} (h : -32768 ≤ k ∧ k < 32768) : toShort k = k :=
  Int.bmod_eq_of_le (by omega) (by omega)

theorem key_injective {i j : Nat} {f g : Field} (h : f.key i = g.key j) : i = j ∧ f = g := by
  have htail := List.append_cancel_left h
  have hfirst : forall field : Field, exists c rest, field.text = c :: rest ∧
      ¬ Decimal.IsDigit c := by
    intro field
    cases field with
    | ip => exact ⟨_, _, rfl, by decide⟩
    | port => exact ⟨_, _, rfl, by decide⟩
  rcases hfirst f with ⟨c, xs, hf, hc⟩
  rcases hfirst g with ⟨d, ys, hg, hd⟩
  rw [hf, hg] at htail
  rcases Decimal.digits_append_injective hc hd htail with ⟨hij, hsame⟩
  refine ⟨hij, ?_⟩
  rw [← hf, ← hg] at hsame
  cases f with
  | ip =>
      cases g with
      | ip => rfl
      | port => exact absurd hsame (by decide)
  | port =>
      cases g with
      | ip => exact absurd hsame (by decide)
      | port => rfl

/-!
# The lines of one server
-/

theorem plain_digits (k : Nat) : MprpcConfig.Plain (Decimal.digits k) := by
  intro c hc
  have hdigit := Decimal.isDigit_of_mem hc
  refine ⟨UInt8.lt_of_lt_of_le (by decide) hdigit.1, ?_, ?_⟩
  · rintro rfl
    exact absurd hdigit (by decide)
  · rintro rfl
    exact absurd hdigit (by decide)

theorem plain_toString (k : Int) : MprpcConfig.Plain (toString k) := by
  cases k with
  | ofNat k => exact plain_digits k
  | negSucc k =>
      intro c hc
      rcases List.mem_cons.mp hc with rfl | hdigit
      · decide
      · exact plain_digits _ c hdigit

theorem Address.plain (address : Address) (field : Field) :
    MprpcConfig.Plain (field.value address) := by
  cases field with
  | port => exact plain_toString _
  | ip =>
      intro c hc
      rcases address.dotted c hc with hdigit | rfl
      · refine ⟨UInt8.lt_of_lt_of_le (by decide) hdigit.1, ?_, ?_⟩
        · rintro rfl
          exact absurd hdigit (by decide)
        · rintro rfl
          exact absurd hdigit (by decide)
      · decide

theorem plain_key (i : Nat) (field : Field) : MprpcConfig.Plain (field.key i) := by
  have hnode : MprpcConfig.Plain [110, 111, 100, 101] := by decide
  have htext : MprpcConfig.Plain field.text := by
    cases field with
    | ip => decide
    | port => decide
  exact hnode.append ((plain_digits i).append htext)

theorem length_text (field : Field) : field.text.length ≤ 4 := by
  cases field with
  | ip => decide
  | port => exact Nat.le_refl 4

theorem length_value (address : Address) (field : Field) :
    (field.value address).length ≤ 15 := by
  cases field with
  | ip => exact address.length
  | port =>
      have hshort := address.short
      change (toString address.port).length ≤ 15
      cases hport : address.port with
      | ofNat k =>
          rw [hport, Int.ofNat_eq_natCast] at hshort
          have hk : k < 10 ^ 14 := by omega
          exact Nat.le_succ_of_le (Decimal.length_digits_le (by decide) hk)
      | negSucc k =>
          rw [hport, Int.negSucc_eq] at hshort
          have hk : k + 1 < 10 ^ 14 := by omega
          exact Nat.succ_le_succ (Decimal.length_digits_le (by decide) hk)

theorem Address.written (address : Address) {i : Nat} (hi : i < 2147483646) (field : Field) :
    MprpcConfig.Written (field.key i, field.value address) where
  key := plain_key i field
  named := List.append_ne_nil_of_left_ne_nil (List.cons_ne_nil _ _) _
  value := address.plain field
  short := by
    have hdigits := Decimal.length_digits_le (k := 10) (by decide)
      (show i < 10 ^ 10 by omega)
    have htext := length_text field
    have hvalue := length_value address field
    change ([110, 111, 100, 101] ++ (Decimal.digits i ++ field.text)).length +
      (field.value address).length ≤ 509
    rw [List.length_append, List.length_append, List.length_cons, List.length_cons,
      List.length_cons, List.length_cons, List.length_nil]
    omega

/-!
# What the file holds
-/

/-- The entries of the file, one for each line that was written. -/
structure Holds (addresses : List Address) (σ : RpcProvider.StartUp)
    (entries : List (Bytes × Bytes)) : Prop where
  file : σ.file = entries.flatMap MprpcConfig.lineOf
  written : forall entry, entry ∈ entries -> MprpcConfig.Written entry
  nodup : (entries.map Prod.fst).Nodup
  lookup : forall i (field : Field), entries.lookup (field.key i) =
    if field.rank < σ.written i then addresses[i]?.map field.value else none
  beyond : forall i, addresses.length ≤ i -> σ.written i = 0

theorem next_eq_some {k : Nat} {field : Field} (h : Field.next k = some field) :
    k = field.rank := by
  rcases k with _ | _ | k
  · cases h
    rfl
  · cases h
    rfl
  · cases h

theorem rank_injective {f g : Field} (h : f.rank = g.rank) : f = g := by
  cases f with
  | ip =>
      cases g with
      | ip => rfl
      | port => exact absurd h (by decide)
  | port =>
      cases g with
      | ip => exact absurd h (by decide)
      | port => rfl

theorem Holds.step {addresses : List Address} (hfew : addresses.length ≤ 2147483646)
    {σ σ' : RpcProvider.StartUp} {entries : List (Bytes × Bytes)}
    (h : Holds addresses σ entries) {i : Nat}
    (hstep : RpcProvider.writeLine addresses σ i = some σ') :
    exists entry, Holds addresses σ' (entries ++ [entry]) := by
  unfold RpcProvider.writeLine at hstep
  cases haddress : addresses[i]? with
  | none =>
      rw [haddress] at hstep
      cases hstep
  | some address =>
      simp only [haddress] at hstep
      cases hnext : Field.next (σ.written i) with
      | none =>
          rw [hnext] at hstep
          cases hstep
      | some field =>
          rw [hnext] at hstep
          cases hstep
          have hi : i < addresses.length := (List.getElem?_eq_some_iff.mp haddress).1
          have hrank := next_eq_some hnext
          have hnew : entries.lookup (field.key i) = none := by
            rw [h.lookup, if_neg (by rw [hrank]; exact Nat.lt_irrefl _)]
          refine ⟨(field.key i, field.value address), ?_, ?_, ?_, ?_, ?_⟩
          · rw [List.flatMap_append, List.flatMap_singleton, ← h.file]
          · intro entry hentry
            rcases List.mem_append.mp hentry with hold | hlast
            · exact h.written entry hold
            · rw [List.mem_singleton.mp hlast]
              exact address.written (Nat.lt_of_lt_of_le hi hfew) field
          · rw [List.map_append, List.map_singleton, List.nodup_append]
            refine ⟨h.nodup, List.pairwise_singleton _ _, ?_⟩
            intro key hkey other hother
            rw [List.mem_singleton.mp hother]
            rcases List.mem_map.mp hkey with ⟨entry, hentry, rfl⟩
            have hne := List.lookup_eq_none_iff.mp hnew entry hentry
            exact (bne_iff_ne.mp hne).symm
          · intro j g
            change _ = if g.rank < Function.update σ.written i (σ.written i + 1) j then _ else _
            rw [List.lookup_append, h.lookup]
            by_cases hji : j = i
            · subst hji
              rw [Function.update_self]
              by_cases hgf : g = field
              · rw [hgf, if_neg (by rw [hrank]; exact Nat.lt_irrefl _),
                  if_pos (by rw [hrank]; exact Nat.lt_succ_self _), haddress,
                  List.lookup_cons_self]
                rfl
              · have hother : List.lookup (g.key j) [(field.key j, field.value address)] =
                    none := by
                  rw [List.lookup_eq_none_iff]
                  intro entry hentry
                  rw [List.mem_singleton.mp hentry, bne_iff_ne]
                  exact fun heq => hgf (key_injective heq).2
                have hsame : g.rank < σ.written j <-> g.rank < σ.written j + 1 := by
                  have hne : g.rank ≠ field.rank := fun heq => hgf (rank_injective heq)
                  omega
                rw [hother, Option.or_none]
                simp only [hsame]
            · have hother : List.lookup (g.key j) [(field.key i, field.value address)] =
                  none := by
                rw [List.lookup_eq_none_iff]
                intro entry hentry
                rw [List.mem_singleton.mp hentry, bne_iff_ne]
                exact fun heq => hji (key_injective heq).1
              rw [hother, Option.or_none, Function.update_of_ne hji]
          · intro j hj
            have hji : j ≠ i := fun heq => Nat.not_lt.mpr hj (heq ▸ hi)
            exact (Function.update_of_ne hji _ _).trans (h.beyond j hj)

/-!
# What a process reads
-/

/-- The list stops before the first server that has not written its address, and has 0
for a port that is not there yet. -/
def found (written : Nat -> Nat) (addresses : List Address) (i : Nat) : List (Bytes × Int) :=
  ((addresses.zipIdx i).takeWhile fun p => 0 < written p.2).map fun p =>
    (p.1.ip, if written p.2 = 1 then 0 else p.1.port)

theorem found_all {written : Nat -> Nat} {addresses : List Address} {i : Nat}
    (h : forall j, i ≤ j -> j < i + addresses.length -> written j = 2) :
    found written addresses i = addresses.map fun address => (address.ip, address.port) := by
  induction addresses generalizing i with
  | nil => rfl
  | cons address addresses ih =>
      have hfirst : written i = 2 := h i (Nat.le_refl i) (by rw [List.length_cons]; omega)
      have hwritten : 0 < written i := by
        rw [hfirst]
        decide
      have hboth : ¬ written i = 1 := by
        rw [hfirst]
        decide
      have hrest : found written addresses (i + 1) = _ :=
        ih fun j hj hlt => h j (by omega) (by rw [List.length_cons]; omega)
      rw [List.map_cons, ← hrest, found, List.zipIdx_cons, List.takeWhile_cons]
      simp only [if_pos (decide_eq_true hwritten), List.map_cons, if_neg hboth]
      rfl

theorem Holds.load_ip {addresses : List Address} {σ : RpcProvider.StartUp}
    {entries : List (Bytes × Bytes)} (h : Holds addresses σ entries) {i : Nat}
    (hi : i < addresses.length) :
    MprpcConfig.load entries (Field.ip.key i) =
      if 0 < σ.written i then addresses[i].ip else [] := by
  rw [MprpcConfig.load, h.lookup, List.getElem?_eq_getElem hi]
  by_cases hwritten : 0 < σ.written i
  · rw [if_pos hwritten]
    exact congrArg (Option.getD · []) (if_pos hwritten)
  · rw [if_neg hwritten]
    exact congrArg (Option.getD · []) (if_neg hwritten)

theorem Holds.load_port {addresses : List Address} {σ : RpcProvider.StartUp}
    {entries : List (Bytes × Bytes)} (h : Holds addresses σ entries) {i : Nat}
    (hi : i < addresses.length) (hwritten : 0 < σ.written i) :
    toShort (atoi (MprpcConfig.load entries (Field.port.key i))) =
      if σ.written i = 1 then 0 else addresses[i].port := by
  rw [MprpcConfig.load, h.lookup, List.getElem?_eq_getElem hi]
  by_cases hone : σ.written i = 1
  · have hport : ¬ Field.port.rank < σ.written i := by
      rw [hone]
      exact Nat.lt_irrefl _
    rw [if_neg hport, if_pos hone]
    rfl
  · have hport : Field.port.rank < σ.written i :=
      Nat.lt_of_le_of_ne hwritten fun heq => hone heq.symm
    rw [if_pos hport, if_neg hone]
    change toShort (atoi (toString addresses[i].port)) = _
    rw [atoi_toString, toShort_eq addresses[i].short]

theorem Holds.reads {addresses : List Address} {σ : RpcProvider.StartUp}
    {entries : List (Bytes × Bytes)} (h : Holds addresses σ entries) {fuel i : Nat}
    (hfuel : addresses.length - i ≤ fuel) :
    ipPortVt entries fuel i = found σ.written (addresses.drop i) i := by
  induction fuel generalizing i with
  | zero =>
      rw [List.drop_eq_nil_of_le (Nat.sub_eq_zero_iff_le.mp (Nat.le_zero.mp hfuel))]
      rfl
  | succ fuel ih =>
      rw [ipPortVt]
      rcases Nat.lt_or_ge i addresses.length with hlt | hge
      · have hip := h.load_ip hlt
        rw [List.drop_eq_getElem_cons hlt, found, List.zipIdx_cons, List.takeWhile_cons]
        by_cases hwritten : 0 < σ.written i
        · rw [if_pos hwritten] at hip
          simp only [hip, if_neg addresses[i].nonempty, h.load_port hlt hwritten,
            if_pos (decide_eq_true hwritten), List.map_cons]
          rw [ih (i := i + 1) (by omega)]
          rfl
        · rw [if_neg hwritten] at hip
          simp only [hip, if_true, decide_eq_false hwritten, Bool.false_eq_true, if_false,
            List.map_nil]
      · have hnone : MprpcConfig.load entries (Field.ip.key i) = [] := by
          rw [MprpcConfig.load, h.lookup, h.beyond i hge]
          rfl
        rw [List.drop_eq_nil_of_le hge]
        simp only [hnone, if_true]
        rfl

/-- At any moment, and in whatever order the servers write, a process finds the servers
before the first one that has not written its address; once all have, it finds all. -/
theorem peers_found {addresses : List Address} (hfew : addresses.length ≤ 2147483646)
    (r : (startUpSystem addresses).Run) {σ : RpcProvider.StartUp} (hσ : r.Visits σ) :
    peers σ.file = found σ.written addresses 0 ∧
      ((forall i, i < addresses.length -> σ.written i = 2) ->
        peers σ.file = addresses.map fun address => (address.ip, address.port)) := by
  rcases hσ.trace with ⟨earlier, hearlier, _⟩
  have hholds : exists entries, Holds addresses σ entries := by
    refine TransitionSystem.Trace.invariant
      (P := fun _ σ => exists entries, Holds addresses σ entries) ?_ ?_ hearlier
    · refine ⟨[], rfl, nofun, List.nodup_nil, ?_, fun _ _ => rfl⟩
      intro i field
      exact (if_neg (Nat.not_lt_zero _)).symm
    · rintro tr s s' a _ ⟨entries, h⟩ hstep
      rcases h.step hfew hstep with ⟨entry, hentry⟩
      exact ⟨_, hentry⟩
  rcases hholds with ⟨entries, h⟩
  have hpeers : peers σ.file = found σ.written addresses 0 := by
    rw [peers, h.file, MprpcConfig.loadConfigFile_written h.written h.nodup,
      h.reads (Nat.le_trans (Nat.sub_le _ _) hfew), List.drop_zero]
  refine ⟨hpeers, ?_⟩
  intro hall
  rw [hpeers]
  exact found_all fun i _ hi => hall i (by omega)

/-- `127.0.1.1` -/
def localhost (port : Int) (h : -32768 ≤ port ∧ port < 32768) : Address where
  ip := [49, 50, 55, 46, 48, 46, 49, 46, 49]
  port := port
  dotted := by simp [Decimal.IsDigit]
  nonempty := List.cons_ne_nil _ _
  length := by decide
  short := h

def twoServers : List Address :=
  [localhost 23800 (by decide), localhost 23801 (by decide)]

def secondFirstRun : (startUpSystem twoServers).Run :=
  TransitionSystem.runOf _ [1, 0, 0, 1] (by decide +kernel)

theorem secondFirstRun_finds :
    peers secondFirstRun.state.file =
      twoServers.map fun address => (address.ip, address.port) := by
  refine (peers_found (by decide) secondFirstRun (Or.inl rfl)).2 ?_
  decide +kernel

end Rpc
end KVRaft
