import KVRaft.Common.Bytes
import KVRaft.Foundation.Decimal

/-!
# The configuration file

A text file of lines `key=value`.  Comments, empty lines and lines without `=` are
skipped, and the first value of a key stays.
-/

namespace KVRaft
namespace Rpc

open Foundation

/-- `m_configMap` -/
abbrev ConfigMap := List (Bytes × Bytes)

namespace MprpcConfig

def space : UInt8 := 32
def newline : UInt8 := 10
def hash : UInt8 := 35
def equals : UInt8 := 61

/-- The blanks before and behind; a string of blanks only is left as it is. -/
def trim (src : Bytes) : Bytes :=
  let src :=
    match src.findIdx? (· ≠ space) with
    | some idx => src.drop idx
    | none => src
  match src.reverse.findIdx? (· ≠ space) with
  | some idx => src.take (src.length - idx)
  | none => src

/-- The next line with its newline, or as much of it as the buffer takes. -/
def fgets : Nat -> Bytes -> Bytes × Bytes
  | 0, data => ([], data)
  | _, [] => ([], [])
  | size + 1, c :: rest =>
      if c = newline then
        ([c], rest)
      else
        (c :: (fgets size rest).1, (fgets size rest).2)

/-- What `buf` holds after `fgets`, up to the byte that ends a C string. -/
def cString (buf : Bytes) : Bytes :=
  buf.takeWhile (· ≠ 0)

def insert (configMap : ConfigMap) (key value : Bytes) : ConfigMap :=
  if (configMap.lookup key).isSome then configMap else configMap ++ [(key, value)]

/-- The body of the loop, for one line. -/
def loadLine (configMap : ConfigMap) (line : Bytes) : ConfigMap :=
  let readBuf := trim line
  if readBuf.head? = some hash ∨ readBuf = [] then
    configMap
  else
    match readBuf.findIdx? (· = equals) with
    | none => configMap
    | some idx =>
        let key := trim (readBuf.take idx)
        let value := trim ((readBuf.drop (idx + 1)).takeWhile (· ≠ newline))
        insert configMap key value

/-- The end of the file is noticed by a read that meets it, not by the one that takes the
last line. -/
def loadLines : Nat -> ConfigMap -> Bytes -> ConfigMap
  | 0, configMap, _ => configMap
  | fuel + 1, configMap, data =>
      let (buf, left) := fgets 511 data
      let configMap := loadLine configMap (cString buf)
      if buf.getLast? ≠ some newline ∧ buf.length < 511 then
        configMap
      else
        loadLines fuel configMap left

def loadConfigFile (data : Bytes) : ConfigMap :=
  loadLines (data.length + 1) [] data

def load (configMap : ConfigMap) (key : Bytes) : Bytes :=
  (configMap.lookup key).getD []

/-!
# Plain entries

Lines as the servers write them: no blanks around, and nothing that ends a part early.
-/

/-- A text of visible characters, none of them `=` or `#`. -/
def Plain (data : Bytes) : Prop :=
  forall c, c ∈ data -> 32 < c ∧ c ≠ equals ∧ c ≠ hash

instance : DecidablePred Plain := fun data =>
  List.decidableBAll (fun c => 32 < c ∧ c ≠ equals ∧ c ≠ hash) data

theorem Plain.append {xs ys : Bytes} (hx : Plain xs) (hy : Plain ys) : Plain (xs ++ ys) := by
  intro c hc
  rcases List.mem_append.mp hc with h | h
  · exact hx c h
  · exact hy c h

theorem Plain.ne {data : Bytes} (h : Plain data) {c d : UInt8} (hc : c ∈ data) (hd : d ≤ 32) :
    c ≠ d := by
  rintro rfl
  exact absurd (h c hc).1 (UInt8.not_lt.mpr hd)

theorem findIdx?_of_head {data : Bytes} {c : UInt8} {rest : Bytes} (h : data = c :: rest)
    (hc : c ≠ space) : data.findIdx? (· ≠ space) = some 0 := by
  rw [h, List.findIdx?_cons, if_pos (decide_eq_true hc)]

/-- A text that begins and ends with something else has no blanks to lose. -/
theorem trim_eq_self {data : Bytes}
    (hfirst : forall c, data.head? = some c -> c ≠ space)
    (hlast : forall c, data.getLast? = some c -> c ≠ space) : trim data = data := by
  cases data with
  | nil => rfl
  | cons c rest =>
      have hc : c ≠ space := hfirst c rfl
      have hreverse : exists d ds, (c :: rest).reverse = d :: ds ∧ d ≠ space := by
        cases hcases : (c :: rest).reverse with
        | nil => exact absurd hcases (by rw [List.reverse_eq_nil_iff]; exact nofun)
        | cons d ds =>
            refine ⟨d, ds, rfl, hlast d ?_⟩
            rw [← List.head?_reverse, hcases]
            rfl
      rcases hreverse with ⟨d, ds, hd, hne⟩
      unfold trim
      simp only [findIdx?_of_head rfl hc, List.drop_zero, findIdx?_of_head hd hne, Nat.sub_zero,
        List.take_length]

theorem Plain.trim {data : Bytes} (h : Plain data) : trim data = data := by
  apply trim_eq_self
  · intro c hc
    exact h.ne (List.mem_of_head? hc) (Nat.le_refl _)
  · intro c hc
    exact h.ne (List.mem_of_getLast? hc) (Nat.le_refl _)

/-- An entry that is written as one line, which `fgets` takes in one piece. -/
structure Written (entry : Bytes × Bytes) : Prop where
  key : Plain entry.1
  named : entry.1 ≠ []
  value : Plain entry.2
  short : entry.1.length + entry.2.length ≤ 509

def lineOf (entry : Bytes × Bytes) : Bytes :=
  entry.1 ++ equals :: (entry.2 ++ [newline])

theorem fgets_line {line : Bytes} (h : newline ∉ line) {size : Nat} (hsize : line.length < size)
    (rest : Bytes) : fgets size (line ++ newline :: rest) = (line ++ [newline], rest) := by
  induction line generalizing size with
  | nil =>
      cases size with
      | zero => exact absurd hsize (Nat.not_lt_zero _)
      | succ size => rfl
  | cons c line ih =>
      cases size with
      | zero => exact absurd hsize (Nat.not_lt_zero _)
      | succ size =>
          have hc : c ≠ newline := fun heq => h (heq ▸ List.mem_cons_self)
          have hline := ih (fun hmem => h (List.mem_cons_of_mem _ hmem))
            (Nat.lt_of_succ_lt_succ hsize)
          rw [List.cons_append, fgets, if_neg hc, hline]
          rfl

theorem takeWhile_append_of_not {p : UInt8 -> Bool} {xs : Bytes} {c : UInt8}
    (hxs : forall d, d ∈ xs -> p d = true) (hc : p c = false) (ys : Bytes) :
    (xs ++ c :: ys).takeWhile p = xs := by
  rw [List.takeWhile_append_of_pos hxs, List.takeWhile_cons, if_neg (Bool.eq_false_iff.mp hc),
    List.append_nil]

theorem findIdx?_append_of_not {p : UInt8 -> Bool} {xs : Bytes} {c : UInt8}
    (hxs : forall d, d ∈ xs -> p d = false) (hc : p c = true) (ys : Bytes) :
    (xs ++ c :: ys).findIdx? p = some xs.length := by
  induction xs with
  | nil => rw [List.nil_append, List.findIdx?_cons, if_pos hc, List.length_nil]
  | cons d xs ih =>
      have hd : ¬ p d = true := Bool.eq_false_iff.mp (hxs d List.mem_cons_self)
      rw [List.cons_append, List.findIdx?_cons, if_neg hd,
        ih fun e he => hxs e (List.mem_cons_of_mem _ he)]
      rfl

theorem Written.ne_of_mem {entry : Bytes × Bytes} (h : Written entry) {c d : UInt8}
    (hc : c ∈ lineOf entry) (hd : d < 10) : c ≠ d := by
  have hd32 : d ≤ 32 := UInt8.le_of_lt (UInt8.lt_trans hd (by decide))
  rcases List.mem_append.mp hc with hkey | htail
  · exact h.key.ne hkey hd32
  · rcases List.mem_cons.mp htail with rfl | htail
    · rintro rfl
      exact absurd hd (by decide)
    · rcases List.mem_append.mp htail with hvalue | hend
      · exact h.value.ne hvalue hd32
      · rw [List.mem_singleton.mp hend]
        rintro rfl
        exact absurd hd (by decide)

theorem Written.cString {entry : Bytes × Bytes} (h : Written entry) :
    cString (lineOf entry) = lineOf entry := by
  rw [MprpcConfig.cString, List.takeWhile_eq_self_iff]
  intro c hc
  exact decide_eq_true (h.ne_of_mem hc (by decide))

theorem Written.head {entry : Bytes × Bytes} (h : Written entry) :
    exists c, c ∈ entry.1 ∧ (lineOf entry).head? = some c := by
  rcases List.exists_cons_of_ne_nil h.named with ⟨c, rest, hkey⟩
  refine ⟨c, hkey ▸ List.mem_cons_self, ?_⟩
  rw [lineOf, hkey]
  rfl

theorem Written.trim {entry : Bytes × Bytes} (h : Written entry) :
    trim (lineOf entry) = lineOf entry := by
  apply trim_eq_self
  · rcases h.head with ⟨c, hmem, hhead⟩
    intro d hd
    rw [hhead] at hd
    cases hd
    exact h.key.ne hmem (Nat.le_refl _)
  · intro c hc
    have hlast : (lineOf entry).getLast? = some newline := by
      rw [lineOf, ← List.cons_append, ← List.append_assoc]
      exact List.getLast?_concat
    rw [hlast] at hc
    cases hc
    decide

/-- A line is read back as the entry it was written for. -/
theorem loadLine_lineOf {entry : Bytes × Bytes} (h : Written entry) (configMap : ConfigMap) :
    loadLine configMap (lineOf entry) = insert configMap entry.1 entry.2 := by
  rcases h.head with ⟨c, hmem, hhead⟩
  have hnot : ¬ ((lineOf entry).head? = some hash ∨ lineOf entry = []) := by
    rw [hhead]
    rintro (heq | hnil)
    · cases heq
      exact (h.key _ hmem).2.2 rfl
    · rw [hnil] at hhead
      cases hhead
  have hidx : (lineOf entry).findIdx? (· = equals) = some entry.1.length :=
    findIdx?_append_of_not (fun d hd => decide_eq_false (h.key d hd).2.1) (decide_eq_true rfl) _
  have hkey : (lineOf entry).take entry.1.length = entry.1 := List.take_left
  have hrest : (lineOf entry).drop (entry.1.length + 1) = entry.2 ++ [newline] := by
    rw [lineOf, ← List.drop_drop, List.drop_left]
    rfl
  have hvalue : (entry.2 ++ [newline]).takeWhile (· ≠ newline) = entry.2 :=
    takeWhile_append_of_not
      (fun d hd => decide_eq_true (h.value.ne hd (by decide))) (decide_eq_false nofun) []
  simp only [loadLine, h.trim, if_neg hnot, hidx, hkey, hrest, hvalue, h.key.trim, h.value.trim]

theorem loadLines_written {entries : List (Bytes × Bytes)}
    (h : forall entry, entry ∈ entries -> Written entry) {fuel : Nat} (configMap : ConfigMap)
    (hfuel : (entries.flatMap lineOf).length < fuel) :
    loadLines fuel configMap (entries.flatMap lineOf) =
      entries.foldl (fun configMap entry => insert configMap entry.1 entry.2) configMap := by
  induction entries generalizing fuel configMap with
  | nil =>
      cases fuel with
      | zero => exact absurd hfuel (Nat.not_lt_zero _)
      | succ fuel => rfl
  | cons entry entries ih =>
      cases fuel with
      | zero => exact absurd hfuel (Nat.not_lt_zero _)
      | succ fuel =>
          have hentry := h entry List.mem_cons_self
          have hline : (entry :: entries).flatMap lineOf =
              (entry.1 ++ equals :: entry.2) ++ newline :: entries.flatMap lineOf := by
            rw [List.flatMap_cons, lineOf, List.append_assoc, List.append_assoc,
              List.cons_append, List.cons_append, List.append_assoc]
            rfl
          have hnewline : newline ∉ entry.1 ++ equals :: entry.2 := by
            intro hmem
            rcases List.mem_append.mp hmem with hkey | htail
            · exact hentry.key.ne hkey (by decide) rfl
            · rcases List.mem_cons.mp htail with heq | hvalue
              · exact absurd heq (by decide)
              · exact hentry.value.ne hvalue (by decide) rfl
          have hshort : (entry.1 ++ equals :: entry.2).length < 511 := by
            rw [List.length_append, List.length_cons]
            have hle := hentry.short
            omega
          have hgets := fgets_line hnewline hshort (entries.flatMap lineOf)
          have hsame : entry.1 ++ equals :: entry.2 ++ [newline] = lineOf entry := by
            rw [lineOf, List.append_assoc, List.cons_append]
          have hmore : ¬ ((lineOf entry).getLast? ≠ some newline ∧
              (lineOf entry).length < 511) := by
            rintro ⟨hlast, _⟩
            apply hlast
            rw [← hsame]
            exact List.getLast?_concat
          rw [hline, List.length_append, List.length_cons] at hfuel
          rw [loadLines, hline, hgets]
          simp only [hsame, hentry.cString, loadLine_lineOf hentry, if_neg hmore]
          exact ih (fun other hother => h other (List.mem_cons_of_mem _ hother)) _ (by omega)

theorem foldl_insert {entries : List (Bytes × Bytes)} {configMap : ConfigMap}
    (h : ((configMap ++ entries).map Prod.fst).Nodup) :
    entries.foldl (fun configMap entry => insert configMap entry.1 entry.2) configMap =
      configMap ++ entries := by
  induction entries generalizing configMap with
  | nil => exact (List.append_nil _).symm
  | cons entry entries ih =>
      have hsplit : configMap ++ entry :: entries = (configMap ++ [entry]) ++ entries := by
        rw [List.append_assoc]
        rfl
      have hnew : (configMap.lookup entry.1).isSome = false := by
        rw [Option.isSome_eq_false_iff, Option.isNone_iff_eq_none, List.lookup_eq_none_iff]
        intro p hp
        rw [List.map_append, List.nodup_append] at h
        rw [bne_iff_ne]
        exact (h.2.2 p.1 (List.mem_map_of_mem hp) entry.1 List.mem_cons_self).symm
      rw [hsplit] at h ⊢
      rw [List.foldl_cons, insert, hnew]
      exact ih h

/-- A file of lines with different keys is read back line by line. -/
theorem loadConfigFile_written {entries : List (Bytes × Bytes)}
    (h : forall entry, entry ∈ entries -> Written entry)
    (hnodup : (entries.map Prod.fst).Nodup) :
    loadConfigFile (entries.flatMap lineOf) = entries := by
  rw [loadConfigFile, loadLines_written h [] (Nat.lt_succ_self _)]
  exact foldl_insert hnodup

end MprpcConfig
end Rpc
end KVRaft
