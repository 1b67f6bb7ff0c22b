import Mathlib.Data.List.Basic
import Mathlib.Data.List.TakeWhile

/-!
# Byte strings

A C++ string is the list of its bytes.  Extracting a string from a stream skips
leading white space and stops at the next white space.
-/

namespace KVRaft

abbrev Bytes := List UInt8

def isSpace (c : UInt8) : Bool :=
  c == 32 || (9 ≤ c && c ≤ 13)

def extractWord (data : Bytes) : Bytes :=
  (data.dropWhile isSpace).takeWhile fun c => !isSpace c

theorem not_isSpace_of_mem_extractWord {data : Bytes} {c : UInt8}
    (h : c ∈ extractWord data) : isSpace c = false := by
  have hword := List.mem_takeWhile_imp h
  rw [Bool.not_eq_true'] at hword
  exact hword

/-- Only a string without white space is extracted as it is. -/
theorem extractWord_eq_self {data : Bytes} :
    extractWord data = data <-> forall c, c ∈ data -> isSpace c = false := by
  constructor
  · intro h c hc
    rw [← h] at hc
    exact not_isSpace_of_mem_extractWord hc
  · intro h
    have hdrop : data.dropWhile isSpace = data := by
      rw [List.dropWhile_eq_self_iff]
      intro hlength hspace
      rw [h _ (List.getElem_mem hlength)] at hspace
      cases hspace
    have htake : (data.takeWhile fun c => !isSpace c) = data := by
      rw [List.takeWhile_eq_self_iff]
      intro c hc
      rw [h c hc]
      rfl
    rw [extractWord, hdrop, htake]

end KVRaft
