import KVRaft.RaftCore.Raft.Replication

/-!
# The complete log after accepting entries

Accepting the entries of `M` that follow index `p` turns the complete log `L`
into `overwrite L M p`: entries of `M` from `p` to the end of `M`, entries of
`L` elsewhere.  Nothing after the end of `M` is cut off.
-/

namespace KVRaft
namespace RaftCore

/-- Replace the entry at place `p`, or append there. -/
def putAt (L : List LogEntry) (p : Nat) (log : LogEntry) : List LogEntry :=
  L.take p ++ log :: L.drop (p + 1)

def overwrite (L M : List LogEntry) (p : Nat) : List LogEntry :=
  L.take p ++ M.drop p ++ L.drop M.length

/-- The logs never hold different entries of one term at one index. -/
def Agree (L M : List LogEntry) : Prop :=
  forall (k : Nat) (d e : LogEntry), L[k]? = some d -> M[k]? = some e ->
    d.logTerm = e.logTerm -> d = e

theorem putAt_length {L : List LogEntry} {p : Nat} (log : LogEntry)
    (hp : p ≤ L.length) : (putAt L p log).length = max L.length (p + 1) := by
  simp only [putAt, List.length_append, List.length_take, List.length_cons,
    List.length_drop]
  omega

theorem putAt_getElem? {L : List LogEntry} {p : Nat} {log : LogEntry}
    (hp : p ≤ L.length) (k : Nat) :
    (putAt L p log)[k]? = if k = p then some log else L[k]? := by
  have hlen : (L.take p).length = p := by
    rw [List.length_take]
    omega
  rw [putAt]
  rcases Nat.lt_trichotomy k p with hk | hk | hk
  · rw [List.getElem?_append_left (by omega), if_neg (by omega),
      List.getElem?_take_of_lt hk]
  · rw [List.getElem?_append_right (by omega), if_pos hk, hlen, hk, Nat.sub_self]
    rfl
  · rw [List.getElem?_append_right (by omega), if_neg (by omega), hlen]
    obtain ⟨j, rfl⟩ : exists j, k = p + 1 + j := ⟨k - (p + 1), by omega⟩
    rw [show p + 1 + j - p = j + 1 by omega, List.getElem?_cons_succ,
      List.getElem?_drop]

theorem overwrite_getElem? {L M : List LogEntry} {p : Nat} (hL : p ≤ L.length)
    (hM : p ≤ M.length) (k : Nat) :
    (overwrite L M p)[k]? = if p ≤ k ∧ k < M.length then M[k]? else L[k]? := by
  have h1 : (L.take p).length = p := by
    rw [List.length_take]
    omega
  have h2 : (L.take p ++ M.drop p).length = M.length := by
    rw [List.length_append, List.length_drop, h1]
    omega
  rw [overwrite]
  rcases Nat.lt_or_ge k M.length with hkM | hkM
  · rw [List.getElem?_append_left (by omega)]
    rcases Nat.lt_or_ge k p with hkp | hkp
    · rw [List.getElem?_append_left (by omega), if_neg (by omega),
        List.getElem?_take_of_lt hkp]
    · rw [List.getElem?_append_right (by omega), if_pos ⟨hkp, hkM⟩, h1,
        List.getElem?_drop]
      rw [show p + (k - p) = k by omega]
  · rw [List.getElem?_append_right (by omega), if_neg (by omega), h2,
      List.getElem?_drop]
    rw [show M.length + (k - M.length) = k by omega]

theorem overwrite_length {L M : List LogEntry} {p : Nat} (hL : p ≤ L.length)
    (hM : p ≤ M.length) : (overwrite L M p).length = max L.length M.length := by
  simp only [overwrite, List.length_append, List.length_take, List.length_drop]
  omega

theorem overwrite_end {L M : List LogEntry} : overwrite L M M.length = L := by
  rw [overwrite, List.drop_length, List.append_nil, List.take_append_drop]

/-- Accepting the next entry first changes nothing in the outcome. -/
theorem overwrite_putAt {L M : List LogEntry} {p : Nat} {log : LogEntry}
    (hL : p ≤ L.length) (hlog : M[p]? = some log) :
    overwrite (putAt L p log) M (p + 1) = overwrite L M p := by
  have hM := (List.getElem?_eq_some_iff.mp hlog).1
  apply List.ext_getElem?
  intro k
  rw [overwrite_getElem? (by rw [putAt_length log hL]; omega) hM,
    overwrite_getElem? hL (by omega), putAt_getElem? hL]
  by_cases hk : k = p
  · rw [hk, if_neg (by omega), if_pos rfl, if_pos ⟨Nat.le_refl p, hM⟩, hlog]
  · by_cases hin : p + 1 ≤ k ∧ k < M.length
    · rw [if_pos hin, if_pos ⟨by omega, hin.2⟩]
    · rw [if_neg hin, if_neg hk, if_neg (by omega)]

namespace Numbered

theorem putAt {L : List LogEntry} (h : Numbered L) {p : Nat} (hp : p ≤ L.length)
    {log : LogEntry} (hindex : log.logIndex = p + 1) (hterm : 1 ≤ log.logTerm) :
    Numbered (putAt L p log) := by
  intro k e he
  rw [putAt_getElem? hp] at he
  by_cases hk : k = p
  · rw [if_pos hk] at he
    cases he
    exact ⟨by rw [hk]; exact hindex, hterm⟩
  · rw [if_neg hk] at he
    exact h k e he

theorem overwrite {L M : List LogEntry} (h : Numbered L) (hM : Numbered M) {p : Nat}
    (hp : p ≤ L.length) (hpM : p ≤ M.length) : Numbered (overwrite L M p) := by
  intro k e he
  rw [overwrite_getElem? hp hpM] at he
  by_cases hk : p ≤ k ∧ k < M.length
  · rw [if_pos hk] at he
    exact hM k e he
  · rw [if_neg hk] at he
    exact h k e he

end Numbered

/-!
# The loop over the received entries
-/

namespace Holds

variable {n : Nat} {rf : Raft n} {L M : List LogEntry} {s p : Nat}

theorem setLogs (h : Holds rf L s) {K : List LogEntry} (hK : Numbered K)
    (hs : s ≤ K.length) (hterm : termAt K s = termAt L s) :
    Holds { rf with logs := K.drop s } K s where
  le := hs
  index := h.index
  term := h.term.trans hterm.symm
  logs := rfl
  numbered := hK

theorem putAt (h : Holds rf L s) (hs : s ≤ p) (hp : p ≤ L.length) {log : LogEntry}
    (hindex : log.logIndex = p + 1) (hterm : 1 ≤ log.logTerm) :
    Holds { rf with logs := (putAt L p log).drop s } (putAt L p log) s := by
  apply h.setLogs (h.numbered.putAt hp hindex hterm)
  · rw [putAt_length log hp]
    omega
  · apply termAt_congr
    intro j hj
    rw [putAt_getElem? hp, if_neg (by omega)]

theorem appendEntry (h : Holds rf L s) (hs : s ≤ p) (hp : p ≤ L.length) {log : LogEntry}
    (hindex : log.logIndex = p + 1)
    (hagree : forall d, L[p]? = some d -> d.logTerm = log.logTerm -> d = log) :
    rf.appendEntry log = .ok { rf with logs := (RaftCore.putAt L p log).drop s } := by
  unfold Raft.appendEntry
  rcases Nat.lt_or_ge p L.length with hlt | hge
  · rcases getElem?_of_lt hlt with ⟨d, hd⟩
    have hhere : ¬ log.logIndex > rf.getLastLogIndex := by
      rw [h.lastIndex, hindex]
      omega
    have hslot : log.logIndex - s - 1 = ((p - s : Nat) : Int) := by
      rw [hindex]
      omega
    have hheld : logAt rf.logs (log.logIndex - s - 1) = .ok d := by
      rw [hslot, logAt_natCast, h.getElem?, show s + (p - s) = p by omega]
      exact hd
    have hput : L.set p log = RaftCore.putAt L p log := by
      rw [RaftCore.putAt, List.set_eq_take_append_cons_drop, if_pos hlt]
    rw [if_neg hhere, h.slice (by rw [hindex]; omega) (by rw [hindex]; omega)]
    simp only [bind, Except.bind, hheld]
    by_cases hsame : d.logTerm = log.logTerm
    · -- same term: the entry is already there
      have hdl := hagree d hd hsame
      have hkeep : RaftCore.putAt L p log = L := by
        rw [← hput, ← hdl, ← (List.getElem?_eq_some_iff.mp hd).2]
        exact List.set_getElem_self hlt
      have hno : ¬ (d.logTerm = log.logTerm ∧ d.command ≠ log.command) := by
        rw [hdl]
        exact fun hne => hne.2 rfl
      rw [if_neg hno, if_neg (not_not_intro hsame), hkeep, ← h.logs]
      rfl
    · have hno : ¬ (d.logTerm = log.logTerm ∧ d.command ≠ log.command) :=
        fun hne => hsame hne.1
      rw [if_neg hno, if_pos hsame, hslot, h.logs, ← hput, Int.toNat_natCast,
        List.set_drop, show s + (p - s) = p by omega]
      rfl
  · have hpL : p = L.length := Nat.le_antisymm hp hge
    have hbeyond : log.logIndex > rf.getLastLogIndex := by
      rw [h.lastIndex, hindex]
      omega
    have hput : RaftCore.putAt L p log = L ++ [log] := by
      rw [RaftCore.putAt, hpL, List.take_length, List.drop_eq_nil_of_le (by omega)]
    rw [if_pos hbeyond, hput, List.drop_append_of_le_length h.le, h.logs]

/-- The whole loop, from the entry after index `p` to the end of `M`. -/
theorem foldlM_appendEntry (h : Holds rf L s) (hs : s ≤ p) (hp : p ≤ L.length)
    (hpM : p ≤ M.length) (hM : Numbered M) (hagree : Agree L M) :
    (M.drop p).foldlM Raft.appendEntry rf =
      .ok { rf with logs := (overwrite L M p).drop s } := by
  -- induction on what is left of `M`, with the local log changing on the way
  generalize hrest : M.length - p = rest
  induction rest generalizing rf L p with
  | zero =>
      have hpM' : p = M.length := by omega
      rw [List.drop_eq_nil_of_le (by omega), hpM', overwrite_end, ← h.logs]
      rfl
  | succ rest ih =>
      rcases getElem?_of_lt (show p < M.length by omega) with ⟨log, hlog⟩
      have hindex : log.logIndex = p + 1 := (hM p log hlog).1
      have hterm := (hM p log hlog).2
      have hdrop : M.drop p = log :: M.drop (p + 1) :=
        (List.drop_eq_getElem_cons (by omega)).trans (by
          rw [(List.getElem?_eq_some_iff.mp hlog).2])
      have hone := h.appendEntry hs hp hindex fun d hd hdt => hagree p d log hd hlog hdt
      have hnext := h.putAt hs hp hindex hterm
      have hagree' : Agree (RaftCore.putAt L p log) M := by
        intro k d e hd he hde
        rw [putAt_getElem? hp] at hd
        by_cases hk : k = p
        · rw [if_pos hk] at hd
          rw [hk, hlog] at he
          cases hd
          cases he
          rfl
        · rw [if_neg hk] at hd
          exact hagree k d e hd he hde
      have hlen := putAt_length log hp
      rw [hdrop, List.foldlM_cons, hone]
      refine (ih hnext (by omega) (by omega) (by omega) hagree' (by omega)).trans ?_
      rw [overwrite_putAt hp hlog]

theorem overwrite (h : Holds rf L s) (hs : s ≤ p) (hp : p ≤ L.length)
    (hpM : p ≤ M.length) (hM : Numbered M) :
    Holds { rf with logs := (overwrite L M p).drop s } (overwrite L M p) s := by
  apply h.setLogs (h.numbered.overwrite hM hp hpM)
  · rw [overwrite_length hp hpM]
    have := h.le
    omega
  · apply termAt_congr
    intro j hj
    rw [overwrite_getElem? hp hpM, if_neg (by omega)]

end Holds
end RaftCore
end KVRaft
