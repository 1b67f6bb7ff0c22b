import KVRaft.Foundation.ReplicatedLog.Basic

/-!
# Ballots and the origin of entries

What holds of every run, faulty steps included: ballots are cast once and only
in a server's current or past terms, leaders have a quorum behind them, and an
entry found anywhere sits at its place in the log its term's leader built.
-/

namespace KVRaft
namespace Foundation
namespace LogSystem

set_option linter.unusedSectionVars false

variable {S E τ : Type} [DecidableEq S] [LinearOrder τ]

structure Ballots (M : LogSystem S E τ) (α : LogState S E τ) : Prop where
  vote_term : forall {v c T}, α.vote v T = some c -> T ≤ α.term v
  vote_claim : forall {v c T}, α.vote v T = some c -> exists L, α.claim T c = some L
  claim_term : forall {T c L}, α.claim T c = some L -> T ≤ α.term c
  claim_vote : forall {T c L}, α.claim T c = some L -> α.vote c T = some c
  leader_quorum : forall {T c}, α.leader T = some c ->
    exists Q, M.quorums.IsQuorum Q ∧ forall q, q ∈ Q -> α.vote q T = some c
  leaderLog_nil : forall {T}, α.leader T = none -> α.leaderLog T = []
  base_prefix : forall {T c}, α.leader T = some c -> α.base T <+: α.leaderLog T
  base_term : forall {T c e}, α.leader T = some c -> e ∈ α.base T -> M.termOf e < T
  log_entry : forall {v} {i : Nat} {e}, (α.log v)[i]? = some e ->
    (α.leaderLog (M.termOf e))[i]? = some e
  leaderLog_entry : forall {T} {i : Nat} {e}, (α.leaderLog T)[i]? = some e ->
    (α.leaderLog (M.termOf e))[i]? = some e
  log_term : forall {v e}, e ∈ α.log v -> M.termOf e ≤ α.term v
  leaderLog_term : forall {T e}, e ∈ α.leaderLog T -> M.termOf e ≤ T

namespace Ballots

variable {M : LogSystem S E τ} {α β : LogState S E τ} {v : S}

/-!
# One leader a term
-/

/-- Whoever has a quorum of ballots in a term that has a leader is that leader. -/
theorem leader_eq (h : M.Ballots α) {T : τ} {c d : S} (hc : α.leader T = some c)
    {Q : Finset S} (hQ : M.quorums.IsQuorum Q)
    (hvote : forall q, q ∈ Q -> α.vote q T = some d) : c = d := by
  rcases h.leader_quorum hc with ⟨R, hR, hRvote⟩
  rcases M.quorums.inter hQ hR with ⟨q, hqQ, hqR⟩
  have heq : some d = some c := (hvote q hqQ).symm.trans (hRvote q hqR)
  exact (Option.some.inj heq).symm

theorem leader_claim (h : M.Ballots α) {T : τ} {c : S} (hc : α.leader T = some c) :
    exists L, α.claim T c = some L := by
  rcases h.leader_quorum hc with ⟨Q, hQ, hvote⟩
  rcases M.quorums.nonempty hQ with ⟨q, hq⟩
  exact h.vote_claim (hvote q hq)

theorem leader_term (h : M.Ballots α) {T : τ} {c : S} (hc : α.leader T = some c) :
    T ≤ α.term c := by
  rcases h.leader_claim hc with ⟨L, hL⟩
  exact h.claim_term hL

theorem leader_of_mem (h : M.Ballots α) {T : τ} {e : E} (he : e ∈ α.leaderLog T) :
    exists c, α.leader T = some c := by
  cases hl : α.leader T with
  | none =>
      rw [h.leaderLog_nil hl] at he
      cases he
  | some c => exact ⟨c, rfl⟩

/-- The term of an entry found in a log has a leader. -/
theorem leader_of_log (h : M.Ballots α) {i : Nat} {e : E}
    (he : (α.log v)[i]? = some e) : exists c, α.leader (M.termOf e) = some c :=
  h.leader_of_mem (List.mem_of_getElem? (h.log_entry he))

/-!
# Preservation
-/

private theorem learn (h : M.Ballots α) {t : τ} (ht : α.term v ≤ t) :
    M.Ballots (α.setTerm v t) := by
  have hmono : forall u, α.term u ≤ (α.setTerm v t).term u := by
    intro u
    by_cases hu : u = v
    · subst hu
      simpa using ht
    · simp [hu]
  exact
    { h with
      vote_term := fun hv => (h.vote_term hv).trans (hmono _)
      claim_term := fun hc => (h.claim_term hc).trans (hmono _)
      log_term := fun he => (h.log_term he).trans (hmono _) }

private theorem stand (h : M.Ballots α) {t : τ} (ht : α.term v < t) :
    M.Ballots (((α.setTerm v t).setClaim t v (α.log v)).castVote v t v) := by
  have hl := h.learn ht.le
  have hvote : forall {u c T}, α.vote u T = some c -> ¬ (u = v ∧ T = t) := by
    intro u c T hu heq
    have hle := h.vote_term hu
    rw [heq.1, heq.2] at hle
    exact absurd ht (not_lt.mpr hle)
  exact
    { hl with
      vote_term := by
        intro u c T hu
        by_cases heq : u = v ∧ T = t
        · rw [heq.1, heq.2]
          exact le_of_eq (by simp [LogState.castVote, LogState.setClaim])
        · rw [LogState.castVote_vote, if_neg heq] at hu
          exact hl.vote_term hu
      vote_claim := by
        intro u c T hu
        by_cases heq : T = t ∧ c = v
        · exact ⟨α.log v, (LogState.setClaim_claim _ _ _ _ _ _).trans (if_pos heq)⟩
        · have hold : exists L, α.claim T c = some L := by
            rw [LogState.castVote_vote] at hu
            by_cases hnew : u = v ∧ T = t
            · rw [if_pos hnew] at hu
              exact absurd ⟨hnew.2, (Option.some.inj hu).symm⟩ heq
            · rw [if_neg hnew] at hu
              exact h.vote_claim hu
          rcases hold with ⟨L, hL⟩
          exact ⟨L, (LogState.setClaim_claim _ _ _ _ _ _).trans
            ((if_neg heq).trans hL)⟩
      claim_term := by
        intro T c L hc
        have hc' := (LogState.setClaim_claim _ _ _ _ _ _).symm.trans hc
        by_cases heq : T = t ∧ c = v
        · rw [heq.1, heq.2]
          exact le_of_eq (by simp [LogState.castVote, LogState.setClaim])
        · rw [if_neg heq] at hc'
          exact hl.claim_term hc'
      claim_vote := by
        intro T c L hc
        have hc' := (LogState.setClaim_claim _ _ _ _ _ _).symm.trans hc
        rw [LogState.castVote_vote]
        by_cases heq : T = t ∧ c = v
        · rw [if_pos heq.symm, heq.2]
        · rw [if_neg heq] at hc'
          rw [if_neg fun hne => heq hne.symm]
          exact h.claim_vote hc'
      leader_quorum := by
        intro T c hc
        rcases h.leader_quorum hc with ⟨Q, hQ, hQvote⟩
        refine ⟨Q, hQ, ?_⟩
        intro q hq
        rw [LogState.castVote_vote, if_neg (hvote (hQvote q hq))]
        exact hQvote q hq }

private theorem grant (h : M.Ballots α) {c : S} {L : List E}
    (hnone : α.vote v (α.term v) = none)
    (hclaim : α.claim (α.term v) c = some L) :
    M.Ballots (α.castVote v (α.term v) c) := by
  have hkeep : forall {u d T}, α.vote u T = some d ->
      (α.castVote v (α.term v) c).vote u T = some d := by
    intro u d T hu
    rw [LogState.castVote_vote, if_neg]
    · exact hu
    · intro heq
      rw [heq.1, heq.2, hnone] at hu
      cases hu
  exact
    { h with
      vote_term := by
        intro u d T hu
        rw [LogState.castVote_vote] at hu
        by_cases heq : u = v ∧ T = α.term v
        · rw [heq.1, heq.2]
          exact le_refl _
        · rw [if_neg heq] at hu
          exact h.vote_term hu
      vote_claim := by
        intro u d T hu
        rw [LogState.castVote_vote] at hu
        by_cases heq : u = v ∧ T = α.term v
        · rw [if_pos heq] at hu
          rw [heq.2, ← Option.some.inj hu]
          exact ⟨L, hclaim⟩
        · rw [if_neg heq] at hu
          exact h.vote_claim hu
      claim_vote := fun hc => hkeep (h.claim_vote hc)
      leader_quorum := by
        intro T d hd
        rcases h.leader_quorum hd with ⟨Q, hQ, hQvote⟩
        exact ⟨Q, hQ, fun q hq => hkeep (hQvote q hq)⟩ }

private theorem win (h : M.Ballots α) {Q : Finset S}
    (hnone : α.leader (α.term v) = none) (hQ : M.quorums.IsQuorum Q)
    (hvote : forall q, q ∈ Q -> α.vote q (α.term v) = some v) :
    M.Ballots (α.crown (α.term v) v (α.log v)) := by
  have hnil := h.leaderLog_nil hnone
  -- no entry of the new term exists yet, so its log may start as any log
  have hfresh : forall {T} {i : Nat} {e : E}, (α.leaderLog (M.termOf e))[i]? = some e ->
      T = M.termOf e -> T ≠ α.term v := by
    intro T i e he hT heq
    rw [← hT, heq, hnil] at he
    cases he
  have hentry : forall {i : Nat} {e : E}, (α.leaderLog (M.termOf e))[i]? = some e ->
      ((α.crown (α.term v) v (α.log v)).leaderLog (M.termOf e))[i]? = some e := by
    intro i e he
    rw [LogState.crown_leaderLog, if_neg (hfresh he rfl)]
    exact he
  have hbase : forall {e : E}, e ∈ α.log v -> M.termOf e < α.term v := by
    intro e he
    rcases List.mem_iff_getElem?.mp he with ⟨i, hi⟩
    exact lt_of_le_of_ne (h.log_term he) (hfresh (h.log_entry hi) rfl)
  exact
    { h with
      leader_quorum := by
        intro T c hc
        rw [LogState.crown_leader] at hc
        by_cases hT : T = α.term v
        · rw [if_pos hT] at hc
          rw [hT, ← Option.some.inj hc]
          exact ⟨Q, hQ, hvote⟩
        · rw [if_neg hT] at hc
          exact h.leader_quorum hc
      leaderLog_nil := by
        intro T hT
        rw [LogState.crown_leader] at hT
        by_cases heq : T = α.term v
        · rw [if_pos heq] at hT
          cases hT
        · rw [if_neg heq] at hT
          rw [LogState.crown_leaderLog, if_neg heq]
          exact h.leaderLog_nil hT
      base_prefix := by
        intro T c hc
        rw [LogState.crown_leader] at hc
        rw [LogState.crown_base, LogState.crown_leaderLog]
        by_cases heq : T = α.term v
        · rw [if_pos heq, if_pos heq]
        · rw [if_neg heq] at hc
          rw [if_neg heq, if_neg heq]
          exact h.base_prefix hc
      base_term := by
        intro T c e hc he
        rw [LogState.crown_leader] at hc
        rw [LogState.crown_base] at he
        by_cases heq : T = α.term v
        · rw [if_pos heq] at he
          rw [heq]
          exact hbase he
        · rw [if_neg heq] at hc he
          exact h.base_term hc he
      log_entry := fun he => hentry (h.log_entry he)
      leaderLog_entry := by
        intro T i e he
        rw [LogState.crown_leaderLog] at he
        by_cases heq : T = α.term v
        · rw [if_pos heq] at he
          exact hentry (h.log_entry he)
        · rw [if_neg heq] at he
          exact hentry (h.leaderLog_entry he)
      leaderLog_term := by
        intro T e he
        rw [LogState.crown_leaderLog] at he
        by_cases heq : T = α.term v
        · rw [if_pos heq] at he
          rw [heq]
          exact (hbase he).le
        · rw [if_neg heq] at he
          exact h.leaderLog_term he }

private theorem extend (h : M.Ballots α) {e : E}
    (hlead : α.leader (α.term v) = some v)
    (hlog : α.log v = α.leaderLog (α.term v)) (hterm : M.termOf e = α.term v) :
    M.Ballots (α.extendLog (α.term v) v e) := by
  have hgrow : forall T, α.leaderLog T <+: (α.extendLog (α.term v) v e).leaderLog T := by
    intro T
    rw [LogState.extendLog_leaderLog]
    by_cases heq : T = α.term v
    · rw [if_pos heq, heq]
      exact List.prefix_append _ _
    · rw [if_neg heq]
  have hold : forall {T} {i : Nat} {d : E}, (α.leaderLog T)[i]? = some d ->
      ((α.extendLog (α.term v) v e).leaderLog T)[i]? = some d :=
    fun hd => getElem?_of_isPrefix (hgrow _) hd
  -- the extended log holds the entries it held before and the new one
  have hnew : forall {i : Nat} {d : E}, (α.leaderLog (α.term v) ++ [e])[i]? = some d ->
      ((α.extendLog (α.term v) v e).leaderLog (M.termOf d))[i]? = some d := by
    intro i d hd
    rcases getElem?_concat_cases hd with hin | ⟨_, hde⟩
    · exact hold (h.leaderLog_entry hin)
    · rw [hde, hterm, LogState.extendLog_leaderLog, if_pos rfl]
      rw [hde] at hd
      exact hd
  have hmem : forall {d : E}, d ∈ α.leaderLog (α.term v) ++ [e] ->
      M.termOf d ≤ α.term v := by
    intro d hd
    rcases List.mem_append.mp hd with hin | hin
    · exact h.leaderLog_term hin
    · rw [List.mem_singleton.mp hin, hterm]
  exact
    { h with
      leaderLog_nil := by
        intro T hT
        have hT' : α.leader T = none := hT
        rw [LogState.extendLog_leaderLog, if_neg]
        · exact h.leaderLog_nil hT'
        · intro heq
          rw [heq, hlead] at hT'
          cases hT'
      base_prefix := fun hc => (h.base_prefix hc).trans (hgrow _)
      log_entry := by
        intro u i d hd
        rw [LogState.extendLog_log] at hd
        by_cases hu : u = v
        · rw [if_pos hu, hlog] at hd
          exact hnew hd
        · rw [if_neg hu] at hd
          exact hold (h.log_entry hd)
      leaderLog_entry := by
        intro T i d hd
        rw [LogState.extendLog_leaderLog] at hd
        by_cases heq : T = α.term v
        · rw [if_pos heq] at hd
          exact hnew hd
        · rw [if_neg heq] at hd
          exact hold (h.leaderLog_entry hd)
      log_term := by
        intro u d hd
        rw [LogState.extendLog_log] at hd
        by_cases hu : u = v
        · rw [if_pos hu, hlog] at hd
          rw [hu]
          exact hmem hd
        · rw [if_neg hu] at hd
          exact h.log_term hd
      leaderLog_term := by
        intro T d hd
        rw [LogState.extendLog_leaderLog] at hd
        by_cases heq : T = α.term v
        · rw [if_pos heq] at hd
          rw [heq]
          exact hmem hd
        · rw [if_neg heq] at hd
          exact h.leaderLog_term hd }

/-- Any rewriting of a log by entries that sit at their place is harmless here. -/
private theorem splice (h : M.Ballots α) {L : List E}
    (hL : forall (i : Nat) (e : E), L[i]? = some e ->
      (α.leaderLog (M.termOf e))[i]? = some e ∧ M.termOf e ≤ α.term v) :
    M.Ballots (α.setLog v L) :=
  { h with
    log_entry := by
      intro u i e he
      rw [LogState.setLog_log] at he
      by_cases hu : u = v
      · rw [if_pos hu] at he
        exact (hL i e he).1
      · rw [if_neg hu] at he
        exact h.log_entry he
    log_term := by
      intro u e he
      rw [LogState.setLog_log] at he
      by_cases hu : u = v
      · rw [if_pos hu] at he
        rcases List.mem_iff_getElem?.mp he with ⟨i, hi⟩
        rw [hu]
        exact (hL i e hi).2
      · rw [if_neg hu] at he
        exact h.log_term he }

/-- Entries of a prefix of a leader's log sit at their place. -/
theorem entry_of_isPrefix (h : M.Ballots α) {T : τ} {L : List E}
    (hL : L <+: α.leaderLog T) {i : Nat} {e : E} (he : L[i]? = some e) :
    (α.leaderLog (M.termOf e))[i]? = some e ∧ M.termOf e ≤ T := by
  have hentry := getElem?_of_isPrefix hL he
  exact ⟨h.leaderLog_entry hentry, h.leaderLog_term (List.mem_of_getElem? hentry)⟩

private theorem keep_entry (h : M.Ballots α) {T : τ} (hT : T ≤ α.term v) {L : List E}
    (hL : L <+: α.leaderLog T) (i : Nat) (e : E)
    (he : (keep L (α.log v))[i]? = some e) :
    (α.leaderLog (M.termOf e))[i]? = some e ∧ M.termOf e ≤ α.term v := by
  rcases keep_eq_or L (α.log v) with hkeep | hkeep
  · rw [hkeep] at he
    exact ⟨h.log_entry he, h.log_term (List.mem_of_getElem? he)⟩
  · rw [hkeep] at he
    rcases h.entry_of_isPrefix hL he with ⟨hentry, hle⟩
    exact ⟨hentry, hle.trans hT⟩

theorem committed_prefix {L : List E} {t : τ} (hL : M.Committed α L t) :
    L = [] ∨ exists T, T ≤ t ∧ L <+: α.leaderLog T := by
  rcases hL with hnil | ⟨T, N, hT, _, hpre⟩
  · exact Or.inl hnil
  · exact Or.inr ⟨T, hT, hpre.trans (List.take_prefix _ _)⟩

theorem step (h : M.Ballots α) (hstep : M.Step v α β) : M.Ballots β := by
  cases hstep with
  | learn ht => exact h.learn ht
  | stand ht => exact h.stand ht
  | grant hnone hclaim _ => exact h.grant hnone hclaim
  | win hnone hQ hvote => exact h.win hnone hQ hvote
  | extend hlead hlog hterm => exact h.extend hlead hlog hterm
  | adopt _ _ hpre => exact h.splice (h.keep_entry (le_refl _) hpre)
  | acknowledge _ _ _ => exact { h with }
  | install hL =>
      apply h.splice
      intro i e he
      rcases committed_prefix hL with hnil | ⟨T, hT, hpre⟩
      · rw [hnil, keep_of_isPrefix List.nil_prefix] at he
        exact ⟨h.log_entry he, h.log_term (List.mem_of_getElem? he)⟩
      · exact h.keep_entry hT hpre i e he

theorem move (h : M.Ballots α) (hmove : M.Move v α β) : M.Ballots β := by
  rcases hmove with hstep | hslip
  · exact h.step hstep
  · cases hslip with
    | splice hL => exact h.splice hL
    | overAck _ _ => exact { h with }

end Ballots
end LogSystem
end Foundation
end KVRaft
