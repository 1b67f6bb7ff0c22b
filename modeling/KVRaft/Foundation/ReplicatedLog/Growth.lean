import KVRaft.Foundation.ReplicatedLog.Ballots

/-!
# What a step leaves alone

Ballots, claims, leaderships and acknowledgements are never taken back and a
leader's log only gets longer; a step by one server leaves the term, the log and
the ballots of every other server as they were.
-/

namespace KVRaft
namespace Foundation
namespace LogSystem

set_option linter.unusedSectionVars false

variable {S E τ : Type} [DecidableEq S] [LinearOrder τ]

structure Grows (α β : LogState S E τ) : Prop where
  term : forall u, α.term u ≤ β.term u
  vote : forall {u T c}, α.vote u T = some c -> β.vote u T = some c
  claim : forall {T c L}, α.claim T c = some L -> β.claim T c = some L
  leader : forall {T c}, α.leader T = some c -> β.leader T = some c
  base : forall {T c}, α.leader T = some c -> β.base T = α.base T
  leaderLog : forall T, α.leaderLog T <+: β.leaderLog T
  acked : forall {u T N}, α.acked u T N -> β.acked u T N

structure Elsewhere (v : S) (α β : LogState S E τ) : Prop where
  term : forall {u}, u ≠ v -> β.term u = α.term u
  log : forall {u}, u ≠ v -> β.log u = α.log u
  vote : forall {u}, u ≠ v -> forall T, β.vote u T = α.vote u T
  leaderLog : forall {u T}, u ≠ v -> α.leader T = some u ->
    β.leaderLog T = α.leaderLog T
  leader : forall {u T}, u ≠ v -> β.leader T = some u -> α.leader T = some u

namespace Grows

theorem refl (α : LogState S E τ) : Grows α α where
  term _ := le_refl _
  vote h := h
  claim h := h
  leader h := h
  base _ := rfl
  leaderLog _ := List.prefix_rfl
  acked h := h

theorem trans {α β γ : LogState S E τ} (h : Grows α β) (k : Grows β γ) :
    Grows α γ where
  term u := (h.term u).trans (k.term u)
  vote hv := k.vote (h.vote hv)
  claim hc := k.claim (h.claim hc)
  leader hl := k.leader (h.leader hl)
  base hl := (k.base (h.leader hl)).trans (h.base hl)
  leaderLog T := (h.leaderLog T).trans (k.leaderLog T)
  acked ha := k.acked (h.acked ha)

end Grows

namespace Elsewhere

theorem refl (v : S) (α : LogState S E τ) : Elsewhere v α α where
  term _ := rfl
  log _ := rfl
  vote _ _ := rfl
  leaderLog _ _ := rfl
  leader _ h := h

theorem trans {v : S} {α β γ : LogState S E τ} (hgrow : Grows α β)
    (h : Elsewhere v α β) (k : Elsewhere v β γ) : Elsewhere v α γ where
  term hu := (k.term hu).trans (h.term hu)
  log hu := (k.log hu).trans (h.log hu)
  vote hu T := (k.vote hu T).trans (h.vote hu T)
  leaderLog hu hl := (k.leaderLog hu (hgrow.leader hl)).trans (h.leaderLog hu hl)
  leader hu hl := h.leader hu (k.leader hu hl)

end Elsewhere

variable {M : LogSystem S E τ} {α β : LogState S E τ} {v : S}

private theorem learn_grows {t : τ} (ht : α.term v ≤ t) : Grows α (α.setTerm v t) :=
  { Grows.refl α with
    term := by
      intro u
      by_cases hu : u = v
      · rw [LogState.setTerm_term, if_pos hu, hu]
        exact ht
      · rw [LogState.setTerm_term, if_neg hu] }

private theorem learn_elsewhere {t : τ} : Elsewhere v α (α.setTerm v t) :=
  { Elsewhere.refl v α with
    term := fun hu => by rw [LogState.setTerm_term, if_neg hu] }

private theorem setLog_grows {L : List E} : Grows α (α.setLog v L) :=
  { Grows.refl α with }

private theorem setLog_elsewhere {L : List E} : Elsewhere v α (α.setLog v L) :=
  { Elsewhere.refl v α with
    log := fun hu => by rw [LogState.setLog_log, if_neg hu] }

private theorem addAck_grows {T : τ} {N : Nat} : Grows α (α.addAck v T N) :=
  { Grows.refl α with
    acked := fun h => Or.inl h }

private theorem stand_grows (h : M.Ballots α) {t : τ} (ht : α.term v < t) :
    Grows α (((α.setTerm v t).setClaim t v (α.log v)).castVote v t v) :=
  { Grows.refl α with
    term := (learn_grows ht.le).term
    vote := by
      intro u T c hu
      rw [LogState.castVote_vote, if_neg]
      · exact hu
      · intro heq
        have hle := h.vote_term hu
        rw [heq.1, heq.2] at hle
        exact absurd ht (not_lt.mpr hle)
    claim := by
      intro T c L hc
      refine (LogState.setClaim_claim _ _ _ _ _ _).trans ?_
      rw [if_neg]
      · exact hc
      · intro heq
        have hle := h.claim_term hc
        rw [heq.1, heq.2] at hle
        exact absurd ht (not_lt.mpr hle) }

private theorem castVote_elsewhere {t : τ} {c : S} :
    Elsewhere v α (α.castVote v t c) :=
  { Elsewhere.refl v α with
    vote := by
      intro u hu T
      rw [LogState.castVote_vote, if_neg]
      intro heq
      exact hu heq.1 }

private theorem stand_elsewhere {t : τ} :
    Elsewhere v α (((α.setTerm v t).setClaim t v (α.log v)).castVote v t v) :=
  { castVote_elsewhere (α := α) (v := v) (t := t) (c := v) with
    term := learn_elsewhere.term }

private theorem grant_grows {c : S} (hnone : α.vote v (α.term v) = none) :
    Grows α (α.castVote v (α.term v) c) :=
  { Grows.refl α with
    vote := by
      intro u T d hu
      rw [LogState.castVote_vote, if_neg]
      · exact hu
      · intro heq
        rw [heq.1, heq.2, hnone] at hu
        cases hu }

private theorem win_fresh {T : τ} {c : S} (hnone : α.leader (α.term v) = none)
    (hc : α.leader T = some c) : T ≠ α.term v := by
  intro heq
  rw [heq, hnone] at hc
  cases hc

private theorem win_grows (h : M.Ballots α) (hnone : α.leader (α.term v) = none) :
    Grows α (α.crown (α.term v) v (α.log v)) :=
  { Grows.refl α with
    leader := fun hc => by
      rw [LogState.crown_leader, if_neg (win_fresh hnone hc)]
      exact hc
    base := fun hc => by
      rw [LogState.crown_base, if_neg (win_fresh hnone hc)]
    leaderLog := by
      intro T
      rw [LogState.crown_leaderLog]
      by_cases hT : T = α.term v
      · rw [if_pos hT, hT, h.leaderLog_nil hnone]
        exact List.nil_prefix
      · rw [if_neg hT] }

private theorem win_elsewhere (hnone : α.leader (α.term v) = none) :
    Elsewhere v α (α.crown (α.term v) v (α.log v)) :=
  { Elsewhere.refl v α with
    leaderLog := fun _ hc => by
      rw [LogState.crown_leaderLog, if_neg (win_fresh hnone hc)]
    leader := by
      intro u T hu hc
      rw [LogState.crown_leader] at hc
      by_cases hT : T = α.term v
      · rw [if_pos hT] at hc
        exact absurd (Option.some.inj hc).symm hu
      · rw [if_neg hT] at hc
        exact hc }

private theorem extend_grows {e : E} : Grows α (α.extendLog (α.term v) v e) :=
  { Grows.refl α with
    leaderLog := by
      intro T
      rw [LogState.extendLog_leaderLog]
      by_cases hT : T = α.term v
      · rw [if_pos hT, hT]
        exact List.prefix_append _ _
      · rw [if_neg hT] }

private theorem extend_elsewhere {e : E} (hlead : α.leader (α.term v) = some v) :
    Elsewhere v α (α.extendLog (α.term v) v e) :=
  { Elsewhere.refl v α with
    log := fun hu => by rw [LogState.extendLog_log, if_neg hu]
    leaderLog := by
      intro u T hu hc
      rw [LogState.extendLog_leaderLog, if_neg]
      intro heq
      rw [heq, hlead] at hc
      exact hu (Option.some.inj hc).symm }

theorem Step.grows (h : M.Ballots α) (hstep : M.Step v α β) : Grows α β := by
  cases hstep with
  | learn ht => exact learn_grows ht
  | stand ht => exact stand_grows h ht
  | grant hnone _ _ => exact grant_grows hnone
  | win hnone _ _ => exact win_grows h hnone
  | extend _ _ _ => exact extend_grows
  | adopt _ _ _ => exact setLog_grows
  | acknowledge _ _ _ => exact addAck_grows
  | install _ => exact setLog_grows

theorem Move.grows (h : M.Ballots α) (hmove : M.Move v α β) : Grows α β := by
  rcases hmove with hstep | hslip
  · exact hstep.grows h
  · cases hslip with
    | splice _ => exact setLog_grows
    | overAck _ _ => exact addAck_grows

theorem Step.elsewhere (hstep : M.Step v α β) : Elsewhere v α β := by
  cases hstep with
  | learn _ => exact learn_elsewhere
  | stand _ => exact stand_elsewhere
  | grant _ _ _ => exact castVote_elsewhere
  | win hnone _ _ => exact win_elsewhere hnone
  | extend hlead _ _ => exact extend_elsewhere hlead
  | adopt _ _ _ => exact setLog_elsewhere
  | acknowledge _ _ _ => exact { Elsewhere.refl v α with }
  | install _ => exact setLog_elsewhere

theorem Move.elsewhere (hmove : M.Move v α β) : Elsewhere v α β := by
  rcases hmove with hstep | hslip
  · exact hstep.elsewhere
  · cases hslip with
    | splice _ => exact setLog_elsewhere
    | overAck _ _ => exact { Elsewhere.refl v α with }

/-- Acknowledgements are only given in the acknowledging server's own term. -/
theorem Step.acked_origin (hstep : M.Step v α β) {u : S} {T : τ} {N : Nat}
    (ha : β.acked u T N) : α.acked u T N ∨ (u = v ∧ T = α.term v) := by
  cases hstep with
  | acknowledge _ _ _ =>
      rcases ha with hold | ⟨hu, hT, _⟩
      · exact Or.inl hold
      · exact Or.inr ⟨hu, hT⟩
  | _ => exact Or.inl ha

/-!
# Facts that stay true
-/

theorem Own.mono {T : τ} {N : Nat} (h : M.Own α T N) (hgrow : Grows α β) :
    M.Own β T N := by
  rcases h with ⟨k, e, hN, he, hT⟩
  exact ⟨k, e, hN, getElem?_of_isPrefix (hgrow.leaderLog T) he, hT⟩

theorem Own.length_le {T : τ} {N : Nat} (h : M.Own α T N) :
    N ≤ (α.leaderLog T).length := by
  rcases h with ⟨k, e, hN, he, _⟩
  have := (List.getElem?_eq_some_iff.mp he).1
  omega

theorem Settled.mono {T : τ} {N : Nat} (h : M.Settled α T N) (hgrow : Grows α β) :
    M.Settled β T N := by
  rcases h with ⟨hown, Q, hQ, hacked⟩
  exact ⟨hown.mono hgrow, Q, hQ, fun q hq => hgrow.acked (hacked q hq)⟩

theorem Settled.live {T : τ} {N : Nat} (h : M.Settled α T N) : M.Live α T N := by
  rcases h with ⟨hown, Q, hQ, hacked⟩
  exact ⟨hown, Q, hQ, fun q hq => Or.inl (hacked q hq)⟩

theorem Own.take_eq {T : τ} {N : Nat} (h : M.Own α T N) (hgrow : Grows α β) :
    (β.leaderLog T).take N = (α.leaderLog T).take N :=
  take_eq_of_isPrefix (hgrow.leaderLog T) h.length_le

theorem Committed.mono {L : List E} {s t : τ} (h : M.Committed α L s)
    (hgrow : Grows α β) (hst : s ≤ t) : M.Committed β L t := by
  rcases h with hnil | ⟨T, N, hT, hset, hpre⟩
  · exact Or.inl hnil
  · refine Or.inr ⟨T, N, hT.trans hst, hset.mono hgrow, ?_⟩
    rw [hset.1.take_eq hgrow]
    exact hpre

theorem Committed.of_isPrefix {K L : List E} {t : τ} (h : M.Committed α L t)
    (hpre : K <+: L) : M.Committed α K t := by
  rcases h with hnil | ⟨T, N, hT, hset, hL⟩
  · rw [hnil, List.prefix_nil] at hpre
    exact Or.inl hpre
  · exact Or.inr ⟨T, N, hT, hset, hpre.trans hL⟩

end LogSystem
end Foundation
end KVRaft
