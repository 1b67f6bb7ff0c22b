import KVRaft.Foundation.ReplicatedLog.Growth

/-!
# Safety of leader-based replication

The inductive invariant of runs without faulty steps.  Every log is coherent:
up to each entry it is a prefix of the log built by the leader of that entry's
term.  A prefix that a quorum has acknowledged, or may still acknowledge, is
part of every later leader's log.  Speaking of prefixes that are still live
rather than of settled ones makes the statement inductive: no later step brings
a new live prefix into the past.
-/

namespace KVRaft
namespace Foundation
namespace LogSystem

set_option linter.unusedSectionVars false

variable {S E τ : Type} [DecidableEq S] [LinearOrder τ]

def Coherent (M : LogSystem S E τ) (α : LogState S E τ) (L : List E) : Prop :=
  forall (i : Nat) (e : E), L[i]? = some e ->
    L.take (i + 1) <+: α.leaderLog (M.termOf e)

structure Safe (M : LogSystem S E τ) (α : LogState S E τ) : Prop where
  log_coherent : forall v, M.Coherent α (α.log v)
  claim_coherent : forall {T c L}, α.claim T c = some L -> M.Coherent α L
  leaderLog_coherent : forall T, M.Coherent α (α.leaderLog T)
  acked_term : forall {v T N}, α.acked v T N -> T ≤ α.term v
  acked_length : forall {v T N}, α.acked v T N -> N ≤ (α.leaderLog T).length
  acked_log : forall {v T N}, M.Live α T N -> α.acked v T N ->
    (α.leaderLog T).take N <+: α.log v
  acked_claim : forall {v c T U N L}, M.Live α T N -> T < U -> α.acked v T N ->
    α.vote v U = some c -> α.claim U c = some L -> (α.leaderLog T).take N <+: L
  claim_log : forall {c T U N L}, M.Live α T N -> T < U -> α.claim U c = some L ->
    α.term c = U -> α.leader U = none -> (α.leaderLog T).take N <+: L ->
    (α.leaderLog T).take N <+: α.log c
  leader_complete : forall {c T U N}, M.Live α T N -> T < U ->
    α.leader U = some c -> (α.leaderLog T).take N <+: α.base U

variable {M : LogSystem S E τ} {α β : LogState S E τ} {v : S}

/-!
# Coherent logs
-/

theorem Coherent.of_isPrefix {L K : List E} (h : M.Coherent α K) (hpre : L <+: K) :
    M.Coherent α L := by
  intro i e he
  have hlen : i + 1 ≤ L.length := (List.getElem?_eq_some_iff.mp he).1
  rw [← take_eq_of_isPrefix hpre hlen]
  exact h i e (getElem?_of_isPrefix hpre he)

theorem Coherent.mono {L : List E} (h : M.Coherent α L) (hgrow : Grows α β) :
    M.Coherent β L :=
  fun i e he => (h i e he).trans (hgrow.leaderLog _)

/-- A coherent log whose last entry is `e` is part of that term's leader log. -/
theorem Coherent.of_last {L : List E} (h : M.Coherent α L) {e : E}
    (he : L.getLast? = some e) : L <+: α.leaderLog (M.termOf e) := by
  have hidx : L[L.length - 1]? = some e := by
    rw [← List.getLast?_eq_getElem?]
    exact he
  have hpos : L.length - 1 + 1 = L.length := by
    have := (List.getElem?_eq_some_iff.mp hidx).1
    omega
  have hpre := h _ _ hidx
  rwa [hpos, List.take_length] at hpre

theorem Coherent.append {L : List E} (h : M.Coherent α L) {e : E}
    (he : L ++ [e] <+: α.leaderLog (M.termOf e)) : M.Coherent α (L ++ [e]) := by
  intro i d hd
  rcases getElem?_concat_cases hd with hold | ⟨hi, hnew⟩
  · rw [List.take_append_of_le_length (List.getElem?_eq_some_iff.mp hold).1]
    exact h i d hold
  · rw [hnew, List.take_of_length_le]
    · exact he
    · rw [List.length_append, List.length_singleton, hi]

/-- **Log matching.**  Coherent logs with an entry of the same term at the same
place agree up to there. -/
theorem Coherent.log_matching {L K : List E} (hL : M.Coherent α L)
    (hK : M.Coherent α K) {i : Nat} {d e : E} (hd : L[i]? = some d)
    (he : K[i]? = some e) (hterm : M.termOf d = M.termOf e) :
    L.take (i + 1) = K.take (i + 1) := by
  have hpreL := hL i d hd
  have hpreK := hK i e he
  rw [hterm] at hpreL
  have hlenL := (List.getElem?_eq_some_iff.mp hd).1
  have hlenK := (List.getElem?_eq_some_iff.mp he).1
  have hlen : (L.take (i + 1)).length = (K.take (i + 1)).length := by
    rw [List.length_take, List.length_take]
    omega
  exact (List.prefix_of_prefix_length_le hpreL hpreK hlen.le).eq_of_length hlen

namespace Safe

/-!
# Live prefixes
-/

/-- The last entry of a live prefix, as found in any log that contains it. -/
private theorem own_entry {T : τ} {N : Nat} (hown : M.Own α T N) {L : List E}
    (hpre : (α.leaderLog T).take N <+: L) :
    exists k e, N = k + 1 ∧ L[k]? = some e ∧ M.termOf e = T := by
  rcases hown with ⟨k, e, hN, he, hT⟩
  refine ⟨k, e, hN, getElem?_of_isPrefix hpre ?_, hT⟩
  rw [List.getElem?_take_of_lt (by omega)]
  exact he

private theorem leader_of_own (hb : M.Ballots α) {T : τ} {N : Nat}
    (hown : M.Own α T N) : exists c, α.leader T = some c := by
  rcases hown with ⟨k, e, _, he, _⟩
  exact hb.leader_of_mem (List.mem_of_getElem? he)

/-- A live prefix and anything a later leader's log starts with are comparable. -/
theorem live_comparable_leaderLog (hb : M.Ballots α) (hs : M.Safe α) {T U : τ}
    {N : Nat} {c : S} (hlive : M.Live α T N) (hle : T ≤ U)
    (hc : α.leader U = some c) {L : List E} (hL : L <+: α.leaderLog U) :
    (α.leaderLog T).take N <+: L ∨ L <+: (α.leaderLog T).take N := by
  rcases lt_or_eq_of_le hle with hlt | heq
  · exact List.prefix_or_prefix_of_prefix
      ((hs.leader_complete hlive hlt hc).trans (hb.base_prefix hc)) hL
  · rw [← heq] at hL
    exact List.prefix_or_prefix_of_prefix (List.take_prefix _ _) hL

theorem live_comparable (hb : M.Ballots α) (hs : M.Safe α) {T U : τ} {N K : Nat}
    (hT : M.Live α T N) (hU : M.Live α U K) :
    (α.leaderLog T).take N <+: (α.leaderLog U).take K ∨
      (α.leaderLog U).take K <+: (α.leaderLog T).take N := by
  rcases leader_of_own hb hT.1 with ⟨c, hc⟩
  rcases leader_of_own hb hU.1 with ⟨d, hd⟩
  rcases le_total T U with hle | hle
  · exact hs.live_comparable_leaderLog hb hT hle hd (List.take_prefix _ _)
  · exact (hs.live_comparable_leaderLog hb hU hle hc (List.take_prefix _ _)).symm

theorem live_comparable_committed (hb : M.Ballots α) (hs : M.Safe α) {T t : τ}
    {N : Nat} (hlive : M.Live α T N) {L : List E} (hL : M.Committed α L t) :
    (α.leaderLog T).take N <+: L ∨ L <+: (α.leaderLog T).take N := by
  rcases hL with hnil | ⟨U, K, _, hset, hpre⟩
  · rw [hnil]
    exact Or.inr List.nil_prefix
  · rcases hs.live_comparable hb hlive hset.live with hTU | hUT
    · exact List.prefix_or_prefix_of_prefix hTU hpre
    · exact Or.inr (hpre.trans hUT)

/-- A log that ends in an entry of a leader's term contains all that leader was
elected with. -/
private theorem base_of_last (hb : M.Ballots α) {L : List E} {e : E} {c : S}
    (hc : α.leader (M.termOf e) = some c) (hlast : L.getLast? = some e)
    (hL : L <+: α.leaderLog (M.termOf e)) : α.base (M.termOf e) <+: L := by
  rcases List.prefix_or_prefix_of_prefix (hb.base_prefix hc) hL with hpre | hpre
  · exact hpre
  · have hmem : e ∈ α.base (M.termOf e) :=
      hpre.subset (List.mem_of_getLast? hlast)
    exact absurd (hb.base_term hc hmem) (lt_irrefl _)

/-- **The election restriction.**  A log at least as up to date as one that
contains a live prefix contains it too. -/
theorem live_of_upToDate (hb : M.Ballots α) (hs : M.Safe α) {T : τ} {N : Nat}
    (hlive : M.Live α T N) {L K : List E} (hL : M.Coherent α L)
    (hK : M.Coherent α K) (hpre : (α.leaderLog T).take N <+: K)
    (hup : M.UpToDate L K) : (α.leaderLog T).take N <+: L := by
  rcases own_entry hlive.1 hpre with ⟨k, e, hN, he, hT⟩
  have hne : K ≠ [] := by
    intro hnil
    rw [hnil] at he
    cases he
  obtain ⟨d, hd⟩ : exists d, K.getLast? = some d :=
    ⟨K.getLast hne, List.getLast?_eq_some_getLast hne⟩
  have hTd : T ≤ M.termOf d := by
    rw [← hT]
    exact hb.leaderLog_term ((hK.of_last hd).subset (List.mem_of_getElem? he))
  rcases hup d hd with ⟨f, hf, hcmp⟩
  have hLf := hL.of_last hf
  obtain ⟨c, hc⟩ : exists c, α.leader (M.termOf f) = some c :=
    hb.leader_of_mem (hLf.subset (List.mem_of_getLast? hf))
  have hTf : T ≤ M.termOf f := by
    rcases hcmp with hlt | ⟨heq, _⟩
    · exact hTd.trans hlt.le
    · exact hTd.trans heq.le
  rcases lt_or_eq_of_le hTf with hlt | heq
  · exact (hs.leader_complete hlive hlt hc).trans (base_of_last hb hc hf hLf)
  · have hlen : K.length ≤ L.length := by
      rcases hcmp with hlt | ⟨_, hlen⟩
      · rw [← heq] at hlt
        exact absurd hlt (not_lt.mpr hTd)
      · exact hlen
    rw [← heq] at hLf
    exact List.prefix_of_prefix_length_le (List.take_prefix _ _) hLf
      (hpre.length_le.trans hlen)

/-!
# Where live prefixes come from

A step creates no live prefix except the one that ends in an entry just
appended, and that one nobody has acknowledged yet.
-/

private theorem live_back (hgrow : Grows α β) (hstep : M.Step v α β) {T : τ} {N : Nat}
    (hlive : M.Live β T N) (hN : N ≤ (α.leaderLog T).length) :
    M.Live α T N ∧ (β.leaderLog T).take N = (α.leaderLog T).take N := by
  rcases hlive with ⟨⟨k, e, hk, he, hT⟩, Q, hQ, hacked⟩
  have htake := take_eq_of_isPrefix (hgrow.leaderLog T) hN
  have he' : (α.leaderLog T)[k]? = some e := by
    rw [← List.getElem?_take_of_lt (by omega : k < N), ← htake,
      List.getElem?_take_of_lt (by omega)]
    exact he
  refine ⟨⟨⟨k, e, hk, he', hT⟩, Q, hQ, ?_⟩, htake⟩
  intro q hq
  rcases hacked q hq with ha | hle
  · rcases hstep.acked_origin ha with hold | ⟨hqv, hTv⟩
    · exact Or.inl hold
    · rw [hqv, hTv]
      exact Or.inr (le_refl _)
  · exact Or.inr ((hgrow.term q).trans hle)

/-- A live prefix nobody has acknowledged lies above every elected leader. -/
private theorem no_later_leader (hb : M.Ballots α) {T U : τ} {N : Nat} {c : S}
    (hlive : M.Live α T N) (hfresh : forall q, ¬ α.acked q T N) (hlt : T < U)
    (hc : α.leader U = some c) : False := by
  rcases hlive with ⟨_, Q, hQ, hacked⟩
  rcases hb.leader_quorum hc with ⟨R, hR, hvote⟩
  rcases M.quorums.inter hQ hR with ⟨q, hqQ, hqR⟩
  rcases hacked q hqQ with ha | hle
  · exact hfresh q ha
  · exact absurd (hlt.trans_le ((hb.vote_term (hvote q hqR)).trans hle))
      (lt_irrefl _)

/-- A later candidate's voters hold every live prefix, and so does its log. -/
private theorem live_winner (hb : M.Ballots α) (hs : M.Safe α) {T : τ} {N : Nat}
    (hlive : M.Live α T N) (hlt : T < α.term v)
    (hnone : α.leader (α.term v) = none) {Q : Finset S}
    (hQ : M.quorums.IsQuorum Q)
    (hvote : forall q, q ∈ Q -> α.vote q (α.term v) = some v) :
    (α.leaderLog T).take N <+: α.log v := by
  rcases hlive.2 with ⟨R, hR, hacked⟩
  rcases M.quorums.inter hQ hR with ⟨q, hqQ, hqR⟩
  have hq := hvote q hqQ
  rcases hb.vote_claim hq with ⟨L, hL⟩
  have hack : α.acked q T N := by
    rcases hacked q hqR with ha | hle
    · exact ha
    · exact absurd (hlt.trans_le ((hb.vote_term hq).trans hle)) (lt_irrefl _)
  exact hs.claim_log hlive hlt hL rfl hnone
    (hs.acked_claim hlive hlt hack hq hL)

/-!
# Preservation
-/

/-- Steps that leave the leaders' logs alone create no live prefix at all. -/
private theorem live_same (hgrow : Grows α β) (hstep : M.Step v α β)
    (hsame : β.leaderLog = α.leaderLog) {T : τ} {N : Nat} (hlive : M.Live β T N) :
    M.Live α T N := by
  have hN := hlive.1.length_le
  rw [hsame] at hN
  exact (live_back hgrow hstep hlive hN).1

private theorem learn (hb : M.Ballots α) (hs : M.Safe α) {t : τ}
    (ht : α.term v ≤ t) : M.Safe (α.setTerm v t) := by
  have hstep : M.Step v α (α.setTerm v t) := Step.learn ht
  have hgrow := hstep.grows hb
  have hback : forall {T N}, M.Live (α.setTerm v t) T N -> M.Live α T N :=
    fun hl => live_same hgrow hstep rfl hl
  exact
    { log_coherent := hs.log_coherent
      claim_coherent := hs.claim_coherent
      leaderLog_coherent := hs.leaderLog_coherent
      acked_term := fun ha => (hs.acked_term ha).trans (hgrow.term _)
      acked_length := hs.acked_length
      acked_log := fun hl => hs.acked_log (hback hl)
      acked_claim := fun hl => hs.acked_claim (hback hl)
      claim_log := by
        intro c T U N L hl hlt hc hterm hnone hpre
        refine hs.claim_log (hback hl) hlt hc ?_ hnone hpre
        -- a candidate cannot have gone past the term it stands in
        exact le_antisymm ((hgrow.term c).trans hterm.le) (hb.claim_term hc)
      leader_complete := fun hl => hs.leader_complete (hback hl) }

private theorem stand (hb : M.Ballots α) (hs : M.Safe α) {t : τ}
    (ht : α.term v < t) :
    M.Safe (((α.setTerm v t).setClaim t v (α.log v)).castVote v t v) := by
  have hstep : M.Step v α (((α.setTerm v t).setClaim t v (α.log v)).castVote v t v) :=
    Step.stand ht
  have hgrow := hstep.grows hb
  have hback : forall {T N},
      M.Live (((α.setTerm v t).setClaim t v (α.log v)).castVote v t v) T N ->
        M.Live α T N :=
    fun hl => live_same hgrow hstep rfl hl
  have hclaim : forall {U c L},
      (((α.setTerm v t).setClaim t v (α.log v)).castVote v t v).claim U c = some L ->
        (U = t ∧ c = v ∧ L = α.log v) ∨ (¬ (U = t ∧ c = v) ∧ α.claim U c = some L) := by
    intro U c L hc
    have hc' := (LogState.setClaim_claim _ _ _ _ _ _).symm.trans hc
    by_cases heq : U = t ∧ c = v
    · rw [if_pos heq] at hc'
      exact Or.inl ⟨heq.1, heq.2, (Option.some.inj hc').symm⟩
    · rw [if_neg heq] at hc'
      exact Or.inr ⟨heq, hc'⟩
  exact
    { log_coherent := hs.log_coherent
      claim_coherent := by
        intro U c L hc
        rcases hclaim hc with ⟨_, _, hL⟩ | ⟨_, hold⟩
        · rw [hL]
          exact hs.log_coherent v
        · exact hs.claim_coherent hold
      leaderLog_coherent := hs.leaderLog_coherent
      acked_term := fun ha => (hs.acked_term ha).trans (hgrow.term _)
      acked_length := hs.acked_length
      acked_log := fun hl => hs.acked_log (hback hl)
      acked_claim := by
        intro w c T U N L hl hlt ha hvote hc
        rw [LogState.castVote_vote] at hvote
        by_cases heq : w = v ∧ U = t
        · rw [if_pos heq] at hvote
          rcases hclaim hc with ⟨_, _, hL⟩ | ⟨hne, _⟩
          · rw [hL, ← heq.1]
            exact hs.acked_log (hback hl) ha
          · exact absurd ⟨heq.2, (Option.some.inj hvote).symm⟩ hne
        · rw [if_neg heq] at hvote
          rcases hb.vote_claim hvote with ⟨K, hK⟩
          have hLK : L = K := Option.some.inj (hc.symm.trans (hgrow.claim hK))
          rw [hLK]
          exact hs.acked_claim (hback hl) hlt ha hvote hK
      claim_log := by
        intro c T U N L hl hlt hc hterm hnone hpre
        rcases hclaim hc with ⟨_, hcv, hL⟩ | ⟨hne, hold⟩
        · rw [hcv]
          rw [hL] at hpre
          exact hpre
        · refine hs.claim_log (hback hl) hlt hold ?_ hnone hpre
          by_cases hcv : c = v
          · exfalso
            apply hne
            have hterm' := (LogState.setTerm_term _ _ _ _).symm.trans hterm
            rw [if_pos hcv] at hterm'
            exact ⟨hterm'.symm, hcv⟩
          · have hterm' := (LogState.setTerm_term _ _ _ _).symm.trans hterm
            rw [if_neg hcv] at hterm'
            exact hterm'
      leader_complete := fun hl => hs.leader_complete (hback hl) }

private theorem grant (hb : M.Ballots α) (hs : M.Safe α) {c : S} {L : List E}
    (hnone : α.vote v (α.term v) = none) (hclaim : α.claim (α.term v) c = some L)
    (hup : M.UpToDate L (α.log v)) : M.Safe (α.castVote v (α.term v) c) := by
  have hstep : M.Step v α (α.castVote v (α.term v) c) := Step.grant hnone hclaim hup
  have hgrow := hstep.grows hb
  have hback : forall {T N}, M.Live (α.castVote v (α.term v) c) T N -> M.Live α T N :=
    fun hl => live_same hgrow hstep rfl hl
  exact
    { log_coherent := hs.log_coherent
      claim_coherent := hs.claim_coherent
      leaderLog_coherent := hs.leaderLog_coherent
      acked_term := hs.acked_term
      acked_length := hs.acked_length
      acked_log := fun hl => hs.acked_log (hback hl)
      acked_claim := by
        intro w d T U N K hl hlt ha hvote hK
        rw [LogState.castVote_vote] at hvote
        by_cases heq : w = v ∧ U = α.term v
        · rw [if_pos heq] at hvote
          have hLK : some K = some L := by
            rw [← hclaim, ← heq.2, Option.some.inj hvote]
            exact hK.symm
          rw [Option.some.inj hLK]
          have hpre := hs.acked_log (hback hl) ha
          rw [heq.1] at hpre
          exact hs.live_of_upToDate hb (hback hl) (hs.claim_coherent hclaim)
            (hs.log_coherent v) hpre hup
        · rw [if_neg heq] at hvote
          exact hs.acked_claim (hback hl) hlt ha hvote hK
      claim_log := fun hl => hs.claim_log (hback hl)
      leader_complete := fun hl => hs.leader_complete (hback hl) }

private theorem win (hb : M.Ballots α) (hs : M.Safe α) {Q : Finset S}
    (hnone : α.leader (α.term v) = none) (hQ : M.quorums.IsQuorum Q)
    (hvote : forall q, q ∈ Q -> α.vote q (α.term v) = some v) :
    M.Safe (α.crown (α.term v) v (α.log v)) := by
  have hstep : M.Step v α (α.crown (α.term v) v (α.log v)) := Step.win hnone hQ hvote
  have hgrow := hstep.grows hb
  -- the new leader owns none of the entries it was elected with
  have hother : forall {T N}, M.Own (α.crown (α.term v) v (α.log v)) T N ->
      T ≠ α.term v := by
    intro T N hown hT
    rcases hown with ⟨k, e, _, he, heT⟩
    rw [LogState.crown_leaderLog, if_pos hT] at he
    rcases hb.leader_of_log he with ⟨c, hc⟩
    rw [heT, hT, hnone] at hc
    cases hc
  have hback : forall {T N}, M.Live (α.crown (α.term v) v (α.log v)) T N ->
      M.Live α T N ∧
        (α.crown (α.term v) v (α.log v)).leaderLog T = α.leaderLog T := by
    intro T N hl
    have hsame : (α.crown (α.term v) v (α.log v)).leaderLog T = α.leaderLog T := by
      rw [LogState.crown_leaderLog, if_neg (hother hl.1)]
    have hN := hl.1.length_le
    rw [hsame] at hN
    exact ⟨(live_back hgrow hstep hl hN).1, hsame⟩
  exact
    { log_coherent := fun u => (hs.log_coherent u).mono hgrow
      claim_coherent := fun hc => (hs.claim_coherent hc).mono hgrow
      leaderLog_coherent := by
        intro T
        rw [LogState.crown_leaderLog]
        by_cases hT : T = α.term v
        · rw [if_pos hT]
          exact (hs.log_coherent v).mono hgrow
        · rw [if_neg hT]
          exact (hs.leaderLog_coherent T).mono hgrow
      acked_term := hs.acked_term
      acked_length := fun ha =>
        (hs.acked_length ha).trans (hgrow.leaderLog _).length_le
      acked_log := by
        intro u T N hl ha
        rw [(hback hl).2]
        exact hs.acked_log (hback hl).1 ha
      acked_claim := by
        intro w c T U N L hl hlt ha hv hc
        rw [(hback hl).2]
        exact hs.acked_claim (hback hl).1 hlt ha hv hc
      claim_log := by
        intro c T U N L hl hlt hc hterm hU hpre
        rw [(hback hl).2] at hpre ⊢
        rw [LogState.crown_leader] at hU
        by_cases heq : U = α.term v
        · rw [if_pos heq] at hU
          cases hU
        · rw [if_neg heq] at hU
          exact hs.claim_log (hback hl).1 hlt hc hterm hU hpre
      leader_complete := by
        intro c T U N hl hlt hU
        rw [(hback hl).2, LogState.crown_base]
        rw [LogState.crown_leader] at hU
        by_cases heq : U = α.term v
        · rw [if_pos heq]
          rw [heq] at hlt
          exact hs.live_winner hb (hback hl).1 hlt hnone hQ hvote
        · rw [if_neg heq] at hU ⊢
          exact hs.leader_complete (hback hl).1 hlt hU }

private theorem extend (hb : M.Ballots α) (hs : M.Safe α) {e : E}
    (hlead : α.leader (α.term v) = some v)
    (hlog : α.log v = α.leaderLog (α.term v)) (hterm : M.termOf e = α.term v) :
    M.Safe (α.extendLog (α.term v) v e) := by
  have hstep : M.Step v α (α.extendLog (α.term v) v e) :=
    Step.extend hlead hlog hterm
  have hgrow := hstep.grows hb
  have hb' := hb.step hstep
  -- a live prefix is an old one, or it ends in the new entry and is unacknowledged
  have hcases : forall {T N}, M.Live (α.extendLog (α.term v) v e) T N ->
      (M.Live α T N ∧
        ((α.extendLog (α.term v) v e).leaderLog T).take N = (α.leaderLog T).take N) ∨
      ((α.leaderLog T).length < N ∧ forall q, ¬ α.acked q T N) := by
    intro T N hl
    rcases le_or_gt N (α.leaderLog T).length with hN | hN
    · exact Or.inl (live_back hgrow hstep hl hN)
    · exact Or.inr ⟨hN, fun q ha => absurd (hs.acked_length ha) (not_le.mpr hN)⟩
  have hcoh : M.Coherent (α.extendLog (α.term v) v e) (α.leaderLog (α.term v) ++ [e]) := by
    apply ((hs.leaderLog_coherent _).mono hgrow).append
    rw [hterm, LogState.extendLog_leaderLog, if_pos rfl]
  exact
    { log_coherent := by
        intro u
        rw [LogState.extendLog_log]
        by_cases hu : u = v
        · rw [if_pos hu, hlog]
          exact hcoh
        · rw [if_neg hu]
          exact (hs.log_coherent u).mono hgrow
      claim_coherent := fun hc => (hs.claim_coherent hc).mono hgrow
      leaderLog_coherent := by
        intro T
        rw [LogState.extendLog_leaderLog]
        by_cases hT : T = α.term v
        · rw [if_pos hT]
          exact hcoh
        · rw [if_neg hT]
          exact (hs.leaderLog_coherent T).mono hgrow
      acked_term := hs.acked_term
      acked_length := fun ha =>
        (hs.acked_length ha).trans (hgrow.leaderLog _).length_le
      acked_log := by
        intro u T N hl ha
        rcases hcases hl with ⟨hold, htake⟩ | ⟨_, hfresh⟩
        · rw [htake, LogState.extendLog_log]
          by_cases hu : u = v
          · rw [if_pos hu, ← hu]
            exact (hs.acked_log hold ha).trans (List.prefix_append _ _)
          · rw [if_neg hu]
            exact hs.acked_log hold ha
        · exact absurd ha (hfresh u)
      acked_claim := by
        intro w c T U N L hl hlt ha hv hc
        rcases hcases hl with ⟨hold, htake⟩ | ⟨_, hfresh⟩
        · rw [htake]
          exact hs.acked_claim hold hlt ha hv hc
        · exact absurd ha (hfresh w)
      claim_log := by
        intro c T U N L hl hlt hc hU hnone hpre
        rcases hcases hl with ⟨hold, htake⟩ | ⟨hN, _⟩
        · rw [htake] at hpre ⊢
          have hcv : c ≠ v := by
            intro hcv
            have hnone' : α.leader U = none := hnone
            have hU' : α.term c = U := hU
            rw [← hU', hcv, hlead] at hnone'
            cases hnone'
          rw [LogState.extendLog_log, if_neg hcv]
          exact hs.claim_log hold hlt hc hU hnone hpre
        · -- the claim was made before the new entry existed
          exfalso
          rcases own_entry hl.1 hpre with ⟨k, d, hk, hd, hdT⟩
          have hle := ((hs.claim_coherent hc) k d hd).length_le
          have hlen := (List.getElem?_eq_some_iff.mp hd).1
          rw [hdT, List.length_take] at hle
          omega
      leader_complete := by
        intro c T U N hl hlt hU
        rcases hcases hl with ⟨hold, htake⟩ | ⟨_, hfresh⟩
        · rw [htake]
          exact hs.leader_complete hold hlt hU
        · exact (no_later_leader hb' hl hfresh hlt hU).elim }

/-- Replacing a log by what a leader sent or a committed prefix: all that is
needed is that the offer is coherent and comparable with every live prefix the
log has to keep. -/
private theorem setLog_keep (hb : M.Ballots α) (hs : M.Safe α) {L : List E}
    (hstep : M.Step v α (α.setLog v (keep L (α.log v))))
    (hL : M.Coherent α L)
    (hacked : forall {T N}, M.Live α T N -> α.acked v T N ->
      (α.leaderLog T).take N <+: L ∨ L <+: (α.leaderLog T).take N)
    (hclaim : forall {T N}, α.leader (α.term v) = none -> M.Live α T N ->
      (α.leaderLog T).take N <+: L ∨ L <+: (α.leaderLog T).take N) :
    M.Safe (α.setLog v (keep L (α.log v))) := by
  have hback : forall {T N}, M.Live (α.setLog v (keep L (α.log v))) T N ->
      M.Live α T N :=
    fun hl => live_same (hstep.grows hb) hstep rfl hl
  exact
    { log_coherent := by
        intro u
        rw [LogState.setLog_log]
        by_cases hu : u = v
        · rw [if_pos hu]
          rcases keep_eq_or L (α.log v) with hkeep | hkeep
          · rw [hkeep]
            exact hs.log_coherent v
          · rw [hkeep]
            exact hL
        · rw [if_neg hu]
          exact hs.log_coherent u
      claim_coherent := hs.claim_coherent
      leaderLog_coherent := hs.leaderLog_coherent
      acked_term := hs.acked_term
      acked_length := hs.acked_length
      acked_log := by
        intro u T N hl ha
        have hpre := hs.acked_log (hback hl) ha
        rw [LogState.setLog_log]
        by_cases hu : u = v
        · rw [if_pos hu]
          rw [hu] at hpre ha
          exact prefix_keep hpre (hacked (hback hl) ha)
        · rw [if_neg hu]
          exact hpre
      acked_claim := fun hl => hs.acked_claim (hback hl)
      claim_log := by
        intro c T U N K hl hlt hc hU hnone hpre
        have hold := hs.claim_log (hback hl) hlt hc hU hnone hpre
        rw [LogState.setLog_log]
        by_cases hcv : c = v
        · rw [if_pos hcv]
          rw [hcv] at hold hU
          have hnone' : α.leader (α.term v) = none := by
            rw [show α.term v = U from hU]
            exact hnone
          exact prefix_keep hold (hclaim hnone' (hback hl))
        · rw [if_neg hcv]
          exact hold
      leader_complete := fun hl => hs.leader_complete (hback hl) }

private theorem acknowledge (hb : M.Ballots α) (hs : M.Safe α) {c : S} {N : Nat}
    (hlead : α.leader (α.term v) = some c)
    (hN : N ≤ (α.leaderLog (α.term v)).length)
    (hpre : (α.leaderLog (α.term v)).take N <+: α.log v) :
    M.Safe (α.addAck v (α.term v) N) := by
  have hstep : M.Step v α (α.addAck v (α.term v) N) :=
    Step.acknowledge hlead hN hpre
  have hback : forall {T K}, M.Live (α.addAck v (α.term v) N) T K -> M.Live α T K :=
    fun hl => live_same (hstep.grows hb) hstep rfl hl
  exact
    { log_coherent := hs.log_coherent
      claim_coherent := hs.claim_coherent
      leaderLog_coherent := hs.leaderLog_coherent
      acked_term := by
        intro u T K ha
        rcases ha with hold | ⟨hu, hT, _⟩
        · exact hs.acked_term hold
        · rw [hu, hT]
          exact le_refl _
      acked_length := by
        intro u T K ha
        rcases ha with hold | ⟨_, hT, hK⟩
        · exact hs.acked_length hold
        · rw [hT, hK]
          exact hN
      acked_log := by
        intro u T K hl ha
        rcases ha with hold | ⟨hu, hT, hK⟩
        · exact hs.acked_log (hback hl) hold
        · rw [hu, hT, hK]
          exact hpre
      acked_claim := by
        intro w d T U K L hl hlt ha hv hc
        rcases ha with hold | ⟨hw, hT, _⟩
        · exact hs.acked_claim (hback hl) hlt hold hv hc
        · -- a server that votes in a later term no longer acknowledges
          rw [hT, ← hw] at hlt
          exact absurd (hlt.trans_le (hb.vote_term hv)) (lt_irrefl _)
      claim_log := fun hl => hs.claim_log (hback hl)
      leader_complete := fun hl => hs.leader_complete (hback hl) }

theorem step (hb : M.Ballots α) (hs : M.Safe α) (hstep : M.Step v α β) :
    M.Safe β := by
  cases hstep with
  | learn ht => exact hs.learn hb ht
  | stand ht => exact hs.stand hb ht
  | grant hnone hclaim hup => exact hs.grant hb hnone hclaim hup
  | win hnone hQ hvote => exact hs.win hb hnone hQ hvote
  | extend hlead hlog hterm => exact hs.extend hb hlead hlog hterm
  | adopt hlead hbase hpre =>
      refine hs.setLog_keep hb (Step.adopt hlead hbase hpre)
        ((hs.leaderLog_coherent _).of_isPrefix hpre) ?_ ?_
      · intro T N hl ha
        exact hs.live_comparable_leaderLog hb hl (hs.acked_term ha) hlead hpre
      · intro T N hnone _
        rw [hlead] at hnone
        cases hnone
  | acknowledge hlead hN hpre => exact hs.acknowledge hb hlead hN hpre
  | install hL =>
      refine hs.setLog_keep hb (Step.install hL) ?_ ?_ ?_
      · rcases Ballots.committed_prefix hL with hnil | ⟨T, _, hpre⟩
        · rw [hnil]
          intro i e he
          cases he
        · exact (hs.leaderLog_coherent T).of_isPrefix hpre
      · exact fun hl _ => hs.live_comparable_committed hb hl hL
      · exact fun _ hl => hs.live_comparable_committed hb hl hL

/-!
# Consequences
-/

/-- Committed prefixes never disagree, wherever and whenever they were read. -/
theorem committed_comparable (hb : M.Ballots α) (hs : M.Safe α) {L K : List E}
    {s t : τ} (hL : M.Committed α L s) (hK : M.Committed α K t) :
    L <+: K ∨ K <+: L := by
  rcases hK with hnil | ⟨T, N, _, hset, hpre⟩
  · rw [hnil]
    exact Or.inr List.nil_prefix
  · rcases hs.live_comparable_committed hb hset.live hL with h | h
    · exact Or.inr (hpre.trans h)
    · exact List.prefix_or_prefix_of_prefix h hpre

/-- A committed prefix of a server's own log survives what it adopts. -/
theorem committed_keep (hb : M.Ballots α) (hs : M.Safe α) {K L : List E} {c : S}
    {t : τ} (hK : M.Committed α K t) (hKv : K <+: α.log v)
    (ht : t ≤ α.term v) (hlead : α.leader (α.term v) = some c)
    (hpre : L <+: α.leaderLog (α.term v)) : K <+: keep L (α.log v) := by
  rcases hK with hnil | ⟨T, N, hT, hset, hKT⟩
  · rw [hnil]
    exact List.nil_prefix
  · apply prefix_keep hKv
    rcases hs.live_comparable_leaderLog hb hset.live (hT.trans ht) hlead hpre with h | h
    · exact Or.inl (hKT.trans h)
    · exact List.prefix_or_prefix_of_prefix hKT h

theorem committed_keep_committed (hb : M.Ballots α) (hs : M.Safe α) {K L : List E}
    {s t : τ} (hK : M.Committed α K t) (hKv : K <+: α.log v)
    (hL : M.Committed α L s) : K <+: keep L (α.log v) :=
  prefix_keep hKv (hs.committed_comparable hb hK hL)

end Safe
end LogSystem
end Foundation
end KVRaft
