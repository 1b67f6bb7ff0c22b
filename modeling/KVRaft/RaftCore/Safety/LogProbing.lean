import KVRaft.RaftCore.Raft.Consecutive
import KVRaft.RaftCore.Safety.NextIndex

/-!
# Probing a follower's log

A leader and one follower whose messages arrive and who are left alone otherwise:
heartbeat, `AppendEntries1` and the handling of the reply, over and over.  A hint
for a follower that is too short is one more than a term where an index is meant.
-/

namespace KVRaft
namespace RaftCore

open Foundation

section

variable {n : Nat} [Archive]

/-- How one round of probing ends. -/
inductive RoundEnd (n : Nat) where
  | snapShot
  | accepted (leader follower : Raft n)
  | rejected (prevLogIndex hint : Int) (leader follower : Raft n)

/-- The previous index and the hint of a rejection. -/
def RoundEnd.refusal : RoundEnd n -> Option (Int × Int)
  | .rejected prevLogIndex hint _ _ => some (prevLogIndex, hint)
  | _ => none

/-- One heartbeat to the follower `server`, up to the handling of its reply. -/
def probeRound (server : Fin n) (leader follower : Raft n) : Outcome (RoundEnd n) := do
  match <- leader.heartBeatTo server with
  | .snapShot _ => return .snapShot
  | .appendEntries server args =>
      let (follower, reply) <- follower.appendEntries1 args
      let (leader, _) <- leader.sendAppendEntries server args reply 1
      if reply.success then
        return .accepted leader follower
      else
        return .rejected args.prevLogIndex reply.updateNextIndex leader follower

/-- After finitely many rounds the follower accepts or is sent a snapshot, and every
rejection before carries a hint between 1 and the previous index. -/
inductive Probes (server : Fin n) : Raft n -> Raft n -> Prop where
  | snapShot {leader follower : Raft n} :
      probeRound server leader follower = .ok .snapShot -> Probes server leader follower
  | accepted {leader follower leader' follower' : Raft n} :
      probeRound server leader follower = .ok (.accepted leader' follower') ->
      Probes server leader follower
  | rejected {leader follower leader' follower' : Raft n} {prevLogIndex hint : Int} :
      probeRound server leader follower =
        .ok (.rejected prevLogIndex hint leader' follower') ->
      1 ≤ hint -> hint ≤ prevLogIndex ->
      leader'.nextIndex server < leader.nextIndex server ->
      Probes server leader' follower' -> Probes server leader follower

/-- A leader with log `L` and a follower with log `K` that agree up to the follower's
snapshot, in states that pass the assertions of the source. -/
structure ProbePair (server : Fin n) (leader follower : Raft n) (L K : List LogEntry)
    (s u : Nat) : Prop where
  leads : leader.status = .leader
  term : follower.currentTerm ≤ leader.currentTerm
  leaderLog : Holds leader L s
  followerLog : Holds follower K u
  reaches : u ≤ L.length
  snapshot : L.take u = K.take u
  next : 1 ≤ leader.nextIndex server ∧ leader.nextIndex server ≤ L.length + 1
  agree : Agree K L
  matched : leader.matchIndex server ≤ L.length
  leaderCommit : leader.commitIndex ≤ L.length
  followerCommit : follower.commitIndex ≤ K.length

/-- The first request meets the follower's log behind its snapshot, or the follower
is too short and one more than its last term leads there, or a snapshot is sent. -/
def HintLeadsBack (server : Fin n) (leader follower : Raft n) : Prop :=
  let prevLogIndex := leader.nextIndex server - 1
  leader.nextIndex server ≤ leader.lastSnapshotIncludeIndex ∨
    (follower.lastSnapshotIncludeIndex ≤ prevLogIndex ∧
      prevLogIndex ≤ follower.getLastLogIndex) ∨
    (follower.getLastLogIndex < prevLogIndex ∧ follower.getLastLogTerm < prevLogIndex ∧
      (follower.getLastLogTerm < leader.lastSnapshotIncludeIndex ∨
        (follower.lastSnapshotIncludeIndex ≤ follower.getLastLogTerm ∧
          follower.getLastLogTerm ≤ follower.getLastLogIndex)))

instance (server : Fin n) (leader follower : Raft n) :
    Decidable (HintLeadsBack server leader follower) := by
  unfold HintLeadsBack
  infer_instance

namespace Raft

theorem appendEntries1_appState {rf rf' : Raft n} {args : AppendEntriesArgs}
    {reply : AppendEntriesReply} (h : rf.appendEntries1 args = .ok (rf', reply)) :
    reply.appState = appNormal := by
  unfold appendEntries1 at h
  by_cases hlt : args.term < rf.currentTerm
  · simp only [if_pos hlt] at h
    cases h
    rfl
  simp only [if_neg hlt] at h
  rcases bind_eq_ok.mp h with ⟨_, _, h⟩
  by_cases hnew : args.prevLogIndex > (rf.follow args.term).getLastLogIndex
  · rw [if_pos hnew] at h
    cases h
    rfl
  rw [if_neg hnew] at h
  rcases bind_eq_ok.mp h with ⟨matched, hmatch, h⟩
  cases matched with
  | true =>
      rcases bind_eq_ok.mp h with ⟨rf1, hfold, h⟩
      rcases bind_eq_ok.mp h with ⟨_, _, h⟩
      rcases bind_eq_ok.mp h with ⟨_, _, h⟩
      cases h
      by_cases hold : args.prevLogIndex < (rf.follow args.term).lastSnapshotIncludeIndex
      · simp only [if_pos hold]
      · simp only [if_neg hold]
  | false =>
      rcases bind_eq_ok.mp h with ⟨hint, _, h⟩
      cases h
      by_cases hold : args.prevLogIndex < (rf.follow args.term).lastSnapshotIncludeIndex
      · simp only [if_pos hold]
      · simp only [if_neg hold]

end Raft

theorem not_probes_of_error {server : Fin n} {leader follower : Raft n} {fault : Fault}
    (h : probeRound server leader follower = .error fault) :
    ¬ Probes server leader follower := by
  intro hprobes
  cases hprobes with
  | snapShot hround =>
      rw [h] at hround
      cases hround
  | accepted hround =>
      rw [h] at hround
      cases hround
  | rejected hround _ _ _ _ =>
      rw [h] at hround
      cases hround

omit [Archive] in
theorem Numbered.termAt_nonneg {L : List LogEntry} (h : Numbered L) (k : Nat) :
    0 ≤ termAt L k := by
  cases k with
  | zero => exact le_refl 0
  | succ k =>
      rcases Nat.lt_or_ge k L.length with hk | hk
      · exact le_trans (by decide) (h.termAt_pos hk)
      · simp only [termAt, List.getElem?_eq_none hk]
        exact le_refl 0

namespace ProbePair

variable {server : Fin n} {leader follower : Raft n} {L K : List LogEntry} {s u p : Nat}

theorem probeRound_snapShot (h : ProbePair server leader follower L K s u)
    (hnext : leader.nextIndex server ≤ s) :
    probeRound server leader follower = .ok .snapShot := by
  unfold probeRound
  rw [h.leaderLog.heartBeatTo_snapShot h.next.1 hnext]
  rfl

/-- A request for an index below the follower's snapshot brings the follower down. -/
theorem probeRound_below (h : ProbePair server leader follower L K s u)
    (hnext : leader.nextIndex server = p + 1) (hs : s ≤ p) (hbelow : p < u) :
    exists fault, probeRound server leader follower = .error fault := by
  have hp : p ≤ L.length := by
    have := h.reaches
    omega
  cases hrun : follower.appendEntries1 (leader.appendArgs L p) with
  | error fault =>
      refine ⟨fault, ?_⟩
      unfold probeRound
      rw [h.leaderLog.heartBeatTo_append hnext hs hp]
      simp only [bind, Except.bind, hrun]
  | ok result =>
      have hruns := (h.followerLog.appendEntries1 h.followerCommit hp h.leaderLog.numbered
        h.agree rfl rfl).mp ⟨result, hrun⟩
      rw [h.followerLog.index] at hruns
      have hterm := h.term
      simp only [Raft.appendArgs] at hruns
      omega

omit [Archive] in
/-- No assertion of the leader fails on a success. -/
theorem reply_in_range (h : ProbePair server leader follower L K s u) (hp : p ≤ L.length)
    (hfault : leader.getLastLogIndex + 1 <
        (leader.recordMatch server (leader.appendArgs L p)).nextIndex server ∨
      leader.getLastLogIndex <
        ((leader.recordMatch server (leader.appendArgs L p)).commitSent
          (leader.appendArgs L p)).commitIndex) : False := by
  have hlast := h.leaderLog.lastIndex
  have hend : (leader.appendArgs L p).prevLogIndex +
      (leader.appendArgs L p).entriesSize = L.length := by
    simp only [Raft.appendArgs, AppendEntriesArgs.entriesSize, List.length_drop]
    omega
  rcases hfault with hnext | hcommit
  · have hmatched := h.matched
    simp only [Raft.recordMatch, Function.update_self, hend, max_eq_right hmatched] at hnext
    omega
  · have hbefore : (leader.recordMatch server (leader.appendArgs L p)).commitIndex ≤
        L.length := h.leaderCommit
    rcases Raft.commitSent_cases (leader.recordMatch server (leader.appendArgs L p))
      (leader.appendArgs L p) with hsame | ⟨_, hraise⟩
    · rw [hsame] at hcommit
      omega
    · rw [hraise] at hcommit
      simp only [hend, max_eq_right hbefore] at hcommit
      omega

/-- The leader's request is answered, and a rejection sets the next index. -/
theorem probeRound_answered (h : ProbePair server leader follower L K s u)
    (hnext : leader.nextIndex server = p + 1) (hs : s ≤ p) (hu : u ≤ p) :
    exists follower' reply,
      follower.appendEntries1 (leader.appendArgs L p) = .ok (follower', reply) ∧
        (reply.success = true -> exists leader',
          probeRound server leader follower = .ok (.accepted leader' follower')) ∧
        (reply.success = false -> reply.term = leader.currentTerm ->
          1 ≤ reply.updateNextIndex ->
          probeRound server leader follower =
            .ok (.rejected p reply.updateNextIndex
              { leader with
                nextIndex :=
                  Function.update leader.nextIndex server reply.updateNextIndex }
              follower')) := by
  have hp : p ≤ L.length := by
    have := h.next.2
    omega
  have hlow : follower.lastSnapshotIncludeIndex ≤ (leader.appendArgs L p).prevLogIndex := by
    rw [h.followerLog.index]
    exact Int.ofNat_le.mpr hu
  rcases (h.followerLog.appendEntries1 h.followerCommit hp h.leaderLog.numbered
    h.agree rfl rfl).mpr (Or.inr hlow) with ⟨⟨follower', reply⟩, hrun⟩
  refine ⟨follower', reply, hrun, ?_, ?_⟩
  · intro hyes
    cases hsend : leader.sendAppendEntries server (leader.appendArgs L p) reply 1 with
    | error fault =>
        exfalso
        rcases Raft.sendAppendEntries_fault hsend with ⟨_, _, _, hfault⟩
        exact h.reply_in_range hp hfault
    | ok result =>
        refine ⟨result.1, ?_⟩
        unfold probeRound
        rw [h.leaderLog.heartBeatTo_append hnext hs hp]
        simp only [bind, Except.bind, hrun, hsend, if_pos hyes]
        rfl
  · intro hno hterm hhint
    have hup : reply.appState ≠ disconnected := by
      rw [Raft.appendEntries1_appState hrun]
      decide
    have hmark : reply.updateNextIndex ≠ -100 := by omega
    have hsend := Raft.sendAppendEntries_hinted hup h.leads hterm hno hmark server
      (leader.appendArgs L p) 1
    unfold probeRound
    rw [h.leaderLog.heartBeatTo_append hnext hs hp]
    simp only [bind, Except.bind, hrun, hsend, hno]
    rfl

/-- After a rejection only the next index and the follower's term are new. -/
theorem hinted (h : ProbePair server leader follower L K s u) (hint : Int)
    (hlo : 1 ≤ hint) (hhi : hint ≤ L.length + 1) :
    ProbePair server
      { leader with nextIndex := Function.update leader.nextIndex server hint }
      (follower.follow leader.currentTerm).persist L K s u where
  leads := h.leads
  term := (Raft.follow_currentTerm h.term).le
  leaderLog := h.leaderLog.congr rfl rfl rfl
  followerLog := (h.followerLog.follow leader.currentTerm).congr rfl rfl rfl
  reaches := h.reaches
  snapshot := h.snapshot
  next := by
    simp only [Function.update_self]
    exact ⟨hlo, hhi⟩
  agree := h.agree
  matched := h.matched
  leaderCommit := h.leaderCommit
  followerCommit := by
    rw [Raft.persist_commitIndex, Raft.follow_commitIndex]
    exact h.followerCommit

/-- A follower that is too short answers with one more than its last term. -/
theorem probeRound_tooNew (h : ProbePair server leader follower L K s u)
    (hnext : leader.nextIndex server = p + 1) (hs : s ≤ p) (hlong : K.length < p) :
    probeRound server leader follower =
      .ok (.rejected p (termAt K K.length + 1)
        { leader with
          nextIndex :=
            Function.update leader.nextIndex server (termAt K K.length + 1) }
        (follower.follow leader.currentTerm).persist) := by
  have hu : u ≤ p := by
    have := h.followerLog.le
    omega
  rcases h.probeRound_answered hnext hs hu with ⟨follower', reply, hrun, _, hno⟩
  have hpos := h.followerLog.numbered.termAt_nonneg K.length
  cases Raft.appendEntries1_effect hrun with
  | stale hlt _ _ => exact absurd h.term (not_le.mpr hlt)
  | tooNew _ _ hfail hterm hhint =>
      rw [h.followerLog.lastTerm] at hhint
      rw [← hhint]
      exact hno hfail hterm (by omega)
  | mismatch _ hmatch _ _ _ =>
      have hle := matchLog_le hmatch
      rw [h.followerLog.lastIndex] at hle
      simp only [Raft.appendArgs] at hle
      omega
  | accepted _ hmatch _ _ _ _ =>
      have hle := matchLog_le hmatch
      rw [h.followerLog.lastIndex] at hle
      simp only [Raft.appendArgs] at hle
      omega

/-- Inside the follower's log the hint stays behind its snapshot. -/
theorem probeRound_within (h : ProbePair server leader follower L K s u)
    (hnext : leader.nextIndex server = p + 1) (hs : s ≤ p) (hu : u ≤ p)
    (hin : p ≤ K.length) :
    (exists leader' follower',
      probeRound server leader follower = .ok (.accepted leader' follower')) ∨
    exists hint : Nat, u < hint ∧ hint ≤ p ∧
      probeRound server leader follower =
        .ok (.rejected p hint
          { leader with nextIndex := Function.update leader.nextIndex server hint }
          (follower.follow leader.currentTerm).persist) := by
  rcases h.probeRound_answered hnext hs hu with ⟨follower', reply, hrun, hyes, hno⟩
  cases Raft.appendEntries1_effect hrun with
  | stale hlt _ _ => exact absurd h.term (not_le.mpr hlt)
  | tooNew _ hnew _ _ _ =>
      rw [h.followerLog.lastIndex] at hnew
      simp only [Raft.appendArgs] at hnew
      omega
  | mismatch _ hmatch hhint hfail hterm =>
      right
      have hne : p ≠ u := by
        rintro rfl
        rcases h.followerLog.matchLog_inv hmatch with ⟨k, hk, _, _, heq⟩
        have hkp : k = p := by
          simp only [Raft.appendArgs] at hk
          omega
        have hsame : termAt L p = termAt K p := by
          rw [← termAt_take (Nat.le_refl p), h.snapshot, termAt_take (Nat.le_refl p)]
        rw [hkp] at heq
        exact absurd (heq.mpr hsame) (by decide)
      have hrange := h.followerLog.conflictHint_inv (le_refl (p : Int)) hhint
      have hlo : (u : Int) < reply.updateNextIndex ∧ reply.updateNextIndex ≤ p := by
        omega
      obtain ⟨hint, heq⟩ : exists hint : Nat, reply.updateNextIndex = hint :=
        ⟨reply.updateNextIndex.toNat, by omega⟩
      refine ⟨hint, by omega, by omega, ?_⟩
      rw [← heq]
      exact hno hfail hterm (by omega)
  | accepted _ _ _ _ hsuccess _ =>
      rcases hyes hsuccess with ⟨leader', hround⟩
      exact Or.inl ⟨leader', _, hround⟩

/-- From a request that meets the follower's log every rejection leads further back,
never behind the follower's snapshot. -/
theorem probes_within (h : ProbePair server leader follower L K s u)
    (hnext : leader.nextIndex server = p + 1) (hu : u ≤ p) (hin : p ≤ K.length) :
    Probes server leader follower := by
  induction p using Nat.strong_induction_on generalizing leader follower with
  | _ p ih =>
      by_cases hs : s ≤ p
      · rcases h.probeRound_within hnext hs hu hin with
          ⟨leader', follower', hround⟩ | ⟨hint, hlo, hhi, hround⟩
        · exact .accepted hround
        · have hreach := h.next.2
          have hnext' : Function.update leader.nextIndex server (hint : Int) server =
              ((hint - 1 : Nat) : Int) + 1 := by
            rw [Function.update_self]
            omega
          have hback := h.hinted hint (by omega) (by omega)
          refine .rejected hround (by omega) (by omega) ?_
            (ih (hint - 1) (by omega) hback hnext' (by omega) (by omega))
          simp only [Function.update_self]
          omega
      · exact .snapShot (h.probeRound_snapShot (by omega))

/-- A request for the index that is the follower's last term has to meet its log: it
brings the follower down below its snapshot and is refused without end behind its log. -/
theorem probes_lastTerm (h : ProbePair server leader follower L K s u)
    (hlast : termAt K K.length = p) (hnext : leader.nextIndex server = p + 1) (hs : s ≤ p)
    (hprobes : Probes server leader follower) : u ≤ p ∧ p ≤ K.length := by
  constructor
  · by_contra hbelow
    rcases h.probeRound_below hnext hs (not_le.mp hbelow) with ⟨fault, hround⟩
    exact not_probes_of_error hround hprobes
  · by_contra hbehind
    have hround := h.probeRound_tooNew hnext hs (not_le.mp hbehind)
    rw [hlast] at hround
    cases hprobes with
    | snapShot hround' =>
        rw [hround] at hround'
        cases hround'
    | accepted hround' =>
        rw [hround] at hround'
        cases hround'
    | rejected hround' _ hle _ _ =>
        rw [hround] at hround'
        cases hround'
        omega

/-- Probing that starts behind the follower's log: after the first rejection the
request is for the follower's last term. -/
theorem probes_tooNew_iff (h : ProbePair server leader follower L K s u)
    (hnext : leader.nextIndex server = p + 1) (hs : s ≤ p) (hlong : K.length < p) :
    Probes server leader follower <->
      termAt K K.length < p ∧
        (termAt K K.length < s ∨
          ((u : Int) ≤ termAt K K.length ∧ termAt K K.length ≤ K.length)) := by
  obtain ⟨t, ht⟩ : exists t : Nat, termAt K K.length = t :=
    ⟨(termAt K K.length).toNat, by
      have := h.followerLog.numbered.termAt_nonneg K.length
      omega⟩
  have hround := h.probeRound_tooNew hnext hs hlong
  have hreach := h.next.2
  rw [ht] at hround ⊢
  have hnext' : Function.update leader.nextIndex server ((t : Int) + 1) server = t + 1 :=
    Function.update_self ..
  constructor
  · intro hprobes
    cases hprobes with
    | snapShot hround' =>
        rw [hround] at hround'
        cases hround'
    | accepted hround' =>
        rw [hround] at hround'
        cases hround'
    | rejected hround' _ hle _ hrest =>
        rw [hround] at hround'
        cases hround'
        have hback := h.hinted ((t : Int) + 1) (by omega) (by omega)
        refine ⟨by omega, ?_⟩
        by_cases hst : s ≤ t
        · have hmeets := hback.probes_lastTerm ht hnext' hst hrest
          exact Or.inr ⟨by omega, by omega⟩
        · exact Or.inl (by omega)
  · rintro ⟨hless, hcase⟩
    have hback := h.hinted ((t : Int) + 1) (by omega) (by omega)
    refine .rejected hround (by omega) (by omega) ?_ ?_
    · simp only [Function.update_self]
      omega
    · rcases hcase with hsnap | ⟨hlo, hhi⟩
      · exact .snapShot (hback.probeRound_snapShot (hnext'.le.trans (by omega)))
      · exact hback.probes_within hnext' (by omega) (by omega)

end ProbePair

/-- Probing ends as it should exactly when the first hint leads back. -/
theorem probing_terminates_iff {server : Fin n} {leader follower : Raft n}
    {L K : List LogEntry} {s u : Nat} (h : ProbePair server leader follower L K s u) :
    Probes server leader follower <-> HintLeadsBack server leader follower := by
  obtain ⟨p, hnext⟩ : exists p : Nat, leader.nextIndex server = p + 1 :=
    ⟨(leader.nextIndex server - 1).toNat, by
      have := h.next.1
      omega⟩
  have hprev : leader.nextIndex server - 1 = p := by omega
  unfold HintLeadsBack
  simp only [hprev, h.leaderLog.index, h.followerLog.index, h.followerLog.lastIndex,
    h.followerLog.lastTerm]
  rcases Nat.lt_or_ge p s with hps | hs
  · exact iff_of_true (.snapShot (h.probeRound_snapShot (by omega))) (Or.inl (by omega))
  rcases Nat.lt_or_ge K.length p with hlong | hin
  · have hmiss : ¬ (p : Int) ≤ K.length := by omega
    have hreaches : (K.length : Int) < p := by omega
    rw [h.probes_tooNew_iff hnext hs hlong]
    constructor
    · exact fun hback => Or.inr (Or.inr ⟨hreaches, hback⟩)
    · rintro (hsnap | hmeets | hback)
      · omega
      · exact absurd hmeets.2 hmiss
      · exact hback.2
  rcases Nat.lt_or_ge p u with hbelow | hu
  · rcases h.probeRound_below hnext hs hbelow with ⟨fault, hround⟩
    refine iff_of_false (not_probes_of_error hround) ?_
    rintro (hsnap | hmeets | hback)
    · omega
    · omega
    · omega
  · exact iff_of_true (h.probes_within hnext hu hin) (Or.inr (Or.inl ⟨by omega, by omega⟩))

end

/-!
# Servers without a snapshot
-/

section

variable {n : Nat}

theorem Holds.of_consecutive {rf : Raft n} (hlogs : Consecutive 1 rf.logs)
    (hterms : forall log, log ∈ rf.logs -> 1 ≤ log.logTerm)
    (hindex : rf.lastSnapshotIncludeIndex = 0) (hterm : rf.lastSnapshotIncludeTerm = 0) :
    Holds rf rf.logs 0 where
  le := Nat.zero_le _
  index := hindex
  term := hterm
  logs := rfl
  numbered := by
    intro k log hlog
    have hplace := consecutive_iff.mp hlogs k log hlog
    exact ⟨by omega, hterms log (List.mem_of_getElem? hlog)⟩

theorem Agree.of_consecutive {L K : List LogEntry} (hL : Consecutive 1 L)
    (hK : Consecutive 1 K)
    (h : forall d, d ∈ L -> forall e, e ∈ K -> d.logIndex = e.logIndex ->
      d.logTerm = e.logTerm -> d = e) : Agree L K := by
  intro k d e hd he hterm
  have hindex : d.logIndex = e.logIndex := by
    rw [consecutive_iff.mp hL k d hd, consecutive_iff.mp hK k e he]
  exact h d (List.mem_of_getElem? hd) e (List.mem_of_getElem? he) hindex hterm

/-- Two servers without a snapshot, by what can be checked of them. -/
theorem ProbePair.of_consecutive {server : Fin n} {leader follower : Raft n}
    (hleads : leader.status = .leader) (hterm : follower.currentTerm ≤ leader.currentTerm)
    (hsnapshots : (leader.lastSnapshotIncludeIndex = 0 ∧ leader.lastSnapshotIncludeTerm = 0) ∧
      follower.lastSnapshotIncludeIndex = 0 ∧ follower.lastSnapshotIncludeTerm = 0)
    (hlogs : Consecutive 1 leader.logs ∧ Consecutive 1 follower.logs)
    (hterms : (forall log, log ∈ leader.logs -> 1 ≤ log.logTerm) ∧
      forall log, log ∈ follower.logs -> 1 ≤ log.logTerm)
    (hsame : forall d, d ∈ follower.logs -> forall e, e ∈ leader.logs ->
      d.logIndex = e.logIndex -> d.logTerm = e.logTerm -> d = e)
    (hnext : 1 ≤ leader.nextIndex server ∧ leader.nextIndex server ≤ leader.logs.length + 1)
    (hbounds : leader.matchIndex server ≤ leader.logs.length ∧
      leader.commitIndex ≤ leader.logs.length ∧
      follower.commitIndex ≤ follower.logs.length) :
    ProbePair server leader follower leader.logs follower.logs 0 0 where
  leads := hleads
  term := hterm
  leaderLog := .of_consecutive hlogs.1 hterms.1 hsnapshots.1.1 hsnapshots.1.2
  followerLog := .of_consecutive hlogs.2 hterms.2 hsnapshots.2.1 hsnapshots.2.2
  reaches := Nat.zero_le _
  snapshot := rfl
  next := hnext
  agree := .of_consecutive hlogs.2 hlogs.1 hsame
  matched := hbounds.1
  leaderCommit := hbounds.2.1
  followerCommit := hbounds.2.2

end

/-- Server 0 leads term 7 with two entries, the second of which server 1 lacks: the
hint is one more than the term 5 of the first. -/
theorem lowTermRun_probing_fails :
    ProbePair 1 (lowTermRun.state.raft 0) (lowTermRun.state.raft 1)
      (lowTermRun.state.raft 0).logs (lowTermRun.state.raft 1).logs 0 0 ∧
    ¬ @Probes 2 plainArchive 1 (lowTermRun.state.raft 0) (lowTermRun.state.raft 1) := by
  constructor
  · exact .of_consecutive (by decide +kernel) (by decide +kernel) (by decide +kernel)
      (by decide +kernel) (by decide +kernel) (by decide +kernel) (by decide +kernel)
      (by decide +kernel)
  · intro hprobes
    have hrefused : (@probeRound 2 plainArchive 1 (lowTermRun.state.raft 0)
        (lowTermRun.state.raft 1)).map RoundEnd.refusal = .ok (some (2, 6)) := by
      decide +kernel
    cases hprobes with
    | snapShot hround =>
        rw [hround] at hrefused
        cases hrefused
    | accepted hround =>
        rw [hround] at hrefused
        cases hrefused
    | rejected hround _ hle _ _ =>
        rw [hround] at hrefused
        cases hrefused
        exact absurd hle (by decide)

/-- A leader and a follower whose second entries are of different terms. -/
def probingLeader : Raft 2 :=
  { Raft.blank 0 (Persister.create [] []) with
    currentTerm := 3
    status := .leader
    nextIndex := fun _ => 4
    logs :=
      [{ command := [1], logTerm := 1, logIndex := 1 },
        { command := [2], logTerm := 2, logIndex := 2 },
        { command := [2], logTerm := 2, logIndex := 3 }] }

def probedFollower : Raft 2 :=
  { Raft.blank 1 (Persister.create [] []) with
    currentTerm := 1
    logs :=
      [{ command := [1], logTerm := 1, logIndex := 1 },
        { command := [3], logTerm := 1, logIndex := 2 }] }

theorem probedFollower_probing_ends :
    @Probes 2 plainArchive 1 probingLeader probedFollower := by
  have hpair : ProbePair 1 probingLeader probedFollower probingLeader.logs
      probedFollower.logs 0 0 :=
    .of_consecutive (by decide) (by decide) (by decide) (by decide) (by decide) (by decide)
      (by decide) (by decide)
  exact (@probing_terminates_iff 2 plainArchive 1 _ _ _ _ _ _ hpair).mpr (by decide +kernel)

end RaftCore
end KVRaft
