import KVRaft.Foundation.ReplicatedLog.Paths
import KVRaft.RaftCore.Raft.FullLog

/-!
# A node in the replicated-log protocol

How a node represents its share of the abstract protocol state, and which
abstract steps its handlers take.  The abstract log is the complete one; the
node holds it compacted.
-/

namespace KVRaft
namespace RaftCore

open Foundation LogSystem

/-- The replicated-log protocol the repository implements. -/
def raftLogs (n : Nat) : LogSystem (Fin n) LogEntry Int where
  quorums := majority (Fin n)
  termOf := LogEntry.logTerm

abbrev Logs (n : Nat) := LogState (Fin n) LogEntry Int

/-- The value of `m_votedFor` for a ballot. -/
def ballotOf {n : Nat} : Option (Fin n) -> Int
  | none => -1
  | some c => ((c : Nat) : Int)

structure Represents {n : Nat} (α : Logs n) (v : Fin n) (rf : Raft n) : Prop where
  me : rf.me = v
  term : rf.currentTerm = α.term v
  term_nonneg : 0 ≤ rf.currentTerm
  votedFor : rf.votedFor = ballotOf (α.vote v rf.currentTerm)
  held : exists s : Nat, Holds rf (α.log v) s ∧ (s : Int) ≤ rf.lastApplied
  applied : rf.lastApplied ≤ rf.commitIndex
  commit : rf.commitIndex ≤ (α.log v).length
  leads : rf.status = .leader ->
    1 ≤ rf.currentTerm ∧ α.leader rf.currentTerm = some v ∧
      α.log v = α.leaderLog rf.currentTerm

/-- A vote request states the last entry its sender stood with. -/
structure VoteRequest {n : Nat} (α : Logs n) (caller : Fin n) (args : RequestVoteArgs) :
    Prop where
  candidate : args.candidateId = (caller : Nat)
  positive : 1 ≤ args.term
  claim : exists L, α.claim args.term caller = some L ∧
    args.lastLogIndex = L.length ∧ args.lastLogTerm = termAt L L.length

/-- An append request sends the part after index `p` of a log `M` its leader has
built, all of what it was elected with included. -/
structure AppendRequest {n : Nat} (α : Logs n) (caller : Fin n) (args : AppendEntriesArgs)
    (M : List LogEntry) (p : Nat) : Prop where
  leader : α.leader args.term = some caller
  base : α.base args.term <+: M
  log : M <+: α.leaderLog args.term
  numbered : Numbered M
  le : p ≤ M.length
  prevLogIndex : args.prevLogIndex = p
  prevLogTerm : args.prevLogTerm = termAt M p
  entries : args.entries = M.drop p

/-- A snapshot request covers a log whose entries sit at their place. -/
structure SnapshotRequest {n : Nat} (α : Logs n) (args : InstallSnapshotRequest)
    (M : List LogEntry) : Prop where
  index : args.lastSnapshotIncludeIndex = M.length
  term : args.lastSnapshotIncludeTerm = termAt M M.length
  numbered : Numbered M
  origin : forall (k : Nat) (log : LogEntry), M[k]? = some log ->
    (α.leaderLog log.logTerm)[k]? = some log ∧ log.logTerm ≤ args.term

/-!
# Frames
-/

section

variable {n : Nat} {α β : Logs n} {v : Fin n} {rf rf' : Raft n}

theorem ballotOf_neg {o : Option (Fin n)} (h : ballotOf o = -1) : o = none := by
  cases o with
  | none => rfl
  | some c =>
      simp only [ballotOf] at h
      omega

theorem ballotOf_some {o : Option (Fin n)} {c : Fin n}
    (h : ballotOf o = ((c : Nat) : Int)) : o = some c := by
  cases o with
  | none =>
      simp only [ballotOf] at h
      omega
  | some d =>
      simp only [ballotOf] at h
      rw [Fin.ext (show (d : Nat) = c by omega)]

/-- Fields outside the representation may change freely. -/
theorem Represents.congr (h : Represents α v rf) (hme : rf'.me = rf.me)
    (hterm : rf'.currentTerm = rf.currentTerm) (hvote : rf'.votedFor = rf.votedFor)
    (hlogs : rf'.logs = rf.logs)
    (hindex : rf'.lastSnapshotIncludeIndex = rf.lastSnapshotIncludeIndex)
    (hsnap : rf'.lastSnapshotIncludeTerm = rf.lastSnapshotIncludeTerm)
    (hcommit : rf'.commitIndex = rf.commitIndex)
    (happlied : rf'.lastApplied = rf.lastApplied)
    (hstatus : rf'.status = .leader -> rf.status = .leader) : Represents α v rf' where
  me := hme.trans h.me
  term := hterm.trans h.term
  term_nonneg := by
    rw [hterm]
    exact h.term_nonneg
  votedFor := by
    rw [hvote, hterm]
    exact h.votedFor
  held := by
    rcases h.held with ⟨s, hs, happ⟩
    exact ⟨s, hs.congr hlogs hindex hsnap, by rw [happlied]; exact happ⟩
  applied := by
    rw [happlied, hcommit]
    exact h.applied
  commit := by
    rw [hcommit]
    exact h.commit
  leads := by
    intro hl
    rw [hterm]
    exact h.leads (hstatus hl)

theorem Represents.persist [Archive] (h : Represents α v rf) : Represents α v rf.persist :=
  h.congr rfl rfl rfl rfl rfl rfl rfl rfl id

/-- Steps by another server leave a representation alone. -/
theorem Represents.frame {u : Fin n} (h : Represents α u rf) (hgrow : Grows α β)
    (helse : Elsewhere v α β) (hu : u ≠ v) : Represents β u rf where
  me := h.me
  term := h.term.trans (helse.term hu).symm
  term_nonneg := h.term_nonneg
  votedFor := by
    rw [helse.vote hu]
    exact h.votedFor
  held := by
    rw [helse.log hu]
    exact h.held
  applied := h.applied
  commit := by
    rw [helse.log hu]
    exact h.commit
  leads := by
    intro hl
    rcases h.leads hl with ⟨hpos, hlead, hlog⟩
    exact ⟨hpos, hgrow.leader hlead,
      by rw [helse.log hu, helse.leaderLog hu hlead]; exact hlog⟩

theorem VoteRequest.mono {caller : Fin n} {args : RequestVoteArgs}
    (h : VoteRequest α caller args) (hgrow : Grows α β) : VoteRequest β caller args where
  candidate := h.candidate
  positive := h.positive
  claim := by
    rcases h.claim with ⟨L, hL, hlast⟩
    exact ⟨L, hgrow.claim hL, hlast⟩

theorem AppendRequest.mono {caller : Fin n} {args : AppendEntriesArgs}
    {M : List LogEntry} {p : Nat} (h : AppendRequest α caller args M p)
    (hgrow : Grows α β) : AppendRequest β caller args M p :=
  { h with
    leader := hgrow.leader h.leader
    base := by
      rw [hgrow.base h.leader]
      exact h.base
    log := h.log.trans (hgrow.leaderLog _) }

theorem SnapshotRequest.mono {args : InstallSnapshotRequest} {M : List LogEntry}
    (h : SnapshotRequest α args M) (hgrow : Grows α β) : SnapshotRequest β args M :=
  { h with
    origin := by
      intro k log hlog
      rcases h.origin k log hlog with ⟨horigin, hle⟩
      exact ⟨getElem?_of_isPrefix (hgrow.leaderLog _) horigin, hle⟩ }

theorem AppendRequest.length {caller : Fin n} {args : AppendEntriesArgs}
    {M : List LogEntry} {p : Nat} (h : AppendRequest α caller args M p) :
    args.prevLogIndex + args.entriesSize = M.length := by
  have hle := h.le
  rw [AppendEntriesArgs.entriesSize, h.prevLogIndex, h.entries, List.length_drop]
  omega

/-- Logs whose entries sit at their place agree. -/
theorem agree_of_origin {L M : List LogEntry}
    (hL : forall (k : Nat) (log : LogEntry), L[k]? = some log ->
      (α.leaderLog log.logTerm)[k]? = some log)
    (hM : forall (k : Nat) (log : LogEntry), M[k]? = some log ->
      (α.leaderLog log.logTerm)[k]? = some log) : Agree L M := by
  intro k d e hd he hterm
  have hd' := hL k d hd
  rw [hterm, hM k e he] at hd'
  exact (Option.some.inj hd').symm

theorem termAt_getLast {L : List LogEntry} {log : LogEntry} (h : L.getLast? = some log) :
    termAt L L.length = log.logTerm := by
  rcases getLast?_eq h with ⟨hlog, hpos⟩
  have := termAt_succ hlog
  rwa [show L.length - 1 + 1 = L.length by omega] at this

/-- The check of the last entries is the abstract comparison. -/
theorem upToDate_spec {K L : List LogEntry} {s : Nat} (h : Holds rf K s)
    (hup : rf.upToDate (L.length : Int) (termAt L L.length) = true) :
    (raftLogs n).UpToDate L K := by
  intro e he
  have hK := termAt_getLast he
  rcases getLast?_eq he with ⟨hidx, _⟩
  have hpos := (h.numbered _ _ hidx).2
  rw [Raft.upToDate, h.getLast, hK] at hup
  simp only [Bool.or_eq_true, Bool.and_eq_true, decide_eq_true_eq, beq_iff_eq] at hup
  cases hL : L.getLast? with
  | none =>
      rw [List.getLast?_eq_none_iff.mp hL] at hup
      simp only [List.length_nil, termAt_zero] at hup
      omega
  | some d =>
      rw [termAt_getLast hL] at hup
      refine ⟨d, rfl, ?_⟩
      change e.logTerm < d.logTerm ∨ (e.logTerm = d.logTerm ∧ K.length ≤ L.length)
      omega

end

/-!
# Terms and ballots
-/

namespace Represents

variable {n : Nat} {α : Logs n} {v : Fin n} {rf : Raft n}

/-- A node that learns of a term, and possibly falls back to Follower. -/
theorem learn (hb : (raftLogs n).Ballots α) (h : Represents α v rf) {term : Int}
    (hle : rf.currentTerm ≤ term) :
    exists β, (raftLogs n).Steps v α β ∧ Represents β v (rf.observe term) ∧
      β.term v = term ∧ β.log = α.log ∧ β.leader = α.leader := by
  by_cases hgt : term > rf.currentTerm
  · have hnone : α.vote v term = none := by
      cases hv : α.vote v term with
      | none => rfl
      | some c =>
          have := hb.vote_term hv
          rw [← h.term] at this
          omega
    have hobs : rf.observe term = rf.stepDown term := if_pos hgt
    refine ⟨α.setTerm v term, Relation.ReflTransGen.single (.learn ?_), ?_, ?_, rfl, rfl⟩
    · rw [← h.term]
      exact hle
    · rw [hobs]
      exact
        { me := h.me
          term := by
            rw [LogState.setTerm_term, if_pos rfl]
            rfl
          term_nonneg := le_trans h.term_nonneg hle
          votedFor := by
            show (-1 : Int) = ballotOf (α.vote v term)
            rw [hnone]
            rfl
          held := by
            rcases h.held with ⟨s, hs, happ⟩
            exact ⟨s, hs.congr rfl rfl rfl, happ⟩
          applied := h.applied
          commit := h.commit
          leads := nofun }
    · rw [LogState.setTerm_term, if_pos rfl]
  · have heq : rf.currentTerm = term := by omega
    have hobs : rf.observe term = rf := if_neg hgt
    refine ⟨α, Steps.refl α, ?_, ?_, rfl, rfl⟩
    · rw [hobs]
      exact h
    · rw [← h.term, heq]

theorem follower (h : Represents α v rf) {rf' : Raft n}
    (heq : rf' = { rf with status := .follower }) : Represents α v rf' := by
  rw [heq]
  exact h.congr rfl rfl rfl rfl rfl rfl rfl rfl nofun

/-- Standing for election. -/
theorem stand [Archive] (h : Represents α v rf) :
    exists β, (raftLogs n).Steps v α β ∧ Represents β v rf.becomeCandidate ∧
      VoteRequest β v rf.becomeCandidate.requestVoteArgs ∧ β.log = α.log ∧
      β.leader = α.leader := by
  have hlt : α.term v < rf.currentTerm + 1 := by
    rw [← h.term]
    omega
  rcases h.held with ⟨s, hs, happ⟩
  have hs' : Holds rf.becomeCandidate (α.log v) s := hs.congr rfl rfl rfl
  refine ⟨_, Relation.ReflTransGen.single (.stand hlt), ?_, ?_, rfl, rfl⟩
  · exact
      { me := h.me
        term := by
          refine Eq.trans ?_ (LogState.setTerm_term α v v _).symm
          rw [if_pos rfl]
          rfl
        term_nonneg := by
          show 0 ≤ rf.currentTerm + 1
          have := h.term_nonneg
          omega
        votedFor := by
          rw [LogState.castVote_vote, if_pos ⟨rfl, rfl⟩, ← h.me]
          rfl
        held := ⟨s, hs', happ⟩
        applied := h.applied
        commit := h.commit
        leads := nofun }
  · refine ⟨?_, ?_, α.log v, ?_, ?_, ?_⟩
    · rw [← h.me]
      rfl
    · show 1 ≤ rf.currentTerm + 1
      have := h.term_nonneg
      omega
    · refine (LogState.setClaim_claim _ _ _ _ _ _).trans ?_
      rw [if_pos ⟨rfl, rfl⟩]
    · exact congrArg Prod.fst hs'.getLast
    · exact congrArg Prod.snd hs'.getLast

/-- Granting a vote, for the first time or once more. -/
theorem grant (h : Represents α v rf) {c : Fin n} {args : RequestVoteArgs}
    (hreq : VoteRequest α c args) (hterm : rf.currentTerm = args.term)
    (hup : rf.upToDate args.lastLogIndex args.lastLogTerm = true)
    (hfree : rf.votedFor = -1 ∨ rf.votedFor = args.candidateId) :
    exists β, (raftLogs n).Steps v α β ∧
      Represents β v { rf with votedFor := args.candidateId } ∧
      β.vote v args.term = some c ∧ β.log = α.log ∧ β.leader = α.leader := by
  rcases h.held with ⟨s, hs, happ⟩
  rcases hreq.claim with ⟨L, hL, hindex, hlast⟩
  rcases hfree with hnone | hsame
  · have hvote : α.vote v (α.term v) = none := by
      rw [h.votedFor, h.term] at hnone
      exact ballotOf_neg hnone
    have hterm' : args.term = α.term v := hterm.symm.trans h.term
    rw [hterm'] at hL
    rw [hindex, hlast] at hup
    refine ⟨α.castVote v (α.term v) c,
      Relation.ReflTransGen.single (.grant hvote hL (upToDate_spec hs hup)),
      ?_, ?_, rfl, rfl⟩
    · exact
        { h with
          votedFor := by
            rw [LogState.castVote_vote, if_pos ⟨rfl, h.term⟩]
            exact hreq.candidate
          held := ⟨s, hs.congr rfl rfl rfl, happ⟩ }
    · rw [LogState.castVote_vote, if_pos ⟨rfl, hterm'⟩]
  · have hvote : α.vote v args.term = some c := by
      rw [h.votedFor, hterm, hreq.candidate] at hsame
      exact ballotOf_some hsame
    refine ⟨α, Steps.refl α, ?_, hvote, rfl, rfl⟩
    exact h.congr rfl rfl hsame.symm rfl rfl rfl rfl rfl id

/-- Winning an election. -/
theorem win [Archive] (h : Represents α v rf) {Q : Finset (Fin n)}
    (hpos : 1 ≤ rf.currentTerm) (hnone : α.leader rf.currentTerm = none)
    (hQ : n / 2 + 1 ≤ Q.card)
    (hvote : forall q, q ∈ Q -> α.vote q rf.currentTerm = some v) :
    exists β, (raftLogs n).Steps v α β ∧ Represents β v rf.becomeLeader ∧
      β.log = α.log ∧ β.base rf.currentTerm = α.log v ∧
      forall {U c}, β.leader U = some c ->
        α.leader U = some c ∨ (U = rf.currentTerm ∧ c = v) := by
  have hquorum : (raftLogs n).quorums.IsQuorum Q := by
    show Fintype.card (Fin n) / 2 + 1 ≤ Q.card
    rw [Fintype.card_fin]
    exact hQ
  rw [h.term] at hnone hvote
  rcases h.held with ⟨s, hs, happ⟩
  refine ⟨_, Relation.ReflTransGen.single (.win hnone hquorum hvote), ?_, rfl, ?_, ?_⟩
  · exact
      { me := h.me
        term := h.term
        term_nonneg := h.term_nonneg
        votedFor := h.votedFor
        held := ⟨s, hs.congr rfl rfl rfl, happ⟩
        applied := h.applied
        commit := h.commit
        leads := by
          intro _
          have hcur : rf.becomeLeader.currentTerm = α.term v := h.term
          refine ⟨hpos, ?_, ?_⟩
          · rw [LogState.crown_leader, if_pos hcur]
          · rw [LogState.crown_leaderLog, if_pos hcur]
            rfl }
  · rw [LogState.crown_base, if_pos h.term]
  · intro U c hc
    rw [LogState.crown_leader] at hc
    by_cases hU : U = α.term v
    · rw [if_pos hU] at hc
      exact Or.inr ⟨hU.trans h.term.symm, (Option.some.inj hc).symm⟩
    · rw [if_neg hU] at hc
      exact Or.inl hc

end Represents
end RaftCore
end KVRaft
