import KVRaft.RaftCore.Cluster.Node

/-!
# Log changes of a node

The abstract steps behind `Start`, heartbeats, `AppendEntries1`, the applier and
snapshots.  Accepting entries and installing a snapshot are faithful protocol
steps only while they do not leave a foreign tail behind what they wrote;
otherwise the new log is a splice of parts that need not fit together.
-/

namespace KVRaft
namespace RaftCore

open Foundation LogSystem

section

variable {n : Nat}

/-- The node holds an entry of another term at that index. -/
def HoldsOther (rf : Raft n) (logIndex logTerm : Int) : Prop :=
  exists held, rf.logAtIndex logIndex = .ok held ∧ held.logTerm ≠ logTerm

instance (rf : Raft n) (logIndex logTerm : Int) :
    Decidable (HoldsOther rf logIndex logTerm) :=
  match h : rf.logAtIndex logIndex with
  | .ok held =>
      if hterm : held.logTerm ≠ logTerm then
        .isTrue ⟨held, h, hterm⟩
      else
        .isFalse fun ⟨_, h', hne⟩ => by
          rw [h] at h'
          cases h'
          exact hterm hne
  | .error _ =>
      .isFalse fun ⟨_, h', _⟩ => by
        rw [h] at h'
        cases h'

/-- `AppendEntries1` overwrites a conflicting entry and keeps entries beyond the
last one it was sent. -/
def MixesLogs (rf : Raft n) (args : AppendEntriesArgs) : Prop :=
  rf.currentTerm ≤ args.term ∧
    rf.matchLog args.prevLogIndex args.prevLogTerm = .ok true ∧
    (exists log, log ∈ args.entries ∧ HoldsOther rf log.logIndex log.logTerm) ∧
    args.prevLogIndex + args.entriesSize < rf.getLastLogIndex

instance (rf : Raft n) (args : AppendEntriesArgs) : Decidable (MixesLogs rf args) := by
  unfold MixesLogs
  infer_instance

/-- `InstallSnapshot` keeps a tail of a log that disagrees with the snapshot at
the snapshot's last entry. -/
def KeepsForeignTail (rf : Raft n) (args : InstallSnapshotRequest) : Prop :=
  rf.currentTerm ≤ args.term ∧
    rf.lastSnapshotIncludeIndex < args.lastSnapshotIncludeIndex ∧
    args.lastSnapshotIncludeIndex < rf.getLastLogIndex ∧
    HoldsOther rf args.lastSnapshotIncludeIndex args.lastSnapshotIncludeTerm

instance (rf : Raft n) (args : InstallSnapshotRequest) :
    Decidable (KeepsForeignTail rf args) := by
  unfold KeepsForeignTail
  infer_instance

variable {α : Logs n}

theorem take_eq_of_termAt {L M : List LogEntry} {p : Nat}
    (hL : (raftLogs n).Coherent α L) (hM : (raftLogs n).Coherent α M)
    (hpL : p ≤ L.length) (hpM : p ≤ M.length) (hterm : termAt L p = termAt M p) :
    L.take p = M.take p := by
  cases p with
  | zero => rfl
  | succ k =>
      rcases getElem?_of_lt (show k < L.length by omega) with ⟨d, hd⟩
      rcases getElem?_of_lt (show k < M.length by omega) with ⟨e, he⟩
      rw [termAt_succ hd, termAt_succ he] at hterm
      exact hL.log_matching hM hd he hterm

/-- Overwriting is the protocol's own log change unless it mixes two logs. -/
theorem overwrite_eq_keep {L M : List LogEntry} {p : Nat}
    (htake : L.take p = M.take p) (hcase : L.length ≤ M.length ∨ M <+: L) :
    overwrite L M p = keep M L := by
  have hover : overwrite L M p = M ++ L.drop M.length := by
    rw [overwrite, htake, List.take_append_drop]
  rw [hover]
  by_cases hpre : M <+: L
  · rw [keep_of_isPrefix hpre]
    rcases hpre with ⟨rest, rfl⟩
    rw [List.drop_left]
  · rw [keep_of_not_isPrefix hpre]
    rcases hcase with hlen | hM
    · rw [List.drop_eq_nil_of_le hlen, List.append_nil]
    · exact absurd hM hpre

end

namespace Represents

variable {n : Nat} {α : Logs n} {v : Fin n} {rf : Raft n}

/-!
# The leader's own log
-/

/-- A heartbeat counts the leader itself as holding all of its log. -/
theorem ownAck (h : Represents α v rf) (hstatus : rf.status = .leader) :
    exists β, (raftLogs n).Steps v α β ∧ Represents β v rf ∧
      β.acked v rf.currentTerm (α.log v).length ∧ β.log = α.log ∧
      β.leader = α.leader ∧ β.leaderLog = α.leaderLog ∧ β.base = α.base := by
  rcases h.leads hstatus with ⟨_, hlead, hlog⟩
  rw [h.term] at hlead hlog
  have hstep : (raftLogs n).Step v α (α.addAck v (α.term v) (α.log v).length) := by
    refine .acknowledge hlead ?_ ?_
    · rw [hlog]
    · rw [← hlog, List.take_length]
  refine ⟨_, Relation.ReflTransGen.single hstep, { h with }, ?_, rfl, rfl, rfl, rfl⟩
  rw [h.term]
  exact Or.inr ⟨rfl, rfl, rfl⟩

theorem appendRequest (hb : (raftLogs n).Ballots α) (h : Represents α v rf)
    (hstatus : rf.status = .leader) {i j : Fin n} {args : AppendEntriesArgs}
    (hm : rf.heartBeatTo i = .ok (.appendEntries j args)) :
    exists p, AppendRequest α v args (α.log v) p ∧ args.term = rf.currentTerm ∧
      args.leaderCommit = rf.commitIndex := by
  rcases h.held with ⟨s, hs, _⟩
  rcases h.leads hstatus with ⟨_, hlead, hlog⟩
  rcases hs.heartBeatTo_append_inv hm with ⟨p, _, hp, _, rfl⟩
  refine ⟨p, ?_, rfl, rfl⟩
  exact
    { leader := hlead
      base := by
        rw [hlog]
        exact hb.base_prefix hlead
      log := by
        rw [hlog]
        exact List.prefix_rfl
      numbered := hs.numbered
      le := hp
      prevLogIndex := rfl
      prevLogTerm := rfl
      entries := rfl }

theorem extend [Archive] (h : Represents α v rf) (command : Bytes) :
    exists β, (raftLogs n).Steps v α β ∧ Represents β v (rf.start command).1 ∧
      α.log v <+: β.log v ∧ β.leader = α.leader ∧
      (rf.start command).1.commitIndex = rf.commitIndex ∧
      (rf.start command).1.status = rf.status := by
  rcases Raft.start_cases rf command with hstart | ⟨hleader, hstart⟩
  · rw [hstart]
    exact ⟨α, Steps.refl α, h, List.prefix_rfl, rfl, rfl, rfl⟩
  rw [hstart]
  rcases h.held with ⟨s, hs, happ⟩
  rcases h.leads hleader with ⟨hpos, hlead, hlog⟩
  have hlead' := hlead
  have hlog' := hlog
  rw [h.term] at hlead' hlog'
  let log : LogEntry :=
    { command := command
      logTerm := rf.currentTerm
      logIndex := rf.getNewCommandIndex }
  have hstep : (raftLogs n).Step v α (α.extendLog (α.term v) v log) :=
    .extend hlead' hlog' h.term
  have hlogs : (α.extendLog (α.term v) v log).log v = α.log v ++ [log] := by
    rw [LogState.extendLog_log, if_pos rfl]
  have hnum : Numbered (α.log v ++ [log]) :=
    hs.numbered.append hs.newCommandIndex hpos
  refine ⟨_, Relation.ReflTransGen.single hstep, ?_, ?_, rfl, rfl, rfl⟩
  · exact
      { me := h.me
        term := h.term
        term_nonneg := h.term_nonneg
        votedFor := h.votedFor
        held := by
          refine ⟨s, ?_, happ⟩
          rw [hlogs]
          exact
            { le := by
                rw [List.length_append]
                exact Nat.le_add_right_of_le hs.le
              index := hs.index
              term := hs.term.trans
                (termAt_of_isPrefix (List.prefix_append _ _) hs.le).symm
              logs := by
                rw [List.drop_append_of_le_length hs.le, ← hs.logs]
                rfl
              numbered := hnum }
        applied := h.applied
        commit := by
          rw [hlogs, List.length_append]
          have := h.commit
          show rf.commitIndex ≤ _
          omega
        leads := by
          intro _
          refine ⟨hpos, hlead, ?_⟩
          have hcur : rf.currentTerm = α.term v := h.term
          show (α.extendLog (α.term v) v log).log v =
            (α.extendLog (α.term v) v log).leaderLog rf.currentTerm
          rw [hlogs, LogState.extendLog_leaderLog, if_pos hcur, ← hlog'] }
  · rw [hlogs]
    exact List.prefix_append _ _

/-!
# Applying and compacting
-/

theorem apply (h : Represents α v rf) :
    Represents α v { rf with lastApplied := rf.commitIndex } where
  me := h.me
  term := h.term
  term_nonneg := h.term_nonneg
  votedFor := h.votedFor
  held := by
    rcases h.held with ⟨s, hs, happ⟩
    exact ⟨s, hs.congr rfl rfl rfl, happ.trans h.applied⟩
  applied := le_refl _
  commit := h.commit
  leads := h.leads

theorem compact [Archive] (h : Represents α v rf) {rf' : Raft n}
    (heffect : Raft.SnapshotEffect rf (α.log v) rf') : Represents α v rf' := by
  cases heffect with
  | rejected => exact h
  | @compacted k _ hlo hhi =>
      rcases h.held with ⟨s, hs, happ⟩
      have hcommit := h.commit
      have happlied := h.applied
      exact
        { me := h.me
          term := h.term
          term_nonneg := h.term_nonneg
          votedFor := h.votedFor
          held := ⟨k, hs.compact (by omega) rfl rfl rfl, le_max_right _ _⟩
          applied := max_le happlied hhi
          commit := hcommit
          leads := h.leads }

/-!
# Accepting entries
-/

theorem advance (h : Represents α v rf) (hstatus : rf.status = .follower)
    {leaderCommit : Int} : Represents α v (rf.advanceCommit leaderCommit) := by
  rcases h.held with ⟨s, hs, happ⟩
  have hcommit := h.commit
  have happlied := h.applied
  unfold Raft.advanceCommit
  by_cases hlt : leaderCommit > rf.commitIndex
  · rw [if_pos hlt, hs.lastIndex]
    exact
      { me := h.me
        term := h.term
        term_nonneg := h.term_nonneg
        votedFor := h.votedFor
        held := ⟨s, hs.congr rfl rfl rfl, happ⟩
        applied := le_min (happlied.trans hlt.le) (happlied.trans hcommit)
        commit := min_le_right _ _
        leads := by
          intro hl
          have hl' : rf.status = .leader := hl
          rw [hstatus] at hl'
          cases hl' }
  · rw [if_neg hlt]
    exact h

/-- The log of the node becomes `overwrite`; everything else about the node is
as before. -/
private theorem setOverwrite (h : Represents α v rf) (hstatus : rf.status = .follower)
    {s p : Nat} {M : List LogEntry} (hs : Holds rf (α.log v) s)
    (happ : (s : Int) ≤ rf.lastApplied) (hlo : s ≤ p) (hhi : p ≤ (α.log v).length)
    (hpM : p ≤ M.length) (hM : Numbered M) :
    Represents (α.setLog v (overwrite (α.log v) M p)) v
      { rf with logs := (overwrite (α.log v) M p).drop s } := by
  have hlog : (α.setLog v (overwrite (α.log v) M p)).log v = overwrite (α.log v) M p := by
    rw [LogState.setLog_log, if_pos rfl]
  exact
    { me := h.me
      term := h.term
      term_nonneg := h.term_nonneg
      votedFor := h.votedFor
      held := by
        rw [hlog]
        exact ⟨s, hs.overwrite hlo hhi hpM hM, happ⟩
      applied := h.applied
      commit := by
        rw [hlog, overwrite_length hhi hpM]
        have := h.commit
        show rf.commitIndex ≤ _
        omega
      leads := by
        intro hl
        have hl' : rf.status = .leader := hl
        rw [hstatus] at hl'
        cases hl' }

theorem origin (hb : (raftLogs n).Ballots α) (h : Represents α v rf) {k : Nat}
    {log : LogEntry} (hlog : (α.log v)[k]? = some log) :
    (α.leaderLog log.logTerm)[k]? = some log ∧ log.logTerm ≤ rf.currentTerm := by
  rw [h.term]
  exact ⟨hb.log_entry hlog, hb.log_term (List.mem_of_getElem? hlog)⟩

/-- Overwriting takes every entry from its place in its own leader's log. -/
private theorem overwrite_origin (hb : (raftLogs n).Ballots α) (h : Represents α v rf)
    {M : List LogEntry} {p : Nat} (hhi : p ≤ (α.log v).length) (hpM : p ≤ M.length)
    (hM : forall (k : Nat) (log : LogEntry), M[k]? = some log ->
      (α.leaderLog log.logTerm)[k]? = some log ∧ log.logTerm ≤ rf.currentTerm)
    (k : Nat) (log : LogEntry) (hlog : (overwrite (α.log v) M p)[k]? = some log) :
    (α.leaderLog ((raftLogs n).termOf log))[k]? = some log ∧
      (raftLogs n).termOf log ≤ α.term v := by
  rw [← h.term]
  rw [overwrite_getElem? hhi hpM] at hlog
  by_cases hk : p ≤ k ∧ k < M.length
  · rw [if_pos hk] at hlog
    exact hM k log hlog
  · rw [if_neg hk] at hlog
    exact h.origin hb hlog

theorem request_origin (hb : (raftLogs n).Ballots α) {c : Fin n}
    {args : AppendEntriesArgs} {M : List LogEntry} {p : Nat}
    (hreq : AppendRequest α c args M p) (k : Nat) (log : LogEntry)
    (hlog : M[k]? = some log) :
    (α.leaderLog log.logTerm)[k]? = some log ∧ log.logTerm ≤ args.term :=
  hb.entry_of_isPrefix hreq.log hlog

theorem request_agree (hb : (raftLogs n).Ballots α) {c : Fin n}
    {args : AppendEntriesArgs} {M : List LogEntry} {p : Nat}
    (hreq : AppendRequest α c args M p) : Agree (α.log v) M :=
  agree_of_origin (fun _ _ hlog => hb.log_entry hlog)
    (fun k log hlog => (request_origin hb hreq k log hlog).1)

/-- Without a mix of logs, what is accepted fits the log the node has. -/
private theorem fits (hb : (raftLogs n).Ballots α) {c : Fin n}
    {args : AppendEntriesArgs} {M : List LogEntry} {s p : Nat}
    (hs : Holds rf (α.log v) s) (hlo : s ≤ p)
    (hreq : AppendRequest α c args M p) (hterm : rf.currentTerm = args.term)
    (hmatch : rf.matchLog args.prevLogIndex args.prevLogTerm = .ok true)
    (hclean : ¬ MixesLogs rf args)
    (htake : (α.log v).take p = M.take p) :
    (α.log v).length ≤ M.length ∨ M <+: α.log v := by
  rcases Nat.lt_or_ge M.length (α.log v).length with hlen | hlen
  · right
    rw [List.prefix_iff_getElem?]
    intro k hk
    rw [← List.getElem?_eq_getElem hk]
    rcases Nat.lt_or_ge k p with hkp | hkp
    · rw [← List.getElem?_take_of_lt hkp, htake, List.getElem?_take_of_lt hkp]
    · rcases getElem?_of_lt (show k < (α.log v).length by omega) with ⟨d, hd⟩
      rcases getElem?_of_lt hk with ⟨e, he⟩
      have hsame : d.logTerm = e.logTerm := by
        by_contra hne
        apply hclean
        refine ⟨hterm.le, hmatch, ⟨e, ?_, d, ?_, hne⟩, ?_⟩
        · rw [hreq.entries]
          apply List.mem_of_getElem? (i := k - p)
          rw [List.getElem?_drop, show p + (k - p) = k by omega]
          exact he
        · rw [(hreq.numbered k e he).1]
          exact hs.logAtIndex (by omega) hd
        · rw [hreq.length, hs.lastIndex]
          omega
      rw [hd, he, request_agree hb hreq k d e hd he hsame]
  · exact Or.inl hlen

theorem accept (hb : (raftLogs n).Ballots α) (h : Represents α v rf) {c : Fin n}
    {args : AppendEntriesArgs} {M : List LogEntry} {p : Nat}
    (hreq : AppendRequest α c args M p) (hterm : rf.currentTerm = args.term)
    (hstatus : rf.status = .follower)
    (hmatch : rf.matchLog args.prevLogIndex args.prevLogTerm = .ok true) {rf' : Raft n}
    (hfold : args.entries.foldlM Raft.appendEntry rf = .ok rf') :
    exists β, (raftLogs n).Moves v α β ∧ Represents β v rf' ∧
      rf' = { rf with logs := rf'.logs } ∧
      β.acked v args.term M.length ∧ β.leader = α.leader ∧
      ((raftLogs n).Safe α -> ¬ MixesLogs rf args ->
        (raftLogs n).Steps v α β ∧ β.log v = keep M (α.log v)) := by
  rcases h.held with ⟨s, hs, happ⟩
  rcases hs.matchLog_inv hmatch with ⟨k, hk, hlo, hhi, hiff⟩
  have hkp : k = p := by
    have := hreq.prevLogIndex
    omega
  have hprev : termAt M p = termAt (α.log v) p := by
    rw [← hreq.prevLogTerm, ← hkp]
    exact hiff.mp rfl
  rw [hkp] at hlo hhi
  have hloop := hs.foldlM_appendEntry hlo hhi hreq.le hreq.numbered (request_agree hb hreq)
  rw [← hreq.entries, hfold] at hloop
  have hrf : rf' = { rf with logs := (overwrite (α.log v) M p).drop s } := by
    cases hloop
    rfl
  have hlead : α.leader (α.term v) = some c := by
    rw [← h.term, hterm]
    exact hreq.leader
  have hlen : M.length ≤ (α.leaderLog (α.term v)).length := by
    rw [← h.term, hterm]
    exact hreq.log.length_le
  have hnew := h.setOverwrite hstatus hs happ hlo hhi hreq.le hreq.numbered
  rw [← hrf] at hnew
  -- first the log, then the acknowledgement
  have hsplice : (raftLogs n).Slip v α (α.setLog v (overwrite (α.log v) M p)) := by
    refine .splice (h.overwrite_origin hb hhi hreq.le ?_)
    intro j log hlog
    rw [hterm]
    exact request_origin hb hreq j log hlog
  refine ⟨(α.setLog v (overwrite (α.log v) M p)).addAck v (α.term v) M.length, ?_,
    { hnew with }, ?_, ?_, rfl, ?_⟩
  · exact (Moves.snoc (Moves.refl α) (Or.inr hsplice)).snoc
      (Or.inr (.overAck (c := c) hlead hlen))
  · rw [hrf]
  · rw [← hterm, h.term]
    exact Or.inr ⟨rfl, rfl, rfl⟩
  · intro hsafe hclean
    have htake := take_eq_of_termAt (hsafe.log_coherent v)
      ((hsafe.leaderLog_coherent args.term).of_isPrefix hreq.log) hhi hreq.le hprev.symm
    have hkeep : overwrite (α.log v) M p = keep M (α.log v) :=
      overwrite_eq_keep htake (fits hb hs hlo hreq hterm hmatch hclean htake)
    have hpre : M <+: α.leaderLog (α.term v) := by
      rw [← h.term, hterm]
      exact hreq.log
    have hbase : α.base (α.term v) <+: M := by
      rw [← h.term, hterm]
      exact hreq.base
    have hlogv : (α.setLog v (keep M (α.log v))).log v = keep M (α.log v) := by
      rw [LogState.setLog_log, if_pos rfl]
    rw [hkeep]
    refine ⟨?_, hlogv⟩
    refine (Steps.snoc (Steps.refl α) (.adopt hlead hbase hpre)).snoc
      (.acknowledge (c := c) hlead hlen ?_)
    rw [hlogv]
    refine List.IsPrefix.trans ?_ (prefix_keep_self M (α.log v))
    change (α.leaderLog (α.term v)).take M.length <+: M
    rw [take_eq_of_isPrefix hpre (Nat.le_refl _), List.take_length]

/-!
# Installing a snapshot
-/

theorem install (hb : (raftLogs n).Ballots α) (h : Represents α v rf)
    {args : InstallSnapshotRequest} {M : List LogEntry} (hreq : SnapshotRequest α args M)
    (hterm : rf.currentTerm = args.term) (hstatus : rf.status = .follower)
    (hlt : rf.lastSnapshotIncludeIndex < args.lastSnapshotIncludeIndex)
    {logs : List LogEntry} (hlogs : rf.logsBeyond args.lastSnapshotIncludeIndex = .ok logs)
    (persister : Persister) :
    exists β, (raftLogs n).Moves v α β ∧
      Represents β v
        { rf with
          persister := persister
          logs := logs
          commitIndex := max rf.commitIndex args.lastSnapshotIncludeIndex
          lastApplied := max rf.lastApplied args.lastSnapshotIncludeIndex
          lastSnapshotIncludeIndex := args.lastSnapshotIncludeIndex
          lastSnapshotIncludeTerm := args.lastSnapshotIncludeTerm } ∧
      β.leader = α.leader ∧
      ((raftLogs n).Safe α -> (raftLogs n).Committed α M args.term ->
        ¬ KeepsForeignTail rf args ->
        (raftLogs n).Steps v α β ∧ β.log v = keep M (α.log v)) := by
  rcases h.held with ⟨s, hs, happ⟩
  have hsM : s < M.length := by
    rw [hs.index, hreq.index] at hlt
    omega
  rw [hreq.index, hs.logsBeyond hsM] at hlogs
  have hover : overwrite (α.log v) M 0 = M ++ (α.log v).drop M.length := rfl
  have hlog : (α.setLog v (overwrite (α.log v) M 0)).log v = overwrite (α.log v) M 0 := by
    rw [LogState.setLog_log, if_pos rfl]
  have hlen := overwrite_length (Nat.zero_le (α.log v).length) (Nat.zero_le M.length)
  have hsplice : (raftLogs n).Slip v α (α.setLog v (overwrite (α.log v) M 0)) := by
    refine .splice (h.overwrite_origin hb (Nat.zero_le _) (Nat.zero_le _) ?_)
    rw [hterm]
    exact hreq.origin
  have hcommit := h.commit
  have happlied := h.applied
  refine ⟨α.setLog v (overwrite (α.log v) M 0),
    Moves.snoc (Moves.refl α) (Or.inr hsplice), ?_, rfl, ?_⟩
  · exact
      { me := h.me
        term := h.term
        term_nonneg := h.term_nonneg
        votedFor := h.votedFor
        held := by
          refine ⟨M.length, ?_, ?_⟩
          · rw [hlog]
            exact
              { le := by
                  rw [hlen]
                  exact le_max_right _ _
                index := hreq.index
                term := by
                  rw [hover, termAt_of_isPrefix (List.prefix_append _ _) (Nat.le_refl _)]
                  exact hreq.term
                logs := by
                  rw [hover, List.drop_left]
                  cases hlogs
                  rfl
                numbered := hs.numbered.overwrite hreq.numbered (Nat.zero_le _)
                  (Nat.zero_le _) }
          · rw [← hreq.index]
            exact le_max_right _ _
        applied := max_le_max_right _ happlied
        commit := by
          rw [hlog, hlen]
          show max rf.commitIndex args.lastSnapshotIncludeIndex ≤ _
          rw [hreq.index]
          omega
        leads := by
          intro hl
          have hl' : rf.status = .leader := hl
          rw [hstatus] at hl'
          cases hl' }
  · intro hsafe hcom hclean
    have hcohM : (raftLogs n).Coherent α M := by
      rcases Ballots.committed_prefix hcom with hnil | ⟨T, _, hpre⟩
      · rw [hnil]
        intro i e he
        cases he
      · exact (hsafe.leaderLog_coherent T).of_isPrefix hpre
    have hcase : (α.log v).length ≤ M.length ∨ M <+: α.log v := by
      rcases Nat.lt_or_ge M.length (α.log v).length with hlong | hshort
      · right
        obtain ⟨k, hk⟩ : exists k, M.length = k + 1 := ⟨M.length - 1, by omega⟩
        rcases getElem?_of_lt (show k < (α.log v).length by omega) with ⟨d, hd⟩
        have hsame : termAt (α.log v) M.length = termAt M M.length := by
          by_contra hne
          apply hclean
          refine ⟨hterm.le, hlt, ?_, d, ?_, ?_⟩
          · rw [hreq.index, hs.lastIndex]
            omega
          · rw [hreq.index, hk]
            exact hs.logAtIndex (by omega) hd
          · rw [hreq.term, ← termAt_succ hd, ← hk]
            exact hne
        have htake := take_eq_of_termAt (hsafe.log_coherent v) hcohM hlong.le
          (Nat.le_refl _) hsame
        rw [List.take_length] at htake
        rw [List.prefix_iff_eq_take]
        exact htake.symm
      · exact Or.inl hshort
    have hkeep : overwrite (α.log v) M 0 = keep M (α.log v) :=
      overwrite_eq_keep rfl hcase
    have hcom' : (raftLogs n).Committed α M (α.term v) := by
      rw [← h.term, hterm]
      exact hcom
    rw [hkeep]
    refine ⟨Steps.snoc (Steps.refl α) (.install hcom'), ?_⟩
    rw [LogState.setLog_log, if_pos rfl]

end Represents
end RaftCore
end KVRaft
