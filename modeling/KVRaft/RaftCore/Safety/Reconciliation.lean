import KVRaft.Foundation.Patching
import KVRaft.RaftCore.Safety.LeaderCompleteness
import KVRaft.RaftCore.Safety.NodeInvariant

/-!
# Reconciling a log

`AppendEntries1` patches the log behind the previous entry: an entry of another
term is replaced in its place, and what lies beyond the received entries stays.
-/

namespace KVRaft
namespace RaftCore

open Foundation

section

variable {n : Nat}

theorem LogEntry.eq_of {e d : LogEntry} (hindex : e.logIndex = d.logIndex)
    (hterm : e.logTerm = d.logTerm) (hcommand : e.command = d.command) : e = d := by
  cases e
  cases d
  cases hindex
  cases hterm
  cases hcommand
  rfl

namespace Raft

/-- The entries of a node behind an index of its log. -/
def heldAfter (rf : Raft n) (logIndex : Int) : List LogEntry :=
  rf.logs.drop (logIndex - rf.lastSnapshotIncludeIndex).toNat

section

variable {rf rf' : Raft n} {front rest : List LogEntry} {log e : LogEntry}

theorem appendEntry_push (hlogs : Consecutive (rf.lastSnapshotIncludeIndex + 1) rf.logs)
    (hlog : log.logIndex = rf.lastSnapshotIncludeIndex + 1 + rf.logs.length) :
    rf.appendEntry log = .ok { rf with logs := rf.logs ++ [log] } := by
  have hbeyond : log.logIndex > rf.getLastLogIndex := by
    rw [hlogs.lastIndex]
    omega
  rw [appendEntry, if_pos hbeyond]

theorem appendEntry_replace
    (hlogs : Consecutive (rf.lastSnapshotIncludeIndex + 1) rf.logs)
    (hfront : rf.logs = front ++ e :: rest)
    (hlog : log.logIndex = rf.lastSnapshotIncludeIndex + 1 + front.length) :
    rf.appendEntry log = .ok rf' <->
      (e.logTerm = log.logTerm -> e.command = log.command) ∧
        rf' = { rf with
          logs := front ++ (if e.logTerm = log.logTerm then e else log) :: rest } := by
  have hlast := hlogs.lastIndex
  rw [hfront, List.length_append, List.length_cons] at hlast
  push_cast at hlast
  have hhere : ¬ log.logIndex > rf.getLastLogIndex := by omega
  have hlo : log.logIndex > rf.lastSnapshotIncludeIndex := by omega
  have hhi : log.logIndex ≤ rf.getLastLogIndex := by omega
  have hslot : log.logIndex - rf.lastSnapshotIncludeIndex - 1 = (front.length : Int) := by
    omega
  have hheld : logAt rf.logs (front.length : Int) = .ok e := by
    rw [logAt_natCast, hfront]
    exact List.getElem?_append_right (Nat.le_refl _) |>.trans (by rw [Nat.sub_self]; rfl)
  unfold appendEntry getSlicesIndexFromLogIndex
  rw [if_neg hhere, myAssert, check_of hlo, myAssert, check_of hhi]
  simp only [bind, Except.bind, pure, Except.pure, hslot, hheld, Int.toNat_natCast]
  by_cases hterm : e.logTerm = log.logTerm
  · by_cases hcommand : e.command = log.command
    · rw [if_neg (fun h => h.2 hcommand), if_neg (not_not_intro hterm), if_pos hterm,
        ← hfront]
      constructor
      · intro h
        cases h
        exact ⟨fun _ => hcommand, rfl⟩
      · rintro ⟨_, rfl⟩
        rfl
    · rw [if_pos ⟨hterm, hcommand⟩]
      constructor
      · intro h
        cases h
      · rintro ⟨h, _⟩
        exact absurd (h hterm) hcommand
  · have hset : rf.logs.set front.length log = front ++ log :: rest := by
      rw [hfront, List.set_append_right _ _ (Nat.le_refl _), Nat.sub_self]
      rfl
    rw [if_neg (fun h => hterm h.1), if_pos hterm, if_neg hterm, hset]
    constructor
    · intro h
      cases h
      exact ⟨fun h => absurd h hterm, rfl⟩
    · rintro ⟨_, rfl⟩
      rfl

/-- An entry with the index of its place may stand for the one there. -/
theorem consecutive_replace {base : Int}
    (h : Consecutive base (front ++ e :: rest)) (hlog : log.logIndex = base + front.length) :
    Consecutive base (front ++ log :: rest) := by
  have hset := h.set hlog
  rw [List.set_append_right _ _ (Nat.le_refl _), Nat.sub_self] at hset
  exact hset

/-- What stands behind a list stands behind it and its next element. -/
theorem consecutive_concat {base : Int} {front entries : List LogEntry} (log : LogEntry)
    (h : Consecutive (base + front.length + 1) entries) :
    Consecutive (base + (front ++ [log]).length) entries := by
  rw [List.length_append, List.length_singleton]
  push_cast
  rw [← Int.add_assoc]
  exact h

/-- The loop patches what is held behind `front`; it gets through when entries with
one index and term carry one command. -/
theorem foldlM_appendEntry_patch {held entries : List LogEntry}
    (hlogs : Consecutive (rf.lastSnapshotIncludeIndex + 1) rf.logs)
    (hfront : rf.logs = front ++ held)
    (hentries : Consecutive (rf.lastSnapshotIncludeIndex + 1 + front.length) entries) :
    entries.foldlM appendEntry rf = .ok rf' <->
      KeysDecide LogEntry.logTerm held entries ∧
        rf' = { rf with logs := front ++ patch LogEntry.logTerm held entries } := by
  -- each entry moves one place of `held` over to `front`
  induction entries generalizing rf front held with
  | nil =>
      rw [patch_nil_right, ← hfront]
      constructor
      · intro h
        cases h
        refine ⟨?_, rfl⟩
        intro k e d _ hd
        cases hd
      · rintro ⟨_, rfl⟩
        rfl
  | cons log entries ih =>
      rcases hentries with ⟨hlog, hentries⟩
      rw [List.foldlM_cons]
      cases held with
      | nil =>
          rw [List.append_nil] at hfront
          rw [← hfront] at hlog
          have hstep := @ih { rf with logs := rf.logs ++ [log] } (front ++ [log]) []
            (hlogs.concat hlog)
            (by rw [hfront, List.append_nil]) (consecutive_concat log hentries)
          rw [appendEntry_push hlogs hlog]
          refine hstep.trans ?_
          rw [patch_nil_left, patch_nil_left, List.append_assoc, List.singleton_append]
          have hnone : forall received : List LogEntry,
              KeysDecide LogEntry.logTerm [] received := fun received k e d he => by
            cases he
          exact and_congr_left' (iff_of_true (hnone _) (hnone _))
      | cons e held =>
          have hindex : e.logIndex = log.logIndex := by
            rw [hlog, consecutive_iff.mp hlogs front.length e]
            rw [hfront, List.getElem?_append_right (Nat.le_refl _), Nat.sub_self]
            rfl
          generalize hx : (if e.logTerm = log.logTerm then e else log) = x
          have hxlog : x.logIndex = log.logIndex := by
            rw [← hx]
            by_cases hterm : e.logTerm = log.logTerm
            · rw [if_pos hterm, hindex]
            · rw [if_neg hterm]
          have hkept : Consecutive (rf.lastSnapshotIncludeIndex + 1) (front ++ x :: held) :=
            consecutive_replace (hfront ▸ hlogs) (hxlog.trans hlog)
          have hstep := @ih { rf with logs := front ++ x :: held } (front ++ [x]) held hkept
            (by rw [List.append_assoc, List.singleton_append])
            (consecutive_concat x hentries)
          rw [List.append_assoc, List.singleton_append] at hstep
          rw [patch, hx]
          constructor
          · intro h
            rcases bind_eq_ok.mp h with ⟨rf1, hone, hrest⟩
            rcases (appendEntry_replace hlogs hfront hlog).mp hone with ⟨hcommand, rfl⟩
            rw [hx] at hrest
            rcases hstep.mp hrest with ⟨hkeys, rfl⟩
            have hhead : e.logTerm = log.logTerm -> e = log := fun hterm =>
              LogEntry.eq_of hindex hterm (hcommand hterm)
            exact ⟨keysDecide_cons.mpr ⟨hhead, hkeys⟩, rfl⟩
          · rintro ⟨hkeys, rfl⟩
            rcases keysDecide_cons.mp hkeys with ⟨hhead, hkeys⟩
            have hone := (appendEntry_replace hlogs hfront hlog).mpr
              ⟨fun hterm => congrArg LogEntry.command (hhead hterm), rfl⟩
            rw [hx] at hone
            rw [hone]
            exact hstep.mpr ⟨hkeys, rfl⟩

end

/-- Where the received entries stand, the log is what is held behind the previous one. -/
theorem logAtIndex_iff {rf : Raft n} {prevLogIndex : Int}
    (hlogs : Consecutive (rf.lastSnapshotIncludeIndex + 1) rf.logs)
    (hlo : rf.lastSnapshotIncludeIndex ≤ prevLogIndex) (k : Nat) (held : LogEntry) :
    rf.logAtIndex (prevLogIndex + 1 + k) = .ok held <->
      (rf.heldAfter prevLogIndex)[k]? = some held := by
  obtain ⟨p, hp⟩ : exists p : Nat, prevLogIndex = rf.lastSnapshotIncludeIndex + p :=
    ⟨(prevLogIndex - rf.lastSnapshotIncludeIndex).toNat, by omega⟩
  have hplace : (prevLogIndex - rf.lastSnapshotIncludeIndex).toNat = p := by omega
  have hslot : prevLogIndex + 1 + k - rf.lastSnapshotIncludeIndex - 1 =
      ((p + k : Nat) : Int) := by
    omega
  rw [heldAfter, hplace, List.getElem?_drop, ← logAt_natCast, ← hslot]
  unfold logAtIndex getSlicesIndexFromLogIndex
  rw [myAssert, check_of (show prevLogIndex + 1 + k > rf.lastSnapshotIncludeIndex by omega)]
  by_cases hhi : prevLogIndex + 1 + k ≤ rf.getLastLogIndex
  · rw [myAssert, check_of hhi]
    rfl
  · have hout : logAt rf.logs (prevLogIndex + 1 + k - rf.lastSnapshotIncludeIndex - 1) ≠
        .ok held := by
      rw [hslot]
      intro h
      have hlt := (List.getElem?_eq_some_iff.mp (logAt_natCast.mp h)).1
      rw [hlogs.lastIndex] at hhi
      omega
    simp only [myAssert, check_of_not hhi, bind, Except.bind]
    exact iff_of_false (fun h => by cases h) hout

/-- The log and a current request whose previous entry it holds: the entries of both
carry the indices of their places. -/
structure Receives (rf : Raft n) (args : AppendEntriesArgs) : Prop where
  current : rf.currentTerm ≤ args.term
  logs : Consecutive (rf.lastSnapshotIncludeIndex + 1) rf.logs
  entries : Consecutive (args.prevLogIndex + 1) args.entries
  matched : rf.matchLog args.prevLogIndex args.prevLogTerm = .ok true

/-- What the assertions of `AppendEntries1` ask for. -/
structure PassesAssertions (rf : Raft n) (args : AppendEntriesArgs) : Prop where
  commands : forall log, log ∈ args.entries -> forall held,
    rf.logAtIndex log.logIndex = .ok held -> held.logTerm = log.logTerm ->
      held.command = log.command
  commit : rf.commitIndex < args.leaderCommit ∨
    rf.commitIndex ≤ max rf.getLastLogIndex (args.prevLogIndex + args.entriesSize)

/-- The log that Raft prescribes after accepting the entries of a request. -/
structure Reconciled (rf : Raft n) (args : AppendEntriesArgs) (rf' : Raft n) : Prop where
  /-- cut from the first conflict on, up to the last received entry -/
  cut : forall k,
    FirstConflict LogEntry.logTerm (rf.heldAfter args.prevLogIndex) args.entries k ->
      rf'.logs =
          rf.logs.take ((args.prevLogIndex - rf.lastSnapshotIncludeIndex).toNat + k) ++
            args.entries.drop k ∧
        rf'.getLastLogIndex = args.prevLogIndex + args.entriesSize
  /-- otherwise kept, with the missing entries appended -/
  kept : SameKeys LogEntry.logTerm (rf.heldAfter args.prevLogIndex) args.entries ->
    rf'.logs = rf.logs ++ args.entries.drop (rf.heldAfter args.prevLogIndex).length

/-- The log that the loop of `AppendEntries1` leaves. -/
def patchedLogs (rf : Raft n) (args : AppendEntriesArgs) : List LogEntry :=
  rf.logs.take (args.prevLogIndex - rf.lastSnapshotIncludeIndex).toNat ++
    patch LogEntry.logTerm (rf.heldAfter args.prevLogIndex) args.entries

namespace Receives

variable {rf : Raft n} {args : AppendEntriesArgs}

theorem range (h : Receives rf args) :
    rf.lastSnapshotIncludeIndex ≤ args.prevLogIndex ∧
      args.prevLogIndex ≤ rf.getLastLogIndex := by
  have hmatched := h.matched
  unfold matchLog at hmatched
  rcases bind_eq_ok.mp hmatched with ⟨_, hrange, _⟩
  exact check_eq_ok.mp hrange

theorem keysDecide_iff (h : Receives rf args) :
    KeysDecide LogEntry.logTerm (rf.heldAfter args.prevLogIndex) args.entries <->
      forall log, log ∈ args.entries -> forall held,
        rf.logAtIndex log.logIndex = .ok held -> held.logTerm = log.logTerm ->
          held.command = log.command := by
  have hindex := consecutive_iff.mp h.entries
  have hlook := logAtIndex_iff h.logs h.range.1
  constructor
  · intro hkeys log hlog held hheld hterm
    rcases List.getElem?_of_mem hlog with ⟨k, hk⟩
    rw [hindex k log hk] at hheld
    exact congrArg LogEntry.command (hkeys k held log ((hlook k held).mp hheld) hk hterm)
  · intro hcommands k held log hheld hlog hterm
    have hat := (hlook k held).mpr hheld
    rw [← hindex k log hlog] at hat
    exact LogEntry.eq_of (h.logs.logAtIndex hat) hterm
      (hcommands log (List.mem_of_getElem? hlog) held hat hterm)

theorem conflict_iff (h : Receives rf args) :
    (exists log, log ∈ args.entries ∧ HoldsOther rf log.logIndex log.logTerm) <->
      ¬ SameKeys LogEntry.logTerm (rf.heldAfter args.prevLogIndex) args.entries := by
  have hindex := consecutive_iff.mp h.entries
  have hlook := logAtIndex_iff h.logs h.range.1
  constructor
  · rintro ⟨log, hlog, held, hheld, hterm⟩ hsame
    rcases List.getElem?_of_mem hlog with ⟨k, hk⟩
    rw [hindex k log hk] at hheld
    exact hterm (hsame k held log ((hlook k held).mp hheld) hk)
  · intro hdiffer
    rcases sameKeys_or_firstConflict LogEntry.logTerm (rf.heldAfter args.prevLogIndex)
      args.entries with hsame | ⟨k, hfirst⟩
    · exact absurd hsame hdiffer
    · rcases hfirst.here with ⟨held, log, hheld, hlog, hterm⟩
      have hat := (hlook k held).mpr hheld
      rw [← hindex k log hlog] at hat
      exact ⟨log, List.mem_of_getElem? hlog, held, hat, hterm⟩

/-- The log behind a request, up to its previous entry and after it. -/
theorem logs_eq (h : Receives rf args) :
    exists p : Nat, args.prevLogIndex = rf.lastSnapshotIncludeIndex + p ∧
      p ≤ rf.logs.length ∧ rf.heldAfter args.prevLogIndex = rf.logs.drop p ∧
      (args.prevLogIndex - rf.lastSnapshotIncludeIndex).toNat = p := by
  rcases h.range with ⟨hlo, hhi⟩
  rw [h.logs.lastIndex] at hhi
  refine ⟨(args.prevLogIndex - rf.lastSnapshotIncludeIndex).toNat, ?_, ?_, rfl, rfl⟩
  · omega
  · omega

theorem foldlM_appendEntry (h : Receives rf args) {rf1 : Raft n} :
    args.entries.foldlM appendEntry (rf.follow args.term) = .ok rf1 <->
      KeysDecide LogEntry.logTerm (rf.heldAfter args.prevLogIndex) args.entries ∧
        rf1 = { rf.follow args.term with logs := rf.patchedLogs args } := by
  rcases h.logs_eq with ⟨p, hprev, hlen, hheld, hplace⟩
  have hfront : (rf.logs.take p).length = p := by
    rw [List.length_take]
    omega
  have hentries := h.entries
  rw [hprev, Int.add_right_comm] at hentries
  rw [patchedLogs, hplace, hheld]
  apply foldlM_appendEntry_patch
  · rw [follow_logs, follow_lastSnapshotIncludeIndex]
    exact h.logs
  · rw [follow_logs, List.take_append_drop]
  · rw [follow_lastSnapshotIncludeIndex, hfront]
    exact hentries

theorem patched_lastIndex (h : Receives rf args) {rf1 : Raft n}
    (hrun : args.entries.foldlM appendEntry (rf.follow args.term) = .ok rf1) :
    rf1.getLastLogIndex =
      max rf.getLastLogIndex (args.prevLogIndex + args.entriesSize) := by
  rcases h.logs_eq with ⟨p, hprev, hlen, hheld, hplace⟩
  have hfollow : Consecutive ((rf.follow args.term).lastSnapshotIncludeIndex + 1)
      (rf.follow args.term).logs := by
    rw [follow_logs, follow_lastSnapshotIncludeIndex]
    exact h.logs
  have hlast : args.prevLogIndex ≤ (rf.follow args.term).getLastLogIndex := by
    rw [hfollow.lastIndex, follow_logs, follow_lastSnapshotIncludeIndex, ← h.logs.lastIndex]
    exact h.range.2
  rcases foldlM_appendEntry_consecutive hfollow hlast h.entries hrun with ⟨hlogs, hsame, _⟩
  rw [← hsame] at hlogs
  have hlogs1 : rf1.logs = rf.patchedLogs args := by
    rw [(h.foldlM_appendEntry.mp hrun).2]
  rw [hlogs.lastIndex, hsame, follow_lastSnapshotIncludeIndex, h.logs.lastIndex, hlogs1,
    patchedLogs, hplace, hheld, hprev, List.length_append, length_patch, List.length_take,
    List.length_drop, AppendEntriesArgs.entriesSize]
  omega

variable [Archive]

theorem appendEntries1_eq (h : Receives rf args) :
    rf.appendEntries1 args =
      (rf.follow args.term).acceptEntries args { appState := appNormal } := by
  have hcurrent := h.current
  have hterm : args.term = (rf.observe args.term).currentTerm :=
    (observe_currentTerm h.current).symm
  have hnew : ¬ args.prevLogIndex > (rf.follow args.term).getLastLogIndex := by
    rw [getLastLogIndex, follow_getLastLogIndexAndTerm]
    exact not_lt.mpr h.range.2
  have hold : ¬ args.prevLogIndex < (rf.follow args.term).lastSnapshotIncludeIndex := by
    rw [follow_lastSnapshotIncludeIndex]
    exact not_lt.mpr h.range.1
  have hmatched : (rf.follow args.term).matchLog args.prevLogIndex args.prevLogTerm =
      .ok true := by
    rw [follow_matchLog]
    exact h.matched
  unfold appendEntries1
  simp only [if_neg (not_lt.mpr hcurrent), myAssert, check_of hterm, bind, Except.bind,
    if_neg hnew, if_neg hold, hmatched, if_true]

theorem appendEntries1_ok (h : Receives rf args) {rf' : Raft n} {reply : AppendEntriesReply}
    (hrun : rf.appendEntries1 args = .ok (rf', reply)) :
    PassesAssertions rf args ∧ rf'.logs = rf.patchedLogs args ∧
      rf'.getLastLogIndex =
        max rf.getLastLogIndex (args.prevLogIndex + args.entriesSize) := by
  rw [h.appendEntries1_eq] at hrun
  unfold acceptEntries at hrun
  rcases bind_eq_ok.mp hrun with ⟨rf1, hfold, hrun⟩
  rcases bind_eq_ok.mp hrun with ⟨_, _, hrun⟩
  rcases bind_eq_ok.mp hrun with ⟨_, hcommit, hrun⟩
  have hcommit := check_eq_ok.mp hcommit
  have hlast := h.patched_lastIndex hfold
  rcases h.foldlM_appendEntry.mp hfold with ⟨hkeys, hrf1⟩
  have hbefore : rf1.commitIndex = rf.commitIndex := by
    rw [hrf1]
    exact follow_commitIndex rf args.term
  cases hrun
  refine ⟨⟨h.keysDecide_iff.mp hkeys, ?_⟩, ?_, ?_⟩
  · rw [advanceCommit_getLastLogIndex, hlast] at hcommit
    by_cases hless : rf.commitIndex < args.leaderCommit
    · exact Or.inl hless
    · rw [advanceCommit, hbefore, if_neg hless, hbefore] at hcommit
      exact Or.inr hcommit
  · change (rf1.advanceCommit args.leaderCommit).logs = _
    rw [advanceCommit_eq, hrf1]
  · rw [← hlast, ← advanceCommit_getLastLogIndex rf1 args.leaderCommit]
    rfl

theorem appendEntries1_total (h : Receives rf args) (hpasses : PassesAssertions rf args) :
    exists rf' reply, rf.appendEntries1 args = .ok (rf', reply) := by
  have hfold := h.foldlM_appendEntry.mpr ⟨h.keysDecide_iff.mpr hpasses.commands, rfl⟩
  have hlast := h.patched_lastIndex hfold
  generalize hrf1 : { rf.follow args.term with logs := rf.patchedLogs args } = rf1
    at hfold hlast
  have hbefore : rf1.commitIndex = rf.commitIndex := by
    rw [← hrf1]
    exact follow_commitIndex rf args.term
  have hsent : rf1.getLastLogIndex ≥ args.prevLogIndex + args.entriesSize := by
    rw [hlast]
    exact le_max_right _ _
  have hcommit : (rf1.advanceCommit args.leaderCommit).getLastLogIndex ≥
      (rf1.advanceCommit args.leaderCommit).commitIndex := by
    rw [advanceCommit_getLastLogIndex]
    unfold advanceCommit
    by_cases hless : args.leaderCommit > rf1.commitIndex
    · rw [if_pos hless]
      exact min_le_right _ _
    · rw [if_neg hless, hbefore, hlast]
      rw [hbefore] at hless
      exact hpasses.commit.resolve_left hless
  rw [h.appendEntries1_eq]
  unfold acceptEntries
  simp only [hfold, bind, Except.bind, myAssert, check_of hsent, check_of hcommit]
  exact ⟨_, _, rfl⟩

end Receives

/-- The handler gets through as its assertions say, and what it leaves is what Raft
prescribes unless it mixes two logs. -/
theorem appendEntries1_reconciles_iff [Archive] {rf : Raft n} {args : AppendEntriesArgs}
    (h : Receives rf args) :
    ((exists rf' reply, rf.appendEntries1 args = .ok (rf', reply)) <->
      PassesAssertions rf args) ∧
    forall rf' reply, rf.appendEntries1 args = .ok (rf', reply) ->
      (Reconciled rf args rf' <-> ¬ MixesLogs rf args) := by
  constructor
  · constructor
    · rintro ⟨rf', reply, hrun⟩
      exact (h.appendEntries1_ok hrun).1
    · exact h.appendEntries1_total
  intro rf' reply hrun
  rcases h.appendEntries1_ok hrun with ⟨hpasses, hlogs, hlast⟩
  have hkeys := h.keysDecide_iff.mpr hpasses.commands
  constructor
  · rintro hrec ⟨_, _, hconflict, hlonger⟩
    rcases sameKeys_or_firstConflict LogEntry.logTerm (rf.heldAfter args.prevLogIndex)
      args.entries with hsame | ⟨k, hfirst⟩
    · exact h.conflict_iff.mp hconflict hsame
    · have hcut := (hrec.cut k hfirst).2
      rw [hlast, max_eq_left hlonger.le] at hcut
      omega
  · intro hnomix
    constructor
    · intro k hfirst
      have hconflict := h.conflict_iff.mpr fun hsame => by
        rcases hfirst.here with ⟨held, log, hheld, hlog, hterm⟩
        exact hterm (hsame k held log hheld hlog)
      have hshort : rf.getLastLogIndex ≤ args.prevLogIndex + args.entriesSize := by
        by_contra hlonger
        exact hnomix ⟨h.current, h.matched, hconflict, not_le.mp hlonger⟩
      rcases h.logs_eq with ⟨p, hprev, hlen, hheld, hplace⟩
      have htail : (rf.heldAfter args.prevLogIndex).length ≤ args.entries.length := by
        rw [h.logs.lastIndex, hprev, AppendEntriesArgs.entriesSize] at hshort
        rw [hheld, List.length_drop]
        omega
      constructor
      · rw [hlogs, patchedLogs, hkeys.patch htail, hplace, List.take_add, List.append_assoc,
          ← hheld, hfirst.take_append hkeys]
      · rw [hlast, max_eq_right hshort]
    · intro hsame
      rw [hlogs, patchedLogs, hsame.patch, ← List.append_assoc, heldAfter,
        List.take_append_drop]

end Raft
end

/-!
# A tail that stays

Server 0 holds three entries of term 1 and is sent two entries of terms 2 and 3: both
of its first entries give way, the third one stays.
-/

open Raft

theorem staleTailRun_not_reconciled :
    exists t, t ∈ staleTailRun.trace ∧ exists call, t.before.appendCalls[4]? = some call ∧
      t.action = .appendEntries 4 ∧ call.callee = 0 ∧
      Receives (t.before.raft 0) call.args ∧ exists rf' reply,
        @appendEntries1 3 plainArchive (t.before.raft 0) call.args = .ok (rf', reply) ∧
          ¬ Reconciled (t.before.raft 0) call.args rf' := by
  have h : exists t, t ∈ staleTailRun.trace ∧ t.action = .appendEntries 4 ∧
      exists call, call ∈ t.before.appendCalls[4]? ∧ call.callee = 0 ∧
        (t.before.raft 0).currentTerm ≤ call.args.term ∧
        Consecutive ((t.before.raft 0).lastSnapshotIncludeIndex + 1) (t.before.raft 0).logs ∧
        Consecutive (call.args.prevLogIndex + 1) call.args.entries ∧
        (t.before.raft 0).matchLog call.args.prevLogIndex call.args.prevLogTerm = .ok true ∧
        call.args.prevLogIndex + call.args.entriesSize = 2 ∧
        ((t.before.raft 0).heldAfter call.args.prevLogIndex)[0]?.map LogEntry.logTerm =
          some 1 ∧
        call.args.entries[0]?.map LogEntry.logTerm = some 2 ∧
        (@appendEntries1 3 plainArchive (t.before.raft 0) call.args).map
          (fun result => result.1.getLastLogIndex) = .ok 3 := by
    decide +kernel
  rcases h with ⟨t, ht, haction, call, hcall, hcallee, hcurrent, hlogs, hentries, hmatched,
    hend, hheld, hreceived, hrun⟩
  rcases Option.map_eq_some_iff.mp hheld with ⟨held, hheld, hheldTerm⟩
  rcases Option.map_eq_some_iff.mp hreceived with ⟨log, hlog, hlogTerm⟩
  refine ⟨t, ht, call, hcall, haction, hcallee, ⟨hcurrent, hlogs, hentries, hmatched⟩, ?_⟩
  cases hresult : @appendEntries1 3 plainArchive (t.before.raft 0) call.args with
  | error fault =>
      rw [hresult] at hrun
      cases hrun
  | ok result =>
      rw [hresult] at hrun
      refine ⟨result.1, result.2, rfl, ?_⟩
      intro hrec
      have hfirst : FirstConflict LogEntry.logTerm
          ((t.before.raft 0).heldAfter call.args.prevLogIndex) call.args.entries 0 := by
        refine ⟨fun _ _ _ hj => absurd hj (Nat.not_lt_zero _), held, log, hheld, hlog, ?_⟩
        rw [hheldTerm, hlogTerm]
        decide
      have hlast := (hrec.cut 0 hfirst).2
      have hthree : result.1.getLastLogIndex = 3 := Except.ok.inj hrun
      omega

/-- A server with only the first two entries of that log. -/
def shortNode : Raft 3 :=
  { Raft.blank 0 (Persister.create [] []) with
    currentTerm := 1
    logs :=
      [{ command := [1], logTerm := 1, logIndex := 1 },
        { command := [1], logTerm := 1, logIndex := 2 }] }

def replacingArgs : AppendEntriesArgs where
  term := 3
  leaderId := 2
  prevLogIndex := 0
  prevLogTerm := 0
  entries :=
    [{ command := [2], logTerm := 2, logIndex := 1 },
      { command := [3], logTerm := 3, logIndex := 2 }]
  leaderCommit := 0

theorem shortNode_reconciled :
    (exists log, log ∈ replacingArgs.entries ∧
      HoldsOther shortNode log.logIndex log.logTerm) ∧
    exists rf' reply,
      @appendEntries1 3 plainArchive shortNode replacingArgs = .ok (rf', reply) ∧
        Reconciled shortNode replacingArgs rf' := by
  have hreceives : Receives shortNode replacingArgs :=
    ⟨by decide, by decide, by decide, by decide +kernel⟩
  have hnomix : ¬ MixesLogs shortNode replacingArgs := by
    decide +kernel
  have hpasses : PassesAssertions shortNode replacingArgs := by
    have hothers : forall log, log ∈ replacingArgs.entries ->
        HoldsOther shortNode log.logIndex log.logTerm := by
      decide +kernel
    refine ⟨?_, by decide +kernel⟩
    intro log hlog held hheld hterm
    rcases hothers log hlog with ⟨other, hother, hne⟩
    rw [hheld] at hother
    cases hother
    exact absurd hterm hne
  rcases @appendEntries1_reconciles_iff 3 plainArchive shortNode replacingArgs hreceives with
    ⟨hruns, hrec⟩
  rcases hruns.mpr hpasses with ⟨rf', reply, hrun⟩
  exact ⟨by decide +kernel, rf', reply, hrun, (hrec rf' reply hrun).mpr hnomix⟩

end RaftCore
end KVRaft
