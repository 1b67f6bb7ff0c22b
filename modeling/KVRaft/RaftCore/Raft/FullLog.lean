import KVRaft.RaftCore.Raft.Snapshotting

/-!
# Handlers over complete logs

What the handlers that read or compact the log do, said of the complete log a
node holds.
-/

namespace KVRaft
namespace RaftCore

open Foundation (bind_eq_ok check_of check_eq_ok)

namespace Raft

variable {n : Nat}

def Outgoing.server : Outgoing n -> Fin n
  | .appendEntries server _ => server
  | .snapShot server => server

/-- The request that sends a complete log from index `p` on. -/
def appendArgs (rf : Raft n) (L : List LogEntry) (p : Nat) : AppendEntriesArgs where
  term := rf.currentTerm
  leaderId := (rf.me : Nat)
  prevLogIndex := p
  prevLogTerm := termAt L p
  entries := L.drop p
  leaderCommit := rf.commitIndex

/-- The message that hands over the entry at place `k`. -/
def commandMsg (log : LogEntry) (k : Nat) : ApplyMsg where
  commandValid := true
  command := log.command
  commandIndex := (k : Int) + 1

/-!
# Heartbeats
-/

theorem heartBeatTo_server {rf : Raft n} {i : Fin n} {message : Outgoing n}
    (h : rf.heartBeatTo i = .ok message) : message.server = i := by
  unfold heartBeatTo at h
  rcases bind_eq_ok.mp h with ⟨_, _, h⟩
  by_cases hsnap : rf.nextIndex i ≤ rf.lastSnapshotIncludeIndex
  · rw [if_pos hsnap] at h
    cases h
    rfl
  · rw [if_neg hsnap] at h
    rcases bind_eq_ok.mp h with ⟨_, _, h⟩
    rcases bind_eq_ok.mp h with ⟨_, _, h⟩
    rcases bind_eq_ok.mp h with ⟨_, _, h⟩
    cases h
    rfl

theorem mem_heartBeats {rf : Raft n} {targets : List (Fin n)} {message : Outgoing n}
    (h : message ∈ (rf.heartBeats targets).1) :
    rf.heartBeatTo message.server = .ok message := by
  induction targets with
  | nil => cases h
  | cons i rest ih =>
      rw [heartBeats] at h
      cases hi : rf.heartBeatTo i with
      | error fault =>
          rw [hi] at h
          cases h
      | ok first =>
          rw [hi] at h
          rcases List.mem_cons.mp h with hfirst | hrest
          · rw [hfirst, heartBeatTo_server hi]
            exact hi
          · exact ih hrest

/-- Each peer gets at most one message a heartbeat. -/
theorem heartBeats_servers (rf : Raft n) (targets : List (Fin n)) :
    ((rf.heartBeats targets).1.map Outgoing.server).Sublist targets := by
  induction targets with
  | nil => exact List.Sublist.slnil
  | cons i rest ih =>
      rw [heartBeats]
      cases hi : rf.heartBeatTo i with
      | error fault => exact List.nil_sublist _
      | ok first =>
          simp only [List.map_cons, heartBeatTo_server hi]
          exact ih.cons_cons i

theorem heartBeats_total {rf : Raft n} {targets : List (Fin n)}
    (h : forall i, i ∈ targets -> exists message, rf.heartBeatTo i = .ok message) :
    (rf.heartBeats targets).2 = none := by
  induction targets with
  | nil => rfl
  | cons i rest ih =>
      rcases h i List.mem_cons_self with ⟨message, hi⟩
      rw [heartBeats, hi]
      exact ih fun j hj => h j (List.mem_cons_of_mem i hj)

theorem mem_othersOf {me i : Fin n} : i ∈ othersOf me <-> i ≠ me := by
  simp [othersOf]

theorem othersOf_nodup (me : Fin n) : (othersOf me).Nodup :=
  (List.nodup_finRange n).filter _

end Raft

namespace Holds

variable {n : Nat} {rf : Raft n} {L : List LogEntry} {s : Nat}

theorem heartBeatTo_snapShot (h : Holds rf L s) {i : Fin n} (hlo : 1 ≤ rf.nextIndex i)
    (hhi : rf.nextIndex i ≤ s) : rf.heartBeatTo i = .ok (.snapShot i) := by
  rw [Raft.heartBeatTo, myAssert, check_of hlo]
  simp only [h.index, if_pos hhi]
  rfl

theorem entriesAfter (h : Holds rf L s) {p : Nat} (hlo : s ≤ p) (hhi : p ≤ L.length) :
    rf.entriesAfter (p : Int) = .ok (L.drop p) := by
  unfold Raft.entriesAfter
  rw [h.index]
  by_cases hps : (p : Int) = s
  · rw [if_neg (not_not_intro hps), h.logs, show p = s by omega]
  · rw [if_pos hps, h.slice (by omega) (by omega)]
    have hslot : ((p : Int) - s - 1 + 1).toNat = p - s := by omega
    simp only [bind, Except.bind, hslot, h.logs, List.drop_drop]
    rw [show s + (p - s) = p by omega]
    rfl

theorem getPrevLogInfo (h : Holds rf L s) {i : Fin n} {p : Nat}
    (hp : rf.nextIndex i = p + 1) (hlo : s ≤ p) (hhi : p ≤ L.length) :
    rf.getPrevLogInfo i = .ok ((p : Int), termAt L p) := by
  unfold Raft.getPrevLogInfo
  rw [hp, h.index]
  by_cases hps : (p : Int) + 1 = s + 1
  · have hps' : p = s := by omega
    rw [if_pos hps, h.term, hps']
  · rw [if_neg hps]
    obtain ⟨k, rfl⟩ : exists k, p = k + 1 := ⟨p - 1, by omega⟩
    rcases getElem?_of_lt (show k < L.length by omega) with ⟨log, hlog⟩
    have hlook := h.logAtIndex (by omega) hlog
    rw [show ((k + 1 : Nat) : Int) + 1 - 1 = (k : Int) + 1 by omega, termAt_succ hlog]
    simp only [bind, Except.bind, hlook]
    rfl

theorem heartBeatTo_append (h : Holds rf L s) {i : Fin n} {p : Nat}
    (hp : rf.nextIndex i = p + 1) (hlo : s ≤ p) (hhi : p ≤ L.length) :
    rf.heartBeatTo i = .ok (.appendEntries i (rf.appendArgs L p)) := by
  have h1 : rf.nextIndex i ≥ 1 := by omega
  have h2 : ¬ rf.nextIndex i ≤ rf.lastSnapshotIncludeIndex := by
    rw [h.index]
    omega
  have h3 : (rf.appendArgs L p).prevLogIndex + (rf.appendArgs L p).entriesSize =
      rf.getLastLogIndex := by
    rw [h.lastIndex]
    simp only [Raft.appendArgs, AppendEntriesArgs.entriesSize, List.length_drop]
    omega
  rw [Raft.heartBeatTo, myAssert, check_of h1]
  simp only [bind, Except.bind, if_neg h2, h.getPrevLogInfo hp hlo hhi,
    h.entriesAfter hlo hhi]
  exact congrArg (fun x => Except.bind x fun _ => _) (check_of h3)

/-- An append request is always cut from the sender's complete log. -/
theorem heartBeatTo_append_inv (h : Holds rf L s) {i j : Fin n} {args : AppendEntriesArgs}
    (hm : rf.heartBeatTo i = .ok (.appendEntries j args)) :
    exists p, s ≤ p ∧ p ≤ L.length ∧ rf.nextIndex i = p + 1 ∧
      args = rf.appendArgs L p := by
  have hm' := hm
  unfold Raft.heartBeatTo at hm'
  rcases bind_eq_ok.mp hm' with ⟨_, h1, hm'⟩
  have h1 := check_eq_ok.mp h1
  by_cases h2 : rf.nextIndex i ≤ rf.lastSnapshotIncludeIndex
  · rw [if_pos h2] at hm'
    cases hm'
  rw [if_neg h2] at hm'
  rw [h.index] at h2
  rcases bind_eq_ok.mp hm' with ⟨prev, hprev, _⟩
  have hhi : rf.nextIndex i - 1 ≤ L.length := by
    unfold Raft.getPrevLogInfo at hprev
    by_cases heq : rf.nextIndex i = rf.lastSnapshotIncludeIndex + 1
    · have := h.le
      rw [h.index] at heq
      omega
    · rw [if_neg heq] at hprev
      rcases bind_eq_ok.mp hprev with ⟨log, hlog, _⟩
      rcases h.logAtIndex_inv hlog with ⟨k, hk, _, hkL⟩
      have := (List.getElem?_eq_some_iff.mp hkL).1
      omega
  refine ⟨(rf.nextIndex i - 1).toNat, by omega, by omega, by omega, ?_⟩
  rw [h.heartBeatTo_append (p := (rf.nextIndex i - 1).toNat) (by omega) (by omega)
    (by omega)] at hm
  cases hm
  rfl

theorem heartBeatTo_total (h : Holds rf L s) {i : Fin n} (hlo : 1 ≤ rf.nextIndex i)
    (hhi : rf.nextIndex i ≤ L.length + 1) :
    exists message, rf.heartBeatTo i = .ok message := by
  by_cases hsnap : rf.nextIndex i ≤ s
  · exact ⟨_, h.heartBeatTo_snapShot hlo hsnap⟩
  · exact ⟨_, h.heartBeatTo_append (p := (rf.nextIndex i - 1).toNat) (by omega) (by omega)
      (by omega)⟩

/-!
# Applying
-/

theorem applyLoop (h : Holds rf L s) (steps : Nat) {k : Nat} (hk : rf.lastApplied = k)
    (hs : s ≤ k) (hhi : k + steps ≤ L.length) :
    exists msgs, Raft.applyLoop steps rf =
        .ok ({ rf with lastApplied := (k + steps : Nat) }, msgs) ∧
      forall msg, msg ∈ msgs -> exists j log, k ≤ j ∧ j < k + steps ∧
        L[j]? = some log ∧ msg = Raft.commandMsg log j := by
  induction steps generalizing rf k with
  | zero =>
      refine ⟨[], ?_, ?_⟩
      · rw [Raft.applyLoop, Nat.add_zero, ← hk]
      · intro msg hmsg
        cases hmsg
  | succ steps ih =>
      rcases getElem?_of_lt (show k < L.length by omega) with ⟨log, hlog⟩
      have hnext : Holds { rf with lastApplied := rf.lastApplied + 1 } L s :=
        h.congr rfl rfl rfl
      have hlook := hnext.logAtIndex hs hlog
      have hindex : log.logIndex = rf.lastApplied + 1 := by
        rw [hk]
        exact (h.numbered _ _ hlog).1
      rcases ih (k := k + 1) hnext (by simp only [hk]; omega) (by omega) (by omega) with
        ⟨msgs, hloop, hmsgs⟩
      refine ⟨Raft.commandMsg log k :: msgs, ?_, ?_⟩
      · rw [← hk] at hlook
        simp only [Raft.applyLoop, bind, Except.bind, hlook, myAssert, check_of hindex, hloop]
        rw [show k + 1 + steps = k + (steps + 1) by omega, hk]
        rfl
      · intro msg hmsg
        rcases List.mem_cons.mp hmsg with hfirst | hrest
        · exact ⟨k, log, Nat.le_refl k, by omega, hlog, hfirst⟩
        · rcases hmsgs msg hrest with ⟨j, d, hlo, hj, hd, hmsg⟩
          exact ⟨j, d, by omega, by omega, hd, hmsg⟩

/-- Applying hands over the entries between the two indices and never faults. -/
theorem getApplyLogs (h : Holds rf L s) (hs : (s : Int) ≤ rf.lastApplied)
    (hle : rf.lastApplied ≤ rf.commitIndex) (hhi : rf.commitIndex ≤ L.length) :
    exists msgs, rf.getApplyLogs = .ok ({ rf with lastApplied := rf.commitIndex }, msgs) ∧
      forall msg, msg ∈ msgs -> exists (j : Nat) (log : LogEntry),
        rf.lastApplied ≤ j ∧ (j : Int) < rf.commitIndex ∧
          L[j]? = some log ∧ msg = Raft.commandMsg log j := by
  rcases h.applyLoop (rf.commitIndex - rf.lastApplied).toNat
    (k := rf.lastApplied.toNat) (by omega) (by omega) (by omega) with ⟨msgs, hloop, hmsgs⟩
  refine ⟨msgs, ?_, ?_⟩
  · have hcommit : rf.commitIndex ≤ rf.getLastLogIndex := by
      rw [h.lastIndex]
      exact hhi
    have hend : ((rf.lastApplied.toNat + (rf.commitIndex - rf.lastApplied).toNat : Nat) :
        Int) = rf.commitIndex := by
      omega
    rw [Raft.getApplyLogs, myAssert, check_of hcommit]
    rw [hend] at hloop
    exact hloop
  · intro msg hmsg
    rcases hmsgs msg hmsg with ⟨j, log, hlo, hj, hlog, hmsg⟩
    exact ⟨j, log, by omega, by omega, hlog, hmsg⟩

/-!
# Snapshots
-/

theorem trunckedLogs (h : Holds rf L s) (steps : Nat) {k : Nat} (hs : s ≤ k)
    (hhi : k + steps = L.length) :
    rf.trunckedLogs steps ((k : Int) + 1) = .ok (L.drop k) := by
  induction steps generalizing k with
  | zero =>
      rw [List.drop_eq_nil_of_le (by omega)]
      rfl
  | succ steps ih =>
      rcases getElem?_of_lt (show k < L.length by omega) with ⟨log, hlog⟩
      have hlook := h.logAtIndex hs hlog
      have hrest := ih (k := k + 1) (by omega) (by omega)
      rw [show ((k + 1 : Nat) : Int) + 1 = (k : Int) + 1 + 1 by omega] at hrest
      have hdrop : L.drop k = log :: L.drop (k + 1) :=
        (List.drop_eq_getElem_cons (by omega)).trans (by
          rw [(List.getElem?_eq_some_iff.mp hlog).2])
      rw [Raft.trunckedLogs, hdrop]
      simp only [bind, Except.bind, hlook, hrest]
      rfl

/-- The same complete log, compacted up to a later index. -/
theorem compact (h : Holds rf L s) {k : Nat} (hk : k ≤ L.length) {rf' : Raft n}
    (hindex : rf'.lastSnapshotIncludeIndex = k)
    (hterm : rf'.lastSnapshotIncludeTerm = termAt L k)
    (hlogs : rf'.logs = L.drop k) : Holds rf' L k where
  le := hk
  index := hindex
  term := hterm
  logs := hlogs
  numbered := h.numbered

end Holds

namespace Raft

variable {n : Nat} [Archive]

/-- What a local snapshot leaves of a node, its files aside. -/
inductive SnapshotEffect (rf : Raft n) (L : List LogEntry) : Raft n -> Prop where
  | rejected : SnapshotEffect rf L rf
  | compacted {k : Nat} {persister : Persister} :
      rf.lastSnapshotIncludeIndex < k -> (k : Int) ≤ rf.commitIndex ->
      SnapshotEffect rf L
        { rf with
          persister := persister
          lastSnapshotIncludeIndex := k
          lastSnapshotIncludeTerm := termAt L k
          logs := L.drop k
          lastApplied := max rf.lastApplied k }

theorem snapshot_effect {rf : Raft n} {L : List LogEntry} {s : Nat} (h : Holds rf L s)
    (hcommit : rf.commitIndex ≤ L.length) (index : Int) (data : Bytes) :
    exists rf', rf.snapshot index data = .ok rf' ∧ SnapshotEffect rf L rf' := by
  unfold snapshot
  by_cases hreject : rf.lastSnapshotIncludeIndex ≥ index ∨ index > rf.commitIndex
  · rw [if_pos hreject]
    exact ⟨rf, rfl, .rejected⟩
  rw [if_neg hreject]
  have hlo : rf.lastSnapshotIncludeIndex < index := by omega
  have hhi : index ≤ rf.commitIndex := by omega
  obtain ⟨k, rfl⟩ : exists k : Nat, index = (k : Int) + 1 :=
    ⟨(index - 1).toNat, by rw [h.index] at hlo; omega⟩
  have hs : s ≤ k := by
    rw [h.index] at hlo
    omega
  rcases getElem?_of_lt (show k < L.length by omega) with ⟨log, hlog⟩
  have hlook := h.logAtIndex hs hlog
  have hkept := h.trunckedLogs (L.length - (k + 1)) (k := k + 1) (by omega)
    (by omega)
  have hsteps : (rf.getLastLogIndex - ((k : Int) + 1)).toNat = L.length - (k + 1) := by
    rw [h.lastIndex]
    omega
  have hlen : ((L.drop (k + 1)).length : Int) + ((k : Int) + 1) = rf.getLastLogIndex := by
    rw [h.lastIndex, List.length_drop]
    omega
  rw [show ((k + 1 : Nat) : Int) + 1 = (k : Int) + 1 + 1 by omega] at hkept
  simp only [bind, Except.bind, hlook, hsteps, hkept, myAssert, check_of hlen,
    max_eq_left hhi]
  refine ⟨_, rfl, ?_⟩
  rw [← termAt_succ hlog]
  exact SnapshotEffect.compacted (k := k + 1) hlo hhi

/-- What a received snapshot leaves of a node, its files aside. -/
inductive InstallEffect (rf : Raft n) (args : InstallSnapshotRequest) :
    Raft n -> InstallSnapshotResponse -> Option ApplyMsg -> Prop where
  | stale {reply : InstallSnapshotResponse} : args.term < rf.currentTerm ->
      InstallEffect rf args rf reply none
  | outdated {persister : Persister} : rf.currentTerm ≤ args.term ->
      args.lastSnapshotIncludeIndex ≤ rf.lastSnapshotIncludeIndex ->
      InstallEffect rf args { rf.follow args.term with persister := persister } {} none
  | installed {persister : Persister} {logs : List LogEntry}
      {reply : InstallSnapshotResponse} : rf.currentTerm ≤ args.term ->
      rf.lastSnapshotIncludeIndex < args.lastSnapshotIncludeIndex ->
      rf.logsBeyond args.lastSnapshotIncludeIndex = .ok logs ->
      reply.term = args.term ->
      InstallEffect rf args
        { rf.follow args.term with
          persister := persister
          logs := logs
          commitIndex := max rf.commitIndex args.lastSnapshotIncludeIndex
          lastApplied := max rf.lastApplied args.lastSnapshotIncludeIndex
          lastSnapshotIncludeIndex := args.lastSnapshotIncludeIndex
          lastSnapshotIncludeTerm := args.lastSnapshotIncludeTerm }
        reply (some (snapshotMsg args))

theorem followSnapshot_takeSnapshot (rf : Raft n) (args : InstallSnapshotRequest)
    (logs : List LogEntry) :
    exists persister, (rf.followSnapshot args.term).takeSnapshot args logs =
      { rf.follow args.term with
        persister := persister
        logs := logs
        commitIndex := max rf.commitIndex args.lastSnapshotIncludeIndex
        lastApplied := max rf.lastApplied args.lastSnapshotIncludeIndex
        lastSnapshotIncludeIndex := args.lastSnapshotIncludeIndex
        lastSnapshotIncludeTerm := args.lastSnapshotIncludeTerm } := by
  rw [followSnapshot_eq, ← follow_commitIndex rf args.term,
    ← follow_lastApplied rf args.term]
  exact ⟨_, rfl⟩

theorem installSnapshot_effect {rf rf' : Raft n} {args : InstallSnapshotRequest}
    {reply : InstallSnapshotResponse} {msg : Option ApplyMsg}
    (h : rf.installSnapshot args = .ok (rf', reply, msg)) :
    InstallEffect rf args rf' reply msg := by
  rcases installSnapshot_cases h with ⟨hlt, rfl, rfl⟩ | ⟨hle, ⟨hold, rfl, rfl, rfl⟩ |
    ⟨logs, hindex, hlogs, rfl, rfl, rfl⟩⟩
  · exact .stale hlt
  · rw [followSnapshot_eq]
    exact .outdated hle hold
  · rcases followSnapshot_takeSnapshot rf args logs with ⟨persister, htake⟩
    rw [htake]
    exact .installed hle hindex hlogs (follow_currentTerm hle)

end Raft

namespace Holds

variable {n : Nat} {rf : Raft n} {L : List LogEntry} {s : Nat}

/-- A snapshot inside the log keeps what follows it, whatever came before. -/
theorem logsBeyond (h : Holds rf L s) {k : Nat} (hk : s < k) :
    rf.logsBeyond (k : Int) = .ok (L.drop k) := by
  unfold Raft.logsBeyond
  rw [h.lastIndex]
  by_cases hlast : (L.length : Int) > k
  · rw [if_pos hlast, h.slice (by omega) (by omega)]
    have hslot : ((k : Int) - s - 1 + 1).toNat = k - s := by omega
    simp only [bind, Except.bind, hslot, h.logs, List.drop_drop]
    rw [show s + (k - s) = k by omega]
    rfl
  · rw [if_neg hlast, List.drop_eq_nil_of_le (by omega)]

end Holds
end RaftCore
end KVRaft
