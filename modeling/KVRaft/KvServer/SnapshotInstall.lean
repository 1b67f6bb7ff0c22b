import KVRaft.KvServer.Delivery
import KVRaft.KvServer.PlainKvArchive

/-!
# Installing a snapshot

A snapshot older than what a server has applied rolls its table of requests back,
and keeps its map.  Nothing changes only if nothing happened since.
-/

namespace KVRaft
namespace KvServer

open Foundation RaftCore KvNode

/-!
# Replaying commands
-/

def applyCommand (kv : KvServer) (op : Op) : KvServer :=
  kv.executeUnless op (kv.ifRequestDuplicate op.clientId op.requestId)

/-- A server that has applied commands in order, the first one first. -/
def replay (maxRaftState : Int) (commands : List Op) : KvServer :=
  commands.foldl applyCommand (create maxRaftState)

/-- The same map and the same table of requests. -/
structure SameData (kv kv' : KvServer) : Prop where
  map : forall key, kv.skipList.searchElement key = kv'.skipList.searchElement key
  requests : forall clientId,
    kv.lastRequestId.lookup clientId = kv'.lastRequestId.lookup clientId

/-- A command that changes a server: neither a Get nor a duplicate. -/
def Effective (kv : KvServer) (op : Op) : Prop :=
  op.Writes ∧ kv.ifRequestDuplicate op.clientId op.requestId = false

/-- The command with index `i + 1` takes effect where all before it were applied. -/
def TakesEffect (maxRaftState : Int) (commands : List Op) (i : Nat) : Prop :=
  exists op, commands[i]? = some op ∧ Effective (replay maxRaftState (commands.take i)) op

/-- The tables agree, and the map of the second server has all keys of the first. -/
structure NothingNewer (maker kv : KvServer) : Prop where
  requests : forall clientId,
    maker.lastRequestId.lookup clientId = kv.lastRequestId.lookup clientId
  keys : forall key, maker.skipList.Contains key -> kv.skipList.Contains key

/-- No request of the first server is newer than those of the second. -/
def AtMost (kv kv' : KvServer) : Prop :=
  forall clientId last, kv.lastRequestId.lookup clientId = some last ->
    exists last', kv'.lastRequestId.lookup clientId = some last' ∧ last ≤ last'

theorem SameData.refl (kv : KvServer) : SameData kv kv where
  map _ := rfl
  requests _ := rfl

theorem SameData.symm {kv kv' : KvServer} (h : SameData kv kv') : SameData kv' kv where
  map key := (h.map key).symm
  requests clientId := (h.requests clientId).symm

theorem SameData.trans {kv kv' kv'' : KvServer} (h : SameData kv kv')
    (k : SameData kv' kv'') : SameData kv kv'' where
  map key := (h.map key).trans (k.map key)
  requests clientId := (h.requests clientId).trans (k.requests clientId)

theorem applyCommand_effective {kv : KvServer} {op : Op} (h : Effective kv op) :
    applyCommand kv op = kv.execute op := by
  rw [applyCommand, h.2]
  rfl

theorem applyCommand_of_not_effective {kv : KvServer} {op : Op} (h : ¬ Effective kv op) :
    applyCommand kv op = kv := by
  rw [applyCommand]
  cases hdup : kv.ifRequestDuplicate op.clientId op.requestId with
  | true => rfl
  | false =>
      have hreads : ¬ op.Writes := fun hwrites => h ⟨hwrites, hdup⟩
      exact execute_of_not_writes hreads

theorem AtMost.refl (kv : KvServer) : AtMost kv kv := by
  intro clientId last hlast
  exact ⟨last, hlast, le_refl last⟩

theorem AtMost.trans {kv kv' kv'' : KvServer} (h : AtMost kv kv') (k : AtMost kv' kv'') :
    AtMost kv kv'' := by
  intro clientId last hlast
  rcases h clientId last hlast with ⟨last', hlast', hle⟩
  rcases k clientId last' hlast' with ⟨last'', hlast'', hle'⟩
  exact ⟨last'', hlast'', hle.trans hle'⟩

/-- Executing what is no duplicate raises the last request of its client. -/
theorem atMost_applyCommand (kv : KvServer) (op : Op) : AtMost kv (applyCommand kv op) := by
  by_cases heffective : Effective kv op
  · rw [applyCommand_effective heffective]
    intro clientId last hlast
    rw [execute_lastRequestId heffective.1]
    by_cases hclient : clientId = op.clientId
    · rw [hclient] at hlast ⊢
      refine ⟨op.requestId, AList.lookup_insert _, ?_⟩
      by_contra hlt
      have hdup : kv.ifRequestDuplicate op.clientId op.requestId = true :=
        ifRequestDuplicate_eq_true.mpr ⟨last, hlast, (not_le.mp hlt).le⟩
      rw [heffective.2] at hdup
      cases hdup
    · exact ⟨last, (AList.lookup_insert_ne hclient).trans hlast, le_refl last⟩
  · rw [applyCommand_of_not_effective heffective]
    exact AtMost.refl kv

theorem replay_succ {maxRaftState : Int} {commands : List Op} {i : Nat} {op : Op}
    (h : commands[i]? = some op) :
    replay maxRaftState (commands.take (i + 1)) =
      applyCommand (replay maxRaftState (commands.take i)) op := by
  rw [replay, replay, List.take_add_one, h, List.foldl_append]
  rfl

theorem replay_atMost (maxRaftState : Int) {commands : List Op} {s k : Nat} (h : s ≤ k)
    (hk : k ≤ commands.length) :
    AtMost (replay maxRaftState (commands.take s)) (replay maxRaftState (commands.take k)) := by
  induction k, h using Nat.le_induction with
  | base => exact AtMost.refl _
  | succ i _ ih =>
      have hop := List.getElem?_eq_getElem (show i < commands.length by omega)
      rw [replay_succ hop]
      exact (ih (by omega)).trans (atMost_applyCommand _ _)

theorem replay_eq {maxRaftState : Int} {commands : List Op} {s k : Nat} (h : s ≤ k)
    (hk : k ≤ commands.length)
    (hnone : forall i, s ≤ i -> i < k -> ¬ TakesEffect maxRaftState commands i) :
    replay maxRaftState (commands.take k) = replay maxRaftState (commands.take s) := by
  induction k, h using Nat.le_induction with
  | base => rfl
  | succ i hi ih =>
      have hop := List.getElem?_eq_getElem (show i < commands.length by omega)
      have hold := ih (by omega) fun j hlo hhi => hnone j hlo (by omega)
      rw [replay_succ hop, applyCommand_of_not_effective, hold]
      intro heffective
      exact hnone i hi (Nat.lt_succ_self i) ⟨_, hop, heffective⟩

/-- A table that is not older misses no command that took effect. -/
theorem nothingNewer_replay_iff (maxRaftState : Int) {commands : List Op} {s k : Nat}
    (h : s ≤ k) (hk : k ≤ commands.length) :
    NothingNewer (replay maxRaftState (commands.take s))
        (replay maxRaftState (commands.take k)) <->
      forall i, s ≤ i -> i < k -> ¬ TakesEffect maxRaftState commands i := by
  constructor
  · rintro hsame i hlo hhi ⟨op, hop, heffective⟩
    have hnew : (replay maxRaftState (commands.take (i + 1))).lastRequestId.lookup
        op.clientId = some op.requestId := by
      rw [replay_succ hop, applyCommand_effective heffective,
        execute_lastRequestId heffective.1]
      exact AList.lookup_insert _
    -- from i + 1 up to k the table holds the request, and so it does at s and at i
    rcases replay_atMost maxRaftState (show i + 1 ≤ k from hhi) hk _ _ hnew
      with ⟨last, hlast, hle⟩
    rw [← hsame.requests] at hlast
    rcases replay_atMost maxRaftState hlo (by omega) _ _ hlast
      with ⟨last', hlast', hle'⟩
    have hdup := ifRequestDuplicate_eq_true.mpr ⟨last', hlast', hle.trans hle'⟩
    rw [heffective.2] at hdup
    cases hdup
  · intro hnone
    rw [replay_eq h hk hnone]
    exact { requests := fun _ => rfl, keys := fun _ => id }

theorem NothingNewer.congr {maker maker' kv kv' : KvServer} (h : NothingNewer maker kv)
    (hmaker : SameData maker maker') (hkv : SameData kv kv') : NothingNewer maker' kv' where
  requests := by
    intro clientId
    rw [← hmaker.requests, ← hkv.requests]
    exact h.requests clientId
  keys := by
    intro key hkey
    rw [SkipList.contains_iff, ← hmaker.map, ← SkipList.contains_iff] at hkey
    rw [SkipList.contains_iff, ← hkv.map, ← SkipList.contains_iff]
    exact h.keys key hkey

/-!
# Installing
-/

section

variable [KvArchive] [LawfulKvArchive]

theorem readSnapShotToInstall_makeSnapShot {kv maker kv' : KvServer}
    (h : kv.readSnapShotToInstall maker.makeSnapShot = some kv') :
    exists loaded, kv.skipList.loadFile maker.skipList.dumpFile = some loaded ∧
      kv' = { kv with skipList := loaded, lastRequestId := maker.lastRequestId } := by
  have hne : maker.makeSnapShot.isEmpty = false := by
    rw [List.isEmpty_eq_false_iff]
    exact LawfulKvArchive.textOarchiveServer_ne_nil _
  unfold readSnapShotToInstall at h
  rw [hne] at h
  unfold parseFromString makeSnapShot getSnapshotData at h
  simp only [Bool.false_eq_true, if_false,
    LawfulKvArchive.textIarchive_textOarchiveServer] at h
  rcases Option.bind_eq_some_iff.mp h with ⟨archive, harchive, h⟩
  cases harchive
  rcases Option.bind_eq_some_iff.mp h with ⟨loaded, hload, h⟩
  cases h
  exact ⟨loaded, hload, rfl⟩

theorem getSnapShotFromRaft_keeps_iff {n : Nat} {kv maker kv' : KvServer} {rf : Raft n}
    {msg : ApplyMsg} (hmade : msg.snapshot = maker.makeSnapShot)
    (h : kv.getSnapShotFromRaft rf msg = some kv') :
    SameData kv' kv <-> NothingNewer maker kv := by
  have hcond : rf.condInstallSnapshot msg.snapshotTerm msg.snapshotIndex msg.snapshot =
      true := rfl
  unfold getSnapShotFromRaft at h
  rw [if_pos hcond, hmade] at h
  rcases Option.map_eq_some_iff.mp h with ⟨kv1, hread, rfl⟩
  rcases readSnapShotToInstall_makeSnapShot hread with ⟨loaded, hload, rfl⟩
  have hmap := SkipList.loadFile_dumpFile_same hload
  constructor
  · intro hsame
    exact { requests := hsame.requests, keys := hmap.mp hsame.map }
  · intro hnone
    exact { map := hmap.mpr hnone.keys, requests := hnone.requests }

variable [Archive]

/-- A snapshot leaves a server's data alone exactly when it misses nothing; one that
was made at command s, installed over command k, misses what took effect between. -/
theorem snapshot_install_keeps_state {n : Nat} {me : Fin n} {maxRaftState : Int}
    (r : (kvSystem me maxRaftState).Run) {t : Transition (KvNode n) (KvAction n)}
    (ht : t ∈ r.trace) {msg : ApplyMsg} (hmsg : msg ∈ received t)
    (hsnapshot : msg.snapshotValid = true) {maker : KvServer}
    (hmade : msg.snapshot = maker.makeSnapShot) :
    (SameData t.after.kv t.before.kv <-> NothingNewer maker t.before.kv) ∧
    (forall commands s k, s ≤ k -> k ≤ commands.length ->
      SameData maker (replay maxRaftState (commands.take s)) ->
      SameData t.before.kv (replay maxRaftState (commands.take k)) ->
      (SameData t.after.kv (replay maxRaftState (commands.take k)) <->
        forall i, s ≤ i -> i < k -> ¬ TakesEffect maxRaftState commands i)) := by
  rcases r.valid.before_of_mem ht with ⟨earlier, hearlier, _⟩
  rcases received_step (r.valid.step_of_mem ht) hmsg with ⟨call, hread⟩
  have hkind := (ofOneKind hearlier).applyChan msg (mem_applyChan_of_received hmsg)
  have hcommand : msg.commandValid = false := by
    rw [OneKind, hsnapshot] at hkind
    cases hvalid : msg.commandValid with
    | true =>
        rw [hvalid] at hkind
        cases hkind
    | false => rfl
  have hkeeps := getSnapShotFromRaft_keeps_iff hmade
    (loop_snapshot hcommand hsnapshot hread).1
  refine ⟨hkeeps, ?_⟩
  intro commands s k hs hk hmaker hbefore
  have hnewer := nothingNewer_replay_iff maxRaftState hs hk
  constructor
  · intro hafter
    have hnone := hkeeps.mp (hafter.trans hbefore.symm)
    exact hnewer.mp (hnone.congr hmaker hbefore)
  · intro hnone
    have hold := (hnewer.mpr hnone).congr hmaker.symm hbefore.symm
    exact (hkeeps.mpr hold).trans hbefore

end

/-!
# A snapshot that comes late

A follower has applied a Put and an Append when a snapshot made after the Put
arrives.  The Append is sent again and appends a second time.  In the other run it is sent
again before a snapshot made after both commands arrives, and nothing changes.
-/

def clientOps : List Op :=
  [{ operation := .put, key := [120], value := [97], clientId := [65], requestId := 1 },
    { operation := .append, key := [120], value := [98], clientId := [65], requestId := 2 },
    { operation := .append, key := [120], value := [98], clientId := [65], requestId := 2 }]

def clientEntries : List LogEntry :=
  clientOps.mapIdx fun i op => { command := putOp op, logTerm := 1, logIndex := i + 1 }

def appendClientOps (first last : Nat) : KvAction 3 :=
  .handle (.appendEntries1
    { term := 1
      leaderId := 1
      prevLogIndex := first
      prevLogTerm := if first = 0 then 0 else 1
      entries := (clientEntries.take last).drop first
      leaderCommit := last })

/-- The request that carries a snapshot made after some of the commands. -/
def installAfter (index : Nat) : KvAction 3 :=
  .installSnapshot
    { leaderId := 1
      term := 1
      lastSnapshotIncludeIndex := index
      lastSnapshotIncludeTerm := 1
      data := @makeSnapShot plainKvArchive (replay (-1) (clientOps.take index)) }

def appliedTwo : List (KvAction 3) :=
  [appendClientOps 0 2, .getApplyLogs, .push, .push, .readRaftApplyCommandLoop,
    .readRaftApplyCommandLoop]

def lateSnapshotRun : (@kvSystem plainArchive plainKvArchive 3 0 (-1)).Run :=
  TransitionSystem.runOf _
    (appliedTwo ++ [installAfter 1, .pushMsgToKvServer 0, .readRaftApplyCommandLoop,
      appendClientOps 2 3, .getApplyLogs, .push, .readRaftApplyCommandLoop])
    (by decide +kernel)

theorem SameData.of_eq {kv kv' : KvServer}
    (hmap : kv.skipList.chain = kv'.skipList.chain)
    (hrequests : kv.lastRequestId.entries = kv'.lastRequestId.entries) : SameData kv kv' where
  map := by
    intro key
    rw [SkipList.ext_chain hmap]
  requests := by
    intro clientId
    rw [AList.ext hrequests]

theorem lateSnapshotRun_rolls_back :
    (exists t, t ∈ lateSnapshotRun.trace ∧ exists msg, msg ∈ received t ∧
      msg.snapshotValid = true ∧ msg.snapshotIndex = 1 ∧
      msg.snapshot = @makeSnapShot plainKvArchive (replay (-1) (clientOps.take 1)) ∧
      SameData t.before.kv (replay (-1) (clientOps.take 2)) ∧
      ¬ SameData t.after.kv (replay (-1) (clientOps.take 2))) ∧
    lateSnapshotRun.state.kv.skipList.searchElement [120] = some [97, 98, 98] ∧
    (replay (-1) clientOps).skipList.searchElement [120] = some [97, 98] := by
  have hfound : exists t, t ∈ lateSnapshotRun.trace ∧ exists msg, msg ∈ received t ∧
      msg.snapshotValid = true ∧ msg.snapshotIndex = 1 ∧
      msg.snapshot = @makeSnapShot plainKvArchive (replay (-1) (clientOps.take 1)) ∧
      (t.before.kv.skipList.chain = (replay (-1) (clientOps.take 2)).skipList.chain ∧
        t.before.kv.lastRequestId.entries =
          (replay (-1) (clientOps.take 2)).lastRequestId.entries) ∧
      t.after.kv.lastRequestId.lookup [65] ≠
        (replay (-1) (clientOps.take 2)).lastRequestId.lookup [65] := by
    decide +kernel
  refine ⟨?_, by decide +kernel, by decide +kernel⟩
  rcases hfound with ⟨t, ht, msg, hmsg, hsnapshot, hindex, hmade, ⟨hmap, hrequests⟩, hother⟩
  refine ⟨t, ht, msg, hmsg, hsnapshot, hindex, hmade, SameData.of_eq hmap hrequests, ?_⟩
  intro hsame
  exact hother (hsame.requests [65])

def timelySnapshotRun : (@kvSystem plainArchive plainKvArchive 3 0 (-1)).Run :=
  TransitionSystem.runOf _
    (appliedTwo ++ [appendClientOps 2 3, .getApplyLogs, .push, .readRaftApplyCommandLoop,
      installAfter 2, .pushMsgToKvServer 0, .readRaftApplyCommandLoop])
    (by decide +kernel)

/-- A snapshot made after two commands does no harm after the third, a duplicate. -/
theorem timelySnapshotRun_keeps_state :
    exists t, t ∈ timelySnapshotRun.trace ∧ (exists msg, msg ∈ received t ∧
      msg.snapshotIndex = 2) ∧ SameData t.after.kv (replay (-1) (clientOps.take 3)) := by
  have hfound : exists t, t ∈ timelySnapshotRun.trace ∧ exists msg, msg ∈ received t ∧
      msg.snapshotValid = true ∧ msg.snapshotIndex = 2 ∧
      msg.snapshot = @makeSnapShot plainKvArchive (replay (-1) (clientOps.take 2)) ∧
      t.before.kv.skipList.chain = (replay (-1) (clientOps.take 3)).skipList.chain ∧
      t.before.kv.lastRequestId.entries =
        (replay (-1) (clientOps.take 3)).lastRequestId.entries := by
    decide +kernel
  have hduplicate : (replay (-1) (clientOps.take 2)).ifRequestDuplicate [65] 2 = true := by
    decide +kernel
  rcases hfound with ⟨t, ht, msg, hmsg, hsnapshot, hindex, hmade, hmap, hrequests⟩
  have hiff := (@snapshot_install_keeps_state plainKvArchive plainKvArchive_lawful
    plainArchive 3 0 (-1) timelySnapshotRun t ht msg hmsg hsnapshot _ hmade).2 clientOps 2 3
    (by decide) (by decide) (SameData.refl _) (SameData.of_eq hmap hrequests)
  refine ⟨t, ht, ⟨msg, hmsg, hindex⟩, hiff.mpr ?_⟩
  rintro i hlo hhi ⟨op, hop, _, hnew⟩
  obtain rfl : i = 2 := by omega
  cases hop
  rw [hduplicate] at hnew
  cases hnew

end KvServer
end KVRaft
