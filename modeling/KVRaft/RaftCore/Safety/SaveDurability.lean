import Mathlib.Data.List.Induction
import Mathlib.Data.List.TakeDrop
import KVRaft.RaftCore.Persister.Streams

/-!
# Saving durably

Any sequence of save calls, and the process killed at any point of it.  The files
keep up with the calls only as long as the streams hold nothing back and at most
one string has to be replaced or written.  A process that lives on reads its last
snapshot back only if that is a single word.
-/

namespace KVRaft
namespace RaftCore

open Foundation

/-- A save call, with how much each of its writes lets through. -/
inductive SaveCall where
  | save (raftstate snapshot : Bytes) (raftThrough snapshotThrough : Nat)
  | saveRaftState (data : Bytes) (through : Nat)
  deriving DecidableEq, Repr

namespace SaveCall

def steps : SaveCall -> List StreamStep
  | .save raftstate snapshot raftThrough snapshotThrough =>
      PersisterStreams.save raftstate snapshot raftThrough snapshotThrough
  | .saveRaftState data through => PersisterStreams.saveRaftState data through

/-- The raft state and the snapshot saved once the call has returned. -/
def saved (last : Bytes × Bytes) : SaveCall -> Bytes × Bytes
  | .save raftstate snapshot _ _ => (raftstate, snapshot)
  | .saveRaftState data _ => (data, last.2)

/-- All the strings of the call get through, and of the strings replaced and written
at most one is not empty. -/
def Lossless (last : Bytes × Bytes) : SaveCall -> Prop
  | .save raftstate snapshot raftThrough snapshotThrough =>
      raftstate.length ≤ raftThrough ∧ snapshot.length ≤ snapshotThrough ∧
        (last = ([], []) ∧ (raftstate = [] ∨ snapshot = []) ∨
          (raftstate, snapshot) = ([], []) ∧ (last.1 = [] ∨ last.2 = []))
  | .saveRaftState data through => data.length ≤ through ∧ (last.1 = [] ∨ data = [])

end SaveCall

/-- The pair that counts as saved after these calls. -/
def lastSaved (calls : List SaveCall) : Bytes × Bytes :=
  calls.foldl SaveCall.saved ([], [])

def afterCalls (calls : List SaveCall) : PersisterStreams :=
  calls.foldl (fun p call => p.run call.steps) PersisterStreams.create

/-- The files as the process leaves them when it is killed after `k` steps of `call`. -/
def killedDuring (calls : List SaveCall) (call : SaveCall) (k : Nat) : Bytes × Bytes :=
  ((afterCalls calls).run (call.steps.take k)).onDisk

/-- Whenever the process is killed, its files hold the last pair or, in the middle of
a call, the pair before or the pair after it. -/
structure KeepsSaved (calls : List SaveCall) : Prop where
  idle : forall earlier later, calls = earlier ++ later ->
    (afterCalls earlier).onDisk = lastSaved earlier
  inProgress : forall earlier call later, calls = earlier ++ call :: later ->
    forall k, k < call.steps.length ->
      killedDuring earlier call k = lastSaved earlier ∨
        killedDuring earlier call k = lastSaved (earlier ++ [call])

@[simp] theorem lastSaved_snoc (calls : List SaveCall) (call : SaveCall) :
    lastSaved (calls ++ [call]) = call.saved (lastSaved calls) := by
  rw [lastSaved, List.foldl_append]
  rfl

@[simp] theorem afterCalls_snoc (calls : List SaveCall) (call : SaveCall) :
    afterCalls (calls ++ [call]) = (afterCalls calls).run call.steps := by
  rw [afterCalls, List.foldl_append]
  rfl

/-!
# What is written but may be held back
-/

theorem afterCalls_contents (calls : List SaveCall) :
    (afterCalls calls).settle.raftStateFile = (lastSaved calls).1 ∧
      (afterCalls calls).settle.snapshotFile = (lastSaved calls).2 := by
  induction calls using List.reverseRecOn with
  | nil => exact ⟨rfl, rfl⟩
  | append_singleton calls call ih =>
      rw [afterCalls_snoc, lastSaved_snoc]
      cases call with
      | save raftstate snapshot raftThrough snapshotThrough =>
          rw [SaveCall.steps, PersisterStreams.settle_save]
          exact ⟨rfl, rfl⟩
      | saveRaftState data through =>
          rw [SaveCall.steps, PersisterStreams.settle_saveRaftState]
          exact ⟨rfl, ih.2⟩

/-- Both files hold the pair, and nothing is held back. -/
structure Settled (p : PersisterStreams) (last : Bytes × Bytes) : Prop where
  raftState : p.raftState = { file := last.1, buffer := [] }
  snapshot : p.snapshot = { file := last.2, buffer := [] }

theorem settled_of_onDisk {calls : List SaveCall}
    (h : (afterCalls calls).onDisk = lastSaved calls) :
    Settled (afterCalls calls) (lastSaved calls) := by
  rcases afterCalls_contents calls with ⟨hraft, hsnapshot⟩
  have hraftFile : (afterCalls calls).raftState.file = (lastSaved calls).1 :=
    congrArg Prod.fst h
  have hsnapshotFile : (afterCalls calls).snapshot.file = (lastSaved calls).2 :=
    congrArg Prod.snd h
  have hraftBuffer : (afterCalls calls).raftState.buffer = [] :=
    BufferedFile.file_eq_contents.mp (hraftFile.trans hraft.symm)
  have hsnapshotBuffer : (afterCalls calls).snapshot.buffer = [] :=
    BufferedFile.file_eq_contents.mp (hsnapshotFile.trans hsnapshot.symm)
  constructor
  · rw [← hraftFile, ← hraftBuffer]
  · rw [← hsnapshotFile, ← hsnapshotBuffer]

/-!
# One call

The files after each step of a call that starts with nothing held back.
-/

section

open PersisterStreams

variable {p : PersisterStreams} {last : Bytes × Bytes}

theorem Settled.onDisk (h : Settled p last) : p.onDisk = last := by
  rw [PersisterStreams.onDisk, h.raftState, h.snapshot]

theorem Settled.onDisk_closed (h : Settled p last) :
    (p.run [.resetSize, .closeRaftState]).onDisk = last := by
  simp [step, PersisterStreams.onDisk, BufferedFile.contents, h.raftState, h.snapshot]

theorem Settled.onDisk_clearRaftState (h : Settled p last) :
    (p.run clearRaftState).onDisk = ([], last.2) := by
  simp [step, PersisterStreams.onDisk, clearRaftState, h.snapshot]

theorem Settled.onDisk_snapshotClosed (h : Settled p last) :
    (p.run (clearRaftState ++ [.closeSnapshot])).onDisk = ([], last.2) := by
  simp [step, PersisterStreams.onDisk, clearRaftState, BufferedFile.contents,
    h.snapshot]

theorem onDisk_cleared (p : PersisterStreams) :
    (p.run clearRaftStateAndSnapshot).onDisk = ([], []) := by
  simp [step, PersisterStreams.onDisk, clearRaftStateAndSnapshot, clearRaftState,
    clearSnapshot]

theorem onDisk_raftStateWritten (p : PersisterStreams) (raftstate : Bytes) (through : Nat) :
    (p.run (clearRaftStateAndSnapshot ++ [.writeRaftState raftstate through])).onDisk =
      (raftstate.take through, []) := by
  simp [step, PersisterStreams.onDisk, clearRaftStateAndSnapshot, clearRaftState,
    clearSnapshot]

theorem onDisk_save (p : PersisterStreams) (raftstate snapshot : Bytes)
    (raftThrough snapshotThrough : Nat) :
    (p.run (save raftstate snapshot raftThrough snapshotThrough)).onDisk =
      (raftstate.take raftThrough, snapshot.take snapshotThrough) := by
  simp [step, PersisterStreams.onDisk, save, clearRaftStateAndSnapshot, clearRaftState,
    clearSnapshot]

theorem Settled.onDisk_raftStateSaved (h : Settled p last) (data : Bytes) (through : Nat) :
    (p.run (clearRaftState ++ [.writeRaftState data through])).onDisk =
      (data.take through, last.2) := by
  simp [step, PersisterStreams.onDisk, clearRaftState, h.snapshot]

/-- The last step of the call only counts. -/
theorem Settled.onDisk_saveRaftState (h : Settled p last) (data : Bytes) (through : Nat) :
    (p.run (saveRaftState data through)).onDisk = (data.take through, last.2) :=
  h.onDisk_raftStateSaved data through

/-- What a call must leave at its end and on the way. -/
structure KeepsDuring (p : PersisterStreams) (last : Bytes × Bytes) (call : SaveCall) :
    Prop where
  done : (p.run call.steps).onDisk = call.saved last
  inProgress : forall k, k < call.steps.length ->
    (p.run (call.steps.take k)).onDisk = last ∨
      (p.run (call.steps.take k)).onDisk = call.saved last

theorem Settled.save_keepsDuring (h : Settled p last) {raftstate snapshot : Bytes}
    {raftThrough snapshotThrough : Nat}
    (hlossless : (SaveCall.save raftstate snapshot raftThrough snapshotThrough).Lossless last) :
    KeepsDuring p last (.save raftstate snapshot raftThrough snapshotThrough) := by
  rcases hlossless with ⟨hraft, hsnapshot, hone⟩
  have hraftTake := List.take_of_length_le hraft
  have hsnapshotTake := List.take_of_length_le hsnapshot
  -- The files after the raft state, both, and both but the raft state are emptied.
  have hcleared : ([], last.2) = last ∨ ([], last.2) = (raftstate, snapshot) := by
    rcases hone with ⟨rfl, _⟩ | ⟨hnew, hold | hold⟩
    · exact Or.inl rfl
    · exact Or.inl (Prod.ext hold.symm rfl)
    · exact Or.inr (Prod.ext (congrArg Prod.fst hnew).symm
        (hold.trans (congrArg Prod.snd hnew).symm))
  have hempty : ([], []) = last ∨ ([], []) = (raftstate, snapshot) := by
    rcases hone with ⟨rfl, _⟩ | ⟨hnew, _⟩
    · exact Or.inl rfl
    · exact Or.inr hnew.symm
  have hhalf : (raftstate, []) = last ∨ (raftstate, []) = (raftstate, snapshot) := by
    rcases hone with ⟨rfl, hraft | hsnapshot⟩ | ⟨hnew, _⟩
    · exact Or.inl (Prod.ext hraft rfl)
    · exact Or.inr (Prod.ext rfl hsnapshot.symm)
    · exact Or.inr (Prod.ext rfl (congrArg Prod.snd hnew).symm)
  have hwritten : (p.run (clearRaftStateAndSnapshot ++
      [.writeRaftState raftstate raftThrough])).onDisk = (raftstate, []) := by
    rw [onDisk_raftStateWritten, hraftTake]
  constructor
  · rw [SaveCall.steps, onDisk_save, hraftTake, hsnapshotTake, SaveCall.saved]
  · intro k hk
    match k, hk with
    | 0, _ => exact Or.inl h.onDisk
    | 1, _ => exact Or.inl h.onDisk
    | 2, _ => exact Or.inl h.onDisk_closed
    | 3, _ => exact hcleared.imp h.onDisk_clearRaftState.trans h.onDisk_clearRaftState.trans
    | 4, _ => exact hcleared.imp h.onDisk_snapshotClosed.trans h.onDisk_snapshotClosed.trans
    | 5, _ => exact hempty.imp (onDisk_cleared p).trans (onDisk_cleared p).trans
    | 6, _ => exact hhalf.imp hwritten.trans hwritten.trans
    | k + 7, hk => exact absurd hk (Nat.not_lt.mpr (Nat.le_add_left 7 k))

theorem Settled.saveRaftState_keepsDuring (h : Settled p last) {data : Bytes}
    {through : Nat} (hlossless : (SaveCall.saveRaftState data through).Lossless last) :
    KeepsDuring p last (.saveRaftState data through) := by
  rcases hlossless with ⟨hdata, hone⟩
  have htake := List.take_of_length_le hdata
  have hcleared : ([], last.2) = last ∨ ([], last.2) = (data, last.2) := by
    rcases hone with hold | hnew
    · exact Or.inl (Prod.ext hold.symm rfl)
    · exact Or.inr (Prod.ext hnew.symm rfl)
  have hwritten : (p.run (clearRaftState ++ [.writeRaftState data through])).onDisk =
      (data, last.2) := by
    rw [h.onDisk_raftStateSaved, htake]
  constructor
  · exact hwritten
  · intro k hk
    match k, hk with
    | 0, _ => exact Or.inl h.onDisk
    | 1, _ => exact Or.inl h.onDisk
    | 2, _ => exact Or.inl h.onDisk_closed
    | 3, _ => exact hcleared.imp h.onDisk_clearRaftState.trans h.onDisk_clearRaftState.trans
    | 4, _ => exact Or.inr hwritten
    | k + 5, hk => exact absurd hk (Nat.not_lt.mpr (Nat.le_add_left 5 k))

theorem Settled.keepsDuring (h : Settled p last) {call : SaveCall}
    (hlossless : call.Lossless last) : KeepsDuring p last call := by
  cases call with
  | save raftstate snapshot raftThrough snapshotThrough =>
      exact h.save_keepsDuring hlossless
  | saveRaftState data through => exact h.saveRaftState_keepsDuring hlossless

/-- Three steps of a call tell whether it loses anything. -/
theorem Settled.lossless (h : Settled p last) {call : SaveCall}
    (hkeeps : KeepsDuring p last call) : call.Lossless last := by
  cases call with
  | save raftstate snapshot raftThrough snapshotThrough =>
      have hdone := hkeeps.done
      rw [SaveCall.steps, onDisk_save, SaveCall.saved] at hdone
      have hraft : raftstate.take raftThrough = raftstate := congrArg Prod.fst hdone
      have hsnapshot : snapshot.take snapshotThrough = snapshot := congrArg Prod.snd hdone
      have hcleared := hkeeps.inProgress 3 (by decide : 3 < 7)
      have hempty := hkeeps.inProgress 5 (by decide : 5 < 7)
      have hhalf := hkeeps.inProgress 6 (by decide : 6 < 7)
      change (p.run clearRaftState).onDisk = last ∨
        (p.run clearRaftState).onDisk = (raftstate, snapshot) at hcleared
      rw [h.onDisk_clearRaftState] at hcleared
      change (p.run clearRaftStateAndSnapshot).onDisk = last ∨
        (p.run clearRaftStateAndSnapshot).onDisk = (raftstate, snapshot) at hempty
      rw [onDisk_cleared] at hempty
      change (p.run (clearRaftStateAndSnapshot ++
          [.writeRaftState raftstate raftThrough])).onDisk = last ∨
        (p.run (clearRaftStateAndSnapshot ++
          [.writeRaftState raftstate raftThrough])).onDisk = (raftstate, snapshot) at hhalf
      rw [onDisk_raftStateWritten, hraft] at hhalf
      refine ⟨(List.take_eq_self_iff raftstate).mp hraft,
        (List.take_eq_self_iff snapshot).mp hsnapshot, ?_⟩
      rcases hempty with hold | hnew
      · left
        refine ⟨hold.symm, ?_⟩
        rcases hhalf with hsame | hwhole
        · exact Or.inl (congrArg Prod.fst (hsame.trans hold.symm))
        · exact Or.inr (congrArg Prod.snd hwhole).symm
      · right
        refine ⟨hnew.symm, ?_⟩
        rcases hcleared with hsame | hwhole
        · exact Or.inl (congrArg Prod.fst hsame).symm
        · exact Or.inr (congrArg Prod.snd (hwhole.trans hnew.symm))
  | saveRaftState data through =>
      have hdone := congrArg Prod.fst hkeeps.done
      have hcleared := hkeeps.inProgress 3 (by decide : 3 < 5)
      change (p.run (saveRaftState data through)).onDisk.1 = data at hdone
      rw [h.onDisk_saveRaftState] at hdone
      change (p.run clearRaftState).onDisk = last ∨
        (p.run clearRaftState).onDisk = (data, last.2) at hcleared
      rw [h.onDisk_clearRaftState] at hcleared
      refine ⟨(List.take_eq_self_iff data).mp hdone, ?_⟩
      rcases hcleared with hsame | hwhole
      · exact Or.inl (congrArg Prod.fst hsame).symm
      · exact Or.inr (congrArg Prod.fst hwhole).symm

end

/-!
# Sequences of calls
-/

theorem onDisk_of_lossless {calls : List SaveCall}
    (h : forall earlier call later, calls = earlier ++ call :: later ->
      call.Lossless (lastSaved earlier)) :
    (afterCalls calls).onDisk = lastSaved calls := by
  induction calls using List.reverseRecOn with
  | nil => rfl
  | append_singleton calls call ih =>
      have hbefore : (afterCalls calls).onDisk = lastSaved calls := by
        apply ih
        intro earlier c later hsplit
        apply h earlier c (later ++ [call])
        rw [hsplit, List.append_assoc, List.cons_append]
      have hcall := (settled_of_onDisk hbefore).keepsDuring (h calls call [] rfl)
      rw [afterCalls_snoc, lastSaved_snoc]
      exact hcall.done

/-- The files keep up exactly when no call of the sequence can lose anything. -/
theorem keeps_saved_iff (calls : List SaveCall) :
    KeepsSaved calls <->
      forall earlier call later, calls = earlier ++ call :: later ->
        call.Lossless (lastSaved earlier) := by
  constructor
  · intro h earlier call later hsplit
    have hbefore := settled_of_onDisk (h.idle earlier (call :: later) hsplit)
    have hafter : calls = (earlier ++ [call]) ++ later := by
      rw [hsplit, List.append_assoc, List.singleton_append]
    apply hbefore.lossless
    constructor
    · rw [← afterCalls_snoc, ← lastSaved_snoc]
      exact h.idle _ later hafter
    · intro k hk
      rw [← lastSaved_snoc]
      exact h.inProgress earlier call later hsplit k hk
  · intro h
    have hidle : forall earlier later, calls = earlier ++ later ->
        (afterCalls earlier).onDisk = lastSaved earlier := by
      intro earlier later hsplit
      apply onDisk_of_lossless
      intro first call rest hfirst
      apply h first call (rest ++ later)
      rw [hsplit, hfirst, List.append_assoc, List.cons_append]
    constructor
    · exact hidle
    · intro earlier call later hsplit k hk
      have hbefore := settled_of_onDisk (hidle earlier (call :: later) hsplit)
      rw [lastSaved_snoc]
      exact (hbefore.keepsDuring (h earlier call later hsplit)).inProgress k hk

/-- A raft state that is still in the buffer is lost. -/
theorem buffered_state_not_kept :
    ¬ KeepsSaved [.saveRaftState [97] 0] ∧
      lastSaved [.saveRaftState [97] 0] = ([97], []) ∧
      (afterCalls [.saveRaftState [97] 0]).onDisk = ([], []) := by
  refine ⟨?_, rfl, rfl⟩
  intro h
  have hidle := h.idle [.saveRaftState [97] 0] [] rfl
  exact absurd hidle (by decide)

-- So is a state that has reached its file, once the next save has emptied it.
example :
    killedDuring [.saveRaftState [97] 1] (.saveRaftState [98] 1) 3 = ([], []) :=
  rfl

/-!
# Reading back

Reading closes the stream first, so that nothing is held back.  What comes back is
the first word of the file.
-/

/-- A read after these calls returns the snapshot of the last `Save`. -/
def ReadsBack (calls : List SaveCall) : Prop :=
  (afterCalls calls).readSnapshot.2 = (lastSaved calls).2

theorem afterCalls_readSnapshot (calls : List SaveCall) :
    (afterCalls calls).readSnapshot.2 = extractWord (lastSaved calls).2 := by
  rw [← (afterCalls_contents calls).2]
  rfl

theorem reads_back_iff (calls : List SaveCall) :
    ReadsBack calls <-> forall c, c ∈ (lastSaved calls).2 -> isSpace c = false := by
  rw [ReadsBack, afterCalls_readSnapshot]
  exact extractWord_eq_self

/-- Of a text archive, which starts with the length of its signature and a space, only
the length comes back. -/
theorem archive_not_read_back :
    ¬ ReadsBack [.save [49] [50, 50, 32, 115] 1 4] ∧
      (afterCalls [.save [49] [50, 50, 32, 115] 1 4]).readSnapshot.2 = [50, 50] := by
  refine ⟨?_, rfl⟩
  rw [ReadsBack, afterCalls_readSnapshot]
  decide

end RaftCore
end KVRaft
