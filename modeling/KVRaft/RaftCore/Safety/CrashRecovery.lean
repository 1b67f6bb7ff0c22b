import KVRaft.Foundation.Transition
import KVRaft.RaftCore.Raft.Handler
import KVRaft.RaftCore.Raft.PlainArchive

/-!
# Crash recovery

One node, its handlers called with any arguments, and processes that die and are
started again in the same directory.  A handler writes its state file last, so a
process that dies inside one is a process that dies before or after it; between
the two writes of a snapshot it is one that has answered an outdated snapshot.
-/

namespace KVRaft
namespace RaftCore

open Foundation

inductive ProcessAction (n : Nat) where
  | handle (handler : Handler n)
  | restart
  deriving DecidableEq

/-- A node and its state file as it was last written, also when a later process
has emptied it. -/
structure Process (n : Nat) where
  raft : Raft n
  written : Bytes

namespace Process

variable {n : Nat} [Archive]

/-- The values last persisted, by this process or by one before it. -/
def lastPersisted (σ : Process n) : Option Durable :=
  Durable.decode σ.written

/-- The next state of the node; a file that is not empty has been written. -/
def moveTo (σ : Process n) (rf : Raft n) : Process n where
  raft := rf
  written :=
    if rf.persister.raftStateFile = [] then σ.written else rf.persister.raftStateFile

def restart (σ : Process n) : Outcome (Raft n) :=
  Raft.init σ.raft.me
    (Persister.create σ.raft.persister.raftStateFile σ.raft.persister.snapshotFile)

def step (σ : Process n) : ProcessAction n -> Option (Process n)
  | .handle handler =>
      if handler.fromPeer then
        match handler.run σ.raft with
        | .ok rf => some (σ.moveTo rf)
        | .error _ => none
      else
        none
  | .restart =>
      match σ.restart with
      | .ok rf => some { σ with raft := rf }
      | .error _ => none

end Process

/-- All runs of node `me`, from a first start in an empty directory. -/
def processSystem [Archive] {n : Nat} (me : Fin n) :
    TransitionSystem (Process n) (ProcessAction n) where
  init := { raft := Raft.blank me (Persister.create [] []), written := [] }
  step := Process.step

/-!
# What is asked of a restart
-/

section

variable {n : Nat} [Archive]

/-- The new process starts from the values last persisted. -/
def Recovers (t : Transition (Process n) (ProcessAction n)) : Prop :=
  forall d, t.before.lastPersisted = some d -> t.after.raft.durable = d

instance : DecidablePred (Recovers (n := n)) := fun t =>
  inferInstanceAs
    (Decidable (forall d, d ∈ t.before.lastPersisted -> t.after.raft.durable = d))

/-- The values last persisted, if any, are those of a node that has never run. -/
def NothingToLose (σ : Process n) : Prop :=
  forall d, σ.lastPersisted = some d -> d = Durable.initial

instance (σ : Process n) : Decidable (NothingToLose σ) :=
  inferInstanceAs (Decidable (forall d, d ∈ σ.lastPersisted -> d = Durable.initial))

def LosesNothing (t : Transition (Process n) (ProcessAction n)) : Prop :=
  match t.action with
  | .handle _ => True
  | .restart => NothingToLose t.before

instance : DecidablePred (LosesNothing (n := n)) := fun t =>
  match t with
  | ⟨_, .handle _, _⟩ => isTrue trivial
  | ⟨σ, .restart, _⟩ => inferInstanceAs (Decidable (NothingToLose σ))

/-- The term and the candidate of the vote a transition grants. -/
def votes (t : Transition (Process n) (ProcessAction n)) : Option (Int × Int) :=
  match t.action with
  | .handle .doElection =>
      if t.before.raft.status ≠ .leader then
        some (t.after.raft.currentTerm, (t.before.raft.me : Nat))
      else
        none
  | .handle (.requestVote args) =>
      match t.before.raft.requestVote args with
      | .ok (_, reply) =>
          if reply.voteGranted then some (args.term, args.candidateId) else none
      | .error _ => none
  | _ => none

def VotesOnce (tr : List (Transition (Process n) (ProcessAction n))) : Prop :=
  forall t, t ∈ tr -> forall u, u ∈ tr -> forall T c d,
    votes t = some (T, c) -> votes u = some (T, d) -> c = d

end

/-!
# Votes and the values behind them
-/

section

variable {n : Nat}

/-- A term and a vote that rule out a second vote in the term of a vote cast. -/
structure Backs (currentTerm votedFor T c : Int) : Prop where
  le : T ≤ currentTerm
  same : T = currentTerm -> votedFor = c

theorem Backs.keep {rf rf' : Raft n} {T c : Int} (hkeep : Raft.KeepsVote rf rf')
    (hc : 0 ≤ c) (h : Backs rf.currentTerm rf.votedFor T c) :
    Backs rf'.currentTerm rf'.votedFor T c where
  le := h.le.trans hkeep.term
  same := by
    intro hT
    have hterm := hkeep.term
    have hle := h.le
    have hvote := h.same (by omega)
    rw [← hvote]
    exact hkeep.vote (by omega) (by omega)

variable [Archive]

/-- What a vote leaves behind in the node and in its state file. -/
structure Casts (rf : Raft n) (T c : Int) : Prop where
  candidate : 0 ≤ c
  term : rf.currentTerm = T
  vote : rf.votedFor = c
  file : rf.persister.raftStateFile = rf.persistData

theorem votes_casts {σ : Process n} {handler : Handler n} {rf : Raft n}
    (hpeer : handler.fromPeer = true) (hrun : handler.run σ.raft = .ok rf) {T c : Int}
    (h : votes { before := σ, action := .handle handler, after := σ.moveTo rf } =
      some (T, c)) : Casts rf T c := by
  cases handler with
  | doElection =>
      cases hrun
      by_cases hstatus : σ.raft.status ≠ .leader
      · simp only [votes, if_pos hstatus] at h
        cases h
        rw [Process.moveTo, Raft.doElection, if_pos hstatus]
        constructor
        · exact Int.natCast_nonneg _
        · rfl
        · rfl
        · rfl
      · simp only [votes, if_neg hstatus] at h
        cases h
  | requestVote args =>
      rcases map_ok hrun with ⟨⟨rf1, reply⟩, hcall, rfl⟩
      simp only [votes, hcall] at h
      have heffect := Raft.requestVote_effect hcall
      cases heffect with
      | stale _ hno =>
          rw [hno] at h
          cases h
      | refused _ hno =>
          rw [hno] at h
          cases h
      | granted hle _ _ _ hyes =>
          rw [hyes] at h
          cases h
          constructor
          · exact of_decide_eq_true hpeer
          · exact Raft.observe_currentTerm hle
          · rfl
          · rfl
  | _ => cases h

/-- Every vote of a run so far is backed by the node and by what it wrote last. -/
structure Remembered (tr : List (Transition (Process n) (ProcessAction n)))
    (σ : Process n) : Prop where
  term : 0 ≤ σ.raft.currentTerm
  file : σ.raft.persister.raftStateFile = [] ∨
    σ.raft.persister.raftStateFile = σ.written
  live : forall t, t ∈ tr -> forall T c, votes t = some (T, c) ->
    0 ≤ T ∧ 0 ≤ c ∧ Backs σ.raft.currentTerm σ.raft.votedFor T c
  disk : forall t, t ∈ tr -> forall T c, votes t = some (T, c) ->
    exists d, σ.lastPersisted = some d ∧ Backs d.currentTerm d.votedFor T c
  once : VotesOnce tr

theorem Remembered.initial (me : Fin n) : Remembered [] (processSystem me).init where
  term := le_refl 0
  file := Or.inl rfl
  live := by
    intro t ht
    cases ht
  disk := by
    intro t ht
    cases ht
  once := by
    intro t ht
    cases ht

theorem VotesOnce.concat {tr : List (Transition (Process n) (ProcessAction n))}
    {t : Transition (Process n) (ProcessAction n)} (h : VotesOnce tr)
    (hnew : forall u, u ∈ tr -> forall T c d, votes t = some (T, c) ->
      votes u = some (T, d) -> c = d) : VotesOnce (tr ++ [t]) := by
  intro u hu v hv T c d hc hd
  rcases List.mem_append.mp hu with huold | hunew
  · rcases List.mem_append.mp hv with hvold | hvnew
    · exact h u huold v hvold T c d hc hd
    · rw [List.mem_singleton.mp hvnew] at hd
      exact (hnew u huold T d c hd hc).symm
  · rw [List.mem_singleton.mp hunew] at hc
    rcases List.mem_append.mp hv with hvold | hvnew
    · exact hnew v hvold T c d hc hd
    · rw [List.mem_singleton.mp hvnew, hc] at hd
      cases hd
      rfl

theorem Process.moveTo_written {σ : Process n} {rf : Raft n} (h : Raft.Durably σ.raft rf)
    (hfile : σ.raft.persister.raftStateFile = [] ∨
      σ.raft.persister.raftStateFile = σ.written) :
    (σ.moveTo rf).written = σ.written ∨ (σ.moveTo rf).written = rf.persistData := by
  unfold Process.moveTo
  by_cases hempty : rf.persister.raftStateFile = []
  · exact Or.inl (if_pos hempty)
  · rcases h.file with hold | hnew
    · rcases hfile with hnone | hsame
      · rw [hnone] at hold
        exact absurd hold hempty
      · left
        exact (if_neg hempty).trans (hold.trans hsame)
    · right
      exact (if_neg hempty).trans hnew

omit [Archive] in
theorem Process.moveTo_file (σ : Process n) (rf : Raft n) :
    rf.persister.raftStateFile = [] ∨
      rf.persister.raftStateFile = (σ.moveTo rf).written := by
  unfold Process.moveTo
  by_cases hempty : rf.persister.raftStateFile = []
  · exact Or.inl hempty
  · exact Or.inr (if_neg hempty).symm

variable [LawfulArchive]

theorem Process.lastPersisted_of_written {σ : Process n} {rf : Raft n}
    (h : σ.written = rf.persistData) : σ.lastPersisted = some rf.durable := by
  rw [Process.lastPersisted, h, Raft.decode_persistData]

theorem Remembered.handle {tr : List (Transition (Process n) (ProcessAction n))}
    {σ : Process n} (h : Remembered tr σ) {handler : Handler n} {rf : Raft n}
    (hpeer : handler.fromPeer = true) (hrun : handler.run σ.raft = .ok rf) :
    Remembered
      (tr ++ [{ before := σ, action := .handle handler, after := σ.moveTo rf }])
      (σ.moveTo rf) := by
  have hdurably := Handler.run_durably hrun
  have hold : forall t, t ∈ tr -> forall T c, votes t = some (T, c) ->
      0 ≤ T ∧ 0 ≤ c ∧ Backs rf.currentTerm rf.votedFor T c := by
    intro t ht T c hvote
    rcases h.live t ht T c hvote with ⟨hT, hc, hbacks⟩
    exact ⟨hT, hc, hbacks.keep hdurably.keeps hc⟩
  have hterm := h.term.trans hdurably.keeps.term
  constructor
  · exact hterm
  · exact σ.moveTo_file rf
  · intro t ht T c hvote
    rcases List.mem_append.mp ht with htold | htnew
    · exact hold t htold T c hvote
    · rw [List.mem_singleton.mp htnew] at hvote
      have hcast := votes_casts hpeer hrun hvote
      refine ⟨?_, hcast.candidate, ?_⟩
      · rw [← hcast.term]
        exact hterm
      · exact { le := hcast.term.ge, same := fun _ => hcast.vote }
  · intro t ht T c hvote
    rcases List.mem_append.mp ht with htold | htnew
    · rcases Process.moveTo_written hdurably h.file with hsame | hnew
      · rw [Process.lastPersisted, hsame]
        exact h.disk t htold T c hvote
      · exact ⟨rf.durable, Process.lastPersisted_of_written hnew, (hold t htold T c hvote).2.2⟩
    · rw [List.mem_singleton.mp htnew] at hvote
      have hcast := votes_casts hpeer hrun hvote
      have hwritten : (σ.moveTo rf).written = rf.persistData := by
        unfold Process.moveTo
        rw [hcast.file]
        exact if_neg (LawfulArchive.textOarchive_ne_nil _)
      exact ⟨rf.durable, Process.lastPersisted_of_written hwritten,
        { le := hcast.term.ge, same := fun _ => hcast.vote }⟩
  · apply h.once.concat
    intro u hu T c d hc hd
    have hcast := votes_casts hpeer hrun hc
    rw [← hcast.vote]
    exact (hold u hu T d hd).2.2.same hcast.term.symm

omit [LawfulArchive] in
/-- A restart with nothing to lose finds no vote cast. -/
theorem Remembered.restart {tr : List (Transition (Process n) (ProcessAction n))}
    {σ σ' : Process n} (h : Remembered tr σ) (hlose : NothingToLose σ)
    (hσ' : σ' = { σ with raft := Raft.blank σ.raft.me (Persister.create [] []) }) :
    Remembered (tr ++ [{ before := σ, action := .restart, after := σ' }]) σ' := by
  have hfree : forall t, t ∈ tr ++ [{ before := σ, action := .restart, after := σ' }] ->
      forall T c, votes t ≠ some (T, c) := by
    intro t ht T c hvote
    rcases List.mem_append.mp ht with htold | htnew
    · rcases h.live t htold T c hvote with ⟨hT, hc, _⟩
      rcases h.disk t htold T c hvote with ⟨d, hd, hbacks⟩
      rw [hlose d hd] at hbacks
      have hvoted := hbacks.same (le_antisymm hbacks.le hT)
      rw [← hvoted] at hc
      exact absurd hc (by decide)
    · rw [List.mem_singleton.mp htnew] at hvote
      cases hvote
  subst hσ'
  constructor
  · exact le_refl 0
  · exact Or.inl rfl
  · intro t ht T c hvote
    exact absurd hvote (hfree t ht T c)
  · intro t ht T c hvote
    exact absurd hvote (hfree t ht T c)
  · intro t ht u _ T c d hc
    exact absurd hc (hfree t ht T c)

/-!
# The result
-/

omit [LawfulArchive] in
theorem step_restart {σ σ' : Process n} (h : σ.step .restart = some σ') :
    σ' = { σ with raft := Raft.blank σ.raft.me (Persister.create [] []) } := by
  cases h
  rfl

omit [LawfulArchive] in
theorem step_handle {σ σ' : Process n} {handler : Handler n}
    (h : σ.step (.handle handler) = some σ') :
    exists rf, handler.fromPeer = true ∧ handler.run σ.raft = .ok rf ∧ σ' = σ.moveTo rf := by
  unfold Process.step at h
  by_cases hpeer : handler.fromPeer = true
  · simp only [if_pos hpeer] at h
    cases hrun : handler.run σ.raft with
    | ok rf =>
        rw [hrun] at h
        exact ⟨rf, hpeer, rfl, (Option.some.inj h).symm⟩
    | error fault =>
        rw [hrun] at h
        cases h
  · simp only [if_neg hpeer] at h
    cases h

omit [LawfulArchive] in
/-- A new process starts from nothing. -/
theorem recovers_iff {t : Transition (Process n) (ProcessAction n)}
    (hstep : t.before.step t.action = some t.after) (hrestart : t.action = .restart) :
    Recovers t <-> NothingToLose t.before := by
  rw [hrestart] at hstep
  have hblank : t.after.raft.durable = Durable.initial := by
    rw [step_restart hstep]
    rfl
  constructor
  · intro h d hd
    rw [← hblank]
    exact (h d hd).symm
  · intro h d hd
    rw [hblank]
    exact (h d hd).symm

theorem remembered {me : Fin n}
    {tr : List (Transition (Process n) (ProcessAction n))} {σ : Process n}
    (h : (processSystem me).Trace tr σ) (hlose : forall t, t ∈ tr -> LosesNothing t) :
    Remembered tr σ := by
  refine TransitionSystem.Trace.invariant_under (P := fun tr σ => Remembered tr σ)
    (Remembered.initial me) ?_ h hlose
  intro tr σ σ' a _ _ hold hstep hnow
  cases a with
  | handle handler =>
      rcases step_handle hstep with ⟨rf, hpeer, hrun, rfl⟩
      exact hold.handle hpeer hrun
  | restart =>
      exact hold.restart hnow (step_restart hstep)

/-- A restart recovers exactly when it has nothing to lose, and as long as all
restarts are like that no second vote is cast in a term. -/
theorem crash_recovery {me : Fin n} (r : (processSystem me).Run) :
    (forall t, t ∈ r.trace -> t.action = .restart ->
      (Recovers t <-> NothingToLose t.before)) ∧
    (r.Always LosesNothing -> VotesOnce r.trace) := by
  constructor
  · intro t ht hrestart
    exact recovers_iff (r.valid.step_of_mem ht) hrestart
  · intro hlose
    exact (remembered r.valid hlose).once

end

/-!
# Two votes in one term

Server 0 votes for server 1 in term 1, dies, and after its restart votes for
server 2 in term 1.
-/

def voteRequestOf (candidateId : Int) : ProcessAction 3 :=
  .handle (.requestVote
    { term := 1, candidateId := candidateId, lastLogIndex := 0, lastLogTerm := 0 })

def restartedRun : (@processSystem plainArchive 3 0).Run :=
  TransitionSystem.runOf _ [voteRequestOf 1, .restart, voteRequestOf 2] (by decide +kernel)

theorem restartedRun_votes_twice :
    (exists t, t ∈ restartedRun.trace ∧ t.action = .restart ∧
      ¬ @Recovers 3 plainArchive t) ∧
    ¬ @VotesOnce 3 plainArchive restartedRun.trace := by
  constructor
  · decide +kernel
  · intro h
    have hvotes : restartedRun.trace.filterMap (@votes 3 plainArchive) = [(1, 1), (1, 2)] := by
      decide +kernel
    have hfirst : ((1, 1) : Int × Int) ∈
        restartedRun.trace.filterMap (@votes 3 plainArchive) := by
      rw [hvotes]
      exact List.mem_cons_self
    have hsecond : ((1, 2) : Int × Int) ∈
        restartedRun.trace.filterMap (@votes 3 plainArchive) := by
      rw [hvotes]
      exact List.mem_cons_of_mem _ List.mem_cons_self
    rcases List.mem_filterMap.mp hfirst with ⟨t, ht, hone⟩
    rcases List.mem_filterMap.mp hsecond with ⟨u, hu, htwo⟩
    exact absurd (h t ht u hu 1 1 2 hone htwo) (by decide)

def earlyRestartRun : (@processSystem plainArchive 3 0).Run :=
  TransitionSystem.runOf _ [.restart, voteRequestOf 1, voteRequestOf 2] (by decide +kernel)

/-- A restart of a node that has written nothing does no harm. -/
theorem earlyRestartRun_votes_once :
    @VotesOnce 3 plainArchive earlyRestartRun.trace := by
  have hlose : forall t, t ∈ earlyRestartRun.trace -> @LosesNothing 3 plainArchive t := by
    decide +kernel
  exact (@crash_recovery 3 plainArchive plainArchive_lawful 0 earlyRestartRun).2 hlose

end RaftCore
end KVRaft
