import KVRaft.Fiber.Scheduler

/-!
# The scheduler loses and repeats nothing

Between two states of a run, what was scheduled is what was taken or is still queued.
The idle fiber of a worker ends only when nothing is left, and nothing comes after that.
-/

namespace KVRaft
namespace Fiber

open Foundation

namespace Scheduler

variable {n : Nat} {φ κ : Type} {threads : Threads n} {σ σ' : Scheduler n φ κ}
  {a : SchedulerAction n φ κ}

abbrev SchedulerStep (n : Nat) (φ κ : Type) :=
  Transition (Scheduler n φ κ) (SchedulerAction n φ κ)

def queued (task : SchedulerTask φ κ) : List (SchedulerTask φ κ) :=
  if task.Nonempty then [task] else []

def scheduledIn (t : SchedulerStep n φ κ) : List (SchedulerTask φ κ) :=
  match t.action with
  | .schedule task => queued task
  | .scheduleFrom _ task => queued task
  | _ => []

def takenIn (t : SchedulerStep n φ κ) : List (Fin n × SchedulerTask φ κ) :=
  match t.action with
  | .scan w _ =>
      match (t.after.worker w).phase with
      | .holding task => [(w, task)]
      | _ => []
  | _ => []

/-- The tasks that were scheduled, those with nothing to run left out. -/
def scheduled (tr : List (SchedulerStep n φ κ)) : List (SchedulerTask φ κ) :=
  tr.flatMap scheduledIn

/-- Who has taken which task. -/
def taken (tr : List (SchedulerStep n φ κ)) : List (Fin n × SchedulerTask φ κ) :=
  tr.flatMap takenIn

def IsScan (w : Fin n) : SchedulerAction n φ κ -> Prop
  | .scan w' _ => w' = w
  | _ => False

instance (w : Fin n) (a : SchedulerAction n φ κ) : Decidable (IsScan w a) := by
  unfold IsScan
  split <;> infer_instance

def scans (w : Fin n) (tr : List (SchedulerStep n φ κ)) : Nat :=
  tr.countP fun t => IsScan w t.action

/-- The tasks of a list that a worker may run. -/
def backlog (threads : Threads n) (w : Fin n) (tasks : List (SchedulerTask φ κ)) : Nat :=
  tasks.countP fun task => task.MayRunOn (threads.id w)

structure LosesNothing (threads : Threads n) (r : (schedulerSystem threads φ κ).Run) :
    Prop where
  once : (scheduled r.trace).Perm ((taken r.trace).map Prod.snd ++ r.state.tasks)
  pinned : forall p, p ∈ taken r.trace -> p.2.MayRunOn (threads.id p.1)
  exits : forall w, (r.state.worker w).phase.Exited ->
    (scheduled r.trace).Perm ((taken r.trace).map Prod.snd) ∧
      forall w', ¬ (r.state.worker w').phase.Active
  live : forall task, task ∈ r.state.tasks -> r.state.PinnedToLive threads task
  /-- every scan of a worker takes one of the tasks that it had to run -/
  waits : r.state.panic = none -> forall earlier t later, r.trace = earlier ++ t :: later ->
    exists left new, r.state.tasks = left ++ new ∧ left.Sublist t.before.tasks ∧
      forall w, backlog threads w left ≤
        backlog threads w t.before.tasks - scans w (t :: later)

/-!
# What a step queues and takes
-/

theorem schedulerNoLock_eq (tasks : List (SchedulerTask φ κ)) (task : SchedulerTask φ κ) :
    schedulerNoLock tasks task = tasks ++ queued task := by
  unfold schedulerNoLock queued
  split
  · rfl
  · rw [List.append_nil]

theorem takenIn_of_not_holding {w : Fin n} {getState : φ -> State}
    (h : forall task, (σ'.worker w).phase ≠ .holding task) :
    takenIn { before := σ, action := .scan w getState, after := σ' } = [] := by
  unfold takenIn
  dsimp only
  split
  · rename_i task hphase
    exact absurd hphase (h task)
  · rfl

/-- A worker that finds nothing takes nothing. -/
theorem takenIn_nothing (σ : Scheduler n φ κ) (w : Fin n) (getState : φ -> State) :
    takenIn { before := σ, action := .scan w getState,
              after := σ.setPhase w (if (σ.worker w).idleTerm then .exited else .idle) } =
      [] := by
  refine takenIn_of_not_holding ?_
  intro task
  unfold setPhase
  rw [setWorker_self]
  cases (σ.worker w).idleTerm <;> exact nofun

/-- A scan that fails takes nothing. -/
theorem takenIn_fail {w : Fin n} (getState : φ -> State) (err : Panic)
    (hphase : (σ.worker w).phase = .scanning) :
    takenIn { before := σ, action := .scan w getState, after := σ.fail err } = [] := by
  refine takenIn_of_not_holding ?_
  intro task
  change (σ.worker w).phase ≠ _
  rw [hphase]
  exact nofun

theorem takenIn_take (w : Fin n) (getState : φ -> State) (task : SchedulerTask φ κ)
    (left : List (SchedulerTask φ κ)) :
    takenIn { before := σ, action := .scan w getState, after := σ.take w task left } =
      [(w, task)] := by
  unfold takenIn take setPhase
  simp only [setWorker_self]

/-- What is queued before a step or comes to the queue in it is taken or is queued after
it. -/
theorem StepCase.once (h : StepCase threads σ a σ') :
    (σ.tasks ++ scheduledIn { before := σ, action := a, after := σ' }).Perm
      ((takenIn { before := σ, action := a, after := σ' }).map Prod.snd ++ σ'.tasks) := by
  cases h with
  | schedule task _ _ =>
      change (σ.tasks ++ queued task).Perm (schedulerNoLock σ.tasks task)
      rw [schedulerNoLock_eq]
  | scheduleFrom w task _ _ =>
      change (σ.tasks ++ queued task).Perm (schedulerNoLock σ.tasks task)
      rw [schedulerNoLock_eq]
  | take w getState task left hphase htake =>
      rcases takeTask_some htake with ⟨front, rest, htasks, hleft, _⟩
      rw [takenIn_take, htasks]
      change (front ++ task :: rest ++ []).Perm (task :: left)
      rw [hleft, List.append_nil]
      exact List.perm_middle
  | nothing w getState hphase hnone =>
      rw [takenIn_nothing]
      exact List.Perm.of_eq (List.append_nil _)
  | scanFail w getState err hphase =>
      rw [takenIn_fail getState err hphase]
      exact List.Perm.of_eq (List.append_nil _)
  | resume w getState task _ => exact List.Perm.of_eq (List.append_nil _)
  | resumeFail w getState => exact List.Perm.of_eq (List.append_nil _)
  | finish w task _ => exact List.Perm.of_eq (List.append_nil _)
  | idle w _ => exact List.Perm.of_eq (List.append_nil _)
  | stop => exact List.Perm.of_eq (List.append_nil _)

/-- Whoever takes a task may run it. -/
theorem StepCase.pinned (h : StepCase threads σ a σ') {p : Fin n × SchedulerTask φ κ}
    (hp : p ∈ takenIn { before := σ, action := a, after := σ' }) :
    p.2.MayRunOn (threads.id p.1) := by
  cases h with
  | take w getState task left hphase htake =>
      rw [takenIn_take] at hp
      rw [List.mem_singleton.mp hp]
      rcases takeTask_some htake with ⟨_, _, _, _, _, hmay, _⟩
      exact hmay
  | nothing w getState hphase hnone =>
      rw [takenIn_nothing] at hp
      cases hp
  | scanFail w getState err hphase =>
      rw [takenIn_fail getState err hphase] at hp
      cases hp
  | _ => cases hp

/-!
# The way out

The counter is the number of workers that have a task, and a worker whose idle fiber
has ended knows that there is nothing left.
-/

def activeWorkers (σ : Scheduler n φ κ) : Finset (Fin n) :=
  Finset.univ.filter fun w => (σ.worker w).phase.Active

structure Accounted (σ : Scheduler n φ κ) : Prop where
  counted : σ.activeThreadCnt = σ.activeWorkers.card
  idleTerm : forall w, (σ.worker w).idleTerm = true -> σ.Stopping
  exited : forall w, (σ.worker w).phase.Exited -> (σ.worker w).idleTerm = true

theorem mem_activeWorkers {w : Fin n} : w ∈ σ.activeWorkers <-> (σ.worker w).phase.Active := by
  unfold activeWorkers
  rw [Finset.mem_filter]
  exact and_iff_right (Finset.mem_univ w)

/-- While a worker has a task nobody's idle fiber has ended. -/
theorem Accounted.not_idleTerm (h : Accounted σ) {w : Fin n}
    (hactive : (σ.worker w).phase.Active) (w' : Fin n) : (σ.worker w').idleTerm = false := by
  by_contra hterm
  have hzero := (h.idleTerm w' (Bool.not_eq_false _ ▸ hterm)).2.2
  rw [h.counted, Finset.card_eq_zero] at hzero
  have hmem := mem_activeWorkers.mpr hactive
  rw [hzero] at hmem
  cases hmem

theorem activeWorkers_setWorker (σ : Scheduler n φ κ) (w : Fin n) (worker : Worker φ κ) :
    (σ.setWorker w worker).activeWorkers =
      if worker.phase.Active then insert w σ.activeWorkers else σ.activeWorkers.erase w := by
  ext w'
  by_cases hw : w' = w
  · rw [hw, mem_activeWorkers, setWorker_self]
    split <;> simp_all
  · rw [mem_activeWorkers, setWorker_of_ne σ hw, ← mem_activeWorkers]
    split
    · rw [Finset.mem_insert, or_iff_right hw]
    · rw [Finset.mem_erase, and_iff_right hw]

theorem activeWorkers_begin (σ : Scheduler n φ κ) (w : Fin n) {phase : Phase φ κ}
    (h : phase.Active) : (σ.setPhase w phase).activeWorkers = insert w σ.activeWorkers := by
  rw [setPhase, activeWorkers_setWorker]
  exact if_pos h

theorem activeWorkers_end (σ : Scheduler n φ κ) (w : Fin n) {phase : Phase φ κ}
    (h : ¬ phase.Active) : (σ.setPhase w phase).activeWorkers = σ.activeWorkers.erase w := by
  rw [setPhase, activeWorkers_setWorker]
  exact if_neg h

/-- A worker that goes on with a task, or without one, as before. -/
theorem activeWorkers_same {w : Fin n} {worker : Worker φ κ}
    (h : worker.phase.Active <-> (σ.worker w).phase.Active) :
    (σ.setWorker w worker).activeWorkers = σ.activeWorkers := by
  rw [activeWorkers_setWorker]
  by_cases hactive : worker.phase.Active
  · rw [if_pos hactive, Finset.insert_eq_self.mpr (mem_activeWorkers.mpr (h.mp hactive))]
  · rw [if_neg hactive,
      Finset.erase_eq_of_notMem (mt mem_activeWorkers.mp (mt h.mpr hactive))]

theorem init_accounted : Accounted (init : Scheduler n φ κ) where
  counted := (Finset.card_eq_zero.mpr (Finset.filter_false_of_mem fun _ _ => id)).symm
  idleTerm := nofun
  exited := nofun

theorem setPhase_idleTerm (σ : Scheduler n φ κ) (w w' : Fin n) (phase : Phase φ κ) :
    ((σ.setPhase w phase).worker w').idleTerm = (σ.worker w').idleTerm := by
  unfold setPhase
  by_cases hw : w' = w
  · rw [hw, setWorker_self]
  · rw [setWorker_of_ne σ hw]

theorem setPhase_exited {σ : Scheduler n φ κ} {w w' : Fin n} {phase : Phase φ κ}
    (h : ((σ.setPhase w phase).worker w').phase.Exited) :
    (σ.worker w').phase.Exited ∨ w' = w ∧ phase.Exited := by
  unfold setPhase at h
  by_cases hw : w' = w
  · rw [hw, setWorker_self] at h
    exact Or.inr ⟨hw, h⟩
  · rw [setWorker_of_ne σ hw] at h
    exact Or.inl h

/-- A worker exits only in a scan of its own. -/
theorem exited_setPhase {σ : Scheduler n φ κ} {w : Fin n} {phase : Phase φ κ}
    (h : forall w', (σ.worker w').phase.Exited -> (σ.worker w').idleTerm = true)
    (hexit : phase.Exited -> (σ.worker w).idleTerm = true) {w' : Fin n}
    (hexited : ((σ.setPhase w phase).worker w').phase.Exited) :
    ((σ.setPhase w phase).worker w').idleTerm = true := by
  rw [setPhase_idleTerm]
  rcases setPhase_exited hexited with hold | ⟨rfl, hnew⟩
  · exact h w' hold
  · exact hexit hnew

theorem Accounted.setPhase (h : Accounted σ) {w : Fin n} {phase : Phase φ κ}
    (hactive : phase.Active <-> (σ.worker w).phase.Active)
    (hexit : phase.Exited -> (σ.worker w).idleTerm = true) :
    Accounted (σ.setPhase w phase) where
  counted := by
    rw [Scheduler.setPhase, activeWorkers_same hactive]
    exact h.counted
  idleTerm := by
    intro w' hterm
    rw [setPhase_idleTerm] at hterm
    exact h.idleTerm w' hterm
  exited := fun _ hexited => exited_setPhase h.exited hexit hexited

theorem active_of_running {phase : Phase φ κ} (h : phase.Running) : phase.Active := by
  cases phase with
  | running task => trivial
  | _ => exact h.elim

theorem Accounted.take (h : Accounted σ) {w : Fin n} {getState : φ -> State}
    {task : SchedulerTask φ κ} {left : List (SchedulerTask φ κ)}
    (hphase : (σ.worker w).phase = .scanning)
    (htake : takeTask getState (threads.id w) σ.tasks = .ok (some (task, left))) :
    Accounted (σ.take w task left) := by
  rcases takeTask_some htake with ⟨front, rest, htasks, _⟩
  have hfree : w ∉ σ.activeWorkers := by
    rw [mem_activeWorkers, hphase]
    exact id
  refine ⟨?_, ?_, fun _ hexited => exited_setPhase h.exited False.elim hexited⟩
  · rw [Scheduler.take, activeWorkers_begin _ w (show (Phase.holding task).Active from trivial)]
    exact (congrArg (· + 1) h.counted).trans (Finset.card_insert_of_notMem hfree).symm
  · intro w' hterm
    rw [Scheduler.take, setPhase_idleTerm] at hterm
    have hnil := (h.idleTerm w' hterm).2.1
    rw [htasks] at hnil
    exact absurd hnil (by simp)

theorem Accounted.finish (h : Accounted σ) {w : Fin n}
    (hactive : (σ.worker w).phase.Active) : Accounted (σ.finish w) := by
  refine ⟨?_, ?_, fun _ hexited => exited_setPhase h.exited False.elim hexited⟩
  · rw [Scheduler.finish, activeWorkers_end _ w (show ¬ Phase.scanning.Active from id)]
    exact (congrArg (· - 1) h.counted).trans
      (Finset.card_erase_of_mem (mem_activeWorkers.mpr hactive)).symm
  · intro w' hterm
    rw [Scheduler.finish, setPhase_idleTerm] at hterm
    have hfalse := h.not_idleTerm hactive w'
    exact absurd (hfalse.symm.trans hterm) (by decide)

/-- The idle fiber ends only when the scheduler is stopping. -/
theorem Accounted.idle (h : Accounted σ) {w : Fin n} (hphase : (σ.worker w).phase = .idle) :
    Accounted (σ.idle w) := by
  have hsame : (σ.idle w).activeWorkers = σ.activeWorkers := by
    refine activeWorkers_same ?_
    rw [hphase]
    exact Iff.rfl
  refine ⟨hsame ▸ h.counted, ?_, ?_⟩
  · intro w' hterm
    by_cases hw : w' = w
    · rw [hw, Scheduler.idle, setWorker_self] at hterm
      exact of_decide_eq_true hterm
    · rw [Scheduler.idle, setWorker_of_ne σ hw] at hterm
      exact h.idleTerm w' hterm
  · intro w' hexited
    by_cases hw : w' = w
    · rw [hw, Scheduler.idle, setWorker_self] at hexited
      exact hexited.elim
    · rw [Scheduler.idle, setWorker_of_ne σ hw] at hexited ⊢
      exact h.exited w' hexited

theorem StepCase.accounted (haccount : Accounted σ) (h : StepCase threads σ a σ') :
    Accounted σ' := by
  cases h with
  | schedule task hstopped _ =>
      refine ⟨haccount.counted, ?_, haccount.exited⟩
      intro w hterm
      have htrue := (haccount.idleTerm w hterm).1
      rw [hstopped] at htrue
      cases htrue
  | scheduleFrom w task hrunning _ =>
      refine ⟨haccount.counted, ?_, haccount.exited⟩
      intro w' hterm
      have hfalse := haccount.not_idleTerm (active_of_running hrunning) w'
      exact absurd (hfalse.symm.trans hterm) (by decide)
  | take w getState task left hphase htake => exact haccount.take hphase htake
  | nothing w getState hphase hnone =>
      refine haccount.setPhase ?_ ?_
      · rw [hphase]
        cases (σ.worker w).idleTerm <;> exact Iff.rfl
      · intro hexit
        cases hterm : (σ.worker w).idleTerm with
        | false =>
            rw [hterm] at hexit
            exact hexit.elim
        | true => rfl
  | scanFail w getState err hphase =>
      exact ⟨haccount.counted, haccount.idleTerm, haccount.exited⟩
  | resume w getState task hphase =>
      refine haccount.setPhase ?_ False.elim
      rw [hphase]
      exact Iff.rfl
  | resumeFail w getState => exact ⟨haccount.counted, haccount.idleTerm, haccount.exited⟩
  | finish w task hphase =>
      refine haccount.finish ?_
      rw [hphase]
      trivial
  | idle w hphase => exact haccount.idle hphase
  | stop =>
      refine ⟨haccount.counted, ?_, haccount.exited⟩
      intro w hterm
      exact ⟨rfl, (haccount.idleTerm w hterm).2⟩

/-- A worker that has exited leaves nothing behind. -/
theorem Accounted.nothing_left (h : Accounted σ) {w : Fin n}
    (hexited : (σ.worker w).phase.Exited) :
    σ.tasks = [] ∧ forall w', ¬ (σ.worker w').phase.Active := by
  have hterm := h.exited w hexited
  refine ⟨(h.idleTerm w hterm).2.1, ?_⟩
  intro w' hactive
  rw [h.not_idleTerm hactive w] at hterm
  cases hterm

/-- What is queued after a task was scheduled was queued before, or is that task. -/
theorem mem_add {new task : SchedulerTask φ κ} (h : task ∈ (σ.add new).tasks) :
    task ∈ σ.tasks ∨ task = new := by
  change task ∈ schedulerNoLock σ.tasks new at h
  rw [schedulerNoLock_eq, List.mem_append] at h
  refine h.imp_right ?_
  unfold queued
  split
  · exact List.mem_singleton.mp
  · exact nofun

/-- Whatever is queued may run on a worker that is still there. -/
theorem StepCase.live (haccount : Accounted σ')
    (hlive : forall task, task ∈ σ.tasks -> σ.PinnedToLive threads task)
    (h : StepCase threads σ a σ') {task : SchedulerTask φ κ} (htask : task ∈ σ'.tasks) :
    σ'.PinnedToLive threads task := by
  have hall : forall w, ¬ (σ'.worker w).phase.Exited := by
    intro w hexited
    rw [(haccount.nothing_left hexited).1] at htask
    cases htask
  have hpinned : σ.PinnedToLive threads task := by
    cases h with
    | schedule new _ hnew =>
        rcases mem_add htask with hold | rfl
        · exact hlive task hold
        · exact hnew
    | scheduleFrom w new _ hnew =>
        rcases mem_add htask with hold | rfl
        · exact hlive task hold
        · exact hnew
    | take w getState new left _ htake =>
        rcases takeTask_some htake with ⟨front, rest, htasks, hleft, _⟩
        change task ∈ left at htask
        rw [hleft] at htask
        refine hlive task ?_
        rw [htasks]
        exact List.mem_append.mpr ((List.mem_append.mp htask).imp_right
          (List.mem_cons_of_mem new))
    | _ => exact hlive task htask
  rcases hpinned with hfree | ⟨w, hw, _⟩
  · exact Or.inl hfree
  · exact Or.inr ⟨w, hw, hall w⟩

/-!
# Waiting

A scan takes the first task that the worker may run, so those that were queued earlier
go first.
-/

theorem backlog_eq_zero {w : Fin n} {tasks : List (SchedulerTask φ κ)}
    (h : forall task, task ∈ tasks -> ¬ task.MayRunOn (threads.id w)) :
    backlog threads w tasks = 0 := by
  refine List.countP_eq_zero.mpr ?_
  intro task htask
  simpa using h task htask

theorem backlog_append (w : Fin n) (front rest : List (SchedulerTask φ κ)) :
    backlog threads w (front ++ rest) = backlog threads w front + backlog threads w rest :=
  List.countP_append

theorem backlog_cons {w : Fin n} {task : SchedulerTask φ κ}
    (h : task.MayRunOn (threads.id w)) (rest : List (SchedulerTask φ κ)) :
    backlog threads w (task :: rest) = backlog threads w rest + 1 :=
  List.countP_cons_of_pos (decide_eq_true h)

theorem backlog_sublist (w : Fin n) {left tasks : List (SchedulerTask φ κ)}
    (h : left.Sublist tasks) : backlog threads w left ≤ backlog threads w tasks :=
  h.countP_le

/-- The list starts with what a step has left of the older tasks; a scan took one of
them if it could. -/
def Leaves (threads : Threads n) (a : SchedulerAction n φ κ)
    (older tasks : List (SchedulerTask φ κ)) : Prop :=
  exists left new, tasks = left ++ new ∧ left.Sublist older ∧
    forall w, backlog threads w left ≤ backlog threads w older - if IsScan w a then 1 else 0

theorem leaves_all {older new : List (SchedulerTask φ κ)}
    (h : forall w, IsScan w a -> backlog threads w older = 0) :
    Leaves threads a older (older ++ new) := by
  refine ⟨older, new, rfl, List.Sublist.refl older, ?_⟩
  intro w
  by_cases hscan : IsScan w a
  · rw [h w hscan]
    exact Nat.zero_le _
  · rw [if_neg hscan]
    exact Nat.le_refl _

/-- A scan that takes the first task it may run takes an older one if there is one. -/
theorem leaves_take {w : Fin n} {getState : φ -> State} {task : SchedulerTask φ κ}
    {front rest older new : List (SchedulerTask φ κ)}
    (htasks : front ++ task :: rest = older ++ new)
    (hfront : forall task, task ∈ front -> ¬ task.MayRunOn (threads.id w))
    (hmay : task.MayRunOn (threads.id w)) :
    Leaves threads (.scan w getState) older (front ++ rest) := by
  have hzero := backlog_eq_zero hfront
  have hlater : forall between, front = older ++ between ->
      Leaves threads (.scan w getState) older (front ++ rest) := by
    intro between heq
    rw [heq, List.append_assoc]
    refine leaves_all ?_
    rintro w' rfl
    rw [heq, backlog_append] at hzero
    exact (Nat.add_eq_zero_iff.mp hzero).1
  rcases List.append_eq_append_iff.mp htasks with ⟨more, holder, hmore⟩ | ⟨between, heq, _⟩
  · cases more with
    | nil => exact hlater [] (by rw [holder, List.append_nil, List.append_nil])
    | cons first more =>
        cases hmore
        refine ⟨front ++ more, new, (List.append_assoc front more new).symm, ?_, ?_⟩
        · rw [holder]
          exact (List.sublist_cons_self task more).append_left front
        · intro w'
          by_cases hscan : IsScan w' (.scan w getState : SchedulerAction n φ κ)
          · rw [if_pos hscan]
            cases hscan
            rw [holder, backlog_append, backlog_append, backlog_cons hmay]
            exact Nat.le_refl _
          · rw [if_neg hscan, holder]
            exact backlog_sublist w' ((List.sublist_cons_self task more).append_left front)
  · exact hlater between heq

theorem StepCase.leaves (h : StepCase threads σ a σ') (hpanic : σ'.panic = none)
    {older new : List (SchedulerTask φ κ)} (htasks : σ.tasks = older ++ new) :
    Leaves threads a older σ'.tasks := by
  have hsame : σ'.tasks = σ.tasks -> (forall w, ¬ IsScan w a) ->
      Leaves threads a older σ'.tasks := by
    intro heq hother
    rw [heq, htasks]
    exact leaves_all fun w hscan => absurd hscan (hother w)
  have hadd : forall task, σ'.tasks = schedulerNoLock σ.tasks task ->
      (forall w, ¬ IsScan w a) -> Leaves threads a older σ'.tasks := by
    intro task heq hother
    rw [heq, schedulerNoLock_eq, htasks, List.append_assoc]
    exact leaves_all fun w hscan => absurd hscan (hother w)
  cases h with
  | schedule task _ _ => exact hadd task rfl fun _ => id
  | scheduleFrom w task _ _ => exact hadd task rfl fun _ => id
  | take w getState task left _ htake =>
      rcases takeTask_some htake with ⟨front, rest, hsplit, hleft, hfront, hmay, _⟩
      change Leaves threads _ older left
      rw [hleft]
      exact leaves_take (hsplit.symm.trans htasks) hfront hmay
  | nothing w getState _ hnone =>
      change Leaves threads _ older σ.tasks
      rw [htasks]
      refine leaves_all ?_
      rintro w' rfl
      refine backlog_eq_zero ?_
      intro task htask
      refine takeTask_none hnone ?_
      rw [htasks]
      exact List.mem_append_left new htask
  | scanFail w getState err _ => cases hpanic
  | resume w getState task _ => exact hsame rfl fun _ => id
  | resumeFail w getState => cases hpanic
  | finish w task _ => exact hsame rfl fun _ => id
  | idle w _ => exact hsame rfl fun _ => id
  | stop => exact hsame rfl fun _ => id

/-!
# Runs
-/

variable {tr : List (SchedulerStep n φ κ)}

theorem trace_accounted (h : (schedulerSystem threads φ κ).Trace tr σ) : Accounted σ :=
  TransitionSystem.Trace.invariant (M := schedulerSystem threads φ κ)
    (P := fun _ σ => Accounted σ) init_accounted
    (fun _ haccount hstep => (step_cases hstep).2.accounted haccount) h

theorem trace_once (h : (schedulerSystem threads φ κ).Trace tr σ) :
    (scheduled tr).Perm ((taken tr).map Prod.snd ++ σ.tasks) := by
  induction h with
  | nil => exact List.Perm.refl []
  | @snoc tr σ σ' a _ hstep ih =>
      have hlast := (step_cases hstep).2.once
      unfold scheduled taken at *
      simp only [List.flatMap_append, List.flatMap_cons, List.flatMap_nil, List.append_nil,
        List.map_append]
      have hnext := ih.append_right (scheduledIn { before := σ, action := a, after := σ' })
      rw [List.append_assoc] at hnext ⊢
      exact hnext.trans (hlast.append_left _)

theorem trace_pinned (h : (schedulerSystem threads φ κ).Trace tr σ)
    {p : Fin n × SchedulerTask φ κ} (hp : p ∈ taken tr) : p.2.MayRunOn (threads.id p.1) := by
  rcases List.mem_flatMap.mp hp with ⟨t, ht, hp⟩
  exact (step_cases (h.step_of_mem ht)).2.pinned hp

theorem trace_live (h : (schedulerSystem threads φ κ).Trace tr σ) :
    forall task, task ∈ σ.tasks -> σ.PinnedToLive threads task := by
  induction h with
  | nil => exact nofun
  | snoc htr hstep ih =>
      intro task htask
      have haccount := trace_accounted (htr.snoc hstep)
      exact (step_cases hstep).2.live haccount ih htask

theorem scans_snoc (w : Fin n) (tr : List (SchedulerStep n φ κ)) (t : SchedulerStep n φ κ) :
    scans w (tr ++ [t]) = scans w tr + if IsScan w t.action then 1 else 0 := by
  unfold scans
  rw [List.countP_append, List.countP_singleton]
  simp only [decide_eq_true_eq]

theorem trace_waits (h : (schedulerSystem threads φ κ).Trace tr σ) (hpanic : σ.panic = none)
    {earlier later : List (SchedulerStep n φ κ)} {t : SchedulerStep n φ κ}
    (hsplit : tr = earlier ++ t :: later) :
    exists left new, σ.tasks = left ++ new ∧ left.Sublist t.before.tasks ∧
      forall w, backlog threads w left ≤
        backlog threads w t.before.tasks - scans w (t :: later) := by
  rw [hsplit] at h
  have hsince := h.since (C := fun _ => True)
    (Q := fun later σ => σ.panic = none -> exists left new, σ.tasks = left ++ new ∧
      left.Sublist t.before.tasks ∧ forall w, backlog threads w left ≤
        backlog threads w t.before.tasks - scans w (t :: later)) ?_ ?_ (fun _ _ => trivial)
  · exact hsince hpanic
  · -- the step itself
    intro _ _ hstep _ hpanic
    rcases (step_cases hstep).2.leaves hpanic (List.append_nil _).symm with
      ⟨left, new, htasks, hsub, hle⟩
    refine ⟨left, new, htasks, hsub, ?_⟩
    intro w
    have hscans := scans_snoc w [] t
    rw [List.nil_append] at hscans
    rw [hscans]
    exact (hle w).trans (by simp [scans])
  · intro later σ σ' a _ _ hQ hstep _ hpanic
    rcases step_cases hstep with ⟨hbefore, hcase⟩
    rcases hQ hbefore with ⟨left, new, htasks, hsub, hle⟩
    rcases hcase.leaves hpanic htasks with ⟨left', new', htasks', hsub', hle'⟩
    refine ⟨left', new', htasks', hsub'.trans hsub, ?_⟩
    intro w
    rw [← List.cons_append, scans_snoc, ← Nat.sub_sub]
    exact (hle' w).trans (Nat.sub_le_sub_right (hle w) _)

/-- Every task is taken once, by a worker that may run it, and whoever leaves the loop
leaves no task behind. -/
theorem scheduler_losesNothing (threads : Threads n) (r : (schedulerSystem threads φ κ).Run) :
    LosesNothing threads r where
  once := trace_once r.valid
  pinned := fun _ hp => trace_pinned r.valid hp
  exits := by
    intro w hexited
    rcases (trace_accounted r.valid).nothing_left hexited with ⟨hnil, hactive⟩
    refine ⟨?_, hactive⟩
    have honce := trace_once r.valid
    rw [hnil, List.append_nil] at honce
    exact honce
  live := trace_live r.valid
  waits := fun hpanic _ _ _ hsplit => trace_waits r.valid hpanic hsplit

end Scheduler
end Fiber
end KVRaft
