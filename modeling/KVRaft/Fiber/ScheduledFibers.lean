import KVRaft.Fiber.References

/-!
# Scheduled fibers

Every step of the workers, of their idle fibers and of the hooked calls keeps the system
orderly.  A scan therefore comes to a fiber that is not ready only while that fiber has
added its timer or event and has yet to yield.
-/

namespace KVRaft
namespace Fiber

open Foundation

namespace FiberSystem

variable {n : Nat} {threads : Threads n} {now : UInt64} {σ σ' : FiberSystem n}
  {a : FiberAction n}

/-- A scan comes to the task of a fiber that has added its timer or event and has not
yielded yet. -/
def InspectsEarly (threads : Threads n)
    (t : Transition (FiberSystem n) (FiberAction n)) : Prop :=
  exists w task fiber, t.action = .scan w ∧
    inspected (threads.id w) t.before.tasks = some task ∧
    task.fiber = some fiber ∧ (t.before.fiber fiber).pc.Published

/-- Scans come to fibers that are ready only. -/
structure NeverRunning (r : (fiberSystem threads now).Run) : Prop where
  ready : r.Always fun t => forall w task, t.action = .scan w ->
    inspected (threads.id w) t.before.tasks = some task -> task.Ready t.before.getState
  passes : r.Always fun t => forall w, t.action = .scan w ->
    t.after.panic ≠ some .fiberTaskState

/-!
# The loop of a worker
-/

theorem Orderly.take (h : Orderly σ) {w : Fin n} {task : SchedulerTask Nat Callback}
    {left : List (SchedulerTask Nat Callback)}
    (htake : takeTask σ.getState (threads.id w) σ.tasks = .ok (some (task, left))) :
    Orderly (σ.take w task left) := by
  refine h.keep rfl rfl h.tidy fun fiber => ?_
  rcases takeTask_some htake with ⟨front, rest, htasks, hleft, _⟩
  have hqueue : (σ.tasks.map (wakes fiber).task).sum =
      (left.map (wakes fiber).task).sum + (wakes fiber).task task := by
    simp only [htasks, hleft, List.map_append, List.map_cons, List.sum_append, List.sum_cons]
    omega
  have hupdate := wakeups_setPhase ((σ.setTasks left).setActive (σ.activeThreadCnt + 1))
    w rfl (.holding task) fiber
  have hleft := wakeups_setTasks σ left fiber
  rw [wakeups_setActive] at hupdate
  simp only [phaseWeight] at hupdate
  unfold FiberSystem.take
  omega

theorem Orderly.scan (h : Orderly σ) (w : Fin n) : Orderly (σ.scan threads w) := by
  unfold FiberSystem.scan
  cases htake : takeTask σ.getState (threads.id w) σ.tasks with
  | error err => exact h.fail err
  | ok result =>
      cases result with
      | some result => exact h.take htake
      | none =>
          refine h.setPhase w _ fun fiber => ?_
          cases (σ.worker w).idleTerm <;> rfl

/-- A fiber that is resumed uses up the reference that the worker holds. -/
theorem Orderly.resumeFiber (h : Orderly σ) {w : Fin n} {task : SchedulerTask Nat Callback}
    {fiber : Nat} (hphase : (σ.worker w).phase = .holding task)
    (hfiber : task.fiber = some fiber) (hresumable : task.Resumable σ.getState) :
    Orderly ((σ.setFiber fiber .running (Pc.resumed (σ.fiber fiber).pc)).setPhase w
      (.running fiber)) := by
  have hready : (σ.fiber fiber).pc.state = .ready := by
    unfold SchedulerTask.Resumable at hresumable
    rw [hfiber] at hresumable
    unfold getState at hresumable
    rw [← h.states fiber]
    cases hstate : (σ.fiber fiber).state with
    | ready => rfl
    | running => exact absurd hstate hresumable.2
    | term => exact absurd hstate hresumable.1
  rcases Pc.state_resumed hready with ⟨hstate, hused, hone⟩
  have hpaid : forall other,
      ((σ.setFiber fiber .running (Pc.resumed (σ.fiber fiber).pc)).setPhase w
          (.running fiber)).wakeups other + (wakes other).fiber fiber ≤ σ.wakeups other := by
    intro other
    have hupdate := wakeups_setPhase
      (σ.setFiber fiber .running (Pc.resumed (σ.fiber fiber).pc)) w hphase
      (.running fiber) other
    simp only [wakeups_setFiber, phaseWeight, Weights.task, hfiber, Option.elim] at hupdate
    omega
  refine h.turn fiber (Pc.resumed (σ.fiber fiber).pc) rfl ?_ ?_ rfl h.tidy ?_ ?_
  · intro habsent
    rw [habsent] at hready
    cases hready
  · rw [hstate]
    rfl
  · have hself := hpaid fiber
    rw [wakes_fiber_self] at hself
    omega
  · intro other _
    exact Nat.le_trans (Nat.le_add_right _ _) (hpaid other)

/-- The fiber of a callback is new, and the worker goes on holding the callback. -/
theorem Orderly.resumeCallback (h : Orderly σ) {w : Fin n}
    {task : SchedulerTask Nat Callback} {cb : Callback}
    (hphase : (σ.worker w).phase = .holding task) (hcb : task.cb = some cb) :
    Orderly (({ σ with nextFiber := σ.nextFiber + 1 }.setFiber σ.nextFiber .running
      cb.pc).setPhase w (.invoking σ.nextFiber cb)) := by
  have hmoved : forall other,
      (({ σ with nextFiber := σ.nextFiber + 1 }.setFiber σ.nextFiber .running
          cb.pc).setPhase w (.invoking σ.nextFiber cb)).wakeups other ≤ σ.wakeups other := by
    intro other
    have hupdate := wakeups_setPhase
      ({ σ with nextFiber := σ.nextFiber + 1 }.setFiber σ.nextFiber .running cb.pc)
      w hphase (.invoking σ.nextFiber cb) other
    simp only [wakeups_setFiber, phaseWeight, Weights.task, hcb, Option.elim] at hupdate
    change _ = σ.wakeups other + _ at hupdate
    omega
  refine h.born cb.pc ?_ rfl h.tidy ?_ fun other _ => hmoved other
  · cases cb <;> rfl
  · exact Nat.le_trans (hmoved σ.nextFiber) (Nat.le_add_right _ _)

theorem Orderly.resume (h : Orderly σ) {w : Fin n} {task : SchedulerTask Nat Callback}
    (hphase : (σ.worker w).phase = .holding task) (hstep : σ.resume w task = some σ') :
    Orderly σ' := by
  unfold FiberSystem.resume at hstep
  cases hfiber : task.fiber with
  | some fiber =>
      rw [hfiber] at hstep
      dsimp only at hstep
      split at hstep
      · rename_i hresumable
        cases hstep
        exact h.resumeFiber hphase hfiber hresumable
      · cases hstep
        exact h.fail .resumeState
  | none =>
      rw [hfiber] at hstep
      cases hcb : task.cb with
      | none =>
          rw [hcb] at hstep
          cases hstep
      | some cb =>
          rw [hcb] at hstep
          cases hstep
          exact h.resumeCallback hphase hcb

/-- The reference in a callback goes to the task that it schedules. -/
theorem Orderly.invoke (h : Orderly σ) {w : Fin n} {fiber : Nat} {cb : Callback}
    (hphase : (σ.worker w).phase = .invoking fiber cb) : Orderly (σ.invoke w fiber cb) := by
  cases cb with
  | scheduler sleeper =>
      refine h.keep rfl rfl h.tidy fun other => ?_
      have hschedule := wakeups_schedule σ { fiber := some sleeper } other
      have hupdate := wakeups_setPhase (σ.schedule { fiber := some sleeper }) w hphase
        (.running fiber) other
      rw [wakes_fiberTask] at hschedule
      change _ + (wakes other).fiber sleeper = _ + 0 at hupdate
      change (FiberSystem.setPhase _ w _).wakeups other ≤ _
      omega
  | timeLimit info fd event =>
      unfold FiberSystem.invoke
      dsimp only
      split
      · have hinfo : Orderly (σ.setInfo info { σ.info info with cancelled := true }) :=
          h.keep rfl rfl h.tidy fun _ => Nat.le_refl _
        exact hinfo.setPhase w _ fun _ => rfl
      · exact h.setPhase w _ fun _ => rfl
  | user => exact h.setPhase w _ fun _ => rfl

theorem Orderly.cancelEvent (h : Orderly σ) (fd : Nat) (event : Event) (ctl : Bool) :
    Orderly (σ.settle ((σ.io.cancelEvent fd event ctl).map Prod.fst)) := by
  refine h.settle fun io hok fiber => ?_
  rcases map_fst_ok hok with ⟨done, hcancel⟩
  exact (wakes fiber).manager_cancelEvent hcancel

/-- A fiber gives way to the loop of its worker. -/
theorem Orderly.back (h : Orderly σ) (w : Fin n) (fiber : Nat) {before : Pc} (after : Pc)
    (hpc : (σ.fiber fiber).pc = before) (hpresent : before ≠ .absent)
    (hallowance : before.allowance = after.allowance) :
    Orderly ((σ.setFiber fiber after.state after).back w) := by
  have hless : forall other,
      ((σ.setFiber fiber after.state after).back w).wakeups other ≤ σ.wakeups other := by
    intro other
    have hupdate := wakeups_setPhase ((σ.setFiber fiber after.state after).setActive
      (σ.activeThreadCnt - 1)) w rfl .scanning other
    simp only [wakeups_setActive, wakeups_setFiber, phaseWeight] at hupdate
    unfold FiberSystem.back
    change (FiberSystem.setPhase _ w .scanning).wakeups other ≤ _
    exact Nat.le_trans (Nat.le_add_right _ _) (Nat.le_of_eq hupdate)
  refine h.turn fiber after hpc hpresent rfl rfl h.tidy ?_ fun other _ => hless other
  rw [hallowance]
  exact Nat.add_le_add_right (hless fiber) _

theorem Orderly.finish (h : Orderly σ) {w : Fin n} {fiber : Nat}
    (hstep : σ.finish w fiber = some σ') : Orderly σ' := by
  unfold FiberSystem.finish at hstep
  cases hpc : (σ.fiber fiber).pc with
  | user =>
      rw [hpc] at hstep
      cases hstep
      exact h.back w fiber .done hpc nofun rfl
  | callback =>
      rw [hpc] at hstep
      cases hstep
      exact h.back w fiber .done hpc nofun rfl
  | _ =>
      rw [hpc] at hstep
      cases hstep

theorem Orderly.yieldTo (h : Orderly σ) (w : Fin n) (fiber : Nat) {before after : Pc}
    (hpc : (σ.fiber fiber).pc = before) (hbefore : before.Published)
    (hafter : after.state = .ready) (hallowance : before.allowance = after.allowance) :
    Orderly (σ.yieldTo w fiber after) := by
  have hstate : (σ.fiber fiber).state = .running := by
    rw [h.states fiber, hpc]
    exact Pc.state_of_published hbefore
  unfold FiberSystem.yieldTo
  rw [hstate]
  have hback := h.back w fiber after hpc (by
    intro habsent
    rw [habsent] at hbefore
    exact hbefore) hallowance
  rw [hafter] at hback
  exact hback

theorem Orderly.yield (h : Orderly σ) {w : Fin n} {fiber : Nat}
    (hstep : σ.yield w fiber = some σ') : Orderly σ' := by
  unfold FiberSystem.yield at hstep
  cases hpc : (σ.fiber fiber).pc with
  | sleeping =>
      rw [hpc] at hstep
      cases hstep
      exact h.yieldTo w fiber hpc trivial rfl rfl
  | waiting io timer =>
      rw [hpc] at hstep
      cases hstep
      exact h.yieldTo w fiber hpc trivial rfl rfl
  | _ =>
      rw [hpc] at hstep
      cases hstep

/-!
# Any thread and the idle fiber
-/

theorem Orderly.spawn (h : Orderly σ) (thread : Int) : Orderly (σ.spawn thread) := by
  have hwakeups := fun other => wakeups_schedule
    ({ σ with nextFiber := σ.nextFiber + 1 }.setFiber σ.nextFiber .ready .created)
    { fiber := some σ.nextFiber, thread := thread } other
  simp only [wakes_fiberTask, wakeups_setFiber] at hwakeups
  refine h.born .created rfl rfl h.tidy ?_ fun other hne => ?_
  · have hself := hwakeups σ.nextFiber
    rw [wakes_fiber_self] at hself
    exact hself
  · have hother := hwakeups other
    rw [wakes_fiber_of_ne (Ne.symm hne)] at hother
    exact hother

theorem Orderly.schedule (h : Orderly σ) (thread : Int) :
    Orderly (σ.schedule { cb := some .user, thread := thread }) :=
  h.keep rfl rfl h.tidy fun fiber =>
    wakeups_schedule σ { cb := some .user, thread := thread } fiber

theorem Orderly.stopping (h : Orderly σ) (now : UInt64) : Orderly (σ.stopping now).1 :=
  h.keep rfl rfl (fun fiber => ⟨(h.tidy fiber).allocated, (h.tidy fiber).recurring⟩)
    fun _ => Nat.le_refl _

theorem Orderly.stop (h : Orderly σ) (now : UInt64) : Orderly (σ.stop now) := by
  have hstopping := h.stopping now
  unfold FiberSystem.stop
  dsimp only
  split
  · exact hstopping
  · exact hstopping.keep rfl rfl hstopping.tidy fun _ => Nat.le_refl _

theorem Orderly.idle (h : Orderly σ) (w : Fin n) (now : UInt64) : Orderly (σ.idle w now) := by
  have hstopping := h.stopping now
  unfold FiberSystem.idle
  dsimp only
  split
  · refine hstopping.keep rfl rfl hstopping.tidy fun fiber => ?_
    have hupdate := sum_update (workerWeight (wakes fiber)) σ.worker w
      { phase := .scanning, idleTerm := true }
    change _ = _ + 0 at hupdate
    unfold FiberSystem.wakeups FiberSystem.stopping
    dsimp only
    omega
  · exact hstopping.setPhase w _ fun _ => rfl

/-- The references of expired timers go to the callbacks that the worker is to queue. -/
theorem Orderly.listExpired (h : Orderly σ) {w : Fin n} {events : List EpollEvent}
    (hphase : (σ.worker w).phase = .polled events) (now : UInt64) :
    Orderly (σ.listExpired w now events) := by
  have hspec := fun fiber => (h.tidy fiber).listExpiredCb now
  refine h.keep rfl rfl (fun fiber => (hspec fiber).1) fun fiber => ?_
  have hheld := (hspec fiber).2
  have hupdate := wakeups_setPhase { σ with timers := (σ.timers.listExpiredCb now).2 } w hphase
    (.firing (σ.timers.listExpiredCb now).1 events) fiber
  simp only [phaseWeight] at hupdate
  unfold FiberSystem.listExpired
  dsimp only
  unfold FiberSystem.wakeups at hupdate ⊢
  dsimp only at hupdate
  omega

theorem Orderly.fire (h : Orderly σ) {w : Fin n} {cb : Option Callback}
    {cbs : List (Option Callback)} {events : List EpollEvent}
    (hphase : (σ.worker w).phase = .firing (cb :: cbs) events) :
    Orderly ((σ.schedule { cb := cb }).setPhase w (.firing cbs events)) := by
  refine h.keep rfl rfl h.tidy fun fiber => ?_
  have hschedule := wakeups_schedule σ { cb := cb } fiber
  have hupdate := wakeups_setPhase (σ.schedule { cb := cb }) w hphase (.firing cbs events) fiber
  simp only [phaseWeight, List.map_cons, List.sum_cons] at hupdate
  change _ ≤ σ.wakeups fiber + (0 + cb.elim 0 _) at hschedule
  omega

/-!
# Hooked calls
-/

/-- A fiber in one of its own calls goes on without new references. -/
theorem Orderly.setPc (h : Orderly σ) (fiber : Nat) {before : Pc} (after : Pc)
    (hpc : (σ.fiber fiber).pc = before) (hpresent : before ≠ .absent)
    (hstate : before.state = after.state) (hallowance : before.allowance ≤ after.allowance) :
    Orderly (σ.setPc fiber after) := by
  refine h.turn fiber after hpc hpresent ?_ rfl h.tidy ?_ fun other _ => Nat.le_refl _
  · unfold FiberSystem.setPc
    rw [h.states fiber, hpc, hstate]
    rfl
  · exact Nat.add_le_add_left hallowance _

/-- A fiber that publishes itself has one reference from then on. -/
theorem Orderly.publish (h : Orderly σ) (fiber : Nat) {before : Pc} (after : Pc)
    (hpc : (σ.fiber fiber).pc = before) (hstate : before.state = .running)
    (hpublished : after.Published) (hfiber : σ'.fiber = (σ.setPc fiber after).fiber)
    (hnext : σ'.nextFiber = σ.nextFiber)
    (htidy : forall other, TimerManager.Tidy (wakes other).cb σ'.timers)
    (hwakeups : forall other, σ'.wakeups other ≤ σ.wakeups other + (wakes other).fiber fiber)
    (hallowance : before.allowance = 0) : Orderly σ' := by
  refine h.turn fiber after hpc ?_ ?_ hnext htidy ?_ fun other hne => ?_
  · intro habsent
    rw [habsent] at hstate
    cases hstate
  · rw [hfiber, FiberSystem.setPc, h.states fiber, hpc, hstate,
      Pc.state_of_published hpublished]
    rfl
  · have hself := hwakeups fiber
    rw [wakes_fiber_self] at hself
    rw [hallowance, Pc.allowance_of_published hpublished]
    exact hself
  · have hother := hwakeups other
    rw [wakes_fiber_of_ne (Ne.symm hne)] at hother
    exact hother

/-- The timer of a sleeping fiber is its reference. -/
theorem Orderly.sleepFor (h : Orderly σ) {fiber : Nat} {ms : UInt64} {address : Nat}
    {now : UInt64} (hstep : σ.sleepFor fiber ms address now = some σ') : Orderly σ' := by
  unfold FiberSystem.sleepFor at hstep
  cases hpc : (σ.fiber fiber).pc with
  | user =>
      rw [hpc] at hstep
      have hturn := h.setPc fiber .sleeping hpc nofun rfl (Nat.zero_le _)
      rcases hturn.addTimer hstep nofun with ⟨hfiber, hnext, htidy, hwakeups⟩
      exact h.publish fiber .sleeping hpc rfl trivial hfiber hnext htidy hwakeups rfl
  | _ =>
      rw [hpc] at hstep
      cases hstep

theorem Orderly.setInfo (h : Orderly σ) (info : Nat) (timerInfo : TimerInfo) :
    Orderly (σ.setInfo info timerInfo) :=
  h.keep rfl rfl h.tidy fun _ => Nat.le_refl _

theorem Orderly.leaveIo (h : Orderly σ) (fiber : Nat) (io : IoCall) {before : Pc}
    (hpc : (σ.fiber fiber).pc = before) (hstate : before.state = .running)
    (hallowance : before.allowance = 0) : Orderly (σ.leaveIo fiber io) := by
  refine (h.setInfo io.info _).setPc fiber .user hpc ?_ hstate (Nat.le_of_eq hallowance)
  intro habsent
  rw [habsent] at hstate
  cases hstate

theorem Orderly.beginIo (h : Orderly σ) {fiber fd : Nat} {event : Event} {timeout : UInt64}
    (hstep : σ.beginIo fiber fd event timeout = some σ') : Orderly σ' := by
  unfold FiberSystem.beginIo at hstep
  cases hpc : (σ.fiber fiber).pc with
  | user =>
      rw [hpc] at hstep
      cases hstep
      have hnext : Orderly { σ with nextInfo := σ.nextInfo + 1 } :=
        h.keep rfl rfl h.tidy fun _ => Nat.le_refl _
      exact (hnext.setInfo _ _).setPc fiber _ hpc nofun rfl (Nat.le_refl _)
  | _ =>
      rw [hpc] at hstep
      cases hstep

theorem Orderly.ioReturn (h : Orderly σ) {fiber : Nat} (hstep : σ.ioReturn fiber = some σ') :
    Orderly σ' := by
  unfold FiberSystem.ioReturn at hstep
  cases hpc : (σ.fiber fiber).pc with
  | calling io =>
      rw [hpc] at hstep
      cases hstep
      exact h.leaveIo fiber io hpc rfl rfl
  | _ =>
      rw [hpc] at hstep
      cases hstep

theorem Orderly.ioAgain (h : Orderly σ) {fiber address : Nat} {now : UInt64}
    (hstep : σ.ioAgain fiber address now = some σ') : Orderly σ' := by
  unfold FiberSystem.ioAgain at hstep
  cases hpc : (σ.fiber fiber).pc with
  | calling io =>
      rw [hpc] at hstep
      dsimp only at hstep
      split at hstep
      · have harmed := h.setPc fiber (.armed io (some address)) hpc nofun rfl (Nat.le_refl _)
        rcases harmed.addTimer hstep nofun with ⟨hfiber, hnext, htidy, hwakeups⟩
        exact harmed.keep hfiber hnext htidy hwakeups
      · cases hstep
        exact h.setPc fiber _ hpc nofun rfl (Nat.le_refl _)
  | _ =>
      rw [hpc] at hstep
      cases hstep

/-- The event of a waiting fiber is its reference. -/
theorem Orderly.ioAddEvent (h : Orderly σ) {fiber : Nat} {ctl : Bool}
    (hstep : σ.ioAddEvent fiber ctl = some σ') : Orderly σ' := by
  unfold FiberSystem.ioAddEvent at hstep
  cases hpc : (σ.fiber fiber).pc with
  | armed io timer =>
      rw [hpc] at hstep
      dsimp only at hstep
      cases hadd : σ.io.addEvent io.fd io.event (σ.caller fiber) none ctl with
      | error err =>
          rw [hadd] at hstep
          cases hstep
          exact h.fail err
      | ok result =>
          rcases result with ⟨manager, ret⟩
          rw [hadd] at hstep
          dsimp only at hstep
          have hspec := fun other => (wakes other).manager_addEvent hadd
          split at hstep
          · rename_i hrefused
            cases hstep
            have hio : Orderly { σ with io := manager } := by
              refine h.keep rfl rfl h.tidy fun other => ?_
              have hmanager := (hspec other).2 hrefused
              unfold FiberSystem.wakeups
              dsimp only
              omega
            exact hio.setPc fiber _ hpc nofun rfl (Nat.le_refl _)
          · cases hstep
            have hmore : forall other,
                ({ σ with io := manager }.setPc fiber (.waiting io timer)).wakeups other ≤
                  σ.wakeups other + (wakes other).fiber fiber := by
              intro other
              have hmanager : (wakes other).manager manager ≤
                  (wakes other).manager σ.io + (wakes other).fiber fiber := (hspec other).1
              change TimerManager.held _ σ.timers + (wakes other).manager manager +
                ∑ w, workerWeight _ (σ.worker w) ≤ _
              unfold FiberSystem.wakeups
              omega
            exact h.publish fiber (.waiting io timer) hpc rfl trivial rfl rfl h.tidy hmore rfl
  | _ =>
      rw [hpc] at hstep
      cases hstep

theorem Orderly.ioGiveUp (h : Orderly σ) {fiber : Nat} (hstep : σ.ioGiveUp fiber = some σ') :
    Orderly σ' := by
  unfold FiberSystem.ioGiveUp at hstep
  cases hpc : (σ.fiber fiber).pc with
  | refused io timer =>
      rw [hpc] at hstep
      cases hstep
      rw [← cancelTimer_fiber σ timer] at hpc
      exact (h.cancelTimer timer).leaveIo fiber io hpc rfl rfl
  | _ =>
      rw [hpc] at hstep
      cases hstep

theorem Orderly.ioCheck (h : Orderly σ) {fiber : Nat} (hstep : σ.ioCheck fiber = some σ') :
    Orderly σ' := by
  unfold FiberSystem.ioCheck at hstep
  cases hpc : (σ.fiber fiber).pc with
  | woken io timer =>
      rw [hpc] at hstep
      rw [← cancelTimer_fiber σ timer] at hpc
      dsimp only at hstep
      split at hstep
      · cases hstep
        exact (h.cancelTimer timer).leaveIo fiber io hpc rfl rfl
      · cases hstep
        exact (h.cancelTimer timer).setPc fiber _ hpc nofun rfl (Nat.le_refl _)
  | _ =>
      rw [hpc] at hstep
      cases hstep

/-!
# Runs
-/

theorem runs_some {w : Fin n} {step : Nat -> Option (FiberSystem n)}
    (h : (σ.runs w).bind step = some σ') : exists fiber, step fiber = some σ' := by
  rcases Option.bind_eq_some_iff.mp h with ⟨fiber, _, hstep⟩
  exact ⟨fiber, hstep⟩

theorem step_orderly (h : Orderly σ) (hstep : step threads σ a = some σ') : Orderly σ' := by
  rcases running_of_step hstep with ⟨hpanic, hstep⟩
  cases a with
  | tick now =>
      dsimp only at hstep
      split at hstep
      · cases hstep
        exact h.keep rfl rfl h.tidy fun _ => Nat.le_refl _
      · cases hstep
  | spawn thread =>
      cases hstep
      exact h.spawn thread
  | schedule thread =>
      cases hstep
      exact h.schedule thread
  | addTimer address now ms recurring =>
      rcases h.addTimer hstep fun _ => rfl with ⟨hfiber, hnext, htidy, hwakeups⟩
      exact h.keep hfiber hnext htidy hwakeups
  | addEvent fd event caller ctl =>
      cases hstep
      refine h.settle fun io hok fiber => ?_
      rcases map_fst_ok hok with ⟨ret, hadd⟩
      exact ((wakes fiber).manager_addEvent hadd).1
  | delEvent fd event ctl =>
      cases hstep
      refine h.settle fun io hok fiber => ?_
      rcases map_fst_ok hok with ⟨done, hdelete⟩
      exact (wakes fiber).manager_delEvent hdelete
  | cancelEvent fd event ctl =>
      cases hstep
      exact h.cancelEvent fd event ctl
  | cancelAll fd ctl =>
      cases hstep
      refine h.settle fun io hok fiber => ?_
      rcases map_fst_ok hok with ⟨done, hcancel⟩
      exact (wakes fiber).manager_cancelAll hcancel
  | stop now =>
      dsimp only at hstep
      split at hstep
      · cases hstep
        exact h.stop now
      · cases hstep
  | scan w =>
      dsimp only at hstep
      split at hstep
      · cases hstep
        exact h.scan w
      · cases hstep
  | resume w =>
      dsimp only at hstep
      split at hstep
      · exact h.resume ‹_› hstep
      · cases hstep
  | invoke w =>
      dsimp only at hstep
      split at hstep
      · cases hstep
        exact h.invoke ‹_›
      · cases hstep
  | cancelTimedOut w ctl =>
      dsimp only at hstep
      split at hstep
      · cases hstep
        exact (h.cancelEvent _ _ ctl).setPhase w _ fun _ => rfl
      · cases hstep
  | idle w now =>
      dsimp only at hstep
      split at hstep
      · split at hstep
        · cases hstep
          exact h.idle w now
        · cases hstep
      · cases hstep
  | epollWait w events =>
      dsimp only at hstep
      split at hstep
      · split at hstep
        · cases hstep
          exact h.setPhase w _ fun _ => rfl
        · cases hstep
      · cases hstep
  | listExpired w now =>
      dsimp only at hstep
      split at hstep
      · split at hstep
        · cases hstep
          exact h.listExpired ‹_› now
        · cases hstep
      · cases hstep
  | fire w =>
      dsimp only at hstep
      split at hstep
      · cases hstep
        exact h.fire ‹_›
      · cases hstep
  | handleEvent w ctl =>
      dsimp only at hstep
      split at hstep
      · rename_i event rest hphase
        cases hstep
        have hio : Orderly (σ.settle (σ.io.handleEvent event ctl)) :=
          h.settle fun io hok fiber => (wakes fiber).manager_handleEvent hok
        exact hio.setPhase w _ fun _ => rfl
      · cases hstep
  | idleYield w =>
      dsimp only at hstep
      split at hstep
      · cases hstep
        exact h.setPhase w _ fun _ => rfl
      · cases hstep
  | finish w =>
      rcases runs_some hstep with ⟨fiber, hstep⟩
      exact h.finish hstep
  | sleep w seconds address now =>
      rcases runs_some hstep with ⟨fiber, hstep⟩
      exact h.sleepFor hstep
  | usleep w usec address now =>
      rcases runs_some hstep with ⟨fiber, hstep⟩
      exact h.sleepFor hstep
  | nanosleep w sec nsec address now =>
      rcases runs_some hstep with ⟨fiber, hstep⟩
      exact h.sleepFor hstep
  | beginIo w fd event timeout =>
      rcases runs_some hstep with ⟨fiber, hstep⟩
      exact h.beginIo hstep
  | ioReturn w =>
      rcases runs_some hstep with ⟨fiber, hstep⟩
      exact h.ioReturn hstep
  | ioAgain w address now =>
      rcases runs_some hstep with ⟨fiber, hstep⟩
      exact h.ioAgain hstep
  | ioAddEvent w ctl =>
      rcases runs_some hstep with ⟨fiber, hstep⟩
      exact h.ioAddEvent hstep
  | ioGiveUp w =>
      rcases runs_some hstep with ⟨fiber, hstep⟩
      exact h.ioGiveUp hstep
  | ioCheck w =>
      rcases runs_some hstep with ⟨fiber, hstep⟩
      exact h.ioCheck hstep
  | yield w =>
      rcases runs_some hstep with ⟨fiber, hstep⟩
      exact h.yield hstep

theorem trace_orderly {tr : List (Transition (FiberSystem n) (FiberAction n))}
    (h : (fiberSystem threads now).Trace tr σ) : Orderly σ :=
  TransitionSystem.Trace.invariant (M := fiberSystem threads now)
    (P := fun _ σ => Orderly σ) (orderly_create now)
    (fun _ horderly hstep => step_orderly horderly hstep) h

/-- A queued fiber is ready or has been published by a call that has yet to yield. -/
theorem Orderly.queued (h : Orderly σ) {task : SchedulerTask Nat Callback} {fiber : Nat}
    (htask : task ∈ σ.tasks) (hfiber : task.fiber = some fiber) :
    (σ.fiber fiber).pc.state = .ready ∨ (σ.fiber fiber).pc.Published := by
  have hone : 1 ≤ (wakes fiber).task task := by
    unfold Weights.task
    rw [hfiber]
    change 1 ≤ (wakes fiber).fiber fiber + _
    rw [wakes_fiber_self]
    exact Nat.le_add_right _ _
  have hqueue : (wakes fiber).task task ≤ ((σ.io.tasks 0).map (wakes fiber).task).sum :=
    List.single_le_sum (fun _ _ => Nat.zero_le _) _ (List.mem_map_of_mem htask)
  have hwakeups := h.wakeups fiber
  unfold FiberSystem.wakeups Weights.manager at hwakeups
  exact Pc.ready_or_published (by omega)

theorem step_scan {w : Fin n} (h : step threads σ (.scan w) = some σ') :
    σ' = σ.scan threads w := by
  rcases running_of_step h with ⟨_, h⟩
  dsimp only at h
  split at h
  · cases h
    rfl
  · cases h

/-- A scan fails over the state of a fiber only if it comes to its task. -/
theorem scan_fiberTaskState {w : Fin n} (hpanic : σ.panic = none)
    (h : (σ.scan threads w).panic = some .fiberTaskState) :
    exists task, inspected (threads.id w) σ.tasks = some task ∧ ¬ task.Ready σ.getState := by
  unfold FiberSystem.scan at h
  cases htake : takeTask σ.getState (threads.id w) σ.tasks with
  | error err =>
      rw [htake] at h
      cases h
      exact takeTask_fiberTaskState htake
  | ok result =>
      rw [htake] at h
      cases result with
      | none =>
          change σ.panic = _ at h
          rw [hpanic] at h
          cases h
      | some result =>
          change σ.panic = _ at h
          rw [hpanic] at h
          cases h

/-- In every run, scans come to ready fibers only exactly as long as none comes to a fiber
between its registration and its yield. -/
theorem neverRunning_iff (r : (fiberSystem threads now).Run) :
    NeverRunning r <-> r.Always fun t => ¬ InspectsEarly threads t := by
  constructor
  · intro hnever t ht hearly
    rcases hearly with ⟨w, task, fiber, hscan, htask, hfiber, hpublished⟩
    rcases r.valid.before_of_mem ht with ⟨earlier, hbefore, _⟩
    have hready := hnever.ready t ht w task hscan htask
    unfold SchedulerTask.Ready at hready
    rw [hfiber] at hready
    have hstate := (trace_orderly hbefore).states fiber
    rw [Pc.state_of_published hpublished] at hstate
    cases hready.symm.trans hstate
  · intro hlate
    have hready : r.Always fun t => forall w task, t.action = .scan w ->
        inspected (threads.id w) t.before.tasks = some task ->
          task.Ready t.before.getState := by
      intro t ht w task hscan htask
      rcases r.valid.before_of_mem ht with ⟨earlier, hbefore, _⟩
      have horderly := trace_orderly hbefore
      unfold SchedulerTask.Ready
      cases hfiber : task.fiber with
      | none => exact trivial
      | some fiber =>
          rcases horderly.queued (mem_of_inspected htask) hfiber with hstate | hpublished
          · exact (horderly.states fiber).trans hstate
          · exact absurd ⟨w, task, fiber, hscan, htask, hfiber, hpublished⟩ (hlate t ht)
    refine ⟨hready, ?_⟩
    intro t ht w hscan hpanic
    have hstep := r.valid.step_of_mem ht
    change step threads t.before t.action = some t.after at hstep
    rw [hscan] at hstep
    rw [step_scan hstep] at hpanic
    rcases scan_fiberTaskState (running_of_step hstep).1 hpanic with ⟨task, htask, hnot⟩
    exact hnot (hready t ht w task hscan htask)

/-!
# A sleep of no length

Worker 0 runs a fiber that sleeps for 0 seconds.  Before it yields, worker 1 finds the
timer expired, runs its callback and comes to the task of the fiber.
-/

def twoThreads : Threads 2 where
  id := fun w => w.val
  injective := by decide
  ne := by decide

def shortSleepSchedule : List (FiberAction 2) :=
  [.spawn (-1), .scan 0, .resume 0, .scan 1, .idle 1 0, .sleep 0 0 64 0, .epollWait 1 [],
    .listExpired 1 0, .fire 1, .idleYield 1, .scan 1, .resume 1, .invoke 1, .finish 1,
    .scan 1]

def shortSleepRun : (fiberSystem twoThreads 0).Run :=
  TransitionSystem.runOf _ shortSleepSchedule (by decide +kernel)

theorem shortSleepRun_not_neverRunning : ¬ NeverRunning shortSleepRun := by
  intro hnever
  have hlast : shortSleepRun.trace[14]?.map (fun t => (t.action, t.after.panic)) =
      some (.scan 1, some .fiberTaskState) := by
    decide +kernel
  rcases Option.map_eq_some_iff.mp hlast with ⟨t, ht, hpair⟩
  rcases Prod.mk.inj hpair with ⟨hscan, hpanic⟩
  exact hnever.passes t (List.mem_of_getElem? ht) 1 hscan hpanic

end FiberSystem
end Fiber
end KVRaft
