import KVRaft.Fiber.EventChanges

/-!
# Registered events and the table

An event is found as long as the address of its context is in the table.  The table
only grows as long as `contextResize` is not asked for fewer contexts than there are.
-/

namespace KVRaft
namespace Fiber

open Foundation

/-!
# Registering and removing
-/

section

variable {κ : Type}

/-- `addEvent` returns 0, having registered the event at the context it holds. -/
def Registers (t : Transition (ContextTable κ) (TableAction κ)) (p fd : Nat)
    (event : Event) : Prop :=
  exists thread ctl caller cb io, t.action = .perform thread ctl ∧
    t.before.phase thread = .holding p (.addEvent fd event caller cb) ∧
    t.before.io.register p event caller cb ctl = .ok (io, 0)

/-- The event of the context is deleted or cancelled, or it is triggered. -/
def Removes (t : Transition (ContextTable κ) (TableAction κ)) (p : Nat) (event : Event) :
    Prop :=
  (exists thread ctl call io, t.action = .perform thread ctl ∧
    t.before.phase thread = .holding p call ∧ call.Drops event ∧
    call.perform t.before.io p ctl = .ok (io, true)) ∨
  exists ready failed ctx, t.action = .trigger p ready failed true ∧
    t.before.io.fdContexts[p]? = some ctx ∧
    (IOManager.realEvents ctx { fd := p, ready := ready, failed := failed }).Has event

/-- Through the table, the event is found by whoever deletes or cancels it. -/
structure Found (σ : ContextTable κ) (fd p : Nat) (event : Event) : Prop where
  lookup : σ.fdContexts[fd]? = some p
  registered : σ.io.Registered p event

structure Survive (r : (tableSystem κ).Run) : Prop where
  length : r.Always fun t => t.before.fdContexts.length ≤ t.after.fdContexts.length
  found : forall earlier t later σ, (tableSystem κ).Trace (earlier ++ t :: later) σ ->
    earlier ++ t :: later <+: r.trace -> forall p fd event, Registers t p fd event ->
    (forall u, u ∈ later -> ¬ Removes u p event) -> Found σ fd p event

/-- Whenever the table is resized, it has no more entries than it is to have. -/
def ResizesUp (t : Transition (ContextTable κ) (TableAction κ)) : Prop :=
  forall thread fd event caller cb, t.action = .grow thread ->
    t.before.phase thread = .growing fd event caller cb ->
    t.before.fdContexts.length ≤ fd * 3 / 2

/-- The addresses are the descriptors, and so are those that threads hold. -/
structure Orderly (σ : ContextTable κ) : Prop where
  table : σ.fdContexts = List.range σ.io.fdContexts.length
  holding : forall thread p call, σ.phase thread = .holding p call ->
    p = call.fd ∧ p < σ.io.fdContexts.length

/-!
# Steps
-/

namespace ContextTable

variable {σ σ' : ContextTable κ} {a : TableAction κ} {p : Nat} {event : Event}

/-- What a step can be. -/
inductive Moves (σ : ContextTable κ) : TableAction κ -> ContextTable κ -> Prop where
  | look {thread : Nat} (call : TableCall κ) :
      σ.phase thread = .ready -> Moves σ (.look thread call) (σ.look thread call)
  | grow {thread fd : Nat} {event : Event} {caller : Caller} {cb : Option κ} :
      σ.phase thread = .growing fd event caller cb ->
      Moves σ (.grow thread) (σ.grow thread fd event caller cb)
  | perform {thread p : Nat} {call : TableCall κ} (ctl : Bool) :
      σ.phase thread = .holding p call ->
      Moves σ (.perform thread ctl)
        ((σ.setPhase thread .ready).settle ((call.perform σ.io p ctl).map Prod.fst))
  | trigger {p : Nat} (ready : Events) (failed ctl : Bool) :
      p < σ.io.fdContexts.length ->
      Moves σ (.trigger p ready failed ctl)
        (σ.settle (σ.io.handleEvent { fd := p, ready := ready, failed := failed } ctl))

theorem moves_of_step (h : step σ a = some σ') : Moves σ a σ' := by
  rcases running_of_step h with ⟨_, h⟩
  cases a with
  | look thread call =>
      cases hphase : σ.phase thread with
      | ready =>
          simp only [hphase] at h
          cases h
          exact .look call hphase
      | _ =>
          simp only [hphase] at h
          cases h
  | grow thread =>
      cases hphase : σ.phase thread with
      | growing fd event caller cb =>
          simp only [hphase] at h
          cases h
          exact .grow hphase
      | _ =>
          simp only [hphase] at h
          cases h
  | perform thread ctl =>
      cases hphase : σ.phase thread with
      | holding p call =>
          simp only [hphase] at h
          cases h
          exact .perform ctl hphase
      | _ =>
          simp only [hphase] at h
          cases h
  | trigger p ready failed ctl =>
      by_cases hp : p < σ.io.fdContexts.length
      · simp only [if_pos hp] at h
        cases h
        exact .trigger ready failed ctl hp
      · simp only [if_neg hp] at h
        cases h

/-- What a thread holds after its own move or that of another. -/
theorem phase_setPhase (σ : ContextTable κ) (thread : Nat) (phase : TablePhase κ)
    (other : Nat) :
    (σ.setPhase thread phase).phase other =
      if other = thread then phase else σ.phase other :=
  Function.update_apply _ _ _ _

theorem look_table (σ : ContextTable κ) (thread : Nat) (call : TableCall κ) :
    (σ.look thread call).io = σ.io ∧ (σ.look thread call).fdContexts = σ.fdContexts := by
  unfold look
  cases σ.fdContexts[call.fd]? with
  | some p => exact ⟨rfl, rfl⟩
  | none => cases call <;> exact ⟨rfl, rfl⟩

theorem grow_table (σ : ContextTable κ) (thread fd : Nat) (event : Event) (caller : Caller)
    (cb : Option κ) :
    (σ.grow thread fd event caller cb).io = (σ.contextResize (fd * 3 / 2)).io ∧
      (σ.grow thread fd event caller cb).fdContexts =
        (σ.contextResize (fd * 3 / 2)).fdContexts := by
  unfold grow
  dsimp only
  cases (σ.contextResize (fd * 3 / 2)).fdContexts[fd]? with
  | some p => exact ⟨rfl, rfl⟩
  | none => exact ⟨rfl, rfl⟩

/-- Whatever becomes of the table, the contexts stay on the heap. -/
theorem contextResize_registered {size : Nat} (h : σ.io.Registered p event) :
    (σ.contextResize size).io.Registered p event := by
  have hlt := h.lt
  rw [IOManager.Registered, IOManager.eventsAt] at h ⊢
  rw [contextResize, List.getElem?_append_left hlt]
  exact h

theorem contextResize_length (σ : ContextTable κ) (size : Nat) :
    (σ.contextResize size).fdContexts.length = size := by
  simp only [contextResize, List.length_append, List.length_take, List.length_range']
  omega

/-- A registered event stays registered until it is removed. -/
theorem registered_step (hreg : σ.io.Registered p event) (hstep : step σ a = some σ')
    (hkeep : ¬ Removes { before := σ, action := a, after := σ' } p event) :
    σ'.io.Registered p event := by
  cases moves_of_step hstep with
  | look call hready =>
      rw [(look_table σ _ call).1]
      exact hreg
  | grow hgrowing =>
      rw [(grow_table σ _ _ _ _ _).1]
      exact contextResize_registered hreg
  | @perform thread q call ctl hholding =>
      cases hperform : call.perform σ.io q ctl with
      | error err => exact hreg
      | ok result =>
          apply TableCall.perform_registered hperform hreg
          rintro rfl hdone hdrops
          refine hkeep (.inl ⟨thread, ctl, call, result.1, rfl, hholding, hdrops, ?_⟩)
          rw [← hdone]
          exact hperform
  | @trigger q ready failed ctl hq =>
      cases hhandle : σ.io.handleEvent { fd := q, ready := ready, failed := failed } ctl with
      | error err => exact hreg
      | ok io =>
          rcases IOManager.handleEvent_changes hhandle with
            rfl | ⟨rfl, ctx, hctx, hchanges⟩
          · exact hreg
          · apply hchanges.registered hreg
            rintro rfl
            apply has_clear hreg
            intro hreal
            exact hkeep (.inr ⟨ready, failed, ctx, rfl, hctx, hreal⟩)

end ContextTable

/-!
# Tables that only grow
-/

variable {σ σ' : ContextTable κ} {a : TableAction κ} {p fd : Nat} {event : Event}

theorem Orderly.lookup (h : Orderly σ) :
    σ.fdContexts[fd]? = some p <-> p = fd ∧ p < σ.io.fdContexts.length := by
  rw [h.table, List.getElem?_eq_some_iff]
  constructor
  · rintro ⟨hlt, heq⟩
    rw [List.getElem_range] at heq
    rw [List.length_range] at hlt
    exact ⟨heq.symm, heq ▸ hlt⟩
  · rintro ⟨rfl, hlt⟩
    exact ⟨by rw [List.length_range]; exact hlt, List.getElem_range _⟩

theorem Orderly.length (h : Orderly σ) :
    σ.fdContexts.length = σ.io.fdContexts.length := by
  rw [h.table, List.length_range]

/-- Growing, the manager is resized as the one whose contexts are in the table itself. -/
theorem Orderly.contextResize (h : Orderly σ) {size : Nat}
    (hsize : σ.fdContexts.length ≤ size) :
    (σ.contextResize size).io = σ.io.contextResize size ∧
      (σ.contextResize size).fdContexts = List.range size := by
  have hkept : σ.fdContexts.take size = σ.fdContexts := List.take_of_length_le hsize
  have hlength := h.length
  rw [hlength] at hsize
  constructor
  · simp only [ContextTable.contextResize, IOManager.contextResize, hkept, hlength,
      List.take_of_length_le hsize]
  · have happend : List.range' 0 σ.io.fdContexts.length ++
        List.range' σ.io.fdContexts.length (size - σ.io.fdContexts.length) =
          List.range' 0 size := by
      have hjoin := @List.range'_append_1 0 σ.io.fdContexts.length
        (size - σ.io.fdContexts.length)
      rw [Nat.zero_add, Nat.add_sub_cancel' hsize] at hjoin
      exact hjoin
    simp only [ContextTable.contextResize, hkept, hlength]
    rw [h.table, List.range_eq_range', happend, ← List.range_eq_range']

theorem contextResize_contexts_length (io : IOManager κ) (size : Nat) :
    (io.contextResize size).fdContexts.length = size := by
  simp only [IOManager.contextResize, IOManager.newContexts, List.length_append,
    List.length_take, List.length_map, List.length_range']
  omega

/-- Only the thread that moves may hold something new. -/
theorem Orderly.setPhase (h : Orderly σ) (thread : Nat) {phase : TablePhase κ}
    (hphase : forall p call, phase = .holding p call ->
      p = call.fd ∧ p < σ.io.fdContexts.length) : Orderly (σ.setPhase thread phase) where
  table := h.table
  holding := by
    intro other p call hholding
    rw [ContextTable.phase_setPhase] at hholding
    by_cases hother : other = thread
    · rw [if_pos hother] at hholding
      exact hphase p call hholding
    · rw [if_neg hother] at hholding
      exact h.holding other p call hholding

theorem Orderly.settle (h : Orderly σ) {outcome : Outcome (IOManager κ)}
    (hlength : forall io, outcome = .ok io ->
      io.fdContexts.length = σ.io.fdContexts.length) : Orderly (σ.settle outcome) := by
  cases outcome with
  | error err => exact ⟨h.table, h.holding⟩
  | ok io =>
      have hsame := hlength io rfl
      constructor
      · change σ.fdContexts = List.range io.fdContexts.length
        rw [hsame]
        exact h.table
      · intro thread p call hholding
        change _ ∧ p < io.fdContexts.length
        rw [hsame]
        exact h.holding thread p call hholding

theorem Orderly.look (h : Orderly σ) (thread : Nat) (call : TableCall κ) :
    Orderly (σ.look thread call) := by
  unfold ContextTable.look
  cases hlookup : σ.fdContexts[call.fd]? with
  | some p =>
      apply h.setPhase
      intro q held heq
      cases heq
      exact h.lookup.mp hlookup
  | none =>
      cases call with
      | addEvent fd event caller cb => exact h.setPhase thread nofun
      | _ => exact h

theorem Orderly.grow (h : Orderly σ) {size : Nat} (hsize : σ.fdContexts.length ≤ size) :
    Orderly (σ.contextResize size) := by
  rcases h.contextResize hsize with ⟨hio, htable⟩
  have hlength := h.length
  constructor
  · rw [htable, hio, contextResize_contexts_length]
  · intro thread p call hholding
    rcases h.holding thread p call hholding with ⟨hp, hlt⟩
    rw [hio, contextResize_contexts_length]
    exact ⟨hp, by omega⟩

theorem Orderly.step (h : Orderly σ) (hstep : ContextTable.step σ a = some σ')
    (hup : ResizesUp { before := σ, action := a, after := σ' }) : Orderly σ' := by
  cases ContextTable.moves_of_step hstep with
  | look call hready => exact h.look _ call
  | @grow thread fd event caller cb hgrowing =>
      have hgrown := h.grow (hup thread fd event caller cb rfl hgrowing)
      unfold ContextTable.grow
      dsimp only
      cases hlookup : (σ.contextResize (fd * 3 / 2)).fdContexts[fd]? with
      | some p =>
          apply hgrown.setPhase
          intro q held heq
          cases heq
          exact hgrown.lookup.mp hlookup
      | none => exact ⟨hgrown.table, hgrown.holding⟩
  | @perform thread p call ctl hholding =>
      have hready : Orderly (σ.setPhase thread .ready) := h.setPhase thread nofun
      apply hready.settle
      intro io hok
      cases hperform : call.perform σ.io p ctl with
      | error err =>
          rw [hperform] at hok
          cases hok
      | ok result =>
          rw [hperform] at hok
          cases hok
          exact TableCall.perform_length hperform
  | trigger ready failed ctl hp =>
      apply h.settle
      intro io hok
      rcases IOManager.handleEvent_changes hok with rfl | ⟨_, ctx, _, hchanges⟩
      · rfl
      · exact hchanges.length

theorem Orderly.init : Orderly (ContextTable.init : ContextTable κ) where
  table := rfl
  holding _ _ _ hholding := by cases hholding

theorem trace_orderly {tr : List (Transition (ContextTable κ) (TableAction κ))}
    (h : (tableSystem κ).Trace tr σ) (hup : forall t, t ∈ tr -> ResizesUp t) : Orderly σ :=
  h.invariant_under (P := fun _ σ => Orderly σ) Orderly.init
    (fun _ _ horderly hstep hlast => horderly.step hstep hlast) hup

/-!
# Registered events are found
-/

/-- The event of a successful registration is found, at the context that the thread holds. -/
theorem Registers.found {t : Transition (ContextTable κ) (TableAction κ)}
    (h : Registers t p fd event) (hstep : ContextTable.step t.before t.action = some t.after)
    (hbefore : Orderly t.before) : p = fd ∧ t.after.io.Registered p event := by
  rcases t with ⟨σ, a, σ'⟩
  rcases h with ⟨thread, ctl, caller, cb, io, rfl, hholding, hregister⟩
  dsimp only at hstep hholding hregister hbefore ⊢
  have hafter : σ'.io = io := by
    cases ContextTable.moves_of_step hstep with
    | perform ctl hheld =>
        rw [hheld] at hholding
        cases hholding
        rw [TableCall.perform, hregister]
        rfl
  have hp := (hbefore.holding thread p _ hholding).1
  rcases IOManager.register_changes hregister with ⟨_, hret⟩ | ⟨hchanges, _, hreal⟩
  · exact absurd hret (by decide)
  · refine ⟨hp, ?_⟩
    rw [hafter, IOManager.Registered, hchanges.here]
    exact has_bits_self hreal

theorem Orderly.found (h : Orderly σ) (hreg : σ.io.Registered p event) :
    Found σ p p event where
  lookup := h.lookup.mpr ⟨rfl, hreg.lt⟩
  registered := hreg

/-- No event is lost while the table is only resized upwards. -/
theorem found_of_resizesUp {earlier later : List (Transition (ContextTable κ) (TableAction κ))}
    {t : Transition (ContextTable κ) (TableAction κ)}
    (h : (tableSystem κ).Trace (earlier ++ t :: later) σ)
    (hup : forall u, u ∈ earlier ++ t :: later -> ResizesUp u)
    (hregisters : Registers t p fd event)
    (hkeep : forall u, u ∈ later -> ¬ Removes u p event) : Found σ fd p event := by
  have hsince := h.since
    (Q := fun later σ => (forall u, u ∈ later -> ¬ Removes u p event) ->
      p = fd ∧ σ.io.Registered p event) ?_ ?_ hup
  · rcases hsince hkeep with ⟨rfl, hreg⟩
    exact (trace_orderly h hup).found hreg
  · intro hearlier hbefore hstep _ _
    exact hregisters.found hstep (trace_orderly hearlier hbefore)
  · intro later σ σ' a _ _ hQ hstep _ hkept
    rcases hQ fun u hu => hkept u (List.mem_append_left _ hu) with ⟨hp, hreg⟩
    have hlast := hkept _ (List.mem_append_right later (List.mem_singleton_self _))
    exact ⟨hp, ContextTable.registered_step hreg hstep hlast⟩

theorem grow_length (σ : ContextTable κ) (thread fd : Nat) (event : Event) (caller : Caller)
    (cb : Option κ) : (σ.grow thread fd event caller cb).fdContexts.length = fd * 3 / 2 := by
  rw [(ContextTable.grow_table σ thread fd event caller cb).2,
    ContextTable.contextResize_length]

/-- A step makes the table no shorter exactly when it does not resize it down. -/
theorem length_le_iff (hstep : ContextTable.step σ a = some σ') :
    σ.fdContexts.length ≤ σ'.fdContexts.length <->
      ResizesUp { before := σ, action := a, after := σ' } := by
  constructor
  · rintro hle thread fd event caller cb rfl hgrowing
    cases ContextTable.moves_of_step hstep with
    | grow hmoves =>
        dsimp only at hgrowing
        rw [hmoves] at hgrowing
        cases hgrowing
        rw [grow_length] at hle
        exact hle
  · intro hup
    cases ContextTable.moves_of_step hstep with
    | @look thread call hready =>
        have hsame := (ContextTable.look_table σ thread call).2
        exact Nat.le_of_eq (congrArg List.length hsame.symm)
    | grow hgrowing =>
        rw [grow_length]
        exact hup _ _ _ _ _ rfl hgrowing
    | @perform thread p call ctl hholding =>
        cases call.perform σ.io p ctl with
        | error err => exact Nat.le_refl _
        | ok result => exact Nat.le_refl _
    | @trigger p ready failed ctl hp =>
        cases σ.io.handleEvent { fd := p, ready := ready, failed := failed } ctl with
        | error err => exact Nat.le_refl _
        | ok io => exact Nat.le_refl _

/-- Registered events survive in exactly the runs in which the table is never resized to
fewer entries than it has. -/
theorem registered_events_survive_iff (r : (tableSystem κ).Run) :
    Survive r <-> r.Always ResizesUp := by
  constructor
  · intro h t ht
    exact (length_le_iff (r.valid.step_of_mem ht)).mp (h.length t ht)
  · intro h
    refine ⟨?_, ?_⟩
    · intro t ht
      exact (length_le_iff (r.valid.step_of_mem ht)).mpr (h t ht)
    · intro earlier t later σ htrace hbegin p fd event hregisters hkeep
      have hup : forall u, u ∈ earlier ++ t :: later -> ResizesUp u :=
        fun u hu => h u (hbegin.subset hu)
      exact found_of_resizesUp htrace hup hregisters hkeep

end

/-- One thread finds the table too small for 32, another makes it larger for 48 and
registers an event there, then the first one resizes it to 48 entries. -/
def lostEventSchedule : List (TableAction Unit) :=
  [.look 0 (.addEvent 32 .read { scheduler := 0, fiber := 0, state := .running } none),
    .look 1 (.addEvent 48 .read { scheduler := 0, fiber := 1, state := .running } none),
    .grow 1, .perform 1 true, .grow 0]

def lostEventRun : (tableSystem Unit).Run :=
  TransitionSystem.runOf _ lostEventSchedule (by decide +kernel)

/-- The event is still registered, but the table has no entry for its descriptor. -/
theorem lostEventRun_loses_event :
    ¬ Survive lostEventRun ∧ lostEventRun.state.io.Registered 48 .read ∧
      lostEventRun.state.fdContexts[48]? = none := by
  have hnone : lostEventRun.state.fdContexts[48]? = none := by decide +kernel
  refine ⟨?_, by decide +kernel, hnone⟩
  intro h
  let t := lostEventRun.trace.get ⟨3, by decide +kernel⟩
  have hsplit : lostEventRun.trace.take 3 ++ t :: lostEventRun.trace.drop 4 =
      lostEventRun.trace :=
    rfl
  have hregisters : Registers t 48 48 .read :=
    ⟨1, true, { scheduler := 0, fiber := 1, state := .running }, none, _, rfl, rfl, rfl⟩
  have hgrow : forall u, u ∈ lostEventRun.trace.drop 4 -> u.action = .grow 0 := by
    decide +kernel
  have hkeep : forall u, u ∈ lostEventRun.trace.drop 4 -> ¬ Removes u 48 .read := by
    intro u hu hremoves
    have haction := hgrow u hu
    rcases hremoves with ⟨_, _, _, _, hperform, _⟩ | ⟨_, _, _, htrigger, _⟩
    · rw [haction] at hperform
      cases hperform
    · rw [haction] at htrigger
      cases htrigger
  have htrace := lostEventRun.valid
  rw [← hsplit] at htrace
  have hbegin : lostEventRun.trace.take 3 ++ t :: lostEventRun.trace.drop 4 <+:
      lostEventRun.trace :=
    ⟨[], by rw [List.append_nil, hsplit]⟩
  have hfound := h.found _ _ _ _ htrace hbegin 48 48 .read hregisters hkeep
  rw [hfound.lookup] at hnone
  cases hnone

end Fiber
end KVRaft
