import KVRaft.RaftClerk.ReturnedCalls

/-!
# The service is linearizable

Every run in which the clerks have ids of their own, and no reader sets the number of
a request back, looks to them as if one store had done their calls one after the
other.  A write takes effect where it is committed for the first time, a Get at the
first place of the log that has its value and that its operation has reached.
-/

namespace KVRaft
namespace RaftClerk

open Foundation KvServer Service

variable {n : Nat}

/-- A clerk begins a call. -/
def Action.Begins : Action n -> Prop
  | .invoke _ _ => True
  | _ => False

instance : DecidablePred (Action.Begins (n := n)) := fun a =>
  match a with
  | .invoke _ _ => .isTrue trivial
  | .newClerk _ => .isFalse id
  | .handle _ _ => .isFalse id
  | .commit _ => .isFalse id
  | .getCommandFromRaft _ => .isFalse id
  | .fail _ => .isFalse id
  | .receive _ => .isFalse id

/-- Call `a` had returned when call `b` began. -/
def Precedes (tr : List (Transition (Service n) (Action n))) (a b : Nat) : Prop :=
  exists t, t ∈ tr ∧ t.action.Begins ∧ t.before.calls.length = b ∧
    a ∈ t.before.returned.map Prod.fst

namespace Service

/-!
# The order of the calls
-/

/-- The Get behind a value returned. -/
def readOf (σ : Service n) (p : Nat × Bytes) : Option (Effect Op Bytes) :=
  match σ.calls[p.1]? with
  | none => none
  | some op =>
      if op.operation = .get then some { call := p.1, op := op, value := p.2 } else none

def reads (σ : Service n) : List (Effect Op Bytes) :=
  σ.returned.filterMap σ.readOf

open Classical in
/-- The first place where a Get may take effect. -/
noncomputable def point (σ : Service n) (x : Effect Op Bytes) : Nat :=
  if h : exists k, ReadPoint σ.committed x.call x.op x.value k then Nat.find h else 0

noncomputable def order (σ : Service n) : List (Effect Op Bytes) :=
  sequence (effectsAt σ.committed) σ.reads σ.point (σ.committed.length + 1)

/-- The calls that take effect at a place. -/
def TakesEffectAt (σ : Service n) (k : Nat) (x : Effect Op Bytes) : Prop :=
  (x ∈ σ.reads ∧ σ.point x = k) ∨ x ∈ effectsAt σ.committed k

variable {σ : Service n}

theorem readOf_eq_some {p : Nat × Bytes} {x : Effect Op Bytes} :
    σ.readOf p = some x <->
      p = (x.call, x.value) ∧ σ.calls[x.call]? = some x.op ∧ x.op.operation = .get := by
  rcases p with ⟨call, value⟩
  unfold readOf
  constructor
  · intro h
    cases hop : σ.calls[call]? with
    | none =>
        simp only [hop] at h
        cases h
    | some op =>
        simp only [hop] at h
        by_cases hget : op.operation = .get
        · rw [if_pos hget] at h
          cases h
          exact ⟨rfl, hop, hget⟩
        · rw [if_neg hget] at h
          cases h
  · rintro ⟨hp, hop, hget⟩
    cases hp
    simp only [hop, if_pos hget]

theorem mem_reads {x : Effect Op Bytes} :
    x ∈ σ.reads <-> (x.call, x.value) ∈ σ.returned ∧ σ.calls[x.call]? = some x.op ∧
      x.op.operation = .get := by
  rw [reads, List.mem_filterMap]
  constructor
  · rintro ⟨p, hp, hx⟩
    rcases readOf_eq_some.mp hx with ⟨rfl, hissued⟩
    exact ⟨hp, hissued⟩
  · rintro ⟨hreturned, hissued⟩
    exact ⟨_, hreturned, readOf_eq_some.mpr ⟨rfl, hissued⟩⟩

theorem readPoint_point (h : Explained σ) {x : Effect Op Bytes} (hx : x ∈ σ.reads) :
    ReadPoint σ.committed x.call x.op x.value (σ.point x) := by
  classical
  rcases mem_reads.mp hx with ⟨hreturned, hop, hget⟩
  have hsome := h.reads x.call x.value x.op hreturned hop hget
  rw [point, dif_pos hsome]
  exact Nat.find_spec hsome

theorem readsIn_point (h : Explained σ) (x : Effect Op Bytes) (hx : x ∈ σ.reads) :
    kvStore.ReadsIn (storeAt σ.committed (σ.point x)) x := by
  rcases mem_reads.mp hx with ⟨_, _, hget⟩
  have hvalue := (readPoint_point h hx).value
  change Store.apply _ x.op = _
  rw [Store.apply_of_get hget, hvalue]

theorem point_le {x : Effect Op Bytes} {k : Nat}
    (hk : ReadPoint σ.committed x.call x.op x.value k) : σ.point x ≤ k := by
  classical
  rw [point, dif_pos ⟨k, hk⟩]
  exact Nat.find_le hk

theorem mem_take_of_getElem? {α : Type} {xs : List α} {x : α} {k m : Nat}
    (hx : xs[k]? = some x) (hk : k < m) : x ∈ xs.take m :=
  List.mem_of_getElem? ((List.getElem?_take_of_lt hk).trans hx)

theorem first_occurrence {α : Type} {xs : List α} {x : α} (hx : x ∈ xs) :
    exists k, xs[k]? = some x ∧ x ∉ xs.take k := by
  classical
  have hlt := List.idxOf_lt_length_of_mem hx
  refine ⟨xs.idxOf x, ?_, ?_⟩
  · rw [List.getElem?_eq_getElem hlt, List.getElem_idxOf]
  · rw [List.mem_take_iff_idxOf_lt hx]
    exact lt_irrefl _

/-- What takes effect at a place was asked for. -/
theorem TakesEffectAt.issued (h : Orderly σ) {k : Nat} {x : Effect Op Bytes}
    (hx : σ.TakesEffectAt k x) : σ.calls[x.call]? = some x.op := by
  rcases hx with ⟨hread, _⟩ | hwrite
  · exact (mem_reads.mp hread).2.1
  · rcases mem_effectsAt.mp hwrite with ⟨entry, hentry, _, _, rfl⟩
    exact h.authentic.committed entry (List.mem_of_getElem? hentry)

/-- A call takes effect at one place. -/
theorem TakesEffectAt.unique (h : Accounted σ) {k l : Nat} {x y : Effect Op Bytes}
    (hx : σ.TakesEffectAt k x) (hy : σ.TakesEffectAt l y) (hcall : x.call = y.call) :
    x = y ∧ k = l := by
  have hop : x.op = y.op := by
    have hxop := hx.issued h.orderly
    rw [hcall, hy.issued h.orderly] at hxop
    exact (Option.some.inj hxop).symm
  rcases hx with ⟨hxread, hxpoint⟩ | hxwrite
  · rcases mem_reads.mp hxread with ⟨hxreturned, _, hxget⟩
    rcases hy with ⟨hyread, hypoint⟩ | hywrite
    · rcases mem_reads.mp hyread with ⟨hyreturned, _, _⟩
      have hsame : (x.call, x.value) = (y.call, y.value) := by
        apply List.inj_on_of_nodup_map h.returnsOnce.once hxreturned hyreturned
        exact hcall
      have heq : x = y := by
        rcases x with ⟨call, op, value⟩
        rcases y with ⟨call', op', value'⟩
        cases hop
        cases hsame
        rfl
      rw [← hxpoint, ← hypoint, heq]
      exact ⟨rfl, rfl⟩
    · rcases mem_effectsAt.mp hywrite with ⟨_, _, hwrites, _, rfl⟩
      rw [hop] at hxget
      exact absurd hxget hwrites
  · rcases mem_effectsAt.mp hxwrite with ⟨a, ha, hawrites, hafirst, rfl⟩
    rcases hy with ⟨hyread, _⟩ | hywrite
    · rcases mem_reads.mp hyread with ⟨_, _, hyget⟩
      rw [← hop] at hyget
      exact absurd hyget hawrites
    · rcases mem_effectsAt.mp hywrite with ⟨b, hb, _, hbfirst, rfl⟩
      have hissued := h.orderly.authentic.committed
      have hsame := issued_call (hissued a (List.mem_of_getElem? ha))
        (hissued b (List.mem_of_getElem? hb)) hcall
      cases hsame
      refine ⟨rfl, ?_⟩
      rcases Nat.lt_trichotomy k l with hlt | heq | hgt
      · exact absurd (mem_take_of_getElem? ha hlt) hbfirst
      · exact heq
      · exact absurd (mem_take_of_getElem? hb hgt) hafirst

theorem reads_nodup (h : ReturnsOnce σ) : σ.reads.Nodup := by
  apply h.once.of_map.filterMap
  intro p p' x hx hx'
  rw [(readOf_eq_some.mp hx).1, (readOf_eq_some.mp hx').1]

/-!
# Calls that do not overlap
-/

variable {σ₀ : Service n}

/-- A call that has returned has taken effect in what was committed by then. -/
theorem TakesEffectAt.le_of_returned (h : Accounted σ) (h₀ : Accounted σ₀)
    (hextends : σ₀.Extends σ) {k : Nat} {x : Effect Op Bytes} (hx : σ.TakesEffectAt k x)
    (hreturned : x.call ∈ σ₀.returned.map Prod.fst) :
    k ≤ σ₀.committed.length ∧
      (x ∈ effectsAt σ.committed k -> k < σ₀.committed.length) := by
  rcases returned_issued h₀.orderly hreturned with ⟨entry, hentry, hcall, hissued⟩
  have hkept : σ.Issued entry := getElem?_of_isPrefix hextends.calls hissued
  have hwritten : x ∈ effectsAt σ.committed k -> k < σ₀.committed.length := by
    intro hwrite
    rcases mem_effectsAt.mp hwrite with ⟨other, hother, _, hfirst, rfl⟩
    have hsame := issued_call hkept
      (h.orderly.authentic.committed other (List.mem_of_getElem? hother)) hcall
    by_contra hge
    apply hfirst
    rw [← hsame]
    rcases hextends.committed with ⟨later, hcommitted⟩
    rw [← hcommitted, List.take_append, List.take_of_length_le (not_lt.mp hge)]
    exact List.mem_append_left _ hentry
  refine ⟨?_, hwritten⟩
  rcases hx with ⟨hread, rfl⟩ | hwrite
  · rcases mem_reads.mp hread with ⟨hx, hop, hget⟩
    rcases List.mem_map.mp hreturned with ⟨⟨call, value⟩, hold, hsame⟩
    have hvalue : (call, value) = (x.call, x.value) :=
      List.inj_on_of_nodup_map h.returnsOnce.once (hextends.returned.subset hold) hx hsame
    rw [hvalue] at hold
    have hbefore : σ₀.calls[x.call]? = some x.op := by
      have hentryop : some entry.op = some x.op := by
        rw [← hcall] at hop
        exact hkept.symm.trans hop
      rw [← hcall, ← hentryop]
      exact hissued
    rcases h₀.explained.reads x.call x.value x.op hold hbefore hget with ⟨k, hk⟩
    exact (point_le (hk.mono hextends.committed)).trans hk.bound
  · exact (hwritten hwrite).le

/-- A call that begins later takes effect in what is committed from then on. -/
theorem TakesEffectAt.ge_of_begun (h : Accounted σ) (h₀ : Accounted σ₀)
    (hextends : σ₀.Extends σ) {k : Nat} {x : Effect Op Bytes} (hx : σ.TakesEffectAt k x)
    (hbegun : σ₀.calls.length = x.call) :
    σ₀.committed.length ≤ k ∧ (x ∈ σ.reads -> σ.point x = k -> σ₀.committed.length < k) := by
  have hnot : forall entry, entry ∈ σ₀.committed -> entry.call ≠ x.call := by
    intro entry hentry hcall
    have hlt := (List.getElem?_eq_some_iff.mp
      (h₀.orderly.authentic.committed entry hentry)).1
    rw [hcall, hbegun] at hlt
    exact lt_irrefl _ hlt
  rcases hextends.committed with ⟨later, hcommitted⟩
  have hreading : x ∈ σ.reads -> σ.point x = k -> σ₀.committed.length < k := by
    rintro hread rfl
    rcases (readPoint_point h.explained hread).after with ⟨entry, hentry, hcall⟩
    by_contra hle
    rw [← hcommitted, List.take_append_of_le_length (not_lt.mp hle)] at hentry
    exact hnot entry (List.mem_of_mem_take hentry) hcall
  refine ⟨?_, hreading⟩
  rcases hx with ⟨hread, hpoint⟩ | hwrite
  · exact (hreading hread hpoint).le
  · rcases mem_effectsAt.mp hwrite with ⟨entry, hentry, _, _, rfl⟩
    by_contra hlt
    rw [← hcommitted, List.getElem?_append_left (not_le.mp hlt)] at hentry
    exact hnot entry (List.mem_of_getElem? hentry) rfl

/-- The order is one of the object. -/
theorem order_linearizes (h : Accounted σ) {Precedes : Nat -> Nat -> Prop}
    (hprecedes : forall a b, Precedes a b -> exists σ₀ : Service n, Accounted σ₀ ∧
      σ₀.Extends σ ∧ σ₀.calls.length = b ∧ a ∈ σ₀.returned.map Prod.fst) :
    Linearizes kvStore σ.calls σ.returned Precedes σ.order := by
  have hplace : forall {x}, x ∈ σ.order <->
      exists k, k < σ.committed.length + 1 ∧ σ.TakesEffectAt k x := mem_sequence
  constructor
  · intro x hx
    rcases hplace.mp hx with ⟨k, _, hk⟩
    exact hk.issued h.orderly
  · rw [List.Nodup, List.pairwise_map]
    apply pairwise_sequence
    · intro k
      apply ((reads_nodup h.returnsOnce).filter _).imp_of_mem
      intro x y hx hy hne hcall
      have hx : σ.TakesEffectAt k x := Or.inl (mem_readsAt.mp hx)
      exact hne (hx.unique h (Or.inl (mem_readsAt.mp hy)) hcall).1
    · exact effectsAt_pairwise _ σ.committed
    · intro k x y hx hpoint hy hcall
      have heq := (TakesEffectAt.unique h (Or.inl ⟨hx, hpoint⟩) (Or.inr hy) hcall).1
      rcases mem_reads.mp hx with ⟨_, _, hget⟩
      rcases mem_effectsAt.mp hy with ⟨_, _, hwrites, _, rfl⟩
      rw [heq] at hget
      exact hwrites hget
    · intro k l x y hkl hx hy hcall
      exact hkl.ne (TakesEffectAt.unique h hx hy hcall).2
  · intro call value hreturned
    have hcall : call ∈ σ.returned.map Prod.fst := List.mem_map.mpr ⟨_, hreturned, rfl⟩
    rcases returned_issued h.orderly hcall with ⟨entry, hentry, rfl, hissued⟩
    by_cases hget : entry.op.operation = .get
    · have hread : { call := entry.call, op := entry.op, value := value } ∈ σ.reads :=
        mem_reads.mpr ⟨hreturned, hissued, hget⟩
      refine ⟨_, hplace.mpr ⟨_, ?_, Or.inl ⟨hread, rfl⟩⟩, rfl, rfl⟩
      exact Nat.lt_succ_of_le (readPoint_point h.explained hread).bound
    · rcases first_occurrence hentry with ⟨k, hk, hfirst⟩
      have hvalue := h.explained.writes entry.call value entry.op hreturned hissued hget
      refine ⟨_, hplace.mpr ⟨k, ?_, Or.inr (mem_effectsAt.mpr ⟨entry, hk, hget, hfirst, rfl⟩)⟩,
        rfl, hvalue.symm⟩
      exact Nat.lt_succ_of_lt (List.getElem?_eq_some_iff.mp hk).1
  · refine ⟨storeAt σ.committed (σ.committed.length + 1), ?_⟩
    exact legal_sequence (legal_effectsAt σ.committed) (readsIn_point h.explained) _
  · -- `y` returned when `m` operations were committed, and `x` began after that
    have hapart : forall {k l x y}, σ.TakesEffectAt k x -> σ.TakesEffectAt l y ->
        Precedes y.call x.call -> exists m, (m ≤ k ∧ (x ∈ σ.reads -> σ.point x = k -> m < k)) ∧
          l ≤ m ∧ (y ∈ effectsAt σ.committed l -> l < m) := by
      intro k l x y hx hy hbefore
      rcases hprecedes _ _ hbefore with ⟨σ₀, h₀, hextends, hbegun, hreturned⟩
      exact ⟨_, hx.ge_of_begun h h₀ hextends hbegun, hy.le_of_returned h h₀ hextends hreturned⟩
    apply pairwise_sequence
    · intro k
      apply List.pairwise_of_forall_mem_list
      intro x hx y hy hbefore
      rcases mem_readsAt.mp hx with ⟨hread, hpoint⟩
      rcases hapart (Or.inl ⟨hread, hpoint⟩) (Or.inl (mem_readsAt.mp hy)) hbefore with
        ⟨m, ⟨_, hreading⟩, hle, _⟩
      exact absurd (hreading hread hpoint) (not_lt.mpr hle)
    · exact effectsAt_pairwise _ σ.committed
    · intro k x y hx hpoint hy hbefore
      rcases hapart (Or.inl ⟨hx, hpoint⟩) (Or.inr hy) hbefore with ⟨m, ⟨hle, _⟩, _, hwriting⟩
      exact absurd (hwriting hy) (not_lt.mpr hle)
    · intro k l x y hkl hx hy hbefore
      rcases hapart hx hy hbefore with ⟨m, ⟨hle, _⟩, hle', _⟩
      exact absurd (hle'.trans hle) (not_le.mpr hkl)

/-- The map of a server is the store some way down the order. -/
theorem order_server (h : Accounted σ) (i : Fin n) :
    exists earlier, earlier <+: σ.order ∧
      kvStore.Legal kvStore.init earlier (contents (σ.server i).kv.skipList) := by
  have hlog := (h.orderly.server i).log
  have hmap := contents_mapAfter hlog (h.exact i).judged
  rw [← (h.orderly.server i).map] at hmap
  have happlied : (σ.server i).history.length ≤ σ.committed.length := by
    have hle := hlog.length_le
    rw [Server.seen_length] at hle
    exact hle
  refine ⟨_, sequence_prefix (Nat.le_succ_of_le happlied), ?_⟩
  rw [hmap]
  exact legal_sequence (legal_effectsAt σ.committed) (readsIn_point h.explained) _

end Service

/-!
# Whole runs
-/

theorem service_linearizable [NeZero n] {rand : Nat -> Nat}
    (r : (serviceSystem n rand).Run) (hapart : r.Always (KeepsApart rand)) :
    exists order, Linearizes kvStore r.state.calls r.state.returned (Precedes r.trace) order ∧
      forall i, exists earlier, earlier <+: order ∧
        kvStore.Legal kvStore.init earlier (contents (r.state.server i).kv.skipList) := by
  have haccounted := accounted r.valid hapart
  refine ⟨r.state.order, order_linearizes haccounted ?_, order_server haccounted⟩
  rintro a b ⟨t, ht, _, hbegun, hreturned⟩
  rcases r.valid.before_of_mem ht with ⟨earlier, hearlier, hsub⟩
  refine ⟨t.before, accounted hearlier fun u hu => hapart u (hsub u hu), ?_, hbegun, hreturned⟩
  have hgrows : forall u, u ∈ r.trace -> u.before.Extends u.after :=
    fun u hu => extends_of_effect (step_effect (r.valid.step_of_mem hu))
  have htrans : forall σ σ' σ'' : Service n, σ.Extends σ' -> σ'.Extends σ'' ->
      σ.Extends σ'' := fun _ _ _ h h' => h.trans h'
  exact r.valid.before_rel htrans hgrows ht

/-- The clerk of another process reads what was put before it asked. -/
def putThenGetSchedule : List (Action 2) :=
  [.newClerk 0, .newClerk 4, .invoke 0 (.put [120] [97])] ++ answered 0 0 0 1 ++
    [.invoke 1 (.get [120]), .handle 1 (.start (some 2)), .handle 1 .openWaitChan,
      .commit 1, .getCommandFromRaft 0, .getCommandFromRaft 0, .getCommandFromRaft 0,
      .handle 1 .timeOutPop, .handle 1 .executeGetOpOnKVDB, .handle 1 .closeWaitChan,
      .receive 1]

def putThenGetRun : (serviceSystem 2 unseeded).Run :=
  TransitionSystem.runOf _ putThenGetSchedule (by decide +kernel)

theorem putThenGetRun_linearizable :
    putThenGetRun.state.returned = [(0, []), (1, [97])] ∧ Precedes putThenGetRun.trace 0 1 ∧
      exists order, Linearizes kvStore putThenGetRun.state.calls putThenGetRun.state.returned
        (Precedes putThenGetRun.trace) order := by
  have hapart : forall t, t ∈ putThenGetRun.trace -> KeepsApart unseeded t := by
    decide +kernel
  rcases service_linearizable putThenGetRun hapart with ⟨order, horder, _⟩
  refine ⟨by decide +kernel, ?_, order, horder⟩
  unfold Precedes
  decide +kernel

end RaftClerk
end KVRaft
