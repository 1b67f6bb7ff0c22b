import KVRaft.RaftClerk.Sessions

/-!
# What a server has executed

A server goes through the committed operations in order.  Its map is what the
executed ones make of an empty map, and its table of requests knows only requests
it has gone past; so nothing counts as a duplicate that was not seen.
-/

namespace KVRaft
namespace RaftClerk

open Foundation KvServer
open Foundation.History (Judged)

/-!
# The map behind a history
-/

/-- What an operation makes of a map. -/
def written (map : SkipList Bytes Bytes) (op : Op) : SkipList Bytes Bytes :=
  match op.operation with
  | .get => map
  | .put => map.insertSetElement op.key op.value
  | .append =>
      match map.searchElement op.key with
      | some oldValue => map.insertSetElement op.key (oldValue ++ op.value)
      | none => map.insertSetElement op.key op.value

theorem execute_skipList (kv : KvServer) (op : Op) :
    (kv.execute op).skipList = written kv.skipList op := by
  unfold execute written
  cases op.operation with
  | get => rfl
  | put => rfl
  | append => rfl

namespace Server

def seen (server : Server) : List Entry :=
  History.seen server.history

def executed (server : Server) : List Entry :=
  History.executed (fun entry => entry.op.Writes) server.history

end Server

def mapOf (executed : List Entry) : SkipList Bytes Bytes :=
  executed.foldl (fun map entry => written map entry.op) SkipList.empty

/-- The map of a server that has gone through a history. -/
def mapAfter (history : List (Entry × Bool)) : SkipList Bytes Bytes :=
  mapOf (History.executed (fun entry => entry.op.Writes) history)

/-- Executing what is no duplicate, in a state with the map of the history. -/
theorem mapAfter_concat (history : List (Entry × Bool)) (kv : KvServer) (entry : Entry)
    (duplicate : Bool) (hmap : kv.skipList = mapAfter history) :
    (kv.executeUnless entry.op duplicate).skipList =
      mapAfter (history ++ [(entry, duplicate)]) := by
  cases duplicate with
  | true =>
      rw [mapAfter, History.executed_concat_skip (by intro h; cases h.1)]
      exact hmap
  | false =>
      by_cases hwrites : entry.op.Writes
      · rw [mapAfter, History.executed_concat_execute ⟨rfl, hwrites⟩, mapOf,
          List.foldl_append]
        change (kv.execute entry.op).skipList = written (mapAfter history) entry.op
        rw [execute_skipList, hmap]
      · rw [mapAfter, History.executed_concat_skip (fun h => hwrites h.2)]
        change (kv.execute entry.op).skipList = mapAfter history
        rw [execute_of_not_writes hwrites, hmap]

/-!
# The table of requests
-/

def lastRequest (kv : KvServer) (clientId : Bytes) : Option Int :=
  kv.lastRequestId.lookup clientId

theorem covers_iff {kv : KvServer} {entry : Entry} :
    requests.Covers (lastRequest kv) entry <->
      kv.ifRequestDuplicate entry.op.clientId entry.op.requestId = true := by
  rw [ifRequestDuplicate_eq_true]
  rfl

theorem records_of_insert {kv kv' : KvServer} {entry : Entry}
    (h : kv'.lastRequestId =
      kv.lastRequestId.insert entry.op.clientId entry.op.requestId) :
    requests.Records entry (lastRequest kv) (lastRequest kv') where
  self := by
    rw [lastRequest, h]
    exact AList.lookup_insert _
  other c hc := by
    rw [lastRequest, lastRequest, h]
    exact AList.lookup_insert_ne hc

theorem executeUnless_cases (kv : KvServer) (op : Op) (duplicate : Bool) :
    (¬ (duplicate = false ∧ op.Writes) ∧ kv.executeUnless op duplicate = kv) ∨
      ((duplicate = false ∧ op.Writes) ∧ kv.executeUnless op duplicate = kv.execute op) := by
  cases duplicate with
  | true => exact Or.inl ⟨fun h => Bool.noConfusion h.1, rfl⟩
  | false =>
      by_cases hwrites : op.Writes
      · exact Or.inr ⟨⟨rfl, hwrites⟩, rfl⟩
      · exact Or.inl ⟨fun h => hwrites h.2, execute_of_not_writes hwrites⟩

/-!
# The state of a server
-/

namespace Server

/-- The command with an index, if the loop has gone past it. -/
def Passed (server : Server) (raftIndex : Int) (op : Op) : Prop :=
  exists (j : Nat) (p : Entry × Bool), raftIndex = (j : Int) + 1 ∧
    server.history[j]? = some p ∧ p.1.op = op

/-- What the loop holds fits the committed operations. -/
def LoopFits (server : Server) (committed : List Entry) : Prop :=
  match server.loop with
  | .pop => True
  | .checked entry _ => committed[server.applied]? = some entry
  | .executed op => server.Passed server.applied op

structure Consistent (server : Server) (committed : List Entry) : Prop where
  log : server.seen <+: committed
  backed : requests.Backed (lastRequest server.kv) server.seen
  channels : forall raftIndex op, OnChannel server.kv raftIndex op ->
    server.Passed raftIndex op
  loop : server.LoopFits committed
  map : server.kv.skipList = mapAfter server.history

/-- The verdicts of the table are right. -/
structure Exact (server : Server) : Prop where
  judged : Judged (fun entry => entry.op.Writes) server.history
  complete : requests.Complete (fun entry => entry.op.Writes) (lastRequest server.kv)
    server.seen
  verdict : forall entry duplicate, server.loop = .checked entry duplicate ->
    entry.op.Writes -> (duplicate = true <-> entry ∈ server.seen)

theorem consistent_initial : Server.initial.Consistent [] where
  log := List.prefix_rfl
  backed := by
    intro c last h
    cases h
  channels := by
    rintro raftIndex op ⟨chan, hchan, _⟩
    cases hchan
  loop := trivial
  map := rfl

theorem exact_initial : Server.initial.Exact where
  judged := Judged.nil
  complete := by
    intro a ha
    cases ha
  verdict := by
    intro entry duplicate h
    cases h

theorem Passed.mem {server : Server} {raftIndex : Int} {op : Op}
    (h : server.Passed raftIndex op) : exists entry, entry ∈ server.seen ∧ entry.op = op := by
  rcases h with ⟨j, p, _, hp, hop⟩
  exact ⟨p.1, List.mem_map.mpr ⟨p, List.mem_of_getElem? hp, rfl⟩, hop⟩

theorem Passed.le {server : Server} {raftIndex : Int} {op : Op}
    (h : server.Passed raftIndex op) : raftIndex ≤ server.applied := by
  rcases h with ⟨j, p, rfl, hp, _⟩
  have hj := (List.getElem?_eq_some_iff.mp hp).1
  exact Int.add_one_le_iff.mpr (Int.ofNat_lt.mpr hj)

theorem Passed.concat {server server' : Server} {raftIndex : Int} {op : Op}
    (h : server.Passed raftIndex op) {p : Entry × Bool}
    (hhistory : server'.history = server.history ++ [p]) : server'.Passed raftIndex op := by
  rcases h with ⟨j, q, hindex, hq, hop⟩
  refine ⟨j, q, hindex, ?_, hop⟩
  rw [hhistory]
  exact getElem?_append_found hq _

theorem seen_length (server : Server) : server.seen.length = server.applied :=
  List.length_map _

/-- More may be committed. -/
theorem Consistent.commit {server : Server} {committed : List Entry}
    (h : server.Consistent committed) (entry : Entry) :
    server.Consistent (committed ++ [entry]) where
  log := h.log.trans (List.prefix_append _ _)
  backed := h.backed
  channels := h.channels
  loop := by
    have hloop := h.loop
    unfold LoopFits at hloop ⊢
    cases hphase : server.loop with
    | pop => trivial
    | executed op =>
        rw [hphase] at hloop
        exact hloop
    | checked held duplicate =>
        simp only [hphase] at hloop ⊢
        exact getElem?_append_found hloop _
  map := h.map

/-!
# Steps of the loop
-/

theorem Consistent.getCommandFromRaft {server server' : Server} {committed : List Entry}
    (h : server.Consistent committed)
    (hstep : server.getCommandFromRaft committed = some server') :
    server'.Consistent committed := by
  have hloop := h.loop
  unfold LoopFits at hloop
  cases getCommandFromRaft_effect hstep with
  | popped _ hnext => exact { h with loop := hnext }
  | @executed entry duplicate hphase =>
      simp only [hphase] at hloop
      rw [← seen_length] at hloop
      constructor
      · rw [seen, History.seen_concat]
        exact prefix_concat h.log hloop
      · rw [seen, History.seen_concat]
        rcases executeUnless_cases server.kv entry.op duplicate with
          ⟨_, hsame⟩ | ⟨⟨_, hwrites⟩, hrun⟩
        · rw [hsame]
          exact h.backed.concat entry
        · rw [hrun]
          apply (h.backed.concat entry).record
            (List.mem_append_right _ (List.mem_singleton_self entry))
          exact records_of_insert (execute_lastRequestId hwrites)
      · rintro raftIndex op ⟨chan, hchan, hop⟩
        rw [executeUnless_waitApplyCh] at hchan
        exact (h.channels raftIndex op ⟨chan, hchan, hop⟩).concat rfl
      · refine ⟨server.history.length, (entry, duplicate), ?_,
          List.getElem?_concat_length, rfl⟩
        rw [applied, List.length_append, List.length_singleton]
        rfl
      · exact mapAfter_concat server.history server.kv entry duplicate h.map
  | @sent op hphase =>
      simp only [hphase] at hloop
      constructor
      · exact h.log
      · rw [sendMessageToWaitChan_eq]
        exact h.backed
      · intro raftIndex other hother
        rcases onChannel_sendMessage hother with ⟨rfl, rfl⟩ | hold
        · exact hloop
        · exact h.channels raftIndex other hold
      · trivial
      · rw [sendMessageToWaitChan_eq]
        exact h.map

/-- A command of a server's log counts as a duplicate only where it was seen. -/
theorem Consistent.mem_of_duplicate {server : Server} {committed : List Entry}
    (h : server.Consistent committed) {Issued : Entry -> Prop}
    (horder : requests.InOrder Issued committed)
    (hdistinct : requests.Distinguishes Issued)
    (hissued : forall a, a ∈ committed -> Issued a) {entry : Entry} (hentry : Issued entry)
    (hduplicate : server.kv.ifRequestDuplicate entry.op.clientId entry.op.requestId = true) :
    entry ∈ server.seen := by
  rcases h.log with ⟨later, hlater⟩
  have hparts : requests.InOrder Issued (server.seen ++ later) := by
    rw [hlater]
    exact horder
  apply h.backed.mem_of_covers hparts hdistinct _ hentry (covers_iff.mpr hduplicate)
  intro a ha
  exact hissued a (h.log.subset ha)

theorem Exact.getCommandFromRaft {server server' : Server} {committed : List Entry}
    (hexact : server.Exact) (h : server.Consistent committed) {Issued : Entry -> Prop}
    (horder : requests.InOrder Issued committed)
    (hdistinct : requests.Distinguishes Issued)
    (hissued : forall a, a ∈ committed -> Issued a)
    (hstep : server.getCommandFromRaft committed = some server') : server'.Exact := by
  have hloop := h.loop
  unfold LoopFits at hloop
  cases getCommandFromRaft_effect hstep with
  | @popped entry _ hnext =>
      refine { hexact with verdict := ?_ }
      intro other duplicate hchecked hwrites
      cases hchecked
      constructor
      · intro hduplicate
        exact h.mem_of_duplicate horder hdistinct hissued
          (hissued entry (List.mem_of_getElem? hnext)) hduplicate
      · intro hseen
        exact covers_iff.mp (hexact.complete entry hseen hwrites)
  | @executed entry duplicate hphase =>
      simp only [hphase] at hloop
      have hverdict := hexact.verdict entry duplicate hphase
      constructor
      · exact hexact.judged.concat hverdict
      · rw [seen, History.seen_concat]
        rcases executeUnless_cases server.kv entry.op duplicate with
          ⟨hskip, hsame⟩ | ⟨⟨hfalse, hwrites⟩, hrun⟩
        · rw [hsame]
          apply hexact.complete.concat
          intro hwrites
          cases hduplicate : duplicate with
          | true => exact hexact.complete entry ((hverdict hwrites).mp hduplicate) hwrites
          | false => exact absurd ⟨hduplicate, hwrites⟩ hskip
        · have hrecords : requests.Records entry (lastRequest server.kv)
              (lastRequest (server.kv.execute entry.op)) :=
            records_of_insert (execute_lastRequestId hwrites)
          rw [hrun]
          apply (hexact.complete.record hrecords ?_).concat
          · intro _
            exact hrecords.covers
          · intro last hlast
            -- a later number in the table would have made it a duplicate
            by_contra hlt
            have hseen := h.mem_of_duplicate horder hdistinct hissued
              (hissued entry (List.mem_of_getElem? hloop))
              (covers_iff.mp ⟨last, hlast, (not_le.mp hlt).le⟩)
            have htrue := (hverdict hwrites).mpr hseen
            rw [hfalse] at htrue
            cases htrue
      · intro other duplicate' hchecked
        cases hchecked
  | sent _ =>
      constructor
      · exact hexact.judged
      · rw [sendMessageToWaitChan_eq]
        exact hexact.complete
      · intro other duplicate hchecked
        cases hchecked

/-!
# Steps of a handler
-/

theorem Consistent.handle {server : Server} {committed : List Entry}
    (h : server.Consistent committed) {entry : Entry} {phase phase' : Phase}
    {action : HandlerAction} {kv : KvServer}
    (heffect : HandlerEffect server.kv entry.op phase action kv phase')
    (hsettled : phase.Settled -> entry ∈ server.seen) :
    ({ server with kv := kv } : Server).Consistent committed where
  log := h.log
  backed := by
    rcases heffect.requests with hsame | ⟨_, hphase, hinsert⟩
    · change requests.Backed (fun c => kv.lastRequestId.lookup c) server.seen
      rw [hsame]
      exact h.backed
    · exact h.backed.record (hsettled hphase) (records_of_insert hinsert)
  channels raftIndex op hop := h.channels raftIndex op (heffect.channels hop)
  loop := h.loop
  map := heffect.map.trans h.map

/-- A reader that lowers no number leaves the verdicts right. -/
theorem Exact.handle {server : Server} (hexact : server.Exact) {entry : Entry}
    {phase phase' : Phase} {action : HandlerAction} {kv : KvServer}
    (heffect : HandlerEffect server.kv entry.op phase action kv phase')
    (hraise : action = .executeGetOpOnKVDB ->
      forall last, lastRequest server.kv entry.op.clientId = some last ->
        last ≤ entry.op.requestId) :
    ({ server with kv := kv } : Server).Exact where
  judged := hexact.judged
  complete := by
    rcases heffect.requests with hsame | ⟨haction, _, hinsert⟩
    · change requests.Complete _ (fun c => kv.lastRequestId.lookup c) server.seen
      rw [hsame]
      exact hexact.complete
    · exact hexact.complete.record (records_of_insert hinsert) (hraise haction)
  verdict := hexact.verdict

end Server
end RaftClerk
end KVRaft
