import KVRaft.RaftCore.Cluster.NodeLog
import KVRaft.RaftCore.Cluster.System

/-!
# Replication rounds and snapshots in flight

The append calls of a cluster and the counters of their heartbeats, over the
acknowledgements of the abstract protocol: every call of a heartbeat sends the
leader's log up to the same index.  Then the snapshot calls.
-/

namespace KVRaft
namespace RaftCore

open Foundation LogSystem

variable {n : Nat}

/-- The last index a request covers. -/
def AppendEntriesArgs.sent (args : AppendEntriesArgs) : Nat :=
  (args.prevLogIndex + args.entriesSize).toNat

theorem AppendRequest.sent {α : Logs n} {caller : Fin n} {args : AppendEntriesArgs}
    {M : List LogEntry} {p : Nat} (h : AppendRequest α caller args M p) :
    args.sent = M.length := by
  rw [AppendEntriesArgs.sent, h.length, Int.toNat_natCast]

structure Rounds (α : Logs n) (calls : List (AppendCall n)) (counters : Fin n -> List Nat) :
    Prop where
  other : forall {c}, c ∈ calls -> c.callee ≠ c.caller
  request : forall {c}, c ∈ calls -> exists M p, AppendRequest α c.caller c.args M p
  counted : forall {c}, c ∈ calls -> c.counter < (counters c.caller).length
  ownAck : forall {c}, c ∈ calls -> α.acked c.caller c.args.term c.args.sent
  accepted : forall {c r}, c ∈ calls -> c.Answered r -> r.success = true ->
    r.term = c.args.term ∧ α.acked c.callee c.args.term c.args.sent
  distinct : Distinct calls
  round : forall {c d}, c ∈ calls -> d ∈ calls -> c.caller = d.caller ->
    c.counter = d.counter -> c.args.term = d.args.term ∧ c.args.sent = d.args.sent
  count : forall {i k v}, (counters i)[k]? = some v ->
    v ≤ 1 + (tally calls AppendEntriesReply.success i k).card

namespace Rounds

variable {α β : Logs n} {calls : List (AppendCall n)} {counters : Fin n -> List Nat}

theorem empty (α : Logs n) (counters : Fin n -> List Nat)
    (h : forall i, counters i = []) : Rounds α [] counters where
  other hc := absurd hc List.not_mem_nil
  request hc := absurd hc List.not_mem_nil
  counted hc := absurd hc List.not_mem_nil
  ownAck hc := absurd hc List.not_mem_nil
  accepted hc := absurd hc List.not_mem_nil
  distinct := by
    intro j k c d hc
    cases hc
  round hc := absurd hc List.not_mem_nil
  count := by
    intro i k v hv
    rw [h] at hv
    cases hv

theorem grow (h : Rounds α calls counters) (hgrow : Grows α β) : Rounds β calls counters :=
  { h with
    request := by
      intro c hc
      rcases h.request hc with ⟨M, p, hreq⟩
      exact ⟨M, p, hreq.mono hgrow⟩
    ownAck := fun hc => hgrow.acked (h.ownAck hc)
    accepted := by
      intro c r hc hr hyes
      rcases h.accepted hc hr hyes with ⟨hterm, hack⟩
      exact ⟨hterm, hgrow.acked hack⟩ }

/-- A heartbeat sends its leader's whole log. -/
theorem send (h : Rounds α calls counters) {i : Fin n} {M : List LogEntry} {term : Int}
    {news : List (AppendCall n)}
    (hnew : forall c, c ∈ news -> c.caller = i ∧ c.callee ≠ i ∧
      c.counter = (counters i).length ∧ c.phase = .requested ∧ c.args.term = term ∧
      exists p, AppendRequest α i c.args M p)
    (hnodup : (news.map Call.callee).Nodup) (hack : α.acked i term M.length) :
    Rounds α (calls ++ news) (addCounter counters i) := by
  have hsent : forall c, c ∈ news -> c.args.sent = M.length := by
    intro c hc
    rcases hnew c hc with ⟨_, _, _, _, _, p, hreq⟩
    exact hreq.sent
  exact
    { other := by
        intro c hc
        rcases List.mem_append.mp hc with hin | hin
        · exact h.other hin
        · rcases hnew c hin with ⟨hcaller, hcallee, _⟩
          rw [hcaller]
          exact hcallee
      request := by
        intro c hc
        rcases List.mem_append.mp hc with hin | hin
        · exact h.request hin
        · rcases hnew c hin with ⟨hcaller, _, _, _, _, p, hreq⟩
          rw [hcaller]
          exact ⟨M, p, hreq⟩
      counted := by
        intro c hc
        rcases List.mem_append.mp hc with hin | hin
        · exact lt_of_lt_of_le (h.counted hin) (addCounter_length counters i _)
        · rcases hnew c hin with ⟨hcaller, _, hcounter, _⟩
          rw [hcaller, hcounter, addCounter_self]
          exact Nat.lt_succ_self _
      ownAck := by
        intro c hc
        rcases List.mem_append.mp hc with hin | hin
        · exact h.ownAck hin
        · rcases hnew c hin with ⟨hcaller, _, _, _, hterm, _⟩
          rw [hcaller, hterm, hsent c hin]
          exact hack
      accepted := by
        intro c r hc hr hyes
        rcases List.mem_append.mp hc with hin | hin
        · exact h.accepted hin hr hyes
        · have hphase := (hnew c hin).2.2.2.1
          rcases hr with hr | hr
          · rw [hphase] at hr
            cases hr
          · rw [hphase] at hr
            cases hr
      distinct := by
        refine h.distinct.append i (counters i).length ?_ ?_ hnodup
        · intro c hc hci
          rw [← hci]
          exact h.counted hc
        · intro c hc
          exact ⟨(hnew c hc).1, (hnew c hc).2.2.1⟩
      round := by
        intro c d hc hd hcd heq
        rcases List.mem_append.mp hc with hcin | hcin
        · rcases List.mem_append.mp hd with hdin | hdin
          · exact h.round hcin hdin hcd heq
          · rcases hnew d hdin with ⟨hcaller, _, hcounter, _⟩
            have hlt := h.counted hcin
            rw [hcd, hcaller, heq, hcounter] at hlt
            exact absurd hlt (Nat.lt_irrefl _)
        · rcases List.mem_append.mp hd with hdin | hdin
          · rcases hnew c hcin with ⟨hcaller, _, hcounter, _⟩
            have hlt := h.counted hdin
            rw [← hcd, hcaller, ← heq, hcounter] at hlt
            exact absurd hlt (Nat.lt_irrefl _)
          · exact ⟨(hnew c hcin).2.2.2.2.1.trans (hnew d hdin).2.2.2.2.1.symm,
              (hsent c hcin).trans (hsent d hdin).symm⟩
      count := by
        intro j k v hv
        rw [tally_append fun d hd => (hnew d hd).2.2.2.1]
        rcases addCounter_get hv with hv | ⟨_, _, hv⟩
        · exact h.count hv
        · omega }

/-- One call moves on; the calls as such stay. -/
theorem replace (h : Rounds α calls counters) {k : Nat} {c d : AppendCall n}
    (hk : calls[k]? = some c) (hcd : SameCall c d) {counters' : Fin n -> List Nat}
    (hlength : forall i, (counters' i).length = (counters i).length)
    (haccepted : forall {e r}, e ∈ calls.set k d -> e.Answered r -> r.success = true ->
      r.term = e.args.term ∧ α.acked e.callee e.args.term e.args.sent)
    (hcount : forall {i m v}, (counters' i)[m]? = some v ->
      v ≤ 1 + (tally (calls.set k d) AppendEntriesReply.success i m).card) :
    Rounds α (calls.set k d) counters' where
  other := by
    intro e he
    rcases mem_set_back hk hcd he with ⟨e', he', hsame, _⟩
    rw [← hsame.caller, ← hsame.callee]
    exact h.other he'
  request := by
    intro e he
    rcases mem_set_back hk hcd he with ⟨e', he', hsame, _⟩
    rw [← hsame.caller, ← hsame.args]
    exact h.request he'
  counted := by
    intro e he
    rcases mem_set_back hk hcd he with ⟨e', he', hsame, _⟩
    rw [hlength, ← hsame.caller, ← hsame.counter]
    exact h.counted he'
  ownAck := by
    intro e he
    rcases mem_set_back hk hcd he with ⟨e', he', hsame, _⟩
    rw [← hsame.caller, ← hsame.args]
    exact h.ownAck he'
  accepted := haccepted
  distinct := h.distinct.set hk hcd
  round := by
    intro e f he hf hef heq
    rcases mem_set_back hk hcd he with ⟨e', he', hsame, _⟩
    rcases mem_set_back hk hcd hf with ⟨f', hf', hsame', _⟩
    rw [← hsame.caller, ← hsame'.caller] at hef
    rw [← hsame.counter, ← hsame'.counter] at heq
    rw [← hsame.args, ← hsame'.args]
    exact h.round he' hf' hef heq
  count := hcount

/-- A follower answers. -/
theorem answer (h : Rounds α calls counters) {k : Nat} {c : AppendCall n}
    (hk : calls[k]? = some c) (hphase : c.phase = .requested) {reply : AppendEntriesReply}
    (haccept : reply.success = true ->
      reply.term = c.args.term ∧ α.acked c.callee c.args.term c.args.sent) :
    Rounds α (calls.set k (c.answer reply)) counters := by
  apply h.replace hk (sameCall_answer c reply) (fun _ => rfl)
  · intro d r hd hr hyes
    rcases mem_set_back hk (sameCall_answer c reply) hd with ⟨e, he, _, heq | heq⟩
    · rw [heq, Call.answered_answer] at hr
      rw [heq, hr]
      rw [hr] at hyes
      exact haccept hyes
    · rw [heq] at he
      exact h.accepted he hr hyes
  · intro i m v hv
    rw [tally_answer hk hphase]
    exact h.count hv

/-- An answer reaches the thread that asked, which may change its counter. -/
theorem finish (h : Rounds α calls counters) {k : Nat} {c : AppendCall n}
    (hk : calls[k]? = some c) {reply : AppendEntriesReply}
    (hphase : c.phase = .replied reply) {v' : Nat}
    (hcount : v' ≤ 1 + (tally (calls.set k (c.finish reply)) AppendEntriesReply.success
      c.caller c.counter).card) :
    Rounds α (calls.set k (c.finish reply)) (setCounter counters c.caller c.counter v') := by
  have hc := List.mem_of_getElem? hk
  apply h.replace hk (sameCall_finish c reply)
  · intro i
    exact setCounter_length counters c.caller i c.counter v'
  · intro d r hd hr hyes
    rcases answered_back hphase hk hd hr with ⟨e, he, hsame, hr⟩
    rw [← hsame.callee, ← hsame.args]
    exact h.accepted he hr hyes
  · intro j m v hv
    rcases setCounter_get hv with ⟨hj, hm, hv⟩ | hv
    · rw [hj, hm, hv]
      exact hcount
    · exact (h.count hv).trans (Nat.add_le_add_left (tally_finish_le hk hphase) 1)

/-- A majority of good replies settles the log that was sent, if it ends in an
entry of the leader's own term. -/
theorem settled (h : Rounds α calls counters) {c : AppendCall n} (hc : c ∈ calls)
    (hquorum : n / 2 + 1 ≤
      1 + (tally calls AppendEntriesReply.success c.caller c.counter).card)
    (hlast : c.args.entries.getLast?.map LogEntry.logTerm = some c.args.term) :
    (raftLogs n).Settled α c.args.term c.args.sent := by
  have hself : c.caller ∉ tally calls AppendEntriesReply.success c.caller c.counter := by
    intro hmem
    rcases mem_tally.mp hmem with ⟨d, hd, h1, _, h3, _⟩
    exact h.other hd (h3.trans h1.symm)
  rcases h.request hc with ⟨M, p, hreq⟩
  refine ⟨?_, insert c.caller (tally calls AppendEntriesReply.success c.caller c.counter),
    ?_, ?_⟩
  · rcases Option.map_eq_some_iff.mp hlast with ⟨log, hlog, hterm⟩
    rw [hreq.entries, List.getLast?_drop] at hlog
    have hlt : ¬ M.length ≤ p := by
      intro hle
      rw [if_pos hle] at hlog
      cases hlog
    rw [if_neg hlt, List.getLast?_eq_getElem?] at hlog
    exact ⟨M.length - 1, log, by rw [hreq.sent]; omega,
      getElem?_of_isPrefix hreq.log hlog, hterm⟩
  · show Fintype.card (Fin n) / 2 + 1 ≤ _
    rw [Fintype.card_fin, Finset.card_insert_of_notMem hself]
    omega
  · intro q hq
    rcases Finset.mem_insert.mp hq with heq | hin
    · rw [heq]
      exact h.ownAck hc
    · rcases mem_tally.mp hin with ⟨d, hd, h1, h2, h3, r, hr, hyes⟩
      rcases h.round hd hc h1 h2 with ⟨hterm, hsent⟩
      have hack := (h.accepted hd (Or.inr hr) hyes).2
      rw [h3, hterm, hsent] at hack
      exact hack

end Rounds

/-!
# Snapshots in flight
-/

/-- The request a snapshot call has built. -/
def SnapshotCall.Carries (call : SnapshotCall n) (args : InstallSnapshotRequest) : Prop :=
  call.phase = .requested args ∨ exists reply, call.phase = .replied args reply

theorem SnapshotCall.carries_of_returned {call : SnapshotCall n}
    {args : InstallSnapshotRequest}
    (h : SnapshotCall.Carries { call with phase := .returned } args) : call.Carries args := by
  rcases h with hreturned | ⟨_, hreturned⟩
  · cases hreturned
  · cases hreturned

/-- A call carries the one request it has built. -/
theorem SnapshotCall.eq_of_requested {call : SnapshotCall n}
    {built args : InstallSnapshotRequest} (hphase : call.phase = .requested built)
    (h : call.Carries args) : args = built := by
  rcases h with hrequested | ⟨_, hreplied⟩
  · rw [hphase] at hrequested
    exact (SnapshotPhase.requested.inj hrequested).symm
  · rw [hphase] at hreplied
    cases hreplied

/-- The reply to a call keeps its request. -/
theorem SnapshotCall.carries_of_replied {call : SnapshotCall n}
    {args args' : InstallSnapshotRequest} {reply : InstallSnapshotResponse}
    (hphase : call.phase = .requested args)
    (h : SnapshotCall.Carries { call with phase := .replied args reply } args') :
    call.Carries args' := by
  rcases h with hrequested | ⟨_, hreplied⟩
  · cases hrequested
  · cases hreplied
    exact Or.inl hphase

def Snapshots (α : Logs n) (calls : List (SnapshotCall n)) : Prop :=
  forall c, c ∈ calls -> forall args, c.Carries args -> exists M, SnapshotRequest α args M

theorem Snapshots.grow {α β : Logs n} {calls : List (SnapshotCall n)}
    (h : Snapshots α calls) (hgrow : Grows α β) : Snapshots β calls := by
  intro c hc args hargs
  rcases h c hc args hargs with ⟨M, hreq⟩
  exact ⟨M, hreq.mono hgrow⟩

/-- A snapshot covers what its sender's complete log starts with. -/
theorem Represents.snapshotRequest {α : Logs n} {v : Fin n} {rf : Raft n}
    (hb : (raftLogs n).Ballots α) (h : Represents α v rf) :
    exists M, SnapshotRequest α rf.leaderSendSnapShot.2 M ∧ M <+: α.log v ∧
      (M.length : Int) ≤ rf.commitIndex := by
  rcases h.held with ⟨s, hs, happ⟩
  have hlen : ((α.log v).take s).length = s := by
    rw [List.length_take]
    have := hs.le
    omega
  refine ⟨(α.log v).take s, ?_, List.take_prefix _ _, ?_⟩
  · exact
      { index := by
          rw [hlen]
          exact hs.index
        term := by
          rw [hlen, termAt_take (Nat.le_refl s)]
          exact hs.term
        numbered := hs.numbered.of_isPrefix (List.take_prefix _ _)
        origin := by
          intro k log hlog
          exact h.origin hb (getElem?_of_isPrefix (List.take_prefix _ _) hlog) }
  · rw [hlen]
    exact happ.trans h.applied

end RaftCore
end KVRaft
