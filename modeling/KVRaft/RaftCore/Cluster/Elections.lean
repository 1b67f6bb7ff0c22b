import KVRaft.RaftCore.Cluster.Node
import KVRaft.RaftCore.Cluster.System

/-!
# Elections in flight

The vote calls of a cluster and the counters their threads share, over the
ballots of the abstract protocol.  A counter never exceeds the votes it has
seen, and once its election is won it stays a majority behind them: resetting
the counter keeps late replies from electing the same server again.
-/

namespace KVRaft
namespace RaftCore

open Foundation LogSystem

variable {n : Nat}

structure Elections (α : Logs n) (calls : List (VoteCall n)) (counters : Fin n -> List Nat) :
    Prop where
  other : forall {c}, c ∈ calls -> c.callee ≠ c.caller
  request : forall {c}, c ∈ calls -> VoteRequest α c.caller c.args
  counted : forall {c}, c ∈ calls -> c.counter < (counters c.caller).length
  granted : forall {c r}, c ∈ calls -> c.Answered r -> r.voteGranted = true ->
    r.term = c.args.term ∧ α.vote c.callee c.args.term = some c.caller
  distinct : Distinct calls
  election : forall {c d}, c ∈ calls -> d ∈ calls -> c.caller = d.caller ->
    (c.counter = d.counter <-> c.args.term = d.args.term)
  count : forall {i k v}, (counters i)[k]? = some v ->
    v ≤ 1 + (tally calls RequestVoteReply.voteGranted i k).card
  won : forall {c v}, c ∈ calls -> (counters c.caller)[c.counter]? = some v ->
    α.leader c.args.term = some c.caller ->
    v + (n / 2 + 1) ≤
      1 + (tally calls RequestVoteReply.voteGranted c.caller c.counter).card

namespace Elections

variable {α β : Logs n} {calls : List (VoteCall n)} {counters : Fin n -> List Nat}

theorem empty (α : Logs n) (counters : Fin n -> List Nat)
    (h : forall i, counters i = []) : Elections α [] counters where
  other hc := absurd hc List.not_mem_nil
  request hc := absurd hc List.not_mem_nil
  counted hc := absurd hc List.not_mem_nil
  granted hc := absurd hc List.not_mem_nil
  distinct := by
    intro j k c d hc
    cases hc
  election hc := absurd hc List.not_mem_nil
  count := by
    intro i k v hv
    rw [h] at hv
    cases hv
  won hc := absurd hc List.not_mem_nil

theorem mono (h : Elections α calls counters) (hgrow : Grows α β)
    (hwon : forall {c v}, c ∈ calls -> (counters c.caller)[c.counter]? = some v ->
      β.leader c.args.term = some c.caller ->
      v + (n / 2 + 1) ≤
        1 + (tally calls RequestVoteReply.voteGranted c.caller c.counter).card) :
    Elections β calls counters :=
  { h with
    request := fun hc => (h.request hc).mono hgrow
    granted := by
      intro c r hc hr hgrant
      rcases h.granted hc hr hgrant with ⟨hterm, hvote⟩
      exact ⟨hterm, hgrow.vote hvote⟩
    won := hwon }

/-- Steps that elect nobody. -/
theorem grow (h : Elections α calls counters) (hgrow : Grows α β)
    (hlead : β.leader = α.leader) : Elections β calls counters := by
  apply h.mono hgrow
  intro c v hc hv hl
  rw [hlead] at hl
  exact h.won hc hv hl

/-- Starting an election in a new term. -/
theorem send (h : Elections α calls counters) (hb : (raftLogs n).Ballots α)
    {i : Fin n} {args : RequestVoteArgs} (hnew : α.term i < args.term)
    (hreq : VoteRequest β i args) (hgrow : Grows α β) (hlead : β.leader = α.leader) :
    Elections β
      (calls ++ Cluster.voteCallsOf i (counters i).length
        ((Raft.othersOf i).map fun j => (j, args)))
      (addCounter counters i) := by
  have hmem : forall {c : VoteCall n},
      c ∈ Cluster.voteCallsOf i (counters i).length
        ((Raft.othersOf i).map fun j => (j, args)) ->
      c.caller = i ∧ c.callee ≠ i ∧ c.args = args ∧ c.counter = (counters i).length ∧
        c.phase = .requested := by
    intro c hc
    rcases List.mem_map.mp hc with ⟨request, hrequest, rfl⟩
    rcases List.mem_map.mp hrequest with ⟨j, hj, rfl⟩
    exact ⟨rfl, Raft.mem_othersOf.mp hj, rfl, rfl, rfl⟩
  have hold : forall {c : VoteCall n}, c ∈ calls -> c.caller = i ->
      c.args.term < args.term := by
    intro c hc hci
    rcases (h.request hc).claim with ⟨L, hL, _⟩
    have hle := hb.claim_term hL
    rw [hci] at hle
    exact lt_of_le_of_lt hle hnew
  have htally : forall (j : Fin n) (k : Nat),
      tally (calls ++ Cluster.voteCallsOf i (counters i).length
        ((Raft.othersOf i).map fun j => (j, args))) RequestVoteReply.voteGranted j k =
      tally calls RequestVoteReply.voteGranted j k :=
    fun j k => tally_append fun d hd => (hmem hd).2.2.2.2
  exact
    { other := by
        intro c hc
        rcases List.mem_append.mp hc with hin | hin
        · exact h.other hin
        · rcases hmem hin with ⟨hcaller, hcallee, _⟩
          rw [hcaller]
          exact hcallee
      request := by
        intro c hc
        rcases List.mem_append.mp hc with hin | hin
        · exact (h.request hin).mono hgrow
        · rcases hmem hin with ⟨hcaller, _, hargs, _⟩
          rw [hcaller, hargs]
          exact hreq
      counted := by
        intro c hc
        rcases List.mem_append.mp hc with hin | hin
        · exact lt_of_lt_of_le (h.counted hin) (addCounter_length counters i _)
        · rcases hmem hin with ⟨hcaller, _, _, hcounter, _⟩
          rw [hcaller, hcounter, addCounter_self]
          exact Nat.lt_succ_self _
      granted := by
        intro c r hc hr hgrant
        rcases List.mem_append.mp hc with hin | hin
        · rcases h.granted hin hr hgrant with ⟨hterm, hvote⟩
          exact ⟨hterm, hgrow.vote hvote⟩
        · have hphase := (hmem hin).2.2.2.2
          rcases hr with hr | hr
          · rw [hphase] at hr
            cases hr
          · rw [hphase] at hr
            cases hr
      distinct := by
        refine h.distinct.append i (counters i).length ?_ ?_ ?_
        · intro c hc hci
          rw [← hci]
          exact h.counted hc
        · intro c hc
          exact ⟨(hmem hc).1, (hmem hc).2.2.2.1⟩
        · have hcallees : (Cluster.voteCallsOf i (counters i).length
              ((Raft.othersOf i).map fun j => (j, args))).map Call.callee =
              Raft.othersOf i := by
            simp [Cluster.voteCallsOf, List.map_map, Function.comp_def]
          rw [hcallees]
          exact Raft.othersOf_nodup i
      election := by
        intro c d hc hd hcd
        rcases List.mem_append.mp hc with hcin | hcin
        · rcases List.mem_append.mp hd with hdin | hdin
          · exact h.election hcin hdin hcd
          · rcases hmem hdin with ⟨hcaller, _, hargs, hcounter, _⟩
            have hlt := h.counted hcin
            have hterm := hold hcin (hcd.trans hcaller)
            rw [hcd, hcaller] at hlt
            rw [hargs, hcounter]
            exact ⟨fun heq => by omega, fun heq => by omega⟩
        · rcases hmem hcin with ⟨hcaller, _, hargs, hcounter, _⟩
          rcases List.mem_append.mp hd with hdin | hdin
          · have hlt := h.counted hdin
            have hterm := hold hdin (hcd.symm.trans hcaller)
            rw [← hcd, hcaller] at hlt
            rw [hargs, hcounter]
            exact ⟨fun heq => by omega, fun heq => by omega⟩
          · rcases hmem hdin with ⟨_, _, hargs', hcounter', _⟩
            rw [hargs, hargs', hcounter, hcounter']
            exact ⟨fun _ => rfl, fun _ => rfl⟩
      count := by
        intro j k v hv
        rw [htally]
        rcases addCounter_get hv with hv | ⟨_, _, hv⟩
        · exact h.count hv
        · omega
      won := by
        intro c v hc hv hl
        rw [hlead] at hl
        rw [htally]
        rcases List.mem_append.mp hc with hin | hin
        · rcases addCounter_get hv with hv | ⟨hci, hk, _⟩
          · exact h.won hin hv hl
          · have hlt := h.counted hin
            rw [hk, hci] at hlt
            exact absurd hlt (Nat.lt_irrefl _)
        · -- nobody leads a term before standing in it
          rcases hmem hin with ⟨hcaller, _, hargs, _⟩
          rw [hcaller, hargs] at hl
          exact absurd (hb.leader_term hl) (not_le.mpr hnew) }

/-- One call moves on; the calls as such stay. -/
theorem replace (h : Elections α calls counters) {k : Nat} {c d : VoteCall n}
    (hk : calls[k]? = some c) (hcd : SameCall c d) {counters' : Fin n -> List Nat}
    (hlength : forall i, (counters' i).length = (counters i).length)
    (hgranted : forall {e r}, e ∈ calls.set k d -> e.Answered r -> r.voteGranted = true ->
      r.term = e.args.term ∧ α.vote e.callee e.args.term = some e.caller)
    (hcount : forall {i m v}, (counters' i)[m]? = some v ->
      v ≤ 1 + (tally (calls.set k d) RequestVoteReply.voteGranted i m).card)
    (hwon : forall {e v}, e ∈ calls.set k d -> (counters' e.caller)[e.counter]? = some v ->
      α.leader e.args.term = some e.caller ->
      v + (n / 2 + 1) ≤
        1 + (tally (calls.set k d) RequestVoteReply.voteGranted e.caller e.counter).card) :
    Elections α (calls.set k d) counters' where
  other := by
    intro e he
    rcases mem_set_back hk hcd he with ⟨e', he', hsame, _⟩
    rw [← hsame.caller, ← hsame.callee]
    exact h.other he'
  request := by
    intro e he
    rcases mem_set_back hk hcd he with ⟨e', he', hsame, _⟩
    rw [← hsame.caller, ← hsame.args]
    exact h.request he'
  counted := by
    intro e he
    rcases mem_set_back hk hcd he with ⟨e', he', hsame, _⟩
    rw [hlength, ← hsame.caller, ← hsame.counter]
    exact h.counted he'
  granted := hgranted
  distinct := h.distinct.set hk hcd
  election := by
    intro e f he hf hef
    rcases mem_set_back hk hcd he with ⟨e', he', hsame, _⟩
    rcases mem_set_back hk hcd hf with ⟨f', hf', hsame', _⟩
    rw [← hsame.caller, ← hsame'.caller] at hef
    rw [← hsame.counter, ← hsame.args, ← hsame'.counter, ← hsame'.args]
    exact h.election he' hf' hef
  count := hcount
  won := hwon

/-- A voter answers. -/
theorem answer (h : Elections α calls counters) {k : Nat} {c : VoteCall n}
    (hk : calls[k]? = some c) (hphase : c.phase = .requested) {reply : RequestVoteReply}
    (hgrant : reply.voteGranted = true ->
      reply.term = c.args.term ∧ α.vote c.callee c.args.term = some c.caller) :
    Elections α (calls.set k (c.answer reply)) counters := by
  have htally : forall (j : Fin n) (m : Nat),
      tally (calls.set k (c.answer reply)) RequestVoteReply.voteGranted j m =
        tally calls RequestVoteReply.voteGranted j m :=
    fun j m => tally_answer hk hphase
  apply h.replace hk (sameCall_answer c reply) (fun _ => rfl)
  · intro d r hd hr hyes
    rcases mem_set_back hk (sameCall_answer c reply) hd with ⟨e, he, _, heq | heq⟩
    · rw [heq, Call.answered_answer] at hr
      rw [heq, hr]
      rw [hr] at hyes
      exact hgrant hyes
    · rw [heq] at he
      exact h.granted he hr hyes
  · intro i m v hv
    rw [htally]
    exact h.count hv
  · intro d v hd hv hl
    rcases mem_set_back hk (sameCall_answer c reply) hd with ⟨e, he, hsame, _⟩
    rw [← hsame.caller, ← hsame.counter] at hv
    rw [← hsame.caller, ← hsame.args] at hl
    rw [htally, ← hsame.caller, ← hsame.counter]
    exact h.won he hv hl

/-- An answer reaches the thread that asked, which may change its counter. -/
theorem finish (h : Elections α calls counters) {k : Nat} {c : VoteCall n}
    (hk : calls[k]? = some c) {reply : RequestVoteReply} (hphase : c.phase = .replied reply)
    {v' : Nat}
    (hcount : v' ≤ 1 + (tally (calls.set k (c.finish reply)) RequestVoteReply.voteGranted
      c.caller c.counter).card)
    (hwon : α.leader c.args.term = some c.caller ->
      v' + (n / 2 + 1) ≤ 1 + (tally (calls.set k (c.finish reply))
        RequestVoteReply.voteGranted c.caller c.counter).card) :
    Elections α (calls.set k (c.finish reply)) (setCounter counters c.caller c.counter v') := by
  have hc := List.mem_of_getElem? hk
  apply h.replace hk (sameCall_finish c reply)
  · intro i
    exact setCounter_length counters c.caller i c.counter v'
  · intro d r hd hr hyes
    rcases answered_back hphase hk hd hr with ⟨e, he, hsame, hr⟩
    rw [← hsame.caller, ← hsame.callee, ← hsame.args]
    exact h.granted he hr hyes
  · intro j m v hv
    rcases setCounter_get hv with ⟨hj, hm, hv⟩ | hv
    · rw [hj, hm, hv]
      exact hcount
    · exact (h.count hv).trans (Nat.add_le_add_left (tally_finish_le hk hphase) 1)
  · intro d v hd hv hl
    rcases mem_set_back hk (sameCall_finish c reply) hd with ⟨e, he, hsame, _⟩
    rcases setCounter_get hv with ⟨hj, hm, hv⟩ | hv
    · have hterm : e.args.term = c.args.term :=
        (h.election he hc (hsame.caller.trans hj)).mp (hsame.counter.trans hm)
      rw [← hsame.args, hterm, hj] at hl
      rw [hj, hm, hv]
      exact hwon hl
    · rw [← hsame.caller, ← hsame.counter] at hv
      rw [← hsame.caller, ← hsame.args] at hl
      rw [← hsame.caller, ← hsame.counter]
      exact (h.won he hv hl).trans (Nat.add_le_add_left (tally_finish_le hk hphase) 1)

/-- The votes counted by one loop are ballots, and so is the candidate's own. -/
theorem quorum (h : Elections α calls counters) (hb : (raftLogs n).Ballots α)
    {c : VoteCall n} (hc : c ∈ calls) :
    exists Q : Finset (Fin n),
      Q.card = 1 + (tally calls RequestVoteReply.voteGranted c.caller c.counter).card ∧
      forall q, q ∈ Q -> α.vote q c.args.term = some c.caller := by
  have hself : c.caller ∉ tally calls RequestVoteReply.voteGranted c.caller c.counter := by
    intro hmem
    rcases mem_tally.mp hmem with ⟨d, hd, h1, _, h3, _⟩
    exact h.other hd (h3.trans h1.symm)
  refine ⟨insert c.caller (tally calls RequestVoteReply.voteGranted c.caller c.counter),
    ?_, ?_⟩
  · rw [Finset.card_insert_of_notMem hself, Nat.add_comm]
  · intro q hq
    rcases Finset.mem_insert.mp hq with heq | hin
    · rcases (h.request hc).claim with ⟨L, hL, _⟩
      rw [heq]
      exact hb.claim_vote hL
    · rcases mem_tally.mp hin with ⟨d, hd, h1, h2, h3, r, hr, hyes⟩
      have hvote := (h.granted hd (Or.inr hr) hyes).2
      have hterm : d.args.term = c.args.term := (h.election hd hc h1).mp h2
      rw [h1, h3, hterm] at hvote
      exact hvote

variable {k v : Nat} {c : VoteCall n} {reply : RequestVoteReply}

/-- A thread that leaves the counter alone. -/
theorem finish_same (h : Elections α calls counters) (hk : calls[k]? = some c)
    (hphase : c.phase = .replied reply) (hv : (counters c.caller)[c.counter]? = some v) :
    Elections α (calls.set k (c.finish reply)) (setCounter counters c.caller c.counter v) := by
  refine h.finish hk hphase
    ((h.count hv).trans (Nat.add_le_add_left (tally_finish_le hk hphase) 1)) ?_
  intro hl
  exact (h.won (List.mem_of_getElem? hk) hv hl).trans
    (Nat.add_le_add_left (tally_finish_le hk hphase) 1)

/-- A thread that counts one more vote. -/
theorem finish_counted (h : Elections α calls counters) (hk : calls[k]? = some c)
    (hphase : c.phase = .replied reply) (hgrant : reply.voteGranted = true)
    (hv : (counters c.caller)[c.counter]? = some v) :
    Elections α (calls.set k (c.finish reply))
      (setCounter counters c.caller c.counter (v + 1)) := by
  have hcard := tally_finish_card h.distinct hk hphase hgrant
  have hcount := h.count hv
  refine h.finish hk hphase (by omega) ?_
  intro hl
  have hwon := h.won (List.mem_of_getElem? hk) hv hl
  omega

/-- A thread that finds a majority and resets the counter. -/
theorem finish_elected (h : Elections α calls counters) (hk : calls[k]? = some c)
    (hphase : c.phase = .replied reply) (hgrant : reply.voteGranted = true)
    (hv : (counters c.caller)[c.counter]? = some v) (hquorum : n / 2 + 1 ≤ v + 1) :
    Elections α (calls.set k (c.finish reply)) (setCounter counters c.caller c.counter 0) ∧
      n / 2 + 1 ≤ 1 + (tally (calls.set k (c.finish reply)) RequestVoteReply.voteGranted
        c.caller c.counter).card := by
  have hcard := tally_finish_card h.distinct hk hphase hgrant
  have hcount := h.count hv
  exact ⟨h.finish hk hphase (by omega) fun _ => by omega, by omega⟩

/-- A majority of votes elects the first leader of its term. -/
theorem fresh (h : Elections α calls counters) (hb : (raftLogs n).Ballots α)
    (hk : calls[k]? = some c) (hphase : c.phase = .replied reply)
    (hgrant : reply.voteGranted = true) (hv : (counters c.caller)[c.counter]? = some v)
    (hquorum : n / 2 + 1 ≤ v + 1) :
    α.leader c.args.term = none ∧
      exists Q : Finset (Fin n), n / 2 + 1 ≤ Q.card ∧
        forall q, q ∈ Q -> α.vote q c.args.term = some c.caller := by
  rcases h.finish_elected hk hphase hgrant hv hquorum with ⟨hnext, hmajority⟩
  have hin : c.finish reply ∈ calls.set k (c.finish reply) := mem_set_found hk _
  rcases hnext.quorum hb hin with ⟨Q, hcard, hvote⟩
  change Q.card = 1 + (tally _ _ c.caller c.counter).card at hcard
  refine ⟨?_, Q, by omega, hvote⟩
  cases hl : α.leader c.args.term with
  | none => rfl
  | some d =>
      exfalso
      have hQ : (raftLogs n).quorums.IsQuorum Q := by
        show Fintype.card (Fin n) / 2 + 1 ≤ Q.card
        rw [Fintype.card_fin]
        omega
      rw [hb.leader_eq hl hQ hvote] at hl
      have hwon := h.won (List.mem_of_getElem? hk) hv hl
      have hone := tally_finish_card h.distinct hk hphase hgrant
      have hall : Q.card ≤ n := by
        have := Finset.card_le_univ Q
        rwa [Fintype.card_fin] at this
      omega

end Elections
end RaftCore
end KVRaft
