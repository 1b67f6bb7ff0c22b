import KVRaft.RaftCore.Cluster.Simulation
import KVRaft.RaftCore.Raft.PlainArchive

/-!
# Leader completeness

What a leader commits is in the log of every leader of a later term, unless some
step has mixed two logs.
-/

namespace KVRaft
namespace RaftCore

open Foundation LogSystem Cluster

section

variable {n : Nat} [Archive]

/-- Whatever leader `i` commits in term `T`, a leader of a later term has covered
by its snapshot or holds as `i` does, at any time that `i` leads term `T`. -/
def LeaderComplete (r : (clusterSystem n).Run) : Prop :=
  forall t, t ∈ r.trace -> forall i T commitIndex, Commits t i T commitIndex ->
    forall u, u ∈ r.trace -> forall j U, BecomesLeader u j U -> T < U ->
    forall index, 1 ≤ index -> index ≤ commitIndex ->
      index ≤ (u.after.raft j).lastSnapshotIncludeIndex ∨
        exists held, (u.after.raft j).logAtIndex index = .ok held ∧
          forall σ, r.Visits σ -> (σ.raft i).status = .leader ->
            (σ.raft i).currentTerm = T ->
            forall log, (σ.raft i).logAtIndex index = .ok log ->
              log.logTerm = held.logTerm ∧ log.command = held.command

/-- A leader holds part of what its term's leader log has become. -/
theorem Explains.leads {α : Logs n} {r : (clusterSystem n).Run}
    (h : Explains α r.trace r.state) {σ : Cluster n} (hσ : r.Visits σ) {i : Fin n}
    (hl : (σ.raft i).status = .leader) :
    exists L s, Holds (σ.raft i) L s ∧ L <+: α.leaderLog (σ.raft i).currentTerm := by
  rcases hσ with rfl | ⟨t, ht, rfl⟩
  · rcases (h.refines.node i).held with ⟨s, hs, _⟩
    refine ⟨_, s, hs, ?_⟩
    rw [((h.refines.node i).leads hl).2.2]
  · exact ((h.recorded t ht).leads hl).2

theorem leader_completeness (r : (clusterSystem n).Run) (hclean : r.Always Clean) :
    LeaderComplete r := by
  rcases explained r.valid with ⟨α, hα⟩
  have hsafe := (hα.sound hclean).1.safe
  intro t ht i T commitIndex hcommit u hu j U hwins hlt index hlo hhi
  have hset := (hα.recorded t ht).committed hcommit
  rcases (hα.recorded u hu).elected hwins with ⟨hlead, s, hs⟩
  have hbase := hsafe.leader_complete hset.live hlt hlead
  obtain ⟨k, rfl⟩ : exists k : Nat, index = (k : Int) + 1 := ⟨(index - 1).toNat, by omega⟩
  have hk : k < (α.leaderLog T).length := by
    have := hset.1.length_le
    omega
  rcases getElem?_of_lt hk with ⟨held, hheld⟩
  have hbase' : (α.base U)[k]? = some held := by
    refine getElem?_of_isPrefix hbase ?_
    rw [List.getElem?_take_of_lt (by omega)]
    exact hheld
  rcases Nat.lt_or_ge k s with hks | hks
  · left
    rw [hs.index]
    omega
  · right
    refine ⟨held, hs.logAtIndex hks hbase', ?_⟩
    intro σ hσ hl hterm log hlog
    rcases hα.leads hσ hl with ⟨L, s', hs', hpre⟩
    rw [hterm] at hpre
    rcases hs'.logAtIndex_inv hlog with ⟨m, hm, _, hLm⟩
    have hmk : m = k := by omega
    have heq := getElem?_of_isPrefix hpre hLm
    rw [hmk, hheld] at heq
    cases heq
    exact ⟨rfl, rfl⟩

end

/-- Server 0 commits in term 1, then server 1 is elected and commits in term 2. -/
def orderlySchedule : List (Action 3) :=
  [.doElection 0, .requestVote 0, .requestVoteReply 0, .start 0 [1], .doHeartBeat 0,
    .appendEntries 0, .appendEntriesReply 0, .applierTicker 0,
    .doElection 1, .requestVote 3, .requestVoteReply 3, .start 1 [2], .doHeartBeat 1,
    .appendEntries 2, .appendEntriesReply 2, .applierTicker 1]

def orderlyRun : (@clusterSystem plainArchive 3).Run :=
  TransitionSystem.runOf _ orderlySchedule (by decide +kernel)

theorem orderlyRun_clean : orderlyRun.Always Clean := by
  have h : forall t, t ∈ orderlyRun.trace -> Clean t := by
    decide +kernel
  exact h

theorem orderlyRun_leaderComplete :
    (exists t, t ∈ orderlyRun.trace ∧ (t.before.raft 0).commitIndex = 0 ∧
      (t.after.raft 0).commitIndex = 1) ∧
    (exists u, u ∈ orderlyRun.trace ∧ BecomesLeader u 1 2) ∧
    @LeaderComplete 3 plainArchive orderlyRun :=
  ⟨by decide +kernel, by decide +kernel,
    @leader_completeness 3 plainArchive orderlyRun orderlyRun_clean⟩

/-!
# A stale tail wins an election

Server 0 leads term 1 and keeps three entries to itself; server 1 leads term 2
and replicates one entry to server 2.  Server 2, elected in term 3, overwrites
the first two entries of server 0 and commits both, but the third stays.  By its
term server 0 still takes server 1, which lacks the second entry, for up to date.
-/

def staleTailSchedule : List (Action 3) :=
  [.doElection 0, .requestVote 0, .requestVoteReply 0,
    .start 0 [1], .start 0 [1], .start 0 [1],
    .doElection 1, .requestVote 3, .requestVoteReply 3, .start 1 [2], .doHeartBeat 1,
    .appendEntries 1,
    .doElection 2, .requestVote 4, .requestVoteReply 4, .start 2 [3], .doHeartBeat 2,
    .appendEntries 2, .appendEntriesReply 2, .doHeartBeat 2, .appendEntries 4,
    .appendEntriesReply 4, .applierTicker 2,
    .requestVote 5, .doElection 1, .requestVote 6, .requestVoteReply 6, .start 1 [4],
    .doHeartBeat 1, .appendEntries 6, .appendEntriesReply 6, .applierTicker 1]

def staleTailRun : (@clusterSystem plainArchive 3).Run :=
  TransitionSystem.runOf _ staleTailSchedule (by decide +kernel)

theorem staleTailRun_not_leaderComplete : ¬ @LeaderComplete 3 plainArchive staleTailRun := by
  intro h
  have hcommit : exists t, t ∈ staleTailRun.trace ∧ t.action = .appendEntriesReply 4 ∧
      (t.before.raft 2).commitIndex < (t.after.raft 2).commitIndex ∧
      (t.after.raft 2).currentTerm = 3 ∧ (t.after.raft 2).commitIndex = 2 := by
    decide +kernel
  have hwins : exists u, u ∈ staleTailRun.trace ∧ BecomesLeader u 1 4 ∧
      (u.after.raft 1).lastSnapshotIncludeIndex < 2 ∧
      (u.after.raft 1).logAtIndex 2 = .error .sliceBeyondLast := by
    decide +kernel
  rcases hcommit with ⟨t, ht, hreply, hcommits⟩
  rcases hwins with ⟨u, hu, hleader, hsnap, hnone⟩
  rcases h t ht 2 3 2 ⟨⟨4, hreply⟩, hcommits⟩ u hu 1 4 hleader (by decide) 2 (by decide)
    (by decide) with hcovered | ⟨held, hheld, _⟩
  · omega
  · rw [hnone] at hheld
    cases hheld

end RaftCore
end KVRaft
