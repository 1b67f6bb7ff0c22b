import KVRaft.RaftCore.Safety.LogMatching

/-!
# Index and term identify a command

Every entry, in a log or in a request, has its place in the log of the leader of its
term.  Two entries of one index and one term are therefore the same.
-/

namespace KVRaft
namespace RaftCore

open Foundation LogSystem Cluster

namespace Cluster

variable {n : Nat}

/-- An entry that a server holds or that some request carries. -/
def Present (σ : Cluster n) (log : LogEntry) : Prop :=
  (exists i, log ∈ (σ.raft i).logs) ∨
    exists call, call ∈ σ.appendCalls ∧ log ∈ call.args.entries

/-- One command for an index and a term, and no receiver, now or later, that finds
another one. -/
structure SameCommand [Archive] (σ : Cluster n) : Prop where
  entries : forall d e, σ.Present d -> σ.Present e -> d.logIndex = e.logIndex ->
    d.logTerm = e.logTerm -> d.command = e.command
  unreachable : forall i call, call ∈ σ.appendCalls ->
    (σ.raft i).appendEntries1 call.args ≠ .error .commandConflict

end Cluster

section

variable {n : Nat} {α : Logs n} {σ : Cluster n}

/-- An entry at its place in the log of the leader of its term. -/
def AtItsPlace (α : Logs n) (log : LogEntry) : Prop :=
  exists k : Nat, log.logIndex = k + 1 ∧ (α.leaderLog log.logTerm)[k]? = some log

theorem AtItsPlace.unique {d e : LogEntry} (hd : AtItsPlace α d) (he : AtItsPlace α e)
    (hindex : d.logIndex = e.logIndex) (hterm : d.logTerm = e.logTerm) : d = e := by
  rcases hd with ⟨k, hk, hdk⟩
  rcases he with ⟨m, hm, hem⟩
  have hkm : k = m := by omega
  rw [hkm, hterm, hem] at hdk
  cases hdk
  rfl

theorem atItsPlace_of_held (hb : (raftLogs n).Ballots α) (h : Refines α σ) {i : Fin n}
    {log : LogEntry} (hlog : log ∈ (σ.raft i).logs) : AtItsPlace α log := by
  rcases (h.node i).held with ⟨s, hs, _⟩
  rcases List.getElem?_of_mem hlog with ⟨k, hk⟩
  rw [hs.getElem?] at hk
  refine ⟨s + k, ?_, (Represents.origin hb (h.node i) hk).1⟩
  exact (hs.numbered _ _ hk).1

theorem atItsPlace_of_sent (hb : (raftLogs n).Ballots α) (h : Refines α σ)
    {call : AppendCall n} (hcall : call ∈ σ.appendCalls) {log : LogEntry}
    (hlog : log ∈ call.args.entries) : AtItsPlace α log := by
  rcases h.rounds.request hcall with ⟨M, p, hreq⟩
  rw [hreq.entries] at hlog
  rcases List.getElem?_of_mem hlog with ⟨k, hk⟩
  rw [List.getElem?_drop] at hk
  refine ⟨p + k, ?_, (Represents.request_origin hb hreq _ _ hk).1⟩
  exact (hreq.numbered _ _ hk).1

theorem atItsPlace (hb : (raftLogs n).Ballots α) (h : Refines α σ) {log : LogEntry}
    (hlog : σ.Present log) : AtItsPlace α log := by
  rcases hlog with ⟨i, hheld⟩ | ⟨call, hcall, hsent⟩
  · exact atItsPlace_of_held hb h hheld
  · exact atItsPlace_of_sent hb h hcall hsent

variable [Archive]

theorem sameCommand (hb : (raftLogs n).Ballots α) (h : Refines α σ) : SameCommand σ where
  entries := by
    intro d e hd he hindex hterm
    rw [(atItsPlace hb h hd).unique (atItsPlace hb h he) hindex hterm]
  unreachable := by
    intro i call hcall hfault
    have hnode := h.node i
    rcases hnode.held with ⟨s, hs, _⟩
    rcases h.rounds.request hcall with ⟨M, p, hreq⟩
    have honly := hs.appendEntries1_fault hnode.commit hreq.le hreq.numbered
      (Represents.request_agree hb hreq) hreq.prevLogIndex hreq.entries hfault
    cases honly

theorem index_and_term_identify (r : (clusterSystem n).Run) {σ : Cluster n}
    (hσ : r.Visits σ) : SameCommand σ := by
  rcases hσ.trace with ⟨earlier, htrace, _⟩
  rcases explained htrace with ⟨α, hα⟩
  exact sameCommand hα.ballots hα.refines

end

/-- Two leaders have written their logs over each other's. -/
theorem mixedRun_sameCommand :
    mixedRun.state.Present ⟨[2], 1, 2⟩ ∧ mixedRun.state.Present ⟨[3], 2, 1⟩ ∧
      @SameCommand 5 plainArchive mixedRun.state := by
  have hfirst : ⟨[2], 1, 2⟩ ∈ (mixedRun.state.raft 0).logs := by
    decide +kernel
  have hsecond : ⟨[3], 2, 1⟩ ∈ (mixedRun.state.raft 1).logs := by
    decide +kernel
  exact ⟨Or.inl ⟨0, hfirst⟩, Or.inl ⟨1, hsecond⟩,
    @index_and_term_identify 5 plainArchive mixedRun _ (Or.inl rfl)⟩

end RaftCore
end KVRaft
