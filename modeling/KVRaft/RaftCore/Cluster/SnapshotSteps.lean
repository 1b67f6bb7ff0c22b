import KVRaft.RaftCore.Cluster.ReplicationSteps

/-!
# Applying and snapshot steps

The applier, local snapshots and the snapshot calls are steps of the abstract
protocol; installing a snapshot over a foreign tail is a slip.
-/

namespace KVRaft
namespace RaftCore

open Foundation LogSystem Cluster

variable {n : Nat} {α : Logs n} {σ : Cluster n}

/-!
# Applying and compacting
-/

/-- The applier hands over the committed entries it has not handed over yet. -/
theorem Represents.getApplyLogs {v : Fin n} {rf : Raft n} (h : Represents α v rf) :
    exists msgs, rf.getApplyLogs = .ok ({ rf with lastApplied := rf.commitIndex }, msgs) ∧
      forall msg, msg ∈ msgs -> exists (j : Nat) (log : LogEntry),
        (j : Int) < rf.commitIndex ∧ (α.log v)[j]? = some log ∧
          msg = Raft.commandMsg log j := by
  rcases h.held with ⟨s, hs, happ⟩
  rcases hs.getApplyLogs happ h.applied h.commit with ⟨msgs, heq, hmsgs⟩
  refine ⟨msgs, heq, ?_⟩
  intro msg hmsg
  rcases hmsgs msg hmsg with ⟨j, log, _, hj, hlog, hmsg⟩
  exact ⟨j, log, hj, hlog, hmsg⟩

theorem simulated_applierTicker [Archive] (hb : (raftLogs n).Ballots α)
    (h : Refines α σ) (i : Fin n) :
    exists β, Simulated α σ (.applierTicker i)
      (σ.resume i (σ.raft i).getApplyLogs fun (rf, _) => σ.setRaft i rf) β := by
  rcases (h.node i).getApplyLogs with ⟨msgs, heq, _⟩
  rw [heq]
  exact ⟨α, simulated_setRaft hb h (Steps.refl α) (h.node i).apply List.prefix_rfl rfl rfl
    id⟩

theorem snapshotEffect_commit {rf rf' : Raft n} {L : List LogEntry}
    (h : Raft.SnapshotEffect rf L rf') :
    rf'.commitIndex = rf.commitIndex ∧ rf'.status = rf.status := by
  cases h with
  | rejected => exact ⟨rfl, rfl⟩
  | compacted _ _ => exact ⟨rfl, rfl⟩

theorem simulated_snapshot [Archive] (hb : (raftLogs n).Ballots α) (h : Refines α σ)
    (i : Fin n) (index : Int) (data : Bytes) :
    exists β, Simulated α σ (.snapshot i index data)
      (σ.resume i ((σ.raft i).snapshot index data) fun rf => σ.setRaft i rf) β := by
  have hnode := h.node i
  rcases hnode.held with ⟨s, hs, _⟩
  rcases Raft.snapshot_effect hs hnode.commit index data with ⟨rf, heq, heffect⟩
  rcases snapshotEffect_commit heffect with ⟨hcommit, hstatus⟩
  rw [heq]
  refine ⟨α, simulated_setRaft hb h (Steps.refl α) (hnode.compact heffect) List.prefix_rfl
    rfl hcommit ?_⟩
  intro hl
  rw [← hstatus]
  exact hl

/-!
# Snapshot calls
-/

/-- A snapshot step that leaves logs, commit indices and requests as they were. -/
private theorem simulated_snapshotCall {a : Action n} {v : Fin n} {β : Logs n}
    {rf : Raft n} {k : Nat} {call next : SnapshotCall n} (hb : (raftLogs n).Ballots α)
    (h : Refines α σ) (hk : σ.snapshotCalls[k]? = some call)
    (hsteps : (raftLogs n).Steps v α β) (hv : Represents β v rf)
    (hlog : β.log = α.log) (hlead : β.leader = α.leader)
    (hcommit : rf.commitIndex = (σ.raft v).commitIndex)
    (hstatus : rf.status = .leader -> (σ.raft v).status = .leader)
    (hcarry : forall args, next.Carries args -> call.Carries args) :
    Simulated α σ a
      { σ.setRaft v rf with snapshotCalls := σ.snapshotCalls.set k next } β := by
  have hgrow := hsteps.moves.grows hb
  refine simulated_quiet hb h hsteps hv (touches_setServer σ v _) ?_ hcommit hstatus
    ?_ ?_ ((h.snapshots.grow hgrow).set hk hcarry) (fun _ => same_appends rfl)
    (fun _ => set_snapshots hk hcarry)
  · rw [hlog]
  · change Elections β _ (σ.setRaft v rf).votedNums
    rw [votedNums_setRaft]
    exact h.elections.grow hgrow hlead
  · change Rounds β _ (σ.setRaft v rf).appendNums
    rw [appendNums_setRaft]
    exact h.rounds.grow hgrow

/-- What a node with a sound commit index snapshots is committed. -/
theorem Sound.snapshotCommitted (hs : Sound α σ) {i : Fin n}
    (hnode : Represents α i (σ.raft i)) {args : InstallSnapshotRequest}
    {M : List LogEntry} (hreq : SnapshotRequest α args M) (hlog : M <+: α.log i)
    (hlen : (M.length : Int) ≤ (σ.raft i).commitIndex)
    (hterm : args.term = (σ.raft i).currentTerm) : SnapshotCommitted α args := by
  refine ⟨M, hreq, ?_⟩
  have hpre : M <+: (α.log i).take (σ.raft i).commitIndex.toNat :=
    List.prefix_take_iff.mpr ⟨hlog, by omega⟩
  rw [hterm, hnode.term]
  exact (hs.commit i).of_isPrefix hpre

theorem simulated_leaderSendSnapShot [Archive] (hb : (raftLogs n).Ballots α)
    (h : Refines α σ) {k : Nat} {call : SnapshotCall n} :
    exists β, Simulated α σ (.leaderSendSnapShot k) (σ.leaderSendSnapShot k call) β := by
  have hnode := h.node call.caller
  rcases hnode.snapshotRequest hb with ⟨M, hreq, hlog, hlen⟩
  have hcarries : forall {args},
      SnapshotCall.Carries
        { call with phase := .requested (σ.raft call.caller).leaderSendSnapShot.2 } args ->
      args = (σ.raft call.caller).leaderSendSnapShot.2 :=
    SnapshotCall.eq_of_requested rfl
  have hv : Represents α call.caller (σ.raft call.caller).leaderSendSnapShot.1 :=
    hnode.congr rfl rfl rfl rfl rfl rfl rfl rfl id
  refine ⟨α, simulated_quiet hb h (Steps.refl α) hv (touches_setServer σ call.caller _)
    List.prefix_rfl rfl id ?_ ?_ ?_ (fun _ => same_appends rfl) ?_⟩
  · change Elections α _ (σ.setRaft call.caller _).votedNums
    rw [votedNums_setRaft]
    exact h.elections
  · change Rounds α _ (σ.setRaft call.caller _).appendNums
    rw [appendNums_setRaft]
    exact h.rounds
  · intro c hc args hargs
    rcases List.mem_or_eq_of_mem_set hc with hin | rfl
    · exact h.snapshots c hin args hargs
    · rw [hcarries hargs]
      exact ⟨M, hreq⟩
  · intro hs c hc args hargs
    rcases List.mem_or_eq_of_mem_set hc with hin | rfl
    · exact Or.inl ⟨c, hin, hargs⟩
    · rw [hcarries hargs]
      exact Or.inr (hs.snapshotCommitted hnode hreq hlog hlen rfl)

theorem KeepsForeignTail.of_follow {rf : Raft n} {args : InstallSnapshotRequest}
    (hle : rf.currentTerm ≤ args.term) (h : KeepsForeignTail (rf.follow args.term) args) :
    KeepsForeignTail rf args := by
  rcases h with ⟨_, hlt, hlong, held, hheld, hne⟩
  rw [Raft.follow_eq] at hlt hlong hheld
  exact ⟨hle, hlt, hlong, held, hheld, hne⟩

/-- Taking over a committed log keeps what was committed before. -/
private theorem commit_installed {v : Fin n} {β γ : Logs n} {M : List LogEntry} {c : Int}
    (hb : (raftLogs n).Ballots β) (hs : (raftLogs n).Safe β)
    (hM : (raftLogs n).Committed β M (β.term v)) (hgrow : Grows β γ)
    (hkeep : γ.log v = keep M (β.log v)) (hlen : c ≤ (β.log v).length)
    (hold : (raftLogs n).Committed β ((β.log v).take c.toNat) (β.term v)) :
    (raftLogs n).Committed γ ((γ.log v).take (max c M.length).toNat) (γ.term v) := by
  rw [hkeep]
  rcases le_total c M.length with hle | hle
  · rw [max_eq_right hle, Int.toNat_natCast,
      take_eq_of_isPrefix (prefix_keep_self M (β.log v)) (Nat.le_refl _), List.take_length]
    exact hM.mono hgrow (hgrow.term v)
  · have hpre : (β.log v).take c.toNat <+: keep M (β.log v) :=
      hs.committed_keep_committed hb hold (List.take_prefix _ _) hM
    rw [max_eq_left hle, take_eq_of_take_isPrefix hpre (by omega)]
    exact hold.mono hgrow (hgrow.term v)

/-- While all is sound, the log a snapshot covers can be taken committed. -/
private theorem carried_log (h : Refines α σ) {c : SnapshotCall n}
    (hc : c ∈ σ.snapshotCalls) {args : InstallSnapshotRequest} (hargs : c.Carries args) :
    exists M, SnapshotRequest α args M ∧
      (Sound α σ -> (raftLogs n).Committed α M args.term) := by
  by_cases hs : Sound α σ
  · rcases hs.snapshot c hc args hargs with ⟨M, hreq, hcom⟩
    exact ⟨M, hreq, fun _ => hcom⟩
  · rcases h.snapshots c hc args hargs with ⟨M, hreq⟩
    exact ⟨M, hreq, fun hs' => absurd hs' hs⟩

theorem simulated_installSnapshot [Archive] (hb : (raftLogs n).Ballots α)
    (h : Refines α σ) {k : Nat} {call : SnapshotCall n} {args : InstallSnapshotRequest}
    (hk : σ.snapshotCalls[k]? = some call) (hphase : call.phase = .requested args) :
    exists β, Simulated α σ (.installSnapshot k) (σ.installSnapshot k call args) β := by
  have hcall := List.mem_of_getElem? hk
  have hnode := h.node call.callee
  have hcarry : forall {reply : InstallSnapshotResponse} {args' : InstallSnapshotRequest},
      SnapshotCall.Carries { call with phase := .replied args reply } args' ->
      call.Carries args' :=
    SnapshotCall.carries_of_replied hphase
  have hrequest : call.request = some args := by
    rw [SnapshotCall.request, hphase]
  unfold Cluster.installSnapshot resume
  cases houtcome : (σ.raft call.callee).installSnapshot args with
  | error fault => exact ⟨α, simulated_stop hb h call.callee fault⟩
  | ok result =>
      rcases result with ⟨rf, reply, msg⟩
      cases Raft.installSnapshot_effect houtcome with
      | stale _ =>
          exact ⟨α, simulated_snapshotCall hb h hk (Steps.refl α) hnode rfl rfl rfl id
            fun _ => hcarry⟩
      | @outdated persister hle _ =>
          rcases hnode.learn hb hle with ⟨β, hsteps, hv, _, hlog, hlead⟩
          have hfollow : Represents β call.callee
              ((σ.raft call.callee).follow args.term) := hv.follower rfl
          have hfinal : Represents β call.callee
              { (σ.raft call.callee).follow args.term with persister := persister } :=
            hfollow.congr rfl rfl rfl rfl rfl rfl rfl rfl id
          exact ⟨β, simulated_snapshotCall hb h hk hsteps hfinal hlog hlead
            (Raft.follow_commitIndex _ _) nofun fun _ => hcarry⟩
      | @installed persister logs _ hle hlt hlogs _ =>
          rcases hnode.learn hb hle with ⟨β, hsteps, hv, hbterm, hlog, hlead⟩
          have hgrow := hsteps.moves.grows hb
          have hb' := hsteps.moves.ballots hb
          have hfollow : Represents β call.callee
              ((σ.raft call.callee).follow args.term) := hv.follower rfl
          have hlt' : ((σ.raft call.callee).follow args.term).lastSnapshotIncludeIndex <
              args.lastSnapshotIncludeIndex := by
            rw [Raft.follow_lastSnapshotIncludeIndex]
            exact hlt
          have hlogs' : ((σ.raft call.callee).follow args.term).logsBeyond
              args.lastSnapshotIncludeIndex = .ok logs := by
            rw [Raft.follow_eq]
            exact hlogs
          rcases carried_log h hcall (Or.inl hphase) with ⟨M, hreq, hcom⟩
          rcases hfollow.install hb' (hreq.mono hgrow) (Raft.follow_currentTerm hle) rfl hlt'
            hlogs' persister with ⟨γ, hmoves, hv', hlead', hclean⟩
          rw [Raft.follow_commitIndex, Raft.follow_lastApplied] at hv'
          have hgrow' := hmoves.grows hb'
          have hall := hsteps.moves.trans hmoves
          refine ⟨γ, simulated_moved hb h hall hv' (touches_setServer σ call.callee _) rfl
            nofun ?_ ?_ ((h.snapshots.grow (hgrow.trans hgrow')).set hk fun _ => hcarry) ?_⟩
          · change Elections γ _ (σ.setRaft call.callee _).votedNums
            rw [votedNums_setRaft]
            exact h.elections.grow (hgrow.trans hgrow') (hlead'.trans hlead)
          · change Rounds γ _ (σ.setRaft call.callee _).appendNums
            rw [appendNums_setRaft]
            exact h.rounds.grow (hgrow.trans hgrow')
          · intro hs hcl
            have hsafe := hsteps.safe hb hs.safe
            have hcomM : (raftLogs n).Committed β M args.term :=
              (hcom hs).mono hgrow (le_refl _)
            have hforeign : ¬ KeepsForeignTail
                ((σ.raft call.callee).follow args.term) args :=
              fun hkeep => hcl.2 call hk args hrequest (KeepsForeignTail.of_follow hle hkeep)
            rcases hclean hsafe hcomM hforeign with ⟨hsteps', hkeep⟩
            refine sound_update hb h (hsteps.trans hsteps')
              (touches_setServer σ call.callee _) hs ?_ (same_appends rfl)
              (set_snapshots hk fun _ => hcarry)
            rw [← hbterm] at hcomM
            change (raftLogs n).Committed γ ((γ.log call.callee).take
              (max (σ.raft call.callee).commitIndex
                args.lastSnapshotIncludeIndex).toNat) (γ.term call.callee)
            rw [hreq.index]
            refine commit_installed hb' hsafe hcomM hgrow' hkeep ?_ ?_
            · rw [hlog]
              exact hnode.commit
            · rw [hlog]
              exact (hs.commit call.callee).mono hgrow (hgrow.term _)

theorem simulated_installSnapshotReply [Archive] (hb : (raftLogs n).Ballots α)
    (h : Refines α σ) {k : Nat} {call : SnapshotCall n} {args : InstallSnapshotRequest}
    {reply : InstallSnapshotResponse} (hk : σ.snapshotCalls[k]? = some call) :
    exists β, Simulated α σ (.installSnapshotReply k)
      (σ.installSnapshotReply k call args reply) β := by
  have hnode := h.node call.caller
  unfold Cluster.installSnapshotReply
  generalize hrun : (σ.raft call.caller).leaderSendSnapShotReply call.callee args reply = rf
  cases Raft.leaderSendSnapShotReply_effect hrun with
  | ignored =>
      exact ⟨α, simulated_snapshotCall hb h hk (Steps.refl α) hnode rfl rfl rfl id
        fun _ => SnapshotCall.carries_of_returned⟩
  | newerTerm hnewer =>
      rcases hnode.learn hb hnewer.le with ⟨β, hsteps, hv, _, hlog, hlead⟩
      rw [Raft.observe, if_pos hnewer] at hv
      exact ⟨β, simulated_snapshotCall hb h hk hsteps hv.persist hlog hlead rfl
        (by intro hl; cases hl) fun _ => SnapshotCall.carries_of_returned⟩
  | noted _ =>
      exact ⟨α, simulated_snapshotCall hb h hk (Steps.refl α)
        (hnode.congr rfl rfl rfl rfl rfl rfl rfl rfl id) rfl rfl rfl id
        fun _ => SnapshotCall.carries_of_returned⟩

end RaftCore
end KVRaft
