import KVRaft.RaftCore.Cluster.ElectionSteps

/-!
# Replication steps

Commands, heartbeats, accepted entries and their replies are steps of the
abstract protocol; an accepted request that mixes two logs is a slip.
-/

namespace KVRaft
namespace RaftCore

open Foundation LogSystem Cluster

variable {n : Nat} {α : Logs n} {σ : Cluster n}

/-!
# Commands and heartbeats
-/

theorem simulated_start [Archive] (hb : (raftLogs n).Ballots α) (h : Refines α σ)
    (i : Fin n) (command : Bytes) :
    exists β, Simulated α σ (.start i command)
      (σ.setRaft i ((σ.raft i).start command).1) β := by
  rcases (h.node i).extend command with ⟨β, hsteps, hv, hlog, hlead, hcommit, hstatus⟩
  refine ⟨β, simulated_setRaft hb h hsteps hv hlog hlead hcommit ?_⟩
  intro hl
  rw [← hstatus]
  exact hl

theorem mem_appendCallsOf {i : Fin n} {k : Nat} {messages : List (Raft.Outgoing n)}
    {c : AppendCall n} (hc : c ∈ appendCallsOf i k messages) :
    c.caller = i ∧ c.counter = k ∧ c.phase = .requested ∧
      Raft.Outgoing.appendEntries c.callee c.args ∈ messages := by
  rcases List.mem_filterMap.mp hc with ⟨message, hmessage, heq⟩
  cases message with
  | appendEntries server args =>
      cases heq
      exact ⟨rfl, rfl, rfl, hmessage⟩
  | snapShot server => cases heq

theorem appendCallsOf_callees (i : Fin n) (k : Nat) (messages : List (Raft.Outgoing n)) :
    ((appendCallsOf i k messages).map Call.callee).Sublist
      (messages.map Raft.Outgoing.server) := by
  induction messages with
  | nil => exact List.Sublist.slnil
  | cons message rest ih =>
      cases message with
      | appendEntries server args => exact ih.cons_cons server
      | snapShot server => exact ih.cons server

theorem mem_snapshotCallsOf {i : Fin n} {messages : List (Raft.Outgoing n)}
    {c : SnapshotCall n} (hc : c ∈ snapshotCallsOf i messages) : c.phase = .started := by
  rcases List.mem_filterMap.mp hc with ⟨message, _, heq⟩
  cases message with
  | appendEntries server args => cases heq
  | snapShot server =>
      cases heq
      rfl

theorem not_carries_started {c : SnapshotCall n} (h : c.phase = .started)
    {args : InstallSnapshotRequest} : ¬ c.Carries args := by
  rintro (hphase | ⟨reply, hphase⟩)
  · rw [h] at hphase
    cases hphase
  · rw [h] at hphase
    cases hphase

theorem doHeartBeat_eq (σ : Cluster n) (i : Fin n) :
    σ.doHeartBeat i =
      if (σ.raft i).status = .leader then
        { σ.setServer i
            { σ.servers i with
              stopped := ((σ.raft i).heartBeats (Raft.othersOf (σ.raft i).me)).2
              appendNums := σ.appendNums i ++ [1] } with
          appendCalls := σ.appendCalls ++ appendCallsOf i (σ.appendNums i).length
            ((σ.raft i).heartBeats (Raft.othersOf (σ.raft i).me)).1
          snapshotCalls := σ.snapshotCalls ++ snapshotCallsOf i
            ((σ.raft i).heartBeats (Raft.othersOf (σ.raft i).me)).1 }
      else
        σ := by
  unfold Cluster.doHeartBeat Raft.doHeartBeat
  by_cases hstatus : (σ.raft i).status = .leader
  · simp only [if_pos hstatus]
    rfl
  · simp only [if_neg hstatus]

theorem simulated_doHeartBeat (hb : (raftLogs n).Ballots α) (h : Refines α σ)
    (i : Fin n) : exists β, Simulated α σ (.doHeartBeat i) (σ.doHeartBeat i) β := by
  rw [doHeartBeat_eq]
  by_cases hstatus : (σ.raft i).status = .leader
  · rw [if_pos hstatus]
    rcases (h.node i).ownAck hstatus with
      ⟨β, hsteps, hv, hack, hlog, hlead, hleaderLog, _⟩
    have hgrow := hsteps.moves.grows hb
    have hb' := hsteps.moves.ballots hb
    have hsend : forall c : AppendCall n,
        c ∈ appendCallsOf i (σ.appendNums i).length
          ((σ.raft i).heartBeats (Raft.othersOf (σ.raft i).me)).1 ->
        exists p, AppendRequest β i c.args (α.log i) p ∧
          c.args.term = (σ.raft i).currentTerm ∧
          c.args.leaderCommit = (σ.raft i).commitIndex := by
      intro c hc
      rcases mem_appendCallsOf hc with ⟨_, _, _, hmem⟩
      have hreq := hv.appendRequest hb' hstatus (Raft.mem_heartBeats hmem)
      rw [hlog] at hreq
      exact hreq
    refine ⟨β, simulated_quiet hb h hsteps hv (touches_setServer σ i _) ?_ rfl id ?_ ?_ ?_
      ?_ ?_⟩
    · rw [hlog]
    · change Elections β _ (σ.setServer i _).votedNums
      rw [votedNums_setServer]
      · exact h.elections.grow hgrow hlead
      · rfl
    · change Rounds β _ (σ.setServer i _).appendNums
      rw [appendNums_update]
      refine (h.rounds.grow hgrow).send ?_ ?_ hack
      · intro c hc
        rcases mem_appendCallsOf hc with ⟨hcaller, hcounter, hphase, hmem⟩
        rcases hsend c hc with ⟨p, hreq, hterm, _⟩
        have hother := (Raft.heartBeats_servers _ _).subset (List.mem_map_of_mem hmem)
        rw [Raft.mem_othersOf, (h.node i).me] at hother
        exact ⟨hcaller, hother, hcounter, hphase, hterm, p, hreq⟩
      · exact ((Raft.othersOf_nodup _).sublist (Raft.heartBeats_servers _ _)).sublist
          (appendCallsOf_callees _ _ _)
    · intro c hc args hargs
      rcases List.mem_append.mp hc with hin | hin
      · exact h.snapshots.grow hgrow c hin args hargs
      · exact absurd hargs (not_carries_started (mem_snapshotCallsOf hin))
    · intro hs c hc
      rcases List.mem_append.mp hc with hin | hin
      · exact Or.inl ⟨c, hin, rfl⟩
      · rcases hsend c hin with ⟨p, hreq, hterm, hcom⟩
        rcases (h.node i).leads hstatus with ⟨_, _, hown⟩
        right
        constructor
        · rw [hcom, hreq.sent]
          exact (h.node i).commit
        · rw [hcom, hterm, hleaderLog, ← hown, (h.node i).term]
          exact (hs.commit i).mono hgrow (le_refl _)
    · intro _ c hc args hargs
      rcases List.mem_append.mp hc with hin | hin
      · exact Or.inl ⟨c, hin, hargs⟩
      · exact absurd hargs (not_carries_started (mem_snapshotCallsOf hin))
  · rw [if_neg hstatus]
    exact ⟨α, simulated_same hb h i⟩

/-!
# Requests
-/

theorem MixesLogs.of_follow {rf : Raft n} {args : AppendEntriesArgs}
    (hle : rf.currentTerm ≤ args.term) (h : MixesLogs (rf.follow args.term) args) :
    MixesLogs rf args := by
  rcases h with ⟨_, hmatch, hconflict, hlong⟩
  rw [Raft.follow_matchLog] at hmatch
  rw [Raft.follow_eq] at hconflict hlong
  exact ⟨hle, hmatch, hconflict, hlong⟩

/-- A request whose entries are not accepted. -/
private theorem simulated_refused {k : Nat} {call : AppendCall n} {β : Logs n} {rf : Raft n}
    {reply : AppendEntriesReply} (hb : (raftLogs n).Ballots α) (h : Refines α σ)
    (hk : σ.appendCalls[k]? = some call) (hphase : call.phase = .requested)
    (hsteps : (raftLogs n).Steps call.callee α β) (hv : Represents β call.callee rf)
    (hlog : β.log = α.log) (hlead : β.leader = α.leader)
    (hcommit : rf.commitIndex = (σ.raft call.callee).commitIndex)
    (hstatus : rf.status = .leader -> (σ.raft call.callee).status = .leader)
    (hno : reply.success = false) :
    Simulated α σ (.appendEntries k)
      { σ.setRaft call.callee rf with
        appendCalls := σ.appendCalls.set k (call.answer reply) } β := by
  have hgrow := hsteps.moves.grows hb
  refine simulated_quiet hb h hsteps hv (touches_setServer σ call.callee _) ?_ hcommit
    hstatus ?_ ?_ (h.snapshots.grow hgrow)
    (fun _ => set_appends hk (sameCall_answer call reply)) (fun _ => same_snapshots rfl)
  · rw [hlog]
  · change Elections β _ (σ.setRaft call.callee rf).votedNums
    rw [votedNums_setRaft]
    exact h.elections.grow hgrow hlead
  · change Rounds β _ (σ.setRaft call.callee rf).appendNums
    rw [appendNums_setRaft]
    refine (h.rounds.grow hgrow).answer hk hphase ?_
    intro hyes
    rw [hno] at hyes
    cases hyes

/-- Following the leader's commit index is sound for a log that contains what
was sent. -/
private theorem commit_accepted {v : Fin n} {β γ : Logs n} {rf : Raft n}
    {args : AppendEntriesArgs} {M : List LogEntry} {c : Fin n} {p : Nat}
    (hb : (raftLogs n).Ballots β) (hs : (raftLogs n).Safe β)
    (hreq : AppendRequest β c args M p) (hterm : β.term v = args.term)
    (hcom : CommitRequest β args) (hgrow : Grows β γ) (hv : Represents γ v rf)
    (hkeep : γ.log v = keep M (β.log v)) (hlen : rf.commitIndex ≤ (β.log v).length)
    (hold : (raftLogs n).Committed β ((β.log v).take rf.commitIndex.toNat) (β.term v)) :
    (raftLogs n).Committed γ
      ((γ.log v).take (rf.advanceCommit args.leaderCommit).commitIndex.toNat)
      (γ.term v) := by
  have hMkeep := prefix_keep_self M (β.log v)
  rw [← hkeep] at hMkeep
  have hsent := hcom.le
  rw [hreq.sent] at hsent
  unfold Raft.advanceCommit
  by_cases hlt : args.leaderCommit > rf.commitIndex
  · rcases hv.held with ⟨s, hs', _⟩
    have hlast : args.leaderCommit ≤ rf.getLastLogIndex := by
      rw [hs'.lastIndex]
      have := hMkeep.length_le
      omega
    rw [if_pos hlt]
    change (raftLogs n).Committed γ
      ((γ.log v).take (min args.leaderCommit rf.getLastLogIndex).toNat) (γ.term v)
    rw [min_eq_left hlast, take_eq_of_isPrefix hMkeep (by omega),
      ← take_eq_of_isPrefix hreq.log (by omega)]
    refine hcom.committed.mono hgrow ?_
    rw [← hterm]
    exact hgrow.term v
  · rw [if_neg hlt]
    have hpre : (β.log v).take rf.commitIndex.toNat <+: keep M (β.log v) := by
      refine hs.committed_keep hb hold (List.take_prefix _ _) (le_refl _) (c := c) ?_ ?_
      · rw [hterm]
        exact hreq.leader
      · rw [hterm]
        exact hreq.log
    rw [hkeep, take_eq_of_take_isPrefix hpre (by omega)]
    exact hold.mono hgrow (hgrow.term v)

theorem simulated_appendEntries [Archive] (hb : (raftLogs n).Ballots α) (h : Refines α σ)
    {k : Nat} {call : AppendCall n} (hk : σ.appendCalls[k]? = some call)
    (hphase : call.phase = .requested) :
    exists β, Simulated α σ (.appendEntries k) (σ.appendEntries k call) β := by
  have hcall := List.mem_of_getElem? hk
  have hnode := h.node call.callee
  unfold Cluster.appendEntries resume
  cases houtcome : (σ.raft call.callee).appendEntries1 call.args with
  | error fault => exact ⟨α, simulated_stop hb h call.callee fault⟩
  | ok result =>
      rcases result with ⟨rf, reply⟩
      cases Raft.appendEntries1_effect houtcome with
      | stale _ hno _ =>
          exact ⟨α, simulated_refused hb h hk hphase (Steps.refl α) hnode rfl rfl rfl id hno⟩
      | tooNew hle _ hno _ _ =>
          rcases hnode.learn hb hle with ⟨β, hsteps, hv, _, hlog, hlead⟩
          exact ⟨β, simulated_refused hb h hk hphase hsteps (hv.follower rfl).persist hlog
            hlead (Raft.follow_commitIndex _ _) nofun hno⟩
      | mismatch hle _ _ hno _ =>
          rcases hnode.learn hb hle with ⟨β, hsteps, hv, _, hlog, hlead⟩
          exact ⟨β, simulated_refused hb h hk hphase hsteps (hv.follower rfl).persist hlog
            hlead (Raft.follow_commitIndex _ _) nofun hno⟩
      | @accepted rf1 _ hle hmatch hfold hcommit _ hterm =>
          rcases hnode.learn hb hle with ⟨β, hsteps, hv, hbterm, hlog, hlead⟩
          have hgrow := hsteps.moves.grows hb
          have hb' := hsteps.moves.ballots hb
          have hfollow : Represents β call.callee
              ((σ.raft call.callee).follow call.args.term) := hv.follower rfl
          have hcur := Raft.follow_currentTerm hle
          rcases h.rounds.request hcall with ⟨M, p, hreq⟩
          have hreq' := hreq.mono hgrow
          rw [← Raft.follow_matchLog (σ.raft call.callee) call.args.term] at hmatch
          rcases hfollow.accept hb' hreq' hcur rfl hmatch hfold with
            ⟨γ, hmoves, hv', hrf, hack, hlead', hclean⟩
          have hgrow' := hmoves.grows hb'
          have hall := hsteps.moves.trans hmoves
          have hstatus : rf1.status = .follower := by
            rw [hrf]
            rfl
          have hterm1 : rf1.currentTerm = call.args.term := by
            rw [hrf]
            exact hcur
          have hcommit1 : rf1.commitIndex = (σ.raft call.callee).commitIndex := by
            rw [hrf]
            exact Raft.follow_commitIndex _ _
          have hfinal : Represents γ call.callee
              (rf1.advanceCommit call.args.leaderCommit).persist :=
            (hv'.advance hstatus).persist
          have htouch : Touches σ
              { σ.setRaft call.callee (rf1.advanceCommit call.args.leaderCommit).persist with
                appendCalls := σ.appendCalls.set k (call.answer reply) }
              call.callee (rf1.advanceCommit call.args.leaderCommit).persist :=
            touches_setServer σ call.callee _
          have hreply : reply.term = call.args.term := by
            rw [hterm, Raft.advanceCommit_eq]
            exact hterm1
          refine ⟨γ, simulated_moved hb h hall hfinal htouch ?_ nofun ?_ ?_
            (h.snapshots.grow (hgrow.trans hgrow')) ?_⟩
          · rw [Raft.persist_status, Raft.advanceCommit_eq]
            exact hstatus
          · change Elections γ _ (σ.setRaft call.callee _).votedNums
            rw [votedNums_setRaft]
            exact h.elections.grow (hgrow.trans hgrow') (hlead'.trans hlead)
          · change Rounds γ _ (σ.setRaft call.callee _).appendNums
            rw [appendNums_setRaft]
            refine (h.rounds.grow (hgrow.trans hgrow')).answer hk hphase ?_
            intro _
            rw [hreq.sent]
            exact ⟨hreply, hack⟩
          · intro hs hcl
            have hsafe := hsteps.safe hb hs.safe
            have hmix : ¬ MixesLogs ((σ.raft call.callee).follow call.args.term)
                call.args :=
              fun hm => hcl.1 call hk (MixesLogs.of_follow hle hm)
            rcases hclean hsafe hmix with ⟨hsteps', hkeep⟩
            refine sound_update hb h (hsteps.trans hsteps') htouch hs ?_
              (set_appends hk (sameCall_answer call reply)) (same_snapshots rfl)
            rw [Raft.persist_commitIndex]
            refine commit_accepted hb' hsafe hreq' hbterm
              ((hs.leaderCommit call hcall).mono (h.rounds.sent_le hcall) hgrow) hgrow'
              hv' hkeep ?_ ?_
            · rw [hcommit1, hlog]
              exact hnode.commit
            · rw [hcommit1, hlog]
              exact (hs.commit call.callee).mono hgrow (hgrow.term _)

/-!
# Replies
-/

/-- The thread of a replied call faults, or it leaves its node and its counter as its
handler does and the call is over. -/
theorem appendEntriesReply_cases (σ : Cluster n) (k : Nat) (call : AppendCall n)
    (reply : AppendEntriesReply) :
    (exists fault, σ.appendEntriesReply k call reply = σ.stop call.caller fault) ∨
      exists rf appendNums,
        (σ.raft call.caller).sendAppendEntries call.callee call.args reply
          ((σ.appendNums call.caller).getD call.counter 0) = .ok (rf, appendNums) ∧
        σ.appendEntriesReply k call reply =
          { σ.setServer call.caller
              { σ.servers call.caller with
                raft := rf
                appendNums :=
                  (σ.servers call.caller).appendNums.set call.counter appendNums } with
            appendCalls := σ.appendCalls.set k (call.finish reply) } := by
  unfold Cluster.appendEntriesReply resume
  cases houtcome : (σ.servers call.caller).raft.sendAppendEntries call.callee call.args reply
      ((σ.servers call.caller).appendNums.getD call.counter 0) with
  | error fault =>
      left
      exact ⟨fault, by simp only [houtcome]⟩
  | ok result =>
      rcases result with ⟨rf, appendNums⟩
      right
      exact ⟨rf, appendNums, houtcome, by simp only [houtcome]⟩

/-- A thread that does not fault leaves its node as its handler does. -/
theorem appendEntriesReply_raft {k : Nat} {call : AppendCall n} {reply : AppendEntriesReply}
    {rf : Raft n} {appendNums : Nat}
    (hrun : (σ.raft call.caller).sendAppendEntries call.callee call.args reply
      ((σ.appendNums call.caller).getD call.counter 0) = .ok (rf, appendNums)) :
    (σ.appendEntriesReply k call reply).raft call.caller = rf := by
  change (σ.servers call.caller).raft.sendAppendEntries call.callee call.args reply
    ((σ.servers call.caller).appendNums.getD call.counter 0) = _ at hrun
  unfold Cluster.appendEntriesReply resume
  simp only [hrun]
  refine (touches_setServer σ call.caller _ call.caller).trans ?_
  rw [if_pos rfl]

theorem Cluster.StepEffect.appendEntriesReply_raft [Archive] {σ' : Cluster n} {k : Nat}
    {call : AppendCall n} {reply : AppendEntriesReply} {rf : Raft n} {appendNums : Nat}
    (hstep : StepEffect σ (.appendEntriesReply k) σ') (hk : σ.appendCalls[k]? = some call)
    (hphase : call.phase = .replied reply)
    (hrun : (σ.raft call.caller).sendAppendEntries call.callee call.args reply
      ((σ.appendNums call.caller).getD call.counter 0) = .ok (rf, appendNums)) :
    σ'.raft call.caller = rf := by
  cases hstep with
  | appendEntriesReply hk' _ hphase' =>
      rw [hk] at hk'
      cases hk'
      rw [hphase] at hphase'
      cases hphase'
      exact RaftCore.appendEntriesReply_raft hrun

/-- A reply that commits nothing. -/
private theorem simulated_appendReply {k : Nat} {call : AppendCall n} {β : Logs n}
    {rf : Raft n} {reply : AppendEntriesReply} {appendNums : Nat}
    (hb : (raftLogs n).Ballots α) (h : Refines α σ)
    (hk : σ.appendCalls[k]? = some call) (hphase : call.phase = .replied reply)
    (hsteps : (raftLogs n).Steps call.caller α β) (hv : Represents β call.caller rf)
    (hlog : β.log = α.log) (hlead : β.leader = α.leader)
    (hcommit : rf.commitIndex = (σ.raft call.caller).commitIndex)
    (hstatus : rf.status = .leader -> (σ.raft call.caller).status = .leader)
    (hcount : appendNums ≤ 1 + (tally (σ.appendCalls.set k (call.finish reply))
      AppendEntriesReply.success call.caller call.counter).card) :
    Simulated α σ (.appendEntriesReply k)
      { σ.setServer call.caller
          { σ.servers call.caller with
            raft := rf
            appendNums :=
              (σ.servers call.caller).appendNums.set call.counter appendNums } with
        appendCalls := σ.appendCalls.set k (call.finish reply) } β := by
  have hgrow := hsteps.moves.grows hb
  refine simulated_quiet hb h hsteps hv (touches_setServer σ call.caller _) ?_ hcommit
    hstatus ?_ ?_ (h.snapshots.grow hgrow)
    (fun _ => set_appends hk (sameCall_finish call reply)) (fun _ => same_snapshots rfl)
  · rw [hlog]
  · change Elections β _ (σ.setServer call.caller _).votedNums
    rw [votedNums_setServer]
    · exact h.elections.grow hgrow hlead
    · rfl
  · change Rounds β _ (σ.setServer call.caller _).appendNums
    rw [appendNums_update]
    exact (h.rounds.grow hgrow).finish hk hphase hcount

/-- Recording what a peer holds touches the leader's bookkeeping only. -/
theorem Represents.recordMatch {v : Fin n} {rf : Raft n} (h : Represents α v rf)
    (server : Fin n) (args : AppendEntriesArgs) :
    Represents α v (rf.recordMatch server args) :=
  h.congr rfl rfl rfl rfl rfl rfl rfl rfl id

theorem Represents.commitTo {v : Fin n} {rf : Raft n} (h : Represents α v rf) {c : Int}
    (hlo : rf.commitIndex ≤ c) (hhi : c ≤ (α.log v).length) :
    Represents α v { rf with commitIndex := c } where
  me := h.me
  term := h.term
  term_nonneg := h.term_nonneg
  votedFor := h.votedFor
  held := by
    rcases h.held with ⟨s, hs, happ⟩
    exact ⟨s, hs.congr rfl rfl rfl, happ⟩
  applied := h.applied.trans hlo
  commit := hhi
  leads := h.leads

/-- The leader raises its commit index to what a majority has acknowledged. -/
private theorem simulated_raised {k : Nat} {call : AppendCall n}
    {reply : AppendEntriesReply} {rf : Raft n} (hb : (raftLogs n).Ballots α)
    (h : Refines α σ) (hk : σ.appendCalls[k]? = some call)
    (hphase : call.phase = .replied reply)
    (hleader : (σ.raft call.caller).status = .leader) (hv : Represents α call.caller rf)
    (hterm : rf.currentTerm = (σ.raft call.caller).currentTerm)
    (hcommit : rf.commitIndex = max (σ.raft call.caller).commitIndex call.args.sent)
    (hset : (raftLogs n).Settled α (σ.raft call.caller).currentTerm call.args.sent) :
    Simulated α σ (.appendEntriesReply k)
      { σ.setServer call.caller
          { σ.servers call.caller with
            raft := rf
            appendNums := (σ.servers call.caller).appendNums.set call.counter 0 } with
        appendCalls := σ.appendCalls.set k (call.finish reply) } α := by
  have hnode := h.node call.caller
  have htouch : Touches σ
      { σ.setServer call.caller
          { σ.servers call.caller with
            raft := rf
            appendNums := (σ.servers call.caller).appendNums.set call.counter 0 } with
        appendCalls := σ.appendCalls.set k (call.finish reply) }
      call.caller rf := touches_setServer σ call.caller _
  exact
    { moves := ⟨call.caller, Moves.refl α⟩
      refines :=
        { node := node_update hb h (Moves.refl α) hv htouch
          elections := by
            change Elections α _ (σ.setServer call.caller _).votedNums
            rw [votedNums_setServer]
            · exact h.elections
            · rfl
          rounds := by
            change Rounds α _ (σ.setServer call.caller _).appendNums
            rw [appendNums_update]
            exact h.rounds.finish hk hphase (Nat.zero_le _)
          snapshots := h.snapshots }
      crowned := by
        intro i hno hl
        rw [htouch i] at hl
        by_cases hi : i = call.caller
        · rw [hi] at hno
          exact absurd hleader hno
        · rw [if_neg hi] at hl
          exact absurd hl hno
      settled := by
        intro _ _ i hlt
        rw [htouch i] at hlt ⊢
        by_cases hi : i = call.caller
        · rw [if_pos hi, hi, hcommit] at hlt
          have hmax : max (σ.raft call.caller).commitIndex (call.args.sent : Int) =
              call.args.sent := by
            omega
          rw [if_pos hi, hterm, hcommit, hmax, Int.toNat_natCast]
          exact hset
        · rw [if_neg hi] at hlt
          exact absurd hlt (lt_irrefl _)
      sound := by
        intro hsound _
        refine sound_update hb h (Steps.refl α) htouch hsound ?_
          (set_appends hk (sameCall_finish call reply)) (same_snapshots rfl)
        rw [hcommit]
        rcases le_total (call.args.sent : Int) (σ.raft call.caller).commitIndex with
          hle | hle
        · rw [max_eq_left hle]
          exact hsound.commit call.caller
        · rw [max_eq_right hle, Int.toNat_natCast]
          refine Or.inr ⟨(σ.raft call.caller).currentTerm, call.args.sent, ?_, hset, ?_⟩
          · rw [hnode.term]
          · rw [(hnode.leads hleader).2.2] }

private theorem simulated_majority {k : Nat} {call : AppendCall n}
    {reply : AppendEntriesReply} (hb : (raftLogs n).Ballots α) (h : Refines α σ)
    (hk : σ.appendCalls[k]? = some call) (hphase : call.phase = .replied reply)
    (hterm : reply.term = (σ.raft call.caller).currentTerm)
    (hleader : (σ.raft call.caller).status = .leader) (hyes : reply.success = true)
    (hquorum : n / 2 + 1 ≤ 1 + (tally (σ.appendCalls.set k (call.finish reply))
      AppendEntriesReply.success call.caller call.counter).card)
    (hcommit : (((σ.raft call.caller).recordMatch call.callee call.args).commitSent
      call.args).commitIndex ≤ (σ.raft call.caller).getLastLogIndex) :
    Simulated α σ (.appendEntriesReply k)
      { σ.setServer call.caller
          { σ.servers call.caller with
            raft := ((σ.raft call.caller).recordMatch call.callee call.args).commitSent
              call.args
            appendNums := (σ.servers call.caller).appendNums.set call.counter 0 } with
        appendCalls := σ.appendCalls.set k (call.finish reply) } α := by
  have hcall := List.mem_of_getElem? hk
  have hnode := h.node call.caller
  have hmatch := hnode.recordMatch call.callee call.args
  rcases h.rounds.request hcall with ⟨M, p, hreq⟩
  have hargs : call.args.term = (σ.raft call.caller).currentTerm :=
    ((h.rounds.accepted hcall (Or.inl hphase) hyes).1).symm.trans hterm
  have hrounds : Rounds α (σ.appendCalls.set k (call.finish reply))
      (setCounter σ.appendNums call.caller call.counter 0) :=
    h.rounds.finish hk hphase (Nat.zero_le _)
  rcases hnode.held with ⟨s, hs, _⟩
  rw [hs.lastIndex] at hcommit
  rcases Raft.commitSent_cases ((σ.raft call.caller).recordMatch call.callee call.args)
    call.args with hsame | ⟨hown, hraise⟩
  · rw [hsame]
    exact simulated_appendReply hb h hk hphase (Steps.refl α) hmatch rfl rfl rfl id
      (Nat.zero_le _)
  · have hlen : call.args.prevLogIndex + call.args.entriesSize = call.args.sent := by
      rw [hreq.length, hreq.sent]
    have hset : (raftLogs n).Settled α call.args.term call.args.sent := by
      have hin : call.finish reply ∈ σ.appendCalls.set k (call.finish reply) :=
        mem_set_found hk _
      refine hrounds.settled (c := call.finish reply) hin hquorum ?_
      change call.args.entries.getLast?.map LogEntry.logTerm = some call.args.term
      rw [hargs]
      exact hown
    rw [hargs] at hset
    rw [hlen] at hraise
    rw [hraise] at hcommit
    rw [hraise]
    exact simulated_raised hb h hk hphase hleader
      (hmatch.commitTo (le_max_left _ _) hcommit) rfl rfl hset

theorem simulated_appendEntriesReply (hb : (raftLogs n).Ballots α) (h : Refines α σ)
    {k : Nat} {call : AppendCall n} {reply : AppendEntriesReply}
    (hk : σ.appendCalls[k]? = some call) (hphase : call.phase = .replied reply) :
    exists β, Simulated α σ (.appendEntriesReply k) (σ.appendEntriesReply k call reply) β := by
  have hcall := List.mem_of_getElem? hk
  have hnode := h.node call.caller
  have hcount := h.rounds.count (counter_getD (h.rounds.counted hcall))
  have hcount' := hcount.trans (Nat.add_le_add_left (tally_finish_le hk hphase) 1)
  rcases appendEntriesReply_cases σ k call reply with ⟨fault, heq⟩ | ⟨rf, _, hrun, heq⟩
  · rw [heq]
    exact ⟨α, simulated_stop hb h call.caller fault⟩
  rw [heq]
  cases Raft.sendAppendEntries_effect hrun with
  | newerTerm hlt =>
      rcases hnode.learn hb hlt.le with ⟨β, hsteps, hv, _, hlog, hlead⟩
      rw [Raft.observe, if_pos hlt] at hv
      exact ⟨β, simulated_appendReply hb h hk hphase hsteps hv hlog hlead rfl
        (by intro hl; cases hl) hcount'⟩
  | ignored =>
      exact ⟨α, simulated_appendReply hb h hk hphase (Steps.refl α) hnode rfl rfl rfl id
        hcount'⟩
  | hinted _ _ _ _ =>
      exact ⟨α, simulated_appendReply hb h hk hphase (Steps.refl α)
        (hnode.congr rfl rfl rfl rfl rfl rfl rfl rfl id) rfl rfl rfl id hcount'⟩
  | counted _ _ hyes _ =>
      have hone := tally_finish_card h.rounds.distinct hk hphase hyes
      exact ⟨α, simulated_appendReply hb h hk hphase (Steps.refl α)
        (hnode.recordMatch call.callee call.args) rfl rfl rfl id (by omega)⟩
  | majority hterm hleader hyes hquorum hcommit =>
      have hone := tally_finish_card h.rounds.distinct hk hphase hyes
      exact ⟨α, simulated_majority hb h hk hphase hterm hleader hyes (by omega) hcommit⟩

end RaftCore
end KVRaft
