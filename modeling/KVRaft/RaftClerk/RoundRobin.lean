import Mathlib.Data.List.Chain
import KVRaft.RaftClerk.Sessions
import KVRaft.RaftCore.Raft.PlainArchive

/-!
# Round robin

A clerk sends one request to one server after the other, each time to the next one, and
never the same request twice to a server while there is one it has not asked since.
-/

namespace KVRaft
namespace RaftClerk

open Foundation KvServer

variable {n : Nat}

/-!
# Going round
-/

/-- Each server is the next one after the one before. -/
def InTurn (servers : List (Fin n)) : Prop :=
  servers.IsChain fun a b => b = Clerk.nextServer a

theorem InTurn.concat {servers : List (Fin n)} (h : InTurn servers) {last : Fin n}
    (hlast : servers.getLast? = some last) : InTurn (servers ++ [Clerk.nextServer last]) := by
  rw [InTurn, List.isChain_append]
  refine ⟨h, List.isChain_singleton _, ?_⟩
  intro a ha b hb
  rw [hlast] at ha
  cases ha
  cases hb
  rfl

/-- The servers after some place are those that follow it, modulo their number. -/
theorem InTurn.getElem? {servers : List (Fin n)} (h : InTurn servers) {k : Nat} {first : Fin n}
    (hfirst : servers[k]? = some first) {m : Nat} (hm : k + m < servers.length) :
    exists server, servers[k + m]? = some server ∧ server.val = (first.val + m) % n := by
  induction m with
  | zero => exact ⟨first, hfirst, (Nat.mod_eq_of_lt first.isLt).symm⟩
  | succ m ih =>
      rcases ih (Nat.lt_of_succ_lt hm) with ⟨server, hserver, hval⟩
      refine ⟨Clerk.nextServer server, ?_, ?_⟩
      · have hnext := List.isChain_iff_getElem.mp h (k + m) hm
        rcases List.getElem?_eq_some_iff.mp hserver with ⟨_, rfl⟩
        exact (List.getElem?_eq_getElem hm).trans (congrArg some hnext)
      · change (server.val + 1) % n = _
        rw [hval, Nat.mod_add_mod, Nat.add_assoc]

/-- As many tries as there are servers reach them all. -/
theorem InTurn.reaches {servers : List (Fin n)} (h : InTurn servers) {k : Nat}
    (hk : k + n ≤ servers.length) (server : Fin n) :
    exists m, m < n ∧ servers[k + m]? = some server := by
  have hlt : k < servers.length :=
    Nat.lt_of_lt_of_le (Nat.lt_add_of_pos_right server.pos) hk
  have hfirst := List.getElem?_eq_getElem hlt
  have hm : (server.val + n - (servers[k]).val) % n < n := Nat.mod_lt _ server.pos
  refine ⟨_, hm, ?_⟩
  rcases h.getElem? hfirst (Nat.lt_of_lt_of_le (Nat.add_lt_add_left hm k) hk) with
    ⟨found, hfound, hval⟩
  rw [hfound]
  apply congrArg some
  apply Fin.ext
  rw [hval, Nat.add_mod_mod]
  have hle : (servers[k]).val ≤ server.val + n :=
    Nat.le_trans (servers[k]).isLt.le (Nat.le_add_left _ _)
  rw [Nat.add_sub_cancel' hle, Nat.add_mod_right, Nat.mod_eq_of_lt server.isLt]

/-- Only a Get reads, and learns that there is no key. -/
def Apt (op : Op) : Phase -> Prop
  | .reading _ => op.operation = .get
  | .answered _ reply => reply.err = .errNoKey -> op.operation = .get
  | .replied _ reply => reply.err = .errNoKey -> op.operation = .get
  | _ => True

theorem apt_onCommit (op raftCommitOp : Op) (raftIndex : Int) :
    Apt op (onCommit op raftCommitOp raftIndex) := by
  unfold onCommit
  by_cases hsame : raftCommitOp.clientId = op.clientId ∧
      raftCommitOp.requestId = op.requestId
  · rw [if_pos hsame]
    by_cases hget : op.operation = .get
    · rw [if_pos hget]
      exact hget
    · rw [if_neg hget]
      exact nofun
  · rw [if_neg hsame]
    exact nofun

theorem apt_onTimeOut (kv : KvServer) (op : Op) (raftIndex : Int) (isLeader : Bool) :
    Apt op (kv.onTimeOut op raftIndex isLeader) := by
  unfold onTimeOut
  by_cases hget : op.operation = .get
  · rw [if_pos hget]
    by_cases hduplicate : (kv.ifRequestDuplicate op.clientId op.requestId && isLeader) = true
    · rw [if_pos hduplicate]
      exact hget
    · rw [if_neg hduplicate]
      exact fun _ => hget
  · rw [if_neg hget]
    by_cases hduplicate : kv.ifRequestDuplicate op.clientId op.requestId = true
    · rw [if_pos hduplicate]
      exact nofun
    · rw [if_neg hduplicate]
      exact nofun

theorem apt_of_effect {kv kv' : KvServer} {op : Op} {phase phase' : Phase}
    {a : HandlerAction} (heffect : HandlerEffect kv op phase a kv' phase')
    (h : Apt op phase) : Apt op phase' := by
  cases heffect with
  | refused => exact nofun
  | started raftIndex => trivial
  | opened raftIndex => trivial
  | popped _ => exact apt_onCommit _ _ _
  | timedOut raftIndex isLeader => exact apt_onTimeOut _ _ _ _
  | read raftIndex =>
      unfold onRead
      split
      · exact fun _ => h
      · exact fun _ => h
  | closed raftIndex reply => exact h

/-- So a clerk that goes on goes on to the next server. -/
theorem turn_next {clerk : Clerk n} {op : Op} {server next : Fin n} {phase : Phase}
    {reply : Option Reply} (hreply : forall r, reply = some r -> exists i, phase = .replied i r)
    (hapt : Apt op phase) (h : clerk.turn op server reply = .next next) :
    next = Clerk.nextServer server := by
  unfold Clerk.turn at h
  cases reply with
  | none =>
      by_cases hget : op.operation = .get
      · rw [if_pos hget] at h
        cases h
        rfl
      · rw [if_neg hget] at h
        cases h
        rfl
  | some r =>
      rcases hreply r rfl with ⟨raftIndex, rfl⟩
      by_cases hget : op.operation = .get
      · simp only [if_pos hget, Clerk.get] at h
        cases herr : r.err with
        | ok =>
            simp only [herr] at h
            cases h
        | errNoKey =>
            simp only [herr] at h
            cases h
        | errWrongLeader =>
            simp only [herr] at h
            cases h
            rfl
      · simp only [if_neg hget, Clerk.putAppend] at h
        cases herr : r.err with
        | ok =>
            simp only [herr] at h
            cases h
        | errNoKey => exact absurd (hapt herr) hget
        | errWrongLeader =>
            simp only [herr] at h
            cases h
            rfl

namespace Service

/-- The calls and the servers they were sent to, in order. -/
def sends (σ : Service n) : List (Nat × Fin n) :=
  σ.attempts.map fun attempt => (attempt.entry.call, attempt.server)

/-- The servers a call has been sent to. -/
def tried (σ : Service n) (call : Nat) : List (Fin n) :=
  (σ.sends.filter fun p => p.1 = call).map Prod.snd

/-- `owner` is the client that made a call. -/
structure Turns (owner : Nat -> Nat) (σ : Service n) : Prop where
  inTurn : forall call, InTurn (σ.tried call)
  issued : forall attempt, attempt ∈ σ.attempts -> σ.Issued attempt.entry
  apt : forall attempt, attempt ∈ σ.attempts -> Apt attempt.entry.op attempt.phase
  waits : forall i x b, σ.clients[i]? = some x -> x.attempt = some b ->
    exists attempt, σ.attempts[b]? = some attempt ∧ owner attempt.entry.call = i ∧
      (σ.tried attempt.entry.call).getLast? = some attempt.server

variable {owner : Nat -> Nat} {σ : Service n}

theorem tried_send_self (σ : Service n) (client : Nat) (clerk : Clerk n) (entry : Entry)
    (server : Fin n) :
    (σ.send client clerk entry server).tried entry.call = σ.tried entry.call ++ [server] := by
  unfold tried sends send
  rw [List.map_append, List.filter_append, List.map_append]
  simp only [List.map_cons, List.map_nil, List.filter_cons, decide_true, if_true,
    List.filter_nil]

theorem tried_send_of_ne (σ : Service n) (client : Nat) (clerk : Clerk n) {entry : Entry}
    (server : Fin n) {call : Nat} (hcall : entry.call ≠ call) :
    (σ.send client clerk entry server).tried call = σ.tried call := by
  unfold tried sends send
  rw [List.map_append, List.filter_append, List.map_append]
  simp only [List.map_cons, List.map_nil, List.filter_cons, decide_eq_true_eq, if_neg hcall,
    List.filter_nil, List.append_nil]

theorem tried_handled {a : Nat} {attempt : Attempt n} (hattempt : σ.attempts[a]? = some attempt)
    (action : HandlerAction) (kv : KvServer) (phase : Phase) (call : Nat) :
    (σ.handled a attempt action kv phase).tried call = σ.tried call := by
  have hsends : (σ.handled a attempt action kv phase).sends = σ.sends :=
    map_set_same hattempt rfl
  rw [tried, hsends, tried]

theorem tried_eq_nil {call : Nat}
    (h : forall attempt, attempt ∈ σ.attempts -> attempt.entry.call < call) :
    σ.tried call = [] := by
  unfold tried
  rw [List.map_eq_nil_iff, List.filter_eq_nil_iff]
  intro p hp
  rcases List.mem_map.mp hp with ⟨attempt, hattempt, rfl⟩
  rw [decide_eq_true_eq]
  exact (h attempt hattempt).ne

/-!
# Steps
-/

/-- A clerk sends the request of a call that no other one waits for. -/
theorem Turns.send (h : Turns owner σ) {client : Nat} {clerk : Clerk n} {entry : Entry}
    {server : Fin n} (hissued : σ.Issued entry) (howner : owner entry.call = client)
    (hturn : InTurn (σ.tried entry.call ++ [server])) :
    Turns owner (σ.send client clerk entry server) := by
  constructor
  · intro call
    by_cases hcall : entry.call = call
    · rw [← hcall, tried_send_self]
      exact hturn
    · rw [tried_send_of_ne _ _ _ _ hcall]
      exact h.inTurn call
  · intro attempt hattempt
    rcases List.mem_append.mp hattempt with hold | hnew
    · exact h.issued attempt hold
    · rw [List.mem_singleton.mp hnew]
      exact hissued
  · intro attempt hattempt
    rcases List.mem_append.mp hattempt with hold | hnew
    · exact h.apt attempt hold
    · rw [List.mem_singleton.mp hnew]
      trivial
  · intro i x b hx hwaits
    change (σ.clients.set client _)[i]? = some x at hx
    rcases getElem?_set_cases hx with ⟨rfl, rfl⟩ | ⟨hi, hold⟩
    · cases hwaits
      refine ⟨_, List.getElem?_concat_length, howner, ?_⟩
      rw [tried_send_self]
      exact List.getLast?_concat
    · rcases h.waits i x b hold hwaits with ⟨attempt, hattempt, hi', hlast⟩
      refine ⟨attempt, ?_, hi', ?_⟩
      · exact getElem?_append_found hattempt _
      · rw [tried_send_of_ne]
        · exact hlast
        · intro hcall
          rw [hcall, hi'] at howner
          exact hi howner

theorem Turns.turn (h : Turns owner σ) {client : Nat} {clerk : Clerk n}
    {attempt : Attempt n} (hcurrent : σ.current client = some (clerk, attempt))
    {reply : Option Reply}
    (hreply : forall r, reply = some r -> exists i, attempt.phase = .replied i r) :
    Turns owner (σ.turn client clerk attempt reply) := by
  rcases current_eq_some hcurrent with ⟨a, hclient, hattempt⟩
  have hmem := List.mem_of_getElem? hattempt
  rcases h.waits client _ a hclient rfl with ⟨attempt', hattempt', howner, hlast⟩
  have hsame : some attempt' = some attempt := hattempt'.symm.trans hattempt
  cases hsame
  unfold Service.turn
  cases hturn : clerk.turn attempt.entry.op attempt.server reply with
  | next server =>
      apply h.send (h.issued attempt hmem) howner
      rw [turn_next hreply (h.apt attempt hmem) hturn]
      exact (h.inTurn _).concat hlast
  | done recentLeaderId value =>
      refine ⟨h.inTurn, h.issued, h.apt, ?_⟩
      intro i x b hx hwaits
      change (σ.clients.set client _)[i]? = some x at hx
      rcases getElem?_set_cases hx with ⟨_, rfl⟩ | ⟨_, hold⟩
      · cases hwaits
      · exact h.waits i x b hold hwaits

theorem Turns.invoke (h : Turns owner σ) (client : Nat) (clerk : Clerk n)
    (request : Request) :
    Turns (Function.update owner σ.calls.length client) (σ.invoke client clerk request) := by
  have hlt : forall attempt, attempt ∈ σ.attempts ->
      attempt.entry.call < σ.calls.length := fun attempt hattempt =>
    (List.getElem?_eq_some_iff.mp (h.issued attempt hattempt)).1
  have hbegun : Turns (Function.update owner σ.calls.length client)
      { σ with calls := σ.calls ++ [clerk.nextRequest.args request] } := by
    refine ⟨h.inTurn, fun attempt hattempt => (h.issued attempt hattempt).append rfl,
      h.apt, ?_⟩
    intro i x b hx hwaits
    rcases h.waits i x b hx hwaits with ⟨attempt, hattempt, howner, hlast⟩
    refine ⟨attempt, hattempt, ?_, hlast⟩
    rw [Function.update_of_ne (hlt attempt (List.mem_of_getElem? hattempt)).ne]
    exact howner
  refine hbegun.send List.getElem?_concat_length (Function.update_self ..) ?_
  have hnone : Service.tried { σ with calls := σ.calls ++ [clerk.nextRequest.args request] }
      σ.calls.length = [] := tried_eq_nil hlt
  rw [hnone]
  exact List.isChain_singleton _

theorem Turns.handled (h : Turns owner σ) {a : Nat} {attempt : Attempt n}
    (hattempt : σ.attempts[a]? = some attempt) {action : HandlerAction} {kv : KvServer}
    {phase : Phase} (heffect : HandlerEffect (σ.server attempt.server).kv attempt.entry.op
      attempt.phase action kv phase) :
    Turns owner (σ.handled a attempt action kv phase) := by
  have hmem := List.mem_of_getElem? hattempt
  constructor
  · intro call
    rw [tried_handled hattempt]
    exact h.inTurn call
  · intro other hother
    rcases List.mem_or_eq_of_mem_set hother with hold | rfl
    · exact h.issued other hold
    · exact h.issued attempt hmem
  · intro other hother
    rcases List.mem_or_eq_of_mem_set hother with hold | rfl
    · exact h.apt other hold
    · exact apt_of_effect heffect (h.apt attempt hmem)
  · intro i x b hx hwaits
    rcases h.waits i x b hx hwaits with ⟨other, hother, howner, hlast⟩
    by_cases hb : a = b
    · subst hb
      have hsame : some attempt = some other := hattempt.symm.trans hother
      cases hsame
      refine ⟨{ attempt with phase := phase }, ?_, howner, ?_⟩
      · exact getElem?_set_found hattempt _
      · rw [tried_handled hattempt]
        exact hlast
    · refine ⟨other, ?_, howner, ?_⟩
      · exact (List.getElem?_set_ne hb).trans hother
      · rw [tried_handled hattempt]
        exact hlast

theorem Turns.step [NeZero n] {rand : Nat -> Nat} {σ' : Service n} {a : Action n}
    (h : Turns owner σ) (hstep : σ.step rand a = some σ') :
    exists owner', Turns owner' σ' := by
  cases a with
  | newClerk drawn =>
      cases hstep
      refine ⟨owner, h.inTurn, h.issued, h.apt, ?_⟩
      intro i x b hx hwaits
      change (σ.clients ++ [_])[i]? = some x at hx
      rcases getElem?_concat_cases hx with hold | ⟨_, rfl⟩
      · exact h.waits i x b hold hwaits
      · cases hwaits
  | invoke client request =>
      simp only [Service.step] at hstep
      cases hclient : σ.clients[client]? with
      | none =>
          rw [hclient] at hstep
          cases hstep
      | some x =>
          rcases x with ⟨clerk, waits⟩
          rw [hclient] at hstep
          cases waits with
          | some b => cases hstep
          | none =>
              cases hstep
              exact ⟨_, h.invoke client clerk request⟩
  | handle b action =>
      simp only [Service.step] at hstep
      cases hattempt : σ.attempts[b]? with
      | none =>
          rw [hattempt] at hstep
          cases hstep
      | some attempt =>
          simp only [hattempt] at hstep
          cases hrun : (σ.server attempt.server).kv.handle attempt.entry.op attempt.phase
              action with
          | none =>
              rw [hrun] at hstep
              cases hstep
          | some result =>
              rw [hrun] at hstep
              cases hstep
              exact ⟨owner, h.handled hattempt (handle_effect hrun)⟩
  | commit p =>
      simp only [Service.step] at hstep
      cases hproposal : σ.proposals[p]? with
      | none =>
          rw [hproposal] at hstep
          cases hstep
      | some proposal =>
          rcases proposal with ⟨entry, raftIndex⟩
          simp only [hproposal] at hstep
          by_cases hnext : raftIndex = σ.committed.length + 1
          · rw [if_pos hnext] at hstep
            cases hstep
            exact ⟨owner, h.inTurn, h.issued, h.apt, h.waits⟩
          · rw [if_neg hnext] at hstep
            cases hstep
  | getCommandFromRaft i =>
      simp only [Service.step] at hstep
      cases hrun : (σ.server i).getCommandFromRaft σ.committed with
      | none =>
          rw [hrun] at hstep
          cases hstep
      | some server =>
          rw [hrun] at hstep
          cases hstep
          exact ⟨owner, h.inTurn, h.issued, h.apt, h.waits⟩
  | fail client =>
      simp only [Service.step] at hstep
      cases hcurrent : σ.current client with
      | none =>
          rw [hcurrent] at hstep
          cases hstep
      | some result =>
          rw [hcurrent] at hstep
          cases hstep
          refine ⟨owner, h.turn hcurrent ?_⟩
          intro r hr
          cases hr
  | receive client =>
      simp only [Service.step] at hstep
      cases hcurrent : σ.current client with
      | none =>
          rw [hcurrent] at hstep
          cases hstep
      | some result =>
          rcases result with ⟨clerk, attempt⟩
          simp only [hcurrent] at hstep
          cases hphase : attempt.phase with
          | replied raftIndex reply =>
              simp only [hphase] at hstep
              cases hstep
              refine ⟨owner, h.turn hcurrent ?_⟩
              intro r hr
              cases hr
              exact ⟨raftIndex, hphase⟩
          | _ =>
              simp only [hphase] at hstep
              cases hstep

end Service

/-- Server 0 turns the clerk away, and the calls to the others fail. -/
def unansweredRun : (serviceSystem 3 id).Run :=
  TransitionSystem.runOf _
    [.newClerk 0, .invoke 0 (.put [120] [97]), .handle 0 (.start none), .receive 0, .fail 0,
      .fail 0, .fail 0]
    (by decide +kernel)

end RaftClerk
end KVRaft
