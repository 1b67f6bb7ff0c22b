import KVRaft.KvServer.State

/-!
# The handlers of Get and PutAppend

A handler hands its operation to Raft, waits on the channel of the index it was
given, and answers.  It runs between the critical sections of the other handlers
and of the loop, so each of its own is a step.
-/

namespace KVRaft
namespace KvServer

inductive Err where
  | ok
  | errNoKey
  | errWrongLeader
  deriving DecidableEq, Repr

structure Reply where
  err : Err
  value : Bytes
  deriving DecidableEq, Repr

/-- How far the call of a handler has come, from the request under way to the
reply under way. -/
inductive Phase where
  | sent
  | started (raftIndex : Int)
  | waiting (raftIndex : Int)
  | reading (raftIndex : Int)
  | answered (raftIndex : Int) (reply : Reply)
  | replied (raftIndex : Int) (reply : Reply)
  deriving DecidableEq, Repr

/-- The next step of a handler.  `start` is given the index of the new entry, or
none where the node is not the leader. -/
inductive HandlerAction where
  | start (raftIndex : Option Int)
  | openWaitChan
  | timeOutPop
  | timeOut (isLeader : Bool)
  | executeGetOpOnKVDB
  | closeWaitChan
  deriving DecidableEq, Repr

def wrongLeader : Reply where
  err := .errWrongLeader
  value := []

/-- The operation committed at the index must be the one of the handler. -/
def onCommit (op raftCommitOp : Op) (raftIndex : Int) : Phase :=
  if raftCommitOp.clientId = op.clientId ∧ raftCommitOp.requestId = op.requestId then
    if op.operation = .get then
      .reading raftIndex
    else
      .answered raftIndex { err := .ok, value := [] }
  else
    .answered raftIndex wrongLeader

/-- A request that came through before is answered all the same. -/
def onTimeOut (kv : KvServer) (op : Op) (raftIndex : Int) (isLeader : Bool) : Phase :=
  if op.operation = .get then
    if kv.ifRequestDuplicate op.clientId op.requestId && isLeader then
      .reading raftIndex
    else
      .answered raftIndex wrongLeader
  else
    if kv.ifRequestDuplicate op.clientId op.requestId then
      .answered raftIndex { err := .ok, value := [] }
    else
      .answered raftIndex wrongLeader

def onRead (raftIndex : Int) (value : Bytes) (exist : Bool) : Phase :=
  if exist then
    .answered raftIndex { err := .ok, value := value }
  else
    .answered raftIndex { err := .errNoKey, value := [] }

/-- One step of the handler of `op`. -/
def handle (kv : KvServer) (op : Op) : Phase -> HandlerAction -> Option (KvServer × Phase)
  | .sent, .start none => some (kv, .replied (-1) wrongLeader)
  | .sent, .start (some raftIndex) => some (kv, .started raftIndex)
  | .started raftIndex, .openWaitChan =>
      some (kv.openWaitChan raftIndex, .waiting raftIndex)
  | .waiting raftIndex, .timeOutPop =>
      match kv.waitApplyCh.lookup raftIndex with
      | some (raftCommitOp :: chan) =>
          some
            ({ kv with waitApplyCh := kv.waitApplyCh.insert raftIndex chan },
              onCommit op raftCommitOp raftIndex)
      | _ => none
  | .waiting raftIndex, .timeOut isLeader =>
      some (kv, kv.onTimeOut op raftIndex isLeader)
  | .reading raftIndex, .executeGetOpOnKVDB =>
      some
        ((kv.executeGetOpOnKVDB op).1,
          onRead raftIndex (kv.executeGetOpOnKVDB op).2.1 (kv.executeGetOpOnKVDB op).2.2)
  | .answered raftIndex reply, .closeWaitChan =>
      some (kv.closeWaitChan raftIndex, .replied raftIndex reply)
  | _, _ => none

/-!
# What is on the channels
-/

def OnChannel (kv : KvServer) (raftIndex : Int) (op : Op) : Prop :=
  exists chan, kv.waitApplyCh.lookup raftIndex = some chan ∧ op ∈ chan

theorem onChannel_insert {kv : KvServer} {i raftIndex : Int} {chan : List Op} {op : Op}
    (h : OnChannel { kv with waitApplyCh := kv.waitApplyCh.insert raftIndex chan } i op) :
    (i = raftIndex ∧ op ∈ chan) ∨ OnChannel kv i op := by
  rcases h with ⟨held, hlookup, hop⟩
  by_cases hi : i = raftIndex
  · rw [hi, AList.lookup_insert] at hlookup
    cases hlookup
    exact Or.inl ⟨hi, hop⟩
  · rw [AList.lookup_insert_ne hi] at hlookup
    exact Or.inr ⟨held, hlookup, hop⟩

theorem onChannel_openWaitChan {kv : KvServer} {i raftIndex : Int} {op : Op}
    (h : OnChannel (kv.openWaitChan raftIndex) i op) : OnChannel kv i op := by
  unfold openWaitChan at h
  cases hchan : kv.waitApplyCh.lookup raftIndex with
  | some chan =>
      rw [hchan] at h
      exact h
  | none =>
      rw [hchan] at h
      rcases onChannel_insert h with ⟨_, hop⟩ | hold
      · cases hop
      · exact hold

theorem onChannel_closeWaitChan {kv : KvServer} {i raftIndex : Int} {op : Op}
    (h : OnChannel (kv.closeWaitChan raftIndex) i op) : OnChannel kv i op := by
  rcases h with ⟨chan, hlookup, hop⟩
  simp only [closeWaitChan] at hlookup
  by_cases hi : i = raftIndex
  · rw [hi, AList.lookup_erase] at hlookup
    cases hlookup
  · rw [AList.lookup_erase_ne hi] at hlookup
    exact ⟨chan, hlookup, hop⟩

theorem onChannel_sendMessage {kv : KvServer} {op sent : Op} {i raftIndex : Int}
    (h : OnChannel (kv.sendMessageToWaitChan sent raftIndex) i op) :
    (i = raftIndex ∧ op = sent) ∨ OnChannel kv i op := by
  unfold sendMessageToWaitChan at h
  cases hchan : kv.waitApplyCh.lookup raftIndex with
  | none =>
      rw [hchan] at h
      exact Or.inr h
  | some chan =>
      rw [hchan] at h
      rcases onChannel_insert h with ⟨hi, hop⟩ | hold
      · rcases List.mem_append.mp hop with hheld | hsent
        · rw [hi]
          exact Or.inr ⟨chan, hchan, hheld⟩
        · exact Or.inl ⟨hi, List.mem_singleton.mp hsent⟩
      · exact Or.inr hold

/-!
# What a handler does
-/

inductive HandlerEffect (kv : KvServer) (op : Op) :
    Phase -> HandlerAction -> KvServer -> Phase -> Prop where
  | refused : HandlerEffect kv op .sent (.start none) kv (.replied (-1) wrongLeader)
  | started (raftIndex : Int) :
      HandlerEffect kv op .sent (.start (some raftIndex)) kv (.started raftIndex)
  | opened (raftIndex : Int) :
      HandlerEffect kv op (.started raftIndex) .openWaitChan (kv.openWaitChan raftIndex)
        (.waiting raftIndex)
  | popped {raftIndex : Int} {raftCommitOp : Op} {chan : List Op} :
      kv.waitApplyCh.lookup raftIndex = some (raftCommitOp :: chan) ->
      HandlerEffect kv op (.waiting raftIndex) .timeOutPop
        { kv with waitApplyCh := kv.waitApplyCh.insert raftIndex chan }
        (onCommit op raftCommitOp raftIndex)
  | timedOut (raftIndex : Int) (isLeader : Bool) :
      HandlerEffect kv op (.waiting raftIndex) (.timeOut isLeader) kv
        (kv.onTimeOut op raftIndex isLeader)
  | read (raftIndex : Int) :
      HandlerEffect kv op (.reading raftIndex) .executeGetOpOnKVDB
        (kv.executeGetOpOnKVDB op).1
        (onRead raftIndex (kv.executeGetOpOnKVDB op).2.1 (kv.executeGetOpOnKVDB op).2.2)
  | closed (raftIndex : Int) (reply : Reply) :
      HandlerEffect kv op (.answered raftIndex reply) .closeWaitChan
        (kv.closeWaitChan raftIndex) (.replied raftIndex reply)

theorem handle_effect {kv kv' : KvServer} {op : Op} {phase phase' : Phase}
    {a : HandlerAction} (h : kv.handle op phase a = some (kv', phase')) :
    HandlerEffect kv op phase a kv' phase' := by
  unfold handle at h
  split at h
  · cases h
    exact .refused
  · cases h
    exact .started _
  · cases h
    exact .opened _
  · split at h
    · rename_i hchan
      cases h
      exact .popped hchan
    · cases h
  · cases h
    exact .timedOut _ _
  · cases h
    exact .read _
  · cases h
    exact .closed _ _
  · cases h

/-- A call that goes on to read, or was answered by a server that does not send
the clerk away. -/
def Phase.Settled : Phase -> Prop
  | .reading _ => True
  | .answered _ reply => reply.err ≠ .errWrongLeader
  | .replied _ reply => reply.err ≠ .errWrongLeader
  | _ => False

/-- The operation was seen on the channel of the handler, or counts as a duplicate. -/
inductive CameThrough (kv : KvServer) (op : Op) : Phase -> HandlerAction -> Prop where
  | popped {raftIndex : Int} {raftCommitOp : Op} : OnChannel kv raftIndex raftCommitOp ->
      raftCommitOp.clientId = op.clientId -> raftCommitOp.requestId = op.requestId ->
      CameThrough kv op (.waiting raftIndex) .timeOutPop
  | timedOut {raftIndex : Int} {isLeader : Bool} :
      kv.ifRequestDuplicate op.clientId op.requestId = true ->
      CameThrough kv op (.waiting raftIndex) (.timeOut isLeader)

theorem onCommit_settled {op raftCommitOp : Op} {raftIndex : Int}
    (h : (onCommit op raftCommitOp raftIndex).Settled) :
    raftCommitOp.clientId = op.clientId ∧ raftCommitOp.requestId = op.requestId := by
  unfold onCommit at h
  by_cases hsame : raftCommitOp.clientId = op.clientId ∧
      raftCommitOp.requestId = op.requestId
  · exact hsame
  · rw [if_neg hsame] at h
    exact absurd rfl h

theorem onTimeOut_settled {kv : KvServer} {op : Op} {raftIndex : Int} {isLeader : Bool}
    (h : (kv.onTimeOut op raftIndex isLeader).Settled) :
    kv.ifRequestDuplicate op.clientId op.requestId = true := by
  unfold onTimeOut at h
  cases hduplicate : kv.ifRequestDuplicate op.clientId op.requestId with
  | true => rfl
  | false =>
      rw [hduplicate] at h
      by_cases hget : op.operation = .get
      · rw [if_pos hget] at h
        exact absurd rfl h
      · rw [if_neg hget] at h
        exact absurd rfl h

namespace HandlerEffect

variable {kv kv' : KvServer} {op : Op} {phase phase' : Phase} {a : HandlerAction}

theorem map (h : HandlerEffect kv op phase a kv' phase') : kv'.skipList = kv.skipList := by
  cases h with
  | opened raftIndex => rw [openWaitChan_eq]
  | _ => rfl

/-- Only reading touches the table of requests. -/
theorem requests (h : HandlerEffect kv op phase a kv' phase') :
    kv'.lastRequestId = kv.lastRequestId ∨
      (a = .executeGetOpOnKVDB ∧ phase.Settled ∧
        kv'.lastRequestId = kv.lastRequestId.insert op.clientId op.requestId) := by
  cases h with
  | opened raftIndex =>
      left
      rw [openWaitChan_eq]
  | read raftIndex => exact Or.inr ⟨rfl, trivial, rfl⟩
  | _ => exact Or.inl rfl

theorem channels (h : HandlerEffect kv op phase a kv' phase') {i : Int} {seen : Op}
    (hseen : OnChannel kv' i seen) : OnChannel kv i seen := by
  cases h with
  | opened raftIndex => exact onChannel_openWaitChan hseen
  | closed raftIndex reply => exact onChannel_closeWaitChan hseen
  | popped hchan =>
      rcases onChannel_insert hseen with ⟨rfl, hop⟩ | hold
      · exact ⟨_, hchan, List.mem_cons_of_mem _ hop⟩
      · exact hold
  | _ => exact hseen

theorem settled (h : HandlerEffect kv op phase a kv' phase') (hsettled : phase'.Settled) :
    phase.Settled ∨ CameThrough kv op phase a := by
  cases h with
  | refused => exact absurd rfl hsettled
  | started raftIndex => exact hsettled.elim
  | opened raftIndex => exact hsettled.elim
  | popped hchan =>
      rcases onCommit_settled hsettled with ⟨hclient, hrequest⟩
      exact Or.inr (.popped ⟨_, hchan, List.mem_cons_self⟩ hclient hrequest)
  | timedOut raftIndex isLeader => exact Or.inr (.timedOut (onTimeOut_settled hsettled))
  | read raftIndex => exact Or.inl trivial
  | closed raftIndex reply => exact Or.inl hsettled

end HandlerEffect

end KvServer
end KVRaft
