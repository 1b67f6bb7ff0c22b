import KVRaft.Foundation.Observation
import KVRaft.Fiber.FdManager

/-!
# Flags behind the hooks

The calls on descriptors once as the system answers them and once through the hooks, which
make sockets nonblocking without telling.  Every call is one step, up to its first wait.
What the system answers is not known: each call brings it along.
-/

namespace KVRaft
namespace Fiber

open Foundation TransitionSystem

/-- What a system call returns; `fail` carries the error number. -/
inductive Returned where
  | value (n : FileFlags)
  | fail (errno : Nat)
  deriving DecidableEq, Repr

def eintr : Nat := 4

def ebadf : Nat := 9

def eagain : Nat := 11

def einprogress : Nat := 115

/-- The result of a call that has nothing to return. -/
def Returned.of : Option Nat -> Returned
  | none => .value 0
  | some errno => .fail errno

/-- What one attempt of a call returns on a file that waits, if it need not wait, and on one
that is nonblocking. -/
structure Attempt where
  waiting : Option Returned
  atOnce : Returned
  deriving DecidableEq, Repr

/-- A call that cannot be served at once has the thread wait, or under a hook only the
fiber. -/
inductive Answer where
  | returns (r : Returned)
  | blocks
  | yields
  deriving DecidableEq, Repr

/-- Whoever made the call sees it wait. -/
def Answer.seen : Answer -> Answer
  | .yields => .blocks
  | answer => answer

/-- `hook` says whether hooks are enabled in the calling thread, and `again` is what the
system answers when a call that a signal has interrupted is made again. -/
inductive SystemCall where
  | openFile (flags : FileFlags) (result : Returned)
  | socket (hook : Bool) (type : FileFlags) (result : Returned)
  | accept (hook : Bool) (s : Nat) (first : Attempt) (again : List Attempt)
  | connect (hook : Bool) (fd : Nat) (attempt : Attempt)
  /-- `read`, `recv`, `write`, `send` and their variants -/
  | io (hook : Bool) (fd : Nat) (first : Attempt) (again : List Attempt)
  | close (hook : Bool) (fd : Nat) (result : Returned)
  | fcntlSetfl (fd : Nat) (arg : FileFlags) (refused : Option Nat)
  | fcntlGetfl (fd : Nat)
  | ioctlFionbio (fd : Nat) (on : Bool) (refused : Option Nat)
  deriving DecidableEq, Repr

/-!
# The system
-/

namespace Files

def set (files : Files) (fd : Nat) (file : Option OpenFile) : Files :=
  Function.update files fd file

/-- A refused change leaves the flags as they are. -/
def change (files : Files) (fd : Nat) (refused : Option Nat) (f : FileFlags -> FileFlags) :
    Files :=
  if refused = none then
    files.set fd ((files fd).map fun file => { file with flags := f file.flags })
  else
    files

def newSocket (type : FileFlags) : OpenFile where
  socket := true
  flags := oRdwr ||| (type &&& oNonblock)

/-- A descriptor is not negative, and it is given out only if it is free. -/
def give (files : Files) (file : OpenFile) : Returned -> Option Files
  | .value n =>
      if n.msb = false ∧ files n.toNat = none then some (files.set n.toNat (some file))
      else none
  | .fail _ => some files

/-- One attempt of a call that may have to wait. -/
def attempt (files : Files) (fd : Nat) (attempt : Attempt) : Answer :=
  match files fd with
  | none => .returns (.fail ebadf)
  | some file =>
      if nonblock file.flags then .returns attempt.atOnce
      else
        match attempt.waiting with
        | some r => .returns r
        | none => .blocks

/-- The socket of an incoming connection does not inherit `O_NONBLOCK`. -/
def accepted (files : Files) : Answer -> Option Files
  | .returns r => files.give (newSocket 0) r
  | _ => some files

/-- A call that only needs the descriptor to be open. -/
def check (files : Files) (fd : Nat) (result : Returned) : Answer :=
  match files fd with
  | none => .returns (.fail ebadf)
  | some _ => .returns result

def step (files : Files) : SystemCall -> Option Files
  | .openFile flags result => files.give { socket := false, flags := flags } result
  | .socket _ type result => files.give (newSocket type) result
  | .accept _ s first _ => files.accepted (files.attempt s first)
  | .connect _ _ _ => some files
  | .io _ _ _ _ => some files
  | .close _ fd _ => some (files.set fd none)
  | .fcntlSetfl fd arg refused => some (files.change fd refused fun flags => setfl flags arg)
  | .fcntlGetfl _ => some files
  | .ioctlFionbio fd on refused =>
      some (files.change fd refused fun flags => fionbio flags on)

def answer (files : Files) : SystemCall -> Answer
  | .openFile _ result => .returns result
  | .socket _ _ result => .returns result
  | .accept _ s first _ => files.attempt s first
  | .connect _ fd attempt => files.attempt fd attempt
  | .io _ fd first _ => files.attempt fd first
  | .close _ fd result => files.check fd result
  | .fcntlSetfl fd _ refused => files.check fd (.of refused)
  | .fcntlGetfl fd =>
      match files fd with
      | none => .returns (.fail ebadf)
      | some file => .returns (.value file.flags)
  | .ioctlFionbio fd _ refused => files.check fd (.of refused)

end Files

/-- The calls as the system serves them without hooks. -/
def kernelSystem : TransitionSystem Files SystemCall where
  init := fun _ => none
  step := Files.step

/-!
# The hooks
-/

structure Hooked where
  files : Files
  fdMgr : FdManager

namespace Hooked

/-- The context of an open socket. -/
def context (σ : Hooked) (fd : Nat) : Option FdCtx :=
  match σ.fdMgr.get fd with
  | none => none
  | some ctx => if ctx.isClosed ∨ ctx.isSocket = false then none else some ctx

/-- `FdMgr::get(fd, true)` for a descriptor that the system has just given out. -/
def register (σ : Hooked) (files : Files) (fd : Nat) : Hooked :=
  let (files, fdMgr) := σ.fdMgr.getOrCreate files fd
  { files := files, fdMgr := fdMgr }

def setUserNonblock (σ : Hooked) (fd : Nat) (ctx : FdCtx) (v : Bool) : Hooked :=
  { σ with fdMgr := σ.fdMgr.put fd { ctx with userNonblock := v } }

/-- The answer of the first attempt that no signal interrupts.  A call that is always
interrupted does not return. -/
def uninterrupted : List Answer -> Answer
  | [] => .blocks
  | answer :: again =>
      if answer = .returns (.fail eintr) then uninterrupted again else answer

/-- An answer that says that the call would have to wait sends the fiber to sleep. -/
def wait (busy : Nat) : Answer -> Answer
  | .returns (.fail errno) => if errno = busy then .yields else .returns (.fail errno)
  | answer => answer

/-- `do_io` up to its first wait. -/
def doIo (σ : Hooked) (hook : Bool) (fd : Nat) (first : Attempt) (again : List Attempt) :
    Answer :=
  if hook = false then σ.files.attempt fd first
  else
    match σ.fdMgr.get fd with
    | none => σ.files.attempt fd first
    | some ctx =>
        if ctx.isClosed then .returns (.fail ebadf)
        else if ctx.isSocket = false ∨ ctx.userNonblock then σ.files.attempt fd first
        else wait eagain (uninterrupted ((first :: again).map (σ.files.attempt fd)))

/-- The same of `connect_with_timeout`, which does not serve a descriptor without context
and does not try again. -/
def connectWithTimeout (σ : Hooked) (hook : Bool) (fd : Nat) (attempt : Attempt) : Answer :=
  if hook = false then σ.files.attempt fd attempt
  else
    match σ.fdMgr.get fd with
    | none => .returns (.fail ebadf)
    | some ctx =>
        if ctx.isClosed then .returns (.fail ebadf)
        else if ctx.isSocket = false then σ.files.attempt fd attempt
        else if ctx.userNonblock then σ.files.attempt fd attempt
        else wait einprogress (σ.files.attempt fd attempt)

/-- The flags that a user is shown. -/
def userFlags (ctx : FdCtx) (flags : FileFlags) : FileFlags :=
  if ctx.userNonblock then flags ||| oNonblock else flags &&& ~~~oNonblock

def answer (σ : Hooked) (call : SystemCall) : Answer :=
  match call with
  | .accept hook s first again => σ.doIo hook s first again
  | .connect hook fd attempt => σ.connectWithTimeout hook fd attempt
  | .io hook fd first again => σ.doIo hook fd first again
  | .fcntlGetfl fd =>
      match σ.context fd with
      | none => σ.files.answer call
      | some ctx =>
          match σ.files.answer call with
          | .returns (.value flags) => .returns (.value (userFlags ctx flags))
          -- The result -1 of the call has its bit changed as well.
          | .returns (.fail errno) =>
              if userFlags ctx (BitVec.allOnes 32) = BitVec.allOnes 32 then
                .returns (.fail errno)
              else
                .returns (.value (userFlags ctx (BitVec.allOnes 32)))
          | other => other
  | _ => σ.files.answer call

def step (σ : Hooked) (call : SystemCall) : Option Hooked :=
  match call with
  | .socket hook _ result =>
      (σ.files.step call).map fun files =>
        match hook, result with
        | true, .value n => σ.register files n.toNat
        | _, _ => { σ with files := files }
  | .accept hook s first again =>
      (σ.files.accepted (σ.doIo hook s first again)).map fun files =>
        match σ.doIo hook s first again with
        | .returns (.value n) => σ.register files n.toNat
        | _ => { σ with files := files }
  | .close hook fd _ =>
      (σ.files.step call).map fun files =>
        { files := files
          fdMgr := if hook ∧ (σ.fdMgr.get fd).isSome then σ.fdMgr.del fd else σ.fdMgr }
  | .fcntlSetfl fd arg refused =>
      match σ.context fd with
      | none => (σ.files.step call).map fun files => { σ with files := files }
      | some ctx =>
          let sysArg := if ctx.sysNonblock then arg ||| oNonblock else arg &&& ~~~oNonblock
          (σ.files.step (.fcntlSetfl fd sysArg refused)).map fun files =>
            { (σ.setUserNonblock fd ctx (nonblock arg)) with files := files }
  | .ioctlFionbio fd on _ =>
      match σ.context fd with
      | none => (σ.files.step call).map fun files => { σ with files := files }
      | some ctx =>
          (σ.files.step call).map fun files =>
            { (σ.setUserNonblock fd ctx on) with files := files }
  | _ => (σ.files.step call).map fun files => { σ with files := files }

end Hooked

/-- The calls through the hooks. -/
def hookSystem : TransitionSystem Hooked SystemCall where
  init := { files := fun _ => none, fdMgr := .create }
  step := Hooked.step

/-!
# What the user sees
-/

/-- The context of a socket whose user has asked for so much. -/
def socketCtx (userNonblock : Bool) : FdCtx where
  isInit := true
  isSocket := true
  sysNonblock := true
  userNonblock := userNonblock
  isClosed := false

/-- A file with and without hooks.  A socket with a context is nonblocking as far as the
user has asked for it, or at any rate if that is to be kept. -/
inductive Shown (keep : Prop) : Option FdCtx -> Option OpenFile -> Option OpenFile -> Prop where
  | plain (file : Option OpenFile) : Shown keep none file file
  | socket {sys user : FileFlags} : Alike sys user ->
      (nonblock user = true ∨ keep -> nonblock sys = true) ->
      Shown keep (some (socketCtx (nonblock user))) (some { socket := true, flags := sys })
        (some { socket := true, flags := user })

def Transparent (keep : Prop) (σ : Hooked) (files : Files) : Prop :=
  forall fd, Shown keep (σ.fdMgr.get fd) (σ.files fd) (files fd)

/-- The descriptor has a context, and its user has not asked for `O_NONBLOCK`. -/
def Hooked.leftBlocking (σ : Hooked) (fd : Nat) : Bool :=
  (σ.fdMgr.get fd).any fun ctx => !ctx.userNonblock

/-- The call returns the same on both kinds of files, or it waits on the one and fails with
`busy` on the other. -/
def Attempt.Settled (attempt : Attempt) (busy : Nat) : Prop :=
  (attempt.waiting = some attempt.atOnce ∧ attempt.atOnce ≠ .fail busy) ∨
    (attempt.waiting = none ∧ attempt.atOnce = .fail busy)

instance (attempt : Attempt) (busy : Nat) : Decidable (attempt.Settled busy) :=
  inferInstanceAs (Decidable (_ ∨ _))

/-- A refused change of `O_NONBLOCK` would have changed nothing. -/
def RefusedOnly (σ : Hooked) (fd : Nat) (v : Bool) (refused : Option Nat) : Prop :=
  refused = none ∨ ((σ.fdMgr.get fd).all fun ctx => ctx.userNonblock == v) = true

instance (σ : Hooked) (fd : Nat) (v : Bool) (refused : Option Nat) :
    Decidable (RefusedOnly σ fd v refused) :=
  inferInstanceAs (Decidable (_ ∨ _))

/-- A socket left blocking is used under hooks, and without being interrupted. -/
def IoRule (σ : Hooked) (hook : Bool) (fd : Nat) (first : Attempt) : Prop :=
  σ.leftBlocking fd = true ->
    hook = true ∧ first.Settled eagain ∧ first.atOnce ≠ .fail eintr

instance (σ : Hooked) (hook : Bool) (fd : Nat) (first : Attempt) :
    Decidable (IoRule σ hook fd first) :=
  inferInstanceAs (Decidable (_ -> _ ∧ _ ∧ _))

def ConnectRule (σ : Hooked) (hook : Bool) (fd : Nat) (attempt : Attempt) : Prop :=
  (hook = true -> σ.fdMgr.get fd ≠ none) ∧
    (σ.leftBlocking fd = true -> hook = true ∧ attempt.Settled einprogress)

instance (σ : Hooked) (hook : Bool) (fd : Nat) (attempt : Attempt) :
    Decidable (ConnectRule σ hook fd attempt) :=
  inferInstanceAs (Decidable ((_ -> _) ∧ (_ -> _ ∧ _)))

/-- What the hooks expect of their users and of the system. -/
def Rules (keep : Prop) (σ : Hooked) : SystemCall -> Prop
  | .socket hook type _ => hook = true -> nonblock type = false
  | .accept hook s first _ => IoRule σ hook s first
  | .connect hook fd attempt => ConnectRule σ hook fd attempt
  | .io hook fd first _ => IoRule σ hook fd first
  | .close hook fd _ => hook = true ∨ σ.fdMgr.get fd = none
  | .fcntlSetfl fd arg refused => RefusedOnly σ fd (nonblock arg) refused
  | .ioctlFionbio fd on refused =>
      RefusedOnly σ fd on refused ∧ (keep -> on = true ∨ σ.fdMgr.get fd = none)
  | _ => True

instance (keep : Prop) [Decidable keep] (σ : Hooked) :
    (call : SystemCall) -> Decidable (Rules keep σ call)
  | .openFile _ _ => inferInstanceAs (Decidable True)
  | .socket hook type _ =>
      inferInstanceAs (Decidable (hook = true -> nonblock type = false))
  | .accept hook s first _ => inferInstanceAs (Decidable (IoRule σ hook s first))
  | .connect hook fd attempt => inferInstanceAs (Decidable (ConnectRule σ hook fd attempt))
  | .io hook fd first _ => inferInstanceAs (Decidable (IoRule σ hook fd first))
  | .close hook fd _ => inferInstanceAs (Decidable (hook = true ∨ σ.fdMgr.get fd = none))
  | .fcntlSetfl fd arg refused =>
      inferInstanceAs (Decidable (RefusedOnly σ fd (nonblock arg) refused))
  | .fcntlGetfl _ => inferInstanceAs (Decidable True)
  | .ioctlFionbio fd on refused =>
      inferInstanceAs (Decidable
        (RefusedOnly σ fd on refused ∧ (keep -> on = true ∨ σ.fdMgr.get fd = none)))

section

variable {keep : Prop} {σ : Hooked} {files : Files} {fd : Nat}

theorem Transparent.initial : Transparent keep hookSystem.init kernelSystem.init := by
  intro fd
  have hnone : hookSystem.init.fdMgr.get fd = none := FdManager.get_create fd
  rw [hnone]
  exact .plain none

theorem Shown.none_iff {ctx : Option FdCtx} {sys user : Option OpenFile}
    (h : Shown keep ctx sys user) : sys = none <-> user = none := by
  cases h with
  | plain => exact Iff.rfl
  | socket => exact ⟨nofun, nofun⟩

/-- A descriptor that is free has no context. -/
theorem Shown.free {ctx : Option FdCtx} {user : Option OpenFile}
    (h : Shown keep ctx none user) : ctx = none ∧ user = none := by
  cases h with
  | plain => exact ⟨rfl, rfl⟩

/-!
# Answers
-/

theorem context_none (h : σ.fdMgr.get fd = none) : σ.context fd = none := by
  rw [Hooked.context, h]

theorem context_socket {v : Bool} (h : σ.fdMgr.get fd = some (socketCtx v)) :
    σ.context fd = some (socketCtx v) := by
  rw [Hooked.context, h]
  rfl

theorem leftBlocking_iff {v : Bool} (h : σ.fdMgr.get fd = some (socketCtx v)) :
    σ.leftBlocking fd = !v := by
  rw [Hooked.leftBlocking, h]
  rfl

/-- The hooks pass a call on unless it is for a socket that its user left blocking. -/
theorem doIo_passed (hook : Bool) (first : Attempt) (again : List Attempt)
    (h : σ.fdMgr.get fd = none ∨ σ.fdMgr.get fd = some (socketCtx true)) :
    σ.doIo hook fd first again = σ.files.attempt fd first := by
  cases hook with
  | false => rfl
  | true =>
      rw [Hooked.doIo, if_neg Bool.noConfusion]
      rcases h with hnone | hctx
      · rw [hnone]
      · rw [hctx]
        rfl

theorem doIo_left (first : Attempt) (again : List Attempt)
    (h : σ.fdMgr.get fd = some (socketCtx false)) :
    σ.doIo true fd first again =
      Hooked.wait eagain
        (Hooked.uninterrupted ((first :: again).map (σ.files.attempt fd))) := by
  rw [Hooked.doIo, if_neg Bool.noConfusion, h]
  rfl

theorem connect_passed (hook : Bool) (attempt : Attempt)
    (hnone : hook = true -> σ.fdMgr.get fd ≠ none)
    (h : σ.fdMgr.get fd = none ∨ σ.fdMgr.get fd = some (socketCtx true)) :
    σ.connectWithTimeout hook fd attempt = σ.files.attempt fd attempt := by
  cases hook with
  | false => rfl
  | true =>
      rw [Hooked.connectWithTimeout, if_neg Bool.noConfusion,
        h.resolve_left (hnone rfl)]
      rfl

theorem connect_left (attempt : Attempt) (h : σ.fdMgr.get fd = some (socketCtx false)) :
    σ.connectWithTimeout true fd attempt =
      Hooked.wait einprogress (σ.files.attempt fd attempt) := by
  rw [Hooked.connectWithTimeout, if_neg Bool.noConfusion, h]
  rfl

theorem attempt_open {file : OpenFile} (h : files fd = some file) (attempt : Attempt) :
    files.attempt fd attempt =
      if nonblock file.flags then .returns attempt.atOnce
      else
        match attempt.waiting with
        | some r => .returns r
        | none => .blocks := by
  rw [Files.attempt, h]

theorem attempt_seen (files : Files) (fd : Nat) (attempt : Attempt) :
    (files.attempt fd attempt).seen = files.attempt fd attempt := by
  cases hfile : files fd with
  | none =>
      rw [Files.attempt, hfile]
      rfl
  | some file =>
      rw [attempt_open hfile]
      by_cases hbit : nonblock file.flags = true
      · rw [if_pos hbit]
        rfl
      · rw [if_neg hbit]
        cases attempt.waiting with
        | some r => rfl
        | none => rfl

/-- Both sides attempt the same, except on a socket that its user left blocking. -/
theorem Transparent.attempt_cases (h : Transparent keep σ files) (fd : Nat) :
    ((σ.fdMgr.get fd = none ∨ σ.fdMgr.get fd = some (socketCtx true)) ∧
        forall attempt, σ.files.attempt fd attempt = files.attempt fd attempt) ∨
      exists sys user, σ.fdMgr.get fd = some (socketCtx false) ∧
        σ.files fd = some { socket := true, flags := sys } ∧
        files fd = some { socket := true, flags := user } ∧ nonblock user = false := by
  have hfd := h fd
  generalize hctx : σ.fdMgr.get fd = ctx at hfd ⊢
  generalize hsys : σ.files fd = sys at hfd
  generalize huser : files fd = user at hfd
  cases hfd with
  | plain file =>
      left
      refine ⟨Or.inl rfl, fun attempt => ?_⟩
      rw [Files.attempt, Files.attempt, hsys, huser]
  | @socket sys user halike hbit =>
      cases hnonblock : nonblock user with
      | true =>
          left
          refine ⟨Or.inr rfl, fun attempt => ?_⟩
          rw [attempt_open hsys, attempt_open huser]
          dsimp only
          rw [hnonblock, hbit (Or.inl hnonblock), if_pos rfl]
      | false =>
          right
          exact ⟨sys, user, rfl, rfl, rfl, hnonblock⟩

/-- A settled attempt waits, in the end, on both kinds of files or on none. -/
theorem wait_settled {sys user : FileFlags} {attempt : Attempt} {busy : Nat}
    (hsys : σ.files fd = some { socket := true, flags := sys })
    (huser : files fd = some { socket := true, flags := user })
    (hbit : nonblock user = false) (hsettled : attempt.Settled busy) :
    (Hooked.wait busy (σ.files.attempt fd attempt)).seen = files.attempt fd attempt := by
  rw [attempt_open hsys, attempt_open huser]
  dsimp only
  rw [if_neg (Bool.eq_false_iff.mp hbit)]
  rcases hsettled with ⟨hwaiting, hother⟩ | ⟨hwaiting, hbusy⟩
  · have hwait : Hooked.wait busy (.returns attempt.atOnce) = .returns attempt.atOnce := by
      cases hr : attempt.atOnce with
      | value n => rfl
      | fail errno =>
          have hne : errno ≠ busy := fun heq => hother (by rw [hr, heq])
          simp only [Hooked.wait, if_neg hne]
    rw [hwaiting]
    dsimp only
    rw [ite_self, hwait]
    rfl
  · rw [hwaiting, hbusy]
    dsimp only
    cases nonblock sys with
    | true =>
        simp only [if_true, Hooked.wait]
        rfl
    | false => rfl

theorem uninterrupted_settled {file : OpenFile} {first : Attempt} {again : List Attempt}
    (hfile : files fd = some file) (hsettled : first.Settled eagain)
    (hsignal : first.atOnce ≠ .fail eintr) :
    Hooked.uninterrupted ((first :: again).map (files.attempt fd)) =
      files.attempt fd first := by
  have hattempt : files.attempt fd first ≠ .returns (.fail eintr) := by
    rw [attempt_open hfile]
    intro heq
    by_cases hbit : nonblock file.flags = true
    · rw [if_pos hbit] at heq
      exact hsignal (Answer.returns.inj heq)
    · rw [if_neg hbit] at heq
      rcases hsettled with ⟨hwaiting, _⟩ | ⟨hwaiting, _⟩
      · rw [hwaiting] at heq
        exact hsignal (Answer.returns.inj heq)
      · rw [hwaiting] at heq
        cases heq
  rw [List.map_cons, Hooked.uninterrupted, if_neg hattempt]

theorem doIo_seen (h : Transparent keep σ files) {hook : Bool} {first : Attempt}
    {again : List Attempt} (hrule : IoRule σ hook fd first) :
    (σ.doIo hook fd first again).seen = files.attempt fd first := by
  rcases h.attempt_cases fd with ⟨hctx, hsame⟩ | ⟨sys, user, hctx, hsys, huser, hbit⟩
  · rw [doIo_passed hook first again hctx, hsame, attempt_seen]
  · rcases hrule (leftBlocking_iff hctx) with ⟨rfl, hsettled, hsignal⟩
    rw [doIo_left first again hctx, uninterrupted_settled hsys hsettled hsignal]
    exact wait_settled hsys huser hbit hsettled

theorem connect_seen (h : Transparent keep σ files) {hook : Bool} {attempt : Attempt}
    (hrule : ConnectRule σ hook fd attempt) :
    (σ.connectWithTimeout hook fd attempt).seen = files.attempt fd attempt := by
  rcases h.attempt_cases fd with ⟨hctx, hsame⟩ | ⟨sys, user, hctx, hsys, huser, hbit⟩
  · rw [connect_passed hook attempt hrule.1 hctx, hsame, attempt_seen]
  · rcases hrule.2 (leftBlocking_iff hctx) with ⟨rfl, hsettled⟩
    rw [connect_left attempt hctx]
    exact wait_settled hsys huser hbit hsettled

/-- The flags a user is shown are those without hooks. -/
theorem userFlags_eq {sys user : FileFlags} (h : Alike sys user) :
    Hooked.userFlags (socketCtx (nonblock user)) sys = user := by
  unfold Hooked.userFlags socketCtx
  dsimp only
  cases hbit : nonblock user with
  | true =>
      rw [if_pos rfl]
      exact ((Alike.or_nonblock sys).trans h).eq (by rw [nonblock_or, hbit])
  | false =>
      rw [if_neg Bool.noConfusion]
      exact ((Alike.and_nonblock sys).trans h).eq (by rw [nonblock_and_not, hbit])

theorem check_eq (h : Transparent keep σ files) (fd : Nat) (result : Returned) :
    (σ.files.check fd result).seen = files.check fd result := by
  unfold Files.check
  cases hsys : σ.files fd with
  | none =>
      rw [(h fd).none_iff.mp hsys]
      rfl
  | some sys =>
      cases huser : files fd with
      | none =>
          rw [(h fd).none_iff.mpr huser] at hsys
          cases hsys
      | some user => rfl

theorem answer_seen (h : Transparent keep σ files) {call : SystemCall}
    (hrules : Rules keep σ call) : (σ.answer call).seen = files.answer call := by
  cases call with
  | openFile flags result => rfl
  | socket hook type result => rfl
  | accept hook s first again => exact doIo_seen h hrules
  | connect hook fd attempt => exact connect_seen h hrules
  | io hook fd first again => exact doIo_seen h hrules
  | close hook fd result => exact check_eq h fd result
  | fcntlSetfl fd arg refused => exact check_eq h fd (.of refused)
  | fcntlGetfl fd =>
      have hfd := h fd
      generalize hctx : σ.fdMgr.get fd = ctx at hfd
      generalize hsys : σ.files fd = sys at hfd
      generalize huser : files fd = user at hfd
      cases hfd with
      | plain =>
          simp only [Hooked.answer, context_none hctx, Files.answer, hsys, huser]
          cases sys with
          | none => rfl
          | some file => rfl
      | socket halike hbit =>
          simp only [Hooked.answer, context_socket hctx, Files.answer, hsys, huser,
            userFlags_eq halike]
          rfl
  | ioctlFionbio fd on refused => exact check_eq h fd (.of refused)

/-!
# Steps
-/

@[simp] theorem files_set (files : Files) (fd fd' : Nat) (file : Option OpenFile) :
    files.set fd file fd' = if fd' = fd then file else files fd' :=
  Function.update_apply _ _ _ _

/-- One descriptor changes. -/
theorem Transparent.set (h : Transparent keep σ files) {σ' : Hooked} {files' : Files}
    (fd : Nat) (hother : forall fd', fd' ≠ fd -> σ'.fdMgr.get fd' = σ.fdMgr.get fd' ∧
      σ'.files fd' = σ.files fd' ∧ files' fd' = files fd')
    (hfd : Shown keep (σ'.fdMgr.get fd) (σ'.files fd) (files' fd)) :
    Transparent keep σ' files' := by
  intro fd'
  by_cases heq : fd' = fd
  · rw [heq]
    exact hfd
  · rcases hother fd' heq with ⟨hget, hsys, huser⟩
    rw [hget, hsys, huser]
    exact h fd'

/-- A descriptor that is free to the system has no context. -/
theorem Transparent.free (h : Transparent keep σ files) (hfree : σ.files fd = none) :
    σ.fdMgr.get fd = none := by
  have hshown := h fd
  rw [hfree] at hshown
  exact hshown.free.1

/-- A new socket is made nonblocking behind its user's back. -/
theorem Transparent.register (h : Transparent keep σ files) {type : FileFlags}
    (hfree : σ.files fd = none) (htype : nonblock type = false) :
    Transparent keep (σ.register (σ.files.set fd (some (Files.newSocket type))) fd)
      (files.set fd (some (Files.newSocket type))) := by
  have hnew : nonblock (Files.newSocket type).flags = false := by
    rw [nonblock_eq] at htype ⊢
    simp only [Files.newSocket, BitVec.getLsbD_or, BitVec.getLsbD_and, htype, Bool.false_and,
      Bool.or_false]
    decide
  have hnone : σ.fdMgr.get fd = none := h.free hfree
  have hcreate : FdCtx.create (σ.files.set fd (some (Files.newSocket type))) fd =
      ((σ.files.set fd (some (Files.newSocket type))).set fd
        (some { socket := true
                flags := setfl (Files.newSocket type).flags
                  ((Files.newSocket type).flags ||| oNonblock) }),
        socketCtx false) := by
    simp only [FdCtx.create, files_set, if_true, Files.newSocket]
    simp only [Files.newSocket] at hnew
    simp only [hnew]
    rfl
  have hregister : σ.register (σ.files.set fd (some (Files.newSocket type))) fd =
      { files := (σ.files.set fd (some (Files.newSocket type))).set fd
          (some { socket := true
                  flags := setfl (Files.newSocket type).flags
                    ((Files.newSocket type).flags ||| oNonblock) })
        fdMgr := σ.fdMgr.put fd (socketCtx false) } := by
    simp only [Hooked.register, FdManager.getOrCreate, hnone, hcreate]
  rw [hregister]
  refine h.set fd ?_ ?_
  · intro fd' hne
    simp only [FdManager.get_put, files_set, if_neg hne, and_self]
  · simp only [FdManager.get_put, files_set, if_true]
    rw [← hnew]
    refine Shown.socket ?_ ?_
    · intro i hi
      have halike := Alike.or_nonblock (Files.newSocket type).flags i hi
      simp only [setfl, BitVec.getLsbD_or, BitVec.getLsbD_and, BitVec.getLsbD_not] at halike ⊢
      rw [halike]
      cases hflag : (Files.newSocket type).flags.getLsbD i <;>
        cases hmask : setflMask.getLsbD i <;> simp
      exact BitVec.lt_of_getLsbD hflag
    · intro _
      rw [nonblock_setfl, nonblock_or]

/-- A file that no hook knows of changes in the same way on both sides. -/
theorem Transparent.same (h : Transparent keep σ files) (fd : Nat) (file : Option OpenFile)
    (hctx : σ.fdMgr.get fd = none) :
    Transparent keep { σ with files := σ.files.set fd file } (files.set fd file) := by
  refine h.set fd (fun fd' hne => ?_) ?_
  · simp only [files_set, if_neg hne, and_self]
  · simp only [files_set, if_true, hctx]
    exact .plain file

theorem Transparent.close (h : Transparent keep σ files) {hook : Bool}
    (hrules : hook = true ∨ σ.fdMgr.get fd = none) :
    Transparent keep
      { files := σ.files.set fd none
        fdMgr := if hook ∧ (σ.fdMgr.get fd).isSome then σ.fdMgr.del fd else σ.fdMgr }
      (files.set fd none) := by
  by_cases hdel : hook = true ∧ (σ.fdMgr.get fd).isSome = true
  · rw [if_pos hdel]
    refine h.set fd (fun fd' hne => ?_) ?_
    · simp only [FdManager.get_del, files_set, if_neg hne, and_self]
    · simp only [FdManager.get_del, files_set, if_true]
      exact .plain none
  · rw [if_neg hdel]
    refine h.same fd none ?_
    rcases hrules with hook | hnone
    · cases hctx : σ.fdMgr.get fd with
      | none => rfl
      | some ctx => exact absurd ⟨hook, by rw [hctx]; rfl⟩ hdel
    · exact hnone

theorem change_eq {file : OpenFile} (h : files fd = some file) (refused : Option Nat)
    (f : FileFlags -> FileFlags) :
    files.change fd refused f =
      files.set fd
        (some { file with flags := if refused = none then f file.flags else file.flags }) := by
  unfold Files.change
  by_cases hrefused : refused = none
  · rw [if_pos hrefused, if_pos hrefused, h]
    rfl
  · rw [if_neg hrefused, if_neg hrefused, Files.set, ← h, Function.update_eq_self]

theorem change_none (h : files fd = none) (refused : Option Nat)
    (f : FileFlags -> FileFlags) : files.change fd refused f = files.set fd none := by
  unfold Files.change
  by_cases hrefused : refused = none
  · rw [if_pos hrefused, h]
    rfl
  · rw [if_neg hrefused, Files.set, ← h, Function.update_eq_self]

/-- A file without context has its flags changed in the same way on both sides. -/
theorem Transparent.change_plain (h : Transparent keep σ files) {file : Option OpenFile}
    (hctx : σ.fdMgr.get fd = none) (hsys : σ.files fd = file) (huser : files fd = file)
    (refused : Option Nat) (f : FileFlags -> FileFlags) :
    Transparent keep { σ with files := σ.files.change fd refused f }
      (files.change fd refused f) := by
  cases file with
  | none =>
      rw [change_none hsys, change_none huser]
      exact h.same fd none hctx
  | some file =>
      rw [change_eq hsys, change_eq huser]
      exact h.same fd _ hctx

/-- The flags of a socket change, with what its context says about them. -/
theorem Transparent.change (h : Transparent keep σ files) {sys user sys' user' : FileFlags}
    (hsys : σ.files fd = some { socket := true, flags := sys })
    (huser : files fd = some { socket := true, flags := user }) {refused : Option Nat}
    {f g : FileFlags -> FileFlags} (hf : (if refused = none then f sys else sys) = sys')
    (hg : (if refused = none then g user else user) = user') (halike : Alike sys' user')
    (hbit : nonblock user' = true ∨ keep -> nonblock sys' = true) {ctx : FdCtx}
    (hctx : ctx = socketCtx (nonblock user')) :
    Transparent keep { files := σ.files.change fd refused f, fdMgr := σ.fdMgr.put fd ctx }
      (files.change fd refused g) := by
  rw [change_eq hsys, change_eq huser]
  refine h.set fd (fun fd' hne => ?_) ?_
  · simp only [FdManager.get_put, files_set, if_neg hne, and_self]
  · simp only [FdManager.get_put, files_set, if_true, hctx, hf, hg]
    exact .socket halike hbit

theorem refused_same {user : FileFlags} {v : Bool} {refused : Option Nat}
    (hctx : σ.fdMgr.get fd = some (socketCtx (nonblock user)))
    (h : RefusedOnly σ fd v refused) (hrefused : refused ≠ none) : nonblock user = v := by
  have hall := h.resolve_left hrefused
  rw [hctx] at hall
  exact eq_of_beq hall

theorem fcntlSetfl_transparent (h : Transparent keep σ files) {arg : FileFlags}
    {refused : Option Nat} (hrefused : RefusedOnly σ fd (nonblock arg) refused) {σ' : Hooked}
    (hstep : σ.step (.fcntlSetfl fd arg refused) = some σ') :
    Transparent keep σ' (files.change fd refused fun flags => setfl flags arg) := by
  have hfd := h fd
  generalize hctx : σ.fdMgr.get fd = ctx at hfd
  generalize hsys : σ.files fd = sys at hfd
  generalize huser : files fd = user at hfd
  cases hfd with
  | plain =>
      simp only [Hooked.step, context_none hctx, Files.step, Option.map_some] at hstep
      cases hstep
      exact h.change_plain hctx hsys huser refused _
  | @socket sys user halike hbit =>
      simp only [Hooked.step, context_socket hctx, Files.step, Option.map_some] at hstep
      cases hstep
      by_cases hnone : refused = none
      · refine h.change hsys huser (if_pos hnone) (if_pos hnone) ?_ ?_ ?_
        · exact halike.setfl (Alike.or_nonblock arg)
        · intro _
          rw [nonblock_setfl]
          exact nonblock_or arg
        · rw [nonblock_setfl]
          rfl
      · refine h.change hsys huser (if_neg hnone) (if_neg hnone) halike hbit ?_
        rw [refused_same hctx hrefused hnone]
        rfl

theorem ioctlFionbio_transparent (h : Transparent keep σ files) {on : Bool}
    {refused : Option Nat} (hrefused : RefusedOnly σ fd on refused)
    (hrules : keep -> on = true ∨ σ.fdMgr.get fd = none) {σ' : Hooked}
    (hstep : σ.step (.ioctlFionbio fd on refused) = some σ') :
    Transparent keep σ' (files.change fd refused fun flags => fionbio flags on) := by
  have hfd := h fd
  generalize hctx : σ.fdMgr.get fd = ctx at hfd hrules
  generalize hsys : σ.files fd = sys at hfd
  generalize huser : files fd = user at hfd
  cases hfd with
  | plain =>
      simp only [Hooked.step, context_none hctx, Files.step, Option.map_some] at hstep
      cases hstep
      exact h.change_plain hctx hsys huser refused _
  | @socket sys user halike hbit =>
      simp only [Hooked.step, context_socket hctx, Files.step, Option.map_some] at hstep
      cases hstep
      by_cases hnone : refused = none
      · refine h.change hsys huser (if_pos hnone) (if_pos hnone) (halike.fionbio on) ?_ ?_
        · rw [nonblock_fionbio, nonblock_fionbio]
          rintro (hon | hkeep)
          · exact hon
          · exact (hrules hkeep).resolve_right nofun
        · rw [nonblock_fionbio]
          rfl
      · refine h.change hsys huser (if_neg hnone) (if_neg hnone) halike hbit ?_
        rw [refused_same hctx hrefused hnone]
        rfl

theorem give_value {file : OpenFile} {n : FileFlags} {files' : Files}
    (h : files.give file (.value n) = some files') :
    n.msb = false ∧ files n.toNat = none ∧ files' = files.set n.toNat (some file) := by
  rw [Files.give] at h
  by_cases hfree : n.msb = false ∧ files n.toNat = none
  · rw [if_pos hfree] at h
    exact ⟨hfree.1, hfree.2, (Option.some.inj h).symm⟩
  · rw [if_neg hfree] at h
    cases h

/-- What is free on one side is free on the other. -/
theorem Transparent.give (h : Transparent keep σ files) {file : OpenFile} {n : FileFlags}
    {sys : Files} (hsys : σ.files.give file (.value n) = some sys) :
    sys = σ.files.set n.toNat (some file) ∧ σ.files n.toNat = none ∧
      files.give file (.value n) = some (files.set n.toNat (some file)) := by
  rcases give_value hsys with ⟨hint, hfree, rfl⟩
  exact ⟨rfl, hfree, if_pos ⟨hint, (h _).none_iff.mp hfree⟩⟩

theorem accept_transparent (h : Transparent keep σ files) {hook : Bool} {first : Attempt}
    {again : List Attempt} (hrule : IoRule σ hook fd first) {σ' : Hooked}
    (hstep : σ.step (.accept hook fd first again) = some σ') :
    exists files', files.step (.accept hook fd first again) = some files' ∧
      Transparent keep σ' files' := by
  have hseen : (σ.doIo hook fd first again).seen = files.attempt fd first :=
    doIo_seen h hrule
  rcases Option.map_eq_some_iff.mp hstep with ⟨sys, hsys, hσ'⟩
  change exists files', files.accepted (files.attempt fd first) = some files' ∧ _
  rw [← hseen]
  cases hanswer : σ.doIo hook fd first again with
  | returns r =>
      rw [hanswer] at hsys hσ'
      cases r with
      | value n =>
          rcases h.give hsys with ⟨rfl, hfree, huser⟩
          cases hσ'
          exact ⟨_, huser, h.register hfree (by decide)⟩
      | fail errno =>
          cases hsys
          cases hσ'
          exact ⟨files, rfl, h⟩
  | blocks =>
      rw [hanswer] at hsys hσ'
      cases hsys
      cases hσ'
      exact ⟨files, rfl, h⟩
  | yields =>
      rw [hanswer] at hsys hσ'
      cases hsys
      cases hσ'
      exact ⟨files, rfl, h⟩

theorem step_transparent (h : Transparent keep σ files) {call : SystemCall}
    (hrules : Rules keep σ call) {σ' : Hooked} (hstep : σ.step call = some σ') :
    exists files', files.step call = some files' ∧ Transparent keep σ' files' := by
  cases call with
  | openFile flags result =>
      rcases Option.map_eq_some_iff.mp hstep with ⟨sys, hsys, rfl⟩
      cases result with
      | value n =>
          rcases h.give hsys with ⟨rfl, hfree, huser⟩
          exact ⟨_, huser, h.same n.toNat _ (h.free hfree)⟩
      | fail errno =>
          cases hsys
          exact ⟨files, rfl, h⟩
  | socket hook type result =>
      rcases Option.map_eq_some_iff.mp hstep with ⟨sys, hsys, rfl⟩
      cases result with
      | value n =>
          rcases h.give hsys with ⟨rfl, hfree, huser⟩
          refine ⟨_, huser, ?_⟩
          cases hook with
          | true => exact h.register hfree (hrules rfl)
          | false => exact h.same n.toNat _ (h.free hfree)
      | fail errno =>
          cases hsys
          refine ⟨files, rfl, ?_⟩
          cases hook with
          | true => exact h
          | false => exact h
  | accept hook s first again => exact accept_transparent h hrules hstep
  | connect hook fd attempt =>
      cases hstep
      exact ⟨files, rfl, h⟩
  | io hook fd first again =>
      cases hstep
      exact ⟨files, rfl, h⟩
  | close hook fd result =>
      cases hstep
      exact ⟨_, rfl, h.close hrules⟩
  | fcntlSetfl fd arg refused => exact ⟨_, rfl, fcntlSetfl_transparent h hrules hstep⟩
  | fcntlGetfl fd =>
      cases hstep
      exact ⟨files, rfl, h⟩
  | ioctlFionbio fd on refused =>
      exact ⟨_, rfl, ioctlFionbio_transparent h hrules.1 hrules.2 hstep⟩

/-!
# Whole runs
-/

/-- The hooks show their users nothing that the system alone would not. -/
theorem stands_in {tr : List (Transition Hooked SystemCall)} (h : hookSystem.Trace tr σ)
    (hrules : forall t, t ∈ tr -> Rules keep t.before t.action) :
    exists tr' files, kernelSystem.Trace tr' files ∧ Transparent keep σ files ∧
      seen Files.answer tr' = seen (fun σ call => (σ.answer call).seen) tr := by
  refine Trace.stands_in (C := fun t => Rules keep t.before t.action) Transparent.initial ?_ h
    hrules
  intro σ σ' files call hrel hstep hrule
  rcases step_transparent hrel hrule hstep with ⟨files', hstep', hrel'⟩
  exact ⟨files', hstep', hrel', (answer_seen hrel hrule).symm⟩

/-- A call on the descriptor that a hooked thread makes and that may have to wait. -/
def SystemCall.MayWait (call : SystemCall) (fd : Nat) : Prop :=
  (exists first again, call = .accept true fd first again) ∨
    (exists attempt, call = .connect true fd attempt) ∨
      exists first again, call = .io true fd first again

theorem wait_ne_blocks {busy : Nat} {answer : Answer} (h : answer ≠ .blocks) :
    Hooked.wait busy answer ≠ .blocks := by
  cases answer with
  | returns r =>
      cases r with
      | value n => exact nofun
      | fail errno =>
          by_cases heq : errno = busy
          · simp only [Hooked.wait, if_pos heq]
            exact nofun
          · simp only [Hooked.wait, if_neg heq]
            exact nofun
  | blocks => exact absurd rfl h
  | yields => exact nofun

theorem doIo_ne_blocks {file : OpenFile} {v : Bool} {first : Attempt} {again : List Attempt}
    (hfile : σ.files fd = some file) (hbit : nonblock file.flags = true)
    (hctx : σ.fdMgr.get fd = some (socketCtx v)) (hrule : IoRule σ true fd first) :
    σ.doIo true fd first again ≠ .blocks := by
  have hattempt : σ.files.attempt fd first = .returns first.atOnce := by
    rw [attempt_open hfile, if_pos hbit]
  cases v with
  | true =>
      rw [doIo_passed true first again (Or.inr hctx), hattempt]
      exact nofun
  | false =>
      rcases hrule (leftBlocking_iff hctx) with ⟨_, hsettled, hsignal⟩
      rw [doIo_left first again hctx, uninterrupted_settled hfile hsettled hsignal, hattempt]
      exact wait_ne_blocks nofun

theorem connect_ne_blocks {file : OpenFile} {v : Bool} {attempt : Attempt}
    (hfile : σ.files fd = some file) (hbit : nonblock file.flags = true)
    (hctx : σ.fdMgr.get fd = some (socketCtx v)) :
    σ.connectWithTimeout true fd attempt ≠ .blocks := by
  have hattempt : σ.files.attempt fd attempt = .returns attempt.atOnce := by
    rw [attempt_open hfile, if_pos hbit]
  cases v with
  | true =>
      have hsome : true = true -> σ.fdMgr.get fd ≠ none := by
        intro _ hnone
        rw [hctx] at hnone
        cases hnone
      rw [connect_passed true attempt hsome (Or.inr hctx), hattempt]
      exact nofun
  | false =>
      rw [connect_left attempt hctx, hattempt]
      exact wait_ne_blocks nofun

/-- As long as its sockets stay nonblocking for the system, a worker never waits in a call on
one of them: the fiber does. -/
theorem answer_ne_blocks (h : Transparent True σ files) {call : SystemCall}
    (hrules : Rules True σ call) (hcall : call.MayWait fd) (hctx : σ.fdMgr.get fd ≠ none) :
    σ.answer call ≠ .blocks := by
  have hfd := h fd
  generalize hget : σ.fdMgr.get fd = ctx at hfd hctx
  generalize hsys : σ.files fd = sys at hfd
  generalize files fd = user at hfd
  cases hfd with
  | plain => exact absurd rfl hctx
  | @socket sys user halike hbit =>
      have hnonblock : nonblock sys = true := hbit (Or.inr trivial)
      rcases hcall with ⟨first, again, rfl⟩ | ⟨attempt, rfl⟩ | ⟨first, again, rfl⟩
      · exact doIo_ne_blocks hsys hnonblock hget hrules
      · exact connect_ne_blocks hsys hnonblock hget
      · exact doIo_ne_blocks hsys hnonblock hget hrules

end

/-- Nothing has come in. -/
def nothingYet : Attempt where
  waiting := none
  atOnce := .fail eagain

def connecting : Attempt where
  waiting := none
  atOnce := .fail einprogress

def served (r : Returned) : Attempt where
  waiting := some r
  atOnce := r

def oDirect : FileFlags := BitVec.twoPow 32 14

def einval : Nat := 22

def twoSocketsCalls : List SystemCall :=
  [.socket true 1#32 (.value 5), .fcntlGetfl 5, .io true 5 nothingYet [],
    .fcntlSetfl 5 oNonblock none, .fcntlGetfl 5, .io true 5 nothingYet [],
    .fcntlSetfl 5 (oNonblock ||| oDirect) (some einval), .fcntlSetfl 5 0 none,
    .accept true 5 nothingYet [], .accept true 5 (served (.value 70)) [], .fcntlGetfl 70,
    .connect true 70 connecting, .ioctlFionbio 70 true none, .io false 70 nothingYet [],
    .close true 5 (.value 0), .openFile 0 (.value 5), .fcntlGetfl 5, .close false 5 (.value 0),
    .close true 70 (.value 0)]

def twoSocketsRun : hookSystem.Run :=
  TransitionSystem.runOf _ twoSocketsCalls (by decide +kernel)

end Fiber
end KVRaft
