import Mathlib.Data.List.Basic
import Mathlib.Logic.Function.Basic

/-!
# Contexts of sockets

The open files of the process with their status flags, and the table that holds what the
user of a socket has asked for.  A socket with a context is nonblocking for the system,
whatever its user thinks.
-/

namespace KVRaft
namespace Fiber

/-!
# Status flags
-/

abbrev FileFlags := BitVec 32

/-- `O_NONBLOCK` as a bit, the same as `SOCK_NONBLOCK` in the type of a new socket. -/
def oNonblock : FileFlags := BitVec.twoPow 32 11

/-- `O_APPEND`, `O_NONBLOCK`, `O_ASYNC`, `O_DIRECT` and `O_NOATIME`. -/
def setflMask : FileFlags := 0x00046C00#32

def oRdwr : FileFlags := 2#32

/-- `flags & O_NONBLOCK` as a truth value. -/
def nonblock (flags : FileFlags) : Bool :=
  flags &&& oNonblock != 0#32

/-- What `F_SETFL` makes of the flags of a file. -/
def setfl (flags arg : FileFlags) : FileFlags :=
  (flags &&& ~~~setflMask) ||| (arg &&& setflMask)

/-- What `FIONBIO` makes of them. -/
def fionbio (flags : FileFlags) (on : Bool) : FileFlags :=
  if on then flags ||| oNonblock else flags &&& ~~~oNonblock

theorem getLsbD_oNonblock (i : Nat) : oNonblock.getLsbD i = decide (i = 11) := by
  rw [oNonblock, BitVec.getLsbD_twoPow, decide_eq_true (show 11 < 32 by decide),
    Bool.true_and]
  exact decide_eq_decide.mpr eq_comm

theorem nonblock_eq (flags : FileFlags) : nonblock flags = flags.getLsbD 11 := by
  rw [nonblock, oNonblock, BitVec.and_twoPow]
  cases flags.getLsbD 11 with
  | true => decide
  | false => rfl

/-- Two words of flags may differ in `O_NONBLOCK` only. -/
def Alike (a b : FileFlags) : Prop :=
  forall i, i ≠ 11 -> a.getLsbD i = b.getLsbD i

namespace Alike

variable {a b c : FileFlags}

theorem refl (a : FileFlags) : Alike a a :=
  fun _ _ => rfl

theorem or_nonblock (a : FileFlags) : Alike (a ||| oNonblock) a := by
  intro i hi
  rw [BitVec.getLsbD_or, getLsbD_oNonblock, decide_eq_false hi, Bool.or_false]

theorem and_nonblock (a : FileFlags) : Alike (a &&& ~~~oNonblock) a := by
  intro i hi
  by_cases hlt : i < 32
  · rw [BitVec.getLsbD_and, BitVec.getLsbD_not, getLsbD_oNonblock, decide_eq_false hi,
      decide_eq_true hlt, Bool.not_false, Bool.and_true, Bool.and_true]
  · rw [BitVec.getLsbD_of_ge _ _ (Nat.le_of_not_lt hlt),
      BitVec.getLsbD_of_ge _ _ (Nat.le_of_not_lt hlt)]

theorem trans (h : Alike a b) (h' : Alike b c) : Alike a c :=
  fun i hi => (h i hi).trans (h' i hi)

theorem symm (h : Alike a b) : Alike b a :=
  fun i hi => (h i hi).symm

theorem setfl (h : Alike a b) {arg arg' : FileFlags} (harg : Alike arg arg') :
    Alike (setfl a arg) (setfl b arg') := by
  intro i hi
  simp only [Fiber.setfl, BitVec.getLsbD_or, BitVec.getLsbD_and, h i hi, harg i hi]

theorem fionbio (h : Alike a b) (on : Bool) : Alike (fionbio a on) (fionbio b on) := by
  cases on with
  | true => exact (or_nonblock a).trans (h.trans (or_nonblock b).symm)
  | false => exact (and_nonblock a).trans (h.trans (and_nonblock b).symm)

/-- With one `O_NONBLOCK` they are the same. -/
theorem eq (h : Alike a b) (hbit : nonblock a = nonblock b) : a = b := by
  rw [nonblock_eq, nonblock_eq] at hbit
  refine BitVec.eq_of_getLsbD_eq fun i _ => ?_
  by_cases hi : i = 11
  · rw [hi]
    exact hbit
  · exact h i hi

end Alike

@[simp] theorem nonblock_or (a : FileFlags) : nonblock (a ||| oNonblock) = true := by
  rw [nonblock_eq, BitVec.getLsbD_or, getLsbD_oNonblock, decide_eq_true rfl, Bool.or_true]

@[simp] theorem nonblock_and_not (a : FileFlags) :
    nonblock (a &&& ~~~oNonblock) = false := by
  rw [nonblock_eq, BitVec.getLsbD_and, BitVec.getLsbD_not, getLsbD_oNonblock,
    decide_eq_true rfl, Bool.not_true, Bool.and_false, Bool.and_false]

@[simp] theorem nonblock_setfl (a arg : FileFlags) :
    nonblock (setfl a arg) = nonblock arg := by
  have hmask : setflMask.getLsbD 11 = true := by
    decide
  rw [nonblock_eq, nonblock_eq, setfl, BitVec.getLsbD_or, BitVec.getLsbD_and,
    BitVec.getLsbD_and, BitVec.getLsbD_not, hmask]
  simp

@[simp] theorem nonblock_fionbio (a : FileFlags) (on : Bool) :
    nonblock (fionbio a on) = on := by
  cases on with
  | true => exact nonblock_or a
  | false => exact nonblock_and_not a

/-!
# Contexts
-/

structure OpenFile where
  socket : Bool
  flags : FileFlags
  deriving DecidableEq, Repr

/-- The open files of the process by their descriptors. -/
abbrev Files := Nat -> Option OpenFile

/-- `isClosed` is never set. -/
structure FdCtx where
  isInit : Bool
  isSocket : Bool
  sysNonblock : Bool
  userNonblock : Bool
  isClosed : Bool
  deriving DecidableEq, Repr

/-- The constructor with `FdCtx::init`, which makes a socket nonblocking. -/
def FdCtx.create (files : Files) (fd : Nat) : Files × FdCtx :=
  match files fd with
  | none =>
      (files,
        { isInit := false
          isSocket := false
          sysNonblock := false
          userNonblock := false
          isClosed := false })
  | some file =>
      if file.socket then
        let flags := if nonblock file.flags then file.flags else setfl file.flags
          (file.flags ||| oNonblock)
        (Function.update files fd (some { file with flags := flags }),
          { isInit := true
            isSocket := true
            sysNonblock := true
            userNonblock := false
            isClosed := false })
      else
        (files,
          { isInit := true
            isSocket := false
            sysNonblock := false
            userNonblock := false
            isClosed := false })

/-- The table never has fewer places than it starts with. -/
structure FdManager where
  datas : List (Option FdCtx)
  large : 64 ≤ datas.length

namespace FdManager

theorem large_create : 64 ≤ (List.replicate 64 (none : Option FdCtx)).length :=
  Nat.le_of_eq List.length_replicate.symm

def create : FdManager where
  datas := List.replicate 64 none
  large := large_create

/-- `get` without `auto_create`. -/
def get (m : FdManager) (fd : Nat) : Option FdCtx :=
  (m.datas[fd]?).join

/-- `std::vector::resize` to a size that is not smaller. -/
def resize (datas : List (Option FdCtx)) (size : Nat) : List (Option FdCtx) :=
  datas ++ List.replicate (size - datas.length) none

/-- The table with a place for the descriptor. -/
def grown (datas : List (Option FdCtx)) (fd : Nat) : List (Option FdCtx) :=
  if datas.length ≤ fd then resize datas (fd * 3 / 2) else datas

theorem length_le_grown (datas : List (Option FdCtx)) (fd : Nat) :
    datas.length ≤ (grown datas fd).length := by
  unfold grown
  by_cases hfd : datas.length ≤ fd
  · rw [if_pos hfd, resize, List.length_append]
    exact Nat.le_add_right _ _
  · exact Nat.le_of_eq (congrArg List.length (if_neg hfd).symm)

theorem large_set (m : FdManager) (fd : Nat) (ctx : Option FdCtx) :
    64 ≤ ((grown m.datas fd).set fd ctx).length := by
  rw [List.length_set]
  exact Nat.le_trans m.large (length_le_grown m.datas fd)

theorem large_del (m : FdManager) (fd : Nat) : 64 ≤ (m.datas.set fd none).length := by
  rw [List.length_set]
  exact m.large

/-- The place of the descriptor is written. -/
def put (m : FdManager) (fd : Nat) (ctx : FdCtx) : FdManager where
  datas := (grown m.datas fd).set fd (some ctx)
  large := m.large_set fd (some ctx)

/-- `get` with `auto_create`. -/
def getOrCreate (m : FdManager) (files : Files) (fd : Nat) : Files × FdManager :=
  match m.get fd with
  | some _ => (files, m)
  | none => ((FdCtx.create files fd).1, m.put fd (FdCtx.create files fd).2)

/-- A descriptor behind the end of the table has nothing to delete. -/
def del (m : FdManager) (fd : Nat) : FdManager where
  datas := m.datas.set fd none
  large := m.large_del fd

variable (m : FdManager) {fd : Nat}

theorem get_create (fd : Nat) : create.get fd = none := by
  unfold get create
  rw [List.getElem?_replicate]
  by_cases hfd : fd < 64
  · rw [if_pos hfd]
    rfl
  · rw [if_neg hfd]
    rfl

theorem get_grown (fd fd' : Nat) : ((grown m.datas fd)[fd']?).join = m.get fd' := by
  unfold grown get
  by_cases hfd : m.datas.length ≤ fd
  · rw [if_pos hfd, resize]
    by_cases hin : fd' < m.datas.length
    · rw [List.getElem?_append_left hin]
    · rw [List.getElem?_append_right (Nat.le_of_not_lt hin), List.getElem?_replicate,
        List.getElem?_eq_none (Nat.le_of_not_lt hin)]
      by_cases hnew : fd' - m.datas.length < fd * 3 / 2 - m.datas.length
      · rw [if_pos hnew]
        rfl
      · rw [if_neg hnew]
  · rw [if_neg hfd]

/-- The growth by a half makes room for the descriptor. -/
theorem lt_grown (fd : Nat) : fd < (grown m.datas fd).length := by
  have hlarge := m.large
  unfold grown
  by_cases hfd : m.datas.length ≤ fd
  · rw [if_pos hfd, resize, List.length_append, List.length_replicate]
    omega
  · rw [if_neg hfd]
    omega

@[simp] theorem get_put (ctx : FdCtx) (fd' : Nat) :
    (m.put fd ctx).get fd' = if fd' = fd then some ctx else m.get fd' := by
  have hplace : (m.put fd ctx).get fd' =
      (((grown m.datas fd).set fd (some ctx))[fd']?).join := rfl
  rw [hplace]
  by_cases hfd : fd' = fd
  · rw [if_pos hfd, hfd, List.getElem?_set_self (m.lt_grown fd)]
    rfl
  · rw [if_neg hfd, List.getElem?_set_ne (fun h => hfd h.symm)]
    exact m.get_grown fd fd'

@[simp] theorem get_del (fd fd' : Nat) :
    (m.del fd).get fd' = if fd' = fd then none else m.get fd' := by
  have hplace : (m.del fd).get fd' = ((m.datas.set fd none)[fd']?).join := rfl
  rw [hplace]
  by_cases hfd : fd' = fd
  · rw [if_pos hfd, hfd, List.getElem?_set]
    by_cases hin : fd < m.datas.length
    · rw [if_pos rfl, if_pos hin]
      rfl
    · rw [if_pos rfl, if_neg hin]
      rfl
  · rw [if_neg hfd, List.getElem?_set_ne (fun h => hfd h.symm)]
    rfl

end FdManager
end Fiber
end KVRaft
