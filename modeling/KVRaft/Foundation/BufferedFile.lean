import Mathlib.Data.List.Basic

/-!
# Buffered files

A file together with the output stream bound to it.  What is written goes
through the buffer of the stream, which lets through to the file as much as it
likes and, when it is closed, all the rest.  A process that is killed loses what
is still in the buffer.
-/

namespace KVRaft
namespace Foundation

structure BufferedFile (α : Type) where
  file : List α
  buffer : List α
  deriving DecidableEq, Repr

namespace BufferedFile

variable {α : Type}

def empty : BufferedFile α where
  file := []
  buffer := []

/-- What the file holds once everything written has reached it. -/
def contents (f : BufferedFile α) : List α :=
  f.file ++ f.buffer

def close (f : BufferedFile α) : BufferedFile α where
  file := f.contents
  buffer := []

def openTruncated (f : BufferedFile α) : BufferedFile α :=
  { f with file := [] }

/-- Writing, with the number of elements that the stream lets through. -/
def write (f : BufferedFile α) (data : List α) (through : Nat) : BufferedFile α where
  file := f.file ++ (f.buffer ++ data).take through
  buffer := (f.buffer ++ data).drop through

@[simp] theorem file_close (f : BufferedFile α) : f.close.file = f.contents :=
  rfl

@[simp] theorem file_empty : (empty : BufferedFile α).file = [] :=
  rfl

@[simp] theorem contents_empty : (empty : BufferedFile α).contents = [] :=
  rfl

@[simp] theorem close_openTruncated (f : BufferedFile α) : f.close.openTruncated = empty :=
  rfl

@[simp] theorem contents_write (f : BufferedFile α) (data : List α) (through : Nat) :
    (f.write data through).contents = f.contents ++ data := by
  simp only [contents, write, List.append_assoc, List.take_append_drop]

@[simp] theorem file_write_empty (data : List α) (through : Nat) :
    (empty.write data through).file = data.take through :=
  rfl

/-- Nothing is held back exactly when the file has its whole contents. -/
theorem file_eq_contents {f : BufferedFile α} : f.file = f.contents <-> f.buffer = [] := by
  constructor
  · intro h
    have hsame : f.file ++ [] = f.file ++ f.buffer := by
      rw [List.append_nil]
      exact h
    exact (List.append_cancel_left hsame).symm
  · intro h
    rw [contents, h, List.append_nil]

end BufferedFile
end Foundation
end KVRaft
