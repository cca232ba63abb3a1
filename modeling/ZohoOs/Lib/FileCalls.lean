/-
  ZohoOs.Lib.FileCalls — byte-stream files behind descriptors.

  A file is a list of bytes under a path.  Opening a path gives a descriptor
  at offset 0, and leaves what the file already holds; a path without a file
  is given an empty one if the caller asks for it.  Reads and writes go on
  where the last one on the descriptor ended.  Whether an open succeeds, and
  with which descriptor, is up to the system: `grant k` is its answer to the
  `k`-th open.

  Every call on a file is logged, with what it read, wrote or left behind.

    * `overwrite_append` — two writes in a row are one;
    * `OpenFiles.readNext_file`, `OpenFiles.writeNext_file`,
      `OpenFiles.closeFd_file` — a call on a descriptor of a file.
-/
import ZohoOs.Lib.Bytes
import Mathlib.Data.List.Basic
import Mathlib.Logic.Function.Basic

namespace ZohoOs.Lib

universe u

/-- A descriptor is an `int` that is not negative. -/
abbrev FileNo := Fin (2 ^ 31)

/-- What a descriptor stands for. -/
inductive Stream (P : Type u) where
  | console
  | file (path : P) (offset : Nat)

/-- A call on a file. -/
inductive FileCall (P : Type u) where
  /-- `answer` is `none` for an open that failed. -/
  | opened (path : P) (create : Bool) (answer : Option FileNo)
  | read (fd : FileNo) (bytes : Text)
  | wrote (fd : FileNo) (bytes : Text)
  /-- `content` is what the file holds when its descriptor is closed. -/
  | closed (fd : FileNo) (content : Text)
  deriving DecidableEq

/-- The files of a system, the open descriptors, and what was done so far. -/
structure OpenFiles (P : Type u) where
  files : P → Option Text
  fds : FileNo → Option (Stream P)
  console : Text
  /-- The number of opens so far. -/
  opens : Nat
  calls : List (FileCall P)

/-- The content of a file after `bytes` are written at `offset`. -/
def overwrite (content : Text) (offset : Nat) (bytes : Text) : Text :=
  content.take offset ++ List.replicate (offset - content.length) 0 ++ bytes
    ++ content.drop (offset + bytes.length)

/-! ## §1. The calls. -/

namespace OpenFiles

variable {P : Type u} [DecidableEq P] (s : OpenFiles P)

/-- The bytes under a path; a path without a file has none. -/
def content (path : P) : Text := (s.files path).getD []

def openPath (grant : Nat → Option FileNo) (path : P) (create : Bool) : Option FileNo × OpenFiles P :=
  let answer := if (s.files path).isSome ∨ create then grant s.opens else none
  (answer,
    { s with
      files := if answer.isSome then Function.update s.files path (some (s.content path)) else s.files
      fds := match answer with
        | some fd => Function.update s.fds fd (some (.file path 0))
        | none => s.fds
      opens := s.opens + 1
      calls := s.calls ++ [.opened path create answer] })

/-- At most `count` bytes; `none` stands for a negative result. -/
def readNext (fd : FileNo) (count : Nat) : Option Text × OpenFiles P :=
  match s.fds fd with
  | none => (none, s)
  | some .console => (some [], s)
  | some (.file path offset) =>
    let bytes := ((s.content path).drop offset).take count
    (some bytes,
      { s with
        fds := Function.update s.fds fd (some (.file path (offset + bytes.length)))
        calls := s.calls ++ [.read fd bytes] })

def writeNext (fd : FileNo) (bytes : Text) : OpenFiles P :=
  match s.fds fd with
  | none => s
  | some .console => { s with console := s.console ++ bytes }
  | some (.file path offset) =>
    { s with
      files := Function.update s.files path (some (overwrite (s.content path) offset bytes))
      fds := Function.update s.fds fd (some (.file path (offset + bytes.length)))
      calls := s.calls ++ [.wrote fd bytes] }

def closeFd (fd : FileNo) : OpenFiles P :=
  match s.fds fd with
  | none => s
  | some .console => { s with fds := Function.update s.fds fd none }
  | some (.file path _) =>
    { s with
      fds := Function.update s.fds fd none
      calls := s.calls ++ [.closed fd (s.content path)] }

end OpenFiles

/-! ## §2. What the log says. -/

namespace FileCall

variable {P : Type u}

/-- The opens of a log. -/
def opensOf (log : List (FileCall P)) : List (P × Bool × Option FileNo) :=
  log.filterMap fun
    | .opened path create answer => some (path, create, answer)
    | _ => none

/-- The bytes read from a descriptor. -/
def bytesRead (fd : FileNo) (log : List (FileCall P)) : Text :=
  log.flatMap fun
    | .read fd' bytes => if fd' = fd then bytes else []
    | _ => []

/-- The bytes written to a descriptor. -/
def bytesWritten (fd : FileNo) (log : List (FileCall P)) : Text :=
  log.flatMap fun
    | .wrote fd' bytes => if fd' = fd then bytes else []
    | _ => []

/-- The closes of a log, each with what its file held then. -/
def closesOf (log : List (FileCall P)) : List (FileNo × Text) :=
  log.filterMap fun
    | .closed fd content => some (fd, content)
    | _ => none

variable (fd fd' : FileNo) (l l' : List (FileCall P))

@[simp] theorem opensOf_nil : opensOf ([] : List (FileCall P)) = [] := rfl
@[simp] theorem bytesRead_nil : bytesRead fd ([] : List (FileCall P)) = [] := rfl
@[simp] theorem bytesWritten_nil : bytesWritten fd ([] : List (FileCall P)) = [] := rfl
@[simp] theorem closesOf_nil : closesOf ([] : List (FileCall P)) = [] := rfl

@[simp] theorem opensOf_append : opensOf (l ++ l') = opensOf l ++ opensOf l' := List.filterMap_append

@[simp] theorem bytesRead_append : bytesRead fd (l ++ l') = bytesRead fd l ++ bytesRead fd l' :=
  List.flatMap_append

@[simp] theorem bytesWritten_append : bytesWritten fd (l ++ l') = bytesWritten fd l ++ bytesWritten fd l' :=
  List.flatMap_append

@[simp] theorem closesOf_append : closesOf (l ++ l') = closesOf l ++ closesOf l' := List.filterMap_append

end FileCall

/-! ## §3. Calls on a file. -/

/-- A write that starts within the file. -/
theorem overwrite_within {content : Text} {offset : Nat} (hoff : offset ≤ content.length) (bytes : Text) :
    overwrite content offset bytes = content.take offset ++ bytes ++ content.drop (offset + bytes.length) := by
  rw [overwrite, Nat.sub_eq_zero_of_le hoff, List.replicate_zero, List.append_nil]

/-- **Two writes in a row** are one. -/
theorem overwrite_append {content : Text} {offset : Nat} (hoff : offset ≤ content.length) (a b : Text) :
    overwrite (overwrite content offset a) (offset + a.length) b = overwrite content offset (a ++ b) := by
  have hfront : (content.take offset ++ a).length = offset + a.length := by
    rw [List.length_append, List.length_take_of_le hoff]
  have hwithin : offset + a.length ≤ (content.take offset ++ a ++ content.drop (offset + a.length)).length := by
    rw [List.length_append, hfront]
    exact Nat.le_add_right _ _
  rw [overwrite_within hoff a, overwrite_within hwithin, overwrite_within hoff]
  rw [← hfront, List.take_left, List.drop_append, List.drop_eq_nil_of_le (Nat.le_add_right _ _), List.nil_append,
    List.drop_drop, hfront, List.length_append, ← List.append_assoc]
  congr 2
  omega

/-- A write at the start of a file. -/
theorem overwrite_zero (content bytes : Text) :
    overwrite content 0 bytes = bytes ++ content.drop bytes.length := by
  rw [overwrite_within (Nat.zero_le _), List.take_zero, List.nil_append, Nat.zero_add]

namespace OpenFiles

variable {P : Type u} [DecidableEq P] {s : OpenFiles P} {fd : FileNo} {path : P} {offset : Nat}

omit [DecidableEq P] in
theorem readNext_file (h : s.fds fd = some (.file path offset)) (count : Nat) :
    s.readNext fd count = (some (((s.content path).drop offset).take count),
      { s with
        fds := Function.update s.fds fd
          (some (.file path (offset + (((s.content path).drop offset).take count).length)))
        calls := s.calls ++ [.read fd (((s.content path).drop offset).take count)] }) := by
  rw [readNext, h]

theorem writeNext_file (h : s.fds fd = some (.file path offset)) (bytes : Text) :
    s.writeNext fd bytes =
      { s with
        files := Function.update s.files path (some (overwrite (s.content path) offset bytes))
        fds := Function.update s.fds fd (some (.file path (offset + bytes.length)))
        calls := s.calls ++ [.wrote fd bytes] } := by
  rw [writeNext, h]

theorem writeNext_console (h : s.fds fd = some .console) (bytes : Text) :
    s.writeNext fd bytes = { s with console := s.console ++ bytes } := by
  rw [writeNext, h]

omit [DecidableEq P] in
theorem closeFd_file (h : s.fds fd = some (.file path offset)) :
    s.closeFd fd =
      { s with
        fds := Function.update s.fds fd none
        calls := s.calls ++ [.closed fd (s.content path)] } := by
  rw [closeFd, h]

end OpenFiles

end ZohoOs.Lib
