import LinuxApp.Lib.CInt
import LinuxApp.Lib.Lifetime
import LinuxApp.Lib.Prog

/-!
# The system calls of the driver

`open`, `close`, `poll` with one descriptor, `read` and `write` as requests, with
all answers Linux may give: a positive errno, or a result within the bounds of the
request. `fdTable` is the kernel's side of descriptors: an `open` answers with one
that is not open, and `close` releases the descriptor even where it fails. It does
not check that a descriptor in use is open; that is what `fdOps`, read as a log of
lifetimes, is for.
-/

namespace LinuxApp.Drivers

open Lib

/-- A value of `errno` after a failed call. -/
structure Errno where
  val : Int
  pos : 0 < val
  deriving DecidableEq

inductive Syscall where
  | openFile (path : List UInt8) (flags : Nat)
  | close (fd : Int)
  /-- `poll` on one `pollfd`. -/
  | poll (fd : Int) (events : BitVec 16) (timeout : Int)
  | read (fd : Int) (len : Nat)
  | write (fd : Int) (bytes : List UInt8)
  deriving DecidableEq

inductive OpenAnswer where
  | failed (e : Errno)
  | fd (n : Nat)

inductive CloseAnswer where
  | failed (e : Errno)
  | closed

inductive PollAnswer where
  | failed (e : Errno)
  | timeout
  | ready (revents : BitVec 16)

inductive ReadAnswer (len : Nat) where
  | failed (e : Errno)
  | data (bytes : List UInt8) (fits : bytes.length ≤ len)

inductive WriteAnswer (len : Nat) where
  | failed (e : Errno)
  | count (n : Nat) (fits : n ≤ len)

def Syscall.Answer : Syscall → Type
  | .openFile _ _ => OpenAnswer
  | .close _ => CloseAnswer
  | .poll _ _ _ => PollAnswer
  | .read _ len => ReadAnswer len
  | .write _ bytes => WriteAnswer bytes.length

abbrev Posix : Signature := ⟨Syscall, Syscall.Answer⟩

/-- One system call. -/
def sys (r : Syscall) : Prog Posix r.Answer := Prog.call (S := Posix) r

abbrev Exchanges := List (Exchange Posix)

/-! ## Constants -/

def pollIn : BitVec 16 := 0x001
def pollErr : BitVec 16 := 0x008
def pollHup : BitVec 16 := 0x010
def pollNval : BitVec 16 := 0x020

def oRdwr : Nat := 0o2
def oNonblock : Nat := 0o4000

/-! ## Descriptors -/

/-- The open descriptors after one exchange; `none` on an `open` that would answer
with an open descriptor. -/
def fdTable (fds : Finset Int) : Exchange Posix → Option (Finset Int)
  | ⟨.openFile _ _, .fd n⟩ => if (n : Int) ∈ fds then none else some (insert (n : Int) fds)
  | ⟨.close fd, _⟩ => some (fds.erase fd)
  | _ => some fds

/-- What an exchange does with its descriptor. -/
def fdOp : Exchange Posix → Option (Int × Lifetime.Op)
  | ⟨.openFile _ _, .fd n⟩ => some (n, .acquire)
  | ⟨.openFile _ _, .failed _⟩ => none
  | ⟨.close fd, _⟩ => some (fd, .release)
  | ⟨.poll fd _ _, _⟩ | ⟨.read fd _, _⟩ | ⟨.write fd _, _⟩ => some (fd, .use)

def fdOps (es : Exchanges) : List (Int × Lifetime.Op) := es.filterMap fdOp

end LinuxApp.Drivers
