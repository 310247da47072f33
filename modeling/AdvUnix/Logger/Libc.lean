import AdvUnix.Lib.Triple
import Mathlib.Data.BitVec

/-!
# `Logger.Libc` — the C library under the logger

The logger interposes functions of the C library and calls the real ones, so the library is a parameter: a
state of the process that it keeps, `errno` in it, and the functions that the logger calls. A hook runs on
that state and the logger's own, and ends in a `Crash` where C++ leaves the rest undefined or throws.
-/

namespace AdvUnix.Logger

open Triple

abbrev Byte := BitVec 8
abbrev Mode := BitVec 32

/-- A pointer that the library hands out, a `FILE *`. -/
abbrev Ptr := BitVec 64

/-- What `realpath(path, buf)` does: it resolves the path into the buffer, or it returns null and may have
    stored what it resolved of it. -/
inductive Realpath
  | found (resolved : String)
  | missing (stored : Option String)

/-- What `fread` does: the items it counts are among the bytes it has stored. -/
structure Items (size : Nat) where
  count : Nat
  data : List Byte
  full : count * size ≤ data.length

theorem no_items_fit (size : Nat) : 0 * size ≤ ([] : List Byte).length := Nat.le_of_eq (Nat.zero_mul size)

/-- **The C library.** A string is a sequence of bytes, one character each; `none` is the null pointer. -/
structure Libc (σ : Type) where
  errno : σ → Int
  /-- `getenv("OUTPUT_FILE")` -/
  outputFile : Option String
  realpath : Option String → σ → Realpath × σ
  readlink : String → σ → Option String × σ
  fileno : Ptr → σ → Int × σ
  dup : Int → σ → Int × σ
  chmod : Option String → Mode → σ → Int × σ
  chown : Option String → BitVec 32 → BitVec 32 → σ → Int × σ
  close : Int → σ → Int × σ
  creat : Option String → Mode → σ → Int × σ
  creat64 : Option String → Mode → σ → Int × σ
  fclose : Ptr → σ → Int × σ
  fopen : Option String → Option String → σ → Ptr × σ
  fopen64 : Option String → Option String → σ → Ptr × σ
  fread : (size nmemb : Nat) → Ptr → σ → Items size × σ
  /-- It writes no more items than it is asked for. -/
  fwrite : List Byte → (size nmemb : Nat) → Ptr → σ → Fin (nmemb + 1) × σ
  /-- `open`; the mode is passed when the flags need one. -/
  openFile : Option String → BitVec 32 → Option Mode → σ → Int × σ
  open64 : Option String → BitVec 32 → Option Mode → σ → Int × σ
  /-- The bytes read, or `none` for the result `-1`. -/
  read : Int → Nat → σ → Option (List Byte) × σ
  remove : Option String → σ → Int × σ
  rename : Option String → Option String → σ → Int × σ
  tmpfile : σ → Ptr × σ
  tmpfile64 : σ → Ptr × σ
  /-- The list is what can be read at the pointer that is passed. -/
  write : Int → List Byte → Nat → σ → Int × σ

/-- A call that succeeds may leave `errno`; `write` does. -/
structure Libc.Lawful {σ : Type} (L : Libc σ) : Prop where
  write_errno : ∀ fd data count w, 0 ≤ (L.write fd data count w).1 →
    L.errno (L.write fd data count w).2 = L.errno w

/-- How a hook ends without returning. -/
inductive Crash
  /-- A text does not fit the local buffer it is formatted into. -/
  | overflow
  /-- `std::string` is constructed from a null pointer. -/
  | nullString
  /-- `memcpy` runs over the end of a buffer. -/
  | badCopy
  /-- `strncmp` reads through the null pointer of an unset `OUTPUT_FILE`. -/
  | noOutputFile
  deriving DecidableEq, Repr

/-- What an interposed function returns. -/
inductive Ret
  | int (n : Int)
  | size (n : Nat)
  | ptr (p : Ptr)
  deriving DecidableEq, Repr

/-- The logger's globals and the process. The last two fields are for the proofs alone: what the real
    function returned and the `errno` it left, and the results of the writes to the log. -/
structure St (σ : Type) where
  fdFlag : Bool
  stderrFd : Int
  world : σ
  real : Option (Ret × Int)
  writes : List Int

abbrev Hook (σ α : Type) := StateT (St σ) (Except Crash) α

variable {σ : Type} (L : Libc σ)

/-- A call into the library. -/
def libc {α : Type} (f : σ → α × σ) : Hook σ α := fun s =>
  .ok ((f s.world).1, { s with world := (f s.world).2 })

/-- The call of the real function. -/
def orFunc {α : Type} (ret : α → Ret) (f : σ → α × σ) : Hook σ α := fun s =>
  .ok ((f s.world).1,
    { s with
      world := (f s.world).2
      real := some (ret (f s.world).1, L.errno (f s.world).2) })

/-- The bytes of a string. -/
def bytesOf (text : String) : List Byte := text.toList.map fun c => BitVec.ofNat 8 c.toNat

/-! ## Shared parts of the hooks -/

/-- `O_RDWR | O_CREAT | O_APPEND` -/
def logFlags : BitVec 32 := 0o2102#32

/-- The first hook that runs opens the log. -/
def initFd : Hook σ Unit := fun s =>
  if s.fdFlag then .ok ((), s)
  else
    match L.outputFile with
    | none => .error .noOutputFile
    | some file =>
        if file.toList.take 6 = "STDERR".toList then .ok ((), { s with fdFlag := true })
        else
          let r := L.openFile (some file) logFlags (some 0o644#32) s.world
          .ok ((), { s with fdFlag := true, stderrFd := r.1, world := r.2 })

/-- A text that is formatted into a local buffer, with its terminating zero. -/
def format (size : Nat) (text : String) : Hook σ String :=
  if text.length < size then pure text else throw .overflow

/-- `string(p)` -/
def string (p : Option String) : Hook σ String :=
  if p.isSome then pure (p.getD "") else throw .nullString

/-- `realpath` into `long_path`, and the name that is logged. -/
def resolve (path : Option String) : Hook σ String := do
  match ← libc (L.realpath path) with
  | .found resolved => format 100 resolved
  | .missing stored => do
      let _ ← format 100 (stored.getD "")
      string path

/-- `sprintf(buf, "%o", n)` into ten bytes. -/
def octal (n : BitVec 32) : Hook σ String := format 10 (String.ofList (Nat.toDigits 8 n.toNat))

/-- The file behind a descriptor, as `/proc` has it. -/
def fdPath (fd : Int) : Hook σ String := do
  let path ← libc (L.readlink ("/proc/self/fd/" ++ toString fd))
  pure (String.ofList ((path.getD "").toList.take 1023))

/-- The log moves to another descriptor when its own is about to be closed. -/
def keepLog (fd : Int) : Hook σ Unit := do
  let s ← get
  if fd = s.stderrFd then
    let new ← libc (L.dup s.stderrFd)
    modify fun s => { s with stderrFd := new }

/-- A byte of a preview. -/
def shown (b : Byte) : Char :=
  if 0x20 ≤ b.toNat ∧ b.toNat < 0x7f then Char.ofNat b.toNat else '.'

/-- `memcpy(buff, buf, size)` into a hundred bytes; a negative size is a huge one. -/
def preview (data : List Byte) (size : Int) : Hook σ String :=
  if 0 ≤ size ∧ size ≤ 100 ∧ size ≤ data.length then
    pure (String.ofList ((data.take size.toNat).map shown))
  else throw .badCopy

/-- The count that `fread` and `fwrite` preview: a product of `size_t`, at most 32. -/
def itemBytes (ret size : Nat) : Nat := if ret * size % 2 ^ 64 < 32 then ret * size % 2 ^ 64 else 32

def print (text : String) : Hook σ Unit := fun s =>
  let r := L.write s.stderrFd (bytesOf text) text.length s.world
  .ok ((), { s with world := r.2, writes := r.1 :: s.writes })

/-- `%p` -/
def ptrText (p : Ptr) : String :=
  if p = 0 then "(nil)" else "0x" ++ String.ofList (Nat.toDigits 16 p.toNat)

def printPtr (p : Ptr) : Hook σ Unit := do
  let text ← format 20 (ptrText p)
  print L text

end AdvUnix.Logger
