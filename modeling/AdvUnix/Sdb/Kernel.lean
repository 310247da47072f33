import AdvUnix.Lib.StepMachine
import AdvUnix.Elf.Loader

/-!
# `Sdb.Kernel` — processes and `ptrace` as the debugger meets them

What `hw4.cpp` asks of the system: files to read, programs to run, processes that are resumed, stop,
exit or die, and requests that a process answers only while it is stopped. The system is a parameter
(`Host`): a tracee carries a hidden state `ω`, so its next stop may depend on anything.

A process that has been resumed runs concurrently with the debugger. What can be told apart is only
whether it has already come to its next stop when a request or `waitpid` looks at it; `Host.arrived`
decides that for each request, and the stop itself is computed from the state it was resumed in.
-/

namespace AdvUnix.Sdb

open ByteStore

abbrev Addr := BitVec 64
abbrev Word := BitVec 64
abbrev Byte := BitVec 8

/-- The fields of `user_regs_struct`. -/
inductive UserReg
  | r15 | r14 | r13 | r12 | rbp | rbx | r11 | r10 | r9 | r8 | rax | rcx | rdx | rsi | rdi | origRax
  | rip | cs | eflags | rsp | ss | fsBase | gsBase | ds | es | fs | gs
  deriving DecidableEq, Repr

abbrev Regs := UserReg → Word

/-- Memory of a process; `none` is an unmapped address. -/
abbrev Mem := Store 64 (Option Byte)

abbrev Cpu := StepMachine.Cpu Regs Addr (Option Byte)

/-- The word at `a`, when all its bytes are mapped. -/
def Mem.peek (m : Mem) (a : Addr) : Option Word := (allSome (read m a 8)).map word

/-- The memory that can be stored to: what is mapped and `writable`. -/
def Mem.storable (writable : Addr → Bool) (m : Mem) : Mem := fun a => if writable a then m a else none

/-- The word at `a` stored; where its bytes run into one that is unmapped or not writable, only those before it
    are. -/
def Mem.poke (writable : Addr → Bool) (m : Mem) (a : Addr) (v : Word) : Mem :=
  write m a (((wordBytes v).take (present (read (m.storable writable) a 8))).map some)

/-! ## Processes -/

abbrev Pid := Nat

/-- The identity of a file. -/
abbrev Inode := Nat

/-- What `waitpid` reports of a process. -/
inductive WaitStatus
  | stopped (sig : Nat)
  | exited (code : Nat)
  | signaled (sig : Nat)
  deriving DecidableEq, Repr

def sigtrap : Nat := 5

/-- `PTRACE_CONT` and `PTRACE_SINGLESTEP`. -/
inductive Resume
  | cont
  | step
  deriving DecidableEq, Repr

/-- Where a process is between two reports: in ptrace-stop, resumed, or come to a report that
    `waitpid` has not yet collected. -/
inductive Phase
  | stopped
  | resumed (how : Resume)
  | arrived (st : WaitStatus)
  deriving DecidableEq, Repr

structure Proc (ω : Type) where
  cpu : Cpu
  hidden : ω
  phase : Phase
  file : Inode

/-- What has been asked of the kernel, oldest first: requests for a process in ptrace-stop, with
    whether it was in ptrace-stop then, reports collected by `waitpid`, and `kill`s, with whether the
    process was still there. -/
inductive Event
  | request (pid : Pid) (inStop : Bool)
  | wait (pid : Pid) (st : WaitStatus)
  | kill (pid : Pid) (there : Bool)
  deriving DecidableEq, Repr

/-- **The kernel's side.** A process is in the table until `waitpid` has collected its end. -/
structure World (ω : Type) where
  procs : Pid → Option (Proc ω)
  nextPid : Pid
  log : List Event

/-- One decoded instruction, as capstone reports it. -/
structure Insn where
  bytes : List Byte
  mnemonic : String
  opStr : String
  deriving DecidableEq, Repr

/-- **The files and programs** the debugger finds on its system. -/
structure Site (ω : Type) where
  /-- The file that `fopen` opens under a path. -/
  openFile : String → Option Inode
  content : Inode → Elf.Image
  memory : Elf.Memory
  /-- Whether the `fork` that would create this process succeeds. -/
  fork : Pid → Bool
  /-- The file that `execvp` executes under a path. -/
  execvp : String → Option Inode
  /-- The first state of a process that executes the file. -/
  image : Inode → Option (Cpu × ω)
  /-- `cs_disasm`: the first instruction in a window of bytes; `none` stands for a byte outside the
      buffer that the window is taken from. -/
  csDisasm : List (Option Byte) → Addr → Option Insn
  /-- Whether `cs_disasm` can read what it looks at of a window, at an offset from the buffer, that is not inside
      it: what lies around the buffer in the memory of the debugger is not known. -/
  around : List Byte → Int → Bool
  /-- The lines of `/proc/PID/maps`. -/
  maps : Cpu → List String

/-- **The system the debugger runs on**: the site, and how processes run there. -/
structure Host (ω : Type) extends Site ω where
  /-- The next report of a resumed process and its state then; `none` when it runs for ever. -/
  run : Resume → Cpu → ω → Option (WaitStatus × Cpu × ω)
  /-- Whether a resumed process has come to its report when a request looks at it. -/
  arrived : ω → Bool × ω
  /-- Whether `PTRACE_POKETEXT` can store at a mapped address. It can in a private mapping, whatever the
      permissions; in a shared one it cannot without write permission. -/
  writable : ω → Addr → Bool

variable {ω : Type}

namespace World

/-- The table entry of `pid` replaced. -/
def setProc (w : World ω) (pid : Pid) (p : Option (Proc ω)) : World ω :=
  { w with procs := Function.update w.procs pid p }

def logged (w : World ω) (ev : Event) : World ω := { w with log := w.log ++ [ev] }

/-- **A ptrace request looks for its process.** It is served in ptrace-stop, also in one that
    `waitpid` has not collected yet; it fails for a process that runs or has ended. -/
def request (H : Host ω) (w : World ω) (pid : Pid) : Option (Proc ω) × World ω :=
  match w.procs pid with
  | none => (none, w.logged (.request pid false))
  | some p =>
      match p.phase with
      | .stopped => (some p, w.logged (.request pid true))
      | .arrived (.stopped _) => (some p, w.logged (.request pid false))
      | .arrived _ => (none, w.logged (.request pid false))
      | .resumed how =>
          let w := w.logged (.request pid false)
          let (here, hidden) := H.arrived p.hidden
          match here, H.run how p.cpu hidden with
          | true, some (st, cpu, hidden) =>
              let p := { p with cpu := cpu, hidden := hidden, phase := .arrived st }
              match st with
              | .stopped _ => (some p, w.setProc pid (some p))
              | _ => (none, w.setProc pid (some p))
          | _, _ => (none, w.setProc pid (some { p with hidden := hidden }))

/-- `PTRACE_PEEKTEXT`; a failed request returns `-1`. -/
def peektext (H : Host ω) (w : World ω) (pid : Pid) (a : Addr) : Word × World ω :=
  match w.request H pid with
  | (some p, w) => ((Mem.peek p.cpu.mem a).getD (-1), w)
  | (none, w) => (-1, w)

/-- `PTRACE_POKETEXT`. -/
def poketext (H : Host ω) (w : World ω) (pid : Pid) (a : Addr) (v : Word) : World ω :=
  match w.request H pid with
  | (some p, w) => w.setProc pid (some { p with cpu := ⟨p.cpu.regs, Mem.poke (H.writable p.hidden) p.cpu.mem a v⟩ })
  | (none, w) => w

/-- `PTRACE_GETREGS`. -/
def getregs (H : Host ω) (w : World ω) (pid : Pid) : Option Regs × World ω :=
  match w.request H pid with
  | (some p, w) => (some p.cpu.regs, w)
  | (none, w) => (none, w)

/-- `PTRACE_SETREGS`. -/
def setregs (H : Host ω) (w : World ω) (pid : Pid) (r : Regs) : World ω :=
  match w.request H pid with
  | (some p, w) => w.setProc pid (some { p with cpu := ⟨r, p.cpu.mem⟩ })
  | (none, w) => w

/-- `PTRACE_CONT` and `PTRACE_SINGLESTEP`: they take a process out of ptrace-stop and fail
    otherwise. -/
def resume (w : World ω) (pid : Pid) (how : Resume) : World ω :=
  match w.procs pid with
  | some p =>
      match p.phase with
      | .stopped => w.setProc pid (some { p with phase := .resumed how })
      | _ => w
  | none => w

/-- What `waitpid(pid, …, 0)` comes to. -/
inductive Waited (ω : Type)
  | error
  | blocked
  | report (st : WaitStatus) (w : World ω)

/-- A report collected: a stopped process stays, an ended one leaves the table. -/
def collect (w : World ω) (pid : Pid) (p : Proc ω) (st : WaitStatus) : World ω :=
  let w := w.logged (.wait pid st)
  match st with
  | .stopped _ => w.setProc pid (some { p with phase := .stopped })
  | _ => w.setProc pid none

/-- `waitpid`: an error for a process that is not there, and no return while it has nothing to
    report. -/
def waitpid (H : Host ω) (w : World ω) (pid : Pid) : Waited ω :=
  match w.procs pid with
  | none => .error
  | some p =>
      match p.phase with
      | .stopped => .blocked
      | .arrived st => .report st (w.collect pid p st)
      | .resumed how =>
          match H.run how p.cpu p.hidden with
          | none => .blocked
          | some (st, cpu, hidden) =>
              .report st (w.collect pid { p with cpu := cpu, hidden := hidden } st)

/-- `kill(pid, SIGTERM)`. A tracee in ptrace-stop only has the signal queued, and it is never resumed
    again. -/
def kill (w : World ω) (pid : Pid) : World ω := w.logged (.kill pid (w.procs pid).isSome)

end World

end AdvUnix.Sdb
