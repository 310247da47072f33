import AdvUnix.Sdb.Kernel
import AdvUnix.Sdb.Text

/-!
# `Sdb.Debugger` — the commands of `hw4.cpp`

The globals of the debugger, what it prints, and its commands, each under the name of its C++ function.
A command takes the state at the prompt to the state at the next prompt, or the debugger ends on the way
(`Halt`): by `error_quit`, by an access with no defined result, by an exception nobody catches, or
because `waitpid` never returns.
-/

namespace AdvUnix.Sdb

open ByteStore Elf

/-! ## State -/

/-- `state_t`. -/
inductive State
  | loaded
  | running
  | others
  deriving DecidableEq, Repr

/-- `breakpoint_t`, without the text of the address, which nothing reads. -/
structure Breakpoint where
  id : Int
  addr : Addr
  ori : Byte
  deriving DecidableEq, Repr

/-- What is printed, one entry for each statement that prints. -/
inductive Out
  /-- A fixed line. -/
  | line (text : String)
  /-- `** program 'PATH' loaded. entry point 0xENTRY` -/
  | loaded (path : String) (entry : Nat)
  /-- `** program PATH is already running.` -/
  | alreadyRunning (path : String)
  /-- `** pid PID` -/
  | pid (pid : Pid)
  /-- `** breakpoint @` and a tab -/
  | reached
  /-- The address, the bytes, the mnemonic and the operands of one instruction. -/
  | insn (addr : Addr) (i : Insn)
  /-- `** child process PID terminated normally (code STATUS)` -/
  | terminated (pid : Pid) (status : Nat)
  /-- `NAME = VAL (0xVAL)` -/
  | reg (name : String) (val : Word)
  /-- The table of all registers. -/
  | regs (r : Regs)
  /-- One row of `dump`: the label and the sixteen cells, a blank one where nothing is shown. -/
  | dumpRow (label : Addr) (cells : List (Option Byte))
  /-- One row of `vmmap`. -/
  | mapRow (addr1 addr2 perm inode path : List Char)
  /-- `  ID:  ADDR` -/
  | point (id : Int) (addr : Addr)
  /-- `** breakpoint ID deleted.` -/
  | deleted (sId : String)

/-- The globals of the debugger, its output and the kernel's side. -/
structure Debugger (ω : Type) where
  e : Handle
  program : String
  state : State
  child : Pid
  regs : Regs
  text : Shdr
  points : List Breakpoint
  bpid : Int
  code : Option (List Byte)
  restore : Byte
  dumpaddr : Word
  bpaddrNow : Addr
  ripNow : Addr
  out : List Out
  world : World ω

/-- How the debugger ends before its next prompt. -/
inductive Halt
  | quit (msg : String)
  | exit
  | blocked
  | fault (f : Fault)
  | segv
  | uncaught (ex : StoiError)
  deriving DecidableEq, Repr

variable {ω : Type} (H : Host ω)

namespace Debugger

/-- The debugger as `main` finds it. -/
def init : Debugger ω where
  e := Handle.init
  program := ""
  state := .others
  child := 0
  regs := fun _ => 0
  text := Shdr.zero
  points := []
  bpid := 0
  code := none
  restore := 0
  dumpaddr := -1
  bpaddrNow := 0
  ripNow := 0
  out := []
  world := ⟨fun _ => none, 1, []⟩

def say (s : Debugger ω) (o : Out) : Debugger ω := { s with out := s.out ++ [o] }

def notRunning (s : Debugger ω) : Debugger ω := s.say (.line "** program is not running.")

end Debugger

open Debugger

/-- The register a name stands for in `regs_map`, once `getregs` has filled it. -/
def regsMap : String → Option UserReg
  | "rax" => some .rax
  | "rbx" => some .rbx
  | "rcx" => some .rcx
  | "rdx" => some .rdx
  | "r8" => some .r8
  | "r9" => some .r9
  | "r10" => some .r10
  | "r11" => some .r11
  | "r12" => some .r12
  | "r13" => some .r13
  | "r14" => some .r14
  | "r15" => some .r15
  | "rdi" => some .rdi
  | "rsi" => some .rsi
  | "rbp" => some .rbp
  | "rsp" => some .rsp
  | "rip" => some .rip
  | "flags" => some .eflags
  | _ => none

/-- The `long long` that a hexadecimal token stands for. -/
def addrOf (sAddr : String) : Addr := BitVec.ofInt 64 (strtoll16 sAddr)

/-! ## Disassembly -/

/-- `getcode`: the file read whole, with a zero after it. The `int` size of the buffer does not fit a
    file of `2 ^ 31 - 1` bytes or more. -/
def getcode (s : Debugger ω) : Except Halt (Debugger ω) :=
  match H.openFile s.program with
  | none => .error .segv
  | some i =>
      let bytes := (H.content i).bytes
      if bytes.length + 1 < 2 ^ 31 then .ok { s with code := some (bytes ++ [0]) }
      else .error .segv

/-- The 256 bytes from `code + offset` on. -/
def window (code : List Byte) (offset : Int) : List (Option Byte) :=
  (List.range 256).map fun k =>
    if 0 ≤ offset + k then code[(offset + k).toNat]? else none

/-- The end of the `.text` section in memory. -/
def textEnd (text : Shdr) : Word := BitVec.ofNat 64 text.shAddr + BitVec.ofNat 64 text.shSize

/-- The instruction at an offset in the buffer, for `disassemble`. A read outside the buffer has no defined
    result; where it does not end the debugger, the decoder goes by what it has found there. -/
def disassemble (code : List Byte) (offset : Int) (addr : Addr) : Except Halt Insn :=
  if (window code offset).all Option.isSome || H.around code offset then
    match H.csDisasm (window code offset) addr with
    | none => .error (.quit "** cs error.")
    | some i => .ok i
  else .error .segv

/-- The loop of `disasm`, `n` instructions at most. -/
def disasmLoop (code : List Byte) (text : Shdr) : Nat → Addr → List Out → Except Halt (List Out)
  | 0, _, acc => .ok acc
  | n + 1, addr, acc =>
      if textEnd text ≤ addr then .ok acc
      else
        let offset := BitVec.ofNat 64 text.shOffset + addr - BitVec.ofNat 64 text.shAddr
        match disassemble H code offset.toInt addr with
        | .error e => .error e
        | .ok i => disasmLoop code text n (addr + BitVec.ofNat 64 i.bytes.length)
            (acc ++ [.insn addr i])

def disasm (s : Debugger ω) (sAddr : String) (len : Nat) : Except Halt (Debugger ω) :=
  if s.state ≠ .running then .ok s.notRunning
  else if sAddr = "QQ" then .ok (s.say (.line "** no addr is given."))
  else do
    let s ← if s.code.isNone then getcode H s else .ok s
    let out ← disasmLoop H (s.code.getD []) s.text len (addrOf sAddr) s.out
    .ok { s with out := out }

/-! ## Registers, memory and stops -/

/-- `getregs`: the return value and the state. -/
def getregs (s : Debugger ω) (printFlag : Bool) : Except Halt (Int × Debugger ω) :=
  if s.state ≠ .running then .ok (-1, s.notRunning)
  else
    match s.world.getregs H s.child with
    | (none, _) => .error (.quit "** ptrace error.")
    | (some r, w) =>
        let s := { s with regs := r, world := w }
        .ok (0, if printFlag then s.say (.regs r) else s)

/-- `replace_byte`: the byte that was there and the state. -/
def replaceByte (s : Debugger ω) (addr : Addr) (byte : Byte) : Byte × Debugger ω :=
  let (word, w) := s.world.peektext H s.child addr
  let w := w.poketext H s.child addr (setLow word byte)
  (word.setWidth 8, { s with world := w })

/-- The tracee continued or single-stepped. -/
def resume (s : Debugger ω) (how : Resume) : Debugger ω :=
  { s with world := s.world.resume s.child how }

/-- `*regs_map["rip"] = v` followed by `PTRACE_SETREGS`. -/
def setRip (s : Debugger ω) (v : Addr) : Debugger ω :=
  let regs := Function.update s.regs .rip v
  { s with regs := regs, world := s.world.setregs H s.child regs }

/-- `0xcc`, the code of `int3`. -/
def int3 : Byte := 0xcc

/-- The part of `check_stop` after a stop: `1` at the breakpoint that was reported last, `0` at
    another one, `-1` elsewhere. -/
def classifyStop (s : Debugger ω) : Except Halt (Int × Debugger ω) := do
  let (_, s) ← getregs H s false
  let rip := s.regs .rip
  match s.points.find? fun p => p.addr = rip - 1 with
  | none => .ok (-1, s)
  | some p =>
      if s.ripNow = p.addr then
        .ok (1, { setRip H s (rip - 1) with restore := p.ori })
      else do
        let s := { s with bpaddrNow := p.addr }
        let s ← disasm H (s.say .reached) (hexString p.addr) 1
        .ok (0, setRip H { s with ripNow := rip - 1 } (rip - 1))

def checkStop (s : Debugger ω) : Except Halt (Int × Debugger ω) :=
  match s.world.waitpid H s.child with
  | .error => .error (.quit "** wait error.")
  | .blocked => .error .blocked
  | .report (.stopped _) w => classifyStop H { s with world := w }
  | .report (.exited code) w =>
      -- the raw status is printed, the exit code in its second byte
      .ok (-1, { s.say (.terminated s.child (256 * code)) with state := .loaded, world := w })
  | .report (.signaled _) w => .ok (-1, { s with world := w })

def cont (s : Debugger ω) : Except Halt (Debugger ω) :=
  if s.state ≠ .running then .ok s.notRunning
  else do
    let (ret, s) ← checkStop H (resume s .cont)
    if ret = 1 then
      let addr := s.bpaddrNow
      let s := (replaceByte H s addr s.restore).2
      let s := resume s .cont
      -- the tracee has just been resumed when this asks for its memory
      let s := (replaceByte H s addr int3).2
      let s := { s with bpaddrNow := 0 }
      let (_, s) ← checkStop H s
      .ok (replaceByte H s addr int3).2
    else .ok s

def si (s : Debugger ω) : Except Halt (Debugger ω) :=
  if s.state ≠ .running then .ok s.notRunning
  else do
    let (ret, s) ← checkStop H (resume s .step)
    if ret = 1 then
      let addr := s.bpaddrNow
      let s := (replaceByte H s addr s.restore).2
      let s := resume s .step
      let s := { s with bpaddrNow := 0 }
      let (_, s) ← checkStop H s
      .ok (replaceByte H s addr int3).2
    else .ok s

def getreg (s : Debugger ω) (reg : String) : Except Halt (Debugger ω) := do
  let (ret, s) ← getregs H s false
  if ret ≠ 0 then .ok s
  else if reg = "QQ" then .ok s
  else match regsMap reg with
    | some r => .ok (s.say (.reg reg (s.regs r)))
    | none => .ok (s.say (.line "** no such register."))

/-- `set`: an unknown name enters `regs_map` with a null pointer, which is then written through. -/
def set (s : Debugger ω) (reg sVal : String) : Except Halt (Debugger ω) :=
  if s.state ≠ .running then .ok s.notRunning
  else if sVal = "QQ" then .ok s
  else do
    let (ret, s) ← getregs H s false
    if ret ≠ 0 then .ok s
    else
      let val := addrOf sVal
      match regsMap reg with
      | none => .error .segv
      | some r =>
          let regs := Function.update s.regs r val
          .ok { s with
            regs := regs
            ripNow := if reg = "rip" then val else s.ripNow
            world := s.world.setregs H s.child regs }

/-! ## Breakpoints -/

/-- `bpid++` on an `int`. -/
def incInt (n : Int) : Int := Int.bmod (n + 1) (2 ^ 32)

def breakpoint (s : Debugger ω) (sAddr : String) : Except Halt (Debugger ω) :=
  if s.state ≠ .running then .ok s.notRunning
  else
    let addr := addrOf sAddr
    let (ori, s) := replaceByte H s addr int3
    if s.points.any fun p => p.addr = addr then .ok s
    else .ok { s with points := s.points ++ [⟨s.bpid, addr, ori⟩], bpid := incInt s.bpid }

def del (s : Debugger ω) (sId : String) : Except Halt (Debugger ω) :=
  if s.state ≠ .running then .ok s.notRunning
  else if sId = "QQ" then .ok s
  else match stoi sId with
    | .error ex => .error (.uncaught ex)
    | .ok id =>
        match s.points.find? fun p => p.id = id with
        | none => .ok (s.say (.line "** no such breakpoint."))
        | some p =>
            let s := (replaceByte H s p.addr p.ori).2
            .ok ({ s with points := s.points.eraseP fun p => p.id = id }.say (.deleted sId))

def list (s : Debugger ω) : Debugger ω :=
  { s with out := s.out ++ s.points.map fun p => .point p.id p.addr }

/-! ## Memory dump and map -/

/-- The sixteen cells of a row, while fewer than `length` bytes have been shown; the count goes on. -/
def dumpCells (length : Int) : List Byte → Int → List (Option Byte) × Int
  | [], cnt => ([], cnt)
  | b :: bs, cnt =>
      if cnt ≥ length then
        let (cells, cnt) := dumpCells length bs cnt
        (none :: cells, cnt)
      else
        let (cells, cnt) := dumpCells length bs (cnt + 1)
        (some b :: cells, cnt)

/-- The rows of `dump`. -/
def dumpLoop (length : Int) : Nat → Int → Debugger ω → Debugger ω
  | 0, _, s => s
  | n + 1, cnt, s =>
      let label := s.dumpaddr
      let (word, w) := s.world.peektext H s.child s.dumpaddr
      let (word', w) := w.peektext H s.child (s.dumpaddr + 8)
      let (cells, cnt) := dumpCells length (wordBytes word ++ wordBytes word') cnt
      dumpLoop length n cnt
        ({ s with world := w, dumpaddr := s.dumpaddr + 16 }.say (.dumpRow label cells))

def dump (s : Debugger ω) (sAddr : String) : Except Halt (Debugger ω) :=
  if s.state ≠ .running then .ok s.notRunning
  else
    -- the test for "QQ" stands in the branch that only "NO" reaches
    let s := if sAddr ≠ "NO" then { s with dumpaddr := addrOf sAddr } else s
    let rest := (textEnd s.text - s.dumpaddr).toInt
    let length := Int.bmod rest (2 ^ 32)
    let line := if rest ≥ 80 then 5 else Int.bmod (rest.tdiv 16 + 1) (2 ^ 32)
    .ok (dumpLoop H length line.toNat 0 s)

/-- `s >> col`: the next token; `col` keeps its value when only blanks are left. -/
def extract (cs old : List Char) : List Char × List Char :=
  let cs := cs.dropWhile isSpace
  if cs = [] then (old, []) else (cs.takeWhile (!isSpace ·), cs.dropWhile (!isSpace ·))

/-- `setw(16) << setfill('0')` of a string. -/
def pad16 (cs : List Char) : List Char := List.replicate (16 - cs.length) '0' ++ cs

/-- `col.erase(remove(col.begin(), col.end(), 'p'))`: one character is erased where `remove` ends;
    there is none to erase when the string has no `p`. -/
def erasePerm (col : List Char) : Option (List Char) :=
  let kept := col.filter (· ≠ 'p')
  if kept.length = col.length then none else some (kept ++ col.drop (kept.length + 1))

def vmmapRow (line : String) : Except Halt Out :=
  let (col, cs) := extract line.toList []
  let addrs := col.map fun c => if c = '-' then ' ' else c
  let (addr1, addrs) := extract addrs []
  let (addr2, _) := extract addrs []
  let (col, cs) := extract cs col
  match erasePerm col with
  | none => .error .segv
  | some perm =>
      let (col, cs) := extract cs perm
      let (col, cs) := extract cs col
      let (inode, cs) := extract cs col
      let (path, _) := extract cs inode
      .ok (.mapRow (pad16 addr1) (pad16 addr2) perm inode path)

def vmmap (s : Debugger ω) : Except Halt (Debugger ω) :=
  if s.state ≠ .running then .ok s.notRunning
  else do
    let lines := match s.world.procs s.child with
      | some p => H.maps p.cpu
      | none => []
    let rows ← lines.mapM vmmapRow
    .ok { s with out := s.out ++ rows }

/-! ## Programs -/

def load (s : Debugger ω) (elfFile : String) : Except Halt (Debugger ω) :=
  if s.state = .loaded then .ok (s.say (.line "** program has already been loaded."))
  else
    match (H.openFile elfFile).bind fun i => elfOpen s.e (H.content i) with
    | none => .error (.quit ("** unable to load '" ++ elfFile ++ "'."))
    | some e =>
        match Elf.load H.memory e with
        | .error f => .error (.fault f)
        | .ok (e, text) =>
            .ok ({ s with
              e := e
              state := .loaded
              program := elfFile
              text := text.getD s.text }.say (.loaded elfFile e.entry))

/-- The path that the child passes to `execvp`. -/
def execPath (program : String) : String :=
  if program.toList[0]? ≠ some '.' ∧ program.toList[1]? ≠ some '/' then "./" ++ program else program

/-- The process that `fork` and `execvp` make, once its first report has been collected: the image
    stopped at its first instruction, or nothing when `execvp` failed and the child exited. -/
def spawn (w : World ω) (path : String) : World ω :=
  let w' := { w with nextPid := w.nextPid + 1 }
  match (H.execvp path).bind fun i => (H.image i).map fun im => (i, im) with
  | some (i, cpu, hidden) =>
      (w'.logged (.wait w.nextPid (.stopped sigtrap))).setProc w.nextPid
        (some ⟨cpu, hidden, .stopped, i⟩)
  | none => (w'.logged (.wait w.nextPid (.exited 255))).setProc w.nextPid none

def start (s : Debugger ω) : Except Halt (Debugger ω) :=
  if s.state = .others then .ok (s.say (.line "** not in loaded state."))
  else
    let s := if s.state = .running then { s with world := s.world.kill s.child, child := 0 } else s
    let s := { s with points := [] }
    if H.fork s.world.nextPid then
      -- the first report is collected without a look at what it says
      .ok ({ s with
        child := s.world.nextPid
        world := spawn H s.world (execPath s.program)
        state := .running }.say (.pid s.world.nextPid))
    else .error (.quit "** fork error.")

def run (s : Debugger ω) : Except Halt (Debugger ω) :=
  match s.state with
  | .running => cont H (s.say (.alreadyRunning s.program))
  | .loaded => do
      let s ← start H s
      cont H s
  | .others => .ok (s.say (.line "** not in loaded or running state."))

/-- `quit_exit`: the world the debugger leaves behind. -/
def quitExit (s : Debugger ω) : World ω :=
  if s.child ≠ 0 then s.world.kill s.child else s.world

/-! ## The command line -/

/-- What `main` calls for a command line. -/
inductive Command
  | load (elfFile : String)
  | delete (sId : String)
  | help
  | exit
  | vmmap
  | get (reg : String)
  | set (reg sVal : String)
  | break (sAddr : String)
  | list
  | cont
  | dump (sAddr : String)
  | disasm (sAddr : String)
  | getregs
  | start
  | run
  | si
  | ignored
  deriving DecidableEq, Repr

/-- The chain of tests in `main` on the tokens of a line. -/
def Command.ofTokens (dumpaddr : Word) : List String → Command
  | ["load", f] => .load f
  | "delete" :: args =>
      match args with
      | [a] => .delete a
      | _ => .delete "QQ"
  | ["help"] | ["h"] => .help
  | ["exit"] | ["q"] => .exit
  | ["vmmap"] | ["m"] => .vmmap
  | "get" :: args | "g" :: args =>
      match args with
      | [r] => .get r
      | _ => .get "QQ"
  | "set" :: args | "s" :: args =>
      match args with
      | [r, v] => .set r v
      | _ => .set "QQ" "QQ"
  | "break" :: args | "b" :: args =>
      match args with
      | [a] => .break a
      | _ => .break "QQ"
  | ["list"] | ["l"] => .list
  | ["cont"] | ["c"] => .cont
  | "dump" :: args | "x" :: args =>
      match args with
      | [a] => .dump a
      | [] => if dumpaddr ≠ -1 then .dump "NO" else .dump "QQ"
      | _ => .ignored
  | "disasm" :: args | "d" :: args =>
      match args with
      | [a] => .disasm a
      | [] => .disasm "QQ"
      | _ => .ignored
  | ["getregs"] => .getregs
  | ["start"] => .start
  | ["run"] => .run
  | ["si"] => .si
  | _ => .ignored

/-- The lines of `help`. -/
def helpLines : List String := [
  "- break {instruction-address}: add a break point",
  "- cont: continue execution",
  "- delete {break-point-id}: remove a break point",
  "- disasm addr: disassemble instructions in a file or a memory region",
  "- dump addr [length]: dump memory content",
  "- exit: terminate the debugger",
  "- get reg: get a single value from a register",
  "- getregs: show registers",
  "- help: show this message",
  "- list: list break points",
  "- load {path/to/a/program}: load a program",
  "- run: run the program",
  "- vmmap: show memory layout",
  "- set reg val: get a single value to a register",
  "- si: step into instruction",
  "- start: start the program and stop at the first instruction"]

/-- **One command**, from prompt to prompt. -/
def exec (s : Debugger ω) : Command → Except Halt (Debugger ω)
  | .load f => load H s f
  | .delete a => del H s a
  | .help => .ok { s with out := s.out ++ helpLines.map .line }
  | .exit => .error .exit
  | .vmmap => vmmap H s
  | .get r => getreg H s r
  | .set r v => set H s r v
  | .break a => breakpoint H s a
  | .list => .ok (list s)
  | .cont => cont H s
  | .dump a => dump H s a
  | .disasm a => disasm H s a 10
  | .getregs => do
      let (_, s) ← getregs H s true
      .ok s
  | .start => start H s
  | .run => run H s
  | .si => si H s
  | .ignored => .ok s

/-- **One line of input**, given by its tokens. -/
def execLine (s : Debugger ω) (tokens : List String) : Except Halt (Debugger ω) :=
  exec H s (Command.ofTokens s.dumpaddr tokens)

/-- Lines of input one after the other. -/
def execLines (s : Debugger ω) (lines : List (List String)) : Except Halt (Debugger ω) :=
  lines.foldlM (execLine H) s

/-- **A session**: commands one after the other. -/
def execAll (s : Debugger ω) (cmds : List Command) : Except Halt (Debugger ω) :=
  cmds.foldlM (exec H) s

end AdvUnix.Sdb
