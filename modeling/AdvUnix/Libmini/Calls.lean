import AdvUnix.Libmini.Wrappers

/-!
# `Libmini.Calls` — programs over the system calls

The functions of `libmini.c` that are one system call each, and `open` of `libmini64.asm`. A program that calls them
(`Script`) runs on the machine through the stubs, its stack and `errno` in memory (`Script.run`). What it means is said
without registers and without a stack, by a kernel that answers calls (`Script.meaning`). The first does what the
second says, for every program that does not look at what the calls push (`calls_refine`).
-/

namespace AdvUnix.Libmini.Calls

open X86 ByteStore

/-! ## The functions -/

/-- The types that the functions return. -/
inductive CType
  | int | long | ptr
  deriving DecidableEq, Repr

inductive Value
  | int (v : BitVec 32)
  | long (v : Word)
  | ptr (v : Word)
  deriving DecidableEq, Repr

/-- What `WRAPPER_RETval` and `WRAPPER_RETptr` return for an answer of the kernel. -/
def CType.value (ret : Word) : CType → Value
  | .int => .int (Libmini.int (wrapper ret).value)
  | .long => .long (wrapper ret).value
  | .ptr => .ptr (if ret.slt 0 then 0 else ret)

/-- The value that says that a call has failed. -/
def Value.failed : Value → Bool
  | .int v | .long v => v = -1
  | .ptr v => v = 0

/-- `errno` tells a failure from a success. -/
theorem errno_eq_zero_iff (ret : Word) : (wrapper ret).errno = 0 ↔ ¬ ret.slt 0 := by
  unfold wrapper
  by_cases hneg : ret.slt 0 = true
  · have hne : -ret ≠ 0 := by
      intro hzero
      have hret : ret = 0 := by bv_omega
      rw [hret] at hneg
      exact absurd hneg (by decide)
    rw [if_pos hneg]
    exact iff_of_false hne (not_not.mpr hneg)
  · rw [if_neg hneg]
    exact iff_of_true rfl hneg

/-- **The value does not**: an `int` whose lower half is all ones, and the address zero, look like failures. -/
theorem failed_iff (ty : CType) (ret : Word) :
    (ty.value ret).failed ↔ ret.slt 0 ∨ ty = .int ∧ int ret = -1 ∨ ty = .ptr ∧ ret = 0 := by
  by_cases hneg : ret.slt 0 = true
  · have hwrap : wrapper ret = ⟨-ret, -1⟩ := if_pos hneg
    have hall : int (-1 : Word) = -1 := by decide
    refine iff_of_true ?_ (Or.inl hneg)
    cases ty with
    | int => simp only [CType.value, hwrap, hall, Value.failed, decide_true]
    | long => simp only [CType.value, hwrap, Value.failed, decide_true]
    | ptr => simp only [CType.value, if_pos hneg, Value.failed, decide_true]
  · have hwrap : wrapper ret = ⟨0, ret⟩ := if_neg hneg
    have hne : ret ≠ -1 := by
      rintro rfl
      exact hneg (by decide)
    rw [or_iff_right hneg]
    cases ty with
    | int => simp [CType.value, hwrap, Value.failed]
    | long => simpa [CType.value, hwrap, Value.failed] using hne
    | ptr => simp only [CType.value, if_neg hneg, Value.failed, decide_eq_true_eq, reduceCtorEq, false_and, true_and,
        false_or]

/-- What a wrapper consists of: the number in its stub, the type of its result, and the arguments that it hands on. -/
structure Wrapper where
  number : Word
  result : CType
  args : List Word
  inRegs : args.length ≤ 6

/-- A call of a wrapper. An argument is what its register holds, of an `int` with what is above it. -/
inductive Wrapped
  | read (fd buf count : Word)
  | write (fd buf count : Word)
  | close (fd : Word)
  | mmap (addr len prot flags fd off : Word)
  | mprotect (addr len prot : Word)
  | munmap (addr len : Word)
  | pipe (filedes : Word)
  | dup (filedes : Word)
  | dup2 (oldfd newfd : Word)
  | pause
  | nanosleep (rqtp rmtp : Word)
  | fork
  | getcwd (buf size : Word)
  | chdir (pathname : Word)
  | rename (oldname newname : Word)
  | mkdir (pathname mode : Word)
  | rmdir (pathname : Word)
  | creat (pathname mode : Word)
  | link (oldname newname : Word)
  | unlink (pathname : Word)
  | readlink (path buf bufsz : Word)
  | chmod (filename mode : Word)
  | chown (filename user group : Word)
  | umask (mask : Word)
  | gettimeofday (tv tz : Word)
  | getuid
  | getgid
  | setuid (uid : Word)
  | setgid (gid : Word)
  | geteuid
  | getegid
  | alarm (seconds : Word)
  | sigpending (set : Word)

def Wrapped.wrapper : Wrapped → Wrapper
  | .read fd buf count => ⟨0, .long, [fd, buf, count], by simp⟩
  | .write fd buf count => ⟨1, .long, [fd, buf, count], by simp⟩
  | .close fd => ⟨3, .int, [fd], by simp⟩
  | .mmap addr len prot flags fd off => ⟨9, .ptr, [addr, len, prot, flags, fd, off], by simp⟩
  | .mprotect addr len prot => ⟨10, .int, [addr, len, prot], by simp⟩
  | .munmap addr len => ⟨11, .int, [addr, len], by simp⟩
  | .pipe filedes => ⟨22, .int, [filedes], by simp⟩
  | .dup filedes => ⟨32, .int, [filedes], by simp⟩
  | .dup2 oldfd newfd => ⟨33, .int, [oldfd, newfd], by simp⟩
  | .pause => ⟨34, .int, [], by simp⟩
  | .nanosleep rqtp rmtp => ⟨35, .int, [rqtp, rmtp], by simp⟩
  | .fork => ⟨57, .int, [], by simp⟩
  | .getcwd buf size => ⟨79, .ptr, [buf, size], by simp⟩
  | .chdir pathname => ⟨80, .int, [pathname], by simp⟩
  | .rename oldname newname => ⟨82, .int, [oldname, newname], by simp⟩
  | .mkdir pathname mode => ⟨83, .int, [pathname, mode], by simp⟩
  | .rmdir pathname => ⟨84, .int, [pathname], by simp⟩
  | .creat pathname mode => ⟨85, .int, [pathname, mode], by simp⟩
  | .link oldname newname => ⟨86, .int, [oldname, newname], by simp⟩
  | .unlink pathname => ⟨88, .int, [pathname], by simp⟩
  | .readlink path buf bufsz => ⟨89, .long, [path, buf, bufsz], by simp⟩
  | .chmod filename mode => ⟨90, .int, [filename, mode], by simp⟩
  | .chown filename user group => ⟨92, .int, [filename, user, group], by simp⟩
  | .umask mask => ⟨95, .int, [mask], by simp⟩
  | .gettimeofday tv tz => ⟨96, .int, [tv, tz], by simp⟩
  | .getuid => ⟨102, .int, [], by simp⟩
  | .getgid => ⟨104, .int, [], by simp⟩
  | .setuid uid => ⟨105, .int, [uid], by simp⟩
  | .setgid gid => ⟨106, .int, [gid], by simp⟩
  | .geteuid => ⟨107, .int, [], by simp⟩
  | .getegid => ⟨108, .int, [], by simp⟩
  | .alarm seconds => ⟨37, .int, [seconds], by simp⟩
  | .sigpending set => ⟨127, .int, [set, 8], by simp⟩

/-- A call of the library: of a wrapper, or of `open`. -/
inductive Call
  | wrapped (f : Wrapped)
  | openFile (path flags mode : Word)

/-- `open` is to be what it would be in C. -/
def Call.wrapper : Call → Wrapper
  | .wrapped f => f.wrapper
  | .openFile path flags mode => ⟨2, .int, [path, flags, mode], by simp⟩

/-! ## On the machine -/

variable {κ : Type}

/-- The registers of the arguments of a function, and of those of a system call. -/
def argRegs : List Reg := [.rdi, .rsi, .rdx, .rcx, .r8, .r9]
def kernelRegs : List Reg := [.rdi, .rsi, .rdx, .r10, .r8, .r9]

def pass (regs : List Reg) (args : List Word) (s : State κ) : State κ :=
  (regs.zip args).foldl (fun s p => s.set p.1 p.2) s

/-- Where the compiler has put a call: the stack pointer at the call into the assembly, and the address of the line
    behind it. -/
structure Site where
  rsp : Word
  back : Word

/-- The part of the stack that the assembly may use: `open` pushes a return address under that of its caller, and the
    stub a register. -/
def Site.pushed (site : Site) : Set Word := block (site.rsp - 8 - 8 - 8) 24

/-- The state at the first line of the assembly. -/
def entry (site : Site) (args : List Word) (s : State κ) : State κ :=
  (pass argRegs args (s.set .rsp site.rsp)).push site.back

/-- A call; `none` if it does not come back to the line behind it. -/
def made (sys : State κ → State κ) (errno openBack : Word) (site : Site) (s : State κ) :
    Call → Option (Value × State κ)
  | .wrapped f =>
      let t := exec sys (gensys f.wrapper.number) (entry site f.wrapper.args s)
      if t.rip = site.back then
        some (f.wrapper.result.value (t.regs .rax),
          { t with mem := store t.mem errno (wrapper (t.regs .rax)).errno })
      else none
  | .openFile path flags mode =>
      (runRoutine sys (openRoutine errno openBack) (entry site [path, flags, mode] s) ⟨false, false⟩).bind fun t =>
        if t.rip = site.back then some (.int (int (t.regs .rax)), t) else none

/-- A program: its calls, and the quadwords of memory that it looks at and writes in between. -/
inductive Script (α : Type)
  | done (a : α)
  | call (site : Site) (c : Call) (next : Value → Script α)
  | peek (a : Word) (next : Word → Script α)
  | poke (a v : Word) (next : Script α)

variable {α : Type}

def Script.run (sys : State κ → State κ) (errno openBack : Word) :
    Script α → State κ → Option (α × State κ)
  | .done a, s => some (a, s)
  | .call site c next, s =>
      (made sys errno openBack site s c).bind fun r => (next r.1).run sys errno openBack r.2
  | .peek a next, s => (next (load s.mem a)).run sys errno openBack s
  | .poke a v next, s => next.run sys errno openBack { s with mem := store s.mem a v }

/-! ## What a program means -/

/-- The answer to a call: what the kernel returns, its own state, and the memory of the process. -/
structure Answer (κ : Type) where
  ret : Word
  kernel : κ
  mem : Memory

/-- **A kernel** by what it answers to the calls. -/
abbrev Kernel (κ : Type) := Call → κ → Memory → Answer κ

/-- What a program sees besides its own values. -/
structure Env (κ : Type) where
  kernel : κ
  mem : Memory

/-- The environment after a call. -/
def Env.after (errno : Word) (r : Answer κ) : Env κ := ⟨r.kernel, store r.mem errno (wrapper r.ret).errno⟩

/-- **The meaning of a program.** -/
def Script.meaning (A : Kernel κ) (errno : Word) : Script α → Env κ → α × Env κ
  | .done a, v => (a, v)
  | .call _ c next, v =>
      let r := A c v.kernel v.mem
      (next (c.wrapper.result.value r.ret)).meaning A errno (.after errno r)
  | .peek a next, v => (next (load v.mem a)).meaning A errno v
  | .poke a w next, v => next.meaning A errno ⟨v.kernel, store v.mem a w⟩

/-- The state in which a call is made of the kernel. -/
def Asks (c : Call) (e : State κ) : Prop :=
  e.regs .rax = c.wrapper.number ∧ (kernelRegs.take c.wrapper.args.length).map e.regs = c.wrapper.args

/-- The system call instruction is this kernel: it takes the call from the registers, and keeps all registers but
    three. -/
structure Realizes (sys : State κ → State κ) (A : Kernel κ) : Prop where
  answer : ∀ c e, Asks c e →
    (sys e).regs .rax = (A c e.kernel e.mem).ret ∧ (sys e).kernel = (A c e.kernel e.mem).kernel ∧
      (sys e).mem = (A c e.kernel e.mem).mem
  kept : ∀ c e, Asks c e → ∀ r ∉ [Reg.rax, .rcx, .r11], (sys e).regs r = e.regs r

/-- A call has nothing to do with the addresses `Z`: the answer is the same whatever is there, and it stays. -/
def Blind (A : Kernel κ) (Z : Set Word) (c : Call) (v : Env κ) : Prop :=
  ∀ m, Set.EqOn m v.mem Zᶜ →
    (A c v.kernel m).ret = (A c v.kernel v.mem).ret ∧ (A c v.kernel m).kernel = (A c v.kernel v.mem).kernel ∧
      Set.EqOn (A c v.kernel m).mem (A c v.kernel v.mem).mem Zᶜ ∧ Set.EqOn (A c v.kernel m).mem m Z

/-- **A program does not look at what its calls push**: that is in `Z`, and neither the program nor the kernel reads
    there. -/
def Script.Careful (A : Kernel κ) (errno : Word) (Z : Set Word) : Script α → Env κ → Prop
  | .done _, _ => True
  | .call site c next, v =>
      site.pushed ⊆ Z ∧ Blind A Z c v ∧
        (next (c.wrapper.result.value (A c v.kernel v.mem).ret)).Careful A errno Z
          (.after errno (A c v.kernel v.mem))
  | .peek a next, v => Disjoint (block a 8) Z ∧ (next (load v.mem a)).Careful A errno Z v
  | .poke a w next, v => next.Careful A errno Z ⟨v.kernel, store v.mem a w⟩

/-- A machine is where the meaning is, but for the addresses `Z`. -/
structure Matches (Z : Set Word) (s : State κ) (v : Env κ) : Prop where
  kernel : s.kernel = v.kernel
  mem : Set.EqOn s.mem v.mem Zᶜ

variable {sys : State κ → State κ} {A : Kernel κ} {errno : Word} {Z : Set Word}
variable {c : Call} {s u e t : State κ} {v : Env κ} {r : Answer κ}

/-! ## The way in -/

theorem pass_cons (q : Reg) (regs : List Reg) (a : Word) (args : List Word) (s : State κ) :
    pass (q :: regs) (a :: args) s = pass regs args (s.set q a) := rfl

/-- Passing arguments sets their registers only. -/
theorem pass_other {regs : List Reg} {q : Reg} (hq : q ∉ regs) (args : List Word) (s : State κ) :
    (pass regs args s).regs q = s.regs q := by
  induction regs generalizing args s with
  | nil => rfl
  | cons p regs ih =>
    rw [List.mem_cons, not_or] at hq
    cases args with
    | nil => rfl
    | cons a args => rw [pass_cons, ih hq.2, State.set_other hq.1]

theorem pass_keeps (regs : List Reg) (args : List Word) (s : State κ) :
    (pass regs args s).mem = s.mem ∧ (pass regs args s).kernel = s.kernel := by
  induction regs generalizing args s with
  | nil => exact ⟨rfl, rfl⟩
  | cons p regs ih =>
    cases args with
    | nil => exact ⟨rfl, rfl⟩
    | cons a args => exact ih args (s.set p a)

/-- The arguments are in the first of the registers. -/
theorem pass_args {regs : List Reg} (hnd : regs.Nodup) {args : List Word} (h : args.length ≤ regs.length)
    (s : State κ) : (regs.take args.length).map (pass regs args s).regs = args := by
  induction regs generalizing args s with
  | nil =>
    cases args with
    | nil => rfl
    | cons a args => exact absurd h (by simp)
  | cons p regs ih =>
    rw [List.nodup_cons] at hnd
    cases args with
    | nil => rfl
    | cons a args =>
      have hfirst : (pass regs args (s.set p a)).regs p = a := (pass_other hnd.1 args _).trans (State.set_same s p a)
      have hrest := ih hnd.2 (Nat.le_of_succ_le_succ h) (s.set p a)
      rw [List.length_cons, List.take_succ_cons, List.map_cons, pass_cons, hfirst, hrest]

/-- A return address on the stack changes the stack only. -/
theorem push_outside (u : State κ) (v : Word) (h : block (u.regs .rsp - 8) 8 ⊆ Z) :
    Set.EqOn (u.push v).mem u.mem Zᶜ :=
  (store_eqOn _ _ _).mono (Set.compl_subset_compl.mpr h)

theorem push_args (u : State κ) (v : Word) (n : Nat) :
    (argRegs.take n).map (u.push v).regs = (argRegs.take n).map u.regs := by
  have hne : ∀ q ∈ argRegs, q ≠ .rsp := by decide
  exact List.map_congr_left fun q hq => Function.update_of_ne (hne q (List.mem_of_mem_take hq)) _ _

/-- What holds at the first line of the assembly. -/
structure Entered (site : Site) (c : Call) (s u : State κ) : Prop where
  rsp : u.regs .rsp = site.rsp - 8
  args : (argRegs.take c.wrapper.args.length).map u.regs = c.wrapper.args
  kernel : u.kernel = s.kernel
  mem : u.mem = store s.mem (site.rsp - 8) site.back
  kept : ∀ q ∈ calleeSaved, u.regs q = s.regs q

theorem entered (site : Site) (c : Call) (s : State κ) : Entered site c s (entry site c.wrapper.args s) := by
  have hrsp : (pass argRegs c.wrapper.args (s.set .rsp site.rsp)).regs .rsp = site.rsp := by
    rw [pass_other (by decide), State.set_same]
  have hmem := pass_keeps argRegs c.wrapper.args (s.set .rsp site.rsp)
  constructor
  case rsp => rw [entry, State.push_rsp, hrsp]
  case args =>
    rw [entry, push_args]
    exact pass_args (by decide) c.wrapper.inRegs _
  case kernel => exact hmem.2
  case mem =>
    show store (pass argRegs c.wrapper.args (s.set .rsp site.rsp)).mem _ _ = _
    rw [hrsp, hmem.1]
    rfl
  case kept =>
    intro q hq
    have hne : q ≠ .rsp ∧ q ∉ argRegs := by
      revert q
      decide
    show Function.update _ _ _ q = _
    rw [Function.update_of_ne hne.1, pass_other hne.2, State.set_other hne.1]

/-- The line behind the call is where the first instruction finds its return address. -/
theorem Entered.slot {site : Site} (h : Entered site c s u) : X86.load u.mem (u.regs .rsp) = site.back := by
  rw [h.mem, h.rsp, load_store]

theorem Entered.outside {site : Site} (h : Entered site c s u) (hone : block (site.rsp - 8) 8 ⊆ Z) :
    Set.EqOn u.mem s.mem Zᶜ := by
  rw [h.mem]
  exact (store_eqOn _ _ _).mono (Set.compl_subset_compl.mpr hone)

/-- The stub brings the arguments to the kernel. -/
theorem asks_trap (h : (argRegs.take c.wrapper.args.length).map u.regs = c.wrapper.args) :
    Asks c (trap c.wrapper.number u) := by
  have hregs : kernelRegs.map (trap c.wrapper.number u).regs = argRegs.map u.regs := by
    simp [kernelRegs, argRegs, trap, State.set, State.push, Function.update]
  refine ⟨by simp [trap], ?_⟩
  rw [List.map_take, hregs, ← List.map_take, h]

theorem trap_outside (number : Word) (h : block (u.regs .rsp - 8) 8 ⊆ Z) :
    Set.EqOn (trap number u).mem u.mem Zᶜ := by
  rw [trap_mem]
  exact (store_eqOn _ _ _).mono (Set.compl_subset_compl.mpr h)

theorem trap_kept (number : Word) (u : State κ) : ∀ q ∈ calleeSaved, (trap number u).regs q = u.regs q := by
  intro q hq
  have hne : q ≠ .rsp ∧ q ≠ .r10 ∧ q ≠ .rax := by
    revert q
    decide
  simp [trap, State.set, State.push, Function.update, hne]

/-! ## In the kernel -/

/-- What the kernel has done, for a program that it serves on a machine with a stack. -/
structure Serves (Z : Set Word) (e t : State κ) (r : Answer κ) : Prop where
  ret : t.regs .rax = r.ret
  kernel : t.kernel = r.kernel
  outside : Set.EqOn t.mem r.mem Zᶜ
  stack : Set.EqOn t.mem e.mem Z
  kept : ∀ q ∉ [Reg.rax, .rcx, .r11], t.regs q = e.regs q

theorem Realizes.serves (hA : Realizes sys A) (hasks : Asks c e) (h : Matches Z e v) (hblind : Blind A Z c v) :
    Serves Z e (sys e) (A c v.kernel v.mem) := by
  obtain ⟨hret, hker, hm⟩ := hA.answer c e hasks
  obtain ⟨bret, bker, bout, bin⟩ := hblind e.mem h.mem
  rw [h.kernel] at hret hker hm
  refine ⟨hret.trans bret, hker.trans bker, ?_, ?_, hA.kept c e hasks⟩
  · rw [hm]
    exact bout
  · rw [hm]
    exact bin

theorem Serves.undisturbed (h : Serves Z e t r) {n : Nat}
    (hstack : block (e.regs .rsp) n ⊆ Z) : Undisturbed e t n :=
  ⟨h.kept .rsp (by decide), h.stack.mono hstack⟩

theorem Serves.callee (h : Serves Z e t r) : ∀ q ∈ calleeSaved, t.regs q = e.regs q := by
  intro q hq
  refine h.kept q ?_
  revert q
  decide

/-! ## One call -/

/-- A call on the machine has done what the kernel's answer says. -/
structure Makes (Z : Set Word) (errno : Word) (s : State κ) (r : Answer κ) (w : State κ) : Prop where
  same : Matches Z w (.after errno r)
  kept : ∀ q ∈ calleeSaved, w.regs q = s.regs q

/-- The three quadwords under the stack pointer of a call. -/
theorem stack_parts {site : Site} (h : site.pushed ⊆ Z) :
    block (site.rsp - 8) 8 ⊆ Z ∧ block (site.rsp - 8 - 8) 16 ⊆ Z ∧ block (site.rsp - 8 - 8) 8 ⊆ Z ∧
      block (site.rsp - 8 - 8 - 8) 8 ⊆ Z := by
  have htwo : block (site.rsp - 8 - 8) 16 ⊆ Z := (block_above _ (Nat.le_refl 24)).trans h
  exact ⟨(block_above _ (Nat.le_refl 16)).trans htwo, htwo, (block_mono (by decide)).trans htwo,
    (block_mono (by decide)).trans h⟩

variable {site : Site}

/-- **A wrapper.** -/
theorem made_wrapped (hA : Realizes sys A) (openBack : Word) (f : Wrapped) (hroom : site.pushed ⊆ Z)
    (h : Matches Z s v) (hblind : Blind A Z (.wrapped f) v) :
    ∃ w, made sys errno openBack site s (.wrapped f) =
        some (f.wrapper.result.value (A (.wrapped f) v.kernel v.mem).ret, w) ∧
      Makes Z errno s (A (.wrapped f) v.kernel v.mem) w := by
  obtain ⟨hone, htwo, -⟩ := stack_parts hroom
  have hin : Entered site (.wrapped f) s (entry site f.wrapper.args s) := entered site (.wrapped f) s
  generalize hu : entry site f.wrapper.args s = u at hin
  have hslot : block (u.regs .rsp - 8) 8 ⊆ Z := by
    rw [hin.rsp]
    exact (block_mono (by decide)).trans htwo
  have hasks : Asks (.wrapped f) (trap f.wrapper.number u) := asks_trap (c := .wrapped f) hin.args
  have htrap : Matches Z (trap f.wrapper.number u) v :=
    ⟨hin.kernel.trans h.kernel, (trap_outside _ hslot).trans ((hin.outside hone).trans h.mem)⟩
  have hserves := hA.serves hasks htrap hblind
  have hrsp : (trap f.wrapper.number u).regs .rsp = site.rsp - 8 - 8 := by rw [trap_rsp, hin.rsp]
  -- the kernel has left the stack alone, so the stub finds its register and its return address
  have hstub := gensys_returns (hserves.undisturbed (by rwa [hrsp]))
  rw [hin.slot] at hstub
  generalize ht : exec sys (gensys f.wrapper.number) u = t at hstub
  have hret : t.regs .rax = (A (.wrapped f) v.kernel v.mem).ret := by
    rw [hstub, ← hserves.ret]
    simp [Function.update]
  refine ⟨{ t with mem := store t.mem errno (wrapper (t.regs .rax)).errno }, ?_, ⟨?_, ?_⟩, fun q hq => ?_⟩
  · have hback : t.rip = site.back := by rw [hstub]
    simp only [made, hu, ht, if_pos hback, hret]
  · rw [hstub]
    exact hserves.kernel
  · rw [hret, hstub]
    exact store_congr hserves.outside _ _
  · have hne : q ≠ .rsp ∧ q ≠ .r10 := by
      revert q
      decide
    rw [hstub]
    simp only [Function.update_of_ne hne.1, Function.update_of_ne hne.2]
    exact (hserves.callee q hq).trans ((trap_kept _ u q hq).trans (hin.kept q hq))

/-- **`open`.** Its own return address is on the stack above that of the stub. -/
theorem made_open (hA : Realizes sys A) (openBack path flags mode : Word) (hroom : site.pushed ⊆ Z)
    (h : Matches Z s v) (herrno : Disjoint (block errno 8) Z) (hblind : Blind A Z (.openFile path flags mode) v) :
    ∃ w, made sys errno openBack site s (.openFile path flags mode) =
        some (.int (int (wrapper (A (.openFile path flags mode) v.kernel v.mem).ret).value), w) ∧
      Makes Z errno s (A (.openFile path flags mode) v.kernel v.mem) w := by
  obtain ⟨hone, -, htwo, hthree⟩ := stack_parts hroom
  have hin : Entered site (.openFile path flags mode) s (entry site [path, flags, mode] s) :=
    entered site (.openFile path flags mode) s
  generalize hu : entry site [path, flags, mode] s = u at hin
  have hpush : (u.push openBack).regs .rsp = site.rsp - 8 - 8 := by rw [State.push_rsp, hin.rsp]
  have hasks : Asks (.openFile path flags mode) (trap 2 (u.push openBack)) :=
    asks_trap (c := .openFile path flags mode) ((push_args u openBack _).trans hin.args)
  have htrap : Matches Z (trap 2 (u.push openBack)) v := by
    refine ⟨hin.kernel.trans h.kernel, (trap_outside _ (by rwa [hpush])).trans ?_⟩
    exact (push_outside u openBack (by rwa [hin.rsp])).trans ((hin.outside hone).trans h.mem)
  have hserves := hA.serves hasks htrap hblind
  have hrsp : (trap 2 (u.push openBack)).regs .rsp = site.rsp - 8 - 8 - 8 := by rw [trap_rsp, hpush]
  obtain ⟨w, hrun, hrax, hwmem, hwker, hrip, -, hregs⟩ := open_wraps sys errno openBack u ⟨false, false⟩
    (hserves.undisturbed (by rw [hrsp]; exact hroom)) (herrno.mono_right (by rwa [hin.rsp]))
  refine ⟨w, ?_, ⟨?_, ?_⟩, fun q hq => ?_⟩
  · have hback : w.rip = site.back := hrip.trans hin.slot
    simp only [made, hu, hrun, Option.bind_some, if_pos hback, hrax, hserves.ret]
  · exact hwker.trans hserves.kernel
  · rw [hwmem, hserves.ret]
    exact store_congr hserves.outside _ _
  · have hne : q ≠ .rsp := by
      revert q
      decide
    rw [hregs q hq, hserves.callee q hq, trap_kept _ _ q hq]
    exact (Function.update_of_ne hne _ _).trans (hin.kept q hq)

/-- **One call**, by whichever of the two ways it is made. -/
theorem made_makes (hA : Realizes sys A) (openBack : Word) (hroom : site.pushed ⊆ Z)
    (h : Matches Z s v) (herrno : Disjoint (block errno 8) Z) (hblind : Blind A Z c v) :
    ∃ w, made sys errno openBack site s c = some (c.wrapper.result.value (A c v.kernel v.mem).ret, w) ∧
      Makes Z errno s (A c v.kernel v.mem) w := by
  cases c with
  | wrapped f => exact made_wrapped hA openBack f hroom h hblind
  | openFile path flags mode => exact made_open hA openBack path flags mode hroom h herrno hblind

/-! ## Programs -/

/-- What a program sees is the same on the machine. -/
theorem Matches.load (h : Matches Z s v) {a : Word} (ha : Disjoint (block a 8) Z) : load s.mem a = load v.mem a :=
  load_congr (h.mem.mono ha.subset_compl_right)

/-- **A run follows the meaning.** The induction is on the program; the machine matches the environment at each node. -/
theorem run_meaning (hA : Realizes sys A) (openBack : Word) (herrno : Disjoint (block errno 8) Z) (p : Script α)
    (s : State κ) (v : Env κ) (h : Matches Z s v) (hp : p.Careful A errno Z v) :
    ∃ t, p.run sys errno openBack s = some ((p.meaning A errno v).1, t) ∧ Matches Z t (p.meaning A errno v).2 ∧
      ∀ q ∈ calleeSaved, t.regs q = s.regs q := by
  induction p generalizing s v with
  | done a => exact ⟨s, rfl, h, fun _ _ => rfl⟩
  | call site c next ih =>
    obtain ⟨hroom, hblind, hnext⟩ := hp
    obtain ⟨w, hmade, hw⟩ := made_makes hA openBack hroom h herrno hblind
    -- the machine matches behind the call again, and the rest of the program starts there
    obtain ⟨t, hrun, ht, hkept⟩ := ih _ w (.after errno (A c v.kernel v.mem)) hw.same hnext
    refine ⟨t, ?_, ht, fun q hq => (hkept q hq).trans (hw.kept q hq)⟩
    rw [Script.run, hmade]
    exact hrun
  | peek a next ih =>
    obtain ⟨ha, hnext⟩ := hp
    have hload := h.load ha
    rw [← hload] at hnext
    obtain ⟨t, hrun, hrest⟩ := ih _ s v h hnext
    refine ⟨t, ?_, ?_⟩
    · rw [Script.run, hrun, Script.meaning, hload]
    · rw [Script.meaning, ← hload]
      exact hrest
  | poke a w next ih =>
    exact ih { s with mem := store s.mem a w } ⟨v.kernel, store v.mem a w⟩ ⟨h.kernel, store_congr h.mem a w⟩ hp

/-- **A program over the library does what it means**, on every machine that realizes the kernel: every call comes
    back, with the kernel's answer by the convention of the wrappers, the program's value, the kernel and the memory
    besides the stack, `errno` included, are those of the meaning, and the registers that the program may rely on are
    as they were. -/
theorem calls_refine (sys : State κ → State κ) (A : Kernel κ) (hA : Realizes sys A) (errno openBack : Word)
    (Z : Set Word) (herrno : Disjoint (block errno 8) Z) (p : Script α) (s : State κ)
    (hp : p.Careful A errno Z ⟨s.kernel, s.mem⟩) :
    ∃ t, p.run sys errno openBack s = some ((p.meaning A errno ⟨s.kernel, s.mem⟩).1, t) ∧
      Matches Z t (p.meaning A errno ⟨s.kernel, s.mem⟩).2 ∧ ∀ q ∈ calleeSaved, t.regs q = s.regs q :=
  run_meaning hA openBack herrno p s ⟨s.kernel, s.mem⟩ ⟨rfl, Set.eqOn_refl _ _⟩ hp

/-- A kernel without files. -/
def noFiles : Kernel Unit := fun c k m => ⟨if c.wrapper.number = 2 then -2 else 0, k, m⟩

def noFilesCall (e : State Unit) : State Unit := e.set .rax (if e.regs .rax = 2 then -2 else 0)

/-- A program that asks for a file, looks at `errno`, clears it and asks who it is. -/
def askAndLook : Script (Value × Word × Value) :=
  .call ⟨0x8000, 0x401000⟩ (.openFile 0x5000 0 0) fun v =>
    .peek 0x4000 fun e => .poke 0x4000 0 <|
      .call ⟨0x8000, 0x401020⟩ (.wrapped .getuid) fun w => .done (v, e, w)

theorem calls_refine_sample :
    ∃ t, askAndLook.run noFilesCall 0x4000 0x400800 ⟨fun _ => 0x9000, 0, fun _ => 0, ()⟩ =
      some ((.int (-1), 2, .int 0), t) := by
  have hrealizes : Realizes noFilesCall noFiles := by
    refine ⟨fun c e h => ⟨?_, rfl, rfl⟩, fun c e _ q hq => ?_⟩
    · rw [noFilesCall, State.set_same, h.1]
      rfl
    · exact State.set_other fun heq => hq (by simp [heq])
  have hblind : ∀ c v, Blind noFiles (block (0x8000 - 8 - 8 - 8) 24) c v := fun _ _ _ hm =>
    ⟨rfl, rfl, hm, Set.eqOn_refl _ _⟩
  have herrno : Disjoint (block (0x4000 : Word) 8) (block (0x8000 - 8 - 8 - 8) 24) := by
    rw [Set.disjoint_left]
    intro x hx hz
    rw [mem_block] at hx hz
    bv_omega
  obtain ⟨t, hrun, -⟩ := calls_refine noFilesCall noFiles hrealizes 0x4000 0x400800 _ herrno askAndLook
    ⟨fun _ => 0x9000, 0, fun _ => 0, ()⟩
    ⟨Set.Subset.rfl, hblind _ _, herrno, Set.Subset.rfl, hblind _ _, trivial⟩
  refine ⟨t, hrun.trans ?_⟩
  simp only [askAndLook, Script.meaning, Env.after, load_store]
  rfl

end AdvUnix.Libmini.Calls
