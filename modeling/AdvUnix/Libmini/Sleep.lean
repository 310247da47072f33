import AdvUnix.Lib.X86Routine
import AdvUnix.Libmini.JmpResult

/-!
# `Libmini.Sleep` — `sleep` in assembly and in C

The routine of `libmini64.asm` beside the C function that `libmini.c` keeps under `#if 0` and calls equivalent.
The assembly returns what the C function returns, through the same three ways out, and asks the kernel for the
whole of `rdi` where C has an `unsigned int`: they agree exactly when the upper half of `rdi` is zero
(`sleep_agrees_iff`).
-/

namespace AdvUnix.Libmini

open X86 ByteStore

/-! ## The system call -/

/-- `struct timespec` -/
structure Timespec where
  sec : Word
  nsec : Word
  deriving DecidableEq, Repr

def timespecAt (m : Memory) (a : Word) : Timespec := ⟨load m a, load m (a + 8)⟩

def putTimespec (m : Memory) (a : Word) (t : Timespec) : Memory := store (store m a t.sec) (a + 8) t.nsec

/-- `-EINTR` -/
def eintr : Word := -4

/-- What the kernel answers to `nanosleep`: a result, and the time that remains. It stores one when a signal
    ended the sleep. -/
structure Answer where
  ret : Word
  rem : Option Timespec
  interrupted : ret = eintr → rem.isSome = true

/-- A process, and the requests to sleep that its kernel has got. -/
abbrev Sleeper := State (List Timespec)

/-- The kernel: its answers, the registers that a system call clobbers, and every other call. -/
structure Nanosleep where
  answer : List Timespec → Timespec → Answer
  rcx : Sleeper → Word
  r11 : Sleeper → Word
  other : Sleeper → Sleeper

variable (K : Nanosleep)

/-- `nanosleep(rqtp, rmtp)`, which has the number 35. -/
def nanosleepCall (s : Sleeper) : Sleeper :=
  if s.regs .rax = 35 then
    let req := timespecAt s.mem (s.regs .rdi)
    let answer := K.answer s.kernel req
    { ((s.set .rax answer.ret).set .rcx (K.rcx s)).set .r11 (K.r11 s) with
      mem := answer.rem.elim s.mem (putTimespec s.mem (s.regs .rsi))
      kernel := s.kernel ++ [req] }
  else K.other s

/-! ## In assembly -/

/-- The macro `gensys`. -/
def gensys (number : Word) : List Instr :=
  [.push .r10, .mov .r10 .rcx, .imm .rax number, .syscall, .pop .r10, .ret]

def sysNanosleep : List Instr := gensys 35

inductive SleepLabel
  | sleepError | sleepInterrupted | sleepFailed | sleepQuit
  deriving DecidableEq, Repr

/-- `sleep`; `back` is the address of the line after the call. -/
def sleep (back : Word) : List (Line SleepLabel) := [
  .sub .rsp 32,
  .op (.store .rsp 0 .rdi),
  .storeImm .rsp 8 0,
  .op (.mov .rdi .rsp),
  .op (.lea .rsi .rsp 16),
  .call sysNanosleep back,
  .cmp .rax 0,
  .jge .sleepQuit,
  .label .sleepError,
  .neg .rax,
  .cmp .rax 4,
  .jne .sleepFailed,
  .label .sleepInterrupted,
  .op (.lea .rsi .rsp 16),
  .op (.load .rax .rsi 0),
  .jmp .sleepQuit,
  .label .sleepFailed,
  .op (.imm .rax 0),
  .label .sleepQuit,
  .add .rsp 32,
  .op .ret]

/-! ## In C -/

def cRequest (seconds : BitVec 32) : Timespec := ⟨seconds.setWidth 64, 0⟩

/-- What `sleep` of `libmini.c` makes of an answer. -/
def cReturn (answer : Answer) : BitVec 32 :=
  if 0 ≤ answer.ret.toInt then int answer.ret
  else if h : answer.ret = eintr then int (answer.rem.get (answer.interrupted h)).sec
  else 0

/-- `sleep` of `libmini.c`. -/
def cSleep (sysNanosleep : Timespec → Answer) (seconds : BitVec 32) : BitVec 32 :=
  cReturn (sysNanosleep (cRequest seconds))

/-! ## The call of the kernel -/

variable {K} {back : Word} {s t u : Sleeper}

/-- What is left after `sleep` has called the kernel, with its frame of two timespecs at `rsp`. -/
structure Answered (K : Nanosleep) (back : Word) (u t : Sleeper) : Prop where
  rip : t.rip = back
  rax : t.regs .rax = (K.answer u.kernel (timespecAt u.mem (u.regs .rsp))).ret
  rsp : t.regs .rsp = u.regs .rsp
  regs : ∀ r ∈ calleeSaved, t.regs r = u.regs r
  kernel : t.kernel = u.kernel ++ [timespecAt u.mem (u.regs .rsp)]
  rem : ∀ rem, (K.answer u.kernel (timespecAt u.mem (u.regs .rsp))).rem = some rem →
    load t.mem (u.regs .rsp + 16) = rem.sec
  above : load t.mem (u.regs .rsp + 32) = load u.mem (u.regs .rsp + 32)

/-- The stack that `sys_nanosleep` works on: the return address, and `r10` under it. -/
def pushed (u : Sleeper) (back : Word) : Memory :=
  store (store u.mem (u.regs .rsp - 8) back) (u.regs .rsp - 8 - 8) (u.regs .r10)

theorem pushed_above (u : Sleeper) (back : Word) {c : Word} (h : Apart (-8) c) (h' : Apart (-16) c) :
    load (pushed u back) (u.regs .rsp + c) = load u.mem (u.regs .rsp + c) := by
  have hback : Apart (u.regs .rsp - 8) (u.regs .rsp + c) := by
    rw [BitVec.sub_eq_add_neg]
    exact apart_offsets _ h
  have hr10 : Apart (u.regs .rsp - 8 - 8) (u.regs .rsp + c) := by
    rw [BitVec.sub_sub, BitVec.sub_eq_add_neg]
    exact apart_offsets _ h'
  unfold pushed
  rw [load_store_apart _ _ hr10, load_store_apart _ _ hback]

theorem pushed_back (u : Sleeper) (back : Word) : load (pushed u back) (u.regs .rsp - 8) = back := by
  have hapart : Apart (u.regs .rsp - 8 - 8) (u.regs .rsp - 8) := by
    rw [BitVec.sub_sub, BitVec.sub_eq_add_neg, BitVec.sub_eq_add_neg]
    exact apart_offsets _ (by decide)
  unfold pushed
  rw [load_store_apart _ _ hapart, load_store]

theorem load_putTimespec_apart (m : Memory) {a b : Word} (t : Timespec) (h : Apart a b)
    (h' : Apart (a + 8) b) : load (putTimespec m a t) b = load m b := by
  unfold putTimespec
  rw [load_store_apart _ _ h', load_store_apart _ _ h]

theorem load_putTimespec (m : Memory) (a : Word) (t : Timespec) : load (putTimespec m a t) a = t.sec := by
  have hapart : Apart (a + 8) a := by
    have h := apart_offsets a (show Apart 8 0#64 by decide)
    rwa [BitVec.add_zero] at h
  unfold putTimespec
  rw [load_store_apart _ _ hapart, load_store]

/-- What the kernel stores at 16 above `rsp` leaves the quadwords apart from it. -/
theorem load_rem_apart (m : Memory) (a : Word) (rem : Option Timespec) {c : Word} (h16 : Apart 16 c)
    (h24 : Apart 24 c) : load (rem.elim m (putTimespec m (a + 16))) (a + c) = load m (a + c) := by
  cases rem with
  | none => rfl
  | some rem =>
      refine load_putTimespec_apart _ rem (apart_offsets _ h16) ?_
      rw [BitVec.add_assoc]
      exact apart_offsets _ h24

/-- The request stays as it is while the call is made. -/
theorem pushed_request (u : Sleeper) (back : Word) :
    timespecAt (pushed u back) (u.regs .rsp) = timespecAt u.mem (u.regs .rsp) := by
  have hsec := pushed_above u back (show Apart (-8) 0#64 by decide) (by decide)
  have hnsec := pushed_above u back (show Apart (-8) 8 by decide) (by decide)
  rw [BitVec.add_zero] at hsec
  unfold timespecAt
  rw [hsec, hnsec]

variable (K) in
/-- The state in which `sys_nanosleep` enters the kernel. -/
def trapped (u : Sleeper) (back : Word) : Sleeper :=
  exec (nanosleepCall K) (sysNanosleep.take 3) (u.push back)

theorem trapped_rax : (trapped K u back).regs .rax = 35 := by
  simp [trapped, sysNanosleep, gensys, step, State.set]

theorem trapped_rsp : (trapped K u back).regs .rsp = u.regs .rsp - 8 - 8 := by
  simp [trapped, sysNanosleep, gensys, step, State.set, State.push, Function.update]

theorem trapped_regs {r : Reg} (hrsp : r ≠ .rsp) (hr10 : r ≠ .r10) (hrax : r ≠ .rax) :
    (trapped K u back).regs r = u.regs r := by
  simp [trapped, sysNanosleep, gensys, step, State.set, State.push, Function.update, hrsp, hr10, hrax]

theorem trapped_mem : (trapped K u back).mem = pushed u back := by
  simp [trapped, sysNanosleep, gensys, step, State.set, State.push, Function.update, pushed]

theorem trapped_kernel : (trapped K u back).kernel = u.kernel := by
  simp [trapped, sysNanosleep, gensys, step, State.set, State.push]

/-- **The call of `sys_nanosleep`**: the answer comes back, and the frame and the registers stay. -/
theorem call_answered (hrdi : u.regs .rdi = u.regs .rsp) (hrsi : u.regs .rsi = u.regs .rsp + 16) :
    Answered K back u (exec (nanosleepCall K) sysNanosleep (u.push back)) := by
  have hrun : exec (nanosleepCall K) sysNanosleep (u.push back) =
      exec (nanosleepCall K) [.pop .r10, .ret] (nanosleepCall K (trapped K u back)) := rfl
  obtain ⟨answer, hanswer⟩ : ∃ a, a = K.answer u.kernel (timespecAt u.mem (u.regs .rsp)) := ⟨_, rfl⟩
  have hcall : nanosleepCall K (trapped K u back) =
      { (((trapped K u back).set .rax answer.ret).set .rcx (K.rcx (trapped K u back))).set .r11
          (K.r11 (trapped K u back)) with
        mem := answer.rem.elim (pushed u back) (putTimespec (pushed u back) (u.regs .rsp + 16))
        kernel := u.kernel ++ [timespecAt u.mem (u.regs .rsp)] } := by
    unfold nanosleepCall
    rw [if_pos trapped_rax, trapped_mem, trapped_kernel, trapped_regs (by decide) (by decide) (by decide), hrdi,
      trapped_regs (by decide) (by decide) (by decide), hrsi, pushed_request, hanswer]
  rw [hrun, hcall]
  simp only [exec_cons, exec_nil, step, State.set]
  constructor
  case rip =>
    have hback := load_rem_apart (pushed u back) (u.regs .rsp) answer.rem (show Apart 16 (-8) by decide)
      (by decide)
    rw [← BitVec.sub_eq_add_neg, pushed_back] at hback
    simp [Function.update, trapped_rsp]
    exact hback
  case rax => simp [Function.update, hanswer]
  case rsp => simp [Function.update, trapped_rsp]
  case regs =>
    intro r hr
    have hne : r ≠ .rsp ∧ r ≠ .r10 ∧ r ≠ .rax ∧ r ≠ .rcx ∧ r ≠ .r11 := by
      revert r
      decide
    obtain ⟨hrsp, hr10, hrax, hrcx, hr11⟩ := hne
    simp [Function.update, hrsp, hr10, hrax, hrcx, hr11]
    exact trapped_regs hrsp hr10 hrax
  case kernel => rfl
  case rem =>
    intro rem hrem
    rw [← hanswer] at hrem
    rw [hrem]
    exact load_putTimespec _ _ _
  case above =>
    dsimp only
    rw [load_rem_apart _ _ _ (by decide) (by decide)]
    exact pushed_above u back (by decide) (by decide)

/-! ## The three ways out -/

variable (K) in
/-- The last lines: the frame goes, and the routine returns. -/
def left (t : Sleeper) : Sleeper := step (nanosleepCall K) (t.set .rsp (t.regs .rsp + 32)) .ret

/-- The lines behind the call, in `w` at the end: what comes back, and what stays. -/
structure Left (t w : Sleeper) (v : Word) : Prop where
  rax : w.regs .rax = v
  rsp : w.regs .rsp = t.regs .rsp + 40
  rip : w.rip = load t.mem (t.regs .rsp + 32)
  kernel : w.kernel = t.kernel
  regs : ∀ r ∈ calleeSaved, w.regs r = t.regs r

/-- A state that differs from another in `rax` and `rsi` alone, at the last lines. -/
theorem Left.of_frame (v : Word) (hrsp : u.regs .rsp = t.regs .rsp) (hrax : u.regs .rax = v)
    (hregs : ∀ r ∈ calleeSaved, u.regs r = t.regs r) (hmem : u.mem = t.mem) (hkernel : u.kernel = t.kernel) :
    Left t (left K u) v := by
  have hfour : t.regs .rsp + 32 + 8 = t.regs .rsp + 40 := by rw [BitVec.add_assoc]; rfl
  constructor
  case rax => simpa [left, step, State.set, Function.update] using hrax
  case rsp =>
    rw [← hfour, ← hrsp]
    simp [left, step, State.set]
  case rip =>
    rw [← hmem, ← hrsp]
    simp [left, step, State.set]
  case kernel => exact hkernel
  case regs =>
    intro r hr
    have hne : r ≠ .rsp := by
      revert r
      decide
    simpa [left, step, State.set, Function.update, hne] using hregs r hr

/-- What the routine returns of the answer in `rax` and the time in its frame. -/
def answered (t : Sleeper) : Word :=
  if (t.regs .rax).slt 0 then
    if -t.regs .rax == 4 then load t.mem (t.regs .rsp + 16) else 0
  else t.regs .rax

/-- **Behind the call**: on success to the last lines, after `EINTR` by way of the frame, after another error
    by way of 0. -/
theorem run_answer (n : Nat) (t : Sleeper) (f : Flags) :
    ∃ w, runFrom (nanosleepCall K) (sleep back) (n + 13) ((sleep back).drop 6) t f = some w ∧
      Left t w (answered t) := by
  have hcmp : runFrom (nanosleepCall K) (sleep back) (n + 13) ((sleep back).drop 6) t f =
      runFrom (nanosleepCall K) (sleep back) (n + 11)
        (if (t.regs .rax).slt 0 then (sleep back).drop 8 else target (sleep back) .sleepQuit) t
        (.ofSub (t.regs .rax) 0) := rfl
  have hother : ∀ r ∈ calleeSaved, r ≠ .rax ∧ r ≠ .rsi := by decide
  rw [hcmp]
  unfold answered
  by_cases hneg : (t.regs .rax).slt 0 = true
  · rw [if_pos hneg, if_pos hneg]
    have hjne : runFrom (nanosleepCall K) (sleep back) (n + 11) ((sleep back).drop 8) t
        (.ofSub (t.regs .rax) 0) =
        runFrom (nanosleepCall K) (sleep back) (n + 7)
          (if -t.regs .rax == 4 then (sleep back).drop 12 else target (sleep back) .sleepFailed)
          (t.set .rax (-t.regs .rax)) (.ofSub (-t.regs .rax) 4) := rfl
    rw [hjne]
    by_cases hintr : (-t.regs .rax == 4) = true
    · rw [if_pos hintr, if_pos hintr]
      refine ⟨_, rfl, Left.of_frame _ rfl ?_ ?_ rfl rfl⟩
      · simp [step, State.set, Function.update]
      · intro r hr
        obtain ⟨hrax, hrsi⟩ := hother r hr
        simp [step, State.set, Function.update, hrax, hrsi]
    · rw [if_neg hintr, if_neg hintr]
      refine ⟨_, rfl, Left.of_frame _ rfl rfl ?_ rfl rfl⟩
      intro r hr
      obtain ⟨hrax, -⟩ := hother r hr
      simp [step, State.set, Function.update, hrax]
  -- `jge` is taken
  · rw [if_neg hneg, if_neg hneg]
    exact ⟨_, rfl, Left.of_frame _ rfl rfl (fun _ _ => rfl) rfl rfl⟩

/-! ## The two together -/

/-- The routine does what the C function does: the same request, the same `unsigned int`; it returns to its
    caller with the stack pointer and the registers that it must keep. -/
structure Agrees (K : Nanosleep) (s t : Sleeper) : Prop where
  request : t.kernel = s.kernel ++ [cRequest (int (s.regs .rdi))]
  result : int (t.regs .rax) = cSleep (K.answer s.kernel) (int (s.regs .rdi))
  rip : t.rip = load s.mem (s.regs .rsp)
  rsp : t.regs .rsp = s.regs .rsp + 8
  regs : ∀ r ∈ calleeSaved, t.regs r = s.regs r

/-- The request that the routine passes. -/
def request (s : Sleeper) : Timespec := ⟨s.regs .rdi, 0⟩

/-- The routine at its call of the kernel. -/
def asking (s : Sleeper) : Sleeper :=
  { s with
    regs := Function.update (Function.update (Function.update s.regs .rsp (s.regs .rsp - 32)) .rdi
      (s.regs .rsp - 32)) .rsi (s.regs .rsp - 32 + 16)
    mem := store (store s.mem (s.regs .rsp - 32 + 0) (s.regs .rdi)) (s.regs .rsp - 32 + 8) 0 }

theorem asking_request (s : Sleeper) : timespecAt (asking s).mem (s.regs .rsp - 32) = request s := by
  have hzero : s.regs .rsp - 32 + 0 = s.regs .rsp - 32 := BitVec.add_zero _
  have hapart : Apart (s.regs .rsp - 32 + 8) (s.regs .rsp - 32 + 0) := apart_offsets _ (by decide)
  have hsec : load (asking s).mem (s.regs .rsp - 32 + 0) = s.regs .rdi := by
    unfold asking
    rw [load_store_apart _ _ hapart, load_store]
  have hnsec : load (asking s).mem (s.regs .rsp - 32 + 8) = 0 := load_store _ _ _
  rw [hzero] at hsec
  rw [timespecAt, hsec, hnsec]
  rfl

theorem asking_above (s : Sleeper) :
    load (asking s).mem (s.regs .rsp - 32 + 32) = load s.mem (s.regs .rsp) := by
  have hsec : Apart (s.regs .rsp - 32 + 0) (s.regs .rsp - 32 + 32) := apart_offsets _ (by decide)
  have hnsec : Apart (s.regs .rsp - 32 + 8) (s.regs .rsp - 32 + 32) := apart_offsets _ (by decide)
  unfold asking
  rw [load_store_apart _ _ hnsec, load_store_apart _ _ hsec, BitVec.sub_add_cancel]

/-- What the routine returns is what C makes of the answer: `-rax == 4` is `ret == -EINTR`. -/
theorem answered_eq {t : Sleeper} (ht : Answered K back (asking s) t) :
    int (answered t) = cReturn (K.answer s.kernel (request s)) := by
  have hreq : timespecAt (asking s).mem ((asking s).regs .rsp) = request s := asking_request s
  have hrax := ht.rax
  have hrem := ht.rem
  rw [hreq] at hrax hrem
  rw [← ht.rsp] at hrem
  change t.regs .rax = (K.answer s.kernel (request s)).ret at hrax
  change ∀ rem, (K.answer s.kernel (request s)).rem = some rem → load t.mem (t.regs .rsp + 16) = rem.sec at hrem
  generalize K.answer s.kernel (request s) = answer at hrax hrem
  have hslt : (answer.ret.slt 0 = true) ↔ ¬ 0 ≤ answer.ret.toInt := by
    have hzero : (0 : Word).toInt = 0 := rfl
    rw [BitVec.slt_iff_toInt_lt, hzero]
    exact Int.not_le.symm
  have hfour : ((-answer.ret == 4) = true) ↔ answer.ret = eintr := by
    rw [beq_iff_eq, eintr]
    exact neg_eq_iff_eq_neg
  unfold answered cReturn
  rw [hrax]
  by_cases hok : 0 ≤ answer.ret.toInt
  · rw [if_neg (fun h => hslt.mp h hok), if_pos hok]
  rw [if_pos (hslt.mpr hok), if_neg hok]
  by_cases hintr : answer.ret = eintr
  · rw [if_pos (hfour.mpr hintr), dif_pos hintr, hrem _ (Option.some_get _).symm]
  · rw [if_neg (fun h => hintr (hfour.mp h)), dif_neg hintr]
    rfl

/-- The routine, whatever is in the upper half of `rdi`. -/
theorem sleep_runs (K : Nanosleep) (back : Word) (s : Sleeper) (f : Flags) :
    ∃ t, runRoutine (nanosleepCall K) (sleep back) s f = some t ∧
      t.kernel = s.kernel ++ [request s] ∧
      int (t.regs .rax) = cReturn (K.answer s.kernel (request s)) ∧
      t.rip = load s.mem (s.regs .rsp) ∧ t.regs .rsp = s.regs .rsp + 8 ∧
      ∀ r ∈ calleeSaved, t.regs r = s.regs r := by
  have hcall : Answered K back (asking s) (exec (nanosleepCall K) sysNanosleep ((asking s).push back)) :=
    call_answered rfl rfl
  generalize hu : exec (nanosleepCall K) sysNanosleep ((asking s).push back) = u at hcall
  obtain ⟨t, hrun, hleft⟩ := @run_answer K back 2 u (.ofSub (s.regs .rsp) 32)
  have hroutine : runRoutine (nanosleepCall K) (sleep back) s f =
      if u.rip = back then
        runFrom (nanosleepCall K) (sleep back) 15 ((sleep back).drop 6) u (.ofSub (s.regs .rsp) 32)
      else none := by
    rw [← hu]
    rfl
  have hreq : timespecAt (asking s).mem ((asking s).regs .rsp) = request s := asking_request s
  have hrsp : u.regs .rsp = s.regs .rsp - 32 := hcall.rsp
  refine ⟨t, ?_, ?_, ?_, ?_, ?_, ?_⟩
  · rw [hroutine, if_pos hcall.rip]
    exact hrun
  · rw [hleft.kernel, hcall.kernel, hreq]
    rfl
  · rw [hleft.rax]
    exact answered_eq hcall
  · rw [hleft.rip, hcall.rsp, hcall.above]
    exact asking_above s
  · rw [hleft.rsp, hrsp]
    bv_omega
  · intro r hr
    have hne : r ≠ .rsi ∧ r ≠ .rdi ∧ r ≠ .rsp := by
      revert r
      decide
    rw [hleft.regs r hr, hcall.regs r hr]
    simp [asking, Function.update, hne]

/-- C takes the low half of `rdi`. -/
theorem request_eq_iff (s : Sleeper) :
    request s = cRequest (int (s.regs .rdi)) ↔ (s.regs .rdi).toNat < 2 ^ 32 := by
  unfold request cRequest int
  rw [Timespec.mk.injEq, and_iff_left rfl, ← BitVec.toNat_inj, BitVec.toNat_setWidth, BitVec.toNat_setWidth]
  omega

/-- **`sleep`** in assembly agrees with `sleep` in C, on every answer of the kernel, exactly when the upper half
    of `rdi` is zero. -/
theorem sleep_agrees_iff (K : Nanosleep) (back : Word) (s : Sleeper) (f : Flags) :
    (∃ t, runRoutine (nanosleepCall K) (sleep back) s f = some t ∧ Agrees K s t) ↔
      (s.regs .rdi).toNat < 2 ^ 32 := by
  obtain ⟨t, hrun, hkernel, hresult, hrip, hrsp, hregs⟩ := sleep_runs K back s f
  rw [← request_eq_iff]
  constructor
  · rintro ⟨u, hrun', h⟩
    rw [hrun] at hrun'
    cases hrun'
    have hlog := hkernel.symm.trans h.request
    exact List.singleton_injective (List.append_cancel_left hlog)
  · intro hreq
    rw [hreq] at hkernel hresult
    exact ⟨t, hrun, hkernel, hresult, hrip, hrsp, hregs⟩

/-- A kernel that lets every sleeper sleep to the end. -/
def patient : Nanosleep := ⟨fun _ _ => ⟨0, none, by decide⟩, fun s => s.rip, fun _ => 0x246, id⟩

/-- `sleep(1)`, with a bit left over in the upper half of `rdi`. -/
def sleepyEntry : Sleeper where
  regs := fun r => if r = .rdi then 0x100000001 else 0x8000
  rip := 0
  mem := fun _ => 0
  kernel := []

/-- **A bit above the argument** makes it 136 years. -/
theorem sleep_upper_half : ¬ ∀ (K : Nanosleep) (back : Word) (s : Sleeper) (f : Flags),
    ∃ t, runRoutine (nanosleepCall K) (sleep back) s f = some t ∧ Agrees K s t := by
  intro h
  obtain ⟨t, hrun, hagrees⟩ := h patient 0x401000 sleepyEntry ⟨false, false⟩
  obtain ⟨u, hrun', hkernel, -⟩ := sleep_runs patient 0x401000 sleepyEntry ⟨false, false⟩
  rw [hrun] at hrun'
  cases hrun'
  have hlog := hkernel.symm.trans hagrees.request
  exact absurd hlog (by decide)

end AdvUnix.Libmini
