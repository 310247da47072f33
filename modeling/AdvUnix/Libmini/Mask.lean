import AdvUnix.Libmini.Loops
import AdvUnix.Libmini.Wrappers

/-!
# `Libmini.Mask` — `sigprocmask`

`sigprocmask` of `libmini.c` from its C text down to the kernel: it copies the set into a variable of its own, and
calls the kernel through the stub with the address of that variable. A call does one thing to the set of blocked
signals (`sigprocmask_served`, `sigprocmask_refused`), so the calls of a whole run compute what the same
operations on sets do (`mask_refines`), and a mask that has been asked for can be put back (`mask_restored`).
-/

namespace AdvUnix.Libmini

open X86 ByteStore WordSet

/-! ## The function -/

/-- `errno`, and the process. -/
structure Library where
  errno : Word
  proc : Proc

/-- Where the compiler puts things: the stack pointer when the stub is called, the address of the line behind the
    call, and the local variable. -/
structure MaskFrame where
  rsp : Word
  back : Word
  tmpset : Word

def sysRtSigprocmask : List Instr := gensys 14

/-- The state at the call of a stub with four arguments. -/
def arguments (s : Proc) (rsp rdi rsi rdx rcx : Word) : Proc :=
  ((((s.set .rsp rsp).set .rdi rdi).set .rsi rsi).set .rdx rdx).set .rcx rcx

/-- What `sigprocmask` has made of its arguments when it calls the stub. The registers that hold them are given, of
    `how` with what is above the `int`. -/
def prepared (frame : MaskFrame) (how set oldset : Word) (s : Proc) : Proc :=
  if set ≠ 0 then
    arguments { s with mem := Loops.memcpy s.mem frame.tmpset set 8 } frame.rsp how frame.tmpset oldset 8
  else arguments s frame.rsp how 0 oldset 8

def sigprocmask (K : Sys) (frame : MaskFrame) (how set oldset : Word) (c : Library) : BitVec 32 × Library :=
  let t := exec (syscall K) sysRtSigprocmask ((prepared frame how set oldset c.proc).push frame.back)
  let r := wrapper (t.regs .rax)
  (int r.value, ⟨r.errno, t⟩)

/-! ## Sets of blocked signals -/

/-- `SIGKILL` and `SIGSTOP`, by their positions. -/
def never : Set (Fin 64) := ones unblockable

/-- The blocked signals. -/
def Library.blocked (c : Library) : Set (Fin 64) := ones c.proc.kernel.bits

/-- A change of the mask that is asked for: `how`, and the set unless the pointer is null. -/
structure MaskOp where
  how : BitVec 32
  set : Option Word

/-- **What it does to the blocked signals**; `none` where there is no such `how`. -/
def MaskOp.change (op : MaskOp) (B : Set (Fin 64)) : Option (Set (Fin 64)) :=
  match op.set with
  | none => some B
  | some s =>
      match op.how.toNat with
      | 0 => some (B ∪ (ones s \ never))
      | 1 => some (B \ ones s)
      | 2 => some (ones s \ never)
      | _ => none

/-- The blocked signals after it. -/
def MaskOp.apply (B : Set (Fin 64)) (op : MaskOp) : Set (Fin 64) := (op.change B).getD B

/-! ## The kernel's change -/

theorem ones_of (set : Word) : ones (SigMask.of set).bits = ones set \ never := ones_diff

/-- `SIGKILL` and `SIGSTOP` are never among the blocked ones. -/
theorem SigMask.disjoint_never (m : SigMask) : Disjoint (ones m.bits) never := by
  rw [Set.disjoint_left]
  intro i hi hnever
  have hand := congrArg (fun w : Word => w.getLsbD i) m.blockable
  rw [mem_ones] at hi
  have hbit : unblockable.getLsbD i = true := hnever
  simp only [BitVec.getLsbD_and, hi, hbit] at hand
  simp at hand

variable {K : Sys} {frame : MaskFrame} {how set oldset : Word} {c : Library} {e : Proc}

/-- The operation that the arguments of the kernel ask for. -/
def asks (e : Proc) : MaskOp where
  how := int (e.regs .rdi)
  set := if e.regs .rsi = 0 then none else some (load e.mem (e.regs .rsi))

/-- **The new mask** of the kernel, as a set. -/
theorem newMask_change (e : Proc) :
    (newMask e).map (fun m => ones m.bits) = (asks e).change (ones e.kernel.bits) := by
  have hblocked : ones e.kernel.bits \ never = ones e.kernel.bits :=
    sdiff_eq_left.mpr e.kernel.disjoint_never
  unfold newMask asks MaskOp.change
  by_cases hset : e.regs .rsi = 0
  · simp only [if_pos hset, Option.map_some]
  · simp only [if_neg hset, int]
    generalize ((e.regs .rdi).setWidth 32).toNat = how
    rcases how with _ | _ | _ | how
    · simp only [Option.map_some, ones_of, ones_or, Set.union_sdiff_distrib, hblocked]
    · simp only [Option.map_some, ones_of, ones_diff, Option.some.injEq]
      rw [sdiff_right_comm, hblocked]
    · simp only [Option.map_some, ones_of]
    · rfl

/-! ## What the stub gets -/

/-- The objects of a call are where the compiler and the program put them: the frame has room for the local variable
    above the stack pointer, and nothing that the pointers point to is in the part of the stack that is written. -/
structure MaskFrame.Placed (frame : MaskFrame) (set oldset : Word) : Prop where
  tmpset : frame.tmpset ≠ 0
  apart : Disjoint (block frame.tmpset 8) (block (frame.rsp - 8 - 8) 16)
  set : set ≠ 0 → Disjoint (block set 8) (block frame.tmpset 8)
  oldset : oldset ≠ 0 → Disjoint (block oldset 8) (block (frame.rsp - 8 - 8) 16)

/-- The operation that a call asks for. -/
def asked (how set : Word) (m : Memory) : MaskOp where
  how := int how
  set := if set = 0 then none else some (load m set)

theorem clear_of_disjoint {a b : Word} (h : Disjoint (block b 8) (block a 8)) : Clear a b 8 := by
  refine Or.inr (Nat.le_of_not_lt fun hlt => ?_)
  have hself : a ∈ block a 8 := by
    rw [mem_block, BitVec.sub_self]
    decide
  exact Set.disjoint_left.mp h hlt hself

/-- `_memcpy` of a `sigset_t` to another place. -/
theorem memcpy_word {a b : Word} (h : Clear a b 8) (m : Memory) : Loops.memcpy m a b 8 = store m a (load m b) := by
  have hrounds : Loops.rounds 8 = 8 := by decide
  unfold Loops.memcpy store load
  rw [hrounds, copyUp_clear h (by decide), wordBytes_word (read_length m b 8)]

variable {s : Proc}

/-- The part of the stack that a call writes, and its local variable. -/
def MaskFrame.area (frame : MaskFrame) : Set Word := block (frame.rsp - 8 - 8) 16 ∪ block frame.tmpset 8

/-- The state in which a call comes to the kernel. -/
structure Arrives (frame : MaskFrame) (how set oldset : Word) (s e : Proc) : Prop where
  rax : e.regs .rax = 14
  rdi : e.regs .rdi = how
  rsi : e.regs .rsi = if set = 0 then 0 else frame.tmpset
  rdx : e.regs .rdx = oldset
  r10 : e.regs .r10 = 8
  rsp : e.regs .rsp = frame.rsp - 8 - 8
  kernel : e.kernel = s.kernel
  copied : set ≠ 0 → load e.mem frame.tmpset = load s.mem set
  mem : Set.EqOn e.mem s.mem frame.areaᶜ

/-- What is pushed on the way goes to the part of the stack under the frame. -/
theorem pushed_twice (u : Proc) (v w : Word) :
    Set.EqOn (store (store u.mem (u.regs .rsp - 8) v) (u.regs .rsp - 8 - 8) w) u.mem
      (block (u.regs .rsp - 8 - 8) 16)ᶜ := by
  intro x hx
  have hlow : x ∉ block (u.regs .rsp - 8 - 8) 8 := fun h => hx (block_mono (by decide) h)
  have hhigh : x ∉ block (u.regs .rsp - 8) 8 := fun h => hx (block_above _ (Nat.le_refl 16) h)
  rw [store_eqOn _ _ _ hlow, store_eqOn _ _ _ hhigh]

theorem arrives (h : frame.Placed set oldset) (s : Proc) :
    Arrives frame how set oldset s (trap 14 ((prepared frame how set oldset s).push frame.back)) := by
  by_cases hset : set = 0
  · -- no set, and no local variable
    have hprep : prepared frame how set oldset s = arguments s frame.rsp how 0 oldset 8 := if_neg (not_not.mpr hset)
    rw [hprep]
    refine ⟨rfl, rfl, ?_, rfl, rfl, rfl, rfl, fun hne => absurd hset hne, ?_⟩
    · rw [if_pos hset]
      rfl
    · exact (pushed_twice (arguments s frame.rsp how 0 oldset 8) _ _).mono
        (Set.compl_subset_compl.mpr Set.subset_union_left)
  · -- the local variable holds the set, and what is pushed then is apart from it
    have hprep : prepared frame how set oldset s =
        arguments { s with mem := store s.mem frame.tmpset (load s.mem set) } frame.rsp how frame.tmpset oldset 8 := by
      rw [prepared, if_pos hset, memcpy_word (clear_of_disjoint (h.set hset))]
    have hpushed := pushed_twice (arguments { s with mem := store s.mem frame.tmpset (load s.mem set) } frame.rsp how
      frame.tmpset oldset 8) frame.back (arguments { s with mem := store s.mem frame.tmpset (load s.mem set) } frame.rsp
      how frame.tmpset oldset 8 |>.regs .r10)
    rw [hprep]
    refine ⟨rfl, rfl, ?_, rfl, rfl, rfl, rfl, fun _ => ?_, ?_⟩
    · rw [if_neg hset]
      rfl
    · exact (load_congr (hpushed.mono h.apart.subset_compl_right)).trans (load_store _ _ _)
    · intro x hx
      have hstack : x ∉ block (frame.rsp - 8 - 8) 16 := fun hin => hx (Or.inl hin)
      have htmp : x ∉ block frame.tmpset 8 := fun hin => hx (Or.inr hin)
      exact (hpushed hstack).trans (store_eqOn _ _ _ htmp)

/-! ## One call -/

/-- The operation at the kernel is the one that the program asks for. -/
theorem Arrives.asks_eq {e : Proc} (h : Arrives frame how set oldset s e) (htmp : frame.tmpset ≠ 0) :
    asks e = asked how set s.mem := by
  unfold asks asked
  rw [h.rdi, h.rsi]
  by_cases hset : set = 0
  · simp only [if_pos hset, if_true]
  · simp only [if_neg hset, if_neg htmp, h.copied hset]

/-- A kernel that has stored something where `oldset` points leaves the stack of the stub alone. -/
theorem undisturbed_call {e t : Proc} (h : frame.Placed set oldset) (ha : Arrives frame how set oldset s e)
    (hrsp : t.regs .rsp = e.regs .rsp) {v : Word}
    (hmem : t.mem = if oldset = 0 then e.mem else store e.mem oldset v) : Undisturbed e t 16 := by
  refine ⟨hrsp, ?_⟩
  rw [hmem, ha.rsp]
  by_cases hold : oldset = 0
  · rw [if_pos hold]
    exact fun _ _ => rfl
  · rw [if_neg hold]
    exact (store_eqOn _ _ _).mono (h.oldset hold).symm.subset_compl_right

/-- A call that has been served: the blocked signals are the new ones, and the old ones are reported. -/
structure Served (frame : MaskFrame) (oldset : Word) (B : Set (Fin 64)) (c : Library) (r : BitVec 32 × Library) :
    Prop where
  result : r.1 = 0
  errno : r.2.errno = 0
  blocked : r.2.blocked = B
  reported : oldset ≠ 0 → load r.2.proc.mem oldset = c.proc.kernel.bits
  mem : Set.EqOn r.2.proc.mem c.proc.mem (frame.area ∪ if oldset = 0 then ∅ else block oldset 8)ᶜ

/-- A call that has been refused changes nothing but `errno`. -/
structure Unserved (frame : MaskFrame) (c : Library) (r : BitVec 32 × Library) : Prop where
  result : r.1 = -1
  errno : r.2.errno = 22
  mask : r.2.proc.kernel = c.proc.kernel
  mem : Set.EqOn r.2.proc.mem c.proc.mem frame.areaᶜ

/-- What the stub brings back of the kernel. -/
theorem sigprocmask_returns {e : Proc} (he : e = trap 14 ((prepared frame how set oldset c.proc).push frame.back))
    (hu : Undisturbed e (syscall K e) 16) :
    sigprocmask K frame how set oldset c =
        (int (wrapper ((syscall K e).regs .rax)).value,
          ⟨(wrapper ((syscall K e).regs .rax)).errno, (sigprocmask K frame how set oldset c).2.proc⟩) ∧
      (sigprocmask K frame how set oldset c).2.proc.mem = (syscall K e).mem ∧
      (sigprocmask K frame how set oldset c).2.proc.kernel = (syscall K e).kernel := by
  subst he
  have hstub := gensys_returns hu
  have hrax : (exec (syscall K) sysRtSigprocmask ((prepared frame how set oldset c.proc).push frame.back)).regs .rax =
      (syscall K (trap 14 ((prepared frame how set oldset c.proc).push frame.back))).regs .rax := by
    rw [sysRtSigprocmask, hstub]
    simp [Function.update]
  refine ⟨?_, ?_, ?_⟩
  · unfold sigprocmask
    simp only [hrax]
  · show (exec (syscall K) sysRtSigprocmask _).mem = _
    rw [sysRtSigprocmask, hstub]
  · show (exec (syscall K) sysRtSigprocmask _).kernel = _
    rw [sysRtSigprocmask, hstub]

/-- **A served call.** -/
theorem sigprocmask_served (h : frame.Placed set oldset) {B : Set (Fin 64)}
    (hB : (asked how set c.proc.mem).change c.blocked = some B) :
    Served frame oldset B c (sigprocmask K frame how set oldset c) := by
  have ha := @arrives frame how set oldset h c.proc
  obtain ⟨e, he⟩ : ∃ e, e = trap 14 ((prepared frame how set oldset c.proc).push frame.back) := ⟨_, rfl⟩
  rw [← he] at ha
  have hchange := newMask_change e
  rw [ha.asks_eq h.tmpset, ha.kernel] at hchange
  obtain ⟨m, hm, hbits⟩ := Option.map_eq_some_iff.mp (hchange.trans hB)
  -- what the kernel does, and then what the stub brings back of it
  have hsys : syscall K e =
      (({ e.set .rax 0 with
          kernel := m
          mem := if oldset = 0 then e.mem else store e.mem oldset c.proc.kernel.bits }).set .rcx
        (K.rcx e)).set .r11 (K.r11 e) := by
    unfold syscall rtSigprocmask
    rw [if_pos ha.rax, if_neg (not_not.mpr ha.r10), hm, ha.rdx, ha.kernel]
  have hrax : (syscall K e).regs .rax = 0 := by
    rw [hsys]
    simp [State.set, Function.update]
  have hmem : (syscall K e).mem = if oldset = 0 then e.mem else store e.mem oldset c.proc.kernel.bits := by
    rw [hsys]
    rfl
  have hu : Undisturbed e (syscall K e) 16 := by
    refine undisturbed_call h ha ?_ hmem
    rw [hsys]
    simp [State.set, Function.update]
  obtain ⟨hret, hmem', hkernel⟩ := @sigprocmask_returns K frame how set oldset c e he hu
  rw [hrax] at hret
  rw [hmem] at hmem'
  constructor
  case result => rw [hret]; rfl
  case errno => rw [hret]; rfl
  case blocked =>
    unfold Library.blocked
    rw [hkernel, hsys]
    exact hbits
  case reported =>
    intro hold
    rw [hmem', if_neg hold, load_store]
  case mem =>
    rw [hmem']
    by_cases hold : oldset = 0
    · rw [if_pos hold, if_pos hold, Set.union_empty]
      exact ha.mem
    · rw [if_neg hold, if_neg hold]
      intro x hx
      rw [Set.mem_compl_iff, Set.mem_union, not_or] at hx
      exact (store_eqOn _ _ _ hx.2).trans (ha.mem hx.1)

/-- **A refused call.** -/
theorem sigprocmask_refused (h : frame.Placed set oldset) (hB : (asked how set c.proc.mem).change c.blocked = none) :
    Unserved frame c (sigprocmask K frame how set oldset c) := by
  have ha := @arrives frame how set oldset h c.proc
  obtain ⟨e, he⟩ : ∃ e, e = trap 14 ((prepared frame how set oldset c.proc).push frame.back) := ⟨_, rfl⟩
  rw [← he] at ha
  have hchange := newMask_change e
  rw [ha.asks_eq h.tmpset, ha.kernel] at hchange
  have hm : newMask e = none := Option.map_eq_none_iff.mp (hchange.trans hB)
  have hsys : syscall K e = ((e.set .rax einval).set .rcx (K.rcx e)).set .r11 (K.r11 e) := by
    unfold syscall rtSigprocmask
    rw [if_pos ha.rax, if_neg (not_not.mpr ha.r10), hm]
  have hrax : (syscall K e).regs .rax = einval := by
    rw [hsys]
    simp [State.set, Function.update]
  have hu : Undisturbed e (syscall K e) 16 := by
    rw [hsys]
    refine ⟨?_, fun _ _ => rfl⟩
    simp [State.set, Function.update]
  obtain ⟨hret, hmem, hkernel⟩ := @sigprocmask_returns K frame how set oldset c e he hu
  rw [hrax] at hret
  constructor
  case result => rw [hret]; rfl
  case errno => rw [hret]; rfl
  case mask =>
    rw [hkernel, hsys]
    exact ha.kernel
  case mem =>
    rw [hmem, hsys]
    exact ha.mem

/-! ## Runs -/

/-- A run of a program, with the operations that its calls have asked for. Between the calls it may do anything that
    leaves the mask alone. -/
inductive MaskRun (K : Sys) (c : Library) : List MaskOp → Library → Prop
  | start : MaskRun K c [] c
  | program {ops : List MaskOp} {d d' : Library} (h : MaskRun K c ops d) (hmask : d'.proc.kernel = d.proc.kernel) :
      MaskRun K c ops d'
  | call {ops : List MaskOp} {d : Library} (h : MaskRun K c ops d) (frame : MaskFrame) (how set oldset : Word)
      (hplaced : frame.Placed set oldset) :
      MaskRun K c (ops ++ [asked how set d.proc.mem]) (sigprocmask K frame how set oldset d).2

/-- **One call** does the operation that it asks for, or none. -/
theorem sigprocmask_apply (h : frame.Placed set oldset) :
    (sigprocmask K frame how set oldset c).2.blocked = (asked how set c.proc.mem).apply c.blocked := by
  unfold MaskOp.apply
  cases hB : (asked how set c.proc.mem).change c.blocked with
  | some B => exact (sigprocmask_served h hB).blocked
  | none =>
      unfold Library.blocked
      rw [(sigprocmask_refused h hB).mask]
      rfl

/-- **A run** of calls. -/
theorem MaskRun.blocked {ops : List MaskOp} {d : Library} (h : MaskRun K c ops d) :
    d.blocked = ops.foldl MaskOp.apply c.blocked := by
  induction h with
  | start => rfl
  | program _ hmask ih =>
      rw [← ih]
      unfold Library.blocked
      rw [hmask]
  | call _ frame how set oldset hplaced ih => rw [sigprocmask_apply hplaced, ih, List.foldl_append]; rfl

/-- **The calls of `sigprocmask` refine operations on sets.** After any run the blocked signals are what the same
    operations make of those blocked at its start, `SIGKILL` and `SIGSTOP` never among them; the next call reports
    them and does its own operation, or, when there is no such operation, fails with `EINVAL`; and it writes nothing
    but what `oldset` points to and its own part of the stack. -/
theorem mask_refines (K : Sys) (c d : Library) (ops : List MaskOp) (h : MaskRun K c ops d) :
    d.blocked = ops.foldl MaskOp.apply c.blocked ∧ Disjoint d.blocked never ∧
      ∀ (frame : MaskFrame) (how set oldset : Word), frame.Placed set oldset →
        (∀ B, (asked how set d.proc.mem).change (ops.foldl MaskOp.apply c.blocked) = some B →
          Served frame oldset B d (sigprocmask K frame how set oldset d)) ∧
        ((asked how set d.proc.mem).change (ops.foldl MaskOp.apply c.blocked) = none →
          Unserved frame d (sigprocmask K frame how set oldset d)) := by
  refine ⟨h.blocked, d.proc.kernel.disjoint_never, ?_⟩
  intro frame how set oldset hplaced
  rw [← h.blocked]
  exact ⟨fun B hB => sigprocmask_served hplaced hB, fun hB => sigprocmask_refused hplaced hB⟩

/-- A kernel that does nothing else. -/
def maskKernel : Sys := ⟨fun _ => 0, fun _ => 0, id⟩

/-- A process with nothing blocked, and the set of `SIGKILL` and `SIGUSR1` at 0x4000. -/
def unmasked : Library where
  errno := 0
  proc := ⟨fun _ => 0, 0, store (fun _ => 0) 0x4000 0x300, SigMask.of 0⟩

def maskFrame : MaskFrame := ⟨0x8010, 0x401000, 0x8010⟩

theorem maskFrame_placed {set oldset : Word} (hset : Apart set 0x8010) (hold : Apart oldset 0x8000)
    (hold' : Apart oldset 0x8008) : maskFrame.Placed set oldset := by
  have hsplit : block (0x8000 : Word) 16 ⊆ block 0x8000 8 ∪ block 0x8008 8 := by
    intro x hx
    rw [Set.mem_union, mem_block, mem_block]
    rw [mem_block] at hx
    bv_omega
  have hframe : block (maskFrame.rsp - 8 - 8) 16 ⊆ block 0x8000 8 ∪ block 0x8008 8 := hsplit
  refine ⟨by decide, ?_, fun _ => hset.disjoint, fun _ => ?_⟩
  · exact (Set.disjoint_union_right.mpr ⟨Apart.disjoint (by decide), Apart.disjoint (by decide)⟩).mono_right hframe
  · exact (Set.disjoint_union_right.mpr ⟨hold.disjoint, hold'.disjoint⟩).mono_right hframe

/-- `sigprocmask(SIG_BLOCK, 0x4000, 0x5000)`. -/
theorem mask_refines_sample :
    Served maskFrame 0x5000 (unmasked.blocked ∪ (ones (load unmasked.proc.mem 0x4000) \ never)) unmasked
      (sigprocmask maskKernel maskFrame 0 0x4000 0x5000 unmasked) :=
  ((mask_refines maskKernel unmasked unmasked [] .start).2.2 maskFrame 0 0x4000 0x5000
    (maskFrame_placed (by decide) (by decide) (by decide))).1 _ rfl

/-- **A mask is put back**: what a call has reported, given to a later call as the whole mask, blocks again what was
    blocked before, whatever the program and its other calls have done in between. -/
theorem mask_restored (K : Sys) (c d : Library) (frame frame' : MaskFrame) (how how' set oldset oldset' : Word)
    (hplaced : frame.Placed set oldset) (hold : oldset ≠ 0)
    (hresult : (sigprocmask K frame how set oldset c).1 = 0)
    (hkept : load d.proc.mem oldset = load (sigprocmask K frame how set oldset c).2.proc.mem oldset)
    (hplaced' : frame'.Placed oldset oldset') (hsetmask : int how' = 2) :
    (sigprocmask K frame' how' oldset oldset' d).1 = 0 ∧
      (sigprocmask K frame' how' oldset oldset' d).2.blocked = c.blocked := by
  cases hB : (asked how set c.proc.mem).change c.blocked with
  | none =>
      -- a call that has failed would not have returned zero
      have hfailed := (@sigprocmask_refused K frame how set oldset c hplaced hB).result
      rw [hresult] at hfailed
      exact absurd hfailed (by decide)
  | some B =>
      have hreported := (@sigprocmask_served K frame how set oldset c hplaced B hB).reported hold
      have hasked : asked how' oldset d.proc.mem = ⟨2, some c.proc.kernel.bits⟩ := by
        unfold asked
        rw [hsetmask, if_neg hold, hkept, hreported]
      have hchange : (asked how' oldset d.proc.mem).change d.blocked = some c.blocked := by
        rw [hasked]
        show some (ones c.proc.kernel.bits \ never) = some c.blocked
        rw [sdiff_eq_left.mpr c.proc.kernel.disjoint_never]
        rfl
      have hserved := @sigprocmask_served K frame' how' oldset oldset' d hplaced' c.blocked hchange
      exact ⟨hserved.result, hserved.blocked⟩

/-- The mask of before, put back at once. -/
theorem mask_restored_sample :
    (sigprocmask maskKernel maskFrame 2 0x5000 0
      (sigprocmask maskKernel maskFrame 0 0x4000 0x5000 unmasked).2).2.blocked = unmasked.blocked := by
  have hplaced : maskFrame.Placed 0x4000 0x5000 := maskFrame_placed (by decide) (by decide) (by decide)
  have hserved : Served maskFrame 0x5000 (unmasked.blocked ∪ (ones (load unmasked.proc.mem 0x4000) \ never)) unmasked
      (sigprocmask maskKernel maskFrame 0 0x4000 0x5000 unmasked) := sigprocmask_served hplaced rfl
  exact (mask_restored maskKernel unmasked _ maskFrame maskFrame 0 2 0x4000 0x5000 0 hplaced (by decide)
    hserved.result rfl (maskFrame_placed (by decide) (by decide) (by decide)) (by decide)).2

end AdvUnix.Libmini
