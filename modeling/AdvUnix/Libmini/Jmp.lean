import AdvUnix.Lib.X86
import Mathlib.Logic.Relation

/-!
# `Libmini.Jmp` — `setjmp` and `longjmp`

The two assembly routines of `libmini64.asm` and the system call they make. `setjmp` leaves an image of its
entry state in the buffer (`setjmp_image`); `longjmp`, on any state with that image in the buffer, goes back
to it (`longjmp_of_image`). In between anything may run; `Run` keeps, for each buffer, the state at the entry
of the last `setjmp` on it.
-/

namespace AdvUnix.Libmini

open X86 ByteStore

/-! ## The signal mask -/

/-- `SIGKILL` and `SIGSTOP`. -/
def unblockable : Word := 1 <<< (9 - 1) ||| 1 <<< (19 - 1)

/-- **The set of blocked signals.** The kernel never blocks the two above. -/
structure SigMask where
  bits : Word
  blockable : bits &&& unblockable = 0

/-- The mask that the kernel makes of a `sigset_t`. -/
def SigMask.of (set : Word) : SigMask where
  bits := set &&& ~~~unblockable
  blockable := by rw [BitVec.and_assoc, BitVec.and_comm (~~~unblockable), BitVec.and_not_self]; simp

theorem SigMask.of_bits (m : SigMask) : SigMask.of m.bits = m := by
  have hbits : m.bits &&& ~~~unblockable = m.bits := by
    have h := m.blockable
    ext i hi
    have hi' := congrArg (fun w : Word => w[i]) h
    simp only [BitVec.getElem_and, BitVec.getElem_not] at hi' ⊢
    cases hb : m.bits[i] <;> simp_all
  cases m
  simp only [SigMask.of, SigMask.mk.injEq]
  exact hbits

/-! ## The system call -/

/-- A process as the two routines see it: the kernel keeps its signal mask. -/
abbrev Proc := State SigMask

/-- What is left open of a system call: the values of the registers it clobbers besides `rax`, and every
    call but `rt_sigprocmask`. -/
structure Sys where
  rcx : Proc → Word
  r11 : Proc → Word
  other : Proc → Proc

/-- `-EINVAL` -/
def einval : Word := -22

/-- The mask that `rt_sigprocmask` installs; a null `set` leaves it, and `how` is an `int`. -/
def newMask (s : Proc) : Option SigMask :=
  if s.regs .rsi = 0 then some s.kernel
  else
    let set := load s.mem (s.regs .rsi)
    match ((s.regs .rdi).setWidth 32).toNat with
    | 0 => some (.of (s.kernel.bits ||| set))
    | 1 => some (.of (s.kernel.bits &&& ~~~set))
    | 2 => some (.of set)
    | _ => none

/-- `rt_sigprocmask(how, set, oset, sigsetsize)` -/
def rtSigprocmask (s : Proc) : Proc :=
  if s.regs .r10 ≠ 8 then s.set .rax einval
  else
    match newMask s with
    | none => s.set .rax einval
    | some m =>
        { s.set .rax 0 with
          kernel := m
          mem := if s.regs .rdx = 0 then s.mem else store s.mem (s.regs .rdx) s.kernel.bits }

def syscall (K : Sys) (s : Proc) : Proc :=
  if s.regs .rax = 14 then ((rtSigprocmask s).set .rcx (K.rcx s)).set .r11 (K.r11 s) else K.other s

/-! ## The routines -/

def setjmp : List Instr := [
  .store .rdi 0 .rbx,
  .store .rdi 8 .rsp,
  .store .rdi 16 .rbp,
  .store .rdi 24 .r12,
  .store .rdi 32 .r13,
  .store .rdi 40 .r14,
  .store .rdi 48 .r15,
  .load .rax .rsp 0,
  .store .rdi 56 .rax,
  .push .rdi,
  .push .rsi,
  .push .rdx,
  .push .r10,
  .imm .rsi 0,
  .lea .rdx .rdi 64,
  .imm .r10 8,
  .imm .rax 14,
  .syscall,
  .pop .r10,
  .pop .rdx,
  .pop .rsi,
  .pop .rdi,
  .imm .rax 0,
  .ret]

def longjmp : List Instr := [
  .load .rbx .rdi 0,
  .load .rsp .rdi 8,
  .load .rbp .rdi 16,
  .load .r12 .rdi 24,
  .load .r13 .rdi 32,
  .load .r14 .rdi 40,
  .load .r15 .rdi 48,
  .load .rax .rdi 56,
  .store .rsp 0 .rax,
  .push .rdi,
  .push .rsi,
  .push .rdx,
  .push .r10,
  .lea .rsi .rdi 64,
  .imm .rdi 2,
  .imm .rdx 0,
  .imm .r10 8,
  .imm .rax 14,
  .syscall,
  .pop .r10,
  .pop .rdx,
  .pop .rsi,
  .pop .rdi,
  .mov .rax .rsi,
  .ret]

/-- A call of a routine, from its entry to its return. -/
def call (K : Sys) (routine : List Instr) (s : Proc) : Proc := exec (syscall K) routine s

/-! ## Their parts -/

def saveRegs : List Instr := setjmp.take 9
def queryMask : List Instr := [.imm .rsi 0, .lea .rdx .rdi 64, .imm .r10 8, .imm .rax 14, .syscall]
def loadRegs : List Instr := longjmp.take 9
def setMask : List Instr :=
  [.lea .rsi .rdi 64, .imm .rdi 2, .imm .rdx 0, .imm .r10 8, .imm .rax 14, .syscall]

/-- The registers that both routines save around the system call. -/
def around : List Reg := [.rdi, .rsi, .rdx, .r10]

theorem setjmp_parts : setjmp = saveRegs ++ (bracket around queryMask ++ [.imm .rax 0, .ret]) := rfl

theorem longjmp_parts : longjmp = loadRegs ++ (bracket around setMask ++ [.mov .rax .rsi, .ret]) := rfl

variable {K : Sys} {s : Proc}

/-- The registers that a routine must leave as they are. -/
def calleeSaved : List Reg := [.rbx, .rbp, .r12, .r13, .r14, .r15]

theorem exec_queryMask (henv : s.regs .rdi + 64 ≠ 0) :
    (exec (syscall K) queryMask s).mem = store s.mem (s.regs .rdi + 64) s.kernel.bits ∧
      (exec (syscall K) queryMask s).regs .rsp = s.regs .rsp := by
  have hrdx : ¬ s.regs .rdi + 64#64 = 0#64 := henv
  simp [queryMask, step, syscall, rtSigprocmask, newMask, State.set, Function.update, hrdx]

theorem exec_setMask (henv : s.regs .rdi + 64 ≠ 0) :
    (exec (syscall K) setMask s).mem = s.mem ∧
      (exec (syscall K) setMask s).kernel = .of (load s.mem (s.regs .rdi + 64)) ∧
      (exec (syscall K) setMask s).regs .rsp = s.regs .rsp ∧
      ∀ r ∈ calleeSaved, (exec (syscall K) setMask s).regs r = s.regs r := by
  have hrsi : ¬ s.regs .rdi + 64#64 = 0#64 := henv
  simp [setMask, step, syscall, rtSigprocmask, newMask, State.set, Function.update, hrsi, calleeSaved]

/-! ## `setjmp` -/

/-- The buffer that the argument points to, and the stack that the routines use at a stack pointer. -/
def buffer (env : Word) : Set Word := block env 72
def frame (sp : Word) : Set Word := block (sp - 32) 40

/-- The return address of a call, seen at its entry. -/
def returnAddress (s : Proc) : Word := load s.mem (s.regs .rsp)

/-- What `setjmp` writes into the buffer. -/
def image (s : Proc) : List Word :=
  [s.regs .rbx, s.regs .rsp, s.regs .rbp, s.regs .r12, s.regs .r13, s.regs .r14, s.regs .r15,
    returnAddress s, s.kernel.bits]

theorem slot_subset (sp : Word) : block sp 8 ⊆ frame sp := by
  have h := block_add_subset (sp - 32) 32 8
  rwa [show sp - 32 + BitVec.ofNat 64 32 = sp from BitVec.sub_add_cancel sp 32] at h

theorem saved_subset {s : Proc} : saved around s ⊆ frame (s.regs .rsp) := block_mono (by decide)

theorem slot_disjoint (s : Proc) : Disjoint (saved around s) (block (s.regs .rsp) 8) := by
  have h := block_disjoint_next (s.regs .rsp - 32) (show 32 + 8 ≤ 2 ^ 64 by decide)
  rwa [show s.regs .rsp - 32 + BitVec.ofNat 64 32 = s.regs .rsp from BitVec.sub_add_cancel _ 32] at h

/-- The registers go into the buffer one after the other; the return address is still on the stack. -/
theorem exec_saveRegs (hapart : Disjoint (buffer (s.regs .rdi)) (frame (s.regs .rsp))) :
    exec (syscall K) saveRegs s =
      { s.set .rax (returnAddress s) with
        mem := write s.mem (s.regs .rdi) (words ((image s).take 8)) } := by
  have hseven := storeAll_write s.mem (s.regs .rdi) ((image s).take 7) (by simp [image])
  have height := storeAll_write s.mem (s.regs .rdi) ((image s).take 8) (by simp [image])
  have hret : load (storeAll s.mem (s.regs .rdi) ((image s).take 7)) (s.regs .rsp) = returnAddress s := by
    rw [hseven]
    refine load_congr ((write_eqOn _ _ _).mono ?_)
    have hin : block (s.regs .rdi) (words ((image s).take 7)).length ⊆ buffer (s.regs .rdi) :=
      block_mono (by simp [words_length, image])
    exact (hapart.mono hin (slot_subset _)).symm.subset_compl_right
  rw [← height]
  simp only [image, List.take, storeAll, BitVec.add_assoc, BitVec.ofNat_eq_ofNat, BitVec.reduceAdd] at hret ⊢
  simp only [saveRegs, setjmp, List.take, exec_cons, exec_nil, step, State.set, BitVec.add_zero,
    BitVec.ofNat_eq_ofNat, Function.update_self, Function.update_of_ne (show Reg.rdi ≠ .rax by decide), hret]

theorem saveRegs_regs (hapart : Disjoint (buffer (s.regs .rdi)) (frame (s.regs .rsp))) {q : Reg}
    (hq : q ≠ .rax) : (exec (syscall K) saveRegs s).regs q = s.regs q := by
  rw [exec_saveRegs hapart]
  exact State.set_other hq

/-- The memory at the return of `setjmp`: the mask is stored last. -/
theorem setjmp_mem (henv : s.regs .rdi + 64 ≠ 0)
    (hapart : Disjoint (buffer (s.regs .rdi)) (frame (s.regs .rsp))) :
    (call K setjmp s).mem =
      store (entered around (exec (syscall K) saveRegs s)).mem (s.regs .rdi + 64) s.kernel.bits := by
  have hrdi : (entered around (exec (syscall K) saveRegs s)).regs .rdi = s.regs .rdi := by
    rw [entered_regs (by decide), saveRegs_regs hapart (by decide)]
  have hkernel : (entered around (exec (syscall K) saveRegs s)).kernel = s.kernel := by
    rw [entered_kernel, exec_saveRegs hapart]
    rfl
  obtain ⟨hmem, hsp⟩ := exec_queryMask (K := K) (s := entered around (exec (syscall K) saveRegs s))
    (by rw [hrdi]; exact henv)
  rw [hrdi, hkernel] at hmem
  have hbalanced : Balanced (syscall K) around queryMask (exec (syscall K) saveRegs s) := by
    refine ⟨hsp, ?_⟩
    have hsaved : saved around (exec (syscall K) saveRegs s) ⊆ frame (s.regs .rsp) := by
      rw [← saveRegs_regs (K := K) hapart (show Reg.rsp ≠ .rax by decide)]
      exact saved_subset
    rw [hmem]
    exact (store_eqOn _ _ _).mono
      (hapart.mono (block_add_subset (s.regs .rdi) 64 8) hsaved).symm.subset_compl_right
  rw [call, setjmp_parts, exec_append, exec_append, exec_bracket (by decide) (by decide) hbalanced]
  exact hmem

/-- **`setjmp`** leaves the image of its entry state in the buffer. -/
theorem setjmp_image (henv : s.regs .rdi + 64 ≠ 0)
    (hapart : Disjoint (buffer (s.regs .rdi)) (frame (s.regs .rsp))) :
    read (call K setjmp s).mem (s.regs .rdi) 72 = words (image s) := by
  have hsaved : saved around (exec (syscall K) saveRegs s) ⊆ frame (s.regs .rsp) := by
    rw [← saveRegs_regs (K := K) hapart (show Reg.rsp ≠ .rax by decide)]
    exact saved_subset
  -- the eight quadwords stay as they are written first, since the mask goes behind them
  have hregs : read (call K setjmp s).mem (s.regs .rdi) 64 = words ((image s).take 8) := by
    have hlen : (words ((image s).take 8)).length = 64 := by simp [words_length, image]
    calc read (call K setjmp s).mem (s.regs .rdi) 64
        = read (entered around (exec (syscall K) saveRegs s)).mem (s.regs .rdi) 64 := by
          rw [setjmp_mem henv hapart]
          refine read_congr (by decide) ((store_eqOn _ _ _).mono ?_)
          exact (block_disjoint_next (s.regs .rdi) (show 64 + 8 ≤ 2 ^ 64 by decide)).subset_compl_right
      _ = read (exec (syscall K) saveRegs s).mem (s.regs .rdi) 64 := by
          refine read_congr (by decide) ((entered_mem _ _).mono ?_)
          exact (hapart.mono (block_mono (by decide)) hsaved).subset_compl_right
      _ = words ((image s).take 8) := by
          have hwrite := read_write s.mem (s.regs .rdi)
            (show (words ((image s).take 8)).length ≤ 2 ^ 64 by rw [hlen]; decide)
          rw [hlen] at hwrite
          rw [exec_saveRegs hapart]
          exact hwrite
  have hmask : read (call K setjmp s).mem (s.regs .rdi + 64) 8 = wordBytes s.kernel.bits := by
    rw [setjmp_mem henv hapart, read_store]
  have hsplit : words (image s) = words ((image s).take 8) ++ wordBytes s.kernel.bits := by
    rw [← List.append_nil (wordBytes s.kernel.bits)]
    exact words_append ((image s).take 8) [s.kernel.bits]
  rw [read_append _ _ 64 8, hregs, hsplit]
  exact congrArg (fun bs => words ((image s).take 8) ++ bs) hmask

/-- `setjmp` writes the buffer and its stack, and nothing else. -/
theorem setjmp_eqOn (henv : s.regs .rdi + 64 ≠ 0)
    (hapart : Disjoint (buffer (s.regs .rdi)) (frame (s.regs .rsp))) :
    Set.EqOn (call K setjmp s).mem s.mem (buffer (s.regs .rdi) ∪ frame (s.regs .rsp))ᶜ := by
  intro x hx
  rw [Set.mem_compl_iff, Set.mem_union, not_or] at hx
  obtain ⟨hbuffer, hframe⟩ := hx
  have hsaved : saved around (exec (syscall K) saveRegs s) ⊆ frame (s.regs .rsp) := by
    rw [← saveRegs_regs (K := K) hapart (show Reg.rsp ≠ .rax by decide)]
    exact saved_subset
  have hlen : (words ((image s).take 8)).length = 64 := by simp [words_length, image]
  calc (call K setjmp s).mem x
      = (entered around (exec (syscall K) saveRegs s)).mem x := by
        rw [setjmp_mem henv hapart]
        exact store_eqOn _ _ _ (fun h => hbuffer (block_add_subset _ 64 8 h))
    _ = (exec (syscall K) saveRegs s).mem x := entered_mem _ _ (fun h => hframe (hsaved h))
    _ = s.mem x := by
        rw [exec_saveRegs hapart]
        refine write_eqOn _ _ _ (fun h => hbuffer (block_mono ?_ h))
        rw [hlen]
        decide

/-! ## `longjmp` -/

/-- The state at the return of `longjmp` goes back to the state at the entry of `setjmp`. -/
structure Restored (σ s t : Proc) : Prop where
  regs : ∀ r ∈ calleeSaved, t.regs r = σ.regs r
  rsp : t.regs .rsp = σ.regs .rsp + 8
  rip : t.rip = returnAddress σ
  rax : t.regs .rax = s.regs .rsi
  mask : t.kernel = σ.kernel
  mem : Set.EqOn t.mem s.mem (frame (σ.regs .rsp))ᶜ

variable {σ : Proc}

/-- The quadwords of the buffer. -/
theorem load_image (himage : read s.mem (s.regs .rdi) 72 = words (image σ)) {k : Nat}
    (hk : k < (image σ).length) :
    load s.mem (s.regs .rdi + BitVec.ofNat 64 (8 * k)) = (image σ)[k] :=
  @load_of_read s.mem (s.regs .rdi) (image σ) himage k hk

/-- The registers come out of the buffer, and the return address goes back to its slot. -/
theorem exec_loadRegs (himage : read s.mem (s.regs .rdi) 72 = words (image σ)) :
    (∀ r ∈ calleeSaved, (exec (syscall K) loadRegs s).regs r = σ.regs r) ∧
      (exec (syscall K) loadRegs s).regs .rsp = σ.regs .rsp ∧
      (exec (syscall K) loadRegs s).regs .rdi = s.regs .rdi ∧
      (exec (syscall K) loadRegs s).regs .rsi = s.regs .rsi ∧
      (exec (syscall K) loadRegs s).mem = store s.mem (σ.regs .rsp) (returnAddress σ) := by
  have h0 := load_image himage (show 0 < (image σ).length by simp [image])
  have h1 := load_image himage (show 1 < (image σ).length by simp [image])
  have h2 := load_image himage (show 2 < (image σ).length by simp [image])
  have h3 := load_image himage (show 3 < (image σ).length by simp [image])
  have h4 := load_image himage (show 4 < (image σ).length by simp [image])
  have h5 := load_image himage (show 5 < (image σ).length by simp [image])
  have h6 := load_image himage (show 6 < (image σ).length by simp [image])
  have h7 := load_image himage (show 7 < (image σ).length by simp [image])
  simp only [image, Nat.reduceMul, List.getElem_cons_zero, List.getElem_cons_succ] at h0 h1 h2 h3 h4 h5 h6 h7
  simp [loadRegs, longjmp, step, State.set, Function.update, calleeSaved] at h0 h1 h2 h3 h4 h5 h6 h7 ⊢
  simp [h0, h1, h2, h3, h4, h5, h6, h7]

/-- **`longjmp`** on a buffer with the image of a state. -/
theorem longjmp_of_image (henv : s.regs .rdi + 64 ≠ 0)
    (himage : read s.mem (s.regs .rdi) 72 = words (image σ))
    (hapart : Disjoint (buffer (s.regs .rdi)) (frame (σ.regs .rsp))) :
    Restored σ s (call K longjmp s) := by
  obtain ⟨hregs, hsp, hrdi, hrsi, hmem⟩ := exec_loadRegs (K := K) himage
  rw [call, longjmp_parts, exec_append, exec_append]
  generalize exec (syscall K) loadRegs s = s₁ at hregs hsp hrdi hrsi hmem
  have hsaved : saved around s₁ ⊆ frame (σ.regs .rsp) := by
    rw [← hsp]
    exact saved_subset
  obtain ⟨hmem₂, hmask, hsp₂, hregs₂⟩ := exec_setMask (K := K) (s := entered around s₁)
    (by rw [entered_regs (by decide), hrdi]; exact henv)
  have hbalanced : Balanced (syscall K) around setMask s₁ := ⟨hsp₂, by rw [hmem₂]; exact Set.eqOn_refl _ _⟩
  rw [exec_bracket (by decide) (by decide) hbalanced]
  have hframe : Set.EqOn (entered around s₁).mem s.mem (frame (σ.regs .rsp))ᶜ := by
    refine ((entered_mem around s₁).mono (Set.compl_subset_compl.mpr hsaved)).trans ?_
    rw [hmem]
    exact (store_eqOn _ _ _).mono (Set.compl_subset_compl.mpr (slot_subset _))
  -- the saves around the system call lie below the slot of the return address
  have hslot : load (entered around s₁).mem (σ.regs .rsp) = returnAddress σ := by
    rw [← hsp, load_congr ((entered_mem around s₁).mono (slot_disjoint s₁).symm.subset_compl_right), hmem,
      hsp, load_store]
  have hbits : load (entered around s₁).mem (s.regs .rdi + 64) = σ.kernel.bits := by
    have hword : load s.mem (s.regs .rdi + 64) = σ.kernel.bits :=
      load_image himage (show 8 < (image σ).length by simp [image])
    rw [← hword]
    exact load_congr (hframe.mono (hapart.mono_left (block_add_subset _ 64 8)).subset_compl_right)
  -- what is left is `mov rax, rsi` and `ret`
  simp only [exec_cons, exec_nil, step, State.set]
  constructor
  case regs =>
    intro r hr
    have hother : r ≠ .rsp ∧ r ≠ .rax ∧ r ∉ around := by
      revert r
      decide
    dsimp only
    rw [Function.update_of_ne hother.1, Function.update_of_ne hother.2.1, if_neg (by simp [hother]),
      hregs₂ r hr, entered_regs hother.1]
    exact hregs r hr
  case rsp =>
    dsimp only
    rw [Function.update_self, Function.update_of_ne (by decide), if_pos (Or.inl rfl), hsp]
  case rip =>
    dsimp only
    rw [Function.update_of_ne (by decide), if_pos (Or.inl rfl), hsp, hmem₂]
    exact hslot
  case rax =>
    dsimp only
    rw [Function.update_of_ne (by decide), Function.update_self, if_pos (by decide)]
    exact hrsi
  case mask =>
    dsimp only
    rw [hmask, entered_regs (by decide), hrdi, hbits]
    exact SigMask.of_bits _
  case mem =>
    dsimp only
    rw [hmem₂]
    exact hframe

/-! ## Programs that jump -/

/-- A program between its calls: its state, and for each buffer the state at the entry of the last
    `setjmp` on it. -/
structure History where
  proc : Proc
  last : Word → Option Proc

/-- A call of one of the routines, or anything else. -/
inductive Step (K : Sys) : History → History → Prop
  | work (h : History) (s : Proc) : Step K h { h with proc := s }
  | setjmp (h : History) : Step K h
      ⟨call K setjmp h.proc, Function.update h.last (h.proc.regs .rdi) (some h.proc)⟩
  | longjmp (h : History) : Step K h { h with proc := call K longjmp h.proc }

/-- The program before its first `setjmp`. -/
def History.start (s : Proc) : History := ⟨s, fun _ => none⟩

/-- What is recorded for a buffer was called with it. -/
theorem last_rdi {h : History} (hrun : Relation.ReflTransGen (Step K) (.start s) h) :
    ∀ env σ, h.last env = some σ → σ.regs .rdi = env := by
  induction hrun with
  | refl =>
      intro env σ hlast
      cases hlast
  | @tail h₁ h₂ _ hstep ih =>
      intro env σ hlast
      cases hstep with
      | work s => exact ih env σ hlast
      | longjmp => exact ih env σ hlast
      | setjmp =>
          by_cases henv : env = h₁.proc.regs .rdi
          · subst henv
            dsimp only at hlast
            rw [Function.update_self] at hlast
            cases hlast
            rfl
          · dsimp only at hlast
            rw [Function.update_of_ne henv] at hlast
            exact ih env σ hlast

/-- **`longjmp` restores.** Wherever a run of the program calls `longjmp`, on a buffer whose bytes are
    those that its last `setjmp` left and that lies apart from the stack of that call, the state goes
    back to the entry of that `setjmp`. A buffer is an object, so its mask is not at the null pointer. -/
theorem longjmp_restores {h : History} (hrun : Relation.ReflTransGen (Step K) (.start s) h)
    (hlast : h.last (h.proc.regs .rdi) = some σ) (hobject : h.proc.regs .rdi + 64 ≠ 0)
    (hsame : read h.proc.mem (h.proc.regs .rdi) 72 = read (call K setjmp σ).mem (h.proc.regs .rdi) 72)
    (hapart : Disjoint (buffer (h.proc.regs .rdi)) (frame (σ.regs .rsp))) :
    Restored σ h.proc (call K longjmp h.proc) := by
  have hrdi : σ.regs .rdi = h.proc.regs .rdi := last_rdi hrun _ _ hlast
  have himage := setjmp_image (K := K) (s := σ) (by rw [hrdi]; exact hobject) (by rw [hrdi]; exact hapart)
  rw [hrdi, ← hsame] at himage
  exact longjmp_of_image hobject himage hapart

/-! ## Programs that leave the buffers alone -/

/-- A buffer that is ready for a `longjmp` back to the state recorded for it. -/
structure Recorded (m : Memory) (env : Word) (σ : Proc) : Prop where
  object : env + 64 ≠ 0
  apart : Disjoint (buffer env) (frame (σ.regs .rsp))
  image : read m env 72 = words (image σ)

/-- A step of a program that keeps its buffers: its own code does not write the recorded ones, and the two
    routines are called with buffers and stacks that do not touch the others. -/
inductive CarefulStep (K : Sys) : History → History → Prop
  | work (h : History) (s : Proc)
      (hkeeps : ∀ env σ, h.last env = some σ → Set.EqOn s.mem h.proc.mem (buffer env)) :
      CarefulStep K h { h with proc := s }
  | setjmp (h : History) (hobject : h.proc.regs .rdi + 64 ≠ 0)
      (hapart : Disjoint (buffer (h.proc.regs .rdi)) (frame (h.proc.regs .rsp)))
      (hothers : ∀ env σ, env ≠ h.proc.regs .rdi → h.last env = some σ →
        Disjoint (buffer env) (buffer (h.proc.regs .rdi) ∪ frame (h.proc.regs .rsp))) :
      CarefulStep K h ⟨call K setjmp h.proc, Function.update h.last (h.proc.regs .rdi) (some h.proc)⟩
  | longjmp (h : History) (σ : Proc) (hlast : h.last (h.proc.regs .rdi) = some σ)
      (hothers : ∀ env σ', h.last env = some σ' → Disjoint (buffer env) (frame (σ.regs .rsp))) :
      CarefulStep K h { h with proc := call K longjmp h.proc }

theorem Recorded.congr {m m' : Memory} {env : Word} (h : Recorded m env σ)
    (hsame : Set.EqOn m' m (buffer env)) : Recorded m' env σ :=
  ⟨h.object, h.apart, (read_congr (by decide) hsame).trans h.image⟩

/-- One step keeps every recorded buffer. -/
theorem recorded_step {h h' : History} (hrec : ∀ env σ, h.last env = some σ → Recorded h.proc.mem env σ)
    (hstep : CarefulStep K h h') : ∀ env σ, h'.last env = some σ → Recorded h'.proc.mem env σ := by
  intro env σ hlast
  cases hstep with
  | work s hkeeps => exact (hrec env σ hlast).congr (hkeeps env σ hlast)
  | setjmp hobject hapart hothers =>
      dsimp only at hlast ⊢
      by_cases henv : env = h.proc.regs .rdi
      · subst henv
        rw [Function.update_self] at hlast
        cases hlast
        exact ⟨hobject, hapart, setjmp_image hobject hapart⟩
      · rw [Function.update_of_ne henv] at hlast
        exact (hrec env σ hlast).congr
          ((setjmp_eqOn hobject hapart).mono (hothers env σ henv hlast).subset_compl_right)
  | longjmp τ hτ hothers =>
      have hjump := hrec _ τ hτ
      exact (hrec env σ hlast).congr ((longjmp_of_image hjump.object hjump.image hjump.apart).mem.mono
        (hothers env σ hlast).subset_compl_right)

/-- A run keeps every recorded buffer. -/
theorem recorded_run {h : History} (hrun : Relation.ReflTransGen (CarefulStep K) (.start s) h) :
    ∀ env σ, h.last env = some σ → Recorded h.proc.mem env σ := by
  induction hrun with
  | refl =>
      intro env σ hnone
      cases hnone
  | tail _ hstep ih => exact recorded_step ih hstep

/-- **Nested jumps.** In a program that leaves its buffers alone, every `longjmp` on a buffer that was set
    goes back to the last `setjmp` on it, however the calls are nested and repeated. -/
theorem nested_longjmp {h : History} (hrun : Relation.ReflTransGen (CarefulStep K) (.start s) h)
    (hlast : h.last (h.proc.regs .rdi) = some σ) : Restored σ h.proc (call K longjmp h.proc) := by
  have hjump := recorded_run hrun _ σ hlast
  exact longjmp_of_image hjump.object hjump.image hjump.apart

/-! ## A run -/

/-- At the entry of `setjmp`: `SIGALRM` is blocked, the buffer is at `0x1000`, the stack at `0x8000`. -/
def sampleEntry : Proc where
  regs := fun r => if r = .rdi then 0x1000 else if r = .rsp then 0x8000 else 5
  rip := 0
  mem := fun _ => 0
  kernel := ⟨1 <<< 13, by decide⟩

def sampleSys : Sys := ⟨fun s => s.rip, fun _ => 0x246, id⟩

/-- Later: other registers, another stack, nothing blocked, and `longjmp(env, 7)` about to run. -/
def sampleLater : Proc where
  regs := fun r => if r = .rdi then 0x1000 else if r = .rsi then 7 else 0x9000
  rip := 0
  mem := (call sampleSys setjmp sampleEntry).mem
  kernel := ⟨0, by decide⟩

theorem longjmp_restores_sample : Restored sampleEntry sampleLater (call sampleSys longjmp sampleLater) := by
  have hsetjmp := Step.setjmp (K := sampleSys) (.start sampleEntry)
  have hwork := Step.work (K := sampleSys)
    ⟨call sampleSys setjmp sampleEntry, Function.update (fun _ => none) 0x1000 (some sampleEntry)⟩ sampleLater
  have hrun := (Relation.ReflTransGen.single hsetjmp).tail hwork
  have hapart : Disjoint (buffer 0x1000) (frame 0x8000) := by
    rw [Set.disjoint_left]
    intro x hbuffer hframe
    unfold buffer frame at *
    rw [mem_block] at hbuffer hframe
    bv_omega
  have hlast : Function.update (fun _ => none) 0x1000 (some sampleEntry) (0x1000 : Word) =
      some sampleEntry := Function.update_self _ _ _
  have hsame : read sampleLater.mem 0x1000 72 = read (call sampleSys setjmp sampleEntry).mem 0x1000 72 := by
    simp only [sampleLater]
  have hobject : (0x1000 : Word) + 64 ≠ 0 := by decide
  exact longjmp_restores hrun hlast hobject hsame hapart

end AdvUnix.Libmini
