import AdvUnix.Libmini.Sleep

/-!
# `Libmini.Wrappers` — from a function to the kernel and back

What stands between a function of the library and the kernel: the stub that the macro `gensys` makes of a system
call (`gensys_returns`), and the convention of `WRAPPER_RETval` for its result. `open`, which is written in
assembly because of its variable arguments, keeps to the same convention (`open_wraps`).
-/

namespace AdvUnix.Libmini

open X86 ByteStore

variable {κ : Type} {sys : State κ → State κ}

/-! ## A stub -/

/-- The state in which a stub, entered in `u`, calls the kernel: the fourth argument is in `r10` now. -/
def trap (number : Word) (u : State κ) : State κ :=
  ((u.push (u.regs .r10)).set .r10 (u.regs .rcx)).set .rax number

/-- What the kernel leaves alone of its caller: the stack pointer, and so many bytes of the stack. -/
structure Undisturbed (e t : State κ) (n : Nat) : Prop where
  rsp : t.regs .rsp = e.regs .rsp
  stack : Set.EqOn t.mem e.mem (block (e.regs .rsp) n)

theorem Undisturbed.mono {e t : State κ} {n k : Nat} (h : Undisturbed e t n) (hk : k ≤ n) : Undisturbed e t k :=
  ⟨h.rsp, h.stack.mono (block_mono hk)⟩

variable {number : Word} {u : State κ}

theorem trap_rsp : (trap number u).regs .rsp = u.regs .rsp - 8 := by
  simp [trap, State.set, State.push, Function.update]

theorem trap_mem : (trap number u).mem = store u.mem (u.regs .rsp - 8) (u.regs .r10) := rfl

/-- The bytes from the stack pointer up stay when a quadword is pushed. -/
theorem push_eqOn (s : State κ) (v : Word) {n : Nat} (hn : 8 + n ≤ 2 ^ 64) :
    Set.EqOn (s.push v).mem s.mem (block (s.regs .rsp) n) := by
  have hdis := block_disjoint_next (s.regs .rsp - 8) hn
  rw [show s.regs .rsp - 8 + BitVec.ofNat 64 8 = s.regs .rsp from BitVec.sub_add_cancel _ _] at hdis
  exact (store_eqOn _ _ _).mono hdis.symm.subset_compl_right

/-- They are part of those from the new stack pointer up. -/
theorem block_above (a : Word) {n k : Nat} (h : 8 + n ≤ k) : block a n ⊆ block (a - 8) k := by
  have hin := block_add_subset (a - 8) 8 n
  rw [show a - 8 + BitVec.ofNat 64 8 = a from BitVec.sub_add_cancel _ _] at hin
  exact hin.trans (block_mono h)

/-- **A stub** returns what the kernel has made of the arguments, with the stack pointer and `r10` as they were. -/
theorem gensys_returns (h : Undisturbed (trap number u) (sys (trap number u)) 16) :
    exec sys (gensys number) u =
      { sys (trap number u) with
        regs := Function.update (Function.update (sys (trap number u)).regs .r10 (u.regs .r10)) .rsp (u.regs .rsp + 8)
        rip := load u.mem (u.regs .rsp) } := by
  have hsplit : exec sys (gensys number) u = exec sys [.pop .r10, .ret] (sys (trap number u)) := rfl
  have hback : u.regs .rsp - 8 + 8 = u.regs .rsp := BitVec.sub_add_cancel _ _
  have hslot : load (sys (trap number u)).mem (u.regs .rsp - 8) = u.regs .r10 := by
    have hkept := h.stack.mono (block_mono (show 8 ≤ 16 by decide))
    rw [trap_rsp] at hkept
    rw [load_congr hkept, trap_mem, load_store]
  have hret : load (sys (trap number u)).mem (u.regs .rsp) = load u.mem (u.regs .rsp) := by
    have hkept := h.stack
    rw [trap_rsp] at hkept
    rw [load_congr (hkept.mono (block_above _ (Nat.le_refl 16))), trap_mem]
    exact load_congr (push_eqOn u _ (by decide))
  have hrsp : (sys (trap number u)).regs .rsp = u.regs .rsp - 8 := h.rsp.trans trap_rsp
  rw [hsplit]
  generalize sys (trap number u) = t at hslot hret hrsp
  have hr10 : Reg.rsp ≠ .r10 := by decide
  simp only [exec_cons, exec_nil, step, State.set, Function.update_of_ne hr10, Function.update_self, hrsp, hback, hslot,
    hret, State.mk.injEq, and_true]
  funext q
  by_cases hq : q = .rsp
  · subst hq
    rw [Function.update_self, Function.update_self]
  · rw [Function.update_of_ne hq, Function.update_of_ne hq]
    by_cases hq10 : q = .r10
    · subst hq10
      rw [Function.update_self, Function.update_self]
    · rw [Function.update_of_ne hq10, Function.update_of_ne hq10, Function.update_of_ne hq]

/-! ## `errno` -/

/-- What is left in `errno`, and what is returned. -/
structure Returned where
  errno : Word
  value : Word
  deriving DecidableEq, Repr

/-- `WRAPPER_RETval` of an answer of the kernel, before the value is cut to the type of the function. -/
def wrapper (ret : Word) : Returned := if ret.slt 0 then ⟨-ret, -1⟩ else ⟨0, ret⟩

/-! ## `open` -/

def sysOpen : List Instr := gensys 2

inductive OpenLabel
  | openError | openSuccess | openQuit
  deriving DecidableEq, Repr

/-- `open`. The global offset table gives the address `errno`; `back` is the address of the line after the call. -/
def openRoutine (errno back : Word) : List (Line OpenLabel) := [
  .call sysOpen back,
  .cmp .rax 0,
  .jge .openSuccess,
  .label .openError,
  .neg .rax,
  .op (.imm .rdi errno),
  .op (.store .rdi 0 .rax),
  .op (.imm .rax (-1)),
  .jmp .openQuit,
  .label .openSuccess,
  .op (.imm .rdi errno),
  .storeImm .rdi 0 0,
  .label .openQuit,
  .op .ret]

variable {errno back : Word} {s t : State κ} {f : Flags}

/-- The lines behind the call. -/
theorem open_behind (errno back : Word) (t : State κ) (f : Flags) :
    ∃ w, runFrom sys (openRoutine errno back) 13 ((openRoutine errno back).drop 1) t f = some w ∧
      w.regs .rax = (wrapper (t.regs .rax)).value ∧
      w.mem = store t.mem errno (wrapper (t.regs .rax)).errno ∧
      w.rip = load w.mem (t.regs .rsp) ∧ w.regs .rsp = t.regs .rsp + 8 ∧ w.kernel = t.kernel ∧
      ∀ r ∈ calleeSaved, w.regs r = t.regs r := by
  have hcmp : runFrom sys (openRoutine errno back) 13 ((openRoutine errno back).drop 1) t f =
      runFrom sys (openRoutine errno back) 11
        (if (t.regs .rax).slt 0 then (openRoutine errno back).drop 3 else target (openRoutine errno back) .openSuccess)
        t (.ofSub (t.regs .rax) 0) := rfl
  have hzero : errno + 0 = errno := BitVec.add_zero errno
  have hother : ∀ r ∈ calleeSaved, r ≠ .rax ∧ r ≠ .rdi ∧ r ≠ .rsp := by decide
  rw [hcmp]
  unfold wrapper
  by_cases hneg : (t.regs .rax).slt 0 = true
  · rw [if_pos hneg, if_pos hneg]
    refine ⟨_, rfl, ?_, ?_, ?_, ?_, rfl, ?_⟩
    · simp [step, State.set]
    · simp [step, State.set, Function.update]
    · simp [step, State.set, Function.update]
    · simp [step, State.set, Function.update]
    · intro r hr
      obtain ⟨hrax, hrdi, hrsp⟩ := hother r hr
      simp [step, State.set, Function.update, hrax, hrdi, hrsp]
  · rw [if_neg hneg, if_neg hneg]
    refine ⟨_, rfl, ?_, ?_, ?_, ?_, rfl, ?_⟩
    · simp [step, State.set, Function.update]
    · simp [step, State.set]
    · simp [step, State.set, Function.update]
    · simp [step, State.set]
    · intro r hr
      obtain ⟨-, hrdi, hrsp⟩ := hother r hr
      simp [step, State.set, Function.update, hrdi, hrsp]

/-- **`open`** does what a wrapper in C does around `sys_open`, for every answer of a kernel that leaves its caller's
    stack alone: the answer or -1 comes back, `errno` is zero or the error, and of memory nothing else changes after
    the call of the kernel; the routine returns to its caller, with the registers that it must keep. -/
theorem open_wraps (sys : State κ → State κ) (errno back : Word) (s : State κ) (f : Flags)
    (hkernel : Undisturbed (trap 2 (s.push back)) (sys (trap 2 (s.push back))) 24)
    (herrno : Disjoint (block errno 8) (block (s.regs .rsp) 8)) :
    ∃ w, runRoutine sys (openRoutine errno back) s f = some w ∧
      w.regs .rax = (wrapper ((sys (trap 2 (s.push back))).regs .rax)).value ∧
      w.mem = store (sys (trap 2 (s.push back))).mem errno
        (wrapper ((sys (trap 2 (s.push back))).regs .rax)).errno ∧
      w.kernel = (sys (trap 2 (s.push back))).kernel ∧
      w.rip = load s.mem (s.regs .rsp) ∧ w.regs .rsp = s.regs .rsp + 8 ∧
      ∀ r ∈ calleeSaved, w.regs r = (sys (trap 2 (s.push back))).regs r := by
  have hstub := gensys_returns (hkernel.mono (show 16 ≤ 24 by decide))
  have hpushed : (s.push back).regs .rsp = s.regs .rsp - 8 := State.push_rsp s back
  have hpop : s.regs .rsp - 8 + 8 = s.regs .rsp := BitVec.sub_add_cancel _ _
  have hback : load (s.push back).mem ((s.push back).regs .rsp) = back := by
    rw [hpushed]
    exact load_store _ _ _
  rw [hpushed, hpop] at hstub
  -- the return address of `open` itself is above what the stub pushes
  have hslot : load (sys (trap 2 (s.push back))).mem (s.regs .rsp) = load s.mem (s.regs .rsp) := by
    have hkept := hkernel.stack
    rw [trap_rsp, hpushed] at hkept
    have hin : block (s.regs .rsp) 8 ⊆ block (s.regs .rsp - 8) 16 := block_above _ (Nat.le_refl 16)
    have htrap := @push_eqOn κ (s.push back) ((s.push back).regs .r10) 16 (by decide)
    rw [hpushed] at htrap
    calc load (sys (trap 2 (s.push back))).mem (s.regs .rsp)
        = load (trap 2 (s.push back)).mem (s.regs .rsp) :=
          load_congr (hkept.mono (hin.trans (block_above _ (Nat.le_refl 24))))
      _ = load (s.push back).mem (s.regs .rsp) := load_congr (htrap.mono hin)
      _ = load s.mem (s.regs .rsp) := load_congr (push_eqOn s back (by decide))
  obtain ⟨t, ht⟩ : ∃ t, t = exec sys sysOpen (s.push back) := ⟨_, rfl⟩
  have hrip : t.rip = back := by
    rw [ht, sysOpen, hstub]
    exact hback
  have hroutine : runRoutine sys (openRoutine errno back) s f =
      if t.rip = back then runFrom sys (openRoutine errno back) 13 ((openRoutine errno back).drop 1) t f
      else none := by
    rw [ht]
    rfl
  obtain ⟨w, hrun, hrax, hmem, hret, hrsp, hker, hregs⟩ := @open_behind κ sys errno back t f
  rw [ht, sysOpen, hstub] at hrax hmem hret hrsp hker hregs
  refine ⟨w, ?_, ?_, ?_, hker, ?_, ?_, ?_⟩
  · rw [hroutine, if_pos hrip]
    exact hrun
  · rw [hrax]
    simp [Function.update]
  · rw [hmem]
    simp [Function.update]
  · rw [hret, hmem]
    simp only [Function.update_self]
    rw [load_congr ((store_eqOn _ _ _).mono herrno.symm.subset_compl_right)]
    exact hslot
  · rw [hrsp]
    simp
  · intro r hr
    have hne : r ≠ .r10 ∧ r ≠ .rsp := by
      revert r
      decide
    rw [hregs r hr]
    simp [Function.update, hne]

end AdvUnix.Libmini
