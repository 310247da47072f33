import AdvUnix.Libmini.Jmp

/-!
# `Libmini.JmpResult` — what `setjmp` returns

A program tests `setjmp(env) != 0` to tell the direct return from a `longjmp`. Here every call of the two
routines leaves an entry in a log: why control is back behind `setjmp`, and the `int` found in `rax`. The
result is the right one exactly when no `longjmp` was given 0 (`returns_right_iff`): `longjmp` moves its
argument to `rax` and has no case for 0.
-/

namespace AdvUnix.Libmini

open X86

variable {K : Sys}

/-! ## The result register -/

/-- The `int` in a register: its low half. -/
def int (v : Word) : BitVec 32 := v.setWidth 32

theorem setjmp_rax (s : Proc) : (call K setjmp s).regs .rax = 0 := by
  rw [call, setjmp_parts, exec_append, exec_append]
  generalize exec (syscall K) (bracket around queryMask) (exec (syscall K) saveRegs s) = t
  simp only [exec_cons, exec_nil, step, State.set]
  rw [Function.update_of_ne (by decide), Function.update_self]

/-- `longjmp` sets the mask without writing memory, even from a null buffer. -/
theorem exec_setMask_frame (s : Proc) :
    (exec (syscall K) setMask s).mem = s.mem ∧
      (exec (syscall K) setMask s).regs .rsp = s.regs .rsp := by
  by_cases hnull : s.regs .rdi + 64 = 0
  · have hrsi : s.regs .rdi + 64#64 = 0#64 := hnull
    simp [setMask, step, syscall, rtSigprocmask, newMask, State.set, Function.update, hrsi]
  · obtain ⟨hmem, -, hrsp, -⟩ := exec_setMask (K := K) hnull
    exact ⟨hmem, hrsp⟩

theorem loadRegs_rsi (s : Proc) : (exec (syscall K) loadRegs s).regs .rsi = s.regs .rsi := by
  simp [loadRegs, longjmp, step, State.set]

/-- The second argument comes back in `rax`, through the pushes, the system call and the pops. -/
theorem longjmp_rax (s : Proc) : (call K longjmp s).regs .rax = s.regs .rsi := by
  rw [call, longjmp_parts, exec_append, exec_append]
  have hrsi := loadRegs_rsi (K := K) s
  generalize exec (syscall K) loadRegs s = s₁ at hrsi
  obtain ⟨hmem, hrsp⟩ := exec_setMask_frame (K := K) (entered around s₁)
  have hbalanced : Balanced (syscall K) around setMask s₁ :=
    ⟨hrsp, by rw [hmem]; exact Set.eqOn_refl _ _⟩
  rw [exec_bracket (by decide) (by decide) hbalanced]
  simp only [exec_cons, exec_nil, step, State.set]
  rw [Function.update_of_ne (by decide), Function.update_self, if_pos (by decide)]
  exact hrsi

/-! ## Programs that jump, with their returns -/

/-- Why control is behind a `setjmp`. -/
inductive Cause
  | direct
  | jump (val : BitVec 32)
  deriving DecidableEq, Repr

/-- A return of `setjmp`: its cause, and the `int` that the program sees. -/
structure Return where
  cause : Cause
  result : BitVec 32
  deriving DecidableEq, Repr

/-- A step of a program, and the return that it is. -/
inductive ReturnStep (K : Sys) : History → Option Return → History → Prop
  | work (h : History) (s : Proc) : ReturnStep K h none { h with proc := s }
  | setjmp (h : History) : ReturnStep K h
      (some ⟨.direct, int ((call K setjmp h.proc).regs .rax)⟩)
      ⟨call K setjmp h.proc, Function.update h.last (h.proc.regs .rdi) (some h.proc)⟩
  | longjmp (h : History) : ReturnStep K h
      (some ⟨.jump (int (h.proc.regs .rsi)), int ((call K longjmp h.proc).regs .rax)⟩)
      { h with proc := call K longjmp h.proc }

/-- A run of a program from its start, with its returns in order. -/
inductive ReturnRun (K : Sys) (s : Proc) : History → List Return → Prop
  | start : ReturnRun K s (.start s) []
  | step {h h' : History} {rs : List Return} {r : Option Return} (hrun : ReturnRun K s h rs)
      (hstep : ReturnStep K h r h') : ReturnRun K s h' (rs ++ r.toList)

/-- The steps are those of `Step`. -/
theorem ReturnStep.toStep {h h' : History} {r : Option Return} (hstep : ReturnStep K h r h') :
    Step K h h' := by
  cases hstep with
  | work s => exact .work h s
  | setjmp => exact .setjmp h
  | longjmp => exact .longjmp h

theorem ReturnRun.toRun {s : Proc} {h : History} {rs : List Return} (hrun : ReturnRun K s h rs) :
    Relation.ReflTransGen (Step K) (.start s) h := by
  induction hrun with
  | start => exact .refl
  | step _ hstep ih => exact ih.tail hstep.toStep

/-- A jump returns from `setjmp`: on a buffer left as it was, control is where that call of it returned. -/
theorem ReturnRun.lands {s σ : Proc} {h : History} {rs : List Return} (hrun : ReturnRun K s h rs)
    (hlast : h.last (h.proc.regs .rdi) = some σ) (hobject : h.proc.regs .rdi + 64 ≠ 0)
    (hsame : ByteStore.read h.proc.mem (h.proc.regs .rdi) 72 =
      ByteStore.read (call K Libmini.setjmp σ).mem (h.proc.regs .rdi) 72)
    (hapart : Disjoint (buffer (h.proc.regs .rdi)) (frame (σ.regs .rsp))) :
    (call K Libmini.longjmp h.proc).rip = returnAddress σ :=
  (longjmp_restores hrun.toRun hlast hobject hsame hapart).rip

/-! ## The results -/

/-- What `setjmp` is to return. -/
def Cause.expected : Cause → BitVec 32
  | .direct => 0
  | .jump val => if val = 0 then 1 else val

theorem Cause.expected_zero : (Cause.jump 0).expected = 1 := rfl

theorem Cause.expected_jump {val : BitVec 32} (h : val ≠ 0) : (Cause.jump val).expected = val := if_neg h

def Return.Right (r : Return) : Prop := r.result = r.cause.expected

/-- The recovery branch of `if (setjmp(env) != 0)`. -/
def Return.Recovers (r : Return) : Prop := r.result ≠ 0

/-- **A right result** is 0 exactly on the direct return: the recovery branch is that of the jumps. -/
theorem Return.Right.recovers_iff {r : Return} (h : r.Right) : r.Recovers ↔ r.cause ≠ .direct := by
  obtain ⟨cause, result⟩ := r
  unfold Return.Right at h
  unfold Return.Recovers
  dsimp only at h ⊢
  rw [h]
  cases cause with
  | direct => simp [Cause.expected]
  | jump val =>
      by_cases hval : val = 0
      · subst hval
        rw [Cause.expected_zero]
        simp
      · rw [Cause.expected_jump hval]
        exact ⟨fun _ => Cause.noConfusion, fun _ => hval⟩

/-- The value that the code returns, in place of the one expected. -/
def Cause.returned : Cause → BitVec 32
  | .direct => 0
  | .jump val => val

/-- One step: each return has the value the code gives it. -/
theorem returned_step {h h' : History} {r : Return} (hstep : ReturnStep K h (some r) h') :
    r.result = r.cause.returned := by
  cases hstep with
  | setjmp =>
      dsimp only [Cause.returned]
      rw [setjmp_rax]
      rfl
  | longjmp =>
      dsimp only [Cause.returned]
      rw [longjmp_rax]

/-- A run: so have all of its returns. -/
theorem returned_run {s : Proc} {h : History} {rs : List Return} (hrun : ReturnRun K s h rs) :
    ∀ r ∈ rs, r.result = r.cause.returned := by
  induction hrun with
  | start => simp
  | step _ hstep ih =>
      rename_i r
      intro q hq
      rw [List.mem_append, Option.mem_toList] at hq
      rcases hq with hold | hnew
      · exact ih q hold
      · subst hnew
        exact returned_step hstep

/-- The value returned is the one expected except after `longjmp(env, 0)`. -/
theorem returned_eq_expected (c : Cause) : c.returned = c.expected ↔ c ≠ .jump 0 := by
  cases c with
  | direct => simp [Cause.returned, Cause.expected]
  | jump val =>
      by_cases hval : val = 0
      · subst hval
        rw [Cause.expected_zero]
        simp [Cause.returned]
      · rw [Cause.expected_jump hval]
        exact ⟨fun _ h => hval (Cause.jump.inj h), fun _ => rfl⟩

/-- **What `setjmp` returns.** In every run of a program, the results of `setjmp` are the right ones, and the
    recovery branch is taken exactly on jumps, if and only if no `longjmp` was given 0. -/
theorem returns_right_iff (K : Sys) (s : Proc) (h : History) (rs : List Return)
    (hrun : ReturnRun K s h rs) :
    (∀ r ∈ rs, r.Right ∧ (r.Recovers ↔ r.cause ≠ .direct)) ↔ ∀ r ∈ rs, r.cause ≠ .jump 0 := by
  refine forall₂_congr fun r hr => ?_
  have hvalue : r.Right ↔ r.cause ≠ .jump 0 := by
    rw [Return.Right, returned_run hrun r hr]
    exact returned_eq_expected r.cause
  rw [← hvalue]
  exact ⟨And.left, fun hright => ⟨hright, hright.recovers_iff⟩⟩

/-- A jump back with 7. -/
def sevenBack : Return := ⟨.jump 7, 7⟩

theorem returns_right_sample : sevenBack.Right ∧ (sevenBack.Recovers ↔ sevenBack.cause ≠ .direct) := by
  have hsetjmp := ReturnRun.start.step (ReturnStep.setjmp (K := sampleSys) (.start sampleEntry))
  have hwork := hsetjmp.step (ReturnStep.work _ sampleLater)
  have hrun := hwork.step (ReturnStep.longjmp _)
  simp only [setjmp_rax, longjmp_rax] at hrun
  have hseven : int (sampleLater.regs .rsi) = 7 := by decide
  rw [hseven] at hrun
  have hlast : sevenBack ∈ [⟨.direct, 0⟩, sevenBack] := List.mem_cons_of_mem _ List.mem_cons_self
  exact (returns_right_iff sampleSys sampleEntry _ _ hrun).mpr (by decide) sevenBack hlast

/-- **`longjmp(env, 0)`** looks like the direct return. -/
theorem longjmp_zero_direct : ¬ ∀ (K : Sys) (s : Proc) (h : History) (rs : List Return),
    ReturnRun K s h rs → ∀ r ∈ rs, r.Right ∧ (r.Recovers ↔ r.cause ≠ .direct) := by
  intro hall
  have hsetjmp := ReturnRun.start.step (ReturnStep.setjmp (K := sampleSys) (.start sampleEntry))
  have hwork := hsetjmp.step (ReturnStep.work _ (sampleLater.set .rsi 0))
  have hrun := hwork.step (ReturnStep.longjmp _)
  simp only [setjmp_rax, longjmp_rax] at hrun
  have hzero := hall _ _ _ _ hrun ⟨.jump 0, 0⟩ (by decide)
  exact absurd hzero.1 (by unfold Return.Right; decide)

end AdvUnix.Libmini
