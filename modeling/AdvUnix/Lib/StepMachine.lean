import Mathlib.Data.Set.Basic
import Mathlib.Data.List.Basic
import Mathlib.Logic.Function.Basic

/-!
# `Lib.StepMachine` — instruction-step machines and software breakpoints

A deterministic machine executes one instruction of a store at a time; one cell value, the **trap**, is
the breakpoint instruction. *Patching* a store writes the trap at a list of addresses. This file relates
the run of the patched store, up to its first trap, to the **native** run of the original one:

* `patched_step` — where the program counter is not patched, one step of the patched machine is the
  patched image of one native step;
* `runTrap_patched` / `runTrap_of_first` — the patched machine, resumed, stops exactly at the first
  native state whose program counter is patched or that executes a trap of its own.

What the program must grant is `Undisturbed`: it neither writes the patched addresses nor reads them
otherwise than by executing the instruction that starts there.
-/

namespace StepMachine

variable {ρ α β ε : Type}

/-- Registers and store. -/
structure Cpu (ρ α β : Type) where
  regs : ρ
  mem : α → β

/-- **An instruction-step machine.** `insn` executes the instruction under the program counter, when it
    is not the trap, and either yields the next state or ends the program. -/
structure Machine (ρ α β ε : Type) where
  pc : ρ → α
  trap : β
  /-- The registers after the trap instruction has been executed. -/
  past : ρ → ρ
  insn : Cpu ρ α β → Except ε (Cpu ρ α β)

namespace Machine

variable (M : Machine ρ α β ε)

/-- The instruction under the program counter is the trap. -/
def AtTrap (c : Cpu ρ α β) : Prop := c.mem (M.pc c.regs) = M.trap

instance [DecidableEq β] (c : Cpu ρ α β) : Decidable (M.AtTrap c) :=
  inferInstanceAs (Decidable (c.mem (M.pc c.regs) = M.trap))

/-- The state after the trap instruction. -/
def pastTrap (c : Cpu ρ α β) : Cpu ρ α β := ⟨M.past c.regs, c.mem⟩

variable [DecidableEq β]

/-- One step; a trap of the program's own is stepped over. -/
def step (c : Cpu ρ α β) : Except ε (Cpu ρ α β) :=
  if M.AtTrap c then .ok (M.pastTrap c) else M.insn c

/-- The state after `n` steps. -/
def after : Nat → Cpu ρ α β → Except ε (Cpu ρ α β)
  | 0, c => .ok c
  | n + 1, c => (M.step c).bind (after n)

/-- Resume until a trap has been executed or the program ends; `none` when `fuel` steps are not
    enough. -/
def runTrap : Nat → Cpu ρ α β → Option (Except ε (Cpu ρ α β))
  | 0, _ => none
  | fuel + 1, c =>
      if M.AtTrap c then some (.ok (M.pastTrap c))
      else match M.insn c with
        | .error e => some (.error e)
        | .ok d => runTrap fuel d

theorem step_trap {c : Cpu ρ α β} (h : M.AtTrap c) : M.step c = .ok (M.pastTrap c) := if_pos h

theorem step_insn {c : Cpu ρ α β} (h : ¬ M.AtTrap c) : M.step c = M.insn c := if_neg h

theorem after_one (c : Cpu ρ α β) : M.after 1 c = M.step c := by
  simp only [after]
  cases M.step c <;> rfl

theorem after_succ_of_step {n : Nat} {c d : Cpu ρ α β} (h : M.step c = .ok d) :
    M.after (n + 1) c = M.after n d := by
  simp only [after, h]; rfl

/-- Running `m` steps and then `n` is running `m + n`. -/
theorem after_add {m n : Nat} {c d : Cpu ρ α β} (h : M.after m c = .ok d) :
    M.after (m + n) c = M.after n d := by
  induction m generalizing c with
  | zero =>
      cases h
      rw [Nat.zero_add]
  | succ m ih =>
      cases hs : M.step c with
      | error e => simp [after, hs, Except.bind] at h
      | ok c' =>
          rw [M.after_succ_of_step hs] at h
          rw [Nat.succ_add, M.after_succ_of_step hs, ih h]

theorem after_succ {n : Nat} {c d : Cpu ρ α β} (h : M.after n c = .ok d) :
    M.after (n + 1) c = M.step d := by
  rw [M.after_add h, after_one]

/-- Every prefix of a run exists. -/
theorem after_of_add {m n : Nat} {c d : Cpu ρ α β} (h : M.after (m + n) c = .ok d) :
    ∃ b, M.after m c = .ok b := by
  induction m generalizing c with
  | zero => exact ⟨c, rfl⟩
  | succ m ih =>
      cases hs : M.step c with
      | error e => simp [Nat.succ_add, after, hs, Except.bind] at h
      | ok c' =>
          rw [Nat.succ_add, M.after_succ_of_step hs] at h
          rw [M.after_succ_of_step hs]
          exact ih h

/-- **A resumed machine stops at its first trap**, in the state after it. -/
theorem runTrap_stops {fuel : Nat} {c d : Cpu ρ α β} (h : M.runTrap fuel c = some (.ok d)) :
    ∃ k e, M.after k c = .ok e ∧ (∀ j b, j < k → M.after j c = .ok b → ¬ M.AtTrap b) ∧ M.AtTrap e ∧
      d = M.pastTrap e := by
  induction fuel generalizing c with
  | zero => cases h
  | succ fuel ih =>
      simp only [runTrap] at h
      by_cases ht : M.AtTrap c
      · -- it stops where it is
        rw [if_pos ht] at h
        cases h
        exact ⟨0, c, rfl, fun j b hj => absurd hj (Nat.not_lt_zero j), ht, rfl⟩
      · rw [if_neg ht] at h
        cases hi : M.insn c with
        | error e =>
            rw [hi] at h
            cases h
        | ok c' =>
            rw [hi] at h
            have hs : M.step c = .ok c' := by rw [M.step_insn ht, hi]
            obtain ⟨k, e, hk, hfirst, hat, hd⟩ := ih h
            refine ⟨k + 1, e, by rw [M.after_succ_of_step hs, hk], ?_, hat, hd⟩
            intro j b hj hb
            cases j with
            | zero =>
                cases hb
                exact ht
            | succ j =>
                rw [M.after_succ_of_step hs] at hb
                exact hfirst j b (by omega) hb

/-! ## Read-only cells -/

omit [DecidableEq β] in
/-- **No instruction writes a cell of `A`**, whatever state it is executed in. -/
def ReadOnly (A : Set α) : Prop := ∀ c d, M.insn c = .ok d → ∀ a ∈ A, d.mem a = c.mem a

variable {M}

theorem ReadOnly.step {A : Set α} (h : M.ReadOnly A) {c d : Cpu ρ α β} (hs : M.step c = .ok d) :
    ∀ a ∈ A, d.mem a = c.mem a := by
  intro a ha
  by_cases ht : M.AtTrap c
  · rw [M.step_trap ht] at hs
    cases hs
    rfl
  · rw [M.step_insn ht] at hs
    exact h c d hs a ha

theorem ReadOnly.runTrap {A : Set α} (h : M.ReadOnly A) {fuel : Nat} {c d : Cpu ρ α β}
    (hr : M.runTrap fuel c = some (.ok d)) : ∀ a ∈ A, d.mem a = c.mem a := by
  intro a ha
  induction fuel generalizing c with
  | zero => cases hr
  | succ fuel ih =>
      simp only [Machine.runTrap] at hr
      by_cases ht : M.AtTrap c
      · rw [if_pos ht] at hr
        cases hr
        rfl
      · rw [if_neg ht] at hr
        cases hi : M.insn c with
        | error e =>
            rw [hi] at hr
            cases hr
        | ok c' =>
            rw [hi] at hr
            rw [ih hr, h c c' hi a ha]

end Machine

/-! ## Patching -/

variable [DecidableEq α]

/-- The store with the trap written at every address of `P`. -/
def patch (t : β) (P : List α) (m : α → β) : α → β := fun a => if a ∈ P then t else m a

theorem patch_mem {t : β} {P : List α} {m : α → β} {a : α} (h : a ∈ P) : patch t P m a = t :=
  if_pos h

theorem patch_not_mem {t : β} {P : List α} {m : α → β} {a : α} (h : a ∉ P) :
    patch t P m a = m a := if_neg h

@[simp] theorem patch_nil {t : β} {m : α → β} : patch t [] m = m := by
  funext a
  exact patch_not_mem (List.not_mem_nil)

/-- Patching depends on the addresses only as a set. -/
theorem patch_congr {t : β} {P Q : List α} {m : α → β} (h : ∀ a, a ∈ P ↔ a ∈ Q) :
    patch t P m = patch t Q m := by
  funext a
  simp only [patch, h a]

/-- Writing the trap at one more address. -/
theorem update_patch_trap (t : β) (P : List α) (m : α → β) (a : α) :
    Function.update (patch t P m) a t = patch t (a :: P) m := by
  funext x
  by_cases hx : x = a
  · subst hx
    rw [Function.update_self, patch_mem List.mem_cons_self]
  · rw [Function.update_of_ne hx]
    simp [patch, hx]

/-- Writing the original cell back takes one address out. -/
theorem update_patch_orig (t : β) {P Q : List α} (m : α → β) {a : α}
    (h : ∀ x, x ∈ Q ↔ x ∈ P ∧ x ≠ a) :
    Function.update (patch t P m) a (m a) = patch t Q m := by
  funext x
  by_cases hx : x = a
  · subst hx
    rw [Function.update_self, patch_not_mem (fun hQ => ((h x).mp hQ).2 rfl)]
  · rw [Function.update_of_ne hx]
    simp [patch, h, hx]

namespace Machine

variable (M : Machine ρ α β ε)

/-- The state with its store patched at `P`. -/
def patched (P : List α) (c : Cpu ρ α β) : Cpu ρ α β := ⟨c.regs, patch M.trap P c.mem⟩

/-- **Blindness to `A`.** The instruction at `c` reads and writes no cell of `A`: on any store that
    agrees outside `A` it does the same, and leaves the cells of `A` as they are. -/
def Blind (A : Set α) (c : Cpu ρ α β) : Prop :=
  ∀ m, (∀ a, a ∉ A → m a = c.mem a) →
    match M.insn c with
    | .error e => M.insn ⟨c.regs, m⟩ = .error e
    | .ok d => ∃ m', M.insn ⟨c.regs, m⟩ = .ok ⟨d.regs, m'⟩ ∧
        (∀ a, a ∈ A → m' a = m a) ∧ ∀ a, a ∉ A → m' a = d.mem a

variable [DecidableEq β]

/-- **A program that leaves `A` alone.** No instruction of the native run from `c₀` writes a cell of
    `A`, and none reads one except the cell it is itself fetched from. -/
structure Undisturbed (c₀ : Cpu ρ α β) (A : Set α) : Prop where
  blind : ∀ n c, M.after n c₀ = .ok c → ¬ M.AtTrap c →
    M.Blind {a | a ∈ A ∧ a ≠ M.pc c.regs} c
  kept : ∀ n c d, M.after n c₀ = .ok c → ¬ M.AtTrap c → M.insn c = .ok d →
    ∀ a, a ∈ A → d.mem a = c.mem a

variable {M}
variable {c₀ c d : Cpu ρ α β} {A : Set α} {P : List α} {n k : Nat}

omit [DecidableEq β] in
theorem atTrap_patched : M.AtTrap (M.patched P c) ↔ M.pc c.regs ∈ P ∨ M.AtTrap c := by
  unfold AtTrap patched
  by_cases h : M.pc c.regs ∈ P
  · simp [patch_mem h, h]
  · simp [patch_not_mem h, h]

omit [DecidableEq α] in
/-- An undisturbed program keeps its store on `A`. -/
theorem Undisturbed.step_kept (hU : M.Undisturbed c₀ A) (hc : M.after n c₀ = .ok c)
    (hs : M.step c = .ok d) {a : α} (ha : a ∈ A) : d.mem a = c.mem a := by
  by_cases ht : M.AtTrap c
  · rw [M.step_trap ht] at hs
    cases hs
    rfl
  · rw [M.step_insn ht] at hs
    exact hU.kept n c d hc ht hs a ha

omit [DecidableEq α] in
theorem Undisturbed.after_kept (hU : M.Undisturbed c₀ A) (hc : M.after n c₀ = .ok c) {a : α}
    (ha : a ∈ A) : c.mem a = c₀.mem a := by
  induction n generalizing c with
  | zero =>
      cases hc
      rfl
  | succ n ih =>
      obtain ⟨b, hb⟩ := M.after_of_add (m := n) (n := 1) hc
      rw [M.after_succ hb] at hc
      rw [hU.step_kept hb hc ha, ih hb]

/-- **One step of the patched machine.** Off the patched addresses it is the patched image of the
    native step. -/
theorem patched_step (hU : M.Undisturbed c₀ A) (hc : M.after n c₀ = .ok c)
    (hP : ∀ a ∈ P, a ∈ A) (hpc : M.pc c.regs ∉ P) :
    M.step (M.patched P c) = (M.step c).map (M.patched P) := by
  have hat : M.AtTrap (M.patched P c) ↔ M.AtTrap c := by
    rw [atTrap_patched]
    exact ⟨fun h => h.resolve_left hpc, Or.inr⟩
  by_cases ht : M.AtTrap c
  · rw [M.step_trap ht, M.step_trap (hat.mpr ht)]
    rfl
  · rw [M.step_insn ht, M.step_insn (fun h => ht (hat.mp h))]
    -- the patches are cells of `A` that the instruction is not fetched from, so it is blind to them
    have hoff : ∀ a, a ∉ {a | a ∈ A ∧ a ≠ M.pc c.regs} → patch M.trap P c.mem a = c.mem a := by
      intro a ha
      refine patch_not_mem fun haP => ha ⟨hP a haP, fun he => hpc (he ▸ haP)⟩
    have hblind := hU.blind n c hc ht (patch M.trap P c.mem) hoff
    cases hi : M.insn c with
    | error e =>
        rw [hi] at hblind
        exact hblind
    | ok d =>
        rw [hi] at hblind
        obtain ⟨m', hm', hin, hout⟩ := hblind
        have hmem : m' = patch M.trap P d.mem := by
          funext a
          by_cases haA : a ∈ {a | a ∈ A ∧ a ≠ M.pc c.regs}
          · rw [hin a haA]
            by_cases haP : a ∈ P
            · rw [patch_mem haP, patch_mem haP]
            · rw [patch_not_mem haP, patch_not_mem haP, hU.kept n c d hc ht hi a haA.1]
          · have haP : a ∉ P := fun haP => haA ⟨hP a haP, fun he => hpc (he ▸ haP)⟩
            rw [hout a haA, patch_not_mem haP]
        rw [show M.insn (M.patched P c) = .ok ⟨d.regs, m'⟩ from hm', hmem]
        rfl

variable (M) in
/-- **No stop in the first `k` steps**: each of these native states is off `P` and executes an
    instruction other than the trap. -/
def Quiet (P : List α) (k : Nat) (c : Cpu ρ α β) : Prop :=
  ∀ j, j < k → ∃ d, M.after j c = .ok d ∧ M.pc d.regs ∉ P ∧ ¬ M.AtTrap d

omit [DecidableEq α] in
theorem Quiet.mono {k' : Nat} (h : M.Quiet P k c) (hle : k' ≤ k) : M.Quiet P k' c :=
  fun j hj => h j (Nat.lt_of_lt_of_le hj hle)

omit [DecidableEq α] in
theorem quiet_zero : M.Quiet P 0 c := fun _ hj => absurd hj (Nat.not_lt_zero _)

omit [DecidableEq α] in
/-- A quiet run extended in front by one quiet step. -/
theorem quiet_succ (hpc : M.pc c.regs ∉ P) (ht : ¬ M.AtTrap c) (hs : M.step c = .ok d)
    (h : M.Quiet P k d) : M.Quiet P (k + 1) c := by
  intro j hj
  cases j with
  | zero => exact ⟨c, rfl, hpc, ht⟩
  | succ j =>
      obtain ⟨e, he, hpe, hte⟩ := h j (by omega)
      exact ⟨e, by rw [M.after_succ_of_step hs, he], hpe, hte⟩

/-- **Where the patched machine stops.** A resumed patched machine that stops does so at the first
    native state that is patched or at a trap, or where the program ends. -/
theorem runTrap_patched (hU : M.Undisturbed c₀ A) (hc : M.after n c₀ = .ok c)
    (hP : ∀ a ∈ P, a ∈ A) {fuel : Nat} {r : Except ε (Cpu ρ α β)}
    (hr : M.runTrap fuel (M.patched P c) = some r) :
    ∃ k d, M.after k c = .ok d ∧ M.Quiet P k c ∧
      ((M.pc d.regs ∈ P ∨ M.AtTrap d) ∧ r = .ok (M.pastTrap (M.patched P d)) ∨
       ∃ e, M.pc d.regs ∉ P ∧ ¬ M.AtTrap d ∧ M.insn d = .error e ∧ r = .error e) := by
  induction fuel generalizing n c with
  | zero => simp [runTrap] at hr
  | succ fuel ih =>
      simp only [runTrap] at hr
      by_cases hstop : M.AtTrap (M.patched P c)
      · rw [if_pos hstop] at hr
        cases hr
        exact ⟨0, c, rfl, quiet_zero, Or.inl ⟨atTrap_patched.mp hstop, rfl⟩⟩
      · rw [if_neg hstop] at hr
        have hpc : M.pc c.regs ∉ P := fun h => hstop (atTrap_patched.mpr (Or.inl h))
        have ht : ¬ M.AtTrap c := fun h => hstop (atTrap_patched.mpr (Or.inr h))
        have hstep := patched_step hU hc hP hpc
        rw [M.step_insn hstop, M.step_insn ht] at hstep
        cases hi : M.insn c with
        | error e =>
            rw [hstep, hi] at hr
            cases hr
            exact ⟨0, c, rfl, quiet_zero, Or.inr ⟨e, hpc, ht, hi, rfl⟩⟩
        | ok d =>
            rw [hstep, hi] at hr
            have hs : M.step c = .ok d := by rw [M.step_insn ht, hi]
            have hd : M.after (n + 1) c₀ = .ok d := by rw [M.after_succ hc, hs]
            obtain ⟨k, b, hk, hq, hend⟩ := ih hd hr
            exact ⟨k + 1, b, by rw [M.after_succ_of_step hs, hk], quiet_succ hpc ht hs hq, hend⟩

/-- **A quiet stretch** takes the patched machine from image to image, at one unit of fuel a step. -/
theorem runTrap_quiet (hU : M.Undisturbed c₀ A) (hc : M.after n c₀ = .ok c)
    (hP : ∀ a ∈ P, a ∈ A) (hk : M.after k c = .ok d) (hq : M.Quiet P k c) (fuel : Nat) :
    M.runTrap (fuel + k) (M.patched P c) = M.runTrap fuel (M.patched P d) := by
  induction k generalizing n c with
  | zero =>
      cases hk
      rfl
  | succ k ih =>
      obtain ⟨b, hb, hpc, ht⟩ := hq 0 (by omega)
      cases hb
      have hstop : ¬ M.AtTrap (M.patched P c) := fun h => (atTrap_patched.mp h).elim hpc ht
      cases hs : M.step c with
      | error e => simp [after, hs, Except.bind] at hk
      | ok c' =>
          rw [M.after_succ_of_step hs] at hk
          have hstep := patched_step hU hc hP hpc
          rw [hs, M.step_insn hstop] at hstep
          simp only [runTrap, if_neg hstop, hstep, Except.map]
          refine ih (by rw [M.after_succ hc, hs]) hk (fun j hj => ?_)
          obtain ⟨e, he, hrest⟩ := hq (j + 1) (by omega)
          rw [M.after_succ_of_step hs] at he
          exact ⟨e, he, hrest⟩

/-- **The patched machine does stop** at the first native state that is patched or at a trap, given
    fuel for the steps before it. -/
theorem runTrap_of_first (hU : M.Undisturbed c₀ A) (hc : M.after n c₀ = .ok c)
    (hP : ∀ a ∈ P, a ∈ A) (hk : M.after k c = .ok d) (hq : M.Quiet P k c)
    (hd : M.pc d.regs ∈ P ∨ M.AtTrap d) {fuel : Nat} (hf : k < fuel) :
    M.runTrap fuel (M.patched P c) = some (.ok (M.pastTrap (M.patched P d))) := by
  -- `k` units of fuel for the quiet stretch, one for the stop
  obtain ⟨f, rfl⟩ : ∃ f, fuel = f + 1 + k := ⟨fuel - 1 - k, by omega⟩
  rw [runTrap_quiet hU hc hP hk hq]
  exact if_pos (atTrap_patched.mpr hd)

/-- **The patched machine ends** where the native one does, when nothing stops it before. -/
theorem runTrap_of_end (hU : M.Undisturbed c₀ A) (hc : M.after n c₀ = .ok c)
    (hP : ∀ a ∈ P, a ∈ A) (hk : M.after k c = .ok d) (hq : M.Quiet P (k + 1) c) {e : ε}
    (hd : M.insn d = .error e) {fuel : Nat} (hf : k < fuel) :
    M.runTrap fuel (M.patched P c) = some (.error e) := by
  obtain ⟨f, rfl⟩ : ∃ f, fuel = f + 1 + k := ⟨fuel - 1 - k, by omega⟩
  rw [runTrap_quiet hU hc hP hk (hq.mono (Nat.le_succ k))]
  obtain ⟨b, hb, hpc, ht⟩ := hq k (Nat.lt_succ_self k)
  rw [hk] at hb
  cases hb
  have hstop : ¬ M.AtTrap (M.patched P d) := fun h => (atTrap_patched.mp h).elim hpc ht
  have hstep := patched_step hU (by rw [M.after_add hc, hk]) hP hpc
  rw [M.step_insn hstop, M.step_insn ht, hd] at hstep
  simp only [runTrap, if_neg hstop, hstep, Except.map]

end Machine

end StepMachine
