import AdvUnix.Lib.X86

/-!
# `Lib.X86Routine` — x86-64 routines with branches and calls

The lines of an assembly routine, labels and all, over the straight-line instructions of `Lib.X86`. A routine
runs from its first line to its `ret`; a jump goes on at the label it names (`target`). A call of another
routine pushes the address to come back to, and control is back only when that routine returns there.
-/

namespace X86

open ByteStore

/-- What the conditional jumps look at: the last result was zero (`ZF`), or below zero (`SF ≠ OF`). -/
structure Flags where
  zero : Bool
  below : Bool
  deriving DecidableEq, Repr

def Flags.ofSub (a b : Word) : Flags := ⟨a == b, a.slt b⟩

def Flags.ofAdd (a b : Word) : Flags := ⟨a + b == 0, decide (a.toInt + b.toInt < 0)⟩

/-- A line of a routine with labels `ℓ`. -/
inductive Line (ℓ : Type)
  | op (i : Instr)
  /-- `mov qword [base + disp], imm` -/
  | storeImm (base : Reg) (disp v : Word)
  /-- `add dst, imm` -/
  | add (dst : Reg) (v : Word)
  /-- `sub dst, imm` -/
  | sub (dst : Reg) (v : Word)
  | neg (r : Reg)
  /-- `cmp r, imm` -/
  | cmp (r : Reg) (v : Word)
  /-- `call routine`, where the next line is at the address `back` -/
  | call (routine : List Instr) (back : Word)
  | label (l : ℓ)
  | jge (l : ℓ)
  | jne (l : ℓ)
  | jmp (l : ℓ)
  deriving DecidableEq, Repr

variable {κ ℓ : Type} [DecidableEq ℓ]

/-- The lines from a label on. -/
def target (code : List (Line ℓ)) (l : ℓ) : List (Line ℓ) := code.dropWhile (· ≠ .label l)

/-- A routine from the lines `rest` on, for at most so many lines. It ends at `ret`. -/
def runFrom (sys : State κ → State κ) (code : List (Line ℓ)) :
    Nat → List (Line ℓ) → State κ → Flags → Option (State κ)
  | 0, _, _, _ => none
  | _ + 1, [], _, _ => none
  | n + 1, line :: rest, s, f =>
    match line with
    | .op .ret => some (step sys s .ret)
    | .op i => runFrom sys code n rest (step sys s i) f
    | .storeImm base disp v =>
        runFrom sys code n rest { s with mem := store s.mem (s.regs base + disp) v } f
    | .add dst v => runFrom sys code n rest (s.set dst (s.regs dst + v)) (.ofAdd (s.regs dst) v)
    | .sub dst v => runFrom sys code n rest (s.set dst (s.regs dst - v)) (.ofSub (s.regs dst) v)
    | .neg r => runFrom sys code n rest (s.set r (-s.regs r)) (.ofSub 0 (s.regs r))
    | .cmp r v => runFrom sys code n rest s (.ofSub (s.regs r) v)
    | .call routine back =>
        let t := exec sys routine (s.push back)
        if t.rip = back then runFrom sys code n rest t f else none
    | .label _ => runFrom sys code n rest s f
    | .jge l => runFrom sys code n (if f.below then rest else target code l) s f
    | .jne l => runFrom sys code n (if f.zero then rest else target code l) s f
    | .jmp l => runFrom sys code n (target code l) s f

/-- **A routine**, whose jumps go forward: each line runs at most once. -/
def runRoutine (sys : State κ → State κ) (code : List (Line ℓ)) (s : State κ) (f : Flags) :
    Option (State κ) := runFrom sys code code.length code s f

/-! ## Quadwords apart -/

/-- Two quadwords that do not overlap. -/
def Apart (a b : Word) : Prop := 8 ≤ (a - b).toNat ∧ 8 ≤ (b - a).toNat

theorem Apart.disjoint {a b : Word} (h : Apart a b) : Disjoint (block a 8) (block b 8) := by
  rw [Set.disjoint_left]
  intro x ha hb
  rw [mem_block] at ha hb
  obtain ⟨hab, hba⟩ := h
  bv_omega

/-- A store leaves the quadwords apart from it. -/
theorem load_store_apart (m : Memory) {a b : Word} (v : Word) (h : Apart a b) :
    load (store m a v) b = load m b :=
  load_congr ((store_eqOn m a v).mono h.disjoint.symm.subset_compl_right)

/-- Two offsets from one base. -/
theorem apart_offsets (a : Word) {c d : Word} (h : Apart c d) : Apart (a + c) (a + d) := by
  unfold Apart at h ⊢
  have hcd : a + c - (a + d) = c - d := by bv_omega
  have hdc : a + d - (a + c) = d - c := by bv_omega
  rw [hcd, hdc]
  exact h

instance (a b : Word) : Decidable (Apart a b) := inferInstanceAs (Decidable (_ ∧ _))

end X86
