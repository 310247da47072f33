import Mathlib.Data.BitVec
import Mathlib.Data.Set.Basic

/-!
# `Lib.WordSet` — a machine word as a set of bit positions

A word stands for the set of positions of its one bits (`ones`). The masks of a position, joined with
`|||` or cut out with `&&& ~~~`, are insertion and removal, and a test with `&&&` is membership; two words
with the same positions are equal.
-/

namespace WordSet

variable {w : Nat}

/-- The positions of the one bits. -/
def ones (x : BitVec w) : Set (Fin w) := {i | x.getLsbD i = true}

/-- The word with a single one bit. -/
def single (i : Fin w) : BitVec w := 1#w <<< i.val

variable {x y : BitVec w} {i j : Fin w}

@[simp] theorem mem_ones : i ∈ ones x ↔ x.getLsbD i = true := Iff.rfl

theorem getLsbD_single : (single i).getLsbD j = decide (j = i) := by
  unfold single
  rw [← BitVec.twoPow_eq, BitVec.getLsbD_twoPow]
  simp only [i.isLt, decide_true, Bool.true_and, Fin.ext_iff]
  exact decide_eq_decide.mpr eq_comm

@[simp] theorem ones_zero : ones (0#w) = ∅ := by
  ext i
  simp

@[simp] theorem ones_allOnes : ones (BitVec.allOnes w) = Set.univ := by
  ext i
  simp

@[simp] theorem ones_single : ones (single i) = {i} := by
  ext j
  rw [mem_ones, getLsbD_single]
  simp

theorem ones_or : ones (x ||| y) = ones x ∪ ones y := by
  ext j
  simp

theorem ones_diff : ones (x &&& ~~~y) = ones x \ ones y := by
  ext j
  simp

/-- Setting one bit. -/
theorem ones_insert : ones (x ||| single i) = insert i (ones x) := by
  rw [ones_or, ones_single, Set.union_singleton]

/-- Clearing one bit. -/
theorem ones_remove : ones (x &&& ~~~(single i)) = ones x \ {i} := by
  rw [ones_diff, ones_single]

/-- Testing one bit. -/
theorem and_single : x &&& single i ≠ 0 ↔ i ∈ ones x := by
  unfold single
  rw [← BitVec.twoPow_eq, BitVec.and_twoPow, mem_ones]
  by_cases h : x.getLsbD i = true
  · rw [if_pos h]
    refine iff_of_true ?_ h
    intro hzero
    have hbit : (BitVec.twoPow w i).getLsbD i = true := by
      rw [BitVec.getLsbD_twoPow]
      simp
    rw [hzero] at hbit
    simp at hbit
  · rw [if_neg h]
    exact iff_of_false (fun hne => hne rfl) h

end WordSet
