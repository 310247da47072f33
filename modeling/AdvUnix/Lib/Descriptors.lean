import Mathlib.Data.List.Basic

/-!
# `Lib.Descriptors` — tables of descriptors

A descriptor is a number that stands for an open description. A table gives out the lowest number that is
free, has no last number, and takes numbers back.
-/

namespace Descriptors

variable {δ : Type} {d : δ} {t : List (Option δ)} {fd : Int}

/-- A table: the description behind each number. -/
abbrev Table (δ : Type) := List (Option δ)

/-- The description behind a number, if it has one. -/
def get (t : Table δ) (fd : Int) : Option δ := if fd < 0 then none else (t[fd.toNat]?).join

/-- The lowest free number, and the table with a description behind it. -/
def alloc (d : δ) : Table δ → Nat × Table δ
  | [] => (0, [some d])
  | none :: t => (0, some d :: t)
  | some e :: t =>
      let (n, t') := alloc d t
      (n + 1, some e :: t')

/-- A number is given back; one that is not in use does not matter. -/
def free (fd : Int) (t : Table δ) : Table δ := if fd < 0 then t else t.set fd.toNat none

theorem get_natCast (t : Table δ) (n : Nat) : get t n = (t[n]?).join := by
  rw [get, if_neg (by omega), Int.toNat_natCast]

/-- **The number is a free one.** -/
theorem get_alloc_before (d : δ) (t : Table δ) : get t (alloc d t).1 = none := by
  rw [get_natCast]
  induction t with
  | nil => rfl
  | cons slot t ih =>
      cases slot with
      | none => rfl
      | some e =>
          rw [alloc, List.getElem?_cons_succ]
          exact ih

theorem get_alloc (d : δ) (t : Table δ) : get (alloc d t).2 (alloc d t).1 = some d := by
  rw [get_natCast]
  induction t with
  | nil => rfl
  | cons slot t ih =>
      cases slot with
      | none => rfl
      | some e =>
          rw [alloc, List.getElem?_cons_succ]
          exact ih

theorem getElem_alloc {n : Nat} (h : n ≠ (alloc d t).1) : ((alloc d t).2[n]?).join = (t[n]?).join := by
  induction t generalizing n with
  | nil =>
      cases n with
      | zero => exact absurd rfl h
      | succ n => rfl
  | cons slot t ih =>
      cases slot with
      | none =>
          cases n with
          | zero => exact absurd rfl h
          | succ n => rfl
      | some e =>
          cases n with
          | zero => rfl
          | succ n =>
              rw [alloc, List.getElem?_cons_succ, List.getElem?_cons_succ]
              refine ih ?_
              rintro rfl
              exact h rfl

/-- **A number in use keeps its description** when another is given out. -/
theorem get_alloc_of_some {e : δ} (h : get t fd = some e) (d : δ) : get (alloc d t).2 fd = some e := by
  have hnew : fd ≠ (alloc d t).1 := by
    rintro rfl
    rw [get_alloc_before] at h
    cases h
  rw [get] at h ⊢
  split at h
  · cases h
  · rename_i hfd
    rw [if_neg hfd, getElem_alloc (by omega), h]

/-- **It keeps it** when another is given back. -/
theorem get_free {fd' : Int} (h : fd ≠ fd') : get (free fd' t) fd = get t fd := by
  unfold free get
  by_cases hfd' : fd' < 0
  · rw [if_pos hfd']
  · by_cases hfd : fd < 0
    · rw [if_pos hfd, if_pos hfd]
    · rw [if_neg hfd', if_neg hfd, if_neg hfd, List.getElem?_set_ne (by omega)]

end Descriptors
