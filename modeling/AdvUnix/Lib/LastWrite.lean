import Mathlib.Data.List.Induction
import Mathlib.Logic.Function.Basic

/-!
# `Lib.LastWrite` — stores whose cells hold what was written last

A store of cells by key, changed by single writes, is determined by its initial contents and the list of
writes: a cell holds the last value written to its key, or its initial one (`applyAll_eq`). Writes to other
keys do not count (`lastWrite_snoc_other`).
-/

namespace LastWrite

variable {κ ν : Type} [DecidableEq κ]

/-- The last value written under `k`, or the initial one if there is none; the log is oldest first. -/
def lastWrite (init : κ → ν) (log : List (κ × ν)) (k : κ) : ν :=
  ((log.reverse.find? fun e => e.1 = k).map (·.2)).getD (init k)

/-- The store after the writes of a log. -/
def applyAll (init : κ → ν) (log : List (κ × ν)) : κ → ν :=
  log.foldl (fun f e => Function.update f e.1 e.2) init

variable {init : κ → ν} {log : List (κ × ν)} {k : κ} {v : ν}

@[simp] theorem lastWrite_nil : lastWrite init [] k = init k := rfl

theorem lastWrite_snoc_self : lastWrite init (log ++ [(k, v)]) k = v := by
  unfold lastWrite
  rw [List.reverse_append, List.reverse_singleton, List.singleton_append,
    List.find?_cons_of_pos (by simp)]
  rfl

theorem lastWrite_snoc_other {k' : κ} (h : k' ≠ k) :
    lastWrite init (log ++ [(k', v)]) k = lastWrite init log k := by
  unfold lastWrite
  rw [List.reverse_append, List.reverse_singleton, List.singleton_append,
    List.find?_cons_of_neg (by simpa using h)]

/-- One more write, on the whole store. -/
theorem lastWrite_snoc {k' : κ} :
    lastWrite init (log ++ [(k', v)]) = Function.update (lastWrite init log) k' v := by
  funext k
  by_cases h : k = k'
  · rw [h, lastWrite_snoc_self, Function.update_self]
  · rw [lastWrite_snoc_other (Ne.symm h), Function.update_of_ne h]

/-- **Last write wins.** -/
theorem applyAll_eq : applyAll init log = lastWrite init log := by
  induction log using List.reverseRecOn with
  | nil => rfl
  | append_singleton log e ih =>
      have hstep : applyAll init (log ++ [e]) = Function.update (applyAll init log) e.1 e.2 :=
        List.foldl_append
      rw [hstep, ih]
      exact lastWrite_snoc.symm

end LastWrite
