import Mathlib.Algebra.BigOperators.Group.Finset.Basic
import Mathlib.Data.Fintype.Basic

/-!
# `Lib.Interleaving` — sequences that run at once

The sequences of a family, one step of any of them at a time. An interleaving of sequences of groups is one of the
groups' elements (`Interleaving.flatMap`), the sequences can be run one after the other
(`Interleaving.sequential`), and all interleavings are equally long (`Interleaving.length_eq`).
-/

variable {ι α β : Type} [DecidableEq ι]

/-- `ws` is what the sequences `ls` come to in some order that keeps the order of each. -/
inductive Interleaving : (ι → List α) → List α → Prop
  | nil {ls : ι → List α} (hnone : ∀ i, ls i = []) : Interleaving ls []
  | next {ls : ι → List α} {i : ι} {x : α} {rest ws : List α} (hhead : ls i = x :: rest) :
      Interleaving (Function.update ls i rest) ws → Interleaving ls (x :: ws)

namespace Interleaving

variable {ls : ι → List α} {ws xs rest : List α} {i : ι}

/-- Some steps of one sequence, and then the others. -/
theorem prepend (h : ls i = xs ++ rest) (hws : Interleaving (Function.update ls i rest) ws) :
    Interleaving ls (xs ++ ws) := by
  induction xs generalizing ls with
  | nil =>
      rw [List.nil_append] at h
      rwa [← h, Function.update_eq_self] at hws
  | cons x xs ih =>
      refine .next h (ih (Function.update_self ..) ?_)
      rwa [Function.update_idem]

/-- **Groups of steps.** -/
theorem flatMap (f : α → List β) (h : Interleaving ls ws) :
    Interleaving (fun i => (ls i).flatMap f) (ws.flatMap f) := by
  induction h with
  | nil hnone => exact .nil fun i => by rw [hnone i, List.flatMap_nil]
  | @next ls i x rest ws h _ ih =>
      have hhead : (ls i).flatMap f = f x ++ rest.flatMap f := by rw [h, List.flatMap_cons]
      have hrest : (fun k => (Function.update ls i rest k).flatMap f) =
          Function.update (fun k => (ls k).flatMap f) i (rest.flatMap f) := by
        funext k
        exact Function.apply_update (fun _ l => l.flatMap f) ls i rest k
      rw [hrest] at ih
      rw [List.flatMap_cons]
      exact prepend hhead ih

/-- What comes is from one of the sequences. -/
theorem exists_mem {x : α} (h : Interleaving ls ws) (hx : x ∈ ws) : ∃ i, x ∈ ls i := by
  induction h with
  | nil _ => cases hx
  | @next ls i y rest ws h _ ih =>
      rcases List.mem_cons.mp hx with rfl | hx
      · exact ⟨i, h ▸ List.mem_cons_self⟩
      · obtain ⟨k, hk⟩ := ih hx
        by_cases hki : k = i
        · subst hki
          rw [Function.update_self] at hk
          exact ⟨k, h ▸ List.mem_cons_of_mem _ hk⟩
        · exact ⟨k, by rwa [Function.update_of_ne hki] at hk⟩

/-- **One after the other.** -/
theorem sequential {is : List ι} (hnd : is.Nodup) (h : ∀ i ∉ is, ls i = []) : Interleaving ls (is.flatMap ls) := by
  induction is generalizing ls with
  | nil => exact .nil fun i => h i List.not_mem_nil
  | cons i is ih =>
      rw [List.nodup_cons] at hnd
      have hothers : is.flatMap (Function.update ls i []) = is.flatMap ls := by
        apply List.flatMap_congr
        intro k hk
        have hki : k ≠ i := by
          rintro rfl
          exact hnd.1 hk
        exact Function.update_of_ne hki _ _
      have hrest : Interleaving (Function.update ls i []) (is.flatMap (Function.update ls i [])) := by
        apply ih hnd.2
        intro k hk
        by_cases hki : k = i
        · rw [hki, Function.update_self]
        · rw [Function.update_of_ne hki]
          exact h k fun hmem => (List.mem_cons.mp hmem).elim hki hk
      rw [hothers] at hrest
      exact prepend (List.append_nil _).symm hrest

/-- **One sequence is interrupted** by the first steps of another; what is left comes one after the other. -/
theorem interrupt [Fintype ι] {j : ι} {ys us vs : List α} (hij : j ≠ i) (hi : ls i = xs ++ (ys ++ rest))
    (hj : ls j = us ++ vs) :
    Interleaving ls (xs ++ (us ++ (ys ++
      Finset.univ.toList.flatMap (Function.update (Function.update ls i rest) j vs)))) := by
  have hother : Function.update ls i (ys ++ rest) j = us ++ vs := by rw [Function.update_of_ne hij, hj]
  have hback : Function.update (Function.update ls i (ys ++ rest)) j vs i = ys ++ rest := by
    rw [Function.update_of_ne hij.symm, Function.update_self]
  refine prepend hi (prepend hother (prepend hback ?_))
  rw [Function.update_comm hij, Function.update_idem, Function.update_comm hij.symm]
  exact sequential (Finset.nodup_toList _) fun k hk => absurd (Finset.mem_toList.mpr (Finset.mem_univ k)) hk

/-- A family of which only one sequence has steps. -/
theorem single (hone : ∀ k, k ≠ i → ls k = []) : Interleaving ls ws ↔ ws = ls i := by
  constructor
  · intro h
    induction h with
    | nil hnone => exact (hnone i).symm
    | @next ls j x rest ws h _ ih =>
        obtain rfl : j = i := by
          by_contra hji
          rw [hone j hji] at h
          cases h
        have hrest := ih fun k hk => by rw [Function.update_of_ne hk, hone k hk]
        rw [h, hrest, Function.update_self]
  · rintro rfl
    have hnone : ∀ k, Function.update ls i [] k = [] := by
      intro k
      by_cases hki : k = i
      · rw [hki, Function.update_self]
      · rw [Function.update_of_ne hki, hone k hki]
    have h := prepend (List.append_nil (ls i)).symm (.nil hnone)
    rwa [List.append_nil] at h

/-- Nothing comes of nothing. -/
theorem eq_nil (h : Interleaving ls ws) (hnone : ∀ i, ls i = []) : ws = [] := by
  cases h with
  | nil _ => rfl
  | next h _ =>
      rw [hnone] at h
      cases h

/-- **All interleavings are equally long.** -/
theorem length_eq [Fintype ι] (h : Interleaving ls ws) : ws.length = ∑ i, (ls i).length := by
  induction h with
  | nil hnone => simp [hnone]
  | @next ls i x rest ws h _ ih =>
      have hothers : ∑ k ∈ Finset.univ.erase i, (Function.update ls i rest k).length =
          ∑ k ∈ Finset.univ.erase i, (ls k).length :=
        Finset.sum_congr rfl fun k hk => by rw [Function.update_of_ne (Finset.ne_of_mem_erase hk)]
      rw [← Finset.add_sum_erase _ _ (Finset.mem_univ i), Function.update_self, hothers] at ih
      rw [← Finset.add_sum_erase _ _ (Finset.mem_univ i), h, List.length_cons, List.length_cons, ih]
      omega

end Interleaving
