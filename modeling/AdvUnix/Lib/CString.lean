import Mathlib.Data.List.TakeWhile
import Mathlib.Data.List.Infix

/-!
# `Lib.CString` — terminated strings

A string ends at the first occurrence of a terminator, which is not part of it (`content`). Whether a known
string is stored at the head of some cells is a question about prefixes (`terminated_prefix_iff`), and cells
that hold a terminator never run out inside a known string.
-/

namespace CString

variable {α : Type} {nul : α}

/-- A string as it is stored. -/
def terminated (nul : α) (s : List α) : List α := s ++ [nul]

theorem terminated_cons (c : α) (cs : List α) : terminated nul (c :: cs) = c :: terminated nul cs := rfl

/-- Cells with a terminator do not end inside a string. -/
theorem terminated_not_cut {s l : List α} (hs : nul ∉ s) (hl : nul ∈ l)
    (h : l <+: terminated nul s) : terminated nul s <+: l := by
  rcases List.prefix_concat_iff.mp h with heq | hshort
  · rw [terminated, ← heq]
  · exact absurd (hshort.subset hl) hs

variable [DecidableEq α]

/-- The string at the head of some cells. -/
def content (nul : α) (l : List α) : List α := l.takeWhile (· ≠ nul)

theorem content_cons (b : α) (bs : List α) :
    content nul (b :: bs) = if b = nul then [] else b :: content nul bs := by
  unfold content
  rw [List.takeWhile_cons]
  by_cases hb : b = nul
  · simp [hb]
  · simp [hb]

/-- **A string is at the head** of cells that hold a terminator when it is their content. -/
theorem terminated_prefix_iff {s l : List α} (hs : nul ∉ s) (hl : nul ∈ l) :
    terminated nul s <+: l ↔ content nul l = s := by
  induction s generalizing l with
  | nil =>
      obtain ⟨b, bs, rfl⟩ := List.exists_cons_of_ne_nil (List.ne_nil_of_mem hl)
      rw [content_cons, terminated, List.nil_append, List.cons_prefix_cons]
      by_cases hb : b = nul
      · simp [hb]
      · simp [hb, Ne.symm hb]
  | cons c cs ih =>
      have hc : c ≠ nul := fun h => hs (h ▸ List.mem_cons_self)
      have hcs : nul ∉ cs := fun h => hs (List.mem_cons_of_mem c h)
      obtain ⟨b, bs, rfl⟩ := List.exists_cons_of_ne_nil (List.ne_nil_of_mem hl)
      rw [content_cons, terminated_cons, List.cons_prefix_cons]
      by_cases hb : b = nul
      · subst hb
        simp [hc]
      · rw [if_neg hb, List.cons.injEq, ih hcs ((List.mem_cons.mp hl).resolve_left (Ne.symm hb))]
        exact and_congr_left' eq_comm

end CString
