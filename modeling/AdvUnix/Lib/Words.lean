import Mathlib.Data.List.Basic
import Mathlib.Data.List.DropRight
import Mathlib.Data.List.TakeWhile

/-!
# `Lib.Words` — words, lines and occurrences

Text as a list of characters over any alphabet: the words that runs of separators leave (`words`), the lines of
a file (`lines`) and the first place where one text occurs in another (`find`). What is put together with
separators comes apart again: `words_intercalate` for the words of joined texts, `words_spaced` for words that
are joined one by one.
-/

namespace Words

open List

variable {α : Type} {p : α → Bool}

/-! ## Words -/

/-- The maximal runs without a separator. -/
def words (p : α → Bool) (l : List α) : List (List α) := (l.splitOnP p).filter fun w => !w.isEmpty

/-- Text without a separator in it. -/
def Solid (p : α → Bool) (l : List α) : Prop := ∀ c ∈ l, p c = false

instance (l : List α) : Decidable (Solid p l) :=
  decidable_of_iff (l.all (!p ·) = true) (by simp [Solid])

@[simp] theorem words_nil : words p ([] : List α) = [] := rfl

/-- **A separator** ends a word: the words of both sides follow each other. -/
theorem words_append_cons (xs ys : List α) {c : α} (hc : p c = true) :
    words p (xs ++ c :: ys) = words p xs ++ words p ys := by
  unfold words
  rw [splitOnP_append_cons _ _ hc, filter_append]

theorem words_cons {c : α} (hc : p c = true) (xs : List α) : words p (c :: xs) = words p xs :=
  words_append_cons [] xs hc

theorem words_replicate {c : α} (hc : p c = true) (n : Nat) (xs : List α) :
    words p (replicate n c ++ xs) = words p xs := by
  induction n with
  | zero => rfl
  | succ n ih => rw [replicate_succ, cons_append, words_cons hc, ih]

theorem words_of_solid {w : List α} (h : Solid p w) : words p w = if w = [] then [] else [w] := by
  unfold words
  rw [splitOnP_eq_singleton h]
  cases w with
  | nil => rfl
  | cons c cs => rfl

/-- A word is its own only word. -/
theorem words_word {w : List α} (hne : w ≠ []) (h : Solid p w) : words p w = [w] := by
  rw [words_of_solid h, if_neg hne]

/-- A word before a separator comes first. -/
theorem words_word_append {w : List α} (hne : w ≠ []) (h : Solid p w) {c : α} (hc : p c = true) (ys : List α) :
    words p (w ++ c :: ys) = w :: words p ys := by
  rw [words_append_cons _ _ hc, words_word hne h, singleton_append]

theorem words_intercalate {c : α} (hc : p c = true) (ls : List (List α)) :
    words p ([c].intercalate ls) = ls.flatMap (words p) := by
  induction ls with
  | nil => rfl
  | cons l ls ih =>
      cases ls with
      | nil => simp
      | cons l' ls =>
          rw [intercalate_cons_cons, append_assoc, singleton_append, words_append_cons _ _ hc, ih]
          rfl

/-- Words joined by a separator come apart again. -/
theorem words_spaced {c : α} (hc : p c = true) {ws : List (List α)} (hws : ∀ w ∈ ws, w ≠ [] ∧ Solid p w) :
    words p ([c].intercalate ws) = ws := by
  rw [words_intercalate hc]
  induction ws with
  | nil => rfl
  | cons w ws ih =>
      obtain ⟨hne, hsolid⟩ := hws w mem_cons_self
      rw [flatMap_cons, words_word hne hsolid, ih fun w' hw' => hws w' (mem_cons_of_mem w hw')]
      rfl

/-- A text that does not begin with a separator has a word. -/
theorem words_ne_nil {c : α} {cs : List α} (hc : p c = false) : words p (c :: cs) ≠ [] := by
  obtain ⟨w, ws, hsplit⟩ := exists_cons_of_ne_nil (splitOnP_ne_nil p cs)
  simp [words, splitOnP_cons_eq_if_modifyHead, hc, hsplit]

/-- Separators in front do not count. -/
theorem words_dropWhile (l : List α) : words p (l.dropWhile p) = words p l := by
  induction l with
  | nil => rfl
  | cons c cs ih =>
      by_cases hc : p c = true
      · rw [dropWhile_cons_of_pos hc, ih, words_cons hc]
      · rw [dropWhile_cons_of_neg hc]

/-- The first word is what stands before the first separator. -/
theorem words_of_start {c : α} {cs : List α} (hc : p c = false) :
    Solid p ((c :: cs).takeWhile (!p ·)) ∧
      words p (c :: cs) = (c :: cs).takeWhile (!p ·) :: words p ((c :: cs).dropWhile (!p ·)) := by
  have hne : (c :: cs).takeWhile (!p ·) ≠ [] := by simp [hc]
  have hsolid : Solid p ((c :: cs).takeWhile (!p ·)) := by
    intro d hd
    simpa using mem_takeWhile_imp hd
  refine ⟨hsolid, ?_⟩
  have hsplit : c :: cs = (c :: cs).takeWhile (!p ·) ++ (c :: cs).dropWhile (!p ·) := takeWhile_append_dropWhile.symm
  have hend := head?_dropWhile_not (!p ·) (c :: cs)
  cases hrest : (c :: cs).dropWhile (!p ·) with
  | nil =>
      rw [hrest, append_nil] at hsplit
      rw [← hsplit] at hne hsolid ⊢
      exact words_word hne hsolid
  | cons d ds =>
      rw [hrest] at hsplit hend
      have hd : p d = true := by simpa using hend
      rw [words_cons hd]
      exact (congrArg (words p) hsplit).trans (words_word_append hne hsolid hd ds)

/-- Behind the separators in front there is nothing, or the first word. -/
theorem words_cases (p : α → Bool) (l : List α) :
    (l.dropWhile p = [] ∧ words p l = []) ∨
      (l.dropWhile p ≠ [] ∧
        words p l = (l.dropWhile p).takeWhile (!p ·) :: words p ((l.dropWhile p).dropWhile (!p ·))) := by
  have hstart := head?_dropWhile_not p l
  have hwords := words_dropWhile (p := p) l
  cases hdrop : l.dropWhile p with
  | nil =>
      rw [hdrop] at hwords
      exact Or.inl ⟨rfl, hwords.symm⟩
  | cons c cs =>
      rw [hdrop] at hstart hwords
      have hc : p c = false := by simpa using hstart
      refine Or.inr ⟨cons_ne_nil c cs, ?_⟩
      rw [← hwords]
      exact (words_of_start hc).2

theorem getElem?_append_add (us ws : List α) (k : Nat) : (us ++ ws)[us.length + k]? = ws[k]? := by
  rw [getElem?_append_right (Nat.le_add_right _ _), Nat.add_sub_cancel_left]

theorem map_intercalate {β : Type} (f : α → β) (c : α) (ls : List (List α)) :
    ([c].intercalate ls).map f = [f c].intercalate (ls.map (List.map f)) := by
  induction ls with
  | nil => rfl
  | cons l ls ih =>
      cases ls with
      | nil => simp
      | cons l' ls =>
          rw [map_cons] at ih
          rw [intercalate_cons_cons, map_append, map_append, ih, map_cons, map_cons, map_cons, intercalate_cons_cons]
          rfl

/-- Of the words joined by a separator, the first ones alone make a shorter text. -/
theorem length_intercalate_append_lt (c : α) {us ws : List (List α)} (hus : us ≠ []) (hws : ws ≠ []) :
    ([c].intercalate us).length < ([c].intercalate (us ++ ws)).length := by
  induction us with
  | nil => exact absurd rfl hus
  | cons u us ih =>
      cases us with
      | nil =>
          obtain ⟨w, ws', rfl⟩ := exists_cons_of_ne_nil hws
          rw [singleton_append, intercalate_cons_cons, intercalate_singleton]
          simp
      | cons u' us =>
          have hlt := ih (cons_ne_nil _ _)
          rw [cons_append] at hlt
          rw [cons_append, cons_append, intercalate_cons_cons, intercalate_cons_cons]
          simp only [length_append]
          omega

/-! ## Lines -/

variable [DecidableEq α]

/-- The lines that `getline` finds; the last one may lack its end. -/
def lines (nl : α) (text : List α) : List (List α) :=
  let ls := text.splitOn nl
  if ls.getLast? = some [] then ls.dropLast else ls

/-- A line end: what is before it is whole lines, and what is behind it begins a new one. -/
theorem lines_append_cons (nl : α) (xs ys : List α) : lines nl (xs ++ nl :: ys) = xs.splitOn nl ++ lines nl ys := by
  have hsplit : (xs ++ nl :: ys).splitOn nl = xs.splitOn nl ++ ys.splitOn nl :=
    splitOnP_append_cons _ _ (by simp)
  have hne : ys.splitOn nl ≠ [] := splitOnP_ne_nil _ _
  unfold lines
  simp only [hsplit, getLast?_append_of_ne_nil _ hne, dropLast_append_of_ne_nil hne]
  by_cases hlast : (ys.splitOn nl).getLast? = some []
  · rw [if_pos hlast, if_pos hlast]
  · rw [if_neg hlast, if_neg hlast]

theorem lines_cons {nl : α} {l : List α} (hl : nl ∉ l) (ys : List α) : lines nl (l ++ nl :: ys) = l :: lines nl ys := by
  have hone : l.splitOn nl = [l] := splitOnP_eq_singleton fun c hc => by
    simpa using fun he : c = nl => hl (he ▸ hc)
  rw [lines_append_cons, hone, singleton_append]

/-- Behind whole lines new ones begin. -/
theorem lines_append {nl : α} {xs : List α} (h : xs = [] ∨ xs.getLast? = some nl) (ys : List α) :
    lines nl (xs ++ ys) = lines nl xs ++ lines nl ys := by
  rcases h with rfl | hlast
  · have hnil : lines nl ([] : List α) = [] := by simp [lines]
    rw [hnil, nil_append, nil_append]
  · obtain ⟨ws, rfl⟩ := getLast?_eq_some_iff.mp hlast
    have hnil : lines nl ([] : List α) = [] := by simp [lines]
    rw [append_assoc, singleton_append, lines_append_cons, lines_append_cons, hnil, append_nil]

/-! ## Fields -/

/-- What is in front of the first separator. -/
def before (sep : α) (l : List α) : List α := l.takeWhile (· ≠ sep)

/-- What is behind it. -/
def after (sep : α) (l : List α) : List α := (l.dropWhile (· ≠ sep)).tail

/-- What is behind the last separator. -/
def behind (sep : α) (l : List α) : List α := l.rtakeWhile (· ≠ sep)

theorem before_append_cons {sep : α} {xs : List α} (h : sep ∉ xs) (ys : List α) :
    before sep (xs ++ sep :: ys) = xs := by
  have hpos : ∀ x ∈ xs, decide (x ≠ sep) = true := fun x hx => decide_eq_true fun heq => h (heq ▸ hx)
  rw [before, takeWhile_append_of_pos hpos, takeWhile_cons]
  simp

theorem after_append_cons {sep : α} {xs : List α} (h : sep ∉ xs) (ys : List α) :
    after sep (xs ++ sep :: ys) = ys := by
  have hpos : ∀ x ∈ xs, decide (x ≠ sep) = true := fun x hx => decide_eq_true fun heq => h (heq ▸ hx)
  rw [after, dropWhile_append_of_pos hpos, dropWhile_cons]
  simp

/-- A text gets shorter with each field that is taken off it. -/
theorem after_length_lt (sep : α) {l : List α} (h : l ≠ []) : (after sep l).length < l.length := by
  have hdrop : (l.dropWhile (· ≠ sep)).length ≤ l.length := length_dropWhile_le _ _
  have hpos := length_pos_iff.mpr h
  rw [after, length_tail]
  omega

theorem behind_append_cons {sep : α} {ys : List α} (h : sep ∉ ys) (xs : List α) :
    behind sep (xs ++ sep :: ys) = ys := by
  have hrev : (xs ++ sep :: ys).reverse = ys.reverse ++ sep :: xs.reverse := by simp
  have hbefore : before sep (xs ++ sep :: ys).reverse = ys.reverse := by
    rw [hrev]
    exact before_append_cons (fun hmem => h (mem_reverse.mp hmem)) _
  rw [behind, rtakeWhile, show ((xs ++ sep :: ys).reverse.takeWhile (· ≠ sep)) = ys.reverse from hbefore,
    reverse_reverse]

/-! ## Occurrences -/

/-- The first position at which a text occurs. -/
def find (pat : List α) : List α → Option Nat
  | [] => if pat = [] then some 0 else none
  | c :: cs => if pat <+: c :: cs then some 0 else (find pat cs).map (· + 1)

variable {pat : List α}

theorem find_eq_none_iff {l : List α} : find pat l = none ↔ ¬ pat <:+: l := by
  induction l with
  | nil => simp [find]
  | cons c cs ih =>
      rw [find, infix_cons_iff]
      by_cases hpre : pat <+: c :: cs
      · simp [hpre]
      · simp [hpre, ih]

theorem find_isSome_iff {l : List α} : (find pat l).isSome = true ↔ pat <:+: l := by
  rw [← not_iff_not, Bool.not_eq_true, Option.isSome_eq_false_iff, Option.isNone_iff_eq_none, find_eq_none_iff]

/-- Before the first occurrence there is none. -/
theorem find_spec {l : List α} {n : Nat} (h : find pat l = some n) :
    pat <+: l.drop n ∧ ∀ m < n, ¬ pat <+: l.drop m := by
  induction l generalizing n with
  | nil =>
      rw [find] at h
      by_cases hpat : pat = []
      · rw [if_pos hpat] at h
        cases h
        simp [hpat]
      · rw [if_neg hpat] at h
        cases h
  | cons c cs ih =>
      rw [find] at h
      by_cases hpre : pat <+: c :: cs
      · rw [if_pos hpre] at h
        cases h
        simp [hpre]
      · rw [if_neg hpre] at h
        obtain ⟨k, hk, rfl⟩ := Option.map_eq_some_iff.mp h
        obtain ⟨hat, hbefore⟩ := ih hk
        refine ⟨hat, fun m hm => ?_⟩
        cases m with
        | zero => exact hpre
        | succ m => exact hbefore m (Nat.lt_of_succ_lt_succ hm)

omit [DecidableEq α] in
/-- What does not have the sign between two texts in it occurs in one of them. -/
theorem infix_append_cons {u xs ys : List α} {c : α} (hc : c ∉ u) (h : u <:+: xs ++ c :: ys) :
    u <:+: xs ∨ u <:+: ys := by
  rcases infix_append_iff_ne_nil.mp h with hxs | hys | ⟨l₁, l₂, -, hl₂, rfl, -, hpre⟩
  · exact Or.inl hxs
  · rcases infix_cons_iff.mp hys with hpre | hys
    · cases u with
      | nil => exact Or.inl nil_infix
      | cons d ds =>
          obtain ⟨rfl, -⟩ := cons_prefix_cons.mp hpre
          exact absurd mem_cons_self hc
    · exact Or.inr hys
  · cases l₂ with
    | nil => exact absurd rfl hl₂
    | cons d ds =>
        obtain ⟨rfl, -⟩ := cons_prefix_cons.mp hpre
        exact absurd (mem_append_right l₁ mem_cons_self) hc

end Words
