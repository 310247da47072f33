import Mathlib.Data.List.Basic

/-!
# `Lib.Firsts` — the first element with each key

Elements of a list under a key: for each key the first element that has it, in the order in which the keys appear
first. A pass that goes over a list and drops what it has seen computes this; `firsts_cons_mem` and
`firsts_cons_not_mem` are the two steps of such a pass.
-/

namespace Firsts

open List

variable {α β : Type} [BEq β] [LawfulBEq β] (key : α → β)

/-- The first element with each key that `before` does not have. -/
def firsts (before : List β) (as : List α) : List α :=
  ((as.map key).filter (!before.contains ·)).eraseDups.filterMap fun k => as.find? (key · == k)

variable {key} {before : List β} {a : α} (as : List α)

/-- Other keys than that of the first element are looked up behind it. -/
theorem filterMap_find?_cons {ks : List β} (h : key a ∉ ks) :
    (ks.filterMap fun k => (a :: as).find? (key · == k)) = ks.filterMap fun k => as.find? (key · == k) := by
  refine filterMap_congr fun k hk => ?_
  have hne : key a ≠ k := fun he => h (he ▸ hk)
  exact find?_cons_of_neg (by simpa using hne)

/-- An element whose key was seen goes. -/
theorem firsts_cons_mem (h : key a ∈ before) : firsts key before (a :: as) = firsts key before as := by
  unfold firsts
  rw [map_cons, filter_cons_of_neg (by simpa using h)]
  refine filterMap_find?_cons as ?_
  rw [mem_eraseDups, mem_filter]
  rintro ⟨-, hnot⟩
  exact absurd h (by simpa using hnot)

/-- One with a new key stays. -/
theorem firsts_cons_not_mem (h : key a ∉ before) :
    firsts key before (a :: as) = a :: firsts key (before ++ [key a]) as := by
  unfold firsts
  have hfilter : ((as.map key).filter (!before.contains ·)).filter (fun k => !k == key a) =
      (as.map key).filter (!(before ++ [key a]).contains ·) := by
    rw [filter_filter]
    refine filter_congr fun k _ => ?_
    rw [Bool.eq_iff_iff]
    simp [and_comm]
  rw [map_cons, filter_cons_of_pos (by simpa using h), eraseDups_cons, hfilter, filterMap_cons,
    find?_cons_of_pos (by simp)]
  dsimp only
  refine congrArg (a :: ·) (filterMap_find?_cons as ?_)
  rw [mem_eraseDups, mem_filter]
  simp

/-- A key that was seen twice was seen once. -/
theorem firsts_append_mem {k : β} (h : k ∈ before) : firsts key (before ++ [k]) as = firsts key before as := by
  have hfilter : (as.map key).filter (!(before ++ [k]).contains ·) = (as.map key).filter (!before.contains ·) := by
    refine filter_congr fun k' _ => ?_
    rw [Bool.eq_iff_iff]
    simp only [contains_append, Bool.not_or, Bool.and_eq_true, and_iff_left_iff_imp]
    intro hk'
    have hne : k' ≠ k := by
      rintro rfl
      simp [h] at hk'
    simpa using hne
  unfold firsts
  rw [hfilter]

/-- **An element of the list is kept** when it is the first with its key. -/
theorem mem_firsts {b : α} : b ∈ firsts key [] as ↔ as.find? (key · == key b) = some b := by
  unfold firsts
  rw [mem_filterMap]
  constructor
  · rintro ⟨k, -, hfind⟩
    have hk : key b = k := by simpa using find?_some hfind
    rw [hk]
    exact hfind
  · intro hfind
    refine ⟨key b, ?_, hfind⟩
    rw [mem_eraseDups, mem_filter]
    exact ⟨mem_map_of_mem (mem_of_find?_eq_some hfind), by simp⟩

theorem mem_of_mem_firsts {b : α} (h : b ∈ firsts key [] as) : b ∈ as :=
  mem_of_find?_eq_some ((mem_firsts as).mp h)

/-- The keys are those of the list, each once. -/
theorem map_key_firsts : (firsts key [] as).map key = (as.map key).eraseDups := by
  unfold firsts
  have hall : (as.map key).filter (!([] : List β).contains ·) = as.map key := filter_eq_self.mpr (by simp)
  rw [hall, map_filterMap]
  calc ((as.map key).eraseDups.filterMap fun k => (as.find? (key · == k)).map key)
      = (as.map key).eraseDups.filterMap some := by
        refine filterMap_congr fun k hk => ?_
        obtain ⟨b, hb, hkey⟩ := mem_map.mp (mem_eraseDups.mp hk)
        have hsome : (as.find? (key · == k)).isSome = true := find?_isSome.mpr ⟨b, hb, by simpa using hkey⟩
        obtain ⟨c, hc⟩ := Option.isSome_iff_exists.mp hsome
        have hk : key c = k := by simpa using find?_some hc
        rw [hc, Option.map_some, hk]
    _ = (as.map key).eraseDups := filterMap_some

theorem nodup_eraseDups {n : Nat} {ks : List β} (hn : ks.length ≤ n) : ks.eraseDups.Nodup := by
  induction n generalizing ks with
  | zero =>
      obtain rfl : ks = [] := eq_nil_of_length_eq_zero (Nat.le_zero.mp hn)
      exact nodup_nil
  | succ n ih =>
      cases ks with
      | nil => exact nodup_nil
      | cons k ks =>
          have hrest : (ks.filter fun k' => !k' == k).length ≤ n :=
            Nat.le_trans (length_filter_le _ ks) (Nat.le_of_succ_le_succ hn)
          rw [eraseDups_cons, nodup_cons, mem_eraseDups]
          exact ⟨by simp, ih hrest⟩

/-- No key stays twice. -/
theorem nodup_key_firsts : ((firsts key [] as).map key).Nodup := by
  rw [map_key_firsts]
  exact nodup_eraseDups (Nat.le_refl _)

/-- Every element has one that stays with its key. -/
theorem exists_mem_firsts (h : a ∈ as) : ∃ b ∈ firsts key [] as, b ∈ as ∧ key b = key a := by
  have hsome : (as.find? (key · == key a)).isSome = true := find?_isSome.mpr ⟨a, h, by simp⟩
  obtain ⟨b, hb⟩ := Option.isSome_iff_exists.mp hsome
  have hkey : key b = key a := by simpa using find?_some hb
  refine ⟨b, (mem_firsts as).mpr ?_, mem_of_find?_eq_some hb, hkey⟩
  rw [hkey]
  exact hb

omit [LawfulBEq β] in
theorem firsts_map {γ : Type} (f : γ → α) (cs : List γ) :
    firsts key before (cs.map f) = (firsts (key ∘ f) before cs).map f := by
  unfold firsts
  rw [map_filterMap, map_map]
  refine filterMap_congr fun k _ => ?_
  rw [find?_map]
  rfl

end Firsts
