import Mathlib.Data.List.Basic
import Mathlib.Data.List.Nodup

/-!
# `Lib.Ledger` — what has been handed out and not given back

The books of an allocator: resources are numbered as they are handed out, each with a label that says what it is
for, and giving one back fails when it is not held. So a program that gives something back twice, or something it
never had, gets stuck; one that does not ends with what it has leaked (`releaseAll_held`).
-/

namespace Ledger

variable {κ : Type}

structure Resource (κ : Type) where
  label : κ
  number : Nat
  deriving DecidableEq, Repr

/-- The number of the next resource, and the resources that are held. -/
structure Books (κ : Type) where
  next : Nat
  held : List (Resource κ)

def Books.empty : Books κ := ⟨0, []⟩

def acquire (label : κ) (g : Books κ) : Resource κ × Books κ :=
  (⟨label, g.next⟩, ⟨g.next + 1, ⟨label, g.next⟩ :: g.held⟩)

/-- A resource that is handed out only when there is one. -/
def granted (label : κ) (got : Bool) (g : Books κ) : Option (Resource κ) × Books κ :=
  if got then (some (acquire label g).1, (acquire label g).2) else (none, g)

/-- **No resource is held twice**, and none has the number of one to come. -/
structure Sound (g : Books κ) : Prop where
  nodup : g.held.Nodup
  old : ∀ r ∈ g.held, r.number < g.next

theorem sound_empty : Sound (Books.empty : Books κ) := ⟨List.nodup_nil, by simp [Books.empty]⟩

theorem Sound.acquire {g : Books κ} (h : Sound g) (label : κ) : Sound (Ledger.acquire label g).2 := by
  constructor
  · refine List.nodup_cons.mpr ⟨?_, h.nodup⟩
    intro hmem
    exact Nat.lt_irrefl _ (h.old _ hmem)
  · intro r hr
    rcases List.mem_cons.mp hr with rfl | hr
    · exact Nat.lt_succ_self _
    · exact Nat.lt_succ_of_lt (h.old r hr)

/-- What a grant adds to the books. -/
structure Grants (label : κ) (got : Bool) (g : Books κ) (r : Option (Resource κ)) (g' : Books κ) : Prop where
  held : g'.held = r.toList ++ g.held
  label : ∀ x ∈ r, x.label = label
  isSome : r.isSome = got
  sound : Sound g → Sound g'

theorem granted_grants (label : κ) (got : Bool) (g : Books κ) :
    Grants label got g (granted label got g).1 (granted label got g).2 := by
  cases got with
  | false => exact ⟨rfl, by simp [granted], rfl, id⟩
  | true =>
      refine ⟨rfl, ?_, rfl, fun h => h.acquire label⟩
      intro x hx
      obtain rfl := Option.some.inj hx
      rfl

variable [DecidableEq κ]

/-- What is not held cannot be given back. -/
def release (r : Resource κ) (g : Books κ) : Option (Books κ) :=
  if r ∈ g.held then some { g with held := g.held.erase r } else none

def releaseAll (rs : List (Resource κ)) (g : Books κ) : Option (Books κ) := rs.foldlM (fun g r => release r g) g

theorem releaseAll_append (rs rs' : List (Resource κ)) (g : Books κ) :
    releaseAll (rs ++ rs') g = (releaseAll rs g).bind (releaseAll rs') := List.foldlM_append

/-- **Different resources that are held can be given back**, and the others stay. -/
theorem releaseAll_held {rs : List (Resource κ)} {g : Books κ} (hg : g.held.Nodup) (hrs : rs.Nodup)
    (hheld : ∀ r ∈ rs, r ∈ g.held) :
    ∃ g', releaseAll rs g = some g' ∧ ∀ r, r ∈ g'.held ↔ r ∈ g.held ∧ r ∉ rs := by
  induction rs generalizing g with
  | nil => exact ⟨g, rfl, by simp⟩
  | cons r rs ih =>
      obtain ⟨hr, hrest⟩ := List.nodup_cons.mp hrs
      have hmem := hheld r List.mem_cons_self
      have hkept : ∀ x ∈ rs, x ∈ g.held.erase r := by
        intro x hx
        have hne : x ≠ r := fun heq => hr (heq ▸ hx)
        exact (List.mem_erase_of_ne hne).mpr (hheld x (List.mem_cons_of_mem r hx))
      obtain ⟨g', hg', hiff⟩ := ih (g := { g with held := g.held.erase r }) (hg.erase r) hrest hkept
      refine ⟨g', ?_, ?_⟩
      · rw [releaseAll, List.foldlM_cons, release, if_pos hmem]
        exact hg'
      · intro x
        rw [hiff, hg.mem_erase_iff, List.mem_cons, not_or]
        constructor
        · rintro ⟨⟨hne, hx⟩, hnot⟩
          exact ⟨hx, hne, hnot⟩
        · rintro ⟨hx, hne, hnot⟩
          exact ⟨⟨hne, hx⟩, hnot⟩

end Ledger
