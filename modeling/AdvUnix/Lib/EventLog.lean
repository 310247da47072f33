import Mathlib.Data.List.Basic

/-!
# `Lib.EventLog` — logs that grow lawfully

A log that only grows, and a law for the events in it. `Lawful ok l l'` says that `l'` is `l` with lawful
events added, `Spoiled ok l l'` that one of those added breaks the law. Both compose along the growth of the
log, and they exclude each other (`not_lawful`).
-/

namespace EventLog

variable {ε : Type} {ok : ε → Prop} {l l' l'' : List ε} {ev : ε}

/-- Only lawful events have been added. -/
def Lawful (ok : ε → Prop) (l l' : List ε) : Prop := ∃ evs, l' = l ++ evs ∧ ∀ ev ∈ evs, ok ev

/-- An event that breaks the law has been added. -/
def Spoiled (ok : ε → Prop) (l l' : List ε) : Prop := ∃ evs, l' = l ++ evs ∧ ∃ ev ∈ evs, ¬ ok ev

namespace Lawful

theorem refl (l : List ε) : Lawful ok l l := ⟨[], (List.append_nil l).symm, by simp⟩

theorem snoc (h : ok ev) : Lawful ok l (l ++ [ev]) := ⟨[ev], rfl, by simpa using h⟩

theorem trans (h : Lawful ok l l') (h' : Lawful ok l' l'') : Lawful ok l l'' := by
  obtain ⟨evs, rfl, hevs⟩ := h
  obtain ⟨evs', rfl, hevs'⟩ := h'
  refine ⟨evs ++ evs', List.append_assoc .., ?_⟩
  intro ev hev
  rcases List.mem_append.mp hev with hev | hev
  · exact hevs ev hev
  · exact hevs' ev hev

theorem isPrefix (h : Lawful ok l l') : l <+: l' := by
  obtain ⟨evs, rfl, -⟩ := h
  exact List.prefix_append l evs

/-- All that has been added is lawful when it is up to some point and from there on. -/
theorem split (h : l <+: l') (h' : l' <+: l'') : Lawful ok l l'' ↔ Lawful ok l l' ∧ Lawful ok l' l'' := by
  constructor
  · rintro ⟨evs, heq, hevs⟩
    obtain ⟨evs₁, rfl⟩ := h
    obtain ⟨evs₂, rfl⟩ := h'
    rw [List.append_assoc] at heq
    obtain rfl := List.append_cancel_left heq
    constructor
    · exact ⟨evs₁, rfl, fun ev hev => hevs ev (List.mem_append_left evs₂ hev)⟩
    · exact ⟨evs₂, rfl, fun ev hev => hevs ev (List.mem_append_right evs₁ hev)⟩
  · rintro ⟨hfirst, hrest⟩
    exact hfirst.trans hrest

end Lawful

namespace Spoiled

theorem snoc (h : ¬ ok ev) : Spoiled ok l (l ++ [ev]) := ⟨[ev], rfl, ev, by simp, h⟩

/-- A broken law stays broken. -/
theorem extend (h : Spoiled ok l l') (h' : l' <+: l'') : Spoiled ok l l'' := by
  obtain ⟨evs, rfl, ev, hev, hbad⟩ := h
  obtain ⟨evs', rfl⟩ := h'
  exact ⟨evs ++ evs', List.append_assoc .., ev, List.mem_append_left evs' hev, hbad⟩

theorem after (h : l <+: l') (h' : Spoiled ok l' l'') : Spoiled ok l l'' := by
  obtain ⟨evs, rfl⟩ := h
  obtain ⟨evs', rfl, ev, hev, hbad⟩ := h'
  exact ⟨evs ++ evs', List.append_assoc .., ev, List.mem_append_right evs hev, hbad⟩

theorem not_lawful (h : Spoiled ok l l') : ¬ Lawful ok l l' := by
  rintro ⟨evs, rfl, hevs⟩
  obtain ⟨evs', heq, ev, hev, hbad⟩ := h
  rw [List.append_cancel_left heq] at hevs
  exact hbad (hevs ev hev)

end Spoiled

end EventLog
