import Mathlib.Control.Monad.Basic

/-!
# `Lib.Triple` — computations that succeed exactly when

A triple for stateful computations that may fail: `Exactly m s C R` says that `m` succeeds from `s` when `C`
holds, with a result and a state in `R`, and fails when it does not. Conditions add up along `>>=`, so the
condition of a whole program is the conjunction of what its parts ask for, none of it lost.

`Avoids m s e V` is the triple for one failure: `m` does not fail with `e` exactly when `V` holds. A part is asked
for nothing where the parts before it fail in another way. `Gives m s R` says only what holds when `m` succeeds.
-/

namespace Triple

variable {S ε α β : Type}

/-- **An exact triple.** -/
structure Exactly (m : StateT S (Except ε) α) (s : S) (C : Prop) (R : α → S → Prop) : Prop where
  succeeds : C → ∃ a t, m s = .ok (a, t) ∧ R a t
  fails : ¬ C → ∃ e, m s = .error e

variable {m : StateT S (Except ε) α} {k : α → StateT S (Except ε) β} {s : S} {C D : Prop}
  {R : α → S → Prop} {Q : β → S → Prop}

/-- A computation that always succeeds. -/
theorem exactly_ok {a : α} {t : S} (h : m s = .ok (a, t)) (hr : R a t) : Exactly m s True R :=
  ⟨fun _ => ⟨a, t, h, hr⟩, fun hn => absurd trivial hn⟩

theorem exactly_pure (a : α) (s : S) : Exactly (pure a : StateT S (Except ε) α) s True
    (fun b t => b = a ∧ t = s) := exactly_ok rfl ⟨rfl, rfl⟩

/-- A check that fails when `C` does not hold. -/
theorem exactly_check [Decidable C] (a : α) (e : ε) (s : S) :
    Exactly (if C then pure a else throw e : StateT S (Except ε) α) s C (fun b t => b = a ∧ t = s) := by
  constructor
  · intro hc
    rw [if_pos hc]
    exact ⟨a, s, rfl, rfl, rfl⟩
  · intro hc
    rw [if_neg hc]
    exact ⟨e, rfl⟩

/-- **One after the other.** -/
theorem Exactly.bind (hm : Exactly m s C R) (hk : ∀ a t, R a t → Exactly (k a) t D Q) :
    Exactly (m >>= k) s (C ∧ D) Q := by
  constructor
  · rintro ⟨hc, hd⟩
    obtain ⟨a, t, hrun, hr⟩ := hm.succeeds hc
    obtain ⟨b, u, hrun', hq⟩ := (hk a t hr).succeeds hd
    refine ⟨b, u, ?_, hq⟩
    change (m s).bind (fun p => k p.1 p.2) = .ok (b, u)
    rw [hrun]
    exact hrun'
  · intro hn
    by_cases hc : C
    · obtain ⟨a, t, hrun, hr⟩ := hm.succeeds hc
      obtain ⟨e, hfail⟩ := (hk a t hr).fails (fun hd => hn ⟨hc, hd⟩)
      refine ⟨e, ?_⟩
      change (m s).bind (fun p => k p.1 p.2) = .error e
      rw [hrun]
      exact hfail
    · obtain ⟨e, hfail⟩ := hm.fails hc
      refine ⟨e, ?_⟩
      change (m s).bind (fun p => k p.1 p.2) = .error e
      rw [hfail]
      rfl

/-- **Consequence**, in both directions for the condition. -/
theorem Exactly.mono {R' : α → S → Prop} (hm : Exactly m s C R) (hc : C ↔ D)
    (hr : ∀ a t, R a t → R' a t) : Exactly m s D R' := by
  constructor
  · intro hd
    obtain ⟨a, t, hrun, h⟩ := hm.succeeds (hc.mpr hd)
    exact ⟨a, t, hrun, hr a t h⟩
  · intro hn
    exact hm.fails (fun h => hn (hc.mp h))

/-- A part that always succeeds asks for nothing. -/
theorem Exactly.bind_total (hm : Exactly m s True R) (hk : ∀ a t, R a t → Exactly (k a) t D Q) :
    Exactly (m >>= k) s D Q :=
  (hm.bind hk).mono ⟨And.right, And.intro trivial⟩ (fun _ _ h => h)

/-- The last part that asks for something. -/
theorem Exactly.bind_last (hm : Exactly m s C R) (hk : ∀ a t, R a t → Exactly (k a) t True Q) :
    Exactly (m >>= k) s C Q :=
  (hm.bind hk).mono ⟨And.left, fun hc => ⟨hc, trivial⟩⟩ (fun _ _ h => h)

theorem Exactly.map {f : α → β} (hm : Exactly m s C R) :
    Exactly (f <$> m) s C (fun b t => ∃ a, b = f a ∧ R a t) := by
  constructor
  · intro hc
    obtain ⟨a, t, hrun, hr⟩ := hm.succeeds hc
    refine ⟨f a, t, ?_, a, rfl, hr⟩
    change (m s).bind (fun p => .ok (f p.1, p.2)) = .ok (f a, t)
    rw [hrun]
    rfl
  · intro hn
    obtain ⟨e, hfail⟩ := hm.fails hn
    refine ⟨e, ?_⟩
    change (m s).bind (fun p => .ok (f p.1, p.2)) = .error e
    rw [hfail]
    rfl

/-- What a computation with an exact triple does, seen from its result. -/
theorem Exactly.of_ok (hm : Exactly m s C R) {a : α} {t : S} (h : m s = .ok (a, t)) : C ∧ R a t := by
  by_cases hc : C
  · obtain ⟨b, u, hrun, hr⟩ := hm.succeeds hc
    rw [hrun] at h
    cases h
    exact ⟨hc, hr⟩
  · obtain ⟨e, hfail⟩ := hm.fails hc
    rw [hfail] at h
    cases h

/-! ## One failure -/

/-- **An exact triple for one failure.** -/
def Avoids (m : StateT S (Except ε) α) (s : S) (e : ε) (V : Prop) : Prop := m s ≠ .error e ↔ V

variable {e : ε} {V W : Prop}

theorem ok_ne_error (a : α) (e : ε) : (.ok a : Except ε α) ≠ .error e := by
  intro h
  cases h

theorem error_ne_iff {e e' : ε} : (.error e' : Except ε α) ≠ .error e ↔ e' ≠ e := by
  rw [ne_eq, Except.error.injEq]

/-- A computation that always succeeds. -/
theorem Exactly.avoids (hm : Exactly m s True R) (e : ε) : Avoids m s e True := by
  obtain ⟨a, t, hrun, -⟩ := hm.succeeds trivial
  unfold Avoids
  rw [hrun]
  exact iff_of_true (ok_ne_error _ e) trivial

/-- A check that fails in this way. -/
theorem avoids_check [Decidable C] (a : α) (e : ε) (s : S) :
    Avoids (if C then pure a else throw e : StateT S (Except ε) α) s e C := by
  by_cases hc : C
  · rw [if_pos hc]
    exact iff_of_true (ok_ne_error (a, s) e) hc
  · rw [if_neg hc]
    exact iff_of_false (fun h => h rfl) hc

/-- A check that fails in another way. -/
theorem avoids_other [Decidable C] (a : α) {e e' : ε} (hne : e' ≠ e) (s : S) :
    Avoids (if C then pure a else throw e' : StateT S (Except ε) α) s e True := by
  refine iff_of_true ?_ trivial
  by_cases hc : C
  · rw [if_pos hc]
    exact ok_ne_error (a, s) e
  · rw [if_neg hc]
    exact error_ne_iff.mpr hne

/-- **One after the other**: the second part is reached when the first succeeds. -/
theorem Avoids.bind (hv : Avoids m s e V) (hm : Exactly m s C R) (hk : ∀ a t, R a t → Avoids (k a) t e W) :
    Avoids (m >>= k) s e (V ∧ (C → W)) := by
  have hbind : (m >>= k) s = (m s).bind fun p => k p.1 p.2 := rfl
  unfold Avoids at *
  rw [hbind]
  by_cases hc : C
  · obtain ⟨a, t, hrun, hr⟩ := hm.succeeds hc
    rw [hrun] at hv ⊢
    have hhere : V := hv.mp (ok_ne_error _ e)
    rw [Except.bind, hk a t hr]
    exact ⟨fun hw => ⟨hhere, fun _ => hw⟩, fun h => h.2 hc⟩
  · obtain ⟨e', hfail⟩ := hm.fails hc
    rw [hfail, error_ne_iff] at hv
    rw [hfail, Except.bind, error_ne_iff, hv]
    exact ⟨fun h => ⟨h, fun h' => absurd h' hc⟩, And.left⟩

theorem Avoids.mono (hv : Avoids m s e V) (h : V ↔ W) : Avoids m s e W := Iff.trans hv h

/-- A part that always succeeds asks for nothing. -/
theorem Avoids.bind_total (hm : Exactly m s True R) (hk : ∀ a t, R a t → Avoids (k a) t e W) :
    Avoids (m >>= k) s e W :=
  ((hm.avoids e).bind hm hk).mono ⟨fun h => h.2 trivial, fun hw => ⟨trivial, fun _ => hw⟩⟩

/-- A part that only fails in other ways guards what is behind it. -/
theorem Avoids.bind_other (hv : Avoids m s e True) (hm : Exactly m s C R)
    (hk : ∀ a t, R a t → Avoids (k a) t e W) : Avoids (m >>= k) s e (C → W) :=
  (hv.bind hm hk).mono ⟨And.right, And.intro trivial⟩

/-- Nothing more is asked for. -/
theorem Avoids.bind_last (hv : Avoids m s e V) (hm : Exactly m s C R)
    (hk : ∀ a t, R a t → Avoids (k a) t e True) : Avoids (m >>= k) s e V :=
  (hv.bind hm hk).mono ⟨And.left, fun h => ⟨h, fun _ => trivial⟩⟩

theorem Avoids.map {f : α → β} (hv : Avoids m s e V) : Avoids (f <$> m) s e V := by
  have hmap : (f <$> m) s = (m s).bind fun p => .ok (f p.1, p.2) := rfl
  unfold Avoids at *
  rw [← hv, hmap]
  cases m s with
  | error e' => rw [Except.bind, error_ne_iff, error_ne_iff]
  | ok p => exact iff_of_true (ok_ne_error _ e) (ok_ne_error p e)

/-! ## Whenever it succeeds -/

/-- **A partial triple.** -/
structure Gives (m : StateT S (Except ε) α) (s : S) (R : α → S → Prop) : Prop where
  of_ok : ∀ {a : α} {t : S}, m s = .ok (a, t) → R a t

theorem Exactly.gives (hm : Exactly m s C R) : Gives m s R := ⟨fun h => (hm.of_ok h).2⟩

theorem Gives.bind (hm : Gives m s R) (hk : ∀ a t, R a t → Gives (k a) t Q) : Gives (m >>= k) s Q := by
  constructor
  intro b u hrun
  change (m s).bind (fun p => k p.1 p.2) = .ok (b, u) at hrun
  cases hfirst : m s with
  | error e =>
      rw [hfirst] at hrun
      cases hrun
  | ok p =>
      rw [hfirst] at hrun
      exact (hk p.1 p.2 (hm.of_ok hfirst)).of_ok hrun

theorem Gives.mono {R' : α → S → Prop} (hm : Gives m s R) (hr : ∀ a t, R a t → R' a t) : Gives m s R' :=
  ⟨fun h => hr _ _ (hm.of_ok h)⟩

theorem Gives.map {f : α → β} (hm : Gives m s R) : Gives (f <$> m) s (fun b t => ∃ a, b = f a ∧ R a t) := by
  constructor
  intro b t hrun
  change (m s).bind (fun p => .ok (f p.1, p.2)) = .ok (b, t) at hrun
  cases hfirst : m s with
  | error e =>
      rw [hfirst] at hrun
      cases hrun
  | ok p =>
      rw [hfirst] at hrun
      cases hrun
      exact ⟨p.1, rfl, hm.of_ok hfirst⟩

end Triple
