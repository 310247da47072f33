import AdvUnix.Logger.Triples

/-!
# `Logger.Transparent` — when the program does not notice the logger

A call is transparent when the program gets what the real function returned and, after a failure, the `errno`
that it left. Most hooks ask the library nothing after the real call but to write the log; `creat`, `creat64`
and `rename` resolve a path there.
-/

namespace AdvUnix.Logger

open Triple

variable {σ : Type} {L : Libc σ} {s t u : St σ}

/-! ## Writing the log -/

/-- The logger's own writes have succeeded. -/
def Logged (t : St σ) : Prop := ∀ r ∈ t.writes, 0 ≤ r

/-- From `s` to `t` the logger has only written its log. -/
structure OnlyLogged (L : Libc σ) (s t : St σ) : Prop where
  real : t.real = s.real
  errno : Logged t → L.errno t.world = L.errno s.world ∧ Logged s

theorem OnlyLogged.refl (s : St σ) : OnlyLogged L s s := ⟨rfl, fun h => ⟨rfl, h⟩⟩

theorem OnlyLogged.trans (h : OnlyLogged L s t) (h' : OnlyLogged L t u) : OnlyLogged L s u := by
  constructor
  · exact h'.real.trans h.real
  · intro hu
    obtain ⟨hut, ht⟩ := h'.errno hu
    obtain ⟨hts, hs⟩ := h.errno ht
    exact ⟨hut.trans hts, hs⟩

theorem OnlyLogged.printed (hL : L.Lawful) (s : St σ) (text : String) : OnlyLogged L s (printed L s text) := by
  constructor
  · rfl
  · intro hlog
    exact ⟨hL.write_errno _ _ _ _ (hlog _ List.mem_cons_self), fun r hr => hlog r (List.mem_cons_of_mem _ hr)⟩

theorem OnlyLogged.foldl (hL : L.Lawful) (texts : List String) (s : St σ) :
    OnlyLogged L s (texts.foldl (Logger.printed L) s) := by
  induction texts generalizing s with
  | nil => exact OnlyLogged.refl s
  | cons text texts ih => exact (OnlyLogged.printed hL s text).trans (ih _)

/-- The result is that of a real call, and only the log has been written since. -/
def Reports {α : Type} (L : Libc σ) (a : α) (s : St σ) (v : α) (t : St σ) : Prop := v = a ∧ OnlyLogged L s t

theorem Prints.reports {α : Type} {name : String} {a v : α} (hL : L.Lawful) (h : Prints L name a s v t) :
    Reports L a s v t := by
  obtain ⟨hv, texts, -, rfl⟩ := h
  exact ⟨hv, OnlyLogged.foldl hL texts s⟩

/-! ## Calls -/

/-- The real function has failed, by what it returned. -/
def Call.failed : Call → Ret → Prop
  | .fread _ nmemb _, .size n => n < nmemb
  | .fwrite _ _ nmemb _ _, .size n => n < nmemb
  | _, .size _ => False
  | _, .int n => n = -1
  | _, .ptr p => p = 0

/-- The state in which the program makes a call: nothing is recorded for the proofs yet. -/
def entry (s : St σ) : St σ := { s with real := none, writes := [] }

/-- **A transparent call**: it returns what the real function returned, and after a failure with the
    `errno` that the real function left. -/
def Transparent (L : Libc σ) (c : Call) (s : St σ) : Prop :=
  ∃ v t e, c.run L (entry s) = .ok (v, t) ∧ t.real = some (v, e) ∧ (c.failed v → L.errno t.world = e)

/-- The writes that the logger makes to its log in a call succeed. -/
def LogSucceeds (L : Libc σ) (c : Call) (s : St σ) : Prop :=
  ∀ v t, c.run L (entry s) = .ok (v, t) → Logged t

variable {c : Call} {C : Prop} {r : Ret}

theorem transparent_iff_of {e : Int}
    (hrun : Exactly (c.run L) (entry s) C (fun v t => v = r ∧ OnlyLogged L u t))
    (hreal : u.real = some (r, e)) (hlog : LogSucceeds L c s) :
    Transparent L c s ↔ C ∧ (c.failed r → L.errno u.world = e) := by
  constructor
  · rintro ⟨v, t, e', hok, hret, hseen⟩
    obtain ⟨hc, rfl, honly⟩ := hrun.of_ok hok
    obtain ⟨herrno, -⟩ := honly.errno (hlog _ _ hok)
    rw [honly.real, hreal] at hret
    cases hret
    exact ⟨hc, fun hf => herrno ▸ hseen hf⟩
  · rintro ⟨hc, hseen⟩
    obtain ⟨v, t, hok, rfl, honly⟩ := hrun.succeeds hc
    obtain ⟨herrno, -⟩ := honly.errno (hlog _ _ hok)
    exact ⟨v, t, e, hok, honly.real.trans hreal, fun hf => herrno.trans (hseen hf)⟩

/-- What the call of a hook does, from what the hook does. -/
theorem Call.run_exactly {α : Type} {m : Hook σ α} {ret : α → Ret} {a : α} {name : String} (hL : L.Lawful)
    (hcall : c.run L = ret <$> m) (hm : Exactly m (entry s) C (Prints L name a u)) :
    Exactly (c.run L) (entry s) C (fun v t => v = ret a ∧ OnlyLogged L u t) := by
  rw [hcall]
  refine hm.map.mono Iff.rfl ?_
  rintro _ t ⟨b, rfl, hprints⟩
  obtain ⟨rfl, honly⟩ := hprints.reports hL
  exact ⟨rfl, honly⟩

/-- A hook that has nothing but its log to write after the real call is transparent when it returns. -/
theorem transparent_called {α β : Type} {m : Hook σ β} {ret : α → Ret} {ret' : β → Ret} {f : σ → α × σ}
    {b : β} {name : String} (hL : L.Lawful) (hlog : LogSucceeds L c s) (hcall : c.run L = ret' <$> m)
    (hm : Exactly m (entry s) C (Prints L name b (called L ret f u)))
    (hret : ret (f u.world).1 = ret' b) : Transparent L c s ↔ C := by
  rw [transparent_iff_of (Call.run_exactly hL hcall hm) (congrArg (fun r => some (r, _)) hret) hlog]
  exact ⟨And.left, fun hc => ⟨hc, fun _ => rfl⟩⟩

/-- After a failure of the real call, resolving the path leaves the `errno` of that failure. -/
def KeepsErrno (L : Libc σ) (path : Option String) (f : σ → Int × σ) (w : σ) : Prop :=
  (f w).1 = -1 → L.errno (L.realpath path (f w).2).2 = L.errno (f w).2

/-- A hook that resolves a path after the real call has to be lucky with `errno` as well. -/
theorem transparent_resolved {m : Hook σ Int} {f : σ → Int × σ} {path : Option String} {name : String}
    (hL : L.Lawful) (hlog : LogSucceeds L c s) (hcall : c.run L = .int <$> m)
    (hm : Exactly m (entry s) C (Prints L name (f u.world).1 (resolved L path (called L .int f u))))
    (hfailed : ∀ n, c.failed (.int n) ↔ n = -1) :
    Transparent L c s ↔ C ∧ KeepsErrno L path f u.world := by
  rw [transparent_iff_of (Call.run_exactly hL hcall hm) rfl hlog, hfailed]
  rfl

/-- The condition under which a call is transparent. -/
def Sees (L : Libc σ) (s : St σ) : Call → Prop
  | .chmod path mode => Inits L s ∧ Resolves L path (afterInit L s).world ∧ OctalFits mode
  | .chown path _ _ => Inits L s ∧ Resolves L path (afterInit L s).world
  | .close _ => Inits L s
  | .creat path mode =>
      (Inits L s ∧ Resolves L path (L.creat path mode (afterInit L s).world).2 ∧ OctalFits mode) ∧
        KeepsErrno L path (L.creat path mode) (afterInit L s).world
  | .creat64 path mode =>
      (Inits L s ∧ Resolves L path (L.creat64 path mode (afterInit L s).world).2 ∧ OctalFits mode) ∧
        KeepsErrno L path (L.creat64 path mode) (afterInit L s).world
  | .fclose _ => Inits L s
  | .fopen path mode => Inits L s ∧ Resolves L path (afterInit L s).world ∧ mode.isSome = true
  | .fopen64 path mode => Inits L s ∧ Resolves L path (afterInit L s).world ∧ mode.isSome = true
  | .fread _ _ _ => Inits L s
  | .fwrite _ _ _ _ _ => Inits L s
  | .openFile path flags mode => Inits L s ∧ Resolves L path (afterInit L s).world ∧ OctalFits flags ∧
      (needsMode flags = true → OctalFits mode)
  | .open64 path flags mode => Inits L s ∧ Resolves L path (afterInit L s).world ∧ OctalFits flags ∧
      (needsMode flags = true → OctalFits mode)
  | .read fd count => Inits L s ∧ (L.read fd count (looked L fd (afterInit L s)).world).1.isSome = true
  | .remove path => Inits L s ∧ Resolves L path (afterInit L s).world
  | .rename old new =>
      (Inits L s ∧ Resolves L old (afterInit L s).world ∧
        Resolves L new (L.rename old new (named L old s).world).2) ∧
        KeepsErrno L new (L.rename old new) (named L old s).world
  | .tmpfile => Inits L s
  | .tmpfile64 => Inits L s
  | .write _ data count => Inits L s ∧ Readable data count

/-- **Interposition.** Every interposed call is transparent exactly when its condition holds. -/
theorem interposition (hL : L.Lawful) (hlog : LogSucceeds L c s) :
    Transparent L c s ↔ Sees L (entry s) c := by
  cases c with
  | chmod path mode => exact transparent_called hL hlog rfl (chmod_exactly L path mode _) rfl
  | chown path owner group => exact transparent_called hL hlog rfl (chown_exactly L path owner group _) rfl
  | close fd => exact transparent_called hL hlog rfl (close_exactly L fd _) rfl
  | creat path mode =>
      exact transparent_resolved hL hlog rfl (creatAs_exactly "creat" L.creat path mode _) (fun _ => Iff.rfl)
  | creat64 path mode =>
      exact transparent_resolved hL hlog rfl (creatAs_exactly "creat64" L.creat64 path mode _)
        (fun _ => Iff.rfl)
  | fclose stream => exact transparent_called hL hlog rfl (fclose_exactly L stream _) rfl
  | fopen path mode => exact transparent_called hL hlog rfl (fopenAs_exactly "fopen" L.fopen path mode _) rfl
  | fopen64 path mode =>
      exact transparent_called hL hlog rfl (fopenAs_exactly "fopen64" L.fopen64 path mode _) rfl
  | fread size nmemb stream => exact transparent_called hL hlog rfl (fread_exactly L size nmemb stream _) rfl
  | fwrite data size nmemb stream full =>
      exact transparent_called hL hlog rfl (fwrite_exactly L stream full _) rfl
  | openFile path flags mode =>
      exact transparent_called hL hlog rfl (openAs_exactly "open" L.openFile path flags mode _) rfl
  | open64 path flags mode =>
      exact transparent_called hL hlog rfl (openAs_exactly "open64" L.open64 path flags mode _) rfl
  | read fd count => exact transparent_called hL hlog rfl (read_exactly L fd count _) rfl
  | remove path => exact transparent_called hL hlog rfl (remove_exactly L path _) rfl
  | rename old new => exact transparent_resolved hL hlog rfl (rename_exactly L old new _) (fun _ => Iff.rfl)
  | tmpfile => exact transparent_called hL hlog rfl (tmpfileAs_exactly "tmpfile" L.tmpfile _) rfl
  | tmpfile64 => exact transparent_called hL hlog rfl (tmpfileAs_exactly "tmpfile64" L.tmpfile64 _) rfl
  | write fd data count => exact transparent_called hL hlog rfl (write_exactly L fd data count _) rfl

/-! ## A library -/

/-- A library that keeps nothing but `errno`: `/mnt/b` does not exist and is on another file system than
    the rest, every file belongs to somebody else, and what else is called succeeds. -/
def sampleLibc : Libc Int where
  errno := id
  outputFile := some "STDERR"
  realpath := fun path w =>
    if path = some "/mnt/b" then (.missing (some "/mnt/b"), 2) else (.found (path.getD ""), w)
  readlink := fun _ w => (some "/dev/null", w)
  fileno := fun _ w => (3, w)
  dup := fun _ w => (4, w)
  chmod := fun _ _ _ => (-1, 1)
  chown := fun _ _ _ _ => (-1, 1)
  close := fun _ w => (0, w)
  creat := fun _ _ w => (3, w)
  creat64 := fun _ _ w => (3, w)
  fclose := fun _ w => (0, w)
  fopen := fun _ _ w => (0x1000, w)
  fopen64 := fun _ _ w => (0x1000, w)
  fread := fun _ _ _ w => (⟨0, [], no_items_fit _⟩, w)
  fwrite := fun _ _ _ _ w => (⟨0, Nat.succ_pos _⟩, w)
  openFile := fun _ _ _ w => (3, w)
  open64 := fun _ _ _ w => (3, w)
  read := fun _ _ w => (some [], w)
  remove := fun _ w => (0, w)
  rename := fun _ _ _ => (-1, 18)
  tmpfile := fun w => (0x1000, w)
  tmpfile64 := fun w => (0x1000, w)
  write := fun _ _ count w => (count, w)

theorem sampleLibc_lawful : sampleLibc.Lawful := ⟨fun _ _ _ _ _ => rfl⟩

/-- The logger before its first call, with the log on standard error. -/
def sampleSt : St Int := ⟨false, 2, 0, none, []⟩

/-- A call whose only write to the log is as long as its text. -/
theorem sample_logged {v : Ret} {t : St Int} {n : Nat}
    (h : c.run sampleLibc (entry sampleSt) = .ok (v, t)) (hwrites : t.writes = [(n : Int)]) :
    LogSucceeds sampleLibc c sampleSt := by
  intro v' t' h'
  rw [h] at h'
  cases h'
  intro r hr
  rw [hwrites, List.mem_singleton] at hr
  rw [hr]
  exact Int.natCast_nonneg n

/-- `chmod` on somebody else's file: the program sees `EPERM`. -/
theorem interposition_chmod : Transparent sampleLibc (.chmod (some "/tmp/a") 0o644) sampleSt := by
  have hlog : LogSucceeds sampleLibc (.chmod (some "/tmp/a") 0o644) sampleSt := sample_logged rfl rfl
  refine (interposition sampleLibc_lawful hlog).mpr ⟨Or.inr rfl, ?_, ?_⟩
  · change "/tmp/a".length < 100
    decide
  · change (0o644 : Mode).toNat < 8 ^ 9
    decide

/-- **`rename` to another file system**: the real call fails with `EXDEV`, then the new name is resolved,
    and the program sees `ENOENT`. -/
theorem rename_not_transparent : ¬ ∀ (L : Libc Int) (c : Call) (s : St Int), L.Lawful →
    LogSucceeds L c s → Transparent L c s := by
  intro h
  have hlog : LogSucceeds sampleLibc (.rename (some "/tmp/a") (some "/mnt/b")) sampleSt :=
    sample_logged rfl rfl
  have hseen := h sampleLibc _ sampleSt sampleLibc_lawful hlog
  have hiff := transparent_resolved sampleLibc_lawful hlog rfl
    (rename_exactly sampleLibc (some "/tmp/a") (some "/mnt/b") (entry sampleSt)) (fun _ => Iff.rfl)
  have herrno : (2 : Int) = 18 := (hiff.mp hseen).2 rfl
  exact absurd herrno (by decide)

end AdvUnix.Logger
