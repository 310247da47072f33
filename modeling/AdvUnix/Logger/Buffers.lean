import AdvUnix.Logger.Transparent

/-!
# `Logger.Buffers` — the texts in local buffers

The hooks format resolved paths into a hundred bytes, octal numerals into ten and a pointer into twenty. A pointer
always fits. The others may not: each hook is followed to the texts that it formats, and `buffers_fit_iff` says
for which calls all of them fit. A text is formatted only where the hook gets that far.
-/

namespace AdvUnix.Logger

open Triple

variable {σ : Type} (L : Libc σ) (s : St σ)

/-! ## The parts -/

/-- What `realpath` stores fits `long_path`. -/
def PathFits (path : Option String) (w : σ) : Prop :=
  match (L.realpath path w).1 with
  | .found resolved => resolved.length < 100
  | .missing stored => (stored.getD "").length < 100

theorem format_avoids (size : Nat) (text : String) :
    Avoids (format size text) s .overflow (text.length < size) := avoids_check text Crash.overflow s

theorem string_avoids (p : Option String) : Avoids (string p) s .overflow True :=
  avoids_other (p.getD "") (by decide) s

theorem initFd_avoids : Avoids (initFd L) s .overflow True := by
  refine iff_of_true ?_ trivial
  unfold initFd
  by_cases hflag : s.fdFlag = true
  · rw [if_pos hflag]
    exact ok_ne_error _ _
  · rw [if_neg hflag]
    cases L.outputFile with
    | none => exact error_ne_iff.mpr (by decide)
    | some file =>
        dsimp only
        by_cases hstderr : file.toList.take 6 = "STDERR".toList
        · rw [if_pos hstderr]
          exact ok_ne_error _ _
        · rw [if_neg hstderr]
          exact ok_ne_error _ _

theorem resolve_avoids (path : Option String) :
    Avoids (resolve L path) s .overflow (PathFits L path s.world) := by
  have hbody : ∀ r t, r = (L.realpath path s.world).1 ∧ t = resolved L path s →
      Avoids (match r with
        | .found resolved => format 100 resolved
        | .missing stored => do
            let _ ← format 100 (stored.getD "")
            string path) t .overflow (PathFits L path s.world) := by
    rintro r t ⟨hr, rfl⟩
    unfold PathFits
    rw [← hr]
    cases r with
    | found path' => exact format_avoids _ 100 path'
    | missing stored =>
        -- the null path is found after the buffer has been written
        exact (format_avoids _ 100 (stored.getD "")).bind_last (format_exactly 100 _ _)
          fun _ t _ => string_avoids t path
  exact Avoids.bind_total (libc_exactly (L.realpath path) s) hbody

theorem octal_avoids (n : BitVec 32) : Avoids (octal n) s .overflow (OctalFits n) :=
  (format_avoids s 10 _).mono (octal_length_iff n)

theorem printPtr_avoids (p : Ptr) : Avoids (printPtr L p) s .overflow True := (printPtr_exactly L p s).avoids _

/-- The real call, and the line. -/
theorem reported_avoids {α : Type} (ret : α → Ret) (f : σ → α × σ) (line : α → String) :
    Avoids (do let a ← orFunc L ret f; print L (line a ++ "\n"); pure a) s .overflow True := by
  apply Avoids.bind_total (orFunc_exactly L ret f s)
  rintro a t -
  exact (says_exactly (line a) a t).avoids _

/-- Most hooks begin with the path. -/
theorem resolving_avoids {α : Type} {k : String → Hook σ α} {W : Prop} (path : Option String)
    (hk : ∀ name, Avoids (k name) (named L path s) .overflow W) :
    Avoids (do initFd L; let name ← resolve L path; k name) s .overflow
      (Inits L s → PathFits L path (afterInit L s).world ∧ (Resolves L path (afterInit L s).world → W)) := by
  apply (initFd_avoids L s).bind_other (initFd_exactly L s)
  rintro _ _ rfl
  apply (resolve_avoids L _ path).bind (resolve_exactly L path _)
  rintro name _ rfl
  exact hk name

/-- Those that format nothing else. -/
theorem resolving_only {α : Type} {k : String → Hook σ α} (path : Option String)
    (hk : ∀ name, Avoids (k name) (named L path s) .overflow True) :
    Avoids (do initFd L; let name ← resolve L path; k name) s .overflow
      (Inits L s → PathFits L path (afterInit L s).world) :=
  (resolving_avoids L s path hk).mono (imp_congr_right fun _ => and_iff_left fun _ => trivial)

/-! ## The hooks -/

theorem chmod_avoids (path : Option String) (mode : Mode) :
    Avoids (chmod L path mode) s .overflow
      (Inits L s → PathFits L path (afterInit L s).world ∧
        (Resolves L path (afterInit L s).world → OctalFits mode)) := by
  refine resolving_avoids L s path fun name => ?_
  apply (octal_avoids _ mode).bind_last (octal_exactly mode _)
  rintro modeStr t -
  exact reported_avoids L t .int _ _

theorem chown_avoids (path : Option String) (owner group : BitVec 32) :
    Avoids (chown L path owner group) s .overflow (Inits L s → PathFits L path (afterInit L s).world) :=
  resolving_only L s path fun _ => reported_avoids L _ .int _ _

theorem remove_avoids (path : Option String) :
    Avoids (remove L path) s .overflow (Inits L s → PathFits L path (afterInit L s).world) :=
  resolving_only L s path fun _ => reported_avoids L _ .int _ _

/-- The path of a new file is resolved in the state that the real call has left. -/
theorem creatAs_avoids (name : String) (real : Option String → Mode → σ → Int × σ) (path : Option String)
    (mode : Mode) :
    Avoids (creatAs L name real path mode) s .overflow
      (Inits L s → PathFits L path (real path mode (afterInit L s).world).2 ∧
        (Resolves L path (real path mode (afterInit L s).world).2 → OctalFits mode)) := by
  apply (initFd_avoids L s).bind_other (initFd_exactly L s)
  rintro _ _ rfl
  apply Avoids.bind_total (orFunc_exactly L .int (real path mode) _)
  rintro _ _ ⟨rfl, rfl⟩
  apply (resolve_avoids L _ path).bind (resolve_exactly L path _)
  rintro _ _ rfl
  apply (octal_avoids _ mode).bind_last (octal_exactly mode _)
  rintro modeStr t -
  exact (says_exactly _ _ t).avoids _

theorem fopenAs_avoids (name : String) (real : Option String → Option String → σ → Ptr × σ)
    (path mode : Option String) :
    Avoids (fopenAs L name real path mode) s .overflow (Inits L s → PathFits L path (afterInit L s).world) := by
  refine resolving_only L s path fun _ => ?_
  apply (string_avoids _ mode).bind_last (string_exactly mode _)
  rintro modeText t -
  apply Avoids.bind_total (orFunc_exactly L .ptr (real path mode) t)
  rintro ret u -
  apply Avoids.bind_total (print_exactly L _ u)
  rintro _ u' -
  apply (printPtr_avoids L u' ret).bind_last (printPtr_exactly L ret u')
  rintro _ v -
  apply Avoids.bind_total (print_exactly L "\n" v)
  rintro _ v' -
  exact (exactly_pure ret v').avoids _

theorem openAs_avoids (name : String) (real : Option String → BitVec 32 → Option Mode → σ → Int × σ)
    (path : Option String) (flags : BitVec 32) (mode : Mode) :
    Avoids (openAs L name real path flags mode) s .overflow
      (Inits L s → PathFits L path (afterInit L s).world ∧
        (Resolves L path (afterInit L s).world →
          OctalFits flags ∧ (needsMode flags = true → OctalFits mode))) := by
  have hzero : OctalFits 0 := by
    unfold OctalFits
    decide
  refine resolving_avoids L s path fun _ => ?_
  refine ((octal_avoids _ flags).bind (W := needsMode flags = true → OctalFits mode) (octal_exactly flags _)
    fun _ t _ => ?_).mono (and_congr_right fun hflags => imp_iff_right hflags)
  -- the mode that is formatted is the one that is passed, or 0
  by_cases hneeds : needsMode flags = true
  · rw [if_pos hneeds]
    refine Avoids.mono (V := OctalFits mode) ?_ (imp_iff_right hneeds).symm
    apply (octal_avoids t mode).bind_last (octal_exactly mode t)
    rintro modeStr u -
    exact reported_avoids L u .int _ _
  · rw [if_neg hneeds]
    apply Avoids.bind_total (orFunc_exactly L .int (real path flags none) t)
    rintro ret u -
    refine Avoids.mono (V := OctalFits 0) ?_ (iff_of_true hzero fun h => absurd h hneeds)
    apply (octal_avoids u 0).bind_last (octal_exactly 0 u)
    rintro modeStr v -
    exact (says_exactly _ ret v).avoids _

/-- `rename` resolves the new name in the state that the real call has left. -/
theorem rename_avoids (old new : Option String) :
    Avoids (rename L old new) s .overflow
      (Inits L s → PathFits L old (afterInit L s).world ∧
        (Resolves L old (afterInit L s).world → PathFits L new (L.rename old new (named L old s).world).2)) := by
  refine resolving_avoids L s old fun name => ?_
  apply Avoids.bind_total (orFunc_exactly L .int (L.rename old new) _)
  rintro _ _ ⟨rfl, rfl⟩
  apply (resolve_avoids L _ new).bind_last (resolve_exactly L new _)
  rintro _ t -
  exact (says_exactly _ _ t).avoids _

/-! ## Calls -/

/-- A call of a function that formats texts into local buffers. -/
inductive BufferCall
  | chmod (path : Option String) (mode : Mode)
  | chown (pathname : Option String) (owner group : BitVec 32)
  | creat (pathname : Option String) (mode : Mode)
  | creat64 (pathname : Option String) (mode : Mode)
  | fopen (filename mode : Option String)
  | fopen64 (filename mode : Option String)
  | openFile (pathname : Option String) (flags : BitVec 32) (mode : Mode)
  | open64 (pathname : Option String) (flags : BitVec 32) (mode : Mode)
  | remove (pathname : Option String)
  | rename (oldpath newpath : Option String)
  | printPtr (p : Ptr)

namespace BufferCall

def run : BufferCall → Hook σ Unit
  | .chmod path mode => (fun _ => ()) <$> Logger.chmod L path mode
  | .chown pathname owner group => (fun _ => ()) <$> Logger.chown L pathname owner group
  | .creat pathname mode => (fun _ => ()) <$> Logger.creat L pathname mode
  | .creat64 pathname mode => (fun _ => ()) <$> Logger.creat64 L pathname mode
  | .fopen filename mode => (fun _ => ()) <$> Logger.fopen L filename mode
  | .fopen64 filename mode => (fun _ => ()) <$> Logger.fopen64 L filename mode
  | .openFile pathname flags mode => (fun _ => ()) <$> Logger.openFile L pathname flags mode
  | .open64 pathname flags mode => (fun _ => ()) <$> Logger.open64 L pathname flags mode
  | .remove pathname => (fun _ => ()) <$> Logger.remove L pathname
  | .rename oldpath newpath => (fun _ => ()) <$> Logger.rename L oldpath newpath
  | .printPtr p => Logger.printPtr L p

/-- **The texts of a call fit**: what `realpath` stores has less than a hundred bytes and, where there is a path to
    log, the numbers behind it are below `8 ^ 9`. -/
def Fits : BufferCall → Prop
  | .chmod path mode =>
      Inits L s → PathFits L path (afterInit L s).world ∧ (Resolves L path (afterInit L s).world → OctalFits mode)
  | .creat path mode =>
      Inits L s → PathFits L path (L.creat path mode (afterInit L s).world).2 ∧
        (Resolves L path (L.creat path mode (afterInit L s).world).2 → OctalFits mode)
  | .creat64 path mode =>
      Inits L s → PathFits L path (L.creat64 path mode (afterInit L s).world).2 ∧
        (Resolves L path (L.creat64 path mode (afterInit L s).world).2 → OctalFits mode)
  | .openFile path flags mode | .open64 path flags mode =>
      Inits L s → PathFits L path (afterInit L s).world ∧
        (Resolves L path (afterInit L s).world → OctalFits flags ∧ (needsMode flags = true → OctalFits mode))
  | .rename old new =>
      Inits L s → PathFits L old (afterInit L s).world ∧
        (Resolves L old (afterInit L s).world → PathFits L new (L.rename old new (named L old s).world).2)
  | .chown path _ _ | .fopen path _ | .fopen64 path _ | .remove path =>
      Inits L s → PathFits L path (afterInit L s).world
  | .printPtr _ => True

end BufferCall

/-- **No call overflows a buffer** exactly when its texts fit. -/
theorem buffers_fit_iff (L : Libc σ) (s : St σ) (c : BufferCall) : c.run L s ≠ .error .overflow ↔ c.Fits L s := by
  cases c with
  | chmod path mode => exact (chmod_avoids L s path mode).map
  | chown path owner group => exact (chown_avoids L s path owner group).map
  | creat path mode => exact (creatAs_avoids L s "creat" L.creat path mode).map
  | creat64 path mode => exact (creatAs_avoids L s "creat64" L.creat64 path mode).map
  | fopen path mode => exact (fopenAs_avoids L s "fopen" L.fopen path mode).map
  | fopen64 path mode => exact (fopenAs_avoids L s "fopen64" L.fopen64 path mode).map
  | openFile path flags mode => exact (openAs_avoids L s "open" L.openFile path flags mode).map
  | open64 path flags mode => exact (openAs_avoids L s "open64" L.open64 path flags mode).map
  | remove path => exact (remove_avoids L s path).map
  | rename old new => exact (rename_avoids L s old new).map
  | printPtr p => exact printPtr_avoids L s p

/-! ## Texts that do not fit -/

/-- `PATH_MAX` -/
def pathMax : Nat := 4096

/-- A path of a hundred bytes. -/
def deepPath : String := String.ofList ('/' :: List.replicate 99 'a')

/-- `sampleLibc` in a deep directory. -/
def deepLibc : Libc Int := { sampleLibc with realpath := fun _ w => (.found deepPath, w) }

/-- **A resolved path of a hundred bytes** has no room for its zero, nor has a mode of ten octal digits. -/
theorem buffers_overflow :
    (∀ path w, (deepLibc.realpath path w).1 = .found deepPath) ∧ deepPath.length < pathMax ∧
      (BufferCall.remove (some "a")).run deepLibc sampleSt = .error .overflow ∧
      (BufferCall.chmod (some "/tmp/a") 0o1000000000).run sampleLibc sampleSt = .error .overflow := by
  have hinits : Inits sampleLibc sampleSt := Or.inr rfl
  have hlength : deepPath.length = 100 := by
    unfold deepPath
    rw [String.length_ofList, List.length_cons, List.length_replicate]
  refine ⟨fun _ _ => rfl, ?_, ?_, ?_⟩
  · rw [hlength]
    decide
  · by_contra hne
    have hfits : deepPath.length < 100 := (remove_avoids deepLibc sampleSt (some "a")).map.mp hne (Or.inr rfl)
    omega
  · by_contra hne
    obtain ⟨-, hmode⟩ := (chmod_avoids sampleLibc sampleSt (some "/tmp/a") 0o1000000000).map.mp hne hinits
    have hresolves : Resolves sampleLibc (some "/tmp/a") (afterInit sampleLibc sampleSt).world := by
      change "/tmp/a".length < 100
      decide
    have hfits : (0o1000000000 : Mode).toNat < 8 ^ 9 := hmode hresolves
    exact absurd hfits (by decide)

end AdvUnix.Logger
