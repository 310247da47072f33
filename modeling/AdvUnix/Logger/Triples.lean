import AdvUnix.Logger.Hooks

/-!
# `Logger.Triples` — what each hook does

Each hook has an exact triple: the condition under which it returns at all, the state after the last call into
the library but those that print, and the line that it then prints. The states are named after the part of the
hook that leads to them.
-/

namespace AdvUnix.Logger

open Triple

variable {σ : Type} {L : Libc σ} {s t u : St σ}

/-! ## The parts -/

/-- The log is open, or it can be: `OUTPUT_FILE` is set. -/
def Inits (L : Libc σ) (s : St σ) : Prop := s.fdFlag = true ∨ L.outputFile.isSome

/-- The state once the log is open. -/
def afterInit (L : Libc σ) (s : St σ) : St σ :=
  if s.fdFlag then s
  else if (L.outputFile.getD "").toList.take 6 = "STDERR".toList then { s with fdFlag := true }
  else
    { s with
      fdFlag := true
      stderrFd := (L.openFile L.outputFile logFlags (some 0o644#32) s.world).1
      world := (L.openFile L.outputFile logFlags (some 0o644#32) s.world).2 }

theorem initFd_exactly (L : Libc σ) (s : St σ) :
    Exactly (initFd L) s (Inits L s) (fun _ t => t = afterInit L s) := by
  unfold initFd Inits afterInit
  by_cases hflag : s.fdFlag = true
  · constructor
    · intro _
      simp only [hflag, if_true]
      exact ⟨(), s, rfl, rfl⟩
    · intro hn
      exact absurd (Or.inl hflag) hn
  · cases hfile : L.outputFile with
    | none =>
        constructor
        · rintro (h | h)
          · exact absurd h hflag
          · cases h
        · intro _
          exact ⟨.noOutputFile, by simp only [hflag]; rfl⟩
    | some file =>
        constructor
        · intro _
          simp only [hflag, Option.getD_some]
          by_cases hstderr : file.toList.take 6 = "STDERR".toList
          · exact ⟨(), _, by simp only [hstderr]; rfl, by simp only [hstderr]; rfl⟩
          · exact ⟨(), _, by simp only [hstderr]; rfl, by simp only [hstderr]; rfl⟩
        · intro hn
          exact absurd (Or.inr rfl) hn

/-- What `realpath` stores fits `long_path`, and there is a name to log. -/
def Resolves (L : Libc σ) (path : Option String) (w : σ) : Prop :=
  match (L.realpath path w).1 with
  | .found resolved => resolved.length < 100
  | .missing stored => (stored.getD "").length < 100 ∧ path.isSome

/-- The state after `realpath`. -/
def resolved (L : Libc σ) (path : Option String) (s : St σ) : St σ :=
  { s with world := (L.realpath path s.world).2 }

theorem libc_exactly {α : Type} (f : σ → α × σ) (s : St σ) : Exactly (libc f) s True
    (fun a t => a = (f s.world).1 ∧ t = { s with world := (f s.world).2 }) :=
  exactly_ok rfl ⟨rfl, rfl⟩

theorem format_exactly (size : Nat) (text : String) (s : St σ) :
    Exactly (format size text) s (text.length < size) (fun a t => a = text ∧ t = s) := by
  unfold format
  exact exactly_check text Crash.overflow s

theorem string_exactly (p : Option String) (s : St σ) :
    Exactly (string p) s (p.isSome = true) (fun a t => a = p.getD "" ∧ t = s) := by
  unfold string
  exact exactly_check (p.getD "") Crash.nullString s

theorem resolve_exactly (L : Libc σ) (path : Option String) (s : St σ) :
    Exactly (resolve L path) s (Resolves L path s.world) (fun _ t => t = resolved L path s) := by
  have hbody : ∀ r t, r = (L.realpath path s.world).1 ∧ t = resolved L path s →
      Exactly (match r with
        | .found resolved => format 100 resolved
        | .missing stored => do
            let _ ← format 100 (stored.getD "")
            string path) t (Resolves L path s.world) (fun _ u => u = resolved L path s) := by
    rintro r t ⟨hr, rfl⟩
    unfold Resolves
    rw [← hr]
    cases r with
    | found path' => exact (format_exactly 100 path' _).mono Iff.rfl (fun _ _ h => h.2)
    | missing stored =>
        refine ((format_exactly 100 (stored.getD "") _).bind fun _ t ht => ?_).mono Iff.rfl
          (fun _ _ h => h)
        obtain ⟨-, rfl⟩ := ht
        exact (string_exactly path _).mono Iff.rfl (fun _ _ h => h.2)
  exact ((libc_exactly (L.realpath path) s).bind hbody).mono ⟨And.right, And.intro trivial⟩
    (fun _ _ h => h)

/-- The numeral has at most nine octal digits. -/
def OctalFits (n : BitVec 32) : Prop := n.toNat < 8 ^ 9

theorem octal_length_iff (n : BitVec 32) :
    (String.ofList (Nat.toDigits 8 n.toNat)).length < 10 ↔ OctalFits n := by
  rw [String.length_ofList, OctalFits, ← Nat.length_toDigits_le_iff (by decide) (by decide)]
  exact Nat.lt_succ_iff

theorem octal_exactly (n : BitVec 32) (s : St σ) :
    Exactly (octal n) s (OctalFits n) (fun _ t => t = s) :=
  (format_exactly 10 (String.ofList (Nat.toDigits 8 n.toNat)) s).mono (octal_length_iff n) (fun _ _ h => h.2)

/-- The state after a look at `/proc`. -/
def looked (L : Libc σ) (fd : Int) (s : St σ) : St σ :=
  { s with world := (L.readlink ("/proc/self/fd/" ++ toString fd) s.world).2 }

/-- The name that is logged for a descriptor. -/
def pathOf (L : Libc σ) (fd : Int) (s : St σ) : String :=
  String.ofList (((L.readlink ("/proc/self/fd/" ++ toString fd) s.world).1.getD "").toList.take 1023)

theorem fdPath_names (L : Libc σ) (fd : Int) (s : St σ) :
    Exactly (fdPath L fd) s True (fun path t => path = pathOf L fd s ∧ t = looked L fd s) :=
  exactly_ok rfl ⟨rfl, rfl⟩

theorem fdPath_exactly (L : Libc σ) (fd : Int) (s : St σ) :
    Exactly (fdPath L fd) s True (fun _ t => t = looked L fd s) :=
  (fdPath_names L fd s).mono Iff.rfl (fun _ _ h => h.2)

/-- The state once the log has left a descriptor. -/
def kept (L : Libc σ) (fd : Int) (s : St σ) : St σ :=
  if fd = s.stderrFd then
    { s with stderrFd := (L.dup s.stderrFd s.world).1, world := (L.dup s.stderrFd s.world).2 }
  else s

theorem keepLog_exactly (L : Libc σ) (fd : Int) (s : St σ) :
    Exactly (keepLog L fd) s True (fun _ t => t = kept L fd s) := by
  unfold kept
  by_cases hfd : fd = s.stderrFd
  · rw [if_pos hfd]
    refine exactly_ok (a := ()) ?_ rfl
    change (if fd = s.stderrFd then _ else _ : Hook σ Unit) s = _
    rw [if_pos hfd]
    rfl
  · rw [if_neg hfd]
    refine exactly_ok (a := ()) ?_ rfl
    change (if fd = s.stderrFd then _ else _ : Hook σ Unit) s = _
    rw [if_neg hfd]
    rfl

/-- The state after the real call. -/
def called {α : Type} (L : Libc σ) (ret : α → Ret) (f : σ → α × σ) (s : St σ) : St σ :=
  { s with
    world := (f s.world).2
    real := some (ret (f s.world).1, L.errno (f s.world).2) }

theorem orFunc_exactly {α : Type} (L : Libc σ) (ret : α → Ret) (f : σ → α × σ) (s : St σ) :
    Exactly (orFunc L ret f) s True (fun a t => a = (f s.world).1 ∧ t = called L ret f s) :=
  exactly_ok rfl ⟨rfl, rfl⟩

/-- The bytes are in both buffers. -/
def Copies (data : List Byte) (size : Int) : Prop := 0 ≤ size ∧ size ≤ 100 ∧ size ≤ data.length

/-- The text of a preview. -/
def previewed (data : List Byte) (size : Int) : String := String.ofList ((data.take size.toNat).map shown)

theorem preview_exactly (data : List Byte) (size : Int) (s : St σ) :
    Exactly (preview data size) s (Copies data size) (fun text t => text = previewed data size ∧ t = s) :=
  exactly_check _ Crash.badCopy s

/-! ## Printing -/

/-- The state after a text has been printed. -/
def printed (L : Libc σ) (s : St σ) (text : String) : St σ :=
  { s with
    world := (L.write s.stderrFd (bytesOf text) text.length s.world).2
    writes := (L.write s.stderrFd (bytesOf text) text.length s.world).1 :: s.writes }

theorem print_exactly (L : Libc σ) (text : String) (s : St σ) :
    Exactly (print L text) s True (fun _ t => t = printed L s text) := exactly_ok rfl rfl

/-- A pointer always fits its buffer. -/
theorem printPtr_exactly (L : Libc σ) (p : Ptr) (s : St σ) :
    Exactly (printPtr L p) s True (fun _ t => t = printed L s (ptrText p)) := by
  have hfits : (ptrText p).length < 20 := by
    unfold ptrText
    by_cases hp : p = 0
    · rw [if_pos hp]
      decide
    · have hlen : (Nat.toDigits 16 p.toNat).length ≤ 16 :=
        (Nat.length_toDigits_le_iff (by decide) (by decide)).mpr p.isLt
      rw [if_neg hp, String.length_append, String.length_ofList, String.length_ofList]
      change 2 + (Nat.toDigits 16 p.toNat).length < 20
      omega
  refine ((format_exactly 20 (ptrText p) s).bind fun a t ht => ?_).mono
    (show (ptrText p).length < 20 ∧ True ↔ True by simp [hfits]) (fun _ _ h => h)
  obtain ⟨rfl, rfl⟩ := ht
  exact print_exactly L _ _

/-- **A line of the log**, in the pieces that it is printed in: it names the function, and it ends. -/
structure Line (name : String) (texts : List String) : Prop where
  starts : ("[logger] " ++ name ++ "(").toList <+: texts.flatMap String.toList
  ends : ['\n'] <:+ texts.flatMap String.toList

/-- A function of the library has returned `a`; its line has been printed since. -/
def Prints {α : Type} (L : Libc σ) (name : String) (a : α) (s : St σ) (v : α) (t : St σ) : Prop :=
  v = a ∧ ∃ texts, Line name texts ∧ t = texts.foldl (printed L) s

theorem starts_append {p : List Char} {a b : String} (h : p <+: a.toList) : p <+: (a ++ b).toList := by
  rw [String.toList_append]
  exact h.trans (List.prefix_append _ _)

theorem ends_append {p : List Char} {a b : String} (h : p <:+ b.toList) : p <:+ (a ++ b).toList := by
  rw [String.toList_append]
  exact h.trans (List.suffix_append _ _)

theorem starts_name (name rest : String) :
    ("[logger] " ++ name ++ "(").toList <+: ("[logger] " ++ name ++ ("(" ++ rest)).toList := by
  rw [← String.append_assoc]
  exact starts_append List.prefix_rfl

theorem starts_quote (name : String) :
    ("[logger] " ++ name ++ "(").toList <+: ("[logger] " ++ name ++ "(\"").toList := starts_name name "\""

theorem starts_call (name : String) :
    ("[logger] " ++ name ++ "(").toList <+: ("[logger] " ++ name ++ "() = ").toList := starts_name name ") = "

/-- A function of the library has returned `a`; this line has been printed since, in one piece. -/
def Said {α : Type} (L : Libc σ) (line : String) (a : α) (s : St σ) (v : α) (t : St σ) : Prop :=
  v = a ∧ t = printed L s (line ++ "\n")

theorem says_exactly {α : Type} (line : String) (a : α) (s : St σ) :
    Exactly (do print L (line ++ "\n"); pure a) s True (Said L line a s) := by
  apply (print_exactly L (line ++ "\n") s).bind_total
  rintro _ _ rfl
  exact exactly_pure a _

theorem Said.prints {α : Type} {name line : String} {a v : α}
    (hstarts : ("[logger] " ++ name ++ "(").toList <+: line.toList) (h : Said L line a s v t) :
    Prints L name a s v t := by
  obtain ⟨hv, ht⟩ := h
  refine ⟨hv, [line ++ "\n"], ⟨?_, ?_⟩, ht⟩
  · rw [List.flatMap_singleton]
    exact starts_append hstarts
  · rw [List.flatMap_singleton]
    exact ends_append List.suffix_rfl

/-- A line in one piece. -/
theorem report_exactly {α : Type} {name text : String}
    (hstarts : ("[logger] " ++ name ++ "(").toList <+: text.toList) (a : α) (s : St σ) :
    Exactly (do print L (text ++ "\n"); pure a) s True (Prints L name a s) :=
  (says_exactly text a s).mono Iff.rfl (fun _ _ h => h.prints hstarts)

/-- A line with a pointer. -/
theorem reportPtr_exactly {name text : String}
    (hstarts : ("[logger] " ++ name ++ "(").toList <+: text.toList) (p : Ptr) (s : St σ) :
    Exactly (do print L text; printPtr L p; print L "\n"; pure p) s True (Prints L name p s) := by
  apply (print_exactly L text s).bind_total
  rintro _ _ rfl
  apply (printPtr_exactly L p _).bind_total
  rintro _ _ rfl
  apply (print_exactly L "\n" _).bind_total
  rintro _ _ rfl
  apply (exactly_pure p _).mono Iff.rfl
  rintro v _ ⟨hv, rfl⟩
  refine ⟨hv, [text, ptrText p, "\n"], ⟨?_, ?_⟩, rfl⟩
  · rw [List.flatMap_cons]
    exact hstarts.trans (List.prefix_append _ _)
  · rw [List.flatMap_cons, List.flatMap_cons, List.flatMap_singleton, ← List.append_assoc]
    exact List.suffix_append _ _

/-! ## The hooks -/

/-- The state after the name of a path has been resolved. -/
def named (L : Libc σ) (path : Option String) (s : St σ) : St σ := resolved L path (afterInit L s)

/-- The state after the descriptor of a stream and the path behind it have been looked up. -/
def streamed (L : Libc σ) (stream : Ptr) (s : St σ) : St σ :=
  looked L (L.fileno stream (afterInit L s).world).1
    { afterInit L s with world := (L.fileno stream (afterInit L s).world).2 }

/-- The state in which `close` calls the real function. -/
def closing (L : Libc σ) (fd : Int) (s : St σ) : St σ := looked L fd (kept L fd (afterInit L s))

/-- The state in which `fclose` calls the real function. -/
def fclosing (L : Libc σ) (stream : Ptr) (s : St σ) : St σ :=
  looked L (L.fileno stream (afterInit L s).world).1
    (kept L (L.fileno stream (afterInit L s).world).1
      { afterInit L s with world := (L.fileno stream (afterInit L s).world).2 })

theorem chmod_exactly (L : Libc σ) (path : Option String) (mode : Mode) (s : St σ) :
    Exactly (chmod L path mode) s
      (Inits L s ∧ Resolves L path (afterInit L s).world ∧ OctalFits mode)
      (Prints L "chmod" (L.chmod path mode (named L path s).world).1
        (called L .int (L.chmod path mode) (named L path s))) := by
  apply (initFd_exactly L s).bind
  rintro _ _ rfl
  apply (resolve_exactly L path _).bind
  rintro _ _ rfl
  apply (octal_exactly mode _).bind_last
  rintro _ _ rfl
  apply (orFunc_exactly L .int (L.chmod path mode) _).bind_total
  rintro _ _ ⟨rfl, rfl⟩
  refine report_exactly ?_ _ _
  repeat apply starts_append
  decide

theorem chown_exactly (L : Libc σ) (path : Option String) (owner group : BitVec 32) (s : St σ) :
    Exactly (chown L path owner group) s (Inits L s ∧ Resolves L path (afterInit L s).world)
      (Prints L "chown" (L.chown path owner group (named L path s).world).1
        (called L .int (L.chown path owner group) (named L path s))) := by
  apply (initFd_exactly L s).bind
  rintro _ _ rfl
  apply (resolve_exactly L path _).bind_last
  rintro _ _ rfl
  apply (orFunc_exactly L .int (L.chown path owner group) _).bind_total
  rintro _ _ ⟨rfl, rfl⟩
  refine report_exactly ?_ _ _
  repeat apply starts_append
  decide

theorem remove_exactly (L : Libc σ) (path : Option String) (s : St σ) :
    Exactly (remove L path) s (Inits L s ∧ Resolves L path (afterInit L s).world)
      (Prints L "remove" (L.remove path (named L path s).world).1
        (called L .int (L.remove path) (named L path s))) := by
  apply (initFd_exactly L s).bind
  rintro _ _ rfl
  apply (resolve_exactly L path _).bind_last
  rintro _ _ rfl
  apply (orFunc_exactly L .int (L.remove path) _).bind_total
  rintro _ _ ⟨rfl, rfl⟩
  refine report_exactly ?_ _ _
  repeat apply starts_append
  decide

theorem close_exactly (L : Libc σ) (fd : Int) (s : St σ) :
    Exactly (close L fd) s (Inits L s)
      (Prints L "close" (L.close fd (closing L fd s).world).1 (called L .int (L.close fd) (closing L fd s))) := by
  apply (initFd_exactly L s).bind_last
  rintro _ _ rfl
  apply (keepLog_exactly L fd _).bind_total
  rintro _ _ rfl
  apply (fdPath_exactly L fd _).bind_total
  rintro _ _ rfl
  apply (orFunc_exactly L .int (L.close fd) _).bind_total
  rintro _ _ ⟨rfl, rfl⟩
  refine report_exactly ?_ _ _
  repeat apply starts_append
  decide

theorem fclose_exactly (L : Libc σ) (stream : Ptr) (s : St σ) :
    Exactly (fclose L stream) s (Inits L s)
      (Prints L "fclose" (L.fclose stream (fclosing L stream s).world).1
        (called L .int (L.fclose stream) (fclosing L stream s))) := by
  apply (initFd_exactly L s).bind_last
  rintro _ _ rfl
  apply (libc_exactly (L.fileno stream) _).bind_total
  rintro _ _ ⟨rfl, rfl⟩
  apply (keepLog_exactly L _ _).bind_total
  rintro _ _ rfl
  apply (fdPath_exactly L _ _).bind_total
  rintro _ _ rfl
  apply (orFunc_exactly L .int (L.fclose stream) _).bind_total
  rintro _ _ ⟨rfl, rfl⟩
  refine report_exactly ?_ _ _
  repeat apply starts_append
  decide

/-- `creat` and `creat64` resolve the path when the real call is over, and the program sees the `errno`
    of that. -/
theorem creatAs_exactly (name : String)
    (real : Option String → Mode → σ → Int × σ) (path : Option String) (mode : Mode) (s : St σ) :
    Exactly (creatAs L name real path mode) s
      (Inits L s ∧ Resolves L path (called L .int (real path mode) (afterInit L s)).world ∧ OctalFits mode)
      (Prints L name (real path mode (afterInit L s).world).1
        (resolved L path (called L .int (real path mode) (afterInit L s)))) := by
  apply (initFd_exactly L s).bind
  rintro _ _ rfl
  apply (orFunc_exactly L .int (real path mode) _).bind_total
  rintro _ _ ⟨rfl, rfl⟩
  apply (resolve_exactly L path _).bind
  rintro _ _ rfl
  apply (octal_exactly mode _).bind_last
  rintro _ _ rfl
  refine report_exactly ?_ _ _
  iterate 5 apply starts_append
  exact starts_quote name

theorem fopenAs_exactly (name : String)
    (real : Option String → Option String → σ → Ptr × σ) (path mode : Option String) (s : St σ) :
    Exactly (fopenAs L name real path mode) s
      (Inits L s ∧ Resolves L path (afterInit L s).world ∧ mode.isSome = true)
      (Prints L name (real path mode (named L path s).world).1
        (called L .ptr (real path mode) (named L path s))) := by
  apply (initFd_exactly L s).bind
  rintro _ _ rfl
  apply (resolve_exactly L path _).bind
  rintro _ _ rfl
  apply (string_exactly mode _).bind_last
  rintro _ _ ⟨rfl, rfl⟩
  apply (orFunc_exactly L .ptr (real path mode) _).bind_total
  rintro _ _ ⟨rfl, rfl⟩
  refine reportPtr_exactly ?_ _ _
  iterate 4 apply starts_append
  exact starts_quote name

theorem tmpfileAs_exactly (name : String) (real : σ → Ptr × σ) (s : St σ) :
    Exactly (tmpfileAs L name real) s (Inits L s)
      (Prints L name (real (afterInit L s).world).1 (called L .ptr real (afterInit L s))) := by
  apply (initFd_exactly L s).bind_last
  rintro _ _ rfl
  apply (orFunc_exactly L .ptr real _).bind_total
  rintro _ _ ⟨rfl, rfl⟩
  refine reportPtr_exactly ?_ _ _
  exact starts_call name

/-- The mode that `open` passes on. -/
def openMode (flags : BitVec 32) (mode : Mode) : Option Mode := if needsMode flags then some mode else none

theorem openAs_exactly (name : String)
    (real : Option String → BitVec 32 → Option Mode → σ → Int × σ) (path : Option String)
    (flags : BitVec 32) (mode : Mode) (s : St σ) :
    Exactly (openAs L name real path flags mode) s
      (Inits L s ∧ Resolves L path (afterInit L s).world ∧ OctalFits flags ∧
        (needsMode flags = true → OctalFits mode))
      (Prints L name (real path flags (openMode flags mode) (named L path s).world).1
        (called L .int (real path flags (openMode flags mode)) (named L path s))) := by
  apply (initFd_exactly L s).bind
  rintro _ _ rfl
  apply (resolve_exactly L path _).bind
  rintro _ _ rfl
  apply (octal_exactly flags _).bind
  rintro _ _ rfl
  unfold openMode
  by_cases hmode : needsMode flags = true
  · simp only [hmode, if_true, forall_true_left]
    apply (octal_exactly mode _).bind_last
    rintro _ _ rfl
    apply (orFunc_exactly L .int (real path flags (some mode)) _).bind_total
    rintro _ _ ⟨rfl, rfl⟩
    refine report_exactly ?_ _ _
    iterate 7 apply starts_append
    exact starts_quote name
  · simp only [hmode]
    have hzero : OctalFits 0 := by
      unfold OctalFits
      decide
    apply (orFunc_exactly L .int (real path flags none) _).bind_total
    rintro _ _ ⟨rfl, rfl⟩
    apply ((octal_exactly 0 _).mono ⟨fun _ h => (Bool.false_ne_true h).elim, fun _ => hzero⟩ fun _ _ h => h).bind_last
    rintro _ _ rfl
    refine report_exactly ?_ _ _
    iterate 7 apply starts_append
    exact starts_quote name

/-- `rename` resolves the new name when the real call is over. -/
theorem rename_exactly (L : Libc σ) (old new : Option String) (s : St σ) :
    Exactly (rename L old new) s
      (Inits L s ∧ Resolves L old (afterInit L s).world ∧
        Resolves L new (called L .int (L.rename old new) (named L old s)).world)
      (Prints L "rename" (L.rename old new (named L old s).world).1
        (resolved L new (called L .int (L.rename old new) (named L old s)))) := by
  apply (initFd_exactly L s).bind
  rintro _ _ rfl
  apply (resolve_exactly L old _).bind
  rintro _ _ rfl
  apply (orFunc_exactly L .int (L.rename old new) _).bind_total
  rintro _ _ ⟨rfl, rfl⟩
  apply (resolve_exactly L new _).bind_last
  rintro _ _ rfl
  refine report_exactly ?_ _ _
  repeat apply starts_append
  decide

/-- The number that `read` returns. -/
def readRet (r : Option (List Byte)) : Int := (r.map fun data => (data.length : Int)).getD (-1)

/-- The preview of `read` copies what was read; after a failure it copies `-1` bytes. -/
theorem copies_read (r : Option (List Byte)) :
    Copies (r.getD []) (if readRet r < 32 then readRet r else 32) ↔ r.isSome = true := by
  unfold Copies readRet
  cases r with
  | none => simp
  | some data =>
      simp only [Option.map_some, Option.getD_some, Option.isSome_some, iff_true]
      split
      · omega
      · omega

/-- The line of `read`, up to its end. -/
def readLine (path text : String) (count : Nat) (ret : Int) : String :=
  "[logger] read(\"" ++ path ++ "\", \"" ++ text ++ "\", " ++ toString count ++ ") = " ++ toString ret

theorem read_said (L : Libc σ) (fd : Int) (count : Nat) (s : St σ) :
    let r := (L.read fd count (looked L fd (afterInit L s)).world).1
    Exactly (read L fd count) s (Inits L s ∧ r.isSome = true)
      (Said L (readLine (pathOf L fd (afterInit L s))
          (previewed (r.getD []) (if readRet r < 32 then readRet r else 32)) count (readRet r)) (readRet r)
        (called L (fun r => .int (readRet r)) (L.read fd count) (looked L fd (afterInit L s)))) := by
  intro r
  apply (initFd_exactly L s).bind
  rintro _ _ rfl
  apply (fdPath_names L fd _).bind_total
  rintro _ _ ⟨rfl, rfl⟩
  apply (orFunc_exactly L (fun r => .int (readRet r)) (L.read fd count) _).bind_total
  rintro _ _ ⟨rfl, rfl⟩
  apply ((preview_exactly _ _ _).mono (copies_read _) fun _ _ h => h).bind_last
  rintro _ _ ⟨rfl, rfl⟩
  exact says_exactly _ _ _

theorem read_exactly (L : Libc σ) (fd : Int) (count : Nat) (s : St σ) :
    Exactly (read L fd count) s
      (Inits L s ∧ (L.read fd count (looked L fd (afterInit L s)).world).1.isSome = true)
      (Prints L "read" (readRet (L.read fd count (looked L fd (afterInit L s)).world).1)
        (called L (fun r => .int (readRet r)) (L.read fd count) (looked L fd (afterInit L s)))) := by
  refine (read_said L fd count s).mono Iff.rfl (fun _ _ h => h.prints ?_)
  repeat apply starts_append
  decide

/-- The bytes of whole items are among those that were transferred. -/
theorem copies_items {data : List Byte} {count size : Nat} (h : count * size ≤ data.length) :
    Copies data (itemBytes count size) := by
  have hmod : count * size % 2 ^ 64 ≤ count * size := Nat.mod_le _ _
  unfold Copies itemBytes
  split
  · omega
  · omega

/-- The line of `fread` and of `fwrite`, which begin with their names, up to its end. -/
def itemsLine (call text : String) (size nmemb : Nat) (path : String) (ret : Nat) : String :=
  call ++ text ++ "\", " ++ toString size ++ ", " ++ toString nmemb ++ ", \"" ++ path ++ "\") = " ++ toString ret

/-- The state after the descriptor of a stream has been looked up. -/
def opened (L : Libc σ) (stream : Ptr) (s : St σ) : St σ :=
  { afterInit L s with world := (L.fileno stream (afterInit L s).world).2 }

/-- The name that is logged for a stream. -/
def streamPath (L : Libc σ) (stream : Ptr) (s : St σ) : String :=
  pathOf L (L.fileno stream (afterInit L s).world).1 (opened L stream s)

theorem fread_said (L : Libc σ) (size nmemb : Nat) (stream : Ptr) (s : St σ) :
    let items := (L.fread size nmemb stream (streamed L stream s).world).1
    Exactly (fread L size nmemb stream) s (Inits L s)
      (Said L (itemsLine "[logger] fread(\"" (previewed items.data (itemBytes items.count size)) size nmemb
          (streamPath L stream s) items.count) items.count
        (called L (fun r => .size r.count) (L.fread size nmemb stream) (streamed L stream s))) := by
  intro items
  apply (initFd_exactly L s).bind_last
  rintro _ _ rfl
  apply (libc_exactly (L.fileno stream) _).bind_total
  rintro _ _ ⟨rfl, rfl⟩
  apply (fdPath_names L _ _).bind_total
  rintro _ _ ⟨rfl, rfl⟩
  apply (orFunc_exactly L (fun r => .size r.count) (L.fread size nmemb stream) _).bind_total
  rintro _ _ ⟨rfl, rfl⟩
  apply ((preview_exactly _ _ _).mono
    ⟨fun _ => trivial, fun _ => copies_items (Items.full _)⟩ fun _ _ h => h).bind_total
  rintro _ _ ⟨rfl, rfl⟩
  exact says_exactly _ _ _

theorem fread_exactly (L : Libc σ) (size nmemb : Nat) (stream : Ptr) (s : St σ) :
    Exactly (fread L size nmemb stream) s (Inits L s)
      (Prints L "fread" (L.fread size nmemb stream (streamed L stream s).world).1.count
        (called L (fun r => .size r.count) (L.fread size nmemb stream) (streamed L stream s))) := by
  refine (fread_said L size nmemb stream s).mono Iff.rfl (fun _ _ h => h.prints ?_)
  repeat apply starts_append
  decide

theorem fwrite_said (L : Libc σ) {data : List Byte} {size nmemb : Nat} (stream : Ptr)
    (hfull : nmemb * size ≤ data.length) (s : St σ) :
    let ret := (L.fwrite data size nmemb stream (streamed L stream s).world).1.val
    Exactly (fwrite L data size nmemb stream) s (Inits L s)
      (Said L (itemsLine "[logger] fwrite(\"" (previewed data (itemBytes ret size)) size nmemb
          (streamPath L stream s) ret) ret
        (called L (fun r => .size r.val) (L.fwrite data size nmemb stream) (streamed L stream s))) := by
  intro ret
  apply (initFd_exactly L s).bind_last
  rintro _ _ rfl
  apply (libc_exactly (L.fileno stream) _).bind_total
  rintro _ _ ⟨rfl, rfl⟩
  apply (fdPath_names L _ _).bind_total
  rintro _ _ ⟨rfl, rfl⟩
  apply (orFunc_exactly L (fun r => .size r.val) (L.fwrite data size nmemb stream) _).bind_total
  rintro _ _ ⟨rfl, rfl⟩
  have hitems : ∀ ret : Fin (nmemb + 1), ret.val * size ≤ data.length := fun ret =>
    Nat.le_trans (Nat.mul_le_mul_right size (Nat.le_of_lt_succ ret.isLt)) hfull
  apply ((preview_exactly _ _ _).mono
    ⟨fun _ => trivial, fun _ => copies_items (hitems _)⟩ fun _ _ h => h).bind_total
  rintro _ _ ⟨rfl, rfl⟩
  exact says_exactly _ _ _

theorem fwrite_exactly (L : Libc σ) {data : List Byte} {size nmemb : Nat} (stream : Ptr)
    (hfull : nmemb * size ≤ data.length) (s : St σ) :
    Exactly (fwrite L data size nmemb stream) s (Inits L s)
      (Prints L "fwrite" (L.fwrite data size nmemb stream (streamed L stream s).world).1.val
        (called L (fun r => .size r.val) (L.fwrite data size nmemb stream) (streamed L stream s))) := by
  refine (fwrite_said L stream hfull s).mono Iff.rfl (fun _ _ h => h.prints ?_)
  repeat apply starts_append
  decide

/-- The first 32 bytes that `write` is asked to write can be read, whatever the real call made of them. -/
def Readable (data : List Byte) (count : Nat) : Prop := min 32 count ≤ data.length

theorem copies_write (data : List Byte) (count : Nat) :
    Copies data ((if count < 32 then count else 32 : Nat) : Int) ↔ Readable data count := by
  unfold Copies Readable
  split
  · omega
  · omega

/-- The line of `write`, up to its end. -/
def writeLine (path text : String) (count : Nat) (ret : Int) : String :=
  "[logger] write(\"" ++ path ++ "\", \"" ++ text ++ "\", " ++ toString count ++ ") = " ++ toString ret

theorem write_said (L : Libc σ) (fd : Int) (data : List Byte) (count : Nat) (s : St σ) :
    let ret := (L.write fd data count (looked L fd (afterInit L s)).world).1
    Exactly (write L fd data count) s (Inits L s ∧ Readable data count)
      (Said L (writeLine (pathOf L fd (afterInit L s))
          (previewed data (if count < 32 then count else 32 : Nat)) count ret) ret
        (called L .int (L.write fd data count) (looked L fd (afterInit L s)))) := by
  intro ret
  apply (initFd_exactly L s).bind
  rintro _ _ rfl
  apply (fdPath_names L fd _).bind_total
  rintro _ _ ⟨rfl, rfl⟩
  apply (orFunc_exactly L .int (L.write fd data count) _).bind_total
  rintro _ _ ⟨rfl, rfl⟩
  apply ((preview_exactly _ _ _).mono (copies_write data count) fun _ _ h => h).bind_last
  rintro _ _ ⟨rfl, rfl⟩
  exact says_exactly _ _ _

theorem write_exactly (L : Libc σ) (fd : Int) (data : List Byte) (count : Nat) (s : St σ) :
    Exactly (write L fd data count) s (Inits L s ∧ Readable data count)
      (Prints L "write" (L.write fd data count (looked L fd (afterInit L s)).world).1
        (called L .int (L.write fd data count) (looked L fd (afterInit L s)))) := by
  refine (write_said L fd data count s).mono Iff.rfl (fun _ _ h => h.prints ?_)
  repeat apply starts_append
  decide

/-! ## Calls -/

def Call.name : Call → String
  | .chmod _ _ => "chmod"
  | .chown _ _ _ => "chown"
  | .close _ => "close"
  | .creat _ _ => "creat"
  | .creat64 _ _ => "creat64"
  | .fclose _ => "fclose"
  | .fopen _ _ => "fopen"
  | .fopen64 _ _ => "fopen64"
  | .fread _ _ _ => "fread"
  | .fwrite _ _ _ _ _ => "fwrite"
  | .openFile _ _ _ => "open"
  | .open64 _ _ _ => "open64"
  | .read _ _ => "read"
  | .remove _ => "remove"
  | .rename _ _ => "rename"
  | .tmpfile => "tmpfile"
  | .tmpfile64 => "tmpfile64"
  | .write _ _ _ => "write"

/-- The state in which a call begins to print its line. -/
def Call.before (L : Libc σ) (s : St σ) : Call → St σ
  | .chmod path mode => called L .int (L.chmod path mode) (named L path s)
  | .chown path owner group => called L .int (L.chown path owner group) (named L path s)
  | .close fd => called L .int (L.close fd) (closing L fd s)
  | .creat path mode => resolved L path (called L .int (L.creat path mode) (afterInit L s))
  | .creat64 path mode => resolved L path (called L .int (L.creat64 path mode) (afterInit L s))
  | .fclose stream => called L .int (L.fclose stream) (fclosing L stream s)
  | .fopen path mode => called L .ptr (L.fopen path mode) (named L path s)
  | .fopen64 path mode => called L .ptr (L.fopen64 path mode) (named L path s)
  | .fread size nmemb stream => called L (fun r => .size r.count) (L.fread size nmemb stream) (streamed L stream s)
  | .fwrite data size nmemb stream _ =>
      called L (fun r => .size r.val) (L.fwrite data size nmemb stream) (streamed L stream s)
  | .openFile path flags mode =>
      called L .int (L.openFile path flags (openMode flags mode)) (named L path s)
  | .open64 path flags mode => called L .int (L.open64 path flags (openMode flags mode)) (named L path s)
  | .read fd count => called L (fun r => .int (readRet r)) (L.read fd count) (looked L fd (afterInit L s))
  | .remove path => called L .int (L.remove path) (named L path s)
  | .rename old new => resolved L new (called L .int (L.rename old new) (named L old s))
  | .tmpfile => called L .ptr L.tmpfile (afterInit L s)
  | .tmpfile64 => called L .ptr L.tmpfile64 (afterInit L s)
  | .write fd data count => called L .int (L.write fd data count) (looked L fd (afterInit L s))

/-- **When a call comes back**: what its hook asks for in the state in which the call is made. -/
def Returns (L : Libc σ) (s : St σ) : Call → Prop
  | .chmod path mode => Inits L s ∧ Resolves L path (afterInit L s).world ∧ OctalFits mode
  | .chown path _ _ => Inits L s ∧ Resolves L path (afterInit L s).world
  | .close _ => Inits L s
  | .creat path mode => Inits L s ∧ Resolves L path (L.creat path mode (afterInit L s).world).2 ∧ OctalFits mode
  | .creat64 path mode =>
      Inits L s ∧ Resolves L path (L.creat64 path mode (afterInit L s).world).2 ∧ OctalFits mode
  | .fclose _ => Inits L s
  | .fopen path mode => Inits L s ∧ Resolves L path (afterInit L s).world ∧ mode.isSome = true
  | .fopen64 path mode => Inits L s ∧ Resolves L path (afterInit L s).world ∧ mode.isSome = true
  | .fread _ _ _ => Inits L s
  | .fwrite _ _ _ _ _ => Inits L s
  | .openFile path flags mode => Inits L s ∧ Resolves L path (afterInit L s).world ∧ OctalFits flags ∧
      (needsMode flags = true → OctalFits mode)
  | .open64 path flags mode => Inits L s ∧ Resolves L path (afterInit L s).world ∧ OctalFits flags ∧
      (needsMode flags = true → OctalFits mode)
  | .read fd count => Inits L s ∧ (L.read fd count (looked L fd (afterInit L s)).world).1.isSome = true
  | .remove path => Inits L s ∧ Resolves L path (afterInit L s).world
  | .rename old new => Inits L s ∧ Resolves L old (afterInit L s).world ∧
      Resolves L new (L.rename old new (named L old s).world).2
  | .tmpfile => Inits L s
  | .tmpfile64 => Inits L s
  | .write _ data count => Inits L s ∧ Readable data count

/-- A call ends with its line. -/
def Ends (L : Libc σ) (s : St σ) (c : Call) (t : St σ) : Prop :=
  ∃ texts, Line c.name texts ∧ t = texts.foldl (printed L) (c.before L s)

/-- What a call does, from what its hook does. -/
theorem Prints.call {α : Type} {m : Hook σ α} {ret : α → Ret} {C : Prop} {a : α} {c : Call}
    (hcall : c.run L = ret <$> m) (hm : Exactly m s C (Prints L c.name a (c.before L s))) :
    Exactly (c.run L) s C (fun _ t => Ends L s c t) := by
  rw [hcall]
  refine hm.map.mono Iff.rfl ?_
  rintro _ t ⟨b, -, -, hends⟩
  exact hends

/-- **Every call** comes back with its line exactly when its condition holds. -/
theorem Call.exactly (L : Libc σ) (s : St σ) (c : Call) :
    Exactly (c.run L) s (Returns L s c) (fun _ t => Ends L s c t) := by
  cases c with
  | chmod path mode => exact Prints.call rfl (chmod_exactly L path mode s)
  | chown path owner group => exact Prints.call rfl (chown_exactly L path owner group s)
  | close fd => exact Prints.call rfl (close_exactly L fd s)
  | creat path mode => exact Prints.call rfl (creatAs_exactly "creat" L.creat path mode s)
  | creat64 path mode => exact Prints.call rfl (creatAs_exactly "creat64" L.creat64 path mode s)
  | fclose stream => exact Prints.call rfl (fclose_exactly L stream s)
  | fopen path mode => exact Prints.call rfl (fopenAs_exactly "fopen" L.fopen path mode s)
  | fopen64 path mode => exact Prints.call rfl (fopenAs_exactly "fopen64" L.fopen64 path mode s)
  | fread size nmemb stream => exact Prints.call rfl (fread_exactly L size nmemb stream s)
  | fwrite data size nmemb stream full => exact Prints.call rfl (fwrite_exactly L stream full s)
  | openFile path flags mode => exact Prints.call rfl (openAs_exactly "open" L.openFile path flags mode s)
  | open64 path flags mode => exact Prints.call rfl (openAs_exactly "open64" L.open64 path flags mode s)
  | read fd count => exact Prints.call rfl (read_exactly L fd count s)
  | remove path => exact Prints.call rfl (remove_exactly L path s)
  | rename old new => exact Prints.call rfl (rename_exactly L old new s)
  | tmpfile => exact Prints.call rfl (tmpfileAs_exactly "tmpfile" L.tmpfile s)
  | tmpfile64 => exact Prints.call rfl (tmpfileAs_exactly "tmpfile64" L.tmpfile64 s)
  | write fd data count => exact Prints.call rfl (write_exactly L fd data count s)

end AdvUnix.Logger
