import AdvUnix.Lib.Descriptors
import AdvUnix.Logger.Triples

/-!
# `Logger.Descriptors` — the log survives

The program may close the descriptor that the log has, as often as it likes: `close` and `fclose` move the log
to another one before. The library is seen through the process's table of descriptors and the record of what
`write` has been asked to write, and where; the line of a call is in that record under the log exactly when its
hook comes back (`log_survives`). After a failure of the real function the hook of `read` does not.
-/

namespace AdvUnix.Logger

open Descriptors

variable {σ δ : Type}

/-! ## The library -/

/-- **What can be seen of a process**: its descriptors, the descriptor of each stream, and the calls of `write`,
    the last one first, each with the description behind the descriptor it was given. -/
structure Process (σ δ : Type) where
  table : σ → Table δ
  fileno : Ptr → σ → Int
  asked : σ → List (Option δ × List Byte)

/-- A function that has nothing to do with descriptors. -/
def Keeps {α : Type} (P : Process σ δ) (f : σ → α × σ) : Prop :=
  ∀ w, P.table (f w).2 = P.table w ∧ P.asked (f w).2 = P.asked w ∧ ∀ p, P.fileno p (f w).2 = P.fileno p w

/-- A function that opens a file, or fails. -/
def Opens {α : Type} (P : Process σ δ) (f : σ → α × σ) : Prop :=
  ∀ w, P.asked (f w).2 = P.asked w ∧
    (P.table (f w).2 = P.table w ∨ ∃ d, P.table (f w).2 = (alloc d (P.table w)).2)

/-- **The functions of the library, by what they do to descriptors**, in a process whose table is never full. -/
structure Libc.Describes (L : Libc σ) (P : Process σ δ) : Prop where
  realpath : ∀ path, Keeps P (L.realpath path)
  readlink : ∀ path, Keeps P (L.readlink path)
  fileno : ∀ p, Keeps P (L.fileno p)
  fileno_eq : ∀ p w, (L.fileno p w).1 = P.fileno p w
  dup : ∀ fd w d, get (P.table w) fd = some d →
    (L.dup fd w).1 = (alloc d (P.table w)).1 ∧ P.table (L.dup fd w).2 = (alloc d (P.table w)).2 ∧
      P.asked (L.dup fd w).2 = P.asked w ∧ ∀ p, P.fileno p (L.dup fd w).2 = P.fileno p w
  chmod : ∀ path mode, Keeps P (L.chmod path mode)
  chown : ∀ path owner group, Keeps P (L.chown path owner group)
  close : ∀ fd w, P.table (L.close fd w).2 = free fd (P.table w) ∧ P.asked (L.close fd w).2 = P.asked w
  creat : ∀ path mode, Opens P (L.creat path mode)
  creat64 : ∀ path mode, Opens P (L.creat64 path mode)
  fclose : ∀ p w, P.table (L.fclose p w).2 = free (P.fileno p w) (P.table w) ∧
    P.asked (L.fclose p w).2 = P.asked w
  fopen : ∀ path mode, Opens P (L.fopen path mode)
  fopen64 : ∀ path mode, Opens P (L.fopen64 path mode)
  fread : ∀ size nmemb p, Keeps P (L.fread size nmemb p)
  fwrite : ∀ data size nmemb p, Keeps P (L.fwrite data size nmemb p)
  openFile : ∀ path flags mode, Opens P (L.openFile path flags mode)
  open64 : ∀ path flags mode, Opens P (L.open64 path flags mode)
  read : ∀ fd count, Keeps P (L.read fd count)
  remove : ∀ path, Keeps P (L.remove path)
  rename : ∀ old new, Keeps P (L.rename old new)
  tmpfile : Opens P L.tmpfile
  tmpfile64 : Opens P L.tmpfile64
  write : ∀ fd data count w, P.table (L.write fd data count w).2 = P.table w ∧
    P.asked (L.write fd data count w).2 = (get (P.table w) fd, data.take count) :: P.asked w

variable {L : Libc σ} {P : Process σ δ} {log : δ} {s t u s₀ : St σ} {c : Call} {v : Ret}

/-! ## The parts of a hook -/

/-- **The log is open**: it is the description behind `stderr_fd`. -/
structure LogOpen (P : Process σ δ) (log : δ) (s : St σ) : Prop where
  flag : s.fdFlag = true
  descriptor : get (P.table s.world) s.stderrFd = some log

/-- From `s` to `t` the log stays open, and `write` is not called. -/
def Quiet (P : Process σ δ) (log : δ) (s t : St σ) : Prop :=
  LogOpen P log s → LogOpen P log t ∧ P.asked t.world = P.asked s.world

theorem Quiet.trans (h : Quiet P log s t) (h' : Quiet P log t u) : Quiet P log s u := by
  intro hopen
  obtain ⟨hopen', hasked⟩ := h hopen
  obtain ⟨hopen'', hasked'⟩ := h' hopen'
  exact ⟨hopen'', hasked'.trans hasked⟩

theorem Keeps.quiet {α : Type} {f : σ → α × σ} (hf : Keeps P f) (s : St σ) :
    Quiet P log s { s with world := (f s.world).2 } := by
  intro hopen
  obtain ⟨htable, hasked, -⟩ := hf s.world
  refine ⟨⟨hopen.flag, ?_⟩, hasked⟩
  rw [htable]
  exact hopen.descriptor

theorem Keeps.called {α : Type} {f : σ → α × σ} (hf : Keeps P f) (ret : α → Ret) (s : St σ) :
    Quiet P log s (called L ret f s) := by
  intro hopen
  obtain ⟨hopen', hasked⟩ := hf.quiet s hopen
  exact ⟨⟨hopen'.flag, hopen'.descriptor⟩, hasked⟩

/-- A new descriptor is not the one of the log. -/
theorem Opens.called {α : Type} {f : σ → α × σ} (hf : Opens P f) (ret : α → Ret) (s : St σ) :
    Quiet P log s (called L ret f s) := by
  intro hopen
  obtain ⟨hasked, htable⟩ := hf s.world
  refine ⟨⟨hopen.flag, ?_⟩, hasked⟩
  change get (P.table (f s.world).2) s.stderrFd = some log
  rcases htable with htable | ⟨d, htable⟩
  · rw [htable]
    exact hopen.descriptor
  · rw [htable]
    exact get_alloc_of_some hopen.descriptor d

theorem quiet_resolved (hL : L.Describes P) (path : Option String) (s : St σ) :
    Quiet P log s (resolved L path s) := (hL.realpath path).quiet s

theorem quiet_looked (hL : L.Describes P) (fd : Int) (s : St σ) : Quiet P log s (looked L fd s) :=
  (hL.readlink _).quiet s

/-- **The log moves** to a descriptor that is not the one about to be closed. -/
theorem kept_moves (hL : L.Describes P) (fd : Int) (hopen : LogOpen P log s) :
    LogOpen P log (kept L fd s) ∧ P.asked (kept L fd s).world = P.asked s.world ∧
      (kept L fd s).stderrFd ≠ fd ∧ ∀ p, P.fileno p (kept L fd s).world = P.fileno p s.world := by
  unfold kept
  by_cases hfd : fd = s.stderrFd
  · obtain ⟨hnew, htable, hasked, hfileno⟩ := hL.dup s.stderrFd s.world log hopen.descriptor
    rw [if_pos hfd]
    refine ⟨⟨hopen.flag, ?_⟩, hasked, ?_, hfileno⟩
    · change get (P.table (L.dup s.stderrFd s.world).2) (L.dup s.stderrFd s.world).1 = some log
      rw [hnew, htable]
      exact get_alloc log _
    · -- the old number is in use, and the new one was free
      change (L.dup s.stderrFd s.world).1 ≠ fd
      rw [hnew, hfd]
      intro heq
      have hbusy := hopen.descriptor
      rw [← heq, get_alloc_before] at hbusy
      cases hbusy
  · rw [if_neg hfd]
    exact ⟨hopen, rfl, fun heq => hfd heq.symm, fun _ => rfl⟩

/-- **A descriptor is closed** once the log has left it. -/
theorem closed_survives (hL : L.Describes P) {f : σ → Int × σ} {fd : Int} {w : σ}
    (hw : w = (looked L fd (kept L fd s)).world) (htable : P.table (f w).2 = free fd (P.table w))
    (hasked : P.asked (f w).2 = P.asked w) :
    Quiet P log s (called L .int f (looked L fd (kept L fd s))) := by
  intro hopen
  subst hw
  obtain ⟨hkept, hkeptAsked, hmoved, -⟩ := kept_moves hL fd hopen
  obtain ⟨hlooked, hlookedAsked⟩ := quiet_looked hL fd (kept L fd s) hkept
  refine ⟨⟨hlooked.flag, ?_⟩, (hasked.trans hlookedAsked).trans hkeptAsked⟩
  change get (P.table (f (looked L fd (kept L fd s)).world).2) (kept L fd s).stderrFd = some log
  rw [htable, get_free hmoved]
  exact hlooked.descriptor

theorem quiet_close (hL : L.Describes P) (fd : Int) (s : St σ) :
    Quiet P log s (called L .int (L.close fd) (looked L fd (kept L fd s))) := by
  obtain ⟨htable, hasked⟩ := hL.close fd (looked L fd (kept L fd s)).world
  exact closed_survives hL rfl htable hasked

/-- The stream that is closed still has the descriptor that was asked for. -/
theorem quiet_fclose (hL : L.Describes P) (p : Ptr) (s : St σ) :
    Quiet P log s (called L .int (L.fclose p)
      (looked L (L.fileno p s.world).1
        (kept L (L.fileno p s.world).1 { s with world := (L.fileno p s.world).2 }))) := by
  intro hopen
  have hasking : Quiet P log s { s with world := (L.fileno p s.world).2 } := (hL.fileno p).quiet s
  obtain ⟨hopen', -⟩ := hasking hopen
  obtain ⟨-, -, -, hfileno⟩ := kept_moves hL (L.fileno p s.world).1 hopen'
  have hsame : P.fileno p (looked L (L.fileno p s.world).1
      (kept L (L.fileno p s.world).1 { s with world := (L.fileno p s.world).2 })).world
      = (L.fileno p s.world).1 := by
    refine ((hL.readlink _ _).2.2 p).trans ?_
    rw [hfileno, (hL.fileno p s.world).2.2, hL.fileno_eq]
  obtain ⟨htable, hasked⟩ := hL.fclose p (looked L (L.fileno p s.world).1
    (kept L (L.fileno p s.world).1 { s with world := (L.fileno p s.world).2 })).world
  rw [hsame] at htable
  exact (hasking.trans (closed_survives hL rfl htable hasked)) hopen

/-! ## A call -/

/-- What a call asks `write` for on its own account. -/
def own (P : Process σ δ) (s : St σ) : Call → List (Option δ × List Byte)
  | .write fd data count => [(get (P.table s.world) fd, data.take count)]
  | _ => []

theorem Quiet.before (h : Quiet P log (afterInit L s) (c.before L s)) (hnone : own P (afterInit L s) c = [])
    (hopen : LogOpen P log (afterInit L s)) :
    LogOpen P log (c.before L s) ∧
      P.asked (c.before L s).world = own P (afterInit L s) c ++ P.asked (afterInit L s).world := by
  rw [hnone]
  exact h hopen

/-- **A call keeps the log open** until it prints, and asks `write` for nothing else. -/
theorem before_survives (hL : L.Describes P) (hopen : LogOpen P log (afterInit L s)) (c : Call) :
    LogOpen P log (c.before L s) ∧
      P.asked (c.before L s).world = own P (afterInit L s) c ++ P.asked (afterInit L s).world := by
  have hname : ∀ path, Quiet P log (afterInit L s) (named L path s) := fun path => quiet_resolved hL path _
  have hstream : ∀ p, Quiet P log (afterInit L s) (streamed L p s) := fun p =>
    ((hL.fileno p).quiet _).trans (quiet_looked hL _ _)
  cases c with
  | chmod path mode => exact ((hname path).trans ((hL.chmod path mode).called _ _)).before rfl hopen
  | chown path owner group => exact ((hname path).trans ((hL.chown path owner group).called _ _)).before rfl hopen
  | close fd => exact (quiet_close hL fd _).before rfl hopen
  | creat path mode => exact (((hL.creat path mode).called _ _).trans (quiet_resolved hL path _)).before rfl hopen
  | creat64 path mode =>
      exact (((hL.creat64 path mode).called _ _).trans (quiet_resolved hL path _)).before rfl hopen
  | fclose p => exact (quiet_fclose hL p _).before rfl hopen
  | fopen path mode => exact ((hname path).trans ((hL.fopen path mode).called _ _)).before rfl hopen
  | fopen64 path mode => exact ((hname path).trans ((hL.fopen64 path mode).called _ _)).before rfl hopen
  | fread size nmemb p =>
      exact ((hstream p).trans ((hL.fread size nmemb p).called (fun r => .size r.count) _)).before rfl hopen
  | fwrite data size nmemb p full =>
      exact ((hstream p).trans ((hL.fwrite data size nmemb p).called (fun r => .size r.val) _)).before rfl hopen
  | openFile path flags mode => exact ((hname path).trans ((hL.openFile path flags _).called _ _)).before rfl hopen
  | open64 path flags mode => exact ((hname path).trans ((hL.open64 path flags _).called _ _)).before rfl hopen
  | read fd count =>
      exact ((quiet_looked hL fd _).trans ((hL.read fd count).called (fun r => .int (readRet r)) _)).before rfl hopen
  | remove path => exact ((hname path).trans ((hL.remove path).called _ _)).before rfl hopen
  | rename old new =>
      exact (((hname old).trans ((hL.rename old new).called _ _)).trans (quiet_resolved hL new _)).before rfl hopen
  | tmpfile => exact (hL.tmpfile.called _ _).before rfl hopen
  | tmpfile64 => exact (hL.tmpfile64.called _ _).before rfl hopen
  | write fd data count =>
      -- the program's own write is the one call that the record shows besides the line
      obtain ⟨hlooked, hasked⟩ := quiet_looked hL fd _ hopen
      obtain ⟨htable, hwrite⟩ := hL.write fd data count (looked L fd (afterInit L s)).world
      refine ⟨⟨hlooked.flag, ?_⟩, ?_⟩
      · change get (P.table (L.write fd data count _).2) _ = some log
        rw [htable]
        exact hlooked.descriptor
      · change P.asked (L.write fd data count _).2 = _
        rw [hwrite, hasked]
        have hsame : P.table (looked L fd (afterInit L s)).world = P.table (afterInit L s).world :=
          (hL.readlink _ _).1
        rw [hsame]
        rfl

theorem bytesOf_take (text : String) : (bytesOf text).take text.length = bytesOf text := by
  apply List.take_of_length_le
  rw [bytesOf, List.length_map, String.length_toList]

/-- **A text goes to the log.** -/
theorem printed_survives (hL : L.Describes P) (hopen : LogOpen P log s) (text : String) :
    LogOpen P log (printed L s text) ∧
      P.asked (printed L s text).world = (some log, bytesOf text) :: P.asked s.world := by
  obtain ⟨htable, hasked⟩ := hL.write s.stderrFd (bytesOf text) text.length s.world
  refine ⟨⟨hopen.flag, ?_⟩, ?_⟩
  · change get (P.table (L.write _ _ _ _).2) s.stderrFd = some log
    rw [htable]
    exact hopen.descriptor
  · change P.asked (L.write _ _ _ _).2 = _
    rw [hasked, hopen.descriptor, bytesOf_take]

/-- The entries of a line in the record. -/
def entries (log : δ) (texts : List String) : List (Option δ × List Byte) :=
  (texts.map fun text => (some log, bytesOf text)).reverse

theorem foldl_survives (hL : L.Describes P) (hopen : LogOpen P log s) (texts : List String) :
    LogOpen P log (texts.foldl (printed L) s) ∧
      P.asked (texts.foldl (printed L) s).world = entries log texts ++ P.asked s.world := by
  induction texts generalizing s with
  | nil => exact ⟨hopen, rfl⟩
  | cons text texts ih =>
      obtain ⟨hprinted, hasked⟩ := printed_survives hL hopen text
      obtain ⟨hdone, hrest⟩ := ih hprinted
      refine ⟨hdone, ?_⟩
      rw [List.foldl_cons, hrest, hasked]
      simp [entries]

/-- **One call.** -/
theorem run_survives (hL : L.Describes P) (hopen : LogOpen P log (afterInit L s))
    (hrun : c.run L s = .ok (v, t)) :
    LogOpen P log t ∧ ∃ texts, Line c.name texts ∧
      P.asked t.world = entries log texts ++ own P (afterInit L s) c ++ P.asked (afterInit L s).world := by
  obtain ⟨-, texts, hline, rfl⟩ := (Call.exactly L s c).of_ok hrun
  obtain ⟨hbefore, hown⟩ := before_survives hL hopen c
  obtain ⟨hdone, hasked⟩ := foldl_survives hL hbefore texts
  refine ⟨hdone, texts, hline, ?_⟩
  rw [hasked, hown, List.append_assoc]

/-! ## Runs -/

/-- The opening of the log writes nothing. -/
theorem asked_afterInit (hL : L.Describes P) (s : St σ) : P.asked (afterInit L s).world = P.asked s.world := by
  unfold afterInit
  split
  · rfl
  · split
    · rfl
    · exact (hL.openFile _ _ _ s.world).1

/-- The states of a process from its first call on. Once the log is open, it may do whatever leaves its
    descriptors alone. -/
inductive Reach (L : Libc σ) (P : Process σ δ) (s₀ : St σ) : St σ → Prop
  | start : Reach L P s₀ s₀
  | call {s t : St σ} {c : Call} {v : Ret} : Reach L P s₀ s → c.run L s = .ok (v, t) → Reach L P s₀ t
  | elsewhere {s : St σ} {w : σ} : Reach L P s₀ s → s.fdFlag = true → P.table w = P.table s.world →
      Reach L P s₀ { s with world := w }

theorem afterInit_of_flag (h : s.fdFlag = true) : afterInit L s = s := if_pos h

theorem LogOpen.afterInit (h : LogOpen P log s) : LogOpen P log (afterInit L s) := by
  rw [afterInit_of_flag h.flag]
  exact h

/-- **The log is open in every state.** -/
theorem reach_open (hL : L.Describes P) (hinit : LogOpen P log (afterInit L s₀)) (h : Reach L P s₀ s) :
    LogOpen P log (afterInit L s) := by
  induction h with
  | start => exact hinit
  | call _ hrun ih => exact (run_survives hL ih hrun).1.afterInit
  | elsewhere _ hflag htable ih =>
      rw [afterInit_of_flag hflag] at ih
      refine LogOpen.afterInit ⟨hflag, ?_⟩
      rw [htable]
      exact ih.descriptor

/-- **The line of a call is in the log**: the call comes back with the log behind `stderr_fd`, and its line has gone
    to the log and to nothing else. -/
def Logs (L : Libc σ) (P : Process σ δ) (log : δ) (s : St σ) (c : Call) : Prop :=
  ∃ v t, c.run L s = .ok (v, t) ∧ get (P.table t.world) t.stderrFd = some log ∧ ∃ texts, Line c.name texts ∧
    P.asked t.world = entries log texts ++ own P (afterInit L s) c ++ P.asked s.world

/-- **The log survives**: whatever has been called and closed before, the line of a call is in the log exactly when
    the call comes back. -/
theorem log_survives (hL : L.Describes P) (hinit : LogOpen P log (afterInit L s₀)) (hreach : Reach L P s₀ s)
    (c : Call) : Logs L P log s c ↔ Returns L s c := by
  constructor
  · rintro ⟨v, t, hrun, -⟩
    exact ((Call.exactly L s c).of_ok hrun).1
  · intro hreturns
    obtain ⟨v, t, hrun, -⟩ := (Call.exactly L s c).succeeds hreturns
    obtain ⟨hopen, texts, hline, hasked⟩ := run_survives hL (reach_open hL hinit hreach) hrun
    rw [asked_afterInit hL] at hasked
    exact ⟨v, t, hrun, hopen.descriptor, texts, hline, hasked⟩

/-! ## A library -/

/-- A process: its descriptors, its streams, how many files it has opened, and its writes. -/
structure Proc where
  table : Table Nat
  streams : List (Ptr × Int)
  opened : Nat
  asked : List (Option Nat × List Byte)

namespace Proc

def fileno (p : Ptr) (w : Proc) : Int := (w.streams.lookup p).getD (-1)

def dup (fd : Int) (w : Proc) : Int × Proc :=
  match get w.table fd with
  | none => (-1, w)
  | some d => ((alloc d w.table).1, { w with table := (alloc d w.table).2 })

/-- Every path can be opened. -/
def openFile (w : Proc) : Int × Proc :=
  ((alloc w.opened w.table).1, { w with table := (alloc w.opened w.table).2, opened := w.opened + 1 })

def fopen (w : Proc) : Ptr × Proc :=
  (BitVec.ofNat 64 (0x1000 + w.opened), { (openFile w).2 with
    streams := (BitVec.ofNat 64 (0x1000 + w.opened), (openFile w).1) :: w.streams })

def close (fd : Int) (w : Proc) : Int × Proc :=
  (if (get w.table fd).isSome then 0 else -1, { w with table := free fd w.table })

/-- Every file is empty. -/
def read (fd : Int) (w : Proc) : Option (List Byte) × Proc := ((get w.table fd).map fun _ => [], w)

def write (fd : Int) (data : List Byte) (count : Nat) (w : Proc) : Int × Proc :=
  (if (get w.table fd).isSome then count else -1,
    { w with asked := (get w.table fd, data.take count) :: w.asked })

end Proc

/-- There is no `/proc`. -/
def procLibc : Libc Proc where
  errno := fun _ => 0
  outputFile := some "log.txt"
  realpath := fun path w => (.found (path.getD ""), w)
  readlink := fun _ w => (none, w)
  fileno := fun p w => (Proc.fileno p w, w)
  dup := Proc.dup
  chmod := fun _ _ w => (0, w)
  chown := fun _ _ _ w => (0, w)
  close := Proc.close
  creat := fun _ _ w => w.openFile
  creat64 := fun _ _ w => w.openFile
  fclose := fun p w => Proc.close (Proc.fileno p w) w
  fopen := fun _ _ w => w.fopen
  fopen64 := fun _ _ w => w.fopen
  fread := fun _ _ _ w => (⟨0, [], no_items_fit _⟩, w)
  fwrite := fun _ _ _ _ w => (⟨0, Nat.succ_pos _⟩, w)
  openFile := fun _ _ _ w => w.openFile
  open64 := fun _ _ _ w => w.openFile
  read := fun fd _ => Proc.read fd
  remove := fun _ w => (0, w)
  rename := fun _ _ w => (0, w)
  tmpfile := Proc.fopen
  tmpfile64 := Proc.fopen
  write := Proc.write

def procView : Process Proc Nat := ⟨Proc.table, Proc.fileno, Proc.asked⟩

theorem proc_opens {α : Type} {f : Proc → α × Proc} (hasked : ∀ w, (f w).2.asked = w.asked)
    (htable : ∀ w, (f w).2.table = (alloc w.opened w.table).2) : Opens procView f := by
  intro w
  exact ⟨hasked w, Or.inr ⟨w.opened, htable w⟩⟩

theorem proc_keeps {α : Type} (f : Proc → α) : Keeps procView fun w => (f w, w) := by
  intro w
  exact ⟨rfl, rfl, fun _ => rfl⟩

theorem procLibc_describes : procLibc.Describes procView where
  realpath := fun _ => proc_keeps _
  readlink := fun _ => proc_keeps _
  fileno := fun _ => proc_keeps _
  fileno_eq := fun _ _ => rfl
  dup := by
    intro fd w d hd
    have hrun : procLibc.dup fd w = (((alloc d w.table).1 : Int), { w with table := (alloc d w.table).2 }) := by
      change Proc.dup fd w = _
      unfold Proc.dup
      rw [show get w.table fd = some d from hd]
    rw [hrun]
    exact ⟨rfl, rfl, rfl, fun _ => rfl⟩
  chmod := fun _ _ => proc_keeps _
  chown := fun _ _ _ => proc_keeps _
  close := fun _ _ => ⟨rfl, rfl⟩
  creat := fun _ _ => proc_opens (fun _ => rfl) fun _ => rfl
  creat64 := fun _ _ => proc_opens (fun _ => rfl) fun _ => rfl
  fclose := fun _ _ => ⟨rfl, rfl⟩
  fopen := fun _ _ => proc_opens (fun _ => rfl) fun _ => rfl
  fopen64 := fun _ _ => proc_opens (fun _ => rfl) fun _ => rfl
  fread := fun _ _ _ => proc_keeps _
  fwrite := fun _ _ _ _ => proc_keeps _
  openFile := fun _ _ _ => proc_opens (fun _ => rfl) fun _ => rfl
  open64 := fun _ _ _ => proc_opens (fun _ => rfl) fun _ => rfl
  read := fun _ _ => proc_keeps _
  remove := fun _ => proc_keeps _
  rename := fun _ _ => proc_keeps _
  tmpfile := proc_opens (fun _ => rfl) fun _ => rfl
  tmpfile64 := proc_opens (fun _ => rfl) fun _ => rfl
  write := fun _ _ _ _ => ⟨rfl, rfl⟩

/-- A process with three descriptors, before its first call. -/
def procSt : St Proc := ⟨false, 2, ⟨[some 0, some 1, some 2], [], 3, []⟩, none, []⟩

/-- A call of the sample process. -/
def Proc.after (s : St Proc) (c : Call) : St Proc :=
  match c.run procLibc s with
  | .ok (_, t) => t
  | .error _ => s

/-- Standard error is closed, then the log's number, and that again: the log goes from 3 to 2 and back. -/
theorem log_survives_closes :
    let s := Proc.after (Proc.after procSt (.close 2)) (.close 3)
    s.stderrFd = 2 ∧ (Proc.after s (.close 2)).stderrFd = 3 ∧ Logs procLibc procView 3 s (.close 2) := by
  intro s
  have hfirst : Reach procLibc procView procSt (Proc.after procSt (.close 2)) :=
    Reach.call (c := .close 2) (v := .int 0) .start rfl
  have hsecond : Reach procLibc procView procSt s := Reach.call (c := .close 3) (v := .int 0) hfirst rfl
  exact ⟨rfl, rfl, (log_survives procLibc_describes ⟨rfl, rfl⟩ hsecond (.close 2)).mpr (Or.inl rfl)⟩

/-- **`read` on a closed descriptor**: the hook copies `-1` bytes and does not come to its line. -/
theorem failed_read_unlogged : ¬ ∀ (L : Libc Proc) (P : Process Proc Nat) (log : Nat) (s₀ s : St Proc) (c : Call),
    L.Describes P → LogOpen P log (afterInit L s₀) → Reach L P s₀ s → Logs L P log s c := by
  intro h
  obtain ⟨v, t, hrun, -⟩ := h procLibc procView 3 procSt procSt (.read 99 10) procLibc_describes ⟨rfl, rfl⟩ .start
  cases hrun

end AdvUnix.Logger
