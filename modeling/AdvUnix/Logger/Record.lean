import AdvUnix.Lib.Words
import AdvUnix.Logger.Descriptors

/-!
# `Logger.Record` — the log reads back

A line of the log says which function has been called and what it has returned. The hooks print names as they
are, so a line is a line only as long as no name has a line end in it; then the log, read line by line, gives the
calls and their results back, in their order (`log_reads_back`), whatever else the program has written in whole
lines of its own.
-/

namespace AdvUnix.Logger

open Triple Descriptors

variable {σ δ : Type} {L : Libc σ} {P : Process σ δ} {log : δ} {s t u : St σ} {c : Call} {v : Ret}

/-! ## Texts -/

def newline : Byte := 0x0a
def openParen : Byte := 0x28
def equals : Byte := 0x3d

/-- A text that ends no line. -/
def OneLine (text : String) : Prop := newline ∉ bytesOf text

instance (text : String) : Decidable (OneLine text) := inferInstanceAs (Decidable (newline ∉ bytesOf text))

theorem bytesOf_append (a b : String) : bytesOf (a ++ b) = bytesOf a ++ bytesOf b := by
  rw [bytesOf, String.toList_append, List.map_append]
  rfl

theorem OneLine.append {a b : String} (ha : OneLine a) (hb : OneLine b) : OneLine (a ++ b) := by
  unfold OneLine
  rw [bytesOf_append, List.mem_append]
  exact not_or.mpr ⟨ha, hb⟩

theorem OneLine.take {text : String} (h : OneLine text) (n : Nat) : OneLine (String.ofList (text.toList.take n)) := by
  intro hmem
  apply h
  unfold bytesOf at hmem ⊢
  rw [String.toList_ofList, List.map_take] at hmem
  exact List.mem_of_mem_take hmem

/-- A character between `(` and `:`, or a small letter: what numbers and pointers are printed with. -/
def figure (ch : Char) : Bool := 0x28 ≤ ch.toNat && ch.toNat ≤ 0x3a || 0x61 ≤ ch.toNat && ch.toNat ≤ 0x7a

/-- A text of such characters. -/
def Figures (chs : List Char) : Prop := ∀ ch ∈ chs, figure ch = true

theorem Figures.append {chs chs' : List Char} (h : Figures chs) (h' : Figures chs') : Figures (chs ++ chs') := by
  intro ch hch
  rcases List.mem_append.mp hch with hch | hch
  · exact h ch hch
  · exact h' ch hch

theorem digitChar_figure {d : Nat} (h : d < 16) : figure d.digitChar = true := by
  revert d
  decide

theorem toDigits_figure {b : Nat} (hb : 1 < b) (hb' : b ≤ 16) (n : Nat) : Figures (Nat.toDigits b n) := by
  induction n using Nat.strong_induction_on with
  | _ n ih =>
      intro ch hch
      by_cases hlt : n < b
      · rw [Nat.toDigits_of_lt_base hlt] at hch
        obtain rfl := List.mem_singleton.mp hch
        exact digitChar_figure (by omega)
      · rw [Nat.toDigits_of_base_le hb (by omega)] at hch
        rcases List.mem_append.mp hch with hch | hch
        · exact ih (n / b) (Nat.div_lt_self (by omega) hb) ch hch
        · obtain rfl := List.mem_singleton.mp hch
          have hmod : n % b < b := Nat.mod_lt n (by omega)
          exact digitChar_figure (by omega)

/-- A text of figures has neither a line end nor an equals sign in it. -/
theorem figures_bare {text : String} (h : Figures text.toList) {b : Byte} (hb : b = newline ∨ b = equals) :
    b ∉ bytesOf text := by
  intro hmem
  obtain ⟨ch, hch, heq⟩ := List.mem_map.mp hmem
  have hfigure := h ch hch
  simp only [figure, Bool.or_eq_true, Bool.and_eq_true, decide_eq_true_eq] at hfigure
  have hval : ch.toNat % 256 = b.toNat := by rw [← heq, BitVec.toNat_ofNat]
  rcases hb with rfl | rfl
  · change ch.toNat % 256 = 0x0a at hval
    omega
  · change ch.toNat % 256 = 0x3d at hval
    omega

theorem figures_oneLine {text : String} (h : Figures text.toList) : OneLine text :=
  figures_bare h (Or.inl rfl)

theorem octal_oneLine (n : Nat) : OneLine (String.ofList (Nat.toDigits 8 n)) := by
  apply figures_oneLine
  rw [String.toList_ofList]
  exact toDigits_figure (by decide) (by decide) n

theorem repr_figure (n : Nat) : Figures n.repr.toList := by
  rw [Nat.toList_repr]
  exact toDigits_figure (by decide) (by decide) n

theorem nat_oneLine (n : Nat) : OneLine (toString n) := figures_oneLine (repr_figure n)

theorem shown_ne_newline (b : Byte) : BitVec.ofNat 8 (shown b).toNat ≠ newline := by
  have hall : ∀ n < 256, BitVec.ofNat 8 (shown (BitVec.ofNat 8 n)).toNat ≠ newline := by decide +kernel
  have hb := hall b.toNat b.isLt
  rwa [BitVec.ofNat_toNat, BitVec.setWidth_eq] at hb

/-- A preview shows what can be printed. -/
theorem previewed_oneLine (data : List Byte) (size : Int) : OneLine (previewed data size) := by
  intro hmem
  unfold bytesOf previewed at hmem
  rw [String.toList_ofList] at hmem
  obtain ⟨ch, hch, heq⟩ := List.mem_map.mp hmem
  obtain ⟨b, -, rfl⟩ := List.mem_map.mp hch
  exact shown_ne_newline b heq

/-- The text that a result is printed as. -/
def Ret.text : Ret → String
  | .int n => toString n
  | .size n => toString n
  | .ptr p => ptrText p

theorem Ret.text_figure (v : Ret) : Figures v.text.toList := by
  cases v with
  | int n =>
      change Figures (toString n).toList
      rw [Int.toString_eq_repr, Int.repr_eq_if]
      split
      · exact repr_figure _
      · rw [String.toList_append]
        exact Figures.append (List.all_eq_true.mp rfl) (repr_figure _)
  | size n => exact repr_figure n
  | ptr p =>
      change Figures (ptrText p).toList
      unfold ptrText
      split
      · exact List.all_eq_true.mp rfl
      · rw [String.toList_append]
        refine Figures.append (List.all_eq_true.mp rfl) ?_
        rw [String.toList_ofList]
        exact toDigits_figure (by decide) (by decide) _

theorem Ret.text_oneLine (v : Ret) : OneLine v.text := figures_oneLine v.text_figure

theorem Ret.text_no_equals (v : Ret) : equals ∉ bytesOf v.text := figures_bare v.text_figure (Or.inr rfl)

/-! ## A line -/

/-- The line of a call, up to its end. -/
def lineOf (name args : String) (v : Ret) : String := "[logger] " ++ name ++ "(" ++ args ++ ") = " ++ v.text

/-- The pieces in which a line is printed. A pointer is a piece of its own. -/
def piecesOf (name args : String) : Ret → List String
  | .ptr p => ["[logger] " ++ name ++ "(" ++ args ++ ") = ", ptrText p, "\n"]
  | v => [lineOf name args v ++ "\n"]

theorem piecesOf_bytes (name args : String) (v : Ret) :
    (piecesOf name args v).flatMap bytesOf = bytesOf (lineOf name args v) ++ [newline] := by
  cases v with
  | ptr p =>
      change bytesOf _ ++ (bytesOf (ptrText p) ++ [newline]) = _
      rw [← List.append_assoc, ← bytesOf_append]
      rfl
  | int n => exact (List.flatMap_singleton ..).trans (bytesOf_append _ _)
  | size n => exact (List.flatMap_singleton ..).trans (bytesOf_append _ _)

/-- **The record of a call**, in its pieces. -/
def Recorded (name : String) (v : Ret) (texts : List String) : Prop :=
  ∃ args, OneLine args ∧ texts = piecesOf name args v

/-- A hook has returned; its record has been printed since. -/
def Records {α : Type} (L : Libc σ) (name : String) (ret : α → Ret) (s : St σ) (a : α) (t : St σ) : Prop :=
  ∃ texts, Recorded name (ret a) texts ∧ t = texts.foldl (printed L) s

/-- The beginning of a line, with some of its arguments. -/
def Begins (name text : String) : Prop := ∃ args, OneLine args ∧ text = "[logger] " ++ name ++ "(" ++ args

/-- The part of a line that is before its result. -/
def Heads (name text : String) : Prop := ∃ args, OneLine args ∧ text = "[logger] " ++ name ++ "(" ++ args ++ ") = "

theorem begins_quote (name : String) : Begins name ("[logger] " ++ name ++ "(\"") := by
  refine ⟨"\"", by decide, ?_⟩
  have hquote : "(\"" = "(" ++ "\"" := rfl
  rw [hquote, ← String.append_assoc]

theorem Begins.append {name a b : String} (ha : Begins name a) (hb : OneLine b) : Begins name (a ++ b) := by
  obtain ⟨args, hargs, rfl⟩ := ha
  exact ⟨args ++ b, hargs.append hb, String.append_assoc ..⟩

theorem Begins.heads {name a : String} (ha : Begins name a) : Heads name (a ++ ") = ") := by
  obtain ⟨args, hargs, rfl⟩ := ha
  exact ⟨args, hargs, rfl⟩

theorem Begins.heads_quote {name a : String} (ha : Begins name a) : Heads name (a ++ "\") = ") := by
  have hquote : "\") = " = "\"" ++ ") = " := rfl
  rw [hquote, ← String.append_assoc]
  exact (ha.append (by decide)).heads

theorem heads_call (name : String) : Heads name ("[logger] " ++ name ++ "() = ") := by
  refine ⟨"", by decide, ?_⟩
  have hcall : "() = " = "(" ++ "" ++ ") = " := rfl
  rw [hcall, ← String.append_assoc, ← String.append_assoc]

/-- The line of `read` and of `write`. -/
theorem heads_transfer (name : String) {path text : String} (hpath : OneLine path) (htext : OneLine text)
    (count : Nat) : Heads name
      ("[logger] " ++ name ++ "(\"" ++ path ++ "\", \"" ++ text ++ "\", " ++ toString count ++ ") = ") := by
  have hbegins := ((begins_quote name).append hpath).append (b := "\", \"") (by decide)
  exact (((hbegins.append htext).append (by decide)).append (nat_oneLine count)).heads

/-- The line of `fread` and of `fwrite`. -/
theorem heads_items (name : String) {path text : String} (hpath : OneLine path) (htext : OneLine text)
    (size nmemb : Nat) : Heads name
      ("[logger] " ++ name ++ "(\"" ++ text ++ "\", " ++ toString size ++ ", " ++ toString nmemb ++ ", \"" ++
        path ++ "\") = ") := by
  have hbegins := ((begins_quote name).append htext).append (b := "\", ") (by decide)
  have hcounts := ((hbegins.append (nat_oneLine size)).append (b := ", ") (by decide)).append (nat_oneLine nmemb)
  exact ((hcounts.append (b := ", \"") (by decide)).append hpath).heads_quote

/-- A line in one piece. -/
theorem Heads.recorded {name text : String} (h : Heads name text) {v : Ret} (hv : ∀ p, v ≠ .ptr p) :
    Recorded name v [text ++ v.text ++ "\n"] := by
  obtain ⟨args, hargs, rfl⟩ := h
  refine ⟨args, hargs, ?_⟩
  cases v with
  | ptr p => exact absurd rfl (hv p)
  | int n => rfl
  | size n => rfl

/-- A line with a pointer is printed in three pieces. -/
theorem Heads.recorded_ptr {name text : String} (h : Heads name text) (p : Ptr) :
    Recorded name (.ptr p) [text, ptrText p, "\n"] := by
  obtain ⟨args, hargs, rfl⟩ := h
  exact ⟨args, hargs, rfl⟩

theorem Said.records {α : Type} {name text : String} (ret : α → Ret) {a v : α}
    (hsaid : Said L (text ++ (ret a).text) a s v t) (hret : ∀ a p, ret a ≠ .ptr p) (h : Heads name text) :
    Records L name ret s v t := by
  obtain ⟨rfl, rfl⟩ := hsaid
  exact ⟨_, h.recorded (hret _), rfl⟩

theorem report_gives {α : Type} {name text : String} (h : Heads name text) (ret : α → Ret)
    (hret : ∀ a p, ret a ≠ .ptr p) (a : α) (s : St σ) :
    Gives (do print L (text ++ (ret a).text ++ "\n"); pure a) s (Records L name ret s) :=
  (says_exactly (text ++ (ret a).text) a s).gives.mono fun _ _ hsaid => hsaid.records ret hret h

theorem reportPtr_gives {name text : String} (h : Heads name text) (p : Ptr) (s : St σ) :
    Gives (do print L text; printPtr L p; print L "\n"; pure p) s (Records L name .ptr s) := by
  apply (print_exactly L text s).gives.bind
  rintro _ _ rfl
  apply (printPtr_exactly L p _).gives.bind
  rintro _ _ rfl
  apply (print_exactly L "\n" _).gives.bind
  rintro _ _ rfl
  apply (exactly_pure p _).gives.mono
  rintro _ _ ⟨rfl, rfl⟩
  exact ⟨_, h.recorded_ptr _, rfl⟩

/-! ## The hooks -/

/-- **A library whose names are one line**: those that `realpath` makes of such names, and those that links have. -/
structure Libc.Names (L : Libc σ) : Prop where
  realpath : ∀ path w resolved, OneLine (path.getD "") → (L.realpath path w).1 = .found resolved → OneLine resolved
  readlink : ∀ link w name, (L.readlink link w).1 = some name → OneLine name

theorem resolve_gives (hL : L.Names) {path : Option String} (hpath : OneLine (path.getD "")) (s : St σ) :
    Gives (resolve L path) s (fun name t => OneLine name ∧ t = resolved L path s) := by
  apply (libc_exactly (L.realpath path) s).gives.bind
  rintro r t ⟨hr, rfl⟩
  cases r with
  | found name =>
      refine (format_exactly 100 name _).gives.mono ?_
      rintro _ _ ⟨rfl, rfl⟩
      exact ⟨hL.realpath path s.world _ hpath hr.symm, rfl⟩
  | missing stored =>
      apply (format_exactly 100 (stored.getD "") _).gives.bind
      rintro _ _ ⟨-, rfl⟩
      refine (string_exactly path _).gives.mono ?_
      rintro _ _ ⟨rfl, rfl⟩
      exact ⟨hpath, rfl⟩

theorem octal_gives (n : BitVec 32) (s : St σ) :
    Gives (octal n) s (fun text t => OneLine text ∧ t = s) := by
  refine (format_exactly 10 _ s).gives.mono ?_
  rintro _ _ ⟨rfl, rfl⟩
  exact ⟨octal_oneLine n.toNat, rfl⟩

theorem pathOf_oneLine (hL : L.Names) (fd : Int) (s : St σ) : OneLine (pathOf L fd s) := by
  unfold pathOf
  cases hlink : (L.readlink ("/proc/self/fd/" ++ toString fd) s.world).1 with
  | none => decide
  | some name => exact (hL.readlink _ _ name hlink).take 1023

theorem fdPath_gives (hL : L.Names) (fd : Int) (s : St σ) :
    Gives (fdPath L fd) s (fun path t => OneLine path ∧ t = looked L fd s) := by
  refine (fdPath_names L fd s).gives.mono ?_
  rintro _ _ ⟨rfl, rfl⟩
  exact ⟨pathOf_oneLine hL fd s, rfl⟩

section Hooks

variable (hL : L.Names)

include hL

theorem chmod_gives {path : Option String} (hpath : OneLine (path.getD "")) (mode : Mode) (s : St σ) :
    Gives (chmod L path mode) s
      (Records L "chmod" .int (called L .int (L.chmod path mode) (named L path s))) := by
  apply (initFd_exactly L s).gives.bind
  rintro _ _ rfl
  apply (resolve_gives hL hpath _).bind
  rintro name _ ⟨hname, rfl⟩
  apply (octal_gives mode _).bind
  rintro modeStr _ ⟨hmode, rfl⟩
  apply (orFunc_exactly L .int (L.chmod path mode) _).gives.bind
  rintro _ _ ⟨rfl, rfl⟩
  exact report_gives ((((begins_quote "chmod").append hname).append (by decide)).append hmode).heads .int nofun _ _

theorem chown_gives {path : Option String} (hpath : OneLine (path.getD "")) (owner group : BitVec 32) (s : St σ) :
    Gives (chown L path owner group) s
      (Records L "chown" .int (called L .int (L.chown path owner group) (named L path s))) := by
  apply (initFd_exactly L s).gives.bind
  rintro _ _ rfl
  apply (resolve_gives hL hpath _).bind
  rintro name _ ⟨hname, rfl⟩
  apply (orFunc_exactly L .int (L.chown path owner group) _).gives.bind
  rintro _ _ ⟨rfl, rfl⟩
  have hbegins := ((begins_quote "chown").append hname).append (b := "\", ") (by decide)
  exact report_gives (((hbegins.append (nat_oneLine _)).append (by decide)).append (nat_oneLine _)).heads .int nofun _ _

theorem remove_gives {path : Option String} (hpath : OneLine (path.getD "")) (s : St σ) :
    Gives (remove L path) s (Records L "remove" .int (called L .int (L.remove path) (named L path s))) := by
  apply (initFd_exactly L s).gives.bind
  rintro _ _ rfl
  apply (resolve_gives hL hpath _).bind
  rintro name _ ⟨hname, rfl⟩
  apply (orFunc_exactly L .int (L.remove path) _).gives.bind
  rintro _ _ ⟨rfl, rfl⟩
  exact report_gives ((begins_quote "remove").append hname).heads_quote .int nofun _ _

theorem close_gives (fd : Int) (s : St σ) :
    Gives (close L fd) s (Records L "close" .int (called L .int (L.close fd) (closing L fd s))) := by
  apply (initFd_exactly L s).gives.bind
  rintro _ _ rfl
  apply (keepLog_exactly L fd _).gives.bind
  rintro _ _ rfl
  apply (fdPath_gives hL fd _).bind
  rintro path _ ⟨hpath, rfl⟩
  apply (orFunc_exactly L .int (L.close fd) _).gives.bind
  rintro _ _ ⟨rfl, rfl⟩
  exact report_gives ((begins_quote "close").append hpath).heads_quote .int nofun _ _

theorem fclose_gives (stream : Ptr) (s : St σ) :
    Gives (fclose L stream) s
      (Records L "fclose" .int (called L .int (L.fclose stream) (fclosing L stream s))) := by
  apply (initFd_exactly L s).gives.bind
  rintro _ _ rfl
  apply (libc_exactly (L.fileno stream) _).gives.bind
  rintro _ _ ⟨rfl, rfl⟩
  apply (keepLog_exactly L _ _).gives.bind
  rintro _ _ rfl
  apply (fdPath_gives hL _ _).bind
  rintro path _ ⟨hpath, rfl⟩
  apply (orFunc_exactly L .int (L.fclose stream) _).gives.bind
  rintro _ _ ⟨rfl, rfl⟩
  exact report_gives ((begins_quote "fclose").append hpath).heads_quote .int nofun _ _

theorem creatAs_gives (name : String) (real : Option String → Mode → σ → Int × σ) {path : Option String}
    (hpath : OneLine (path.getD "")) (mode : Mode) (s : St σ) :
    Gives (creatAs L name real path mode) s
      (Records L name .int (resolved L path (called L .int (real path mode) (afterInit L s)))) := by
  apply (initFd_exactly L s).gives.bind
  rintro _ _ rfl
  -- here the call comes before the path is resolved: the file may not be there yet
  apply (orFunc_exactly L .int (real path mode) _).gives.bind
  rintro _ _ ⟨rfl, rfl⟩
  apply (resolve_gives hL hpath _).bind
  rintro file _ ⟨hfile, rfl⟩
  apply (octal_gives mode _).bind
  rintro modeStr _ ⟨hmode, rfl⟩
  exact report_gives ((((begins_quote name).append hfile).append (by decide)).append hmode).heads .int nofun _ _

theorem fopenAs_gives (name : String) (real : Option String → Option String → σ → Ptr × σ)
    {path mode : Option String} (hpath : OneLine (path.getD "")) (hmode : OneLine (mode.getD "")) (s : St σ) :
    Gives (fopenAs L name real path mode) s
      (Records L name .ptr (called L .ptr (real path mode) (named L path s))) := by
  apply (initFd_exactly L s).gives.bind
  rintro _ _ rfl
  apply (resolve_gives hL hpath _).bind
  rintro file _ ⟨hfile, rfl⟩
  apply (string_exactly mode _).gives.bind
  rintro _ _ ⟨rfl, rfl⟩
  apply (orFunc_exactly L .ptr (real path mode) _).gives.bind
  rintro _ _ ⟨rfl, rfl⟩
  have hbegins := ((begins_quote name).append hfile).append (b := "\", \"") (by decide)
  exact reportPtr_gives (hbegins.append hmode).heads_quote _ _

omit hL in
theorem tmpfileAs_gives (name : String) (real : σ → Ptr × σ) (s : St σ) :
    Gives (tmpfileAs L name real) s (Records L name .ptr (called L .ptr real (afterInit L s))) := by
  apply (initFd_exactly L s).gives.bind
  rintro _ _ rfl
  apply (orFunc_exactly L .ptr real _).gives.bind
  rintro _ _ ⟨rfl, rfl⟩
  exact reportPtr_gives (heads_call name) _ _

theorem openAs_gives (name : String) (real : Option String → BitVec 32 → Option Mode → σ → Int × σ)
    {path : Option String} (hpath : OneLine (path.getD "")) (flags : BitVec 32) (mode : Mode) (s : St σ) :
    Gives (openAs L name real path flags mode) s
      (Records L name .int (called L .int (real path flags (openMode flags mode)) (named L path s))) := by
  apply (initFd_exactly L s).gives.bind
  rintro _ _ rfl
  apply (resolve_gives hL hpath _).bind
  rintro file _ ⟨hfile, rfl⟩
  apply (octal_gives flags _).bind
  rintro flagStr _ ⟨hflags, rfl⟩
  have hbegins := ((begins_quote name).append hfile).append (b := "\", ") (by decide)
  unfold openMode
  by_cases hmode : needsMode flags = true
  · -- the third argument is there
    simp only [hmode, if_true]
    apply (octal_gives mode _).bind
    rintro modeStr _ ⟨hmodeStr, rfl⟩
    apply (orFunc_exactly L .int (real path flags (some mode)) _).gives.bind
    rintro _ _ ⟨rfl, rfl⟩
    exact report_gives (((hbegins.append hflags).append (by decide)).append hmodeStr).heads .int nofun _ _
  · -- it is not read, and shown as 0
    simp only [hmode]
    apply (orFunc_exactly L .int (real path flags none) _).gives.bind
    rintro _ _ ⟨rfl, rfl⟩
    apply (octal_gives 0 _).bind
    rintro modeStr _ ⟨hmodeStr, rfl⟩
    exact report_gives (((hbegins.append hflags).append (by decide)).append hmodeStr).heads .int nofun _ _

theorem rename_gives {old new : Option String} (hold : OneLine (old.getD "")) (hnew : OneLine (new.getD ""))
    (s : St σ) : Gives (rename L old new) s
      (Records L "rename" .int (resolved L new (called L .int (L.rename old new) (named L old s)))) := by
  apply (initFd_exactly L s).gives.bind
  rintro _ _ rfl
  apply (resolve_gives hL hold _).bind
  rintro from_ _ ⟨hfrom, rfl⟩
  apply (orFunc_exactly L .int (L.rename old new) _).gives.bind
  rintro _ _ ⟨rfl, rfl⟩
  apply (resolve_gives hL hnew _).bind
  rintro to_ _ ⟨hto, rfl⟩
  have hbegins := ((begins_quote "rename").append hfrom).append (b := "\", \"") (by decide)
  exact report_gives (hbegins.append hto).heads_quote .int nofun _ _

theorem read_gives (fd : Int) (count : Nat) (s : St σ) :
    Gives (read L fd count) s
      (Records L "read" .int (called L (fun r => .int (readRet r)) (L.read fd count) (looked L fd (afterInit L s)))) :=
  (read_said L fd count s).gives.mono fun _ _ hsaid => hsaid.records .int nofun
    (heads_transfer "read" (pathOf_oneLine hL fd _) (previewed_oneLine _ _) count)

theorem write_gives (fd : Int) (data : List Byte) (count : Nat) (s : St σ) :
    Gives (write L fd data count) s
      (Records L "write" .int (called L .int (L.write fd data count) (looked L fd (afterInit L s)))) :=
  (write_said L fd data count s).gives.mono fun _ _ hsaid => hsaid.records .int nofun
    (heads_transfer "write" (pathOf_oneLine hL fd _) (previewed_oneLine _ _) count)

theorem fread_gives (size nmemb : Nat) (stream : Ptr) (s : St σ) :
    Gives (fread L size nmemb stream) s
      (Records L "fread" .size (called L (fun r => .size r.count) (L.fread size nmemb stream) (streamed L stream s))) :=
  (fread_said L size nmemb stream s).gives.mono fun _ _ hsaid => hsaid.records .size nofun
    (heads_items "fread" (pathOf_oneLine hL _ _) (previewed_oneLine _ _) size nmemb)

theorem fwrite_gives {data : List Byte} {size nmemb : Nat} (stream : Ptr) (hfull : nmemb * size ≤ data.length)
    (s : St σ) : Gives (fwrite L data size nmemb stream) s
      (Records L "fwrite" .size
        (called L (fun r => .size r.val) (L.fwrite data size nmemb stream) (streamed L stream s))) :=
  (fwrite_said L stream hfull s).gives.mono fun _ _ hsaid => hsaid.records .size nofun
    (heads_items "fwrite" (pathOf_oneLine hL _ _) (previewed_oneLine _ _) size nmemb)

end Hooks

/-! ## Calls -/

/-- The texts that a call passes and its line shows. -/
def Call.texts : Call → List String
  | .chmod path _ => [path.getD ""]
  | .chown pathname _ _ => [pathname.getD ""]
  | .creat pathname _ => [pathname.getD ""]
  | .creat64 pathname _ => [pathname.getD ""]
  | .fopen filename mode => [filename.getD "", mode.getD ""]
  | .fopen64 filename mode => [filename.getD "", mode.getD ""]
  | .openFile pathname _ _ => [pathname.getD ""]
  | .open64 pathname _ _ => [pathname.getD ""]
  | .remove pathname => [pathname.getD ""]
  | .rename oldpath newpath => [oldpath.getD "", newpath.getD ""]
  | _ => []

theorem Records.of_run {α : Type} {m : Hook σ α} {name : String} {ret : α → Ret}
    (hm : Gives m s (Records L name ret u)) (h : (ret <$> m) s = .ok (v, t)) :
    ∃ texts, Recorded name v texts ∧ t = texts.foldl (printed L) u := by
  obtain ⟨a, rfl, hrecords⟩ := hm.map.of_ok h
  exact hrecords

/-- **Every call that returns** ends with its record. -/
theorem Call.records (hL : L.Names) (htexts : ∀ text ∈ c.texts, OneLine text) (h : c.run L s = .ok (v, t)) :
    ∃ texts, Recorded c.name v texts ∧ t = texts.foldl (printed L) (c.before L s) := by
  cases c with
  | chmod path mode => exact Records.of_run (chmod_gives hL (htexts _ (by simp [Call.texts])) mode s) h
  | chown path owner group =>
      exact Records.of_run (chown_gives hL (htexts _ (by simp [Call.texts])) owner group s) h
  | close fd => exact Records.of_run (close_gives hL fd s) h
  | creat path mode =>
      exact Records.of_run (creatAs_gives hL "creat" L.creat (htexts _ (by simp [Call.texts])) mode s) h
  | creat64 path mode =>
      exact Records.of_run (creatAs_gives hL "creat64" L.creat64 (htexts _ (by simp [Call.texts])) mode s) h
  | fclose stream => exact Records.of_run (fclose_gives hL stream s) h
  | fopen path mode =>
      exact Records.of_run (fopenAs_gives hL "fopen" L.fopen (htexts _ (by simp [Call.texts]))
        (htexts _ (by simp [Call.texts])) s) h
  | fopen64 path mode =>
      exact Records.of_run (fopenAs_gives hL "fopen64" L.fopen64 (htexts _ (by simp [Call.texts]))
        (htexts _ (by simp [Call.texts])) s) h
  | fread size nmemb stream => exact Records.of_run (fread_gives hL size nmemb stream s) h
  | fwrite data size nmemb stream full => exact Records.of_run (fwrite_gives hL stream full s) h
  | openFile path flags mode =>
      exact Records.of_run (openAs_gives hL "open" L.openFile (htexts _ (by simp [Call.texts])) flags mode s) h
  | open64 path flags mode =>
      exact Records.of_run (openAs_gives hL "open64" L.open64 (htexts _ (by simp [Call.texts])) flags mode s) h
  | read fd count => exact Records.of_run (read_gives hL fd count s) h
  | remove path => exact Records.of_run (remove_gives hL (htexts _ (by simp [Call.texts])) s) h
  | rename old new =>
      exact Records.of_run (rename_gives hL (htexts _ (by simp [Call.texts])) (htexts _ (by simp [Call.texts])) s) h
  | tmpfile => exact Records.of_run (tmpfileAs_gives "tmpfile" L.tmpfile s) h
  | tmpfile64 => exact Records.of_run (tmpfileAs_gives "tmpfile64" L.tmpfile64 s) h
  | write fd data count => exact Records.of_run (write_gives hL fd data count s) h

/-! ## The log read -/

/-- **A line, read**: the name of the function and the text of its result, or nothing when it is no record. -/
def readRecord (line : List Byte) : Option (List Byte × List Byte) :=
  if bytesOf "[logger] " <+: line then
    some (Words.before openParen (line.drop 9), (Words.behind equals line).drop 1)
  else none

/-- The records of a text. -/
def history (text : List Byte) : List (List Byte × List Byte) := (Words.lines newline text).filterMap readRecord

/-- What a record says. -/
def record (call : Call × Ret) : List Byte × List Byte := (bytesOf call.1.name, bytesOf call.2.text)

theorem Call.name_oneLine (c : Call) : OneLine c.name := by
  cases c <;> simp only [Call.name] <;> decide

theorem Call.name_no_paren (c : Call) : openParen ∉ bytesOf c.name := by
  cases c <;> simp only [Call.name] <;> decide

theorem lineOf_oneLine {args : String} (hargs : OneLine args) (c : Call) (v : Ret) :
    OneLine (lineOf c.name args v) := by
  have hbegins : OneLine ("[logger] " ++ c.name ++ "(") :=
    ((show OneLine "[logger] " by decide).append c.name_oneLine).append (by decide)
  exact ((hbegins.append hargs).append (by decide)).append v.text_oneLine

/-- **A line is read back.** -/
theorem readRecord_lineOf (args : String) (c : Call) (v : Ret) :
    readRecord (bytesOf (lineOf c.name args v)) = some (record (c, v)) := by
  -- the line from its start to the first parenthesis, and from its end back to the last sign of equality
  have hname : bytesOf (lineOf c.name args v) =
      bytesOf "[logger] " ++ (bytesOf c.name ++ openParen :: bytesOf (args ++ ") = " ++ v.text)) := by
    unfold lineOf
    simp only [bytesOf_append, List.append_assoc]
    rfl
  have hresult : bytesOf (lineOf c.name args v) =
      bytesOf ("[logger] " ++ c.name ++ "(" ++ args ++ ") ") ++ equals :: 0x20 :: bytesOf v.text := by
    unfold lineOf
    simp only [bytesOf_append, List.append_assoc]
    rfl
  have hno : equals ∉ 0x20 :: bytesOf v.text :=
    List.not_mem_cons_of_ne_of_not_mem (by decide) v.text_no_equals
  have hbefore : Words.before openParen ((bytesOf (lineOf c.name args v)).drop 9) = bytesOf c.name := by
    rw [hname, List.drop_left' (show (bytesOf "[logger] ").length = 9 from rfl)]
    exact Words.before_append_cons c.name_no_paren _
  have hbehind : (Words.behind equals (bytesOf (lineOf c.name args v))).drop 1 = bytesOf v.text := by
    rw [hresult, Words.behind_append_cons hno]
    rfl
  unfold readRecord
  rw [if_pos ⟨_, hname.symm⟩, hbefore, hbehind]
  rfl

theorem history_line {args : String} (hargs : OneLine args) (c : Call) (v : Ret) :
    history (bytesOf (lineOf c.name args v) ++ [newline]) = [record (c, v)] := by
  unfold history
  rw [Words.lines_cons (lineOf_oneLine hargs c v)]
  simp [readRecord_lineOf, Words.lines]

/-! ## Runs -/

/-- Whole lines, or none. -/
def EndsLine (text : List Byte) : Prop := text = [] ∨ text.getLast? = some newline

theorem EndsLine.append {xs ys : List Byte} (hx : EndsLine xs) (hy : EndsLine ys) : EndsLine (xs ++ ys) := by
  rcases hy with rfl | hy
  · rwa [List.append_nil]
  · right
    rw [List.getLast?_append, hy]
    rfl

theorem history_append {xs : List Byte} (hx : EndsLine xs) (ys : List Byte) :
    history (xs ++ ys) = history xs ++ history ys := by
  unfold history
  rw [Words.lines_append hx, List.filterMap_append]

/-- Whole lines that are no records. -/
structure Foreign (text : List Byte) : Prop where
  whole : EndsLine text
  silent : history text = []

variable [DecidableEq δ]

/-- What some writes have sent to the log, one after the other; the last write is first. -/
def sentTo (log : δ) (writes : List (Option δ × List Byte)) : List (List Byte) :=
  (writes.reverse.filter fun w => w.1 = some log).map Prod.snd

theorem sentTo_append (log : δ) (xs ys : List (Option δ × List Byte)) :
    sentTo log (xs ++ ys) = sentTo log ys ++ sentTo log xs := by
  unfold sentTo
  rw [List.reverse_append, List.filter_append, List.map_append]

theorem sentTo_entries (log : δ) (texts : List String) : sentTo log (entries log texts) = texts.map bytesOf := by
  unfold sentTo entries
  rw [List.reverse_reverse, List.filter_eq_self.mpr, List.map_map]
  · rfl
  · intro w hw
    obtain ⟨text, -, rfl⟩ := List.mem_map.mp hw
    exact decide_eq_true rfl

/-- What they have put into it, when each has been written as a whole. -/
def textOf (log : δ) (writes : List (Option δ × List Byte)) : List Byte := (sentTo log writes).flatten

/-- The log, when what `write` is asked for is written as a whole and the table of descriptors is never full. -/
def logText (P : Process σ δ) (log : δ) (w : σ) : List Byte := textOf log (P.asked w)

/-- **A run of a process, with its calls**, first to last. No name that it passes has a line end in it; what it
    writes to the log itself, through `write` or past the logger, is whole lines that are no records. -/
inductive Session (L : Libc σ) (P : Process σ δ) (log : δ) (s₀ : St σ) : List (Call × Ret) → St σ → Prop
  | start : Session L P log s₀ [] s₀
  | call {calls : List (Call × Ret)} {s t : St σ} {c : Call} {v : Ret} : Session L P log s₀ calls s →
      (∀ text ∈ c.texts, OneLine text) → Foreign (textOf log (own P (afterInit L s) c)) →
      c.run L s = .ok (v, t) → Session L P log s₀ (calls ++ [(c, v)]) t
  | elsewhere {calls : List (Call × Ret)} {s : St σ} {w : σ} {text : List Byte} : Session L P log s₀ calls s →
      s.fdFlag = true → P.table w = P.table s.world → logText P log w = logText P log s.world ++ text →
      Foreign text → Session L P log s₀ calls { s with world := w }

theorem Session.reach {calls : List (Call × Ret)} (h : Session L P log s calls t) : Reach L P s t := by
  induction h with
  | start => exact .start
  | call _ _ _ hrun ih => exact .call ih hrun
  | elsewhere _ hflag htable _ _ ih => exact .elsewhere ih hflag htable

/-- **One call** sends its record to the log, behind what it writes there itself. -/
theorem call_sends (hL : L.Describes P) (hnames : L.Names) (hopen : LogOpen P log (afterInit L s))
    (htexts : ∀ text ∈ c.texts, OneLine text) (hrun : c.run L s = .ok (v, t)) :
    ∃ args, OneLine args ∧ sentTo log (P.asked t.world) =
      sentTo log (P.asked s.world) ++ sentTo log (own P (afterInit L s) c) ++ (piecesOf c.name args v).map bytesOf := by
  obtain ⟨texts, ⟨args, hargs, rfl⟩, rfl⟩ := Call.records hnames htexts hrun
  -- what the call does to the descriptors may move the log's, but not end it
  obtain ⟨hbefore, hown⟩ := before_survives hL hopen c
  obtain ⟨-, hasked⟩ := foldl_survives hL hbefore (piecesOf c.name args v)
  refine ⟨args, hargs, ?_⟩
  rw [hasked, hown, sentTo_append, sentTo_append, sentTo_entries, asked_afterInit hL]

/-- The log after it. -/
theorem call_adds (hL : L.Describes P) (hnames : L.Names) (hopen : LogOpen P log (afterInit L s))
    (htexts : ∀ text ∈ c.texts, OneLine text) (hrun : c.run L s = .ok (v, t)) :
    ∃ args, OneLine args ∧ logText P log t.world =
      logText P log s.world ++ textOf log (own P (afterInit L s) c) ++
        (bytesOf (lineOf c.name args v) ++ [newline]) := by
  obtain ⟨args, hargs, hsent⟩ := call_sends hL hnames hopen htexts hrun
  refine ⟨args, hargs, ?_⟩
  unfold logText textOf
  rw [hsent, List.flatten_append, List.flatten_append, ← List.flatMap_def, piecesOf_bytes]

theorem whole_line (line : List Byte) : EndsLine (line ++ [newline]) := Or.inr (by rw [List.getLast?_concat])

/-- **The log reads back.** Read line by line, it says which functions have been called since, and what they have
    returned, in their order. -/
theorem log_reads_back (hL : L.Describes P) (hnames : L.Names) (hinit : LogOpen P log (afterInit L s))
    (hends : EndsLine (logText P log s.world)) {calls : List (Call × Ret)} (h : Session L P log s calls t) :
    EndsLine (logText P log t.world) ∧
      history (logText P log t.world) = history (logText P log s.world) ++ calls.map record := by
  induction h with
  | start => exact ⟨hends, by simp⟩
  | @call calls u t c v hsession htexts hown hrun ih =>
      obtain ⟨ihwhole, ihistory⟩ := ih
      obtain ⟨args, hargs, htext⟩ := call_adds hL hnames (reach_open hL hinit hsession.reach) htexts hrun
      -- the log of before, what the call itself writes there, and its record
      have hbefore := ihwhole.append hown.whole
      rw [htext]
      refine ⟨hbefore.append (whole_line _), ?_⟩
      rw [history_append hbefore, history_append ihwhole, hown.silent, history_line hargs, ihistory, List.append_nil,
        List.map_append, List.append_assoc]
      rfl
  | elsewhere _ _ _ htext hforeign ih =>
      obtain ⟨ihwhole, ihistory⟩ := ih
      rw [htext]
      refine ⟨ihwhole.append hforeign.whole, ?_⟩
      rw [history_append ihwhole, hforeign.silent, List.append_nil, ihistory]

theorem procLibc_names : procLibc.Names where
  realpath := by
    intro path w resolved hpath hfound
    cases hfound
    exact hpath
  readlink := by
    intro link w name hlink
    cases hlink

/-- The program writes a line of its own to the log, and closes the log's number. -/
theorem log_reads_back_sample :
    let s := Proc.after procSt (.write 3 [0x68, newline] 2)
    history (logText procView 3 (Proc.after s (.close 3)).world) =
      [(bytesOf "write", bytesOf "2"), (bytesOf "close", bytesOf "0")] := by
  intro s
  have hline : Foreign (textOf 3 (own procView (afterInit procLibc procSt) (.write 3 [0x68, newline] 2))) :=
    ⟨Or.inr rfl, by decide⟩
  have hfirst : Session procLibc procView 3 procSt ([] ++ [(.write 3 [0x68, newline] 2, .int 2)]) s :=
    Session.call .start (by simp [Call.texts]) hline rfl
  have hsecond : Session procLibc procView 3 procSt [(.write 3 [0x68, newline] 2, .int 2), (.close 3, .int 0)]
      (Proc.after s (.close 3)) := Session.call hfirst (by simp [Call.texts]) ⟨Or.inl rfl, rfl⟩ rfl
  exact (log_reads_back procLibc_describes procLibc_names ⟨rfl, rfl⟩ (Or.inl rfl) hsecond).2

end AdvUnix.Logger
