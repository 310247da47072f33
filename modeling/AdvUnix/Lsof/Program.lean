import AdvUnix.Lib.Getopt
import AdvUnix.Lib.LastWrite
import AdvUnix.Lsof.ProcessInfo

/-!
# `Lsof.Program` — the whole program

`main` reads its options, lists the processes of `/proc`, records the rows of each and prints those that every
option selects. What it prints is determined by the last option of each letter (`main_lists`); a process changes
no row but its own (`processes_isolated`).
-/

namespace AdvUnix.Lsof

open Words Sdb Getopt LastWrite

/-! ## The processes -/

/-- **What `readdir` gives for an entry of `/proc/`**: its name, the result of the `stat` of `is_dir`, what the buffer
    of that call holds before, and the answers for the process of that name. -/
structure DirEntry where
  name : String
  stat : Except Int Stat
  junk : Stat
  answers : Answers

/-- `is_number` -/
def isNumber (str : String) : Bool := str.toList.all Char.isDigit

/-- `is_dir` -/
def isDir (d : DirEntry) : Bool := isType 0o040000 (statBuffer d.stat d.junk)

/-- The tests that `get_all_process_files` makes of an entry. -/
def isProcess (d : DirEntry) : Bool := d.name ≠ "." && d.name ≠ ".." && isDir d && isNumber d.name

/-- `get_all_process_files("/proc/")`: the lines it prints, and `process_dir`. -/
def getAllProcessFiles (proc : Except Int (List DirEntry)) : List String × List DirEntry :=
  match proc with
  | .error errno => (["[ERROR: " ++ toString errno ++ " ] Couldn't open /proc/."], [])
  | .ok entries => ([], entries.filter isProcess)

/-- The loop of `main` over `process_dir`. -/
def processInfos (lines : List Line) : List DirEntry → Except BadRead (List Line)
  | [] => .ok lines
  | d :: ds => do
    let rows ← getProcessInfo d.name d.answers
    processInfos (lines ++ rows) ds

/-! ## What is printed -/

/-- **`std::regex`**: whether an expression is one, and what the search for it in a text comes to. Both may throw. -/
structure Regex where
  accepts : String → Bool
  search : String → String → Option Bool

/-- `arguments` -/
structure Arguments where
  c : Option String
  t : Option String
  f : Option String
  deriving DecidableEq, Repr

variable (R : Regex)

/-- `regex reg(expr)` and `regex_search`. -/
def regexSearch (expr text : String) : Option Bool := if R.accepts expr then R.search expr text else none

/-- `output_flag[0]` or `output_flag[2]`, from the expression of the option and the text it is searched in. -/
def searchFlag (expr : Option String) (text : String) : Option Bool :=
  match expr with
  | some expr => regexSearch R expr text
  | none => some true

/-- `output_flag[1]` -/
def typeFlag (expr : Option String) (type : String) : Bool :=
  match expr with
  | some expr => type = expr
  | none => true

/-- `output_flag[0] & output_flag[1] & output_flag[2]`, when nothing is thrown. -/
def outputFlag (args : Arguments) (l : Line) : Option Bool := do
  let c ← searchFlag R args.c l.COMMAND
  let t := typeFlag args.t l.TYPE
  let f ← searchFlag R args.f l.NAME
  some (c && t && f)

/-- A row as it is printed. -/
def Line.text (l : Line) : String :=
  l.COMMAND ++ "\t\t" ++ l.PID ++ "\t\t" ++ l.USER ++ "\t\t" ++ l.FD ++ "\t\t" ++ l.TYPE ++ "\t\t" ++ l.NODE ++
    "\t\t" ++ (l.NAME ++ " " ++ l.APPEND)

/-- `print_all`: the lines it prints, and whether a regular expression threw. -/
def printAll (argFlag : Bool) (args : Arguments) : List Line → List String × Bool
  | [] => ([], false)
  | l :: ls =>
    if !argFlag then
      let (out, thrown) := printAll argFlag args ls
      (l.text :: out, thrown)
    else match outputFlag R args l with
      | none => ([], true)
      | some flag =>
        let (out, thrown) := printAll argFlag args ls
        (if flag then l.text :: out else out, thrown)

/-! ## `main` -/

/-- `"c:t:f:"` -/
def optstring : Spec
  | 'c' => some true
  | 't' => some true
  | 'f' => some true
  | _ => none

/-- The values that `-t` may have. -/
def types : List String := ["REG", "CHR", "DIR", "FIFO", "SOCK", "unknown"]

/-- The loop over the returns of `getopt`: `arg_flag` and `parse_result`, or the message before `exit(1)`. -/
def parseArgs : Bool → Arguments → List Ret → Except String (Bool × Arguments)
  | argFlag, args, [] => .ok (argFlag, args)
  | _, args, .opt 'c' (some optarg) :: rets => parseArgs true { args with c := some optarg } rets
  | _, args, .opt 't' (some optarg) :: rets =>
    if optarg ∉ types then .error "Invalid TYPE option."
    else parseArgs true { args with t := some optarg } rets
  | _, args, .opt 'f' (some optarg) :: rets => parseArgs true { args with f := some optarg } rets
  | _, _, .unknown :: _ => .error "Error arguments."
  | argFlag, args, .opt _ _ :: rets => parseArgs argFlag args rets

/-- How the program ends, as far as C++ says. -/
inductive Ending
  | returns
  | exit (stderr : String)
  /-- It reads where it may not, and everything from there on is undefined. -/
  | undefined (r : BadRead)
  | thrown
  deriving DecidableEq, Repr

/-- The lines on `stdout`, up to where the rest is undefined, and the end. -/
structure Output where
  stdout : List String
  ending : Ending
  deriving DecidableEq, Repr

/-- The first line. -/
def header : String := "COMMAND\t\tPID\t\tUSER\t\tFD\t\tTYPE\t\tNODE\t\tNAME"

/-- `main`; `getopt` starts behind the first word. -/
def main (proc : Except Int (List DirEntry)) (argv : List String) : Output :=
  match parseArgs false ⟨none, none, none⟩ (scan optstring none (argv.drop 1)) with
  | .error message => ⟨[], .exit message⟩
  | .ok (argFlag, args) =>
    let (errors, processDir) := getAllProcessFiles proc
    match processInfos [] processDir with
    | .error c => ⟨header :: errors, .undefined c⟩
    | .ok lines =>
      let (out, thrown) := printAll R argFlag args lines
      ⟨header :: errors ++ out, if thrown then .thrown else .returns⟩

variable {R} {proc proc' : Except Int (List DirEntry)} {argv : List String} {args : Arguments} {rets : List Ret}

/-! ## The options -/

/-- What a return of `getopt` makes `main` say before it exits. -/
def refusal : Ret → Option String
  | .opt 't' (some optarg) => if optarg ∉ types then some "Invalid TYPE option." else none
  | .unknown => some "Error arguments."
  | _ => none

/-- The options, with their values. -/
def given : List Ret → List (Char × Option String) :=
  List.filterMap fun
    | .opt c (some optarg) => some (c, some optarg)
    | _ => none

/-- What the options of a log select. -/
def select (log : List (Char × Option String)) : Arguments :=
  ⟨lastWrite (fun _ => none) log 'c', lastWrite (fun _ => none) log 't', lastWrite (fun _ => none) log 'f'⟩

/-- **The selection**: for each letter the last value given. -/
def asked (rets : List Ret) : Arguments := select (given rets)

theorem select_c (log : List (Char × Option String)) (v : String) :
    select (log ++ [('c', some v)]) = { select log with c := some v } := by
  unfold select
  rw [lastWrite_snoc_self, lastWrite_snoc_other (by decide), lastWrite_snoc_other (by decide)]

theorem select_t (log : List (Char × Option String)) (v : String) :
    select (log ++ [('t', some v)]) = { select log with t := some v } := by
  unfold select
  rw [lastWrite_snoc_self, lastWrite_snoc_other (by decide), lastWrite_snoc_other (by decide)]

theorem select_f (log : List (Char × Option String)) (v : String) :
    select (log ++ [('f', some v)]) = { select log with f := some v } := by
  unfold select
  rw [lastWrite_snoc_self, lastWrite_snoc_other (by decide), lastWrite_snoc_other (by decide)]

theorem select_other (log : List (Char × Option String)) {c : Char} (hc : c ≠ 'c') (ht : c ≠ 't') (hf : c ≠ 'f')
    (v : String) : select (log ++ [(c, some v)]) = select log := by
  unfold select
  rw [lastWrite_snoc_other hc, lastWrite_snoc_other ht, lastWrite_snoc_other hf]

theorem refusal_other {c : Char} {v : Option String} (ht : ∀ optarg, c = 't' → v = some optarg → False) :
    refusal (.opt c v) = none := by
  unfold refusal
  split
  · rename_i optarg heq
    cases heq
    exact absurd rfl (ht optarg rfl)
  · rename_i heq
    cases heq
  · rfl

/-- A return that makes `main` exit. -/
theorem parseArgs_refused (argFlag : Bool) (args : Arguments) {message : String}
    (h : rets.findSome? refusal = some message) : parseArgs argFlag args rets = .error message := by
  fun_induction parseArgs argFlag args rets with
  | case1 => cases h
  | case2 _ args optarg rets ih => exact ih h
  | case3 _ args optarg rets hnot =>
      rw [List.findSome?_cons, refusal, if_pos hnot] at h
      cases h
      rfl
  | case4 _ args optarg rets hin ih =>
      rw [List.findSome?_cons, refusal, if_neg hin] at h
      exact ih h
  | case5 _ args optarg rets ih => exact ih h
  | case6 _ args rets =>
      cases h
      rfl
  | case7 argFlag args c v rets hc ht hf ih =>
      rw [List.findSome?_cons, refusal_other ht] at h
      exact ih h

theorem given_cons (c : Char) (v : String) (rets : List Ret) :
    given (.opt c (some v) :: rets) = (c, some v) :: given rets := rfl

theorem given_cons_none (c : Char) (rets : List Ret) : given (.opt c none :: rets) = given rets := rfl

/-- **Options that are accepted** add up to the selection; `arg_flag` is set if there is one. -/
theorem parseArgs_accepted {argFlag : Bool} {log : List (Char × Option String)} (hargs : args = select log)
    (h : rets.findSome? refusal = none) :
    ∃ flag, parseArgs argFlag args rets = .ok (flag, select (log ++ given rets)) ∧
      (flag = false → argFlag = false ∧ select (log ++ given rets) = args) := by
  -- `log` is what the options so far have given
  fun_induction parseArgs argFlag args rets generalizing log with
  | case1 argFlag args =>
      subst hargs
      refine ⟨argFlag, ?_, fun hflag => ⟨hflag, ?_⟩⟩
      · rw [given, List.filterMap_nil, List.append_nil]
      · rw [given, List.filterMap_nil, List.append_nil]
  | case2 _ args optarg rets ih =>
      have hmore : { args with c := some optarg } = select (log ++ [('c', some optarg)]) := by rw [select_c, hargs]
      obtain ⟨flag, hok, hflag⟩ := ih hmore h
      rw [List.append_assoc, List.singleton_append, ← given_cons] at hok hflag
      exact ⟨flag, hok, fun hf => absurd (hflag hf).1 (by decide)⟩
  | case3 _ args optarg rets hnot =>
      rw [List.findSome?_cons, refusal, if_pos hnot] at h
      cases h
  | case4 _ args optarg rets hin ih =>
      rw [List.findSome?_cons, refusal, if_neg hin] at h
      have hmore : { args with t := some optarg } = select (log ++ [('t', some optarg)]) := by rw [select_t, hargs]
      obtain ⟨flag, hok, hflag⟩ := ih hmore h
      rw [List.append_assoc, List.singleton_append, ← given_cons] at hok hflag
      exact ⟨flag, hok, fun hf => absurd (hflag hf).1 (by decide)⟩
  | case5 _ args optarg rets ih =>
      have hmore : { args with f := some optarg } = select (log ++ [('f', some optarg)]) := by rw [select_f, hargs]
      obtain ⟨flag, hok, hflag⟩ := ih hmore h
      rw [List.append_assoc, List.singleton_append, ← given_cons] at hok hflag
      exact ⟨flag, hok, fun hf => absurd (hflag hf).1 (by decide)⟩
  | case6 => cases h
  | case7 argFlag args c v rets hc ht hf ih =>
      rw [List.findSome?_cons, refusal_other ht] at h
      cases v with
      | none =>
          rw [given_cons_none]
          exact ih hargs h
      | some v =>
          -- an option that `main` does not know
          have hsame : select (log ++ [(c, some v)]) = select log :=
            select_other log (fun he => hc v he rfl) (fun he => ht v he rfl) (fun he => hf v he rfl) v
          have hmore : args = select (log ++ [(c, some v)]) := by rw [hsame, hargs]
          obtain ⟨flag, hok, hflag⟩ := ih hmore h
          rw [List.append_assoc, List.singleton_append, ← given_cons] at hok hflag
          exact ⟨flag, hok, hflag⟩

/-! ## The rows -/

/-- The processes whose rows are shown. -/
def listed (proc : Except Int (List DirEntry)) : List DirEntry := (getAllProcessFiles proc).2

/-- Their rows. -/
def allLines (ds : List DirEntry) : List Line := ds.flatMap fun d => ownLines d.name d.answers

theorem processInfos_shown {ds : List DirEntry} (h : ∀ d ∈ ds, d.answers.Shown) (lines : List Line) :
    processInfos lines ds = .ok (lines ++ allLines ds) := by
  induction ds generalizing lines with
  | nil =>
      rw [allLines, List.flatMap_nil, List.append_nil]
      rfl
  | cons d ds ih =>
      rw [processInfos, getProcessInfo_shown (h d List.mem_cons_self)]
      refine (ih (fun d' hd' => h d' (List.mem_cons_of_mem d hd')) (lines ++ ownLines d.name d.answers)).trans ?_
      rw [List.append_assoc]
      rfl

theorem processInfos_error {ds : List DirEntry} (h : ¬ ∀ d ∈ ds, d.answers.Shown) (lines : List Line) :
    ∃ c, processInfos lines ds = .error c := by
  induction ds generalizing lines with
  | nil => exact absurd (fun _ hd => absurd hd List.not_mem_nil) h
  | cons d ds ih =>
      rw [processInfos]
      -- the loop comes to the first process that cannot be shown
      by_cases hd : d.answers.Shown
      · have hrest : ¬ ∀ d' ∈ ds, d'.answers.Shown := by
          intro hall
          refine h fun d' hd' => ?_
          rcases List.mem_cons.mp hd' with rfl | hd'
          · exact hd
          · exact hall d' hd'
        rw [getProcessInfo_shown hd]
        exact ih hrest _
      · obtain ⟨c, hc⟩ : ∃ c, getProcessInfo d.name d.answers = .error c := getProcessInfo_error hd
        rw [hc]
        exact ⟨c, rfl⟩

/-! ## The selection -/

/-- Rows for which no expression throws, and rows that every option selects. -/
def Answered (R : Regex) (args : Arguments) (l : Line) : Bool := (outputFlag R args l).isSome
def Selected (R : Regex) (args : Arguments) (l : Line) : Bool := outputFlag R args l = some true

/-- **What is printed**: of the rows before the first one for which an expression throws, those that are selected.
    The two branches of `print_all` are one. -/
theorem printAll_eq {argFlag : Bool} (h : argFlag = false → args = ⟨none, none, none⟩) (ls : List Line) :
    printAll R argFlag args ls =
      (((ls.takeWhile (Answered R args)).filter (Selected R args)).map Line.text, !ls.all (Answered R args)) := by
  induction ls with
  | nil => rfl
  | cons l ls ih =>
      rw [printAll, ih]
      cases argFlag with
      | false =>
          -- without an option every row is printed and no expression tried; so it is with no expression given
          obtain rfl := h rfl
          have hans : Answered R ⟨none, none, none⟩ l = true := rfl
          have hsel : Selected R ⟨none, none, none⟩ l = true := rfl
          rw [List.takeWhile_cons_of_pos hans, List.filter_cons_of_pos hsel, List.all_cons, hans]
          rfl
      | true =>
          cases hflag : outputFlag R args l with
          | none =>
              have hans : Answered R args l = false := by rw [Answered, hflag]; rfl
              rw [List.takeWhile_cons_of_neg (by rw [hans]; decide), List.all_cons, hans]
              rfl
          | some flag =>
              have hans : Answered R args l = true := by rw [Answered, hflag]; rfl
              rw [List.takeWhile_cons_of_pos hans, List.all_cons, hans]
              cases flag with
              | true =>
                  have hsel : Selected R args l = true := by rw [Selected, hflag]; rfl
                  rw [List.filter_cons_of_pos hsel]
                  rfl
              | false =>
                  have hsel : ¬ Selected R args l = true := by rw [Selected, hflag]; decide
                  rw [List.filter_cons_of_neg hsel]
                  rfl

/-- An expression is found in a text. -/
def Matches (R : Regex) (expr text : String) : Prop := R.accepts expr = true ∧ R.search expr text = some true

/-- **A row that every option selects**: `-c` searches the command, `-t` compares the type, `-f` searches the name. -/
structure Selects (R : Regex) (args : Arguments) (l : Line) : Prop where
  command : ∀ expr, args.c = some expr → Matches R expr l.COMMAND
  type : ∀ expr, args.t = some expr → l.TYPE = expr
  name : ∀ expr, args.f = some expr → Matches R expr l.NAME

theorem searchFlag_eq_true {expr : Option String} {text : String} :
    searchFlag R expr text = some true ↔ ∀ e, expr = some e → Matches R e text := by
  cases expr with
  | none => exact iff_of_true rfl fun e he => by cases he
  | some e =>
      have hsearch : searchFlag R (some e) text = some true ↔ Matches R e text := by
        change (if R.accepts e = true then R.search e text else none) = some true ↔ _
        unfold Matches
        by_cases h : R.accepts e = true
        · rw [if_pos h, and_iff_right h]
        · rw [if_neg h]
          exact iff_of_false (by simp) fun hm => h hm.1
      rw [hsearch]
      exact ⟨fun h e' he' => Option.some.inj he' ▸ h, fun h => h e rfl⟩

theorem typeFlag_eq_true {expr : Option String} {type : String} :
    typeFlag expr type = true ↔ ∀ e, expr = some e → type = e := by
  cases expr with
  | none => exact iff_of_true rfl fun e he => by cases he
  | some e => simp [typeFlag]

theorem outputFlag_eq_true {l : Line} : outputFlag R args l = some true ↔
    searchFlag R args.c l.COMMAND = some true ∧ typeFlag args.t l.TYPE = true ∧
      searchFlag R args.f l.NAME = some true := by
  change ((searchFlag R args.c l.COMMAND).bind fun c => (searchFlag R args.f l.NAME).bind fun f =>
    some (c && typeFlag args.t l.TYPE && f)) = some true ↔ _
  cases searchFlag R args.c l.COMMAND with
  | none => simp
  | some c =>
      cases searchFlag R args.f l.NAME with
      | none => simp
      | some f => simp [and_assoc]

theorem selected_iff {l : Line} : Selected R args l = true ↔ Selects R args l := by
  unfold Selected
  rw [decide_eq_true_iff, outputFlag_eq_true, searchFlag_eq_true, typeFlag_eq_true, searchFlag_eq_true]
  exact ⟨fun ⟨hc, ht, hf⟩ => ⟨hc, ht, hf⟩, fun ⟨hc, ht, hf⟩ => ⟨hc, ht, hf⟩⟩

instance (R : Regex) (args : Arguments) (l : Line) : Decidable (Selects R args l) := decidable_of_iff _ selected_iff

/-! ## The program -/

/-- What `getopt` returns for a command line. -/
def returns (argv : List String) : List Ret := scan optstring none (argv.drop 1)

/-- The lines before the rows. -/
def opening (proc : Except Int (List DirEntry)) : List String := header :: (getAllProcessFiles proc).1

theorem select_nil : select [] = ⟨none, none, none⟩ := rfl

theorem main_refused {message : String} (h : (returns argv).findSome? refusal = some message) :
    main R proc argv = ⟨[], .exit message⟩ := by
  have hparse : parseArgs false ⟨none, none, none⟩ (scan optstring none (argv.drop 1)) = .error message :=
    parseArgs_refused _ _ h
  unfold main
  rw [hparse]

/-- The rows of the processes, or nothing that is defined. -/
theorem main_accepted (h : (returns argv).findSome? refusal = none) :
    main R proc argv =
      match processInfos [] (listed proc) with
      | .error c => ⟨opening proc, .undefined c⟩
      | .ok lines =>
        ⟨opening proc ++ ((lines.takeWhile (Answered R (asked (returns argv)))).filter
          (Selected R (asked (returns argv)))).map Line.text,
          if lines.all (Answered R (asked (returns argv))) then .returns else .thrown⟩ := by
  obtain ⟨flag, hok, hflag⟩ := @parseArgs_accepted _ _ false [] select_nil.symm h
  rw [List.nil_append] at hok hflag
  unfold main
  rw [show scan optstring none (argv.drop 1) = returns argv from rfl, hok]
  change (match processInfos [] (listed proc) with | .error c => _ | .ok lines => _) = _
  cases processInfos [] (listed proc) with
  | error c => rfl
  | ok lines =>
      dsimp only
      -- no flag means no option, so the selection is the empty one
      rw [printAll_eq (fun hf => (hflag hf).2)]
      unfold asked
      cases lines.all (Answered R (select (given (returns argv)))) <;> rfl

theorem main_shown (h : (returns argv).findSome? refusal = none) (hshown : ∀ d ∈ listed proc, d.answers.Shown) :
    main R proc argv =
      ⟨opening proc ++ (((allLines (listed proc)).takeWhile (Answered R (asked (returns argv)))).filter
        (Selected R (asked (returns argv)))).map Line.text,
        if (allLines (listed proc)).all (Answered R (asked (returns argv))) then .returns else .thrown⟩ := by
  rw [main_accepted h, processInfos_shown hshown, List.nil_append]

/-- Where no expression throws. -/
theorem main_selects (h : (returns argv).findSome? refusal = none) (hshown : ∀ d ∈ listed proc, d.answers.Shown)
    (hanswered : ∀ l ∈ allLines (listed proc), Answered R (asked (returns argv)) l = true) :
    main R proc argv =
      ⟨opening proc ++ ((allLines (listed proc)).filter fun l => Selects R (asked (returns argv)) l).map Line.text,
        .returns⟩ := by
  have hall : (allLines (listed proc)).all (Answered R (asked (returns argv))) = true := List.all_eq_true.mpr hanswered
  have htake : (allLines (listed proc)).takeWhile (Answered R (asked (returns argv))) = allLines (listed proc) :=
    List.takeWhile_eq_self_iff.mpr hanswered
  have hsame : ∀ l, Selected R (asked (returns argv)) l = decide (Selects R (asked (returns argv)) l) := by
    intro l
    rw [Bool.eq_iff_iff, selected_iff, decide_eq_true_iff]
  rw [main_shown h hshown, if_pos hall, htake, List.filter_congr fun l _ => hsame l]

/-- **What the program prints**: refused options print nothing. Otherwise, if every process can be shown and no
    expression throws, it is the rows of all processes in the order of `/proc`, of which each option selects some;
    of several options with one letter the last one counts. -/
theorem main_lists (R : Regex) (hshown : ∀ d ∈ listed proc, d.answers.Shown)
    (hanswered : ∀ l ∈ allLines (listed proc), Answered R (asked (returns argv)) l = true) :
    main R proc argv =
      match (returns argv).findSome? refusal with
      | some message => ⟨[], .exit message⟩
      | none =>
        ⟨opening proc ++ ((allLines (listed proc)).filter fun l => Selects R (asked (returns argv)) l).map Line.text,
          .returns⟩ := by
  cases h : (returns argv).findSome? refusal with
  | some message => exact main_refused h
  | none => exact main_selects h hshown hanswered

/-- An engine that never throws answers for every row. -/
theorem answered_of_total (h : ∀ expr text, (regexSearch R expr text).isSome) (l : Line) :
    Answered R args l = true := by
  have hflag : ∀ expr text, (searchFlag R expr text).isSome := by
    intro expr text
    cases expr with
    | none => rfl
    | some expr => exact h expr text
  obtain ⟨c, hc⟩ := Option.isSome_iff_exists.mp (hflag args.c l.COMMAND)
  obtain ⟨f, hf⟩ := Option.isSome_iff_exists.mp (hflag args.f l.NAME)
  unfold Answered outputFlag
  rw [hc, hf]
  rfl

/-- `std::regex` on expressions without a special character. -/
def literalRegex : Regex := ⟨fun _ => true, fun expr text => some (find expr.toList text.toList).isSome⟩

/-- A process of another user, whose links and descriptors may not be read. -/
def deniedAnswers (comm : String) : Answers where
  comm := comm.toList
  owner := .ok 0
  ownerJunk := 0
  passwd := samplePasswd
  links := ⟨0, fun _ => denied, fun _ => ⟨emptyStat, emptyStat⟩⟩
  fd := .error EACCES
  maps := []

theorem deniedAnswers_shown (comm : String) : (deniedAnswers comm).Shown := by
  refine fun _ => ⟨fun errno herrno => ?_, fun t ht => ?_⟩
  · cases herrno
    rfl
  · cases ht

theorem deniedAnswers_settled (comm : String) : (deniedAnswers comm).Settled where
  owner := rfl
  links := by
    intro link hread
    cases hread
  fd := by
    intro files hfiles
    cases hfiles

def directoryStat : Stat := ⟨0o040555, 1⟩

def sampleEntry (name comm : String) : DirEntry :=
  ⟨name, .ok directoryStat, directoryStat, deniedAnswers comm⟩

theorem sampleEntry_shown (ps : List (String × String)) :
    ∀ d ∈ listed (.ok (ps.map fun e => sampleEntry e.1 e.2)), d.answers.Shown := by
  intro d hd
  obtain ⟨e, -, rfl⟩ := List.mem_map.mp (List.mem_filter.mp hd).1
  exact deniedAnswers_shown e.2

theorem main_lists_sample :
    main literalRegex (.ok ([("7", "cat"), ("8", "sh")].map fun e => sampleEntry e.1 e.2))
      ["hw1", "-c", "sh", "-ccat"] =
      match (returns ["hw1", "-c", "sh", "-ccat"]).findSome? refusal with
      | some message => ⟨[], .exit message⟩
      | none =>
        ⟨opening (.ok ([("7", "cat"), ("8", "sh")].map fun e => sampleEntry e.1 e.2)) ++
          ((allLines (listed (.ok ([("7", "cat"), ("8", "sh")].map fun e => sampleEntry e.1 e.2)))).filter fun l =>
            Selects literalRegex (asked (returns ["hw1", "-c", "sh", "-ccat"])) l).map Line.text, .returns⟩ :=
  main_lists literalRegex (sampleEntry_shown _) fun l _ => answered_of_total (fun _ _ => rfl) l

/-- **When the program reads where it may not**: exactly when its options are accepted and a process cannot be
    shown. -/
theorem main_undefined_iff (R : Regex) (proc : Except Int (List DirEntry)) (argv : List String) :
    (∃ c, (main R proc argv).ending = .undefined c) ↔
      (returns argv).findSome? refusal = none ∧ ∃ d ∈ listed proc, ¬ d.answers.Shown := by
  cases h : (returns argv).findSome? refusal with
  | some message =>
      rw [main_refused h]
      exact iff_of_false (fun ⟨c, hc⟩ => by cases hc) fun hn => by cases hn.1
  | none =>
      rw [and_iff_right rfl]
      by_cases hall : ∀ d ∈ listed proc, d.answers.Shown
      · rw [main_shown h hall]
        refine iff_of_false ?_ fun ⟨d, hd, hnot⟩ => hnot (hall d hd)
        rintro ⟨c, hc⟩
        dsimp only at hc
        split at hc <;> cases hc
      · obtain ⟨c, hc⟩ := processInfos_error hall []
        rw [main_accepted h, hc]
        refine iff_of_true ⟨c, rfl⟩ ?_
        by_contra hnone
        exact hall fun d hd => by_contra fun hnot => hnone ⟨d, hd, hnot⟩

/-! ## One process and the others -/

/-- **Two entries that differ only if they are of the process `p`.** What the system answers for any other is the same
    and all there; `errno` and what its uninitialised variables hold may be anything. -/
structure SameElse (p : String) (d d' : DirEntry) : Prop where
  name : d'.name = d.name
  stat : d.name ≠ p → d.stat.isOk ∧ d'.stat = d.stat
  settled : d.name ≠ p → d.answers.Settled ∧ d'.answers.Settled
  answers : d.name ≠ p → d'.answers.fresh = d.answers.fresh

/-- The rows of an entry, if it is a process. -/
def entryLines (d : DirEntry) : List Line := if isProcess d then ownLines d.name d.answers else []

theorem allLines_listed (ds : List DirEntry) : allLines (listed (.ok ds)) = ds.flatMap entryLines := by
  have hlisted : ∀ ds, listed (.ok ds) = ds.filter isProcess := fun _ => rfl
  induction ds with
  | nil => rfl
  | cons d ds ih =>
      rw [List.flatMap_cons, ← ih, entryLines, hlisted, hlisted]
      by_cases h : isProcess d = true
      · rw [List.filter_cons_of_pos h, if_pos h]
        exact List.flatMap_cons
      · rw [List.filter_cons_of_neg h, if_neg h]
        rfl

theorem SameElse.isProcess {p : String} {d d' : DirEntry} (h : SameElse p d d') (hp : d.name ≠ p) :
    isProcess d' = isProcess d := by
  obtain ⟨hok, hstat⟩ := h.stat hp
  obtain ⟨info, hinfo⟩ := ok_of_isOk hok
  unfold Lsof.isProcess isDir
  rw [h.name, hstat, hinfo]
  rfl

/-- A process contributes nothing to the rows of the others. -/
theorem entryLines_own {p : String} {d : DirEntry} (hp : d.name = p) :
    (entryLines d).filter (fun l => l.PID ≠ p) = [] := by
  rw [List.filter_eq_nil_iff]
  intro l hl
  unfold entryLines at hl
  split at hl
  · rw [PID_of_mem_ownLines hl, hp]
    simp
  · cases hl

/-- What an entry contributes to them. -/
theorem entryLines_same {p : String} {d d' : DirEntry} (h : SameElse p d d') :
    (entryLines d').filter (fun l => l.PID ≠ p) = (entryLines d).filter (fun l => l.PID ≠ p) := by
  by_cases hp : d.name = p
  · -- its rows are all its own
    rw [entryLines_own hp, entryLines_own (h.name.trans hp)]
  · obtain ⟨hsettled, hsettled'⟩ := h.settled hp
    unfold entryLines
    rw [h.isProcess hp, h.name, ← ownLines_fresh hsettled, ← ownLines_fresh hsettled', h.answers hp]

theorem allLines_same {p : String} {ds ds' : List DirEntry} (h : List.Forall₂ (SameElse p) ds ds') :
    (allLines (listed (.ok ds'))).filter (fun l => l.PID ≠ p)
      = (allLines (listed (.ok ds))).filter (fun l => l.PID ≠ p) := by
  rw [allLines_listed, allLines_listed]
  induction h with
  | nil => rfl
  | cons hd _ ih =>
      rw [List.flatMap_cons, List.flatMap_cons, List.filter_append, List.filter_append, entryLines_same hd, ih]

/-- The rows of a run that is defined. -/
theorem processInfos_ok {ds : List DirEntry} {lines : List Line} (h : processInfos [] ds = .ok lines) :
    lines = allLines ds := by
  by_cases hall : ∀ d ∈ ds, d.answers.Shown
  · rw [processInfos_shown hall, List.nil_append] at h
    cases h
    rfl
  · obtain ⟨c, hc⟩ := processInfos_error hall []
    rw [hc] at h
    cases h

/-- **A process changes no row but its own**, whatever it is and whatever it leaves behind in `errno` and on the
    stack: the other rows that two runs record are the same, in the same order. -/
theorem processes_isolated {p : String} {ds ds' : List DirEntry} (h : List.Forall₂ (SameElse p) ds ds')
    {lines lines' : List Line} (hrun : processInfos [] (listed (.ok ds)) = .ok lines)
    (hrun' : processInfos [] (listed (.ok ds')) = .ok lines') :
    lines'.filter (fun l => l.PID ≠ p) = lines.filter (fun l => l.PID ≠ p) := by
  rw [processInfos_ok hrun, processInfos_ok hrun']
  exact allLines_same h

/-- The process 8 may be any other. -/
theorem processes_isolated_sample :
    (allLines (listed (.ok ([("7", "cat"), ("8", "vi")].map fun e => sampleEntry e.1 e.2)))).filter
      (fun l => l.PID ≠ "8")
      = (allLines (listed (.ok ([("7", "cat"), ("8", "sh")].map fun e => sampleEntry e.1 e.2)))).filter
          fun l => l.PID ≠ "8" := by
  have hsame : SameElse "8" (sampleEntry "7" "cat") (sampleEntry "7" "cat") :=
    ⟨rfl, fun _ => ⟨rfl, rfl⟩, fun _ => ⟨deniedAnswers_settled "cat", deniedAnswers_settled "cat"⟩, fun _ => rfl⟩
  have hother : SameElse "8" (sampleEntry "8" "sh") (sampleEntry "8" "vi") :=
    ⟨rfl, fun hne => absurd rfl hne, fun hne => absurd rfl hne, fun hne => absurd rfl hne⟩
  refine processes_isolated (.cons hsame (.cons hother .nil)) ?_ ?_
  · exact processInfos_shown (sampleEntry_shown [("7", "cat"), ("8", "sh")]) []
  · exact processInfos_shown (sampleEntry_shown [("7", "cat"), ("8", "vi")]) []

/-! ## The types of rows -/

theorem typeName_mem (info : Stat) : typeName info ∈ types := by
  unfold typeName types
  split_ifs <;> decide

/-- A type that `-t` knows, or none. -/
def Typed (type : String) : Prop := type = "" ∨ type ∈ types

theorem getLinkInfo_typed {link : String} {r : Results} {junk : Junk} {PID : String} {s : Vars}
    (h : Typed s.TYPE) : Typed (getLinkInfo link r junk PID s).TYPE := by
  cases hr : r.readlink with
  | error e =>
      by_cases he : e = EACCES
      · subst he
        have htype : (getLinkInfo link r junk PID s).TYPE = "unknown" := congrArg Prod.fst (getLinkInfo_denied hr)
        rw [htype]
        exact Or.inr (by decide)
      · have htype : (getLinkInfo link r junk PID s).TYPE = s.TYPE := congrArg Prod.fst (getLinkInfo_failed hr he)
        rw [htype]
        exact h
  | ok target =>
      have htype : (getLinkInfo link r junk PID s).TYPE = typeName (statBuffer r.type junk.type) := by
        simp only [getLinkInfo, hr, getInode, getType, stat]
        cases r.type <;> rfl
      rw [htype]
      exact Or.inr (typeName_mem _)

theorem linkRows_typed {COMMAND PID USER : String} {run : Run} {l : Line} (h : l ∈ linkRows COMMAND PID USER run) :
    Typed l.TYPE := by
  have hcwd : Typed (afterCwd run PID).TYPE := getLinkInfo_typed (Or.inl rfl)
  have hroot : Typed (afterRoot run PID).TYPE := getLinkInfo_typed hcwd
  have hexe : Typed (varsAfter run PID .exe).TYPE := getLinkInfo_typed hroot
  have hrows : linkRows COMMAND PID USER run = [(afterCwd run PID).line COMMAND PID USER "cwd",
    (afterRoot run PID).line COMMAND PID USER "root", (varsAfter run PID .exe).line COMMAND PID USER "exe"] := rfl
  rw [hrows] at h
  simp only [List.mem_cons, List.not_mem_nil, or_false] at h
  rcases h with rfl | rfl | rfl
  · exact hcwd
  · exact hroot
  · exact hexe

theorem rowOf_typed (t : List Token) : Typed (.ofList (rowOf t).type) := by
  unfold rowOf
  dsimp only
  split_ifs
  · exact Or.inr (by decide)
  · exact Or.inr (by decide)

theorem mapped_typed {maps : List Char} {e : FdInfo} (h : e ∈ mapped maps) : Typed (.ofList e.type) := by
  unfold mapped at h
  cases hmi : getMemInfo maps with
  | error err =>
      rw [hmi] at h
      cases h
  | ok mi =>
      rw [hmi] at h
      rw [getMemInfo_eq maps (getMemInfo_ok hmi).1] at hmi
      cases hmi
      obtain ⟨t, -, rfl⟩ := List.mem_map.mp h
      exact rowOf_typed t

theorem rwuInfo_typed (f : Opened) : Typed (.ofList (rwuInfo f).type) := by
  have hcut : ∀ e : FdInfo, Typed (.ofList e.type) → Typed (.ofList (anonName (cutDeleted e)).type) := by
    intro e he
    rw [anonName_eq]
    unfold cutDeleted
    cases find deletedStart e.name with
    | none => exact he
    | some pos => exact Or.inr (show String.ofList "unknown".toList ∈ types by decide)
  unfold rwuInfo
  dsimp only
  apply hcut
  have htype : Typed (String.ofList (typeName (statBuffer f.type f.junk.type)).toList) := by
    rw [String.ofList_toList]
    exact Or.inr (typeName_mem _)
  cases f.readlink with
  | ok link => exact htype
  | error errno => exact htype

/-- Every row has a type that `-t` knows, or none. -/
theorem ownLines_typed {PID : String} {a : Answers} {l : Line} (h : l ∈ ownLines PID a) : Typed l.TYPE := by
  unfold ownLines at h
  cases hcommand : getCommand a.comm with
  | none =>
      rw [hcommand] at h
      cases h
  | some COMMAND =>
      rw [hcommand] at h
      rcases List.mem_append.mp h with hrest | hfd
      · rcases List.mem_append.mp hrest with hlink | hmem
        · exact linkRows_typed hlink
        · obtain ⟨e, he, rfl⟩ := List.mem_map.mp hmem
          exact mapped_typed he
      · cases hopen : a.fd with
        | ok entries =>
            rw [hopen] at hfd
            obtain ⟨e, he, rfl⟩ := List.mem_map.mp hfd
            obtain ⟨f, -, rfl⟩ := List.mem_map.mp he
            exact rwuInfo_typed f
        | error errno =>
            rw [hopen] at hfd
            obtain rfl := List.mem_singleton.mp hfd
            exact Or.inl rfl

/-- Rows sorted into the classes of a key, and the rows of these classes. -/
theorem flatMap_filter_perm {α β : Type} [DecidableEq β] (key : α → β) {ks : List β} (hks : ks.Nodup) (l : List α) :
    (ks.flatMap fun k => l.filter fun a => key a = k).Perm (l.filter fun a => key a ∈ ks) := by
  induction ks with
  | nil => simp
  | cons k ks ih =>
      obtain ⟨hk, hrest⟩ := List.nodup_cons.mp hks
      have hin : (l.filter fun a => key a ∈ k :: ks).filter (fun a => key a = k) = l.filter fun a => key a = k := by
        rw [List.filter_filter]
        refine List.filter_congr fun a _ => ?_
        rw [Bool.eq_iff_iff]
        simp only [Bool.and_eq_true, decide_eq_true_iff]
        exact ⟨And.left, fun h => ⟨h, h ▸ List.mem_cons_self⟩⟩
      have hout : (l.filter fun a => key a ∈ k :: ks).filter (fun a => !decide (key a = k))
          = l.filter fun a => key a ∈ ks := by
        rw [List.filter_filter]
        refine List.filter_congr fun a _ => ?_
        rw [Bool.eq_iff_iff]
        simp only [Bool.and_eq_true, decide_eq_true_iff, Bool.not_eq_true', decide_eq_false_iff_not, List.mem_cons]
        exact ⟨fun h => h.2.resolve_left h.1, fun h => ⟨fun he => hk (he ▸ h), Or.inr h⟩⟩
      rw [List.flatMap_cons]
      refine ((ih hrest).append_left _).trans ?_
      have hsplit := List.filter_append_perm (fun a => decide (key a = k)) (l.filter fun a => key a ∈ k :: ks)
      rw [hin, hout] at hsplit
      exact hsplit

/-- The selection of `-t` alone. -/
theorem selects_type {t : Option String} {l : Line} :
    Selects R ⟨none, t, none⟩ l ↔ ∀ expr, t = some expr → l.TYPE = expr := by
  refine ⟨Selects.type, fun h => ⟨?_, h, ?_⟩⟩
  · intro expr hexpr
    cases hexpr
  · intro expr hexpr
    cases hexpr

theorem returns_type (name t : String) : returns [name, "-t", t] = [.opt 't' (some t)] :=
  (scan_separate (by decide) rfl : scan optstring none ([attach 't' "", t] ++ []) = _)

/-- **The types divide the rows.** The six listings that `-t` can ask for have each row of the whole listing once,
    but for the rows that have no type. -/
theorem types_partition (R : Regex) (name : String) (hshown : ∀ d ∈ listed proc, d.answers.Shown) :
    ∃ rows : List Line, main R proc [name] = ⟨opening proc ++ rows.map Line.text, .returns⟩ ∧
      (∀ t ∈ types, main R proc [name, "-t", t]
        = ⟨opening proc ++ (rows.filter fun l => l.TYPE = t).map Line.text, .returns⟩) ∧
      (types.flatMap fun t => rows.filter fun l => l.TYPE = t).Perm (rows.filter fun l => l.TYPE ≠ "") := by
  refine ⟨allLines (listed proc), ?_, ?_, ?_⟩
  · have hnone : (returns [name]).findSome? refusal = none := rfl
    have hall : (allLines (listed proc)).filter (fun l => Selects R (asked (returns [name])) l)
        = allLines (listed proc) := by
      rw [List.filter_eq_self]
      intro l _
      refine decide_eq_true (selects_type.mpr ?_)
      intro expr hexpr
      cases hexpr
    rw [main_selects hnone hshown fun l _ => rfl, hall]
  · intro t ht
    have hreturns := returns_type name t
    have hnone : (returns [name, "-t", t]).findSome? refusal = none := by
      rw [hreturns, List.findSome?_cons, refusal, if_neg (fun hnot => hnot ht)]
      rfl
    have hasked : asked (returns [name, "-t", t]) = ⟨none, some t, none⟩ := by
      rw [hreturns]
      rfl
    rw [main_selects hnone hshown fun l _ => by rw [hasked]; rfl, hasked]
    have hselects : ∀ l : Line, Selects R ⟨none, some t, none⟩ l ↔ l.TYPE = t := by
      intro l
      refine selects_type.trans ⟨fun h => h t rfl, fun h expr hexpr => ?_⟩
      cases hexpr
      exact h
    rw [List.filter_congr fun l _ => decide_eq_decide.mpr (hselects l)]
  · refine (flatMap_filter_perm Line.TYPE (by decide) _).trans ?_
    rw [List.filter_congr fun l hl => ?_]
    obtain ⟨d, -, hrow⟩ := List.mem_flatMap.mp hl
    refine decide_eq_decide.mpr ⟨fun hmem he => ?_, fun hne => (ownLines_typed hrow).resolve_left hne⟩
    rw [he] at hmem
    exact absurd hmem (by decide)

theorem types_partition_sample :
    ∃ rows : List Line, main literalRegex (.ok [sampleEntry "7" "cat"]) ["hw1"]
        = ⟨opening (.ok [sampleEntry "7" "cat"]) ++ rows.map Line.text, .returns⟩ ∧
      (∀ t ∈ types, main literalRegex (.ok [sampleEntry "7" "cat"]) ["hw1", "-t", t]
        = ⟨opening (.ok [sampleEntry "7" "cat"]) ++ (rows.filter fun l => l.TYPE = t).map Line.text, .returns⟩) ∧
      (types.flatMap fun t => rows.filter fun l => l.TYPE = t).Perm (rows.filter fun l => l.TYPE ≠ "") :=
  types_partition literalRegex "hw1" (sampleEntry_shown [("7", "cat")])

end AdvUnix.Lsof
