import AdvUnix.Lib.Getopt

/-!
# `Logger.CommandLine` — the command line of the launcher

`main` of `hw2.cpp` up to its `execvp`. The words before the first `--` are copied to `log_argv` and scanned
by `getopt`; the command starts behind that `--` or, without one, at an index computed from the number of
options. The three agree on the vector of the usage line for some of its forms only (`launcher_runs`).
-/

namespace AdvUnix.Logger

open Getopt

/-! ## `main` -/

/-- The size of `log_argv` and `cmd_argv`. -/
def argvSize : Nat := 10

/-- What `print_err` prints. -/
def usageLines : List String := [
  "usage: ./logger [-o file] [-p sopath] [--] cmd [cmd args ...]",
  "\t-p: set the path to logger.so, default = ./logger.so",
  "\t-o: print output to file, print to \"stderr\" if no file specified",
  "\t--: separate the arguments for logger and for the command"]

/-- The variables that the command finds in its environment. -/
structure Environment where
  OUTPUT_FILE : String
  LD_PRELOAD : String
  deriving DecidableEq, Repr

/-- What `main` comes to: lines on `stderr` (those of `getopt` left out) and `exit(1)`, a store behind the end
    of an array, or `execvp`; `created` is the file that has been created or truncated before. -/
inductive Outcome
  | exit (stderr : List String) (created : Option String)
  | overflow
  | execvp (file : String) (argv : List String) (env : Environment) (created : Option String)
  deriving DecidableEq, Repr

/-- The loop that copies words to `log_argv`, from index `i` on: the words, and `dash_idx`. -/
def copyLog : Nat → List String → List String × Option Nat
  | _, [] => ([], none)
  | i, w :: ws =>
      if w = "--" then ([], some i)
      else
        let (log, dashIdx) := copyLog (i + 1) ws
        (w :: log, dashIdx)

/-- `"o:p:"` -/
def optstring : Spec
  | 'o' => some true
  | 'p' => some true
  | _ => none

/-- What the options have set: `out_file` and `so_path`, where given, and `log_argc`. -/
structure Options where
  outFile : Option String
  soPath : Option String
  logArgc : Nat
  deriving DecidableEq, Repr

def Options.init : Options := ⟨none, none, 0⟩

/-- The loop over the returns of `getopt`; it ends at the first `?`. -/
def parseOptions : Options → List Ret → Option Options
  | s, [] => some s
  | s, .opt 'o' (some optarg) :: rets =>
      parseOptions { s with outFile := some optarg, logArgc := s.logArgc + 1 } rets
  | s, .opt 'p' (some optarg) :: rets =>
      parseOptions { s with soPath := some optarg, logArgc := s.logArgc + 1 } rets
  | _, _ => none

def noCommand (created : Option String) : Outcome := .exit ["no command given."] created

/-- The last part of `main`: the command's words are copied to `cmd_argv`, with a null pointer behind
    them. -/
def execute (argv : List String) (cmdIdx : Nat) (s : Options) : Outcome :=
  if cmdIdx ≥ argv.length then noCommand s.outFile
  else if cmdIdx = 0 then .exit usageLines s.outFile
  else
    let cmdArgc := argv.length - cmdIdx
    if cmdArgc ≥ argvSize then .overflow
    else
      .execvp (argv.getD cmdIdx "") (argv.drop cmdIdx)
        ⟨s.outFile.getD "STDERR", s.soPath.getD "./logger.so"⟩ s.outFile

/-- `cmd_idx`: behind the first `--`, or computed from the number of options. -/
def cmdIdx : Option Nat → Options → Nat
  | some dashIdx, _ => dashIdx + 1
  | none, s => s.logArgc * 2 + 1

/-- `main`; `getopt` starts behind the first word. -/
def main (argv : List String) : Outcome :=
  if argv.length = 1 then noCommand none
  else
    let (logArgv, dashIdx) := copyLog 0 argv
    if logArgv.length > argvSize then .overflow
    else match parseOptions Options.init (scan optstring none (logArgv.drop 1)) with
      | none => .exit usageLines none
      | some s => execute argv (cmdIdx dashIdx s) s

/-! ## The usage line -/

/-- The value of an option: attached to it, or a word of its own. -/
inductive Value
  | attached (v : String) (nonempty : v ≠ "")
  | separate (v : String)

def Value.text : Value → String
  | .attached v _ => v
  | .separate v => v

/-- The words of an option. -/
def Value.words (c : Char) : Value → List String
  | .attached v _ => [attach c v]
  | .separate v => [attach c "", v]

/-- **A command line that follows the usage line**: `logger [-o file] [-p sopath] [--] cmd [cmd args ...]`. -/
structure Usage where
  logger : String
  out : Option Value
  so : Option Value
  soFirst : Bool
  dashes : Bool
  cmd : String
  args : List String
  logger_ne : logger ≠ "--"

namespace Usage

variable (u : Usage)

/-- The options, in the order they are given in. -/
def options : List (Char × Value) :=
  let out := (u.out.map fun v => ('o', v)).toList
  let so := (u.so.map fun v => ('p', v)).toList
  if u.soFirst then so ++ out else out ++ so

def optWords : List String := u.options.flatMap fun o => o.2.words o.1

def argv : List String :=
  u.logger :: u.optWords ++ (if u.dashes then ["--"] else []) ++ u.cmd :: u.args

end Usage

/-- **The launcher does what the usage line says.** -/
def Runs (u : Usage) : Prop :=
  ∃ created, main u.argv = .execvp u.cmd (u.cmd :: u.args)
    ⟨(u.out.map Value.text).getD "STDERR", (u.so.map Value.text).getD "./logger.so"⟩ created

/-- **The forms it can be relied on for**: no option's value is the word `--`; with `--` there are at most
    eight arguments; without it every option has its value in a word of its own, neither the command nor an
    argument looks like an option, and the options and the arguments are eight words at most. -/
def Plain (u : Usage) : Prop :=
  (∀ o ∈ u.options, o.2 ≠ .separate "--") ∧
    (u.dashes = true → u.args.length ≤ 8) ∧
    (u.dashes = false → (∀ o ∈ u.options, ∃ v, o.2 = .separate v) ∧
      (∀ w ∈ u.cmd :: u.args, optionLike w = false) ∧ u.optWords.length + u.args.length ≤ 8)

/-! ## The words before the first `--` -/

theorem copyLog_log (i : Nat) (ws : List String) : (copyLog i ws).1 = ws.takeWhile (· ≠ "--") := by
  induction ws generalizing i with
  | nil => rfl
  | cons w ws ih =>
      by_cases hw : w = "--"
      · simp [copyLog, hw]
      · simp [copyLog, hw, ih]

theorem copyLog_all {ws : List String} (h : "--" ∉ ws) (i : Nat) : copyLog i ws = (ws, none) := by
  induction ws generalizing i with
  | nil => rfl
  | cons w ws ih =>
      have hw : w ≠ "--" := fun heq => h (heq ▸ List.mem_cons_self)
      rw [copyLog, if_neg hw, ih (fun hmem => h (List.mem_cons_of_mem w hmem))]

theorem copyLog_dashes {pre : List String} (h : "--" ∉ pre) (i : Nat) (post : List String) :
    copyLog i (pre ++ "--" :: post) = (pre, some (i + pre.length)) := by
  induction pre generalizing i with
  | nil => rfl
  | cons w pre ih =>
      have hw : w ≠ "--" := fun heq => h (heq ▸ List.mem_cons_self)
      rw [List.cons_append, copyLog, if_neg hw, ih (fun hmem => h (List.mem_cons_of_mem w hmem)), List.length_cons]
      simp only [Prod.mk.injEq, Option.some.injEq, true_and]
      omega

/-! ## The options -/

/-- The letter of an option of the logger. -/
def Letter (c : Char) : Prop := c = 'o' ∨ c = 'p'

theorem Letter.ne_dash {c : Char} (h : Letter c) : c ≠ '-' := by
  rcases h with rfl | rfl <;> decide

theorem Letter.takes {c : Char} (h : Letter c) : optstring c = some true := by
  rcases h with rfl | rfl <;> rfl

theorem Usage.options_letter (u : Usage) : ∀ o ∈ u.options, Letter o.1 := by
  intro o ho
  have hcases : o ∈ (u.out.map fun v => ('o', v)).toList ∨ o ∈ (u.so.map fun v => ('p', v)).toList := by
    unfold Usage.options at ho
    simp only at ho
    split at ho
    · exact (List.mem_append.mp ho).symm
    · exact List.mem_append.mp ho
  rcases hcases with h | h
  · obtain ⟨v, -, rfl⟩ := Option.map_eq_some_iff.mp (Option.mem_toList.mp h)
    exact Or.inl rfl
  · obtain ⟨v, -, rfl⟩ := Option.map_eq_some_iff.mp (Option.mem_toList.mp h)
    exact Or.inr rfl

/-- **`getopt` returns an option** for its words. -/
theorem scan_words {c : Char} (h : Letter c) (v : Value) (ws : List String) :
    scan optstring none (v.words c ++ ws) = .opt c (some v.text) :: scan optstring none ws := by
  cases v with
  | attached v hv => exact scan_attached h.ne_dash h.takes hv
  | separate v => exact scan_separate h.ne_dash h.takes

/-- What an option sets. -/
def Options.put (s : Options) (c : Char) (v : String) : Options :=
  if c = 'o' then { s with outFile := some v, logArgc := s.logArgc + 1 }
  else { s with soPath := some v, logArgc := s.logArgc + 1 }

theorem parseOptions_opt {c : Char} (h : Letter c) (s : Options) (v : String) (rets : List Ret) :
    parseOptions s (.opt c (some v) :: rets) = parseOptions (s.put c v) rets := by
  rcases h with rfl | rfl <;> rfl

theorem parseOptions_words {opts : List (Char × Value)} (h : ∀ o ∈ opts, Letter o.1) (s : Options)
    (ws : List String) :
    parseOptions s (scan optstring none (opts.flatMap (fun o => o.2.words o.1) ++ ws))
      = parseOptions (opts.foldl (fun s o => s.put o.1 o.2.text) s) (scan optstring none ws) := by
  induction opts generalizing s with
  | nil => rfl
  | cons o opts ih =>
      have ho := h o List.mem_cons_self
      rw [List.flatMap_cons, List.append_assoc, scan_words ho, parseOptions_opt ho, List.foldl_cons]
      exact ih (fun o' ho' => h o' (List.mem_cons_of_mem o ho')) _

/-- What the options of a command line set. -/
def Usage.set (u : Usage) : Options := ⟨u.out.map Value.text, u.so.map Value.text, u.options.length⟩

theorem Usage.foldl_options (u : Usage) :
    u.options.foldl (fun s o => s.put o.1 o.2.text) Options.init = u.set := by
  obtain ⟨logger, out, so, soFirst, dashes, cmd, args, hlogger⟩ := u
  cases out <;> cases so <;> cases soFirst <;> rfl

theorem Usage.parse_options (u : Usage) (ws : List String) :
    parseOptions Options.init (scan optstring none (u.optWords ++ ws))
      = parseOptions u.set (scan optstring none ws) := by
  rw [← u.foldl_options]
  exact parseOptions_words u.options_letter Options.init ws

/-- Every return of `getopt` is counted. -/
theorem parseOptions_count {s s' : Options} {rets : List Ret} (h : parseOptions s rets = some s') :
    s'.logArgc = s.logArgc + rets.length := by
  induction s, rets using parseOptions.induct with
  | case1 s =>
      cases h
      rfl
  | case2 s optarg rets ih =>
      rw [ih h, List.length_cons]
      simp only
      omega
  | case3 s optarg rets ih =>
      rw [ih h, List.length_cons]
      simp only
      omega
  | case4 s rets hnil hout hso =>
      rw [parseOptions] at h
      · cases h
      all_goals assumption

/-- An option has two words, if its value is one of them. -/
theorem words_length (c : Char) (v : Value) : (v.words c).length ≤ 2 := by
  cases v <;> simp [Value.words]

theorem words_separate {c : Char} {v : Value} (h : 2 ≤ (v.words c).length) : ∃ w, v = .separate w := by
  cases v with
  | attached v hv => simp [Value.words] at h
  | separate v => exact ⟨v, rfl⟩

theorem flatMap_words_length (opts : List (Char × Value)) :
    (opts.flatMap fun o => o.2.words o.1).length ≤ 2 * opts.length ∧
      (2 * opts.length ≤ (opts.flatMap fun o => o.2.words o.1).length ↔ ∀ o ∈ opts, ∃ v, o.2 = .separate v) := by
  induction opts with
  | nil => exact ⟨Nat.le_refl 0, fun _ o ho => absurd ho List.not_mem_nil, fun _ => Nat.le_refl 0⟩
  | cons o opts ih =>
      obtain ⟨hle, hiff⟩ := ih
      have hone := words_length o.1 o.2
      rw [List.flatMap_cons, List.length_append, List.length_cons, List.forall_mem_cons, ← hiff]
      refine ⟨by omega, ?_⟩
      constructor
      · intro h
        have htwo : 2 ≤ (o.2.words o.1).length := by omega
        exact ⟨words_separate htwo, by omega⟩
      · rintro ⟨⟨v, hv⟩, h⟩
        have htwo : (o.2.words o.1).length = 2 := by
          rw [hv]
          rfl
        omega

theorem Usage.options_length (u : Usage) : u.options.length ≤ 2 := by
  obtain ⟨logger, out, so, soFirst, dashes, cmd, args, hlogger⟩ := u
  cases out <;> cases so <;> cases soFirst <;> simp [Usage.options]

theorem words_dashes {c : Char} (h : Letter c) {v : Value} : "--" ∈ v.words c ↔ v = .separate "--" := by
  have hword : ∀ x, "--" ≠ attach c x := fun x heq => attach_ne_dashes h.ne_dash heq.symm
  cases v with
  | attached v hv =>
      simp only [Value.words, List.mem_singleton, reduceCtorEq, iff_false]
      exact hword v
  | separate v =>
      simp only [Value.words, List.mem_cons, List.not_mem_nil, or_false, Value.separate.injEq]
      constructor
      · rintro (heq | heq)
        · exact absurd heq (hword "")
        · exact heq.symm
      · intro heq
        exact Or.inr heq.symm

theorem Usage.optWords_dashes (u : Usage) : "--" ∈ u.optWords ↔ ∃ o ∈ u.options, o.2 = .separate "--" := by
  unfold Usage.optWords
  rw [List.mem_flatMap]
  constructor
  · rintro ⟨o, ho, hmem⟩
    exact ⟨o, ho, (words_dashes (u.options_letter o ho)).mp hmem⟩
  · rintro ⟨o, ho, heq⟩
    exact ⟨o, ho, (words_dashes (u.options_letter o ho)).mpr heq⟩

/-- **A value `--` is cut off** from its option, and `getopt` misses it. -/
theorem parseOptions_cut {opts : List (Char × Value)} (h : ∀ o ∈ opts, Letter o.1)
    (hcut : ∃ o ∈ opts, o.2 = .separate "--") (s : Options) (ws : List String) :
    parseOptions s (scan optstring none
      ((opts.flatMap (fun o => o.2.words o.1) ++ ws).takeWhile (· ≠ "--"))) = none := by
  induction opts generalizing s with
  | nil =>
      obtain ⟨o, ho, -⟩ := hcut
      cases ho
  | cons o opts ih =>
      have ho := h o List.mem_cons_self
      rw [List.flatMap_cons, List.append_assoc]
      by_cases hhere : o.2 = .separate "--"
      · have hword : attach o.1 "" ≠ "--" := attach_ne_dashes ho.ne_dash
        rw [hhere]
        simp only [Value.words, List.cons_append, List.takeWhile_cons, hword, ne_eq, not_false_eq_true,
          decide_true, if_true, not_true, decide_false, Bool.false_eq_true, if_false, List.nil_append]
        rw [scan_missing ho.ne_dash ho.takes]
        rfl
      · have hpass : ∀ w ∈ o.2.words o.1, (decide (w ≠ "--")) = true := by
          intro w hw
          refine decide_eq_true ?_
          rintro rfl
          exact hhere ((words_dashes ho).mp hw)
        have hlater : ∃ o' ∈ opts, o'.2 = .separate "--" := by
          obtain ⟨o', ho', heq⟩ := hcut
          rcases List.mem_cons.mp ho' with rfl | hmem
          · exact absurd heq hhere
          · exact ⟨o', hmem, heq⟩
        rw [List.takeWhile_append_of_pos hpass, scan_words ho, parseOptions_opt ho]
        exact ih (fun o' ho' => h o' (List.mem_cons_of_mem o ho')) hlater _

/-! ## The command -/

theorem execute_drop {argv args : List String} {cmd : String} {i : Nat} (hi : i ≠ 0)
    (hdrop : argv.drop i = cmd :: args) (hfew : args.length ≤ 8) (s : Options) :
    execute argv i s = .execvp cmd (cmd :: args)
      ⟨s.outFile.getD "STDERR", s.soPath.getD "./logger.so"⟩ s.outFile := by
  have hlength : argv.length - i = args.length + 1 := by
    rw [← List.length_drop, hdrop, List.length_cons]
  have hfile : argv.getD i "" = cmd := by
    rw [List.getD_eq_getElem?_getD, ← List.head?_drop, hdrop]
    rfl
  have hin : ¬ i ≥ argv.length := by omega
  have hfit : ¬ argv.length - i ≥ argvSize := by
    rw [argvSize]
    omega
  unfold execute
  rw [if_neg hin, if_neg hi]
  simp only [if_neg hfit, hdrop, hfile]

/-- **What is executed** is the rest of the vector, nine words at most. -/
theorem execute_execvp {argv v : List String} {file : String} {env : Environment} {created : Option String}
    {i : Nat} {s : Options} (h : execute argv i s = .execvp file v env created) :
    v = argv.drop i ∧ v.length ≤ 9 := by
  unfold execute at h
  split at h
  · cases h
  · split at h
    · cases h
    · simp only at h
      split at h
      · cases h
      · rename_i hfit
        cases h
        rw [argvSize] at hfit
        rw [List.length_drop]
        exact ⟨rfl, by omega⟩

theorem main_execvp {argv v : List String} {file : String} {env : Environment} {created : Option String}
    (h : main argv = .execvp file v env created) :
    (copyLog 0 argv).1.length ≤ 10 ∧
      ∃ s, parseOptions Options.init (scan optstring none ((copyLog 0 argv).1.drop 1)) = some s ∧
        execute argv (cmdIdx (copyLog 0 argv).2 s) s = .execvp file v env created := by
  unfold main at h
  split at h
  · cases h
  · simp only at h
    split at h
    · cases h
    · rename_i hfit
      rw [argvSize] at hfit
      refine ⟨by omega, ?_⟩
      split at h
      · cases h
      · rename_i s hs
        exact ⟨s, hs, h⟩

theorem main_execute {argv log : List String} {dashIdx : Option Nat} {s : Options} (hlength : argv.length ≠ 1)
    (hlog : copyLog 0 argv = (log, dashIdx)) (hfit : log.length ≤ 10)
    (hs : parseOptions Options.init (scan optstring none (log.drop 1)) = some s) :
    main argv = execute argv (cmdIdx dashIdx s) s := by
  have hfit' : ¬ log.length > argvSize := by
    rw [argvSize]
    omega
  unfold main
  rw [if_neg hlength, hlog]
  simp only [if_neg hfit', hs]

/-- Where the command starts. -/
def Usage.start (u : Usage) : Nat := 1 + u.optWords.length + if u.dashes then 1 else 0

theorem Usage.argv_drop (u : Usage) : u.argv.drop u.start = u.cmd :: u.args := by
  unfold Usage.argv
  refine List.drop_left' ?_
  unfold Usage.start
  cases u.dashes with
  | false => simp [Nat.add_comm]
  | true =>
      simp only [if_true, List.length_append, List.length_cons, List.length_nil]
      omega

theorem Usage.argv_length (u : Usage) : u.argv.length = u.start + (1 + u.args.length) := by
  have hdrop := congrArg List.length u.argv_drop
  have hle : u.start ≤ u.argv.length := by
    by_contra hlt
    rw [List.drop_eq_nil_of_le (by omega)] at hdrop
    cases hdrop
  rw [List.length_drop, List.length_cons] at hdrop
  omega

theorem Usage.drop_inj {u : Usage} {i : Nat} (h : u.argv.drop i = u.cmd :: u.args) : i = u.start := by
  have hlength := congrArg List.length h
  rw [List.length_drop, u.argv_length, List.length_cons] at hlength
  omega

/-! ## Where the launcher can be relied on -/

theorem dashes_optionLike : optionLike "--" = true := rfl

theorem Usage.start_ne_zero (u : Usage) : u.start ≠ 0 := by
  unfold Usage.start
  omega

theorem Usage.start_dashes {u : Usage} (hd : u.dashes = true) : u.start = u.optWords.length + 2 := by
  simp only [Usage.start, hd, if_true]
  omega

theorem Usage.start_bare {u : Usage} (hd : u.dashes = false) : u.start = u.optWords.length + 1 := by
  simp only [Usage.start, hd, Bool.false_eq_true, if_false]
  omega

theorem Usage.argv_dashes {u : Usage} (hd : u.dashes = true) :
    u.argv = (u.logger :: u.optWords) ++ "--" :: u.cmd :: u.args := by
  simp [Usage.argv, hd]

theorem Usage.argv_bare {u : Usage} (hd : u.dashes = false) :
    u.argv = u.logger :: (u.optWords ++ u.cmd :: u.args) := by
  simp [Usage.argv, hd]

theorem Usage.optWords_plain {u : Usage} (h : ∀ o ∈ u.options, o.2 ≠ .separate "--") : "--" ∉ u.optWords := by
  intro hmem
  obtain ⟨o, ho, heq⟩ := u.optWords_dashes.mp hmem
  exact h o ho heq

/-- A vector without `--`. -/
theorem Usage.argv_no_dashes {u : Usage} (hd : u.dashes = false) (hopt : "--" ∉ u.optWords)
    (hwords : "--" ∉ u.cmd :: u.args) : "--" ∉ u.argv := by
  rw [Usage.argv_bare hd, List.mem_cons, List.mem_append, not_or, not_or]
  exact ⟨u.logger_ne.symm, hopt, hwords⟩

/-- **It is enough** that the options are set and the index is the one of the command. -/
theorem runs_of_index {u : Usage} {log : List String} {dashIdx : Option Nat}
    (hlog : copyLog 0 u.argv = (log, dashIdx)) (hfit : log.length ≤ 10)
    (hparse : parseOptions Options.init (scan optstring none (log.drop 1)) = some u.set)
    (hidx : cmdIdx dashIdx u.set = u.start) (hargs : u.args.length ≤ 8) : Runs u := by
  have hlength : u.argv.length ≠ 1 := by
    have hstart := u.start_ne_zero
    rw [u.argv_length]
    omega
  refine ⟨u.set.outFile, ?_⟩
  rw [main_execute hlength hlog hfit hparse, hidx, execute_drop u.start_ne_zero u.argv_drop hargs]
  rfl

theorem runs_dashes {u : Usage} (hd : u.dashes = true) (hopt : "--" ∉ u.optWords)
    (hargs : u.args.length ≤ 8) : Runs u := by
  have htwo : u.optWords.length ≤ 2 * u.options.length := (flatMap_words_length u.options).1
  have hfew := u.options_length
  have hpre : "--" ∉ u.logger :: u.optWords := by
    simp only [List.mem_cons, not_or]
    exact ⟨u.logger_ne.symm, hopt⟩
  have hlog := copyLog_dashes hpre 0 (u.cmd :: u.args)
  rw [← Usage.argv_dashes hd] at hlog
  have hparse : parseOptions Options.init (scan optstring none ((u.logger :: u.optWords).drop 1)) = some u.set := by
    have hwords := u.parse_options []
    rw [List.append_nil] at hwords
    exact hwords
  refine runs_of_index hlog ?_ hparse ?_ hargs
  · rw [List.length_cons]
    omega
  · rw [cmdIdx, Usage.start_dashes hd, List.length_cons]
    omega

theorem runs_bare {u : Usage} (hd : u.dashes = false) (hopt : "--" ∉ u.optWords)
    (hseparate : ∀ o ∈ u.options, ∃ v, o.2 = .separate v)
    (hwords : ∀ w ∈ u.cmd :: u.args, optionLike w = false)
    (hfew : u.optWords.length + u.args.length ≤ 8) : Runs u := by
  have hall : "--" ∉ u.argv := by
    refine Usage.argv_no_dashes hd hopt ?_
    intro hmem
    have hlike := hwords "--" hmem
    rw [dashes_optionLike] at hlike
    cases hlike
  have hparse : parseOptions Options.init (scan optstring none (u.argv.drop 1)) = some u.set := by
    rw [Usage.argv_bare hd, List.drop_succ_cons, List.drop_zero, u.parse_options, scan_operands hwords]
    rfl
  refine runs_of_index (copyLog_all hall 0) ?_ hparse ?_ (by omega)
  · rw [u.argv_length, Usage.start_bare hd]
    omega
  · have htwo : u.optWords.length ≤ 2 * u.options.length := (flatMap_words_length u.options).1
    have hsep : 2 * u.options.length ≤ u.optWords.length := (flatMap_words_length u.options).2.mpr hseparate
    rw [cmdIdx, Usage.start_bare hd]
    simp only [Usage.set]
    omega

/-- Without a `--` before the command, one behind it would be taken for it. -/
theorem index_of_dashes {u : Usage} (hd : u.dashes = false) (hopt : "--" ∉ u.optWords)
    (hmem : "--" ∈ u.cmd :: u.args) (s : Options) : cmdIdx (copyLog 0 u.argv).2 s ≠ u.start := by
  obtain ⟨before, after, heq, hbefore⟩ := List.eq_append_cons_of_mem hmem
  have hargv : u.argv = (u.logger :: (u.optWords ++ before)) ++ "--" :: after := by
    rw [Usage.argv_bare hd, heq, List.cons_append, List.append_assoc]
  have hpre : "--" ∉ u.logger :: (u.optWords ++ before) := by
    rw [List.mem_cons, List.mem_append, not_or, not_or]
    exact ⟨u.logger_ne.symm, hopt, hbefore⟩
  rw [hargv, copyLog_dashes hpre, Usage.start_bare hd]
  simp only [cmdIdx, List.length_cons, List.length_append]
  omega

/-- **Without a `--`** the computed index is the one of the command only if every option has two words and
    `getopt` finds no other option. -/
theorem bare_of_index {u : Usage} {s : Options} (hd : u.dashes = false) (hwords : "--" ∉ u.cmd :: u.args)
    (hparse : parseOptions Options.init (scan optstring none (u.argv.drop 1)) = some s)
    (hidx : cmdIdx none s = u.start) :
    (∀ o ∈ u.options, ∃ v, o.2 = .separate v) ∧ ∀ w ∈ u.cmd :: u.args, optionLike w = false := by
  rw [Usage.argv_bare hd, List.drop_succ_cons, List.drop_zero, u.parse_options] at hparse
  have hcount : s.logArgc = u.options.length + (scan optstring none (u.cmd :: u.args)).length :=
    parseOptions_count hparse
  have htwo : u.optWords.length ≤ 2 * u.options.length := (flatMap_words_length u.options).1
  rw [cmdIdx, Usage.start_bare hd] at hidx
  constructor
  · refine (flatMap_words_length u.options).2.mp ?_
    change 2 * u.options.length ≤ u.optWords.length
    omega
  · have hnone : scan optstring none (u.cmd :: u.args) = [] := by
      apply List.eq_nil_of_length_eq_zero
      omega
    intro w hw
    by_contra hlike
    exact scan_nonempty hwords ⟨w, hw, by simpa using hlike⟩ hnone

theorem plain_of_runs {u : Usage} (h : Runs u) : Plain u := by
  obtain ⟨created, hmain⟩ := h
  obtain ⟨hfit, s, hparse, hexec⟩ := main_execvp hmain
  obtain ⟨hdrop, hnine⟩ := execute_execvp hexec
  have hidx := Usage.drop_inj hdrop.symm
  rw [List.length_cons] at hnine
  have hvalue : ∀ o ∈ u.options, o.2 ≠ .separate "--" := by
    -- the value would be cut off, and its option would be one without a value
    intro o ho heq
    have hlogger : u.argv = u.logger :: (u.optWords ++ ((if u.dashes then ["--"] else []) ++ u.cmd :: u.args)) := by
      simp [Usage.argv]
    rw [copyLog_log, hlogger, List.takeWhile_cons, if_pos (decide_eq_true u.logger_ne), List.drop_succ_cons,
      List.drop_zero, Usage.optWords, parseOptions_cut u.options_letter ⟨o, ho, heq⟩] at hparse
    cases hparse
  have hopt := Usage.optWords_plain hvalue
  refine ⟨hvalue, fun _ => by omega, ?_⟩
  intro hd
  have hwords : "--" ∉ u.cmd :: u.args := fun hmem => index_of_dashes hd hopt hmem s hidx
  rw [copyLog_all (Usage.argv_no_dashes hd hopt hwords)] at hfit hidx hparse
  obtain ⟨hseparate, hplain⟩ := bare_of_index hd hwords hparse hidx
  refine ⟨hseparate, hplain, ?_⟩
  rw [u.argv_length, Usage.start_bare hd] at hfit
  omega

theorem runs_of_plain {u : Usage} (h : Plain u) : Runs u := by
  obtain ⟨hvalue, hsome, hnone⟩ := h
  have hopt := Usage.optWords_plain hvalue
  cases hd : u.dashes with
  | true => exact runs_dashes hd hopt (hsome hd)
  | false =>
      obtain ⟨hseparate, hwords, hfew⟩ := hnone hd
      exact runs_bare hd hopt hseparate hwords hfew

/-- **When the launcher does what the usage line says.** -/
theorem launcher_runs (u : Usage) : Runs u ↔ Plain u := by
  constructor
  · exact plain_of_runs
  · exact runs_of_plain

/-- `logger ls -al` -/
def lsUsage : Usage where
  logger := "logger"
  out := none
  so := none
  soFirst := false
  dashes := false
  cmd := "ls"
  args := ["-al"]
  logger_ne := by decide

/-- `getopt` takes the command's option for one of the logger. -/
theorem option_of_command : ¬ ∀ u : Usage, Runs u := by
  intro hall
  obtain ⟨created, h⟩ := hall lsUsage
  have husage : main lsUsage.argv = .exit usageLines none := by decide
  rw [husage] at h
  cases h

end AdvUnix.Logger
