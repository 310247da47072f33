import AdvUnix.Logger.CommandLine

/-!
# `Logger.Arrays` — the indices of the launcher

`main` copies words to `log_argv` and to `cmd_argv`, ten entries each. Here it is followed index by index. Up to
the first `--` the words run with their own indices, behind it from 0 on; `arrays_fit_iff` says for which vectors
all of them stay inside, and `main_overflow_iff` that these are those for which `main` does not overflow.
-/

namespace AdvUnix.Logger

open Getopt

/-! ## `main`, index by index -/

/-- An index that `main` uses, and the array it goes into. -/
inductive Access
  | argv (i : Nat)
  | logArgv (i : Nat)
  | cmdArgv (i : Nat)
  deriving DecidableEq, Repr

/-- The array has the entry. -/
def Access.Inside (argc : Nat) : Access → Prop
  | .argv i => i < argc
  | .logArgv i => i < argvSize
  | .cmdArgv i => i < argvSize

/-- The loop that copies words to `log_argv`, from index `i` on. -/
def copyAccesses : Nat → List String → List Access
  | _, [] => []
  | i, w :: ws =>
      if w = "--" then [.argv i]
      else .argv i :: .argv i :: .logArgv i :: copyAccesses (i + 1) ws

/-- The last part of `main`: the loop that copies the command's words, the null pointer, and `execvp`. -/
def executeAccesses (argc cmdIdx : Nat) : List Access :=
  if cmdIdx ≥ argc then []
  else if cmdIdx = 0 then []
  else
    let cmdArgc := argc - cmdIdx
    ((List.range cmdArgc).flatMap fun i => [.argv (cmdIdx + i), .cmdArgv i]) ++ [.cmdArgv cmdArgc, .argv cmdIdx]

/-- `main` -/
def mainAccesses (argv : List String) : List Access :=
  if argv.length = 1 then []
  else
    let (logArgv, dashIdx) := copyLog 0 argv
    copyAccesses 0 argv ++
      match parseOptions Options.init (scan optstring none (logArgv.drop 1)) with
      | none => []
      | some s => executeAccesses argv.length (cmdIdx dashIdx s)

/-! ## One loop at a time -/

theorem copyAccesses_inside {argc i : Nat} {ws : List String} (hlen : i + ws.length ≤ argc) :
    (∀ a ∈ copyAccesses i ws, a.Inside argc) ↔ ∀ j < (ws.takeWhile (· ≠ "--")).length, i + j < argvSize := by
  induction ws generalizing i with
  | nil => simp [copyAccesses]
  | cons w ws ih =>
      rw [List.length_cons] at hlen
      have hargv : (Access.argv i).Inside argc := by
        change i < argc
        omega
      by_cases hw : w = "--"
      · subst hw
        rw [copyAccesses, if_pos rfl, List.takeWhile_cons_of_neg (by simp)]
        simpa using hargv
      · have hnext : i + 1 + ws.length ≤ argc := by omega
        rw [copyAccesses, if_neg hw, List.takeWhile_cons_of_pos (by simpa using hw), List.length_cons,
          Nat.forall_lt_succ_left, List.forall_mem_cons, List.forall_mem_cons, List.forall_mem_cons, ih hnext,
          and_iff_right hargv, and_iff_right hargv]
        refine and_congr Iff.rfl (forall₂_congr fun j _ => ?_)
        rw [Nat.add_right_comm, Nat.add_assoc]

/-- All of `log_argv` fits if its last entry does. -/
theorem copyAccesses_fit {argv : List String} :
    (∀ a ∈ copyAccesses 0 argv, a.Inside argv.length) ↔ (argv.takeWhile (· ≠ "--")).length ≤ argvSize := by
  rw [copyAccesses_inside (Nat.le_of_eq (Nat.zero_add _))]
  constructor
  · intro h
    by_contra hlong
    have hten := h argvSize (by omega)
    omega
  · intro h j hj
    omega

/-- The null pointer has the largest index of `cmd_argv`. -/
theorem executeAccesses_fit {argc cmdIdx : Nat} (hidx : cmdIdx ≠ 0) :
    (∀ a ∈ executeAccesses argc cmdIdx, a.Inside argc) ↔ argc < cmdIdx + argvSize := by
  unfold executeAccesses
  by_cases hin : cmdIdx ≥ argc
  · rw [if_pos hin]
    have hpos : 0 < argvSize := by decide
    exact iff_of_true (fun _ ha => absurd ha List.not_mem_nil) (by omega)
  · rw [if_neg hin, if_neg hidx]
    constructor
    · -- the null pointer alone decides
      intro h
      have hnull : argc - cmdIdx < argvSize := h (.cmdArgv (argc - cmdIdx)) (by simp)
      omega
    · intro h a ha
      dsimp only at ha
      rw [List.mem_append, List.mem_flatMap] at ha
      rcases ha with ⟨i, hi, ha⟩ | ha
      · have hlt := List.mem_range.mp hi
        simp only [List.mem_cons, List.not_mem_nil, or_false] at ha
        rcases ha with rfl | rfl
        · change cmdIdx + i < argc
          omega
        · change i < argvSize
          omega
      · simp only [List.mem_cons, List.not_mem_nil, or_false] at ha
        rcases ha with rfl | rfl
        · change argc - cmdIdx < argvSize
          omega
        · change cmdIdx < argc
          omega

/-! ## What `getopt` returns -/

/-- An option of the logger with its argument, or `?`. -/
def Known (r : Ret) : Prop := r = .unknown ∨ ∃ c v, Letter c ∧ r = .opt c (some v)

theorem optstring_cases (c : Char) : optstring c = none ∨ (Letter c ∧ optstring c = some true) := by
  by_cases ho : c = 'o'
  · subst ho
    exact Or.inr ⟨Or.inl rfl, rfl⟩
  · by_cases hp : c = 'p'
    · subst hp
      exact Or.inr ⟨Or.inr rfl, rfl⟩
    · refine Or.inl ?_
      unfold optstring
      split
      · exact absurd rfl ho
      · exact absurd rfl hp
      · rfl

theorem cluster_known (cs : List Char) :
    (∀ r ∈ (cluster optstring cs).1, Known r) ∧ ∀ c, (cluster optstring cs).2 = some c → Letter c := by
  induction cs with
  | nil =>
      refine ⟨fun _ hr => absurd hr List.not_mem_nil, fun c hc => ?_⟩
      cases hc
  | cons c cs ih =>
      rw [cluster]
      rcases optstring_cases c with hnone | ⟨hletter, htakes⟩
      · rw [hnone]
        refine ⟨fun r hr => ?_, ih.2⟩
        rcases List.mem_cons.mp hr with rfl | hr
        · exact Or.inl rfl
        · exact ih.1 r hr
      · rw [htakes]
        dsimp only
        by_cases hcs : cs = []
        · rw [if_pos hcs]
          refine ⟨fun _ hr => absurd hr List.not_mem_nil, fun d hd => ?_⟩
          obtain rfl := Option.some.inj hd
          exact hletter
        · rw [if_neg hcs]
          constructor
          · intro r hr
            obtain rfl := List.mem_singleton.mp hr
            exact Or.inr ⟨c, _, hletter, rfl⟩
          · intro d hd
            cases hd

theorem scan_known {wants : Option Char} (hwants : ∀ c, wants = some c → Letter c) (ws : List String) :
    ∀ r ∈ scan optstring wants ws, Known r := by
  induction ws generalizing wants with
  | nil =>
      cases wants with
      | none => exact fun _ hr => absurd hr List.not_mem_nil
      | some c =>
          intro r hr
          obtain rfl := List.mem_singleton.mp hr
          exact Or.inl rfl
  | cons w ws ih =>
      have hrest : ∀ r ∈ scan optstring none ws, Known r := ih nofun
      cases wants with
      | some c =>
          intro r hr
          rw [scan] at hr
          rcases List.mem_cons.mp hr with rfl | hr
          · exact Or.inr ⟨c, w, hwants c rfl, rfl⟩
          · exact hrest r hr
      | none =>
          rw [scan]
          by_cases hdash : w = "--"
          · rw [if_pos hdash]
            exact fun _ hr => absurd hr List.not_mem_nil
          · rw [if_neg hdash]
            by_cases hlike : optionLike w = true
            · rw [if_pos hlike]
              intro r hr
              obtain ⟨hrets, hnext⟩ := cluster_known w.toList.tail
              rcases List.mem_append.mp hr with hr | hr
              · exact hrets r hr
              · exact ih hnext r hr
            · rw [if_neg hlike]
              exact hrest

/-- The options are refused at the first `?`. -/
theorem parseOptions_eq_none_iff {rets : List Ret} (h : ∀ r ∈ rets, Known r) (s : Options) :
    parseOptions s rets = none ↔ .unknown ∈ rets := by
  induction rets generalizing s with
  | nil => exact iff_of_false nofun List.not_mem_nil
  | cons r rets ih =>
      rcases h r List.mem_cons_self with rfl | ⟨c, v, hletter, rfl⟩
      · exact iff_of_true rfl List.mem_cons_self
      · rw [parseOptions_opt hletter, ih (fun r' hr' => h r' (List.mem_cons_of_mem _ hr')), List.mem_cons,
          or_iff_right nofun]

/-! ## Where all of them stay inside -/

/-- The words before the first `--` fit; so do, with a `--`, the words behind it and the null pointer, if `getopt`
    refuses nothing. -/
def Fits (argv : List String) : Prop :=
  argv.idxOf "--" ≤ 10 ∧ ("--" ∈ argv →
    .unknown ∈ scan optstring none ((argv.take (argv.idxOf "--")).drop 1) ∨ argv.length ≤ argv.idxOf "--" + 10)

/-- The same, from the values that `main` computes. -/
def Bounded (argv : List String) : Prop :=
  (copyLog 0 argv).1.length ≤ argvSize ∧
    ∀ s, parseOptions Options.init (scan optstring none ((copyLog 0 argv).1.drop 1)) = some s →
      argv.length < cmdIdx (copyLog 0 argv).2 s + argvSize

theorem cmdIdx_ne_zero (dashIdx : Option Nat) (s : Options) : cmdIdx dashIdx s ≠ 0 := by
  cases dashIdx with
  | none => exact Nat.succ_ne_zero _
  | some d => exact Nat.succ_ne_zero _

theorem bounded_iff (argv : List String) : Bounded argv ↔ Fits argv := by
  have hknown : ∀ ws, ∀ r ∈ scan optstring none ws, Known r := scan_known (fun _ h => nomatch h)
  by_cases hmem : "--" ∈ argv
  · -- the words before it are copied, those behind it executed
    obtain ⟨pre, post, hargv, hpre⟩ := List.eq_append_cons_of_mem hmem
    have hidx : argv.idxOf "--" = pre.length := by
      rw [hargv, List.idxOf_append_of_notMem hpre, List.idxOf_cons_self, Nat.add_zero]
    have hlog : copyLog 0 argv = (pre, some pre.length) := by
      rw [hargv, copyLog_dashes hpre, Nat.zero_add]
    have htake : argv.take pre.length = pre := by
      rw [hargv, List.take_left]
    unfold Bounded Fits
    rw [hlog, hidx, htake, ← parseOptions_eq_none_iff (hknown _) Options.init]
    refine and_congr Iff.rfl ?_
    rw [imp_iff_right hmem]
    cases parseOptions Options.init (scan optstring none (pre.drop 1)) with
    | none => exact iff_of_true nofun (Or.inl rfl)
    | some s =>
        rw [or_iff_right nofun]
        constructor
        · intro h
          have hs := h s rfl
          rw [cmdIdx, argvSize] at hs
          omega
        · intro h s' _
          rw [cmdIdx, argvSize]
          omega
  · -- all words are copied, so the command's words are fewer than ten
    have hidx : argv.idxOf "--" = argv.length := List.idxOf_eq_length_iff.mpr hmem
    unfold Bounded Fits
    rw [copyLog_all hmem, hidx]
    constructor
    · rintro ⟨hlog, -⟩
      exact ⟨hlog, fun h => absurd h hmem⟩
    · rintro ⟨hlog, -⟩
      refine ⟨hlog, fun s _ => ?_⟩
      rw [cmdIdx, argvSize]
      omega

theorem fits_of_one {argv : List String} (h : argv.length = 1) : Fits argv := by
  have hidx : argv.idxOf "--" ≤ argv.length := List.idxOf_le_length
  exact ⟨by omega, fun _ => Or.inr (by omega)⟩

/-- **All indices are inside their arrays** exactly for these vectors. -/
theorem arrays_fit_iff (argv : List String) : (∀ a ∈ mainAccesses argv, a.Inside argv.length) ↔ Fits argv := by
  by_cases hone : argv.length = 1
  · rw [mainAccesses, if_pos hone]
    exact iff_of_true (fun _ ha => absurd ha List.not_mem_nil) (fits_of_one hone)
  · rw [mainAccesses, if_neg hone, ← bounded_iff]
    dsimp only
    rw [List.forall_mem_append, copyAccesses_fit, ← copyLog_log 0]
    refine and_congr Iff.rfl ?_
    cases parseOptions Options.init (scan optstring none ((copyLog 0 argv).1.drop 1)) with
    | none => exact iff_of_true (fun _ ha => absurd ha List.not_mem_nil) nofun
    | some s =>
        dsimp only
        rw [executeAccesses_fit (cmdIdx_ne_zero _ s)]
        constructor
        · intro h s' hs'
          obtain rfl := Option.some.inj hs'
          exact h
        · intro h
          exact h s rfl

/-- **So `main` overflows** for all others. -/
theorem main_overflow_iff (argv : List String) : main argv = .overflow ↔ ¬ Fits argv := by
  by_cases hone : argv.length = 1
  · rw [main, if_pos hone]
    exact iff_of_false nofun (fun h => h (fits_of_one hone))
  · rw [main, if_neg hone, ← bounded_iff, Bounded]
    dsimp only
    by_cases hlog : (copyLog 0 argv).1.length > argvSize
    · rw [if_pos hlog]
      exact iff_of_true rfl (fun h => absurd h.1 (Nat.not_le.mpr hlog))
    · rw [if_neg hlog, and_iff_right (Nat.not_lt.mp hlog)]
      cases parseOptions Options.init (scan optstring none ((copyLog 0 argv).1.drop 1)) with
      | none => exact iff_of_false nofun (fun h => h nofun)
      | some s =>
          have hidx := cmdIdx_ne_zero (copyLog 0 argv).2 s
          have hall : (∀ s', some s = some s' → argv.length < cmdIdx (copyLog 0 argv).2 s' + argvSize) ↔
              argv.length < cmdIdx (copyLog 0 argv).2 s + argvSize :=
            ⟨fun h => h s rfl, fun h s' hs' => Option.some.inj hs' ▸ h⟩
          dsimp only
          rw [hall, execute, if_neg hidx]
          by_cases hin : cmdIdx (copyLog 0 argv).2 s ≥ argv.length
          · rw [if_pos hin]
            have hpos : 0 < argvSize := by decide
            exact iff_of_false nofun (fun h => h (by omega))
          · rw [if_neg hin]
            dsimp only
            by_cases hfit : argv.length - cmdIdx (copyLog 0 argv).2 s ≥ argvSize
            · rw [if_pos hfit]
              exact iff_of_true rfl (by omega)
            · rw [if_neg hfit]
              exact iff_of_false nofun (fun h => h (by omega))

/-- `logger -- seq 1 2 3 4 5 6 7 8 9`: the null pointer goes behind the end of `cmd_argv`. -/
def tenWords : List String := ["logger", "--", "seq", "1", "2", "3", "4", "5", "6", "7", "8", "9"]

/-- Eleven words without `--` do not fit in `log_argv`, ten behind one not in `cmd_argv`. -/
theorem long_command_overflows :
    ¬ (∀ a ∈ mainAccesses tenWords, a.Inside tenWords.length) ∧
      ¬ ∀ a ∈ mainAccesses (List.replicate 11 "w"), a.Inside (List.replicate 11 "w").length := by
  have hnull : .cmdArgv 10 ∈ mainAccesses tenWords := by decide
  have hlast : .logArgv 10 ∈ mainAccesses (List.replicate 11 "w") := by decide
  have hten : ¬ 10 < argvSize := by decide
  exact ⟨fun h => hten (h _ hnull), fun h => hten (h _ hlast)⟩

end AdvUnix.Logger
