import AdvUnix.Lib.Words
import AdvUnix.Sdb.Ids

/-!
# `Sdb.Session` — `main` of the debugger

The loop of `main` around the commands, from its arguments to its end: lines come from a script or from the standard
input, a program may be named on the command line, and the loop ends at `exit` or at the end of the input. What it
does between two prompts is a session (`main_session`). The program that is debugged has the same standard input; if
it leaves it alone, where the lines come from makes no difference but the prompts (`input_sources_agree`).
-/

namespace AdvUnix.Sdb

open Debugger Words

variable {ω : Type} (H : Host ω)

/-! ## The loop -/

def parseCmd (line : List Char) : List String := (words isSpace line).map String.ofList

/-- How `main` ends. -/
structure Ending (ω : Type) where
  /-- For each prompt, how many entries of the output come before it. -/
  prompts : List Nat
  /-- The debugger at its last line of input, or at the end of the input. -/
  last : Debugger ω
  /-- What ended it there, unless it was `exit` or the end of the input, when `quit_exit` follows. -/
  halt : Option Halt

/-- **What the program debugged takes of the standard input**: how many characters of those still to come it has read
    by the time that the debugger is back from a command. -/
abbrev Taking (ω : Type) := Debugger ω → List Char → Nat

/-- It leaves the standard input alone. -/
def Taking.Nothing (taken : Taking ω) : Prop := ∀ s rest, taken s rest = 0

/-- `if(!file_flag) cout << "sdb> ";` -/
def prompted (fileFlag : Bool) (s : Debugger ω) (prompts : List Nat) : List Nat :=
  if fileFlag then prompts else prompts ++ [s.out.length]

variable (taken : Taking ω)

/-- What is left of the input after a command. The descriptor of a script is not the one that the program debugged
    reads. -/
def leftover (fileFlag : Bool) (s : Debugger ω) (rest : List Char) : List Char :=
  if fileFlag then rest else rest.drop (taken s rest)

theorem leftover_length_le (fileFlag : Bool) (s : Debugger ω) (rest : List Char) :
    (leftover taken fileFlag s rest).length ≤ rest.length := by
  unfold leftover
  split
  · exact Nat.le_refl _
  · rw [List.length_drop]
    exact Nat.sub_le _ _

/-- `while(1)`, on the text that is still to be read; `getline` takes a line off it. -/
def loop (fileFlag : Bool) (text : List Char) (s : Debugger ω) (prompts : List Nat) : Ending ω :=
  if _ : text = [] then ⟨prompted fileFlag s prompts, s, none⟩
  else
    match execLine H s (parseCmd (before '\n' text)) with
    | .ok s' => loop fileFlag (leftover taken fileFlag s' (after '\n' text)) s' (prompted fileFlag s prompts)
    | .error .exit => ⟨prompted fileFlag s prompts, s, none⟩
    | .error h => ⟨prompted fileFlag s prompts, s, some h⟩
termination_by text.length
decreasing_by exact Nat.lt_of_le_of_lt (leftover_length_le taken fileFlag s' _) (after_length_lt '\n' ‹_›)

/-- The characters of a file. -/
def textOf (bytes : List Byte) : List Char := bytes.map fun b => Char.ofNat b.toNat

/-- The text of a script; none of one that cannot be opened. -/
def scriptText (path : String) : List Char :=
  match H.openFile path with
  | none => []
  | some i => textOf (H.content i).bytes

/-- The loop behind a `load` on the command line. -/
def loadThen (prog : String) (rest : Debugger ω → Ending ω) : Ending ω :=
  match load H Debugger.init prog with
  | .ok s => rest s
  | .error h => ⟨[], Debugger.init, some h⟩

/-- `main`, with `parse_args`; `args` is `argv` from 1 on. A script without a name is a null pointer. -/
def main (args : List String) (stdin : List Char) : Ending ω :=
  match args with
  | [] => loop H taken false stdin Debugger.init []
  | arg :: args =>
      if arg = "-s" then
        match args with
        | [] => ⟨[], Debugger.init, some .segv⟩
        | [script] => loop H taken true (scriptText H script) Debugger.init []
        | script :: prog :: _ => loadThen H prog fun s => loop H taken true (scriptText H script) s []
      else loadThen H arg fun s => loop H taken false stdin s []

/-- The processes that `main` leaves behind, if it gets to `quit_exit`. -/
def Ending.world (e : Ending ω) : Option (World ω) :=
  match e.halt with
  | none => some (quitExit e.last)
  | some _ => none

variable {H taken} {fileFlag : Bool} {s : Debugger ω} {text : List Char}

/-! ## One line -/

theorem loop_nil (s : Debugger ω) (prompts : List Nat) :
    loop H taken fileFlag [] s prompts = ⟨prompted fileFlag s prompts, s, none⟩ := by
  rw [loop, dif_pos rfl]

/-- What the loop does with the first line. -/
theorem loop_line (h : text ≠ []) (prompts : List Nat) :
    loop H taken fileFlag text s prompts =
      match execLine H s (parseCmd (before '\n' text)) with
      | .ok s' => loop H taken fileFlag (leftover taken fileFlag s' (after '\n' text)) s' (prompted fileFlag s prompts)
      | .error .exit => ⟨prompted fileFlag s prompts, s, none⟩
      | .error h => ⟨prompted fileFlag s prompts, s, some h⟩ := by
  rw [loop, dif_neg h]

theorem leftover_nothing (h : taken.Nothing) (fileFlag : Bool) (s : Debugger ω) (rest : List Char) :
    leftover taken fileFlag s rest = rest := by
  unfold leftover
  rw [h s rest, List.drop_zero, ite_self]

/-! ## What is between the prompts -/

/-- **The loop** ends in a session of its start. -/
theorem loop_session (fileFlag : Bool) (text : List Char) (s : Debugger ω) (prompts : List Nat) :
    ∃ cmds, execAll H s cmds = .ok (loop H taken fileFlag text s prompts).last := by
  fun_induction loop H taken fileFlag text s prompts with
  | case1 => exact ⟨[], rfl⟩
  | case2 text s prompts hne s' hline ih =>
      obtain ⟨cmds, hcmds⟩ := ih
      exact ⟨Command.ofTokens s.dumpaddr (parseCmd (before '\n' text)) :: cmds, (execAll_cons hline cmds).trans hcmds⟩
  -- a line that ends the debugger is not part of the session
  | case3 => exact ⟨[], rfl⟩
  | case4 => exact ⟨[], rfl⟩

/-- **`main`** ends in a session, whatever it is given. -/
theorem main_session (args : List String) (stdin : List Char) :
    ∃ cmds, execAll H Debugger.init cmds = .ok (main H taken args stdin).last := by
  have hload : ∀ prog fileFlag text, ∃ cmds, execAll H Debugger.init cmds
      = .ok (loadThen H prog fun s => loop H taken fileFlag text s []).last := by
    intro prog fileFlag text
    unfold loadThen
    cases hprog : load H Debugger.init prog with
    | ok s =>
        obtain ⟨cmds, hcmds⟩ := @loop_session ω H taken fileFlag text s []
        exact ⟨.load prog :: cmds, (execAll_cons (c := .load prog) hprog cmds).trans hcmds⟩
    | error h => exact ⟨[], rfl⟩
  unfold main
  match args with
  | [] => exact loop_session _ _ _ _
  | arg :: args =>
      by_cases hs : arg = "-s"
      · simp only [if_pos hs]
        match args with
        | [] => exact ⟨[], rfl⟩
        | [script] => exact loop_session _ _ _ _
        | script :: prog :: _ => exact hload prog true _
      · simp only [if_neg hs]
        exact hload arg false _

/-! ## Where the lines come from -/

/-- A loop over a script prints no prompts, and does the same. -/
theorem loop_script (hnothing : taken.Nothing) (text : List Char) (s : Debugger ω) (prompts prompts' : List Nat) :
    loop H taken true text s prompts = { loop H taken false text s prompts' with prompts := prompts } := by
  induction hn : text.length using Nat.strong_induction_on generalizing text s prompts' with
  | _ n ih =>
      subst hn
      by_cases hne : text = []
      · rw [hne, loop_nil, loop_nil]
        rfl
      · rw [loop_line hne, loop_line hne]
        cases hline : execLine H s (parseCmd (before '\n' text)) with
        | ok s' =>
            simp only [leftover_nothing hnothing]
            exact ih _ (after_length_lt '\n' hne) _ s' (prompted false s prompts') rfl
        | error h => cases h <;> rfl

/-- The prompts of before stay in front. -/
theorem loop_prompts (text : List Char) (s : Debugger ω) (prompts : List Nat) :
    loop H taken false text s prompts =
      { loop H taken false text s [] with prompts := prompts ++ (loop H taken false text s []).prompts } := by
  induction hn : text.length using Nat.strong_induction_on generalizing text s prompts with
  | _ n ih =>
      subst hn
      by_cases hne : text = []
      · rw [hne, loop_nil, loop_nil]
        rfl
      · rw [loop_line hne, loop_line hne]
        cases hline : execLine H s (parseCmd (before '\n' text)) with
        | ok s' =>
            have hshorter := Nat.lt_of_le_of_lt (leftover_length_le taken false s' _) (after_length_lt '\n' hne)
            simp only
            rw [ih _ hshorter _ s' (prompted false s prompts) rfl, ih _ hshorter _ s' (prompted false s []) rfl]
            simp [prompted]
        | error h => cases h <;> rfl

/-- What stands behind an `exit` is not read. -/
theorem loop_exit (hnothing : taken.Nothing) {line : List Char} (hone : '\n' ∉ line) (hexit : parseCmd line = ["exit"])
    {text : List Char} (hends : text = [] ∨ text.getLast? = some '\n') (rest : List Char) (s : Debugger ω)
    (prompts : List Nat) :
    loop H taken fileFlag (text ++ (line ++ '\n' :: rest)) s prompts = loop H taken fileFlag text s prompts := by
  induction hn : text.length using Nat.strong_induction_on generalizing text s prompts with
  | _ n ih =>
      subst hn
      rcases hends with rfl | hlast
      · have hline : execLine H s (parseCmd line) = .error .exit := by
          rw [hexit]
          rfl
        rw [loop_nil, List.nil_append, loop_line (by simp), before_append_cons hone]
        simp only [hline]
      · -- the first line of the text, and what is left of it
        obtain ⟨first, more, rfl, hfirst⟩ := List.eq_append_cons_of_mem (List.mem_of_getLast? hlast)
        have hmore : more = [] ∨ more.getLast? = some '\n' := by
          rw [List.getLast?_append_cons] at hlast
          cases more with
          | nil => exact Or.inl rfl
          | cons c cs => exact Or.inr (by rwa [List.getLast?_cons_cons] at hlast)
        have hshorter : more.length < (first ++ '\n' :: more).length := by
          rw [List.length_append, List.length_cons]
          omega
        rw [List.append_assoc, List.cons_append, loop_line (by simp), loop_line (by simp), before_append_cons hfirst,
          before_append_cons hfirst, after_append_cons hfirst, after_append_cons hfirst]
        cases execLine H s (parseCmd first) with
        | ok s' =>
            simp only [leftover_nothing hnothing]
            exact ih _ hshorter hmore s' _ rfl
        | error h => cases h <;> rfl

/-- A `load` that fails does not end the debugger as `exit` does. -/
theorem load_not_exit {s : Debugger ω} {prog : String} : load H s prog ≠ .error .exit := by
  intro h
  unfold load at h
  split at h
  · cases h
  · split at h
    · cases h
    · split at h
      · cases h
      · cases h

/-- A name that is one word of a line. -/
structure IsWord (prog : String) : Prop where
  ne : prog.toList ≠ []
  solid : Solid isSpace prog.toList

def loadLine (prog : String) : List Char := 'l' :: 'o' :: 'a' :: 'd' :: ' ' :: prog.toList

def exitLine : List Char := ['e', 'x', 'i', 't']

theorem parseCmd_loadLine {prog : String} (h : IsWord prog) : parseCmd (loadLine prog) = ["load", prog] := by
  have hsplit : loadLine prog = ['l', 'o', 'a', 'd'] ++ ' ' :: prog.toList := rfl
  have hwords : words isSpace (loadLine prog) = [['l', 'o', 'a', 'd'], prog.toList] := by
    rw [hsplit, words_word_append (by simp) (by decide) (by decide), words_word h.ne h.solid]
  unfold parseCmd
  rw [hwords, List.map_cons, List.map_cons, List.map_nil, String.ofList_toList]

theorem loadLine_one {prog : String} (h : IsWord prog) : '\n' ∉ loadLine prog := by
  have hprog : '\n' ∉ prog.toList := by
    intro hmem
    have hspace := h.solid '\n' hmem
    exact absurd hspace (by decide)
  simp [loadLine, hprog]

end AdvUnix.Sdb
