import AdvUnix.Lib.Paths
import AdvUnix.Sdb.Cache

/-!
# `Sdb.Paths` — the path that is executed

`load` and `getcode` open a program under the path it was given by, `start` executes it under another:
`./` is put in front of a path whose first character is no dot and whose second one is no slash
(`execPath`). `program_runs_iff` says for which paths the file executed is the file loaded.
-/

namespace AdvUnix.Sdb

open Elf Paths

variable {ω : Type} {H : Host ω} {s s' : Debugger ω} {t : FileTree Inode}

/-- **A site whose files are in a tree**, with `dirs` the directories in `PATH`. Permissions are left out. -/
def onTree (H : Host ω) (t : FileTree Inode) (dirs : List Inode) : Host ω :=
  { H with
    openFile := fun path => t.denotes path.toList
    execvp := fun path => t.execvp dirs path.toList }

/-- **The program that runs is the program that was loaded.** Under the path that `start` passes to `execvp`,
    the file of the program is executed, whatever `PATH` is, and it is the file that `getcode` reads. -/
def RunsProgram (H : Host ω) (t : FileTree Inode) (s : Debugger ω) : Prop :=
  ∃ i, t.denotes s.program.toList = some i ∧
    ∀ dirs, (onTree H t dirs).execvp (execPath s.program) = some i ∧
      ∀ s', getcode (onTree H t dirs) s = .ok s' → s'.code = some ((H.content i).bytes ++ [0])

/-- **A path that survives the rewriting.** One that begins with a dot has a slash; an absolute one that does
    not begin with two slashes leads to the same file from the current directory. -/
def KeepsFile (t : FileTree Inode) (path : Path) : Prop :=
  (path[0]? = some '.' → '/' ∈ path) ∧
    (path[0]? = some '/' → path[1]? ≠ some '/' →
      t.walk t.cwd (components path) = t.walk t.root (components path))

/-! ## The rewriting -/

theorem execPath_toList (program : String) : (execPath program).toList =
    if program.toList[0]? ≠ some '.' ∧ program.toList[1]? ≠ some '/' then '.' :: '/' :: program.toList
    else program.toList := by
  unfold execPath
  split
  · rw [String.toList_append]
    rfl
  · rfl

/-- **A path that denotes a file**: when every `PATH` leads `execvp` to it. -/
theorem execPath_execvp_iff {program : String} {i : Inode} (hi : t.denotes program.toList = some i) :
    (∀ dirs, t.execvp dirs (execPath program).toList = some i) ↔ KeepsFile t program.toList := by
  have hne : program.toList ≠ [] := by
    intro hnil
    rw [hnil] at hi
    cases hi
  rw [FileTree.execvp_always_iff, execPath_toList]
  by_cases hdot : program.toList[0]? = some '.'
  · -- a path that begins with a dot is executed as it is
    rw [if_neg fun h => h.1 hdot]
    constructor
    · rintro ⟨hslash, -⟩
      refine ⟨fun _ => hslash, fun habs => ?_⟩
      cases hdot.symm.trans habs
    · intro h
      exact ⟨h.1 hdot, hi⟩
  · by_cases hslash : program.toList[1]? = some '/'
    · -- so is one whose second character is a slash
      rw [if_neg fun h => h.2 hslash]
      refine iff_of_true ⟨List.mem_of_getElem? hslash, hi⟩ ⟨fun h => absurd h hdot, fun _ h => ?_⟩
      exact absurd hslash h
    · rw [if_pos ⟨hdot, hslash⟩, FileTree.denotes_dot_slash]
      have hmem : '/' ∈ '.' :: '/' :: program.toList := List.mem_cons_of_mem _ List.mem_cons_self
      by_cases habs : program.toList[0]? = some '/'
      · rw [FileTree.denotes_absolute habs] at hi
        constructor
        · rintro ⟨-, h⟩
          exact ⟨fun h => absurd h hdot, fun _ _ => h.trans hi.symm⟩
        · rintro ⟨-, h⟩
          exact ⟨hmem, (h habs hslash).trans hi⟩
      · rw [FileTree.denotes_relative hne habs] at hi
        exact iff_of_true ⟨hmem, hi⟩ ⟨fun h => absurd h hdot, fun h => absurd h habs⟩

/-! ## Sessions -/

/-- Before the first `load` no other command does anything. -/
theorem exec_others (hstate : s.state = .others) {cmd : Command} (hload : ∀ f, cmd ≠ .load f)
    (h : exec H s cmd = .ok s') : s'.state = .others := by
  have hrun : s.state ≠ .running := by
    rw [hstate]
    exact State.noConfusion
  have hidle : s.notRunning.state = .others := hstate
  cases cmd with
  | load f => exact absurd rfl (hload f)
  | exit => cases h
  | help =>
      cases h
      exact hstate
  | list =>
      cases h
      exact hstate
  | ignored =>
      cases h
      exact hstate
  | start =>
      rw [show exec H s .start = _ from if_pos hstate] at h
      cases h
      exact hstate
  | run =>
      rcases run_cases h with ⟨hr, -⟩ | ⟨hl, -⟩ | ⟨-, rfl⟩
      · exact absurd hr hrun
      · cases hstate.symm.trans hl
      · exact hstate
  | cont =>
      rcases cont_cases h with ⟨-, rfl⟩ | ⟨hr, -⟩
      · exact hidle
      · exact absurd hr hrun
  | si =>
      rcases si_cases h with ⟨-, rfl⟩ | ⟨hr, -⟩
      · exact hidle
      · exact absurd hr hrun
  | disasm a => exact (Calm.disasm h).state.trans hstate
  | vmmap => exact (Calm.vmmap h).state.trans hstate
  | delete sId => exact (Calm.del h).state.trans hstate
  | «break» a => exact (Calm.breakpoint h).state.trans hstate
  | get r => exact (Calm.getreg h).state.trans hstate
  | dump a => exact (Calm.dump h).state.trans hstate
  | set r v =>
      rw [show exec H s (.set r v) = _ from if_pos hrun] at h
      cases h
      exact hidle
  | getregs =>
      obtain ⟨ret, hgot⟩ := exec_getregs h
      exact (Calm.getregs hgot).state.trans hstate

/-- The program is a file that has been opened, once there is one. -/
def Loaded (H : Host ω) (s : Debugger ω) : Prop := s.state ≠ .others → ∃ i, H.openFile s.program = some i

theorem exec_loaded (hs : Loaded H s) {cmd : Command} (h : exec H s cmd = .ok s') : Loaded H s' := by
  by_cases hload : ∃ f, cmd = .load f
  · obtain ⟨f, rfl⟩ := hload
    by_cases hstate : s.state = .loaded
    · rw [show exec H s (.load f) = _ from if_pos hstate] at h
      cases h
      exact hs
    · obtain ⟨i, -, -, -, hopen, -, -, rfl⟩ := load_accepted hstate h
      exact fun _ => ⟨i, hopen⟩
  · have hnot : ∀ f, cmd ≠ .load f := fun f hf => hload ⟨f, hf⟩
    intro hstate'
    rw [(exec_view hnot h).program]
    exact hs fun hothers => hstate' (exec_others hothers hnot h)

theorem session_loaded {cmds : List Command} (h : execAll H Debugger.init cmds = .ok s) : Loaded H s :=
  session_invariant (fun _ _ _ hs hc => exec_loaded hs hc) (fun hne => absurd rfl hne) h

/-- The file that `getcode` reads. -/
theorem getcode_reads {i : Inode} (hopen : H.openFile s.program = some i) (h : getcode H s = .ok s') :
    s'.code = some ((H.content i).bytes ++ [0]) := by
  simp only [getcode, hopen] at h
  split at h
  · cases h
    rfl
  · cases h

/-- **The program that runs**, at any prompt with a program, is the one that was loaded exactly when its path
    survives the rewriting. -/
theorem program_runs_iff {dirs : List Inode} {cmds : List Command}
    (hs : execAll (onTree H t dirs) Debugger.init cmds = .ok s) (hstate : s.state ≠ .others) :
    RunsProgram H t s ↔ KeepsFile t s.program.toList := by
  obtain ⟨i, hi⟩ := session_loaded hs hstate
  have hdenotes : t.denotes s.program.toList = some i := hi
  rw [← execPath_execvp_iff hdenotes]
  constructor
  · rintro ⟨j, hj, h⟩ dirs'
    cases hdenotes.symm.trans hj
    exact (h dirs').1
  · intro h
    exact ⟨i, hdenotes, fun dirs' => ⟨h dirs', fun _ hcode =>
      getcode_reads (H := onTree H t dirs') hdenotes hcode⟩⟩

/-- **What is started**: a process that executes the file of the program. -/
theorem RunsProgram.start (h : RunsProgram H t s) {dirs : List Inode} (hstate : s.state ≠ .others)
    (hstart : start (onTree H t dirs) s = .ok s') {p : Proc ω} (hp : s'.tracee = some p) :
    t.denotes s.program.toList = some p.file := by
  obtain ⟨i, hi, hruns⟩ := h
  have hlaunched := (start_started hstate hstart).tracee.symm.trans hp
  unfold launched at hlaunched
  rw [(hruns dirs).1, Option.bind_some] at hlaunched
  obtain ⟨im, -, rfl⟩ := Option.map_eq_some_iff.mp hlaunched
  exact hi

/-- A tree with a program `a` in the current directory and a program `ls` in `/bin`. -/
def sampleTree : FileTree Inode where
  entry := fun d name =>
    if d = 1 ∧ name = ['a'] then some 3
    else if d = 0 ∧ name = ['b', 'i', 'n'] then some 2
    else if d = 2 ∧ name = ['l', 's'] then some 4
    else none
  isDir := fun i => i < 3
  root := 0
  cwd := 1
  root_dir := rfl
  cwd_dir := rfl

/-- A path without a slash that does not begin with a dot. -/
theorem program_runs_sample : ∃ s, execAll (onTree (sampleHost nopText 9) sampleTree [2]) Debugger.init
    [.load "a"] = .ok s ∧ RunsProgram (sampleHost nopText 9) sampleTree s := by
  have hseen : (execAll (onTree (sampleHost nopText 9) sampleTree [2]) Debugger.init [.load "a"]).map
      (fun s => (s.program, s.state)) = .ok ("a", .loaded) := by
    decide +kernel
  obtain ⟨s, hs, hglobals⟩ := ok_of_seen hseen
  obtain ⟨hprogram, hstate⟩ := Prod.mk.inj hglobals
  refine ⟨s, hs, (program_runs_iff hs (by rw [hstate]; exact State.noConfusion)).mpr ?_⟩
  rw [hprogram]
  exact ⟨fun h => absurd h (by decide), fun h => absurd h (by decide)⟩

/-- An absolute path is executed from the current directory. -/
theorem absolute_path_not_run : ¬ ∀ (H : Host (List Bool)) (t : FileTree Inode) (dirs : List Inode)
    (cmds : List Command) (s : Debugger (List Bool)), execAll (onTree H t dirs) Debugger.init cmds = .ok s →
      s.state ≠ .others → RunsProgram H t s := by
  intro h
  have hseen : (execAll (onTree (sampleHost nopText 9) sampleTree [2]) Debugger.init [.load "/bin/ls"]).map
      (fun s => (s.program, s.state)) = .ok ("/bin/ls", .loaded) := by
    decide +kernel
  obtain ⟨s, hs, hglobals⟩ := ok_of_seen hseen
  obtain ⟨hprogram, hstate⟩ := Prod.mk.inj hglobals
  obtain ⟨i, -, hruns⟩ := h _ _ _ _ s hs (by rw [hstate]; exact State.noConfusion)
  have hfound := (hruns [2]).1
  rw [hprogram] at hfound
  have hnone : (onTree (sampleHost nopText 9) sampleTree [2]).execvp (execPath "/bin/ls") = none := by
    decide +kernel
  cases hnone.symm.trans hfound

end AdvUnix.Sdb
