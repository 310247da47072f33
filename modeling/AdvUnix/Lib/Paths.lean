import Mathlib.Data.List.Basic

/-!
# `Lib.Paths` — what a path denotes

A path is split at its slashes, and its components are followed one after the other, from the root when it
begins with a slash and from the current directory otherwise. `execvp` follows a path that has a slash in
it, and searches directories for one that has none. The files are of any type.
-/

namespace AdvUnix.Paths

abbrev Path := List Char

/-- **Files as paths see them.** `entry` is where a name in a directory leads, symbolic links and `..`
    included. -/
structure FileTree (ν : Type) where
  entry : ν → List Char → Option ν
  isDir : ν → Bool
  root : ν
  cwd : ν
  root_dir : isDir root = true
  cwd_dir : isDir cwd = true

def components (path : Path) : List (List Char) := path.splitOn '/'

namespace FileTree

variable {ν : Type} (t : FileTree ν)

/-- One component, from a directory. An empty one and `.` stay there. -/
def follow (d : ν) (name : List Char) : Option ν :=
  if t.isDir d then
    if name = [] ∨ name = ['.'] then some d else t.entry d name
  else none

def walk (d : ν) (names : List (List Char)) : Option ν := names.foldlM t.follow d

/-- Where a path begins. -/
def base (path : Path) : ν := if path[0]? = some '/' then t.root else t.cwd

/-- **The file that a path denotes.** The empty path denotes none. -/
def denotes (path : Path) : Option ν := if path = [] then none else t.walk (t.base path) (components path)

/-- **The file that `execvp` executes**, with `dirs` the directories in `PATH`. -/
def execvp (dirs : List ν) (path : Path) : Option ν :=
  if '/' ∈ path then t.denotes path else dirs.findSome? fun d => t.follow d path

end FileTree

/-! ## Components -/

variable {ν : Type} {t : FileTree ν} {d : ν} {path : Path}

theorem components_slash (path : Path) : components ('/' :: path) = [] :: components path := by
  unfold components
  rw [List.splitOn, List.splitOnP_cons_eq_if_modifyHead]
  rfl

theorem components_dot_slash (path : Path) : components ('.' :: '/' :: path) = ['.'] :: components path := by
  have hrest := components_slash path
  unfold components at hrest ⊢
  rw [List.splitOn, List.splitOnP_cons_eq_if_modifyHead, if_neg (by decide)]
  rw [List.splitOn] at hrest
  rw [hrest]
  rfl

namespace FileTree

theorem walk_cons (d : ν) (name : List Char) (names : List (List Char)) :
    t.walk d (name :: names) = (t.follow d name).bind fun e => t.walk e names := rfl

/-- An empty component and `.` stay in a directory. -/
theorem follow_stays (hd : t.isDir d = true) {name : List Char} (h : name = [] ∨ name = ['.']) :
    t.follow d name = some d := by
  unfold follow
  rw [if_pos hd, if_pos h]

theorem walk_stays (hd : t.isDir d = true) {name : List Char} (h : name = [] ∨ name = ['.'])
    (names : List (List Char)) : t.walk d (name :: names) = t.walk d names := by
  rw [walk_cons, follow_stays hd h]
  rfl

/-! ## Paths that begin with a dot and a slash -/

/-- **`./` in front of a path** leads from the current directory, wherever the path itself begins. -/
theorem denotes_dot_slash (path : Path) :
    t.denotes ('.' :: '/' :: path) = t.walk t.cwd (components path) := by
  unfold denotes base
  rw [if_neg (List.cons_ne_nil _ _), if_neg (by simp), components_dot_slash,
    walk_stays t.cwd_dir (Or.inr rfl)]

theorem denotes_relative (hne : path ≠ []) (hrel : path[0]? ≠ some '/') :
    t.denotes path = t.walk t.cwd (components path) := by
  unfold denotes base
  rw [if_neg hne, if_neg hrel]

theorem denotes_absolute (habs : path[0]? = some '/') :
    t.denotes path = t.walk t.root (components path) := by
  unfold denotes base
  rw [if_neg (by rintro rfl; cases habs), if_pos habs]

/-! ## `execvp` -/

theorem execvp_slash (h : '/' ∈ path) (dirs : List ν) : t.execvp dirs path = t.denotes path := if_pos h

/-- A path without a slash is searched for. -/
theorem execvp_name (h : '/' ∉ path) (dirs : List ν) :
    t.execvp dirs path = dirs.findSome? fun d => t.follow d path := if_neg h

/-- **No search** is made for a path that is executed as the same file whatever `PATH` holds. -/
theorem execvp_always_iff {i : ν} :
    (∀ dirs, t.execvp dirs path = some i) ↔ '/' ∈ path ∧ t.denotes path = some i := by
  constructor
  · intro h
    by_cases hslash : '/' ∈ path
    · exact ⟨hslash, (execvp_slash hslash []).symm.trans (h [])⟩
    · have hnone := h []
      rw [execvp_name hslash] at hnone
      cases hnone
  · rintro ⟨hslash, hdenotes⟩ dirs
    exact (execvp_slash hslash dirs).trans hdenotes

end FileTree

end AdvUnix.Paths
