import AdvUnix.Lsof.OpenFiles
import AdvUnix.Lsof.Passwd

/-!
# `Lsof.ProcessInfo` — the rows of one process

`get_process_info` puts the parts together: the three links, then the mapped files, then the open ones. It reads
where it may not in two cases: of a directory that cannot be opened otherwise than for want of permission, and of
a line of `maps` that lacks a word (`getProcessInfo_error`). Neither the `errno` that an earlier process left behind
nor, if every `stat` succeeds, what it left in uninitialised variables changes a row (`ownLines_fresh`).
-/

namespace AdvUnix.Lsof

open Words Sdb

/-! ## `get_process_info` -/

/-- **What the system answers for a process**: the contents of its `comm` (empty when it cannot be opened), its
    owner, the results for its links, for its directory of descriptors and of its `maps`; the contents of
    `/etc/passwd`; and what the uninitialised variable of `get_user` holds. -/
structure Answers where
  comm : List Char
  owner : Except Int (BitVec 32)
  ownerJunk : BitVec 32
  passwd : List Char
  links : Run
  fd : Except Int (List Opened)
  maps : List Char

/-- A read that C++ leaves undefined, `mem_line[k]` behind the end or `readdir` of a null pointer. The program may end
    there, and it may go on. -/
inductive BadRead
  | badIndex
  | nullDir
  deriving DecidableEq, Repr

/-- `get_command` -/
def getCommand (comm : List Char) : Option String := (words isSpace comm).head?.map String.ofList

/-- The user that `get_user` leaves in `USER`. -/
def userName (a : Answers) : String :=
  let UID := match a.owner with
    | .ok uid => uid
    | .error _ => a.ownerJunk
  ((getUser a.passwd UID).map String.ofList).getD ""

/-- `nofd_flag`, and the names in the directory of descriptors with what the system answers for each. -/
def fdFiles (fd : Except Int (List Opened)) : Except BadRead (Bool × List Opened) :=
  match fd with
  | .ok entries => .ok (false, entries.filter fun f => f.name ≠ ['.'] ∧ f.name ≠ ['.', '.'])
  | .error errno => if errno = EACCES then .ok (true, []) else .error .nullDir

def memInfo (maps : List Char) : Except BadRead (List FdInfo) :=
  match getMemInfo maps with
  | .ok mi => .ok mi
  | .error _ => .error .badIndex

/-- `tmp_line`, of an entry of `MI` or `FDI`. -/
def FdInfo.line (e : FdInfo) (COMMAND PID USER : String) : Line :=
  ⟨COMMAND, PID, USER, .ofList e.fd, .ofList e.type, .ofList e.inode, .ofList e.name, .ofList e.append⟩

/-- The row of a directory that may not be opened. -/
def nofdLine (COMMAND PID USER : String) : Line :=
  ⟨COMMAND, PID, USER, "NOFD", "", "", "/proc/" ++ PID ++ "/fd", "(opendir: Permission denied)"⟩

/-- **`get_process_info`**: the rows it adds to `lines`. -/
def getProcessInfo (PID : String) (a : Answers) : Except BadRead (List Line) :=
  match getCommand a.comm with
  | none => .ok []
  | some COMMAND => do
    let USER := userName a
    let links := linkRows COMMAND PID USER a.links
    let (nofdFlag, fdFiles) ← fdFiles a.fd
    let MI ← memInfo a.maps
    let lines := links ++ MI.map (·.line COMMAND PID USER)
    if nofdFlag then .ok (lines ++ [nofdLine COMMAND PID USER])
    else .ok (lines ++ (getRwuInfo fdFiles).map (·.line COMMAND PID USER))

/-! ## The parts -/

/-- Its directory of descriptors can be opened, or may not be. -/
def Openable (fd : Except Int (List Opened)) : Prop := ∀ errno, fd = .error errno → errno = EACCES

/-- **A process that can be shown**: one that has a command has a directory of descriptors, and every line of its
    `maps` has the words that are read of it. -/
def Answers.Shown (a : Answers) : Prop :=
  (getCommand a.comm).isSome → Openable a.fd ∧ ∀ t ∈ memLines a.maps, InRange t

/-- The rows of the open files. -/
def fdLines (COMMAND PID USER : String) : Except Int (List Opened) → List Line
  | .ok entries =>
    (getRwuInfo (entries.filter fun f => f.name ≠ ['.'] ∧ f.name ≠ ['.', '.'])).map (·.line COMMAND PID USER)
  | .error _ => [nofdLine COMMAND PID USER]

theorem fdFiles_eq {fd : Except Int (List Opened)} (h : Openable fd) :
    ∃ nofdFlag files, fdFiles fd = .ok (nofdFlag, files) ∧ ∀ COMMAND PID USER,
      fdLines COMMAND PID USER fd = if nofdFlag then [nofdLine COMMAND PID USER]
        else (getRwuInfo files).map (·.line COMMAND PID USER) := by
  cases fd with
  | ok entries => exact ⟨false, _, rfl, fun _ _ _ => rfl⟩
  | error errno => exact ⟨true, [], if_pos (h errno rfl), fun _ _ _ => rfl⟩

theorem fdFiles_error {fd : Except Int (List Opened)} (h : ¬ Openable fd) : fdFiles fd = .error .nullDir := by
  cases fd with
  | ok entries => exact absurd (fun _ he => by cases he) h
  | error errno =>
      refine if_neg fun he => h fun errno' heq => ?_
      cases heq
      exact he

theorem memInfo_ok {maps : List Char} (h : ∀ t ∈ memLines maps, InRange t) :
    ∃ mi, getMemInfo maps = .ok mi ∧ memInfo maps = .ok mi := by
  obtain ⟨mi, hmi, -⟩ := get_mem_info_rows maps h
  refine ⟨mi, hmi, ?_⟩
  unfold memInfo
  rw [hmi]

theorem memInfo_error {maps : List Char} (h : ¬ ∀ t ∈ memLines maps, InRange t) :
    memInfo maps = .error .badIndex := by
  unfold memInfo
  cases hmi : getMemInfo maps with
  | error e => rfl
  | ok mi => exact absurd (getMemInfo_ok hmi).1 h

/-- The mapped files of a process that can be shown. -/
def mapped (maps : List Char) : List FdInfo := (getMemInfo maps).toOption.getD []

/-- **The rows of a process that can be shown.** -/
def ownLines (PID : String) (a : Answers) : List Line :=
  match getCommand a.comm with
  | none => []
  | some COMMAND =>
    linkRows COMMAND PID (userName a) a.links ++ (mapped a.maps).map (·.line COMMAND PID (userName a)) ++
      fdLines COMMAND PID (userName a) a.fd

variable {PID : String} {a : Answers}

/-- **A process that can be shown is shown.** -/
theorem getProcessInfo_shown (h : a.Shown) : getProcessInfo PID a = .ok (ownLines PID a) := by
  unfold getProcessInfo ownLines
  cases hcommand : getCommand a.comm with
  | none => rfl
  | some COMMAND =>
      obtain ⟨hopen, hrange⟩ := h (by rw [hcommand]; rfl)
      obtain ⟨nofdFlag, files, hfiles, hlines⟩ := fdFiles_eq hopen
      obtain ⟨mi, hmi, hinfo⟩ := memInfo_ok hrange
      have hmapped : mapped a.maps = mi := by
        unfold mapped
        rw [hmi]
        rfl
      dsimp only
      rw [hfiles, hlines, hmapped]
      change (memInfo a.maps >>= _) = _
      rw [hinfo]
      cases nofdFlag with
      | true => rfl
      | false => rfl

/-- With any other it reads where it may not. -/
theorem getProcessInfo_error (h : ¬ a.Shown) : ∃ c, getProcessInfo PID a = .error c := by
  unfold getProcessInfo
  cases hcommand : getCommand a.comm with
  | none => exact absurd (fun hsome => by rw [hcommand] at hsome; cases hsome) h
  | some COMMAND =>
      dsimp only
      by_cases hopen : Openable a.fd
      · have hrange : ¬ ∀ t ∈ memLines a.maps, InRange t := fun hall => h fun _ => ⟨hopen, hall⟩
        obtain ⟨nofdFlag, files, hfiles, -⟩ := fdFiles_eq hopen
        rw [hfiles]
        refine ⟨.badIndex, ?_⟩
        change (memInfo a.maps >>= _) = _
        rw [memInfo_error hrange]
        rfl
      · rw [fdFiles_error hopen]
        exact ⟨.nullDir, rfl⟩

/-! ## What a row may depend on -/

/-- `fdinfo` has the word `flags:` where the loop looks for it, and another one behind it. -/
def Flagged : List Token → Prop
  | content :: _ :: rest => content = "flags:".toList ∨ Flagged rest
  | _ => False

theorem scanFlags_flagged {ws : List Token} (h : Flagged ws) (mode mode' : BitVec 64) :
    scanFlags mode ws = scanFlags mode' ws := by
  fun_induction Flagged ws with
  | case1 content garbage rest ih =>
      rw [scanFlags, scanFlags]
      by_cases hflags : content = "flags:".toList
      · rw [if_pos hflags, if_pos hflags]
      · rw [if_neg hflags, if_neg hflags]
        exact ih (h.resolve_left hflags)
  | case2 => exact h.elim

/-- **Nothing is taken from what was there before**: a `stat` of a link that has been read succeeds. -/
def Results.Settled (r : Results) : Prop := r.readlink.isOk → r.inode.isOk ∧ r.type.isOk

/-- So it is with a descriptor, whose `fdinfo` says its flags. -/
structure Opened.Settled (f : Opened) : Prop where
  flags : Flagged (words isSpace f.fdinfo)
  inode : f.readlink.isOk → f.inode.isOk
  type : f.type.isOk

/-- And with a process. -/
structure Answers.Settled (a : Answers) : Prop where
  owner : a.owner.isOk
  links : ∀ link, (a.links.results link).Settled
  fd : ∀ files, a.fd = .ok files → ∀ f ∈ files, f.name ≠ ['.'] ∧ f.name ≠ ['.', '.'] → f.Settled

/-- What the system answers, in a program that has cleared all its variables. -/
def Run.fresh (run : Run) : Run := { run with errno := 0, junk := fun _ => ⟨emptyStat, emptyStat⟩ }

def Opened.fresh (f : Opened) : Opened := { f with mode := 0, junk := ⟨emptyStat, emptyStat⟩ }

def Answers.fresh (a : Answers) : Answers :=
  { a with ownerJunk := 0, links := a.links.fresh, fd := a.fd.map (List.map Opened.fresh) }

theorem ok_of_isOk {ε α : Type} {r : Except ε α} (h : r.isOk) : ∃ a, r = .ok a := by
  cases r with
  | ok a => exact ⟨a, rfl⟩
  | error e => cases h

/-- The fields after a link depend on its answers and the fields before it: a call that succeeds assigns all of
    them, and one that fails sets `errno`. -/
theorem getLinkInfo_congr {link : String} {r : Results} {junk junk' : Junk} {s t : Vars} (hr : r.Settled)
    (h : s.fields = t.fields) :
    (getLinkInfo link r junk PID s).fields = (getLinkInfo link r junk' PID t).fields := by
  cases hread : r.readlink with
  | error e =>
      by_cases he : e = EACCES
      · subst he
        rw [getLinkInfo_denied hread, getLinkInfo_denied hread]
      · rw [getLinkInfo_failed hread he, getLinkInfo_failed hread he, h]
  | ok target =>
      obtain ⟨hinode, htype⟩ := hr (by rw [hread]; rfl)
      obtain ⟨i, hi⟩ := ok_of_isOk hinode
      obtain ⟨t', ht'⟩ := ok_of_isOk htype
      rw [getLinkInfo_read hread hi ht', getLinkInfo_read hread hi ht']

/-- **The rows of the links**, whatever was done before. -/
theorem linkRows_fresh (COMMAND PID USER : String) {run : Run} (h : ∀ link, (run.results link).Settled) :
    linkRows COMMAND PID USER run.fresh = linkRows COMMAND PID USER run := by
  have hcwd : (afterCwd run.fresh PID).fields = (afterCwd run PID).fields := getLinkInfo_congr (h .cwd) rfl
  have hroot : (afterRoot run.fresh PID).fields = (afterRoot run PID).fields := getLinkInfo_congr (h .root) hcwd
  have hexe : (varsAfter run.fresh PID .exe).fields = (varsAfter run PID .exe).fields :=
    getLinkInfo_congr (h .exe) hroot
  change [_, _, _] = [_, _, _]
  rw [List.cons.injEq, List.cons.injEq, List.cons.injEq]
  exact ⟨line_eq_iff.mpr hcwd, line_eq_iff.mpr hroot, line_eq_iff.mpr hexe, rfl⟩

theorem rwuInfo_fresh {f : Opened} (h : f.Settled) : rwuInfo f.fresh = rwuInfo f := by
  obtain ⟨t, ht⟩ := ok_of_isOk h.type
  have hmode := scanFlags_flagged h.flags 0 f.mode
  unfold rwuInfo Opened.fresh
  cases hread : f.readlink with
  | error e => simp only [ht, statBuffer, hmode]
  | ok link =>
      obtain ⟨i, hi⟩ := ok_of_isOk (h.inode (by rw [hread]; rfl))
      simp only [ht, hi, statBuffer, hmode]

theorem fdLines_fresh (COMMAND PID USER : String) {fd : Except Int (List Opened)}
    (h : ∀ files, fd = .ok files → ∀ f ∈ files, f.name ≠ ['.'] ∧ f.name ≠ ['.', '.'] → f.Settled) :
    fdLines COMMAND PID USER (fd.map (List.map Opened.fresh)) = fdLines COMMAND PID USER fd := by
  cases fd with
  | error e => rfl
  | ok files =>
      refine congrArg (List.map _) ?_
      unfold getRwuInfo
      rw [List.filter_map, List.map_map]
      refine List.map_congr_left fun f hf => ?_
      obtain ⟨hin, hname⟩ := List.mem_filter.mp hf
      exact rwuInfo_fresh (h files rfl f hin (of_decide_eq_true hname))

/-- **What was done before changes no row** of a process all of whose answers are there. -/
theorem ownLines_fresh (h : a.Settled) : ownLines PID a.fresh = ownLines PID a := by
  have huser : userName a.fresh = userName a := by
    obtain ⟨uid, huid⟩ := ok_of_isOk h.owner
    simp only [userName, Answers.fresh, huid]
  unfold ownLines
  rw [huser]
  cases hcommand : getCommand a.comm with
  | none =>
      change getCommand a.fresh.comm = none at hcommand
      rw [hcommand]
  | some COMMAND =>
      change getCommand a.fresh.comm = some COMMAND at hcommand
      rw [hcommand]
      dsimp only
      rw [← linkRows_fresh COMMAND PID (userName a) h.links, ← fdLines_fresh COMMAND PID (userName a) h.fd]
      rfl

/-- Every row names the process. -/
theorem PID_of_mem_ownLines {l : Line} (h : l ∈ ownLines PID a) : l.PID = PID := by
  unfold ownLines at h
  cases hcommand : getCommand a.comm with
  | none =>
      rw [hcommand] at h
      cases h
  | some COMMAND =>
      rw [hcommand] at h
      have hentries : ∀ es : List FdInfo, l ∈ es.map (·.line COMMAND PID (userName a)) → l.PID = PID := by
        intro es hl
        obtain ⟨e, -, rfl⟩ := List.mem_map.mp hl
        rfl
      rcases List.mem_append.mp h with hrest | hfd
      · rcases List.mem_append.mp hrest with hlink | hmem
        · simp only [linkRows, List.mem_cons, List.not_mem_nil, or_false] at hlink
          rcases hlink with rfl | rfl | rfl
          · rfl
          · rfl
          · rfl
        · exact hentries _ hmem
      · cases hopen : a.fd with
        | ok entries =>
            rw [hopen] at hfd
            exact hentries _ hfd
        | error errno =>
            rw [hopen] at hfd
            obtain rfl := List.mem_singleton.mp hfd
            rfl

end AdvUnix.Lsof
