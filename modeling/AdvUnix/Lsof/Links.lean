import Mathlib.Data.BitVec

/-!
# `Lsof.Links` — the rows of a process's `cwd`, `root` and `exe`

The first three steps of `get_process_info`: one set of output variables and the global `errno` go through
three calls that each read a link of the process. A call that fails otherwise than for want of permission
assigns nothing, and a `stat` that fails leaves its buffer as it was; these two cases apart, a row depends
on its own link alone (`link_isolated`).
-/

namespace AdvUnix.Lsof

/-! ## What the system answers -/

def EACCES : Int := 13

/-- The fields of `struct stat` that the program reads. -/
structure Stat where
  stMode : BitVec 32
  stIno : Nat
  deriving DecidableEq

/-- The three links of a process. -/
inductive Link
  | cwd
  | root
  | exe
  deriving DecidableEq

def Link.name : Link → String
  | .cwd => "cwd"
  | .root => "root"
  | .exe => "exe"

/-- **The results for one link**: of `readlink`, and of the `stat` of `get_inode` and the one of `get_type`;
    a failed call gives its `errno`. -/
structure Results where
  readlink : Except Int String
  inode : Except Int Stat
  type : Except Int Stat

/-- What the local `struct stat` of `get_inode` and the one of `get_type` hold before `stat` is called. -/
structure Junk where
  inode : Stat
  type : Stat

/-- **All that the handling of the links may depend on**: the `errno` it finds, the results for each link
    and the contents of the uninitialised variables. -/
structure Run where
  errno : Int
  results : Link → Results
  junk : Link → Junk

/-! ## The functions -/

/-- The output variables of `get_process_info`, and `errno`. -/
structure Vars where
  errno : Int
  TYPE : String
  NODE : String
  NAME : String
  APPEND : String

/-- `stat(dir, &fileInfo)`: the buffer keeps what it held when the call fails. -/
def stat (result : Except Int Stat) (fileInfo : Stat) (s : Vars) : Stat × Vars :=
  match result with
  | .ok info => (info, s)
  | .error e => (fileInfo, { s with errno := e })

def getInode (result : Except Int Stat) (junk : Stat) (s : Vars) : Vars :=
  let (fileinfo, s) := stat result junk s
  { s with NODE := toString fileinfo.stIno }

/-- `S_ISDIR` and its like: the file type bits of a mode. -/
def isType (bits : BitVec 32) (info : Stat) : Bool := info.stMode &&& 0o170000 = bits

/-- The chain of tests in `get_type`. -/
def typeName (info : Stat) : String :=
  if isType 0o040000 info then "DIR"
  else if isType 0o100000 info then "REG"
  else if isType 0o020000 info then "CHR"
  else if isType 0o010000 info then "FIFO"
  else if isType 0o140000 info then "SOCK"
  else "unknown"

def getType (result : Except Int Stat) (junk : Stat) (s : Vars) : Vars :=
  let (fileInfo, s) := stat result junk s
  { s with TYPE := typeName fileInfo }

/-- `get_cwd_info`, `get_root_info` and `get_exe_info` but for the name of the link. -/
def getLinkInfo (link : String) (r : Results) (junk : Junk) (PID : String) (s : Vars) : Vars :=
  let s := match r.readlink with
    | .ok _ => s
    | .error e => { s with errno := e }
  let s :=
    if s.errno = EACCES then
      { s with
        NAME := "/proc/" ++ PID ++ "/" ++ link
        APPEND := "(readlink: Permission denied)"
        NODE := ""
        TYPE := "unknown" }
    else s
  match r.readlink with
  | .ok target =>
      -- `readlink` stores 1023 bytes of the target at most
      let s := { s with NAME := String.ofList (target.toList.take 1023), APPEND := "" }
      getType r.type junk.type (getInode r.inode junk.inode s)
  | .error _ => s

def getCwdInfo : Results → Junk → String → Vars → Vars := getLinkInfo "cwd"
def getRootInfo : Results → Junk → String → Vars → Vars := getLinkInfo "root"
def getExeInfo : Results → Junk → String → Vars → Vars := getLinkInfo "exe"

/-- `line` -/
structure Line where
  COMMAND : String
  PID : String
  USER : String
  FD : String
  TYPE : String
  NODE : String
  NAME : String
  APPEND : String
  deriving DecidableEq

/-- `tmp_line` -/
def Vars.line (s : Vars) (COMMAND PID USER FD : String) : Line :=
  ⟨COMMAND, PID, USER, FD, s.TYPE, s.NODE, s.NAME, s.APPEND⟩

/-- Steps 1 to 3 of `get_process_info`: the rows it records, from the command and the user that it has
    found. -/
def linkRows (COMMAND PID USER : String) (run : Run) : List Line :=
  let s := getCwdInfo (run.results .cwd) (run.junk .cwd) PID ⟨run.errno, "", "", "", ""⟩
  let cwd := s.line COMMAND PID USER "cwd"
  let s := getRootInfo (run.results .root) (run.junk .root) PID s
  let root := s.line COMMAND PID USER "root"
  let s := getExeInfo (run.results .exe) (run.junk .exe) PID s
  let exe := s.line COMMAND PID USER "exe"
  [cwd, root, exe]

/-! ## One link -/

/-- The fields of a row that `get_process_info` takes from the variables. -/
def Vars.fields (s : Vars) : String × String × String × String := (s.TYPE, s.NODE, s.NAME, s.APPEND)

variable {link : String} {r : Results} {junk : Junk} {PID : String} {s : Vars}

/-- **A link that can be read** determines its fields if both calls of `stat` succeed. -/
theorem getLinkInfo_read {target : String} {i t : Stat} (hr : r.readlink = .ok target)
    (hi : r.inode = .ok i) (ht : r.type = .ok t) :
    (getLinkInfo link r junk PID s).fields
      = (typeName t, toString i.stIno, String.ofList (target.toList.take 1023), "") := by
  simp only [getLinkInfo, hr, hi, ht, getInode, getType, stat, Vars.fields]

/-- So does one that may not be read. -/
theorem getLinkInfo_denied (hr : r.readlink = .error EACCES) :
    (getLinkInfo link r junk PID s).fields
      = ("unknown", "", "/proc/" ++ PID ++ "/" ++ link, "(readlink: Permission denied)") := by
  simp only [getLinkInfo, hr, if_true, Vars.fields]

/-- **After any other failure** the fields are those of the link before. -/
theorem getLinkInfo_failed {e : Int} (hr : r.readlink = .error e) (he : e ≠ EACCES) :
    (getLinkInfo link r junk PID s).fields = s.fields := by
  simp only [getLinkInfo, hr, if_neg he, Vars.fields]

/-- The inode of a link whose `stat` fails is what the variable held. -/
theorem getLinkInfo_noInode {target : String} {e : Int} (hr : r.readlink = .ok target)
    (hi : r.inode = .error e) : (getLinkInfo link r junk PID s).NODE = toString junk.inode.stIno := by
  simp only [getLinkInfo, hr, hi, getInode, getType, stat]
  cases r.type <;> rfl

/-- And so is its type. -/
theorem getLinkInfo_noType {target : String} {e : Int} (hr : r.readlink = .ok target)
    (ht : r.type = .error e) : (getLinkInfo link r junk PID s).TYPE = typeName junk.type := by
  simp only [getLinkInfo, hr, ht, getInode, getType, stat]

/-! ## The rows -/

/-- The variables once a link has been handled. -/
def afterCwd (run : Run) (PID : String) : Vars :=
  getCwdInfo (run.results .cwd) (run.junk .cwd) PID ⟨run.errno, "", "", "", ""⟩

def afterRoot (run : Run) (PID : String) : Vars :=
  getRootInfo (run.results .root) (run.junk .root) PID (afterCwd run PID)

def varsAfter (run : Run) (PID : String) : Link → Vars
  | .cwd => afterCwd run PID
  | .root => afterRoot run PID
  | .exe => getExeInfo (run.results .exe) (run.junk .exe) PID (afterRoot run PID)

/-- The row of a link. -/
def row (rows : List Line) (link : Link) : Option Line := rows.find? fun l => l.FD = link.name

theorem row_linkRows (COMMAND PID USER : String) (run : Run) (link : Link) :
    row (linkRows COMMAND PID USER run) link
      = some ((varsAfter run PID link).line COMMAND PID USER link.name) := by
  cases link <;> rfl

/-- **A row that depends on its own link alone**: two runs that get the results `r` for the link record the
    same row, whatever else they find. -/
def Isolated (COMMAND PID USER : String) (link : Link) (r : Results) : Prop :=
  ∀ run run' : Run, run.results link = r → run'.results link = r →
    row (linkRows COMMAND PID USER run) link = row (linkRows COMMAND PID USER run') link

/-- **The results that determine a row**: the link can be read and both calls of `stat` succeed, or it may
    not be read; the first link may also fail otherwise, as its variables start empty. -/
def Determining (link : Link) (r : Results) : Prop :=
  match r.readlink with
  | .ok _ => (∃ i, r.inode = .ok i) ∧ ∃ t, r.type = .ok t
  | .error e => e = EACCES ∨ link = .cwd

theorem varsAfter_eq (run : Run) (PID : String) (link : Link) :
    ∃ s, varsAfter run PID link
      = getLinkInfo link.name (run.results link) (run.junk link) PID s := by
  cases link with
  | cwd => exact ⟨_, rfl⟩
  | root => exact ⟨_, rfl⟩
  | exe => exact ⟨_, rfl⟩

/-- Two rows are the same if the fields from the variables are. -/
theorem line_eq_iff {s t : Vars} {COMMAND PID USER FD : String} :
    s.line COMMAND PID USER FD = t.line COMMAND PID USER FD ↔ s.fields = t.fields := by
  unfold Vars.line Vars.fields
  simp only [Line.mk.injEq, Prod.mk.injEq, true_and]

theorem isolated_iff {COMMAND USER : String} {link : Link} :
    Isolated COMMAND PID USER link r ↔ ∀ run run' : Run, run.results link = r → run'.results link = r →
      (varsAfter run PID link).fields = (varsAfter run' PID link).fields := by
  unfold Isolated
  simp only [row_linkRows, Option.some.injEq, line_eq_iff]

/-- Determining results give one row. -/
theorem Determining.isolated {link : Link} (h : Determining link r) {run run' : Run}
    (hrun : run.results link = r) (hrun' : run'.results link = r) :
    (varsAfter run PID link).fields = (varsAfter run' PID link).fields := by
  obtain ⟨s, hs⟩ := varsAfter_eq run PID link
  obtain ⟨s', hs'⟩ := varsAfter_eq run' PID link
  unfold Determining at h
  cases hr : r.readlink with
  | ok target =>
      rw [hr] at h
      obtain ⟨⟨i, hi⟩, ⟨t, ht⟩⟩ := h
      rw [hs, hs', hrun, hrun', getLinkInfo_read hr hi ht, getLinkInfo_read hr hi ht]
  | error e =>
      rw [hr] at h
      by_cases he : e = EACCES
      · subst he
        rw [hs, hs', hrun, hrun', getLinkInfo_denied hr, getLinkInfo_denied hr]
      · obtain rfl := h.resolve_left he
        have hfirst : ∀ {run : Run}, run.results .cwd = r →
            (varsAfter run PID .cwd).fields = ("", "", "", "") := by
          intro run hrun
          have hfailed : (run.results .cwd).readlink = .error e := by rw [hrun, hr]
          exact getLinkInfo_failed hfailed he
        rw [hfirst hrun, hfirst hrun']

/-- A run with the results `r` for one link and `r'` for the others. -/
def runWith (link : Link) (r r' : Results) (junk : Junk) : Run where
  errno := 0
  results := fun l => if l = link then r else r'
  junk := fun _ => junk

/-- Results of a link that may not be read, and of one that is not there. -/
def denied : Results := ⟨.error EACCES, .error EACCES, .error EACCES⟩
def missing : Results := ⟨.error 2, .error 2, .error 2⟩

def emptyStat : Stat := ⟨0, 0⟩

/-- After a failure other than for want of permission, `root` and `exe` show what came before them. -/
theorem varsAfter_leaks {link : Link} {e : Int} (hr : r.readlink = .error e) (he : e ≠ EACCES)
    (hlink : link ≠ .cwd) :
    (varsAfter (runWith link r denied ⟨emptyStat, emptyStat⟩) PID link).TYPE = "unknown" ∧
      (varsAfter (runWith link r missing ⟨emptyStat, emptyStat⟩) PID link).TYPE = "" := by
  have hmissing : missing.readlink = .error 2 := rfl
  have hdenied : denied.readlink = .error EACCES := rfl
  have hother : (2 : Int) ≠ EACCES := by decide
  -- the junk is the same throughout, the variables are not
  have hkeep : ∀ (name : String) (s : Vars),
      (getLinkInfo name r ⟨emptyStat, emptyStat⟩ PID s).TYPE = s.TYPE := by
    intro name s
    exact congrArg Prod.fst (getLinkInfo_failed hr he)
  have hshown : ∀ (name : String) (s : Vars),
      (getLinkInfo name denied ⟨emptyStat, emptyStat⟩ PID s).TYPE = "unknown" := by
    intro name s
    exact congrArg Prod.fst (@getLinkInfo_denied name denied ⟨emptyStat, emptyStat⟩ PID s hdenied)
  have hpass : ∀ (name : String) (s : Vars),
      (getLinkInfo name missing ⟨emptyStat, emptyStat⟩ PID s).TYPE = s.TYPE := by
    intro name s
    exact congrArg Prod.fst (@getLinkInfo_failed name missing ⟨emptyStat, emptyStat⟩ PID s 2 hmissing hother)
  cases link with
  | cwd => exact absurd rfl hlink
  | root => exact ⟨(hkeep "root" _).trans (hshown "cwd" _), (hkeep "root" _).trans (hpass "cwd" _)⟩
  | exe =>
      exact ⟨(hkeep "exe" _).trans (hshown "root" _),
        (hkeep "exe" _).trans ((hpass "root" _).trans (hpass "cwd" _))⟩

/-- **Only results that determine the row isolate it.** -/
theorem determining_of_isolated {link : Link} {COMMAND USER : String}
    (h : Isolated COMMAND PID USER link r) : Determining link r := by
  rw [isolated_iff] at h
  unfold Determining
  cases hr : r.readlink with
  | ok target =>
      have hjunk : ∀ junk : Junk, ∃ s, (varsAfter (runWith link r missing ⟨emptyStat, emptyStat⟩) PID link).fields
          = (getLinkInfo link.name r junk PID s).fields := by
        intro junk
        obtain ⟨s, hs⟩ := varsAfter_eq (runWith link r missing junk) PID link
        have hresults : (runWith link r missing junk).results link = r := if_pos rfl
        rw [hresults] at hs
        refine ⟨s, ?_⟩
        rw [h _ (runWith link r missing junk) (if_pos rfl) hresults, hs]
        rfl
      -- a `stat` that fails shows the buffer it was given
      constructor
      · cases hi : r.inode with
        | ok i => exact ⟨i, rfl⟩
        | error e =>
            obtain ⟨s, hs⟩ := hjunk ⟨⟨0, 0⟩, emptyStat⟩
            obtain ⟨s', hs'⟩ := hjunk ⟨⟨0, 1⟩, emptyStat⟩
            have hnode : (getLinkInfo link.name r ⟨⟨0, 0⟩, emptyStat⟩ PID s).NODE
                = (getLinkInfo link.name r ⟨⟨0, 1⟩, emptyStat⟩ PID s').NODE :=
              congrArg (fun f => f.2.1) (hs.symm.trans hs')
            rw [getLinkInfo_noInode hr hi, getLinkInfo_noInode hr hi] at hnode
            exact absurd hnode (by decide)
      · cases ht : r.type with
        | ok t => exact ⟨t, rfl⟩
        | error e =>
            obtain ⟨s, hs⟩ := hjunk ⟨emptyStat, ⟨0o040000, 0⟩⟩
            obtain ⟨s', hs'⟩ := hjunk ⟨emptyStat, ⟨0o100000, 0⟩⟩
            have htype : (getLinkInfo link.name r ⟨emptyStat, ⟨0o040000, 0⟩⟩ PID s).TYPE
                = (getLinkInfo link.name r ⟨emptyStat, ⟨0o100000, 0⟩⟩ PID s').TYPE :=
              congrArg Prod.fst (hs.symm.trans hs')
            rw [getLinkInfo_noType hr ht, getLinkInfo_noType hr ht] at htype
            exact absurd htype (by decide)
  | error e =>
      by_cases he : e = EACCES
      · exact Or.inl he
      · by_cases hlink : link = .cwd
        · exact Or.inr hlink
        · -- the row shows what the link before it has left behind
          obtain ⟨hdenied, hmissing⟩ := @varsAfter_leaks r PID link e hr he hlink
          have hsame := h (runWith link r denied ⟨emptyStat, emptyStat⟩)
            (runWith link r missing ⟨emptyStat, emptyStat⟩) (if_pos rfl) (if_pos rfl)
          have htype : "unknown" = "" := hdenied.symm.trans ((congrArg Prod.fst hsame).trans hmissing)
          exact absurd htype (by decide)

/-- **Rows do not leak into each other** exactly when the results of the link determine its row. -/
theorem link_isolated (COMMAND PID USER : String) (link : Link) (r : Results) :
    Isolated COMMAND PID USER link r ↔ Determining link r := by
  constructor
  · exact determining_of_isolated
  · intro h
    rw [isolated_iff]
    intro run run' hrun hrun'
    exact h.isolated hrun hrun'

/-- A process without an executable, such as a kernel thread: its `exe` row repeats the `root` row. -/
theorem exe_leaks : ¬ ∀ (COMMAND PID USER : String) (link : Link) (r : Results),
    Isolated COMMAND PID USER link r := by
  intro h
  have hdet := determining_of_isolated (h "kthreadd" "2" "root" .exe missing)
  rcases hdet with he | hlink
  · exact absurd he (by decide)
  · cases hlink

end AdvUnix.Lsof
