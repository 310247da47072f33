import AdvUnix.Sdb.Edits
import AdvUnix.Sdb.Robust

/-!
# `Sdb.Missing` — lines with too few arguments

`main` passes the strings `QQ` and `NO` for an argument that is not there. `get`, `set`, `delete` and `disasm` know
them before they do anything; `break` takes `QQ` for the address 0, and `dump` tests for it in the branch that only
`NO` reaches (`missing_arguments_iff`).
-/

namespace AdvUnix.Sdb

open ByteStore Debugger

variable {ω : Type} {H : Host ω} {s s' : Debugger ω} {p : Proc ω} {tokens : List String}

/-! ## Lines and their arguments -/

/-- How many arguments a command needs. -/
def argsNeeded : String → Nat
  | "get" | "g" | "break" | "b" | "delete" | "dump" | "x" | "disasm" | "d" => 1
  | "set" | "s" => 2
  | _ => 0

/-- **A line with too few arguments**, whatever addresses earlier `dump`s were given. -/
def Lacking : List String → Prop
  | [] => False
  | cmd :: args => args.length < argsNeeded cmd

instance : DecidablePred Lacking
  | [] => isFalse id
  | _ :: _ => inferInstanceAs (Decidable (_ < _))

/-- What `main` makes of such a line. -/
inductive Sentinel (dumpaddr : Word) : Command → Prop
  | get : Sentinel dumpaddr (.get "QQ")
  | set : Sentinel dumpaddr (.set "QQ" "QQ")
  | break : Sentinel dumpaddr (.break "QQ")
  | delete : Sentinel dumpaddr (.delete "QQ")
  | dump : Sentinel dumpaddr (.dump (if dumpaddr ≠ -1 then "NO" else "QQ"))
  | disasm : Sentinel dumpaddr (.disasm "QQ")

theorem args_nil {args : List String} (h : args.length < 1) : args = [] :=
  List.length_eq_zero_iff.mp (Nat.lt_one_iff.mp h)

theorem ofTokens_dump (dumpaddr : Word) :
    Command.ofTokens dumpaddr ["dump"] = .dump (if dumpaddr ≠ -1 then "NO" else "QQ") := by
  show (if dumpaddr ≠ -1 then Command.dump "NO" else .dump "QQ") = _
  split <;> rfl

theorem ofTokens_set (dumpaddr : Word) {args : List String} (h : args.length < 2) :
    Command.ofTokens dumpaddr ("set" :: args) = .set "QQ" "QQ" := by
  cases args with
  | nil => rfl
  | cons r rest =>
      rw [args_nil (Nat.lt_of_succ_lt_succ h)]
      rfl

theorem ofTokens_lacking {dumpaddr : Word} (h : Lacking tokens) :
    Sentinel dumpaddr (Command.ofTokens dumpaddr tokens) := by
  cases tokens with
  | nil => cases h
  | cons cmd args =>
      have hfew : args.length < argsNeeded cmd := h
      unfold argsNeeded at hfew
      split at hfew
      -- the names of each command in turn; all but `set` are given no argument at all
      · rw [args_nil hfew]
        exact .get
      · rw [args_nil hfew]
        exact .get
      · rw [args_nil hfew]
        exact .break
      · rw [args_nil hfew]
        exact .break
      · rw [args_nil hfew]
        exact .delete
      · rw [args_nil hfew, ofTokens_dump]
        exact .dump
      · rw [args_nil hfew]
        exact ofTokens_dump dumpaddr ▸ .dump
      · rw [args_nil hfew]
        exact .disasm
      · rw [args_nil hfew]
        exact .disasm
      · rw [ofTokens_set dumpaddr hfew]
        exact .set
      · show Sentinel dumpaddr (Command.ofTokens dumpaddr ("set" :: args))
        rw [ofTokens_set dumpaddr hfew]
        exact .set
      · cases hfew

/-! ## What is left alone -/

/-- **Nothing is changed** in the tracee, in the table, and in the globals that steer a resume or a `dump`. -/
structure Undisturbed (s s' : Debugger ω) : Prop where
  memory : s'.memory = s.memory
  regs : s'.tracee.map (·.cpu.regs) = s.tracee.map (·.cpu.regs)
  points : s'.points = s.points
  bpid : s'.bpid = s.bpid
  dumpaddr : s'.dumpaddr = s.dumpaddr
  ripNow : s'.ripNow = s.ripNow
  bpaddrNow : s'.bpaddrNow = s.bpaddrNow

/-- **A line that changes nothing**: it is handled, and nothing is changed when the prompt is back. -/
def Harmless (H : Host ω) (s : Debugger ω) (tokens : List String) : Prop :=
  Handled (execLine H s tokens) ∧ ∀ s', execLine H s tokens = .ok s' → Undisturbed s s'

theorem undisturbed_of_procs (hprocs : s'.world.procs = s.world.procs) (hchild : s'.child = s.child)
    (hpoints : s'.points = s.points) (hbpid : s'.bpid = s.bpid) (hdumpaddr : s'.dumpaddr = s.dumpaddr)
    (hripNow : s'.ripNow = s.ripNow) (hbpaddrNow : s'.bpaddrNow = s.bpaddrNow) : Undisturbed s s' := by
  have htracee : s'.tracee = s.tracee := by
    unfold Debugger.tracee
    rw [hprocs, hchild]
  refine ⟨?_, by rw [htracee], hpoints, hbpid, hdumpaddr, hripNow, hbpaddrNow⟩
  funext x
  unfold Debugger.memory
  rw [htracee]

theorem Undisturbed.same (s : Debugger ω) (o : Out) : Undisturbed s (s.say o) :=
  undisturbed_of_procs rfl rfl rfl rfl rfl rfl rfl

/-- `get` without a name asks for the registers and shows none. -/
theorem getreg_QQ (hrun : s.state = .running) (hrest : s.AtRest) :
    Handled (getreg H s "QQ") ∧ ∀ s', getreg H s "QQ" = .ok s' → Undisturbed s s' := by
  cases ht : s.tracee with
  | none =>
      have hquit : getreg H s "QQ" = .error (.quit "** ptrace error.") := by
        unfold getreg
        rcases getregs_at_rest (H := H) hrun hrest false with ⟨-, hquit⟩ | ⟨hsome, -⟩
        · rw [hquit]
          rfl
        · rw [ht] at hsome
          cases hsome
      rw [hquit]
      refine ⟨handled_error.mpr trivial, ?_⟩
      intro s' hs'
      cases hs'
  | some p =>
      unfold getreg
      rw [getregs_holds hrun (hrest.held ht)]
      refine ⟨handled_ok _, ?_⟩
      intro s' hs'
      cases hs'
      exact undisturbed_of_procs rfl rfl rfl rfl rfl rfl rfl

/-- Replacing a byte leaves the registers. -/
theorem replaceByte_regs (hrest : s.AtRest) (a : Addr) (b : Byte) :
    (replaceByte H s a b).2.tracee.map (·.cpu.regs) = s.tracee.map (·.cpu.regs) := by
  cases ht : s.tracee with
  | none => rw [(replaceByte_gone (H := H) ht a b).tracee]
  | some p =>
      rw [(replaceByte_moved (H := H) (hrest.held ht) a b).tracee]
      rfl

/-- `break` without an address is `break 0`. -/
theorem break_QQ (hrun : s.state = .running) (hrest : s.AtRest) :
    (Handled (breakpoint H s "QQ") ∧ ∀ s', breakpoint H s "QQ" = .ok s' → Undisturbed s s') ↔
      0 ∈ addrs s.points ∧
      (s.storable H 0 = none ∨ (s.memory 0 = some int3 ∧ Patchable (s.writable H) s.memory 0 int3)) := by
  have hzero : addrOf "QQ" = 0 := by decide
  by_cases hin : 0 ∈ addrs s.points
  · rw [breakpoint_dup hrun (by rwa [hzero]), hzero, Debugger.storable, ← replaced_eq_self_iff,
      ← replaceByte_memory (H := H) hrest]
    constructor
    · rintro ⟨-, hsame⟩
      exact ⟨hin, (hsame _ rfl).memory⟩
    · rintro ⟨-, hmemory⟩
      refine ⟨handled_ok _, ?_⟩
      intro s' hs'
      cases hs'
      exact ⟨hmemory, replaceByte_regs hrest 0 int3, rfl, rfl, rfl, rfl, rfl⟩
  · rw [breakpoint_new hrun (by rwa [hzero])]
    refine iff_of_false ?_ (fun h => hin h.1)
    rintro ⟨-, hsame⟩
    have hpoints := (hsame _ rfl).points
    simp at hpoints

/-- Of the globals, the loop of `dump` moves `dumpaddr` only. -/
theorem dumpLoop_same (length : Int) (rows : Nat) (cnt : Int) (s : Debugger ω) :
    ∃ d o w, dumpLoop H length rows cnt s = { s with dumpaddr := d, out := o, world := w } := by
  induction rows generalizing s cnt with
  | zero => exact ⟨_, _, _, rfl⟩
  | succ rows ih =>
      obtain ⟨d, o, w, hrest⟩ := ih (dumpRow H length cnt s).2 (dumpRow H length cnt s).1
      exact ⟨d, o, w, hrest⟩

/-- **When `dump` prints no row**: past the end, when the row count narrowed to an `int` is not positive. -/
theorem lineCount_eq_zero {rest : Int} : lineCount rest = 0 ↔ rest ≤ 0 ∧ (-rest / 16 - 1) % 2 ^ 32 ≤ 2 ^ 31 := by
  by_cases hfar : 80 ≤ rest
  · rw [lineCount_far hfar]
    omega
  · by_cases hin : 0 < rest
    · have hrows := lineCount_inside (by omega : 0 ≤ rest) (by omega)
      omega
    · have hrows := lineCount_past (by omega : rest ≤ 0)
      rw [bmod_int] at hrows
      split at hrows <;> omega

/-- What each line needs to change nothing. `get`, `set`, `delete` and `disasm`: nothing; `break`: a breakpoint at
    address 0, where nothing can be stored or the byte is there already; `dump`: a `dumpaddr` from which no row is
    printed. -/
def Spared (H : Host ω) (s : Debugger ω) : Command → Prop
  | .break _ => 0 ∈ addrs s.points ∧
      (s.storable H 0 = none ∨ (s.memory 0 = some int3 ∧ Patchable (s.writable H) s.memory 0 int3))
  | .dump _ => s.dumpaddr ≠ -1 ∧ restAt s.text s.dumpaddr ≤ 0 ∧
      (-restAt s.text s.dumpaddr / 16 - 1) % 2 ^ 32 ≤ 2 ^ 31
  | _ => True

theorem lineCount_lt (rest : Int) : lineCount rest < 2 ^ 31 := by
  unfold lineCount
  rw [bmod_int]
  split
  · decide
  · split <;> omega

/-- What `dump` has moved `dumpaddr` over, when no row was printed. -/
theorem dump_undisturbed {sAddr : String} (hrun : s.state = .running) (hs' : dump H s sAddr = .ok s')
    (hprocs : s'.world.procs = s.world.procs) (hdumpaddr : s'.dumpaddr = s.dumpaddr) : Undisturbed s s' := by
  rcases dump_cases hs' with ⟨hidle, -⟩ | ⟨-, a, length, n, rfl⟩
  · exact absurd hrun hidle
  · obtain ⟨d, o, w, hsame⟩ := dumpLoop_same (H := H) length n 0 { s with dumpaddr := a }
    rw [hsame] at hprocs hdumpaddr ⊢
    exact undisturbed_of_procs hprocs rfl rfl rfl hdumpaddr rfl rfl

/-- `dump` without an address goes on from the last one, or from 0. -/
theorem dump_missing (hrun : s.state = .running) (hrest : s.AtRest) :
    (Handled (dump H s (if s.dumpaddr ≠ -1 then "NO" else "QQ")) ∧
      ∀ s', dump H s (if s.dumpaddr ≠ -1 then "NO" else "QQ") = .ok s' → Undisturbed s s') ↔
        s.dumpaddr ≠ -1 ∧ restAt s.text s.dumpaddr ≤ 0 ∧
          (-restAt s.text s.dumpaddr / 16 - 1) % 2 ^ 32 ≤ 2 ^ 31 := by
  have hlt := s.dumpaddr.isLt
  rw [← lineCount_eq_zero]
  by_cases hgiven : s.dumpaddr ≠ -1
  · rw [if_pos hgiven]
    obtain ⟨s', rows, hs', hdumped⟩ := dump_spec (H := H) hrun hrest "NO"
    have hmoved : s'.dumpaddr = s.dumpaddr + BitVec.ofNat 64 (16 * lineCount (restAt s.text s.dumpaddr)) :=
      hdumped.dumpaddr
    have hcount := lineCount_lt (restAt s.text s.dumpaddr)
    constructor
    · rintro ⟨-, hsame⟩
      refine ⟨hgiven, ?_⟩
      have hnat := congrArg BitVec.toNat ((hsame s' hs').dumpaddr.symm.trans hmoved)
      rw [BitVec.toNat_add, BitVec.toNat_ofNat] at hnat
      omega
    · rintro ⟨-, hnone⟩
      refine ⟨by rw [hs']; exact handled_ok _, ?_⟩
      intro s'' hs''
      cases hs'.symm.trans hs''
      refine dump_undisturbed hrun hs' hdumped.kept.procs ?_
      rw [hmoved, hnone, Nat.mul_zero, BitVec.add_zero]
  · -- `QQ` is read as 0, and rows of sixteen from there never end at `-1`
    rw [if_neg hgiven]
    obtain ⟨s', rows, hs', hdumped⟩ := dump_spec (H := H) hrun hrest "QQ"
    have hmoved : s'.dumpaddr = 0 + BitVec.ofNat 64 (16 * lineCount (restAt s.text (dumpFrom s "QQ"))) :=
      hdumped.dumpaddr
    refine iff_of_false ?_ (fun h => hgiven h.1)
    rintro ⟨-, hsame⟩
    have hstays := (hsame s' hs').dumpaddr.trans (not_not.mp hgiven)
    have hnat := congrArg BitVec.toNat (hmoved.symm.trans hstays)
    rw [BitVec.toNat_add, BitVec.toNat_ofNat, show (-1 : Word).toNat = 2 ^ 64 - 1 by decide,
      show (0 : Word).toNat = 0 by decide] at hnat
    omega

/-- A command that knows its sentinel only prints, if that. -/
theorem sentinel_known {r : Except Halt (Debugger ω)} (h : r = .ok s') (hsame : Undisturbed s s') :
    Handled r ∧ ∀ s'', r = .ok s'' → Undisturbed s s'' := by
  rw [h]
  refine ⟨handled_ok s', ?_⟩
  intro s'' hs''
  cases hs''
  exact hsame

/-- **When a line with too few arguments changes nothing.** -/
theorem missing_arguments_iff (hrun : s.state = .running) (hrest : s.AtRest) (h : Lacking tokens) :
    Harmless H s tokens ↔ Spared H s (Command.ofTokens s.dumpaddr tokens) := by
  have hsentinel := @ofTokens_lacking tokens s.dumpaddr h
  have hidle : Undisturbed s s := undisturbed_of_procs rfl rfl rfl rfl rfl rfl rfl
  unfold Harmless execLine
  generalize Command.ofTokens s.dumpaddr tokens = c at hsentinel ⊢
  cases hsentinel with
  | get => exact iff_of_true (getreg_QQ hrun hrest) trivial
  | set =>
      have hquiet : exec H s (.set "QQ" "QQ") = .ok s := by
        simp [exec, set, hrun]
      exact iff_of_true (sentinel_known hquiet hidle) trivial
  | «break» => exact break_QQ hrun hrest
  | delete =>
      have hquiet : exec H s (.delete "QQ") = .ok s := by
        simp [exec, del, hrun]
      exact iff_of_true (sentinel_known hquiet hidle) trivial
  | dump => exact dump_missing hrun hrest
  | disasm =>
      have hquiet : exec H s (.disasm "QQ") = .ok (s.say (.line "** no addr is given.")) := by
        simp [exec, disasm, hrun]
      exact iff_of_true (sentinel_known hquiet (Undisturbed.same s _)) trivial

/-- `delete` alone. -/
theorem missing_arguments_sample : Harmless (sampleHost nopText 9) (sampleStarted nopText 9) ["delete"] :=
  (missing_arguments_iff rfl (session_atRest sample_started rfl) (show Lacking ["delete"] by decide)).mpr trivial

/-- `break` alone puts a breakpoint at address 0. -/
theorem break_alone : ¬ ∀ (s : Debugger (List Bool)) (cmds : List Command) (tokens : List String),
    execAll (sampleHost nopText 9) Debugger.init cmds = .ok s → s.state = .running → Lacking tokens →
      Harmless (sampleHost nopText 9) s tokens := by
  intro h
  have hlacking : Lacking ["break"] := by decide
  have hharmless := h (sampleStarted nopText 9) _ ["break"] sample_started rfl hlacking
  have hspared := (missing_arguments_iff rfl (session_atRest sample_started rfl) hlacking).mp hharmless
  have hin : (0 : Addr) ∈ addrs (sampleStarted nopText 9).points := hspared.1
  revert hin
  decide

end AdvUnix.Sdb
