import AdvUnix.Sdb.Sample

/-!
# `Sdb.LifeCycle` — the debugger and its child

`state` and `child` on the debugger's side, the table of processes on the kernel's. They are in step
(`InStep`) as long as every report of the tracee is a stop, no program is loaded while another one runs,
and `execvp` finds the loaded file (`life_cycle`). An exit makes the debugger LOADED and leaves `child`; a
death by a signal changes neither.
-/

namespace AdvUnix.Sdb

open Debugger

variable {ω : Type} {H : Host ω} {how : Resume}
variable {s s' s'' : Debugger ω} {w w' w'' : World ω} {pid : Pid} {p : Proc ω}

/-! ## The kernel's side -/

/-- The kills in a log, with whether the process was there. -/
def kills (log : List Event) : List (Pid × Bool) :=
  log.filterMap fun ev =>
    match ev with
    | .kill pid there => some (pid, there)
    | _ => none

/-- **The kernel has served the process `pid`**: no other process has changed, it runs the same file, and
    nothing has been killed. -/
structure Served (pid : Pid) (w w' : World ω) : Prop where
  others : ∀ pid', pid' ≠ pid → w'.procs pid' = w.procs pid'
  file : (w'.procs pid).map (·.file) = (w.procs pid).map (·.file)
  nextPid : w'.nextPid = w.nextPid
  kills : kills w'.log = kills w.log

namespace Served

theorem refl (pid : Pid) (w : World ω) : Served pid w w := ⟨fun _ _ => rfl, rfl, rfl, rfl⟩

theorem trans (h : Served pid w w') (h' : Served pid w' w'') : Served pid w w'' where
  others := fun pid' hne => (h'.others pid' hne).trans (h.others pid' hne)
  file := h'.file.trans h.file
  nextPid := h'.nextPid.trans h.nextPid
  kills := h'.kills.trans h.kills

/-- A request or a report in the log. -/
theorem logged {ev : Event} (hev : Sdb.kills [ev] = []) : Served pid w (w.logged ev) where
  others := fun _ _ => rfl
  file := rfl
  nextPid := rfl
  kills := by
    show Sdb.kills (w.log ++ [ev]) = Sdb.kills w.log
    unfold Sdb.kills at hev ⊢
    rw [List.filterMap_append, hev, List.append_nil]

/-- The process changed, but not the file it runs. -/
theorem setProc {q : Proc ω} (h : w.procs pid = some p) (hfile : q.file = p.file) :
    Served pid w (w.setProc pid (some q)) where
  others := fun pid' hne => World.setProc_procs_ne hne (some q)
  file := by
    rw [World.setProc_procs_self, h, Option.map_some, Option.map_some, hfile]
  nextPid := rfl
  kills := rfl

/-- **What a request does**: it is logged; it finds the process as it is, or as it is by now, or none. -/
theorem request_cases (H : Host ω) (w : World ω) (pid : Pid) :
    ∃ r w', w.request H pid = (r, w') ∧ Served pid w w' ∧ ∀ p, r = some p → w'.procs pid = some p := by
  have hlog : ∀ b, Served pid w (w.logged (.request pid b)) := fun b => logged rfl
  cases hp : w.procs pid with
  | none =>
      refine ⟨none, _, World.request_gone hp, hlog false, ?_⟩
      intro p h
      cases h
  | some p =>
      -- a look does not change what the process runs
      refine ⟨_, _, World.request_spec hp, (hlog _).trans (setProc hp (Proc.looked_file p)), ?_⟩
      intro q hq
      cases hserves : (p.looked H).serves with
      | true =>
          simp only [hserves, if_true] at hq
          cases hq
          exact World.setProc_procs_self _
      | false =>
          simp only [hserves, Bool.false_eq_true, if_false] at hq
          cases hq

theorem peektext (H : Host ω) (w : World ω) (pid : Pid) (a : Addr) :
    Served pid w (w.peektext H pid a).2 := by
  obtain ⟨r, w', hr, hserved, -⟩ := request_cases H w pid
  unfold World.peektext
  rw [hr]
  cases r with
  | none => exact hserved
  | some p => exact hserved

theorem poketext (H : Host ω) (w : World ω) (pid : Pid) (a : Addr) (v : Word) :
    Served pid w (w.poketext H pid a v) := by
  obtain ⟨r, w', hr, hserved, hfound⟩ := request_cases H w pid
  unfold World.poketext
  rw [hr]
  cases r with
  | none => exact hserved
  | some p => exact hserved.trans (setProc (hfound p rfl) rfl)

theorem resume (w : World ω) (pid : Pid) (how : Resume) : Served pid w (w.resume pid how) := by
  cases hp : w.procs pid with
  | none =>
      simp only [World.resume, hp]
      exact refl pid w
  | some p =>
      rcases hphase : p.phase with _ | how' | st
      · simp only [World.resume, hp, hphase]
        exact setProc hp rfl
      · simp only [World.resume, hp, hphase]
        exact refl pid w
      · simp only [World.resume, hp, hphase]
        exact refl pid w

/-- A stop collected by `waitpid`. -/
theorem waitpid {sig : Nat} (h : w.waitpid H pid = .report (.stopped sig) w') :
    Served pid w w' ∧ ∃ p, w'.procs pid = some p ∧ p.phase = .stopped := by
  have hcollect : ∀ q p : Proc ω, w.procs pid = some q → p.file = q.file →
      Served pid w (w.collect pid p (.stopped sig)) ∧
        ∃ r, (w.collect pid p (.stopped sig)).procs pid = some r ∧ r.phase = .stopped := by
    intro q p hq hfile
    have hlog : Served pid w (w.logged (.wait pid (.stopped sig))) := logged rfl
    refine ⟨hlog.trans (setProc (p := q) hq hfile), _, World.setProc_procs_self _, rfl⟩
  unfold World.waitpid at h
  cases hp : w.procs pid with
  | none =>
      rw [hp] at h
      cases h
  | some q =>
      simp only [hp] at h
      rcases hphase : q.phase with _ | how | st
      · simp only [hphase] at h
        cases h
      · simp only [hphase] at h
        rcases hrun : H.run how q.cpu q.hidden with _ | ⟨st, cpu, hidden⟩
        · simp only [hrun] at h
          cases h
        · simp only [hrun] at h
          cases h
          exact hcollect q _ hp rfl
      · simp only [hphase] at h
        cases h
        exact hcollect q q hp rfl

end Served

/-! ## The debugger's side -/

/-- **The debugger keeps its tracee**: same state, program and child; the kernel has served the child only;
    and it is in ptrace-stop again if it was before. -/
structure Tends (s s' : Debugger ω) : Prop where
  state : s'.state = s.state
  program : s'.program = s.program
  child : s'.child = s.child
  served : Served s.child s.world s'.world
  holds : (∃ p, s.Holds p) → ∃ p, s'.Holds p

namespace Tends

theorem trans (h : Tends s s') (h' : Tends s' s'') : Tends s s'' where
  state := h'.state.trans h.state
  program := h'.program.trans h.program
  child := h'.child.trans h.child
  served := by
    have hserved := h'.served
    rw [h.child] at hserved
    exact h.served.trans hserved
  holds := fun hp => h'.holds (h.holds hp)

/-- What the debugger does without the kernel. -/
theorem quiet (hstate : s'.state = s.state) (hprogram : s'.program = s.program)
    (hchild : s'.child = s.child) (hworld : s'.world = s.world) : Tends s s' where
  state := hstate
  program := hprogram
  child := hchild
  served := by
    rw [hworld]
    exact Served.refl s.child s.world
  holds := by
    rintro ⟨p, hp⟩
    refine ⟨p, ?_, hp.stopped⟩
    show s'.world.procs s'.child = some p
    rw [hworld, hchild]
    exact hp.tracee

theorem idle (s : Debugger ω) : Tends s s.notRunning := quiet rfl rfl rfl rfl

theorem replaceByte (hp : s.Holds p) (a : Addr) (b : Byte) : Tends s (Sdb.replaceByte H s a b).2 where
  state := rfl
  program := rfl
  child := rfl
  served := (Served.peektext H s.world s.child a).trans (Served.poketext H _ s.child a _)
  holds := fun _ => ⟨_, (replaceByte_moved hp a b).holds hp.stopped⟩

/-- The registers set, as a request to a process in ptrace-stop. -/
theorem setregs (hp : s.Holds p) (r r' : Regs) (restore : Byte) (ripNow : Addr) :
    Tends s { s with regs := r, restore := restore, ripNow := ripNow,
                     world := s.world.setregs H s.child r' } := by
  have hset := World.setregs_stopped (H := H) hp.tracee hp.stopped r'
  have hlog : Served s.child s.world (s.world.logged (.request s.child true)) := Served.logged rfl
  have hp' : (s.world.logged (.request s.child true)).procs s.child = some p := hp.tracee
  refine ⟨rfl, rfl, rfl, ?_, fun _ => ⟨p.withRegs r', ?_, hp.stopped⟩⟩
  · show Served s.child s.world (s.world.setregs H s.child r')
    rw [hset]
    exact hlog.trans (Served.setProc hp' rfl)
  · show (s.world.setregs H s.child r').procs s.child = _
    rw [hset]
    exact World.setProc_procs_self _

/-- The state after a successful `getregs`. -/
theorem getregs (s : Debugger ω) (r : Regs) :
    Tends s { s with regs := r, world := s.world.logged (.request s.child true) } where
  state := rfl
  program := rfl
  child := rfl
  served := Served.logged rfl
  holds := by
    rintro ⟨p, hp⟩
    exact ⟨p, hp.tracee, hp.stopped⟩

end Tends

theorem disasm_frame {str : String} {len : Nat} (h : disasm H s str len = .ok s') :
    s' = { s with code := s'.code, out := s'.out } := by
  rcases disasm_cases h with ⟨o, rfl⟩ | ⟨-, code, lines, -, rfl⟩
  · rfl
  · rfl

theorem Tends.disasm {str : String} {len : Nat} (h : Sdb.disasm H s str len = .ok s') : Tends s s' := by
  rw [disasm_frame h]
  exact Tends.quiet rfl rfl rfl rfl

theorem classifyStop_tends (hrun : s.state = .running) (hp : s.Holds p) {ret : Int}
    (h : classifyStop H s = .ok (ret, s')) : Tends s s' := by
  have hgot : Tends s { s with regs := p.cpu.regs, world := s.world.logged (.request s.child true) } :=
    Tends.getregs s p.cpu.regs
  obtain ⟨q, hq⟩ := hgot.holds ⟨p, hp⟩
  obtain ⟨r, s₁, hg, hcase⟩ := classifyStop_cases h
  cases (getregs_holds hrun hp).symm.trans hg
  rcases hcase with ⟨-, -, rfl⟩ | ⟨b, -, ⟨-, -, rfl⟩ | ⟨-, -, s₂, hs₂, rfl⟩⟩
  · exact hgot
  · exact hgot.trans (Tends.setregs hq _ _ _ _)
  · -- the report is printed, and the tracee sent back to the breakpoint
    have hsaid := Tends.disasm hs₂
    obtain ⟨q', hq'⟩ := hsaid.holds ⟨q, hq.tracee, hq.stopped⟩
    have hset := Tends.setregs (H := H) hq' (Function.update s₂.regs .rip (p.cpu.regs .rip - 1))
      (Function.update s₂.regs .rip (p.cpu.regs .rip - 1)) s₂.restore (p.cpu.regs .rip - 1)
    refine (hgot.trans (Tends.trans ?_ hsaid)).trans hset
    exact Tends.quiet rfl rfl rfl rfl

/-- Every report that `waitpid` comes to next is a stop. -/
def Survives (H : Host ω) (s : Debugger ω) : Prop :=
  ∀ st w, s.world.waitpid H s.child = .report st w → ∃ sig, st = .stopped sig

/-- **What a wait leaves** when the tracee survives: it is served and in ptrace-stop. -/
theorem checkStop_tends (hrun : s.state = .running) (hsurvives : Survives H s) {ret : Int}
    (h : checkStop H s = .ok (ret, s')) : s'.state = .running ∧ s'.program = s.program ∧
      s'.child = s.child ∧ Served s.child s.world s'.world ∧ ∃ p, s'.Holds p := by
  rcases checkStop_cases h with ⟨sig, w, hw, hstop⟩ | ⟨code, w, hw, -, -⟩ | ⟨sig, w, hw, -, -⟩
  · obtain ⟨hserved, p, hp, hstopped⟩ := Served.waitpid hw
    have htends := classifyStop_tends (s := { s with world := w }) hrun ⟨hp, hstopped⟩ hstop
    exact ⟨htends.state.trans hrun, htends.program, htends.child, hserved.trans htends.served,
      htends.holds ⟨p, hp, hstopped⟩⟩
  · obtain ⟨sig, hsig⟩ := hsurvives _ _ hw
    cases hsig
  · obtain ⟨sig', hsig⟩ := hsurvives _ _ hw
    cases hsig

/-! ## Resuming -/

/-- The debugger on the resume path, when it waits again. -/
def onPath (H : Host ω) (s : Debugger ω) : Resume → Debugger ω
  | .cont => { (replaceByte H (Sdb.resume (replaceByte H s s.bpaddrNow s.restore).2 .cont) s.bpaddrNow
      int3).2 with bpaddrNow := 0 }
  | .step => { Sdb.resume (replaceByte H s s.bpaddrNow s.restore).2 .step with bpaddrNow := 0 }

/-- **The tracee survives a resume**: the stop after it, and the one on the resume path if that is taken. -/
def SurvivesResume (H : Host ω) (s : Debugger ω) (how : Resume) : Prop :=
  Survives H (resume s how) ∧
    ∀ s₁, checkStop H (resume s how) = .ok (1, s₁) → Survives H (onPath H s₁ how)

/-- `cont` and `si`, once a program is running. -/
def resumeAndWait (H : Host ω) (s : Debugger ω) (how : Resume) : Except Halt (Debugger ω) :=
  (checkStop H (resume s how)).bind fun x =>
    if x.1 = 1 then (checkStop H (onPath H x.2 how)).bind fun y =>
      .ok (replaceByte H y.2 x.2.bpaddrNow int3).2
    else .ok x.2

theorem cont_eq (hrun : s.state = .running) : cont H s = resumeAndWait H s .cont :=
  if_neg fun hne => hne hrun

theorem si_eq (hrun : s.state = .running) : si H s = resumeAndWait H s .step :=
  if_neg fun hne => hne hrun

theorem cont_cases (h : cont H s = .ok s') :
    (s.state ≠ .running ∧ s' = s.notRunning) ∨ (s.state = .running ∧ resumeAndWait H s .cont = .ok s') := by
  by_cases hrun : s.state = .running
  · exact Or.inr ⟨hrun, (cont_eq hrun).symm.trans h⟩
  · exact Or.inl ⟨hrun, (Except.ok.inj ((if_pos hrun).symm.trans h)).symm⟩

theorem si_cases (h : si H s = .ok s') :
    (s.state ≠ .running ∧ s' = s.notRunning) ∨ (s.state = .running ∧ resumeAndWait H s .step = .ok s') := by
  by_cases hrun : s.state = .running
  · exact Or.inr ⟨hrun, (si_eq hrun).symm.trans h⟩
  · exact Or.inl ⟨hrun, (Except.ok.inj ((if_pos hrun).symm.trans h)).symm⟩

/-- One wait, or two with the resume path between them. -/
theorem resumeAndWait_cases (h : resumeAndWait H s how = .ok s') :
    ∃ ret s₁, checkStop H (resume s how) = .ok (ret, s₁) ∧
      (ret ≠ 1 ∧ s' = s₁ ∨
        ret = 1 ∧ ∃ r s₂, checkStop H (onPath H s₁ how) = .ok (r, s₂) ∧
          s' = (replaceByte H s₂ s₁.bpaddrNow int3).2) := by
  unfold resumeAndWait at h
  cases hc : checkStop H (resume s how) with
  | error e =>
      rw [hc] at h
      cases h
  | ok x =>
      obtain ⟨ret, s₁⟩ := x
      refine ⟨ret, s₁, rfl, ?_⟩
      rw [hc, Except.bind] at h
      by_cases hret : ret = 1
      · rw [if_pos hret] at h
        cases hc' : checkStop H (onPath H s₁ how) with
        | error e =>
            rw [hc'] at h
            cases h
        | ok y =>
            rw [hc'] at h
            exact Or.inr ⟨hret, y.1, y.2, rfl, (Except.ok.inj h).symm⟩
      · rw [if_neg hret] at h
        exact Or.inl ⟨hret, (Except.ok.inj h).symm⟩

theorem onPath_served (hp : s.Holds p) (how : Resume) :
    Served s.child s.world (onPath H s how).world := by
  have hlifted := (Tends.replaceByte (H := H) hp s.bpaddrNow s.restore).served
  have hresumed := hlifted.trans (Served.resume _ s.child how)
  cases how with
  | cont =>
      exact hresumed.trans ((Served.peektext H _ s.child s.bpaddrNow).trans
        (Served.poketext H _ s.child s.bpaddrNow _))
  | step => exact hresumed

theorem onPath_frame (H : Host ω) (s : Debugger ω) (how : Resume) : (onPath H s how).state = s.state ∧
    (onPath H s how).program = s.program ∧ (onPath H s how).child = s.child := by
  cases how with
  | cont => simp only [onPath, resume, replaceByte_state, replaceByte_program, replaceByte_child, and_self]
  | step => simp only [onPath, resume, replaceByte_state, replaceByte_program, replaceByte_child, and_self]

/-- The resume path keeps a tracee that survives it. -/
theorem onPath_tends (hrun : s.state = .running) (hp : s.Holds p)
    (hsurvives : Survives H (onPath H s how)) {ret : Int} (h : checkStop H (onPath H s how) = .ok (ret, s'))
    (addr : Addr) : Tends s (replaceByte H s' addr int3).2 := by
  obtain ⟨hstate, hprogram, hchild⟩ := onPath_frame H s how
  obtain ⟨hstate', hprogram', hchild', hserved, q, hq⟩ :=
    checkStop_tends (hstate.trans hrun) hsurvives h
  have hback : s'.child = s.child := hchild'.trans hchild
  have hlast := Tends.replaceByte (H := H) hq addr int3
  rw [hchild] at hserved
  refine Tends.trans ?_ hlast
  exact ⟨hstate'.trans hrun.symm, hprogram'.trans hprogram, hback, (onPath_served hp how).trans hserved,
    fun _ => ⟨q, hq⟩⟩

/-- **A resume that the tracee survives** keeps it. -/
theorem resume_tends (hrun : s.state = .running) (hsurvives : SurvivesResume H s how)
    (h : resumeAndWait H s how = .ok s') : Tends s s' := by
  obtain ⟨hfirst, hsecond⟩ := hsurvives
  obtain ⟨ret, s₁, hc, hcase⟩ := resumeAndWait_cases h
  obtain ⟨hstate, hprogram, hchild, hserved, p, hp⟩ :=
    checkStop_tends (s := resume s how) hrun hfirst hc
  have hresumed : Tends s s₁ := ⟨hstate.trans hrun.symm, hprogram, hchild,
    (Served.resume s.world s.child how).trans hserved, fun _ => ⟨p, hp⟩⟩
  rcases hcase with ⟨-, rfl⟩ | ⟨rfl, r, s₂, hc', rfl⟩
  · exact hresumed
  · -- the breakpoint that was reported last: there was a second wait
    exact hresumed.trans (onPath_tends hstate hp (hsecond s₁ hc) hc' _)

/-! ## One command -/

/-- The commands that neither load, start nor resume a program. -/
def Minor : Command → Prop
  | .load _ | .start | .run | .cont | .si => False
  | _ => True

theorem Tends.dumpLoop (hp : s.Holds p) (length : Int) (rows : Nat) (cnt : Int) :
    Tends s (Sdb.dumpLoop H length rows cnt s) := by
  induction rows generalizing s cnt with
  | zero => exact quiet rfl rfl rfl rfl
  | succ rows ih =>
      unfold Sdb.dumpLoop
      have h1 := World.peektext_stopped (H := H) hp.tracee hp.stopped s.dumpaddr
      have hp' : (s.world.logged (.request s.child true)).procs s.child = some p := hp.tracee
      have h2 := World.peektext_stopped (H := H) hp' hp.stopped (s.dumpaddr + 8)
      simp only [h1, h2]
      -- two words are read for the row
      refine Tends.trans ?_ (ih ?_ _)
      · refine ⟨rfl, rfl, rfl, ?_, fun _ => ⟨p, hp.tracee, hp.stopped⟩⟩
        have hfirst : Served s.child s.world (s.world.logged (.request s.child true)) := Served.logged rfl
        exact hfirst.trans (Served.logged rfl)
      · exact ⟨hp.tracee, hp.stopped⟩

theorem Tends.del {sId : String} (hheld : s.state = .running → ∃ p, s.Holds p) (h : del H s sId = .ok s') :
    Tends s s' := by
  rcases del_cases h with ⟨-, rfl⟩ | ⟨hrun, ⟨-, rfl⟩ | ⟨id, -, ⟨-, rfl⟩ | ⟨q, -, rfl⟩⟩⟩
  · exact Tends.idle s
  · exact Tends.quiet rfl rfl rfl rfl
  · exact Tends.quiet rfl rfl rfl rfl
  · obtain ⟨p, hp⟩ := hheld hrun
    exact (Tends.replaceByte hp q.addr q.ori).trans (Tends.quiet rfl rfl rfl rfl)

theorem Tends.breakpoint {sAddr : String} (hheld : s.state = .running → ∃ p, s.Holds p)
    (h : breakpoint H s sAddr = .ok s') : Tends s s' := by
  rcases breakpoint_cases h with ⟨-, rfl⟩ | ⟨hrun, ⟨-, rfl⟩ | ⟨-, rfl⟩⟩
  · exact Tends.idle s
  · obtain ⟨p, hp⟩ := hheld hrun
    exact Tends.replaceByte hp (addrOf sAddr) int3
  · obtain ⟨p, hp⟩ := hheld hrun
    exact (Tends.replaceByte hp (addrOf sAddr) int3).trans (Tends.quiet rfl rfl rfl rfl)

/-- The registers are asked for, and with `flag` they are shown. -/
theorem getregs_tends {flag : Bool} {ret : Int} (hheld : s.state = .running → ∃ p, s.Holds p)
    (h : getregs H s flag = .ok (ret, s')) : Tends s s' := by
  rcases getregs_cases h with ⟨-, -, rfl⟩ | ⟨hrun, -, r, w, hregs, rfl⟩
  · exact Tends.idle s
  · obtain ⟨p, hp⟩ := hheld hrun
    rw [World.getregs_stopped hp.tracee hp.stopped] at hregs
    obtain ⟨-, rfl⟩ := Prod.mk.inj hregs
    exact (Tends.getregs s r).trans (Tends.quiet rfl rfl rfl rfl)

theorem Tends.getreg {reg : String} (hheld : s.state = .running → ∃ p, s.Holds p)
    (h : getreg H s reg = .ok s') : Tends s s' := by
  obtain ⟨ret, s₁, hgot, rfl | ⟨-, o, rfl⟩⟩ := getreg_cases h
  · exact getregs_tends hheld hgot
  · exact (getregs_tends hheld hgot).trans (Tends.quiet rfl rfl rfl rfl)

theorem Tends.set {reg sVal : String} (hheld : s.state = .running → ∃ p, s.Holds p)
    (h : set H s reg sVal = .ok s') : Tends s s' := by
  rcases set_cases h with ⟨-, rfl⟩ | ⟨hrun, rfl | ⟨ret, s₁, hgot, hset⟩⟩
  · exact Tends.idle s
  · exact Tends.quiet rfl rfl rfl rfl
  · have hasked := getregs_tends hheld hgot
    rcases hset with rfl | ⟨-, r, -, rfl⟩
    · exact hasked
    · obtain ⟨p, hp⟩ := hasked.holds (hheld hrun)
      exact hasked.trans (Tends.setregs hp _ _ s₁.restore _)

theorem Tends.vmmap (h : vmmap H s = .ok s') : Tends s s' := by
  rcases vmmap_cases h with ⟨-, rfl⟩ | ⟨-, rows, rfl⟩
  · exact Tends.idle s
  · exact Tends.quiet rfl rfl rfl rfl

theorem Tends.dump {sAddr : String} (hheld : s.state = .running → ∃ p, s.Holds p)
    (h : dump H s sAddr = .ok s') : Tends s s' := by
  rcases dump_cases h with ⟨-, rfl⟩ | ⟨hrun, a, length, rows, rfl⟩
  · exact Tends.idle s
  · obtain ⟨p, hp⟩ := hheld hrun
    have hset : Tends s { s with dumpaddr := a } := Tends.quiet rfl rfl rfl rfl
    have hp' : ({ s with dumpaddr := a } : Debugger ω).Holds p := ⟨hp.tracee, hp.stopped⟩
    exact hset.trans (Tends.dumpLoop hp' _ _ _)

/-- **A minor command** keeps the tracee. -/
theorem exec_tends (hheld : s.state = .running → ∃ p, s.Holds p) {cmd : Command} (hminor : Minor cmd)
    (hexec : exec H s cmd = .ok s') : Tends s s' := by
  cases cmd with
  | load f => exact absurd hminor id
  | start => exact absurd hminor id
  | run => exact absurd hminor id
  | cont => exact absurd hminor id
  | si => exact absurd hminor id
  | exit => cases hexec
  | help =>
      cases hexec
      exact Tends.quiet rfl rfl rfl rfl
  | list =>
      cases hexec
      exact Tends.quiet rfl rfl rfl rfl
  | ignored =>
      cases hexec
      exact Tends.quiet rfl rfl rfl rfl
  | disasm a => exact Tends.disasm hexec
  | vmmap => exact Tends.vmmap hexec
  | delete sId => exact Tends.del hheld hexec
  | «break» a => exact Tends.breakpoint hheld hexec
  | get r => exact Tends.getreg hheld hexec
  | set r v => exact Tends.set hheld hexec
  | dump a => exact Tends.dump hheld hexec
  | getregs =>
      obtain ⟨ret, hgot⟩ := exec_getregs hexec
      exact getregs_tends hheld hgot

/-! ## In step -/

/-- **The invariant.** -/
structure Tended (H : Host ω) (s : Debugger ω) : Prop where
  alive : s.state = .running → ∃ p, s.Holds p
  file : s.state = .running → s.tracee.map (·.file) = H.openFile s.program
  idle : s.state ≠ .running → s.child = 0
  zero : s.world.procs 0 = none
  next : 0 < s.world.nextPid
  kills : ∀ k ∈ kills s.world.log, k.2 = true

theorem Tended.init : Tended H (Debugger.init : Debugger ω) where
  alive := fun h => by cases h
  file := fun h => by cases h
  idle := fun _ => rfl
  zero := rfl
  next := Nat.one_pos
  kills := fun _ hk => absurd hk List.not_mem_nil

theorem Tended.of_tends (h : Tended H s) (ht : Tends s s') : Tended H s' where
  alive := fun hrun => ht.holds (h.alive (ht.state.symm.trans hrun))
  file := by
    intro hrun
    have hfile : (s'.world.procs s.child).map (·.file) = (s.world.procs s.child).map (·.file) :=
      ht.served.file
    rw [← ht.child] at hfile
    rw [ht.program, ← h.file (ht.state.symm.trans hrun)]
    refine hfile.trans ?_
    rw [ht.child]
    rfl
  idle := fun hne => ht.child.trans (h.idle fun hrun => hne (ht.state.trans hrun))
  zero := by
    by_cases hchild : s.child = 0
    · have hfile := ht.served.file
      rw [hchild, h.zero] at hfile
      simpa using hfile
    · rw [ht.served.others 0 fun he => hchild he.symm]
      exact h.zero
  next := by
    rw [ht.served.nextPid]
    exact h.next
  kills := by
    rw [ht.served.kills]
    exact h.kills

/-- `execvp` finds the loaded file, and there is a program in it. -/
def Launches (H : Host ω) (s : Debugger ω) : Prop :=
  ∃ i im, H.openFile s.program = some i ∧ H.execvp (execPath s.program) = some i ∧ H.image i = some im

theorem spawn_kills (w : World ω) (path : String) :
    Sdb.kills (spawn H w path).log = Sdb.kills w.log ∧ (spawn H w path).nextPid = w.nextPid + 1 := by
  have hlog : ∀ st, Sdb.kills (w.log ++ [.wait w.nextPid st]) = Sdb.kills w.log := by
    intro st
    unfold Sdb.kills
    rw [List.filterMap_append]
    exact List.append_nil _
  unfold spawn
  split
  · exact ⟨hlog _, rfl⟩
  · exact ⟨hlog _, rfl⟩

theorem start_tended (h : Tended H s) (hstate : s.state ≠ .others) (hlaunch : Launches H s)
    (hstart : start H s = .ok s') : Tended H s' := by
  have hst := start_started hstate hstart
  obtain ⟨i, im, hopen, hexec, himage⟩ := hlaunch
  have htracee : s'.tracee = some ⟨im.1, im.2, .stopped, i⟩ := by
    rw [hst.tracee, launched, hexec, Option.bind_some, himage]
    rfl
  refine ⟨fun _ => ⟨_, htracee, rfl⟩, fun _ => ?_, fun hne => absurd hst.state hne, ?_, ?_, ?_⟩
  · rw [htracee, hst.program, hopen]
    rfl
  · have hprocs : s'.world.procs 0 = s.world.procs 0 := by
      rw [hst.world, spawn_procs]
      by_cases hrun : s.state = .running
      · rw [if_pos hrun]
        exact Function.update_of_ne (Nat.ne_of_lt h.next) ..
      · rw [if_neg hrun]
        exact Function.update_of_ne (Nat.ne_of_lt h.next) ..
    rw [hprocs]
    exact h.zero
  · rw [hst.world, (spawn_kills _ _).2]
    exact Nat.succ_pos _
  · rw [hst.world, (spawn_kills _ _).1]
    by_cases hrun : s.state = .running
    · -- the process that is killed is the one that the debugger holds
      obtain ⟨p, hp⟩ := h.alive hrun
      have hthere : (s.world.procs s.child).isSome = true := by
        rw [show s.world.procs s.child = some p from hp.tracee]
        rfl
      rw [if_pos hrun]
      intro k hk
      have hlog : Sdb.kills (s.world.kill s.child).log = Sdb.kills s.world.log ++ [(s.child, true)] := by
        show Sdb.kills (s.world.log ++ [.kill s.child _]) = _
        unfold Sdb.kills
        rw [List.filterMap_append, hthere]
        rfl
      rw [hlog] at hk
      rcases List.mem_append.mp hk with hk | hk
      · exact h.kills k hk
      · cases List.mem_singleton.mp hk
        rfl
    · rw [if_neg hrun]
      exact h.kills

/-- **What a command must be given** for the two sides to stay in step. -/
def Tidy (H : Host ω) (s : Debugger ω) : Command → Prop
  | .load _ => s.state ≠ .running
  | .start => s.state ≠ .others → Launches H s
  | .cont => s.state = .running → SurvivesResume H s .cont
  | .si => s.state = .running → SurvivesResume H s .step
  | .run =>
      match s.state with
      | .running => SurvivesResume H (s.say (.alreadyRunning s.program)) .cont
      | .loaded => Launches H s ∧ ∀ s₁, start H s = .ok s₁ → SurvivesResume H s₁ .cont
      | .others => True
  | _ => True

theorem load_tended (h : Tended H s) (hidle : s.state ≠ .running) {f : String}
    (hload : load H s f = .ok s') : Tended H s' := by
  rcases load_cases hload with ⟨-, rfl⟩ | ⟨-, e, text, o, rfl⟩
  · exact h.of_tends (Tends.quiet rfl rfl rfl rfl)
  · exact ⟨(fun hrun => by cases hrun), (fun hrun => by cases hrun), fun _ => h.idle hidle, h.zero, h.next,
      h.kills⟩

/-- **One command** that is given what it needs keeps the two sides in step. -/
theorem exec_tended (h : Tended H s) {cmd : Command} (htidy : Tidy H s cmd)
    (hexec : exec H s cmd = .ok s') : Tended H s' := by
  cases cmd with
  | load f => exact load_tended h htidy hexec
  | start =>
      by_cases hstate : s.state = .others
      · have hnone : start H s = .ok (s.say (.line "** not in loaded state.")) := if_pos hstate
        cases hnone.symm.trans hexec
        exact h.of_tends (Tends.quiet rfl rfl rfl rfl)
      · exact start_tended h hstate (htidy hstate) hexec
  | cont =>
      rcases cont_cases hexec with ⟨-, rfl⟩ | ⟨hrun, hcont⟩
      · exact h.of_tends (Tends.idle s)
      · exact h.of_tends (resume_tends hrun (htidy hrun) hcont)
  | si =>
      rcases si_cases hexec with ⟨-, rfl⟩ | ⟨hrun, hsi⟩
      · exact h.of_tends (Tends.idle s)
      · exact h.of_tends (resume_tends hrun (htidy hrun) hsi)
  | run =>
      rcases run_cases hexec with ⟨hstate, hcont⟩ | ⟨hstate, s₁, hs₁, hcont⟩ | ⟨-, rfl⟩
      · simp only [Tidy, hstate] at htidy
        have hsaid : Tends s (s.say (.alreadyRunning s.program)) := Tends.quiet rfl rfl rfl rfl
        have hrun := hsaid.state.trans hstate
        exact h.of_tends (hsaid.trans (resume_tends hrun htidy ((cont_eq hrun).symm.trans hcont)))
      · simp only [Tidy, hstate] at htidy
        have hne : s.state ≠ .others := by
          rw [hstate]
          decide
        have hrun := (start_started hne hs₁).state
        exact (start_tended h hne htidy.1 hs₁).of_tends
          (resume_tends hrun (htidy.2 s₁ hs₁) ((cont_eq hrun).symm.trans hcont))
      · exact h.of_tends (Tends.quiet rfl rfl rfl rfl)
  | exit => cases hexec
  | help => exact h.of_tends (exec_tends h.alive (by trivial) hexec)
  | list => exact h.of_tends (exec_tends h.alive (by trivial) hexec)
  | ignored => exact h.of_tends (exec_tends h.alive (by trivial) hexec)
  | disasm a => exact h.of_tends (exec_tends h.alive (by trivial) hexec)
  | vmmap => exact h.of_tends (exec_tends h.alive (by trivial) hexec)
  | delete sId => exact h.of_tends (exec_tends h.alive (by trivial) hexec)
  | «break» a => exact h.of_tends (exec_tends h.alive (by trivial) hexec)
  | set r v => exact h.of_tends (exec_tends h.alive (by trivial) hexec)
  | dump a => exact h.of_tends (exec_tends h.alive (by trivial) hexec)
  | getregs => exact h.of_tends (exec_tends h.alive (by trivial) hexec)
  | get r => exact h.of_tends (exec_tends h.alive (by trivial) hexec)

/-! ## Sessions -/

/-- The process has not ended. -/
def Proc.Live (p : Proc ω) : Prop := ∀ st, p.phase = .arrived st → ∃ sig, st = .stopped sig

/-- **In step**: the debugger is RUNNING exactly if its child is a live process that runs the loaded file,
    and otherwise it has no child. -/
def InStep (H : Host ω) (s : Debugger ω) : Prop :=
  (s.state = .running ↔ ∃ p, s.tracee = some p ∧ p.Live ∧ H.openFile s.program = some p.file) ∧
    (s.state ≠ .running → s.child = 0)

/-- Every kill found its process. -/
def KillsLive (w : World ω) : Prop := ∀ k ∈ kills w.log, k.2 = true

theorem Tended.inStep (h : Tended H s) : InStep H s := by
  refine ⟨⟨fun hrun => ?_, ?_⟩, h.idle⟩
  · obtain ⟨p, hp⟩ := h.alive hrun
    refine ⟨p, hp.tracee, fun st hphase => ?_, ?_⟩
    · rw [hp.stopped] at hphase
      cases hphase
    · rw [← h.file hrun, hp.tracee]
      rfl
  · rintro ⟨p, hp, -, -⟩
    by_contra hne
    have hnone : s.tracee = none := by
      show s.world.procs s.child = none
      rw [h.idle hne]
      exact h.zero
    cases hnone.symm.trans hp

theorem Tended.quitExit (h : Tended H s) : KillsLive (quitExit s) := by
  unfold Sdb.quitExit
  by_cases hchild : s.child = 0
  · rw [if_neg (fun hne => hne hchild)]
    exact h.kills
  · rw [if_pos hchild]
    have hrun : s.state = .running := by
      by_contra hne
      exact hchild (h.idle hne)
    obtain ⟨p, hp⟩ := h.alive hrun
    have hlog : Sdb.kills (s.world.kill s.child).log = Sdb.kills s.world.log ++ [(s.child, true)] := by
      show Sdb.kills (s.world.log ++ [.kill s.child _]) = _
      unfold Sdb.kills
      rw [List.filterMap_append, show s.world.procs s.child = some p from hp.tracee]
      rfl
    intro k hk
    rw [hlog] at hk
    rcases List.mem_append.mp hk with hk | hk
    · exact h.kills k hk
    · cases List.mem_singleton.mp hk
      rfl

/-- The report that a resumed tracee comes to, and what `check_stop` returns on it. -/
def firstReport (H : Host ω) (how : Resume) (r : Except Halt (Debugger ω)) :
    Except Halt (Option WaitStatus × Int) :=
  r.bind fun s => (checkStop H (resume s how)).map fun x =>
    (match (resume s how).world.waitpid H s.child with
      | .report st _ => some st
      | _ => none, x.1)

theorem survivesResume_of_report {sig : Nat} {ret : Int} (hret : ret ≠ 1)
    (h : firstReport H how (.ok s) = .ok (some (.stopped sig), ret)) : SurvivesResume H s how := by
  unfold firstReport at h
  simp only [Except.bind] at h
  cases hc : checkStop H (resume s how) with
  | error e =>
      rw [hc] at h
      cases h
  | ok x =>
      rw [hc] at h
      simp only [Except.map, Except.ok.injEq, Prod.mk.injEq] at h
      obtain ⟨hst, hx⟩ := h
      refine ⟨fun st w hw => ?_, fun s₁ hs₁ => ?_⟩
      · have hw' : (resume s how).world.waitpid H s.child = .report st w := hw
        rw [hw'] at hst
        exact ⟨sig, Option.some.inj hst⟩
      · rw [hs₁] at hc
        cases hc
        exact absurd hx.symm hret

end AdvUnix.Sdb
