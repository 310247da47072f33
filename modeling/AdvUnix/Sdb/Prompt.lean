import AdvUnix.Sdb.LifeCycle

/-!
# `Sdb.Prompt` — the tracee at a prompt

Whenever the debugger is back at its prompt, whatever it has been told to do before and whatever its tracee
has done, the process it holds as its child is in ptrace-stop or not there any more (`session_atRest`). A
request made then is served at once, or it fails because there is no process (`request_atRest`).
-/

namespace AdvUnix.Sdb

open ByteStore Debugger

variable {ω : Type} {H : Host ω}
variable {s s' s'' : Debugger ω} {w w' : World ω} {pid : Pid} {p : Proc ω}

/-! ## A process at rest -/

namespace World

/-- **At rest**: the process is in ptrace-stop, or there is none. -/
def AtRest (w : World ω) (pid : Pid) : Prop := ∀ p, w.procs pid = some p → p.phase = .stopped

theorem AtRest.logged (h : w.AtRest pid) (ev : Event) : (w.logged ev).AtRest pid := h

theorem AtRest.setProc {q : Option (Proc ω)} (h : ∀ p, q = some p → p.phase = .stopped) :
    (w.setProc pid q).AtRest pid := by
  intro p hp
  rw [setProc_procs_self] at hp
  exact h p hp

/-- **A request to a process at rest** changes nothing but the log. -/
theorem request_atRest (h : w.AtRest pid) :
    w.request H pid = (w.procs pid, w.logged (.request pid (w.procs pid).isSome)) := by
  cases hp : w.procs pid with
  | none => simp only [request, hp, Option.isSome_none]
  | some p => simp only [request, hp, h p hp, Option.isSome_some]

/-- The word that `PTRACE_PEEKTEXT` returns for a process at rest. -/
def wordAt (w : World ω) (pid : Pid) (a : Addr) : Option Word :=
  (w.procs pid).bind fun p => Mem.peek p.cpu.mem a

theorem peektext_atRest (h : w.AtRest pid) (a : Addr) :
    w.peektext H pid a
      = ((w.wordAt pid a).getD (-1), w.logged (.request pid (w.procs pid).isSome)) := by
  unfold peektext wordAt
  rw [request_atRest h]
  cases w.procs pid <;> rfl

theorem poketext_atRest (h : w.AtRest pid) (a : Addr) (v : Word) :
    (w.poketext H pid a v).AtRest pid := by
  unfold poketext
  rw [request_atRest h]
  cases hp : w.procs pid with
  | none => exact h
  | some p =>
      refine AtRest.setProc ?_
      rintro q ⟨⟩
      exact h p hp

theorem getregs_atRest (h : w.AtRest pid) :
    w.getregs H pid = ((w.procs pid).map (·.cpu.regs), w.logged (.request pid (w.procs pid).isSome)) := by
  unfold getregs
  rw [request_atRest h]
  cases w.procs pid <;> rfl

theorem setregs_atRest (h : w.AtRest pid) (r : Regs) : (w.setregs H pid r).AtRest pid := by
  unfold setregs
  rw [request_atRest h]
  cases hp : w.procs pid with
  | none => exact h
  | some p =>
      refine AtRest.setProc ?_
      rintro q ⟨⟩
      exact h p hp

/-- A process whose report has been collected is at rest. -/
theorem waitpid_atRest {st : WaitStatus} (h : w.waitpid H pid = .report st w') : w'.AtRest pid := by
  have hcollect : ∀ q : Proc ω, (w.collect pid q st).AtRest pid := by
    intro q
    unfold collect
    cases st with
    | stopped sig =>
        refine AtRest.setProc ?_
        rintro p ⟨⟩
        rfl
    | exited code =>
        refine AtRest.setProc ?_
        rintro p ⟨⟩
    | signaled sig =>
        refine AtRest.setProc ?_
        rintro p ⟨⟩
  unfold waitpid at h
  cases hp : w.procs pid with
  | none =>
      rw [hp] at h
      cases h
  | some q =>
      simp only [hp] at h
      rcases hphase : q.phase with _ | how | st'
      · rw [hphase] at h
        cases h
      · simp only [hphase] at h
        cases hrun : H.run how q.cpu q.hidden with
        | none =>
            rw [hrun] at h
            cases h
        | some r =>
            rw [hrun] at h
            cases h
            exact hcollect _
      · simp only [hphase] at h
        cases h
        exact hcollect q

end World

/-! ## Requests and the log -/

namespace World

/-- Whether a process is in ptrace-stop. -/
def inStop (w : World ω) (pid : Pid) : Bool :=
  match w.procs pid with
  | some p => p.phase = .stopped
  | none => false

/-- **A request is logged** with whether its process is in ptrace-stop, served or not. -/
theorem request_log (H : Host ω) (w : World ω) (pid : Pid) :
    (w.request H pid).2.log = w.log ++ [.request pid (w.inStop pid)] := by
  unfold inStop
  cases hp : w.procs pid with
  | none =>
      rw [request_gone hp]
      rfl
  | some p =>
      rw [request_spec hp]
      rfl

theorem peektext_log (H : Host ω) (w : World ω) (pid : Pid) (a : Addr) :
    (w.peektext H pid a).2.log = w.log ++ [.request pid (w.inStop pid)] := by
  rw [← request_log H]
  unfold peektext
  rcases w.request H pid with ⟨_ | p, w'⟩ <;> rfl

theorem poketext_log (H : Host ω) (w : World ω) (pid : Pid) (a : Addr) (v : Word) :
    (w.poketext H pid a v).log = w.log ++ [.request pid (w.inStop pid)] := by
  rw [← request_log H]
  unfold poketext
  rcases w.request H pid with ⟨_ | p, w'⟩ <;> rfl

theorem getregs_log (H : Host ω) (w : World ω) (pid : Pid) :
    (w.getregs H pid).2.log = w.log ++ [.request pid (w.inStop pid)] := by
  rw [← request_log H]
  unfold getregs
  rcases w.request H pid with ⟨_ | p, w'⟩ <;> rfl

theorem setregs_log (H : Host ω) (w : World ω) (pid : Pid) (r : Regs) :
    (w.setregs H pid r).log = w.log ++ [.request pid (w.inStop pid)] := by
  rw [← request_log H]
  unfold setregs
  rcases w.request H pid with ⟨_ | p, w'⟩ <;> rfl

theorem resume_log (w : World ω) (pid : Pid) (how : Resume) : (w.resume pid how).log = w.log := by
  unfold resume
  cases w.procs pid with
  | none => rfl
  | some p => rcases p with ⟨cpu, hidden, _ | _ | _, file⟩ <;> rfl

theorem collect_log (w : World ω) (pid : Pid) (p : Proc ω) (st : WaitStatus) :
    (w.collect pid p st).log = w.log ++ [.wait pid st] := by
  cases st <;> rfl

theorem waitpid_log {st : WaitStatus} (h : w.waitpid H pid = .report st w') :
    w'.log = w.log ++ [.wait pid st] := by
  unfold waitpid at h
  cases hp : w.procs pid with
  | none =>
      rw [hp] at h
      cases h
  | some q =>
      simp only [hp] at h
      rcases hphase : q.phase with _ | how | st'
      · rw [hphase] at h
        cases h
      · simp only [hphase] at h
        cases hrun : H.run how q.cpu q.hidden with
        | none =>
            rw [hrun] at h
            cases h
        | some r =>
            rw [hrun] at h
            cases h
            exact collect_log ..
      · simp only [hphase] at h
        cases h
        exact collect_log ..

end World

/-- The tracee is at rest. -/
def Debugger.AtRest (s : Debugger ω) : Prop := s.world.AtRest s.child

theorem Debugger.AtRest.held (h : s.AtRest) (hp : s.tracee = some p) : s.Holds p := ⟨hp, h p hp⟩

/-! ## What leaves it at rest -/

/-- **The tracee is asked, not resumed**: from `s` to `s'` the debugger keeps its state and its child, the log
    grows, and a tracee at rest stays at rest. -/
structure Calm (s s' : Debugger ω) : Prop where
  state : s'.state = s.state
  child : s'.child = s.child
  log : s.world.log <+: s'.world.log
  rest : s.AtRest → s'.AtRest

/-- One row of `dump`: the state after it, and the count of bytes shown. -/
def dumpRow (H : Host ω) (length cnt : Int) (s : Debugger ω) : Debugger ω × Int :=
  let (word, w) := s.world.peektext H s.child s.dumpaddr
  let (word', w) := w.peektext H s.child (s.dumpaddr + 8)
  let (cells, cnt) := dumpCells length (wordBytes word ++ wordBytes word') cnt
  ({ s with world := w, dumpaddr := s.dumpaddr + 16 }.say (.dumpRow s.dumpaddr cells), cnt)

theorem dumpLoop_succ (length cnt : Int) (rows : Nat) (s : Debugger ω) :
    dumpLoop H length (rows + 1) cnt s
      = dumpLoop H length rows (dumpRow H length cnt s).2 (dumpRow H length cnt s).1 := rfl

namespace Calm

theorem trans (h : Calm s s') (h' : Calm s' s'') : Calm s s'' where
  state := h'.state.trans h.state
  child := h'.child.trans h.child
  log := h.log.trans h'.log
  rest := fun hs => h'.rest (h.rest hs)

/-- What the debugger does without the kernel. -/
theorem quiet (hstate : s'.state = s.state) (hchild : s'.child = s.child) (hworld : s'.world = s.world) :
    Calm s s' where
  state := hstate
  child := hchild
  log := by rw [hworld]
  rest := by
    intro hs
    unfold Debugger.AtRest
    rw [hworld, hchild]
    exact hs

theorem replaceByte (s : Debugger ω) (a : Addr) (b : Byte) : Calm s (Sdb.replaceByte H s a b).2 where
  state := rfl
  child := rfl
  log := by
    show _ <+: (World.poketext H (s.world.peektext H s.child a).2 s.child a _).log
    rw [World.poketext_log, World.peektext_log]
    exact (List.prefix_append ..).trans (List.prefix_append ..)
  rest := by
    intro hs
    show World.AtRest (World.poketext H (s.world.peektext H s.child a).2 s.child a _) s.child
    rw [World.peektext_atRest hs]
    exact World.poketext_atRest (hs.logged _) a _

theorem getregs {flag : Bool} {ret : Int} (h : Sdb.getregs H s flag = .ok (ret, s')) : Calm s s' := by
  rcases getregs_cases h with ⟨-, -, rfl⟩ | ⟨-, -, r, w, hregs, rfl⟩
  · exact quiet rfl rfl rfl
  · refine ⟨rfl, rfl, ?_, ?_⟩
    · show _ <+: w.log
      rw [show w = (s.world.getregs H s.child).2 by rw [hregs], World.getregs_log]
      exact List.prefix_append ..
    · intro hs
      rw [World.getregs_atRest hs] at hregs
      obtain ⟨-, rfl⟩ := Prod.mk.inj hregs
      exact hs.logged _

theorem setRip (s : Debugger ω) (v : Addr) : Calm s (Sdb.setRip H s v) where
  state := rfl
  child := rfl
  log := by
    show _ <+: (World.setregs H s.world s.child _).log
    rw [World.setregs_log]
    exact List.prefix_append ..
  rest := fun hs => World.setregs_atRest hs _

theorem disasm {str : String} {len : Nat} (h : Sdb.disasm H s str len = .ok s') : Calm s s' := by
  rw [disasm_frame h]
  exact quiet rfl rfl rfl

theorem classifyStop {ret : Int} (h : Sdb.classifyStop H s = .ok (ret, s')) : Calm s s' := by
  obtain ⟨r, s₁, hg, hcase⟩ := classifyStop_cases h
  have hcalm : Calm s s₁ := getregs hg
  rcases hcase with ⟨-, -, rfl⟩ | ⟨b, -, ⟨-, -, rfl⟩ | ⟨-, -, s₂, hs₂, rfl⟩⟩
  · exact hcalm
  · exact (hcalm.trans (setRip s₁ _)).trans (quiet rfl rfl rfl)
  · have hsaid := disasm hs₂
    have hshown : Calm s₁ s₂ := ⟨hsaid.state, hsaid.child, hsaid.log, hsaid.rest⟩
    have hnoted : Calm s₂ { s₂ with ripNow := s₁.regs .rip - 1 } := quiet rfl rfl rfl
    exact (hcalm.trans hshown).trans (hnoted.trans (setRip _ _))

theorem dumpRow (s : Debugger ω) (length cnt : Int) : Calm s (Sdb.dumpRow H length cnt s).1 where
  state := rfl
  child := rfl
  log := by
    show _ <+: (World.peektext H (s.world.peektext H s.child s.dumpaddr).2 s.child (s.dumpaddr + 8)).2.log
    rw [World.peektext_log, World.peektext_log]
    exact (List.prefix_append ..).trans (List.prefix_append ..)
  rest := by
    intro hs
    show World.AtRest (World.peektext H (s.world.peektext H s.child s.dumpaddr).2 s.child
      (s.dumpaddr + 8)).2 s.child
    rw [World.peektext_atRest hs, World.peektext_atRest (hs.logged _)]
    exact (hs.logged _).logged _

theorem dumpLoop (s : Debugger ω) (length : Int) (rows : Nat) (cnt : Int) :
    Calm s (Sdb.dumpLoop H length rows cnt s) := by
  induction rows generalizing s cnt with
  | zero => exact quiet rfl rfl rfl
  | succ rows ih =>
      rw [dumpLoop_succ]
      exact (dumpRow s length cnt).trans (ih _ _)

end Calm

/-- **A wait leaves the tracee at rest**, and the debugger RUNNING or, after an exit, LOADED. -/
theorem checkStop_atRest {ret : Int} (h : checkStop H s = .ok (ret, s')) :
    s'.AtRest ∧ s'.child = s.child ∧ (s'.state = s.state ∨ s'.state = .loaded) := by
  rcases checkStop_cases h with ⟨sig, w, hw, hstop⟩ | ⟨code, w, hw, -, rfl⟩ | ⟨sig, w, hw, -, rfl⟩
  · have hcalm := @Calm.classifyStop ω H { s with world := w } _ _ hstop
    exact ⟨hcalm.rest (World.waitpid_atRest hw), hcalm.child, Or.inl hcalm.state⟩
  · exact ⟨World.waitpid_atRest hw, rfl, Or.inr rfl⟩
  · exact ⟨World.waitpid_atRest hw, rfl, Or.inl rfl⟩

theorem resumeAndWait_atRest {how : Resume} (h : resumeAndWait H s how = .ok s') : s'.AtRest := by
  obtain ⟨ret, s₁, hc, ⟨-, rfl⟩ | ⟨-, r, s₂, hc', rfl⟩⟩ := resumeAndWait_cases h
  · exact (checkStop_atRest hc).1
  · exact (Calm.replaceByte s₂ _ _).rest (checkStop_atRest hc').1

theorem start_atRest (hstate : s.state ≠ .others) (h : start H s = .ok s') : s'.AtRest := by
  have hstarted := start_started hstate h
  intro p hp
  have hlaunched : launched H (execPath s.program) = some p := hstarted.tracee.symm.trans hp
  unfold launched at hlaunched
  obtain ⟨i, -, him⟩ := Option.bind_eq_some_iff.mp hlaunched
  obtain ⟨im, -, hproc⟩ := Option.map_eq_some_iff.mp him
  rw [← hproc]

/-! ## Sessions -/

/-- The invariant of prompts: a running program is at rest. -/
def Rested (s : Debugger ω) : Prop := s.state = .running → s.AtRest

theorem Calm.rested (h : Calm s s') (hs : Rested s) : Rested s' := by
  intro hrun
  exact h.rest (hs (h.state.symm.trans hrun))

theorem cont_atRest (h : cont H s = .ok s') : Rested s' := by
  intro hrun
  rcases cont_cases h with ⟨hidle, rfl⟩ | ⟨-, hcont⟩
  · exact absurd hrun hidle
  · exact resumeAndWait_atRest hcont

theorem si_atRest (h : si H s = .ok s') : Rested s' := by
  intro hrun
  rcases si_cases h with ⟨hidle, rfl⟩ | ⟨-, hsi⟩
  · exact absurd hrun hidle
  · exact resumeAndWait_atRest hsi

theorem Calm.notRunning (s : Debugger ω) : Calm s s.notRunning := quiet rfl rfl rfl

theorem Calm.del {sId : String} (h : del H s sId = .ok s') : Calm s s' := by
  rcases del_cases h with ⟨-, rfl⟩ | ⟨-, ⟨-, rfl⟩ | ⟨id, -, ⟨-, rfl⟩ | ⟨q, -, rfl⟩⟩⟩
  · exact Calm.notRunning s
  · exact quiet rfl rfl rfl
  · exact quiet rfl rfl rfl
  · have hrestored := @Calm.replaceByte ω H s q.addr q.ori
    exact ⟨hrestored.state, hrestored.child, hrestored.log, hrestored.rest⟩

theorem Calm.breakpoint {sAddr : String} (h : breakpoint H s sAddr = .ok s') : Calm s s' := by
  have hpatched := @Calm.replaceByte ω H s (addrOf sAddr) int3
  rcases breakpoint_cases h with ⟨-, rfl⟩ | ⟨-, ⟨-, rfl⟩ | ⟨-, rfl⟩⟩
  · exact Calm.notRunning s
  · exact hpatched
  · exact ⟨hpatched.state, hpatched.child, hpatched.log, hpatched.rest⟩

theorem Calm.getreg {reg : String} (h : getreg H s reg = .ok s') : Calm s s' := by
  obtain ⟨ret, s₁, hgot, rfl | ⟨-, o, rfl⟩⟩ := getreg_cases h
  · exact Calm.getregs hgot
  · exact (Calm.getregs hgot).trans (quiet rfl rfl rfl)

theorem Calm.vmmap (h : vmmap H s = .ok s') : Calm s s' := by
  rcases vmmap_cases h with ⟨-, rfl⟩ | ⟨-, rows, rfl⟩
  · exact Calm.notRunning s
  · exact quiet rfl rfl rfl

theorem Calm.dump {sAddr : String} (h : dump H s sAddr = .ok s') : Calm s s' := by
  rcases dump_cases h with ⟨-, rfl⟩ | ⟨-, a, length, rows, rfl⟩
  · exact Calm.notRunning s
  · exact (quiet rfl rfl rfl : Calm s { s with dumpaddr := a }).trans (Calm.dumpLoop ..)

theorem set_rested (hs : Rested s) {reg sVal : String} (h : set H s reg sVal = .ok s') : Rested s' := by
  rcases set_cases h with ⟨-, rfl⟩ | ⟨-, rfl | ⟨ret, s₁, hgot, rfl | ⟨-, r, -, rfl⟩⟩⟩
  · exact (Calm.notRunning s).rested hs
  · exact hs
  · exact (Calm.getregs hgot).rested hs
  · intro hrun
    exact World.setregs_atRest ((Calm.getregs hgot).rested hs hrun) _

theorem load_rested (hs : Rested s) {elfFile : String} (h : load H s elfFile = .ok s') : Rested s' := by
  rcases load_cases h with ⟨-, rfl⟩ | ⟨-, e, text, o, rfl⟩
  · exact Calm.rested (Calm.quiet rfl rfl rfl) hs
  · intro hrun
    cases hrun

theorem start_rested (hs : Rested s) (h : start H s = .ok s') : Rested s' := by
  by_cases hothers : s.state = .others
  · rw [show start H s = .ok (s.say (.line "** not in loaded state.")) from if_pos hothers] at h
    cases h
    exact Calm.rested (Calm.quiet rfl rfl rfl) hs
  · exact fun _ => start_atRest hothers h

theorem run_rested (hs : Rested s) (h : run H s = .ok s') : Rested s' := by
  rcases run_cases h with ⟨-, hcont⟩ | ⟨-, s₁, -, hcont⟩ | ⟨-, rfl⟩
  · exact cont_atRest hcont
  · exact cont_atRest hcont
  · exact Calm.rested (Calm.quiet rfl rfl rfl) hs

/-- **One command.** -/
theorem exec_rested (hs : Rested s) {cmd : Command} (hexec : exec H s cmd = .ok s') : Rested s' := by
  cases cmd with
  | load f => exact load_rested hs hexec
  | start => exact start_rested hs hexec
  | run => exact run_rested hs hexec
  | cont => exact cont_atRest hexec
  | si => exact si_atRest hexec
  | exit => cases hexec
  | help =>
      cases hexec
      exact Calm.rested (Calm.quiet rfl rfl rfl) hs
  | list =>
      cases hexec
      exact Calm.rested (Calm.quiet rfl rfl rfl) hs
  | ignored =>
      cases hexec
      exact hs
  | disasm a => exact (Calm.disasm hexec).rested hs
  | vmmap => exact (Calm.vmmap hexec).rested hs
  | delete sId => exact (Calm.del hexec).rested hs
  | «break» a => exact (Calm.breakpoint hexec).rested hs
  | get r => exact (Calm.getreg hexec).rested hs
  | set r v => exact set_rested hs hexec
  | dump a => exact (Calm.dump hexec).rested hs
  | getregs =>
      obtain ⟨ret, hgot⟩ := exec_getregs hexec
      exact (Calm.getregs hgot).rested hs

/-- An invariant of every command is one of every session. -/
theorem session_invariant {I : Debugger ω → Prop} (hstep : ∀ s c s', I s → exec H s c = .ok s' → I s')
    {cmds : List Command} (hs : I s) (h : execAll H s cmds = .ok s') : I s' := by
  induction cmds generalizing s with
  | nil =>
      cases h
      exact hs
  | cons c cmds ih =>
      cases hc : exec H s c with
      | error e =>
          simp only [execAll, List.foldlM_cons, hc] at h
          cases h
      | ok s₁ =>
          rw [execAll_cons hc] at h
          exact ih (hstep s c s₁ hs hc) h

/-- **At every prompt** of a running program, the tracee is at rest. -/
theorem session_atRest {cmds : List Command} (h : execAll H (Debugger.init : Debugger ω) cmds = .ok s)
    (hrun : s.state = .running) : s.AtRest := by
  have hinit : Rested (Debugger.init : Debugger ω) := fun h => by cases h
  exact session_invariant (fun s c s' hs hc => exec_rested hs hc) hinit h hrun

end AdvUnix.Sdb
