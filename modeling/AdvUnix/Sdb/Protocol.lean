import AdvUnix.Lib.EventLog
import AdvUnix.Sdb.Prompt
import AdvUnix.Sdb.Sample

/-!
# `Sdb.Protocol` — the requests of `cont` and `si`

A ptrace request is lawful in ptrace-stop: after a `waitpid` that has reported a stop and before the tracee is
resumed. The kernel's side logs every request with whether it was, so the requests of a command are read off
the log that it leaves (`resumeLog`), also when it ends the debugger. Both commands make lawful requests until
they take the resume path; there `cont` asks the tracee it has just resumed, and `si` asks one that may have
ended (`ptrace_protocol`).
-/

namespace AdvUnix.Sdb

open ByteStore Debugger EventLog

variable {ω : Type} {H : Host ω}
variable {s s' s'' : Debugger ω} {p q : Proc ω} {how : Resume}

/-! ## The log of a command -/

/-- Requests are made in ptrace-stop. -/
def Event.InStop : Event → Prop
  | .request _ inStop => inStop = true
  | _ => True

/-- The log when `classifyStop` is over: if the breakpoint cannot be shown, the registers have been read and
    nothing else has been asked. -/
def classifyLog (H : Host ω) (s : Debugger ω) : List Event :=
  match classifyStop H s with
  | .ok (_, s') => s'.world.log
  | .error _ => (s.world.getregs H s.child).2.log

/-- The log when `checkStop` is over. -/
def checkStopLog (H : Host ω) (s : Debugger ω) : List Event :=
  match s.world.waitpid H s.child with
  | .error | .blocked => s.world.log
  | .report (.stopped _) w => classifyLog H { s with world := w }
  | .report _ w => w.log

/-- The log when the second wait of the resume path, and the patch behind it, are over. -/
def rearmLog (H : Host ω) (s : Debugger ω) (addr : Addr) : List Event :=
  match checkStop H s with
  | .error _ => checkStopLog H s
  | .ok (_, s') => (replaceByte H s' addr int3).2.world.log

/-- **The log when `cont` or `si` is over**, be it with the next prompt or with the end of the debugger. -/
def resumeLog (H : Host ω) (s : Debugger ω) (how : Resume) : List Event :=
  if s.state ≠ .running then s.world.log
  else match checkStop H (resume s how) with
    | .error _ => checkStopLog H (resume s how)
    | .ok (ret, s₁) => if ret = 1 then rearmLog H (onPath H s₁ how) s₁.bpaddrNow else s₁.world.log

theorem checkStopLog_ok {ret : Int} (h : checkStop H s = .ok (ret, s')) : checkStopLog H s = s'.world.log := by
  unfold checkStopLog
  rcases checkStop_cases h with ⟨sig, w, hw, hstop⟩ | ⟨code, w, hw, -, rfl⟩ | ⟨sig, w, hw, -, rfl⟩
  · simp only [hw, classifyLog, hstop]
  · rw [hw]
  · rw [hw]

/-- At the next prompt it is the log of the world. -/
theorem resumeLog_ok (hrun : s.state = .running) (h : resumeAndWait H s how = .ok s') :
    resumeLog H s how = s'.world.log := by
  unfold resumeLog
  rw [if_neg (fun hne => hne hrun)]
  obtain ⟨ret, s₁, hc, ⟨hret, rfl⟩ | ⟨hret, r, s₂, hc', rfl⟩⟩ := resumeAndWait_cases h
  · simp only [hc, if_neg hret]
  · simp only [hc, if_pos hret, rearmLog, hc']

/-- After a stop that takes the resume path. -/
theorem resumeLog_path {s₁ : Debugger ω} (hrun : s.state = .running)
    (hc : checkStop H (resume s how) = .ok (1, s₁)) :
    resumeLog H s how = rearmLog H (onPath H s₁ how) s₁.bpaddrNow := by
  unfold resumeLog
  rw [if_neg (fun hne => hne hrun), hc]
  rfl

/-! ## What one request adds -/

theorem Debugger.Holds.inStop (hp : s.Holds p) : s.world.inStop s.child = true := by
  have ht : s.world.procs s.child = some p := hp.tracee
  simp only [World.inStop, ht, hp.stopped, decide_true]

/-- The log of one debugger state grows lawfully into that of another. -/
abbrev Asks (s s' : Debugger ω) : Prop := Lawful Event.InStop s.world.log s'.world.log

/-- `replaceByte` on a stopped tracee. -/
theorem replaceByte_asks (hp : s.Holds p) (a : Addr) (b : Byte) : Asks s (replaceByte H s a b).2 := by
  have hpeek := World.peektext_stopped (H := H) hp.tracee hp.stopped a
  have hp' : ({ s with world := s.world.logged (.request s.child true) } : Debugger ω).Holds p :=
    ⟨hp.tracee, hp.stopped⟩
  have hfirst : Lawful Event.InStop s.world.log (s.world.logged (.request s.child true)).log := Lawful.snoc rfl
  refine hfirst.trans ?_
  show Lawful _ _ (World.poketext H (s.world.peektext H s.child a).2 s.child a _).log
  rw [hpeek, World.poketext_log, hp'.inStop]
  exact Lawful.snoc rfl

/-- `replaceByte` on a tracee that runs or has ended. -/
theorem replaceByte_spoils (h : s.world.inStop s.child = false) (a : Addr) (b : Byte) :
    Spoiled Event.InStop s.world.log (replaceByte H s a b).2.world.log := by
  have hfirst : Spoiled Event.InStop s.world.log (s.world.peektext H s.child a).2.log := by
    rw [World.peektext_log, h]
    exact Spoiled.snoc Bool.false_ne_true
  refine hfirst.extend ?_
  show _ <+: (World.poketext H (s.world.peektext H s.child a).2 s.child a _).log
  rw [World.poketext_log]
  exact List.prefix_append ..

theorem resume_log (s : Debugger ω) (how : Resume) : (resume s how).world.log = s.world.log :=
  World.resume_log ..

/-! ## What a stop adds -/

/-- The register requests of `classifyStop`. -/
theorem classifyStop_asks (hrun : s.state = .running) (hp : s.Holds p) {ret : Int}
    (h : classifyStop H s = .ok (ret, s')) : Asks s s' := by
  have hgot : Lawful Event.InStop s.world.log (s.world.logged (.request s.child true)).log := Lawful.snoc rfl
  have hset : ∀ {t : Debugger ω} (v : Addr), t.world = s.world.logged (.request s.child true) →
      t.child = s.child → Asks s (setRip H t v) := by
    intro t v hworld hchild
    refine hgot.trans ?_
    have hlogged : ({ s with world := s.world.logged (.request s.child true) } : Debugger ω).Holds p :=
      ⟨hp.tracee, hp.stopped⟩
    show Lawful _ _ (World.setregs H t.world t.child _).log
    rw [World.setregs_log, hworld, hchild, hlogged.inStop]
    exact Lawful.snoc rfl
  obtain ⟨r, s₁, hg, hcase⟩ := classifyStop_cases h
  cases (getregs_holds hrun hp).symm.trans hg
  rcases hcase with ⟨-, -, rfl⟩ | ⟨b, -, ⟨-, -, rfl⟩ | ⟨-, -, s₂, hs₂, rfl⟩⟩
  · exact hgot
  · exact hset _ rfl rfl
  · have hsame := disasm_frame hs₂
    have hworld : s₂.world = s.world.logged (.request s.child true) := by rw [hsame]; rfl
    have hchild : s₂.child = s.child := by rw [hsame]; rfl
    exact hset _ hworld hchild

theorem classifyLog_lawful (hrun : s.state = .running) (hp : s.Holds p) :
    Lawful Event.InStop s.world.log (classifyLog H s) := by
  unfold classifyLog
  cases hc : classifyStop H s with
  | error e =>
      show Lawful _ _ (s.world.getregs H s.child).2.log
      rw [World.getregs_log, hp.inStop]
      exact Lawful.snoc rfl
  | ok x => exact classifyStop_asks hrun hp hc

/-! ## What a wait adds -/

/-- The process that has come to its report. -/
def Proc.came (p : Proc ω) (cpu : Cpu) (hidden : ω) : Proc ω := { p with cpu := cpu, hidden := hidden }

/-- A resumed tracee comes to a stop. -/
theorem checkStop_comes {cpu : Cpu} {hidden : ω} {sig : Nat} (ht : s.tracee = some p)
    (hp : p.phase = .resumed how) (hcomes : H.run how p.cpu p.hidden = some (.stopped sig, cpu, hidden)) :
    checkStop H s = classifyStop H (collected s (p.came cpu hidden) (.stopped sig)) ∧
      checkStopLog H s = classifyLog H (collected s (p.came cpu hidden) (.stopped sig)) ∧
      Asks s (collected s (p.came cpu hidden) (.stopped sig)) ∧
      (collected s (p.came cpu hidden) (.stopped sig)).Holds { p.came cpu hidden with phase := .stopped } := by
  have hdue : Due H s (.stopped sig) (p.came cpu hidden) := due_resumed ht hp hcomes
  refine ⟨checkStop_stopped hdue, ?_, ?_, ?_⟩
  · obtain ⟨p₀, -, hw⟩ := hdue
    simp only [checkStopLog, hw]
    rfl
  · show Lawful _ _ (World.collect s.world s.child (p.came cpu hidden) (.stopped sig)).log
    rw [World.collect_log]
    exact Lawful.snoc trivial
  · exact (collected_moved s _ _).holds rfl

/-- A resumed tracee comes to its end. -/
theorem checkStop_ends {cpu : Cpu} {hidden : ω} {st : WaitStatus} (ht : s.tracee = some p)
    (hp : p.phase = .resumed how) (hcomes : H.run how p.cpu p.hidden = some (st, cpu, hidden))
    (hend : ∀ sig, st ≠ .stopped sig) :
    ∃ s', checkStop H s = .ok (-1, s') ∧ Asks s s' ∧ s'.child = s.child ∧ s'.tracee = none := by
  have hdue : Due H s st (p.came cpu hidden) := due_resumed ht hp hcomes
  have hasks : Asks s (collected s (p.came cpu hidden) st) := by
    show Lawful _ _ (World.collect s.world s.child (p.came cpu hidden) st).log
    rw [World.collect_log]
    exact Lawful.snoc trivial
  have hgone : left st (p.came cpu hidden) = none → (collected s (p.came cpu hidden) st).tracee = none := by
    intro hleft
    rw [(collected_moved s _ _).tracee, hleft]
  cases st with
  | stopped sig => exact absurd rfl (hend sig)
  | exited code => exact ⟨_, checkStop_exited hdue, hasks, rfl, hgone rfl⟩
  | signaled sig => exact ⟨_, checkStop_signaled hdue, hasks, rfl, hgone rfl⟩

/-- A resumed tracee runs for ever. -/
theorem checkStop_never (ht : s.tracee = some p) (hp : p.phase = .resumed how)
    (hnever : H.run how p.cpu p.hidden = none) :
    checkStop H s = .error .blocked ∧ checkStopLog H s = s.world.log := by
  have ht' : s.world.procs s.child = some p := ht
  have hw : s.world.waitpid H s.child = .blocked := by simp only [World.waitpid, ht', hp, hnever]
  unfold checkStop checkStopLog
  rw [hw]
  exact ⟨rfl, rfl⟩

/-- **A wait for a resumed tracee** makes lawful requests. -/
theorem checkStopLog_lawful (hrun : s.state = .running) (ht : s.tracee = some p)
    (hp : p.phase = .resumed how) : Lawful Event.InStop s.world.log (checkStopLog H s) := by
  cases hcomes : H.run how p.cpu p.hidden with
  | none =>
      rw [(checkStop_never ht hp hcomes).2]
      exact Lawful.refl _
  | some r =>
      obtain ⟨st, cpu, hidden⟩ := r
      by_cases hend : ∀ sig, st ≠ .stopped sig
      · obtain ⟨s', hs', hasks, -⟩ := checkStop_ends ht hp hcomes hend
        rw [checkStopLog_ok hs']
        exact hasks
      · obtain ⟨sig, hsig⟩ := not_forall.mp hend
        obtain rfl := not_not.mp hsig
        obtain ⟨-, hlog, hasks, hheld⟩ := checkStop_comes ht hp hcomes
        rw [hlog]
        exact hasks.trans (classifyLog_lawful hrun hheld)

/-! ## The resume path -/

/-- The tracee on the resume path: rewound to the breakpoint, with a byte written back. -/
def liftedCpu (writable : Addr → Bool) (cpu : Cpu) (addr : Addr) (ori : Byte) : Cpu :=
  ⟨rewound cpu.regs, replaced writable cpu.mem addr ori⟩

/-- The tracee of `onPath`, for `si`. -/
theorem onPath_step (hp : s.Holds p) :
    Asks s (onPath H s .step) ∧ ∃ q, (onPath H s .step).tracee = some q ∧ q.phase = .resumed .step ∧
      q.hidden = p.hidden ∧ q.cpu = ⟨p.cpu.regs, replaced (H.writable p.hidden) p.cpu.mem s.bpaddrNow s.restore⟩ := by
  have hmoved := replaceByte_moved (H := H) hp s.bpaddrNow s.restore
  constructor
  · refine (replaceByte_asks (H := H) hp s.bpaddrNow s.restore).trans ?_
    show Lawful _ _ (resume (replaceByte H s s.bpaddrNow s.restore).2 .step).world.log
    rw [resume_log]
    exact Lawful.refl _
  · exact ⟨_, (resume_moved (hmoved.holds hp.stopped) .step).tracee, rfl, rfl, rfl⟩

/-- **`cont` asks a tracee that it has just resumed.** -/
theorem onPath_cont (hp : s.Holds p) :
    Spoiled Event.InStop s.world.log (onPath H s .cont).world.log := by
  have hmoved := replaceByte_moved (H := H) hp s.bpaddrNow s.restore
  have hresumed := resume_moved (hmoved.holds hp.stopped) .cont
  -- it runs by now, so the requests of the write behind it find it outside ptrace-stop
  have hruns : (resume (replaceByte H s s.bpaddrNow s.restore).2 .cont).world.inStop s.child = false := by
    have ht : (resume (replaceByte H s s.bpaddrNow s.restore).2 .cont).world.procs s.child = _ := hresumed.tracee
    unfold World.inStop
    rw [ht]
    rfl
  have hfirst : s.world.log <+: (resume (replaceByte H s s.bpaddrNow s.restore).2 .cont).world.log := by
    rw [resume_log]
    exact (replaceByte_asks hp s.bpaddrNow s.restore).isPrefix
  exact Spoiled.after hfirst (replaceByte_spoils hruns s.bpaddrNow int3)

/-- What a wait adds to the log stands behind what was there. -/
theorem checkStopLog_extends (H : Host ω) (s : Debugger ω) : s.world.log <+: checkStopLog H s := by
  unfold checkStopLog
  cases hw : s.world.waitpid H s.child with
  | error => exact List.prefix_rfl
  | blocked => exact List.prefix_rfl
  | report st w =>
      have hcollected : s.world.log <+: w.log := by
        rw [World.waitpid_log hw]
        exact List.prefix_append ..
      cases st with
      | stopped sig =>
          refine hcollected.trans ?_
          show w.log <+: classifyLog H { s with world := w }
          unfold classifyLog
          cases hc : classifyStop H { s with world := w } with
          | error e =>
              show _ <+: (w.getregs H s.child).2.log
              rw [World.getregs_log]
              exact List.prefix_append ..
          | ok x => exact (Calm.classifyStop hc).log
      | exited code => exact hcollected
      | signaled sig => exact hcollected

theorem rearmLog_extends (H : Host ω) (s : Debugger ω) (addr : Addr) : s.world.log <+: rearmLog H s addr := by
  have hwait := checkStopLog_extends H s
  unfold rearmLog
  cases hc : checkStop H s with
  | error e => exact hwait
  | ok y =>
      rw [checkStopLog_ok hc] at hwait
      exact hwait.trans (Calm.replaceByte y.2 _ _).log

theorem onPath_extends (H : Host ω) (s : Debugger ω) (how : Resume) :
    s.world.log <+: (onPath H s how).world.log := by
  have hlifted : s.world.log <+: (resume (replaceByte H s s.bpaddrNow s.restore).2 how).world.log := by
    rw [resume_log]
    exact (Calm.replaceByte s _ _).log
  cases how with
  | cont => exact hlifted.trans (Calm.replaceByte _ _ _).log
  | step => exact hlifted

/-- **A command** only adds to the log. -/
theorem resumeLog_extends (H : Host ω) (s : Debugger ω) (how : Resume) : s.world.log <+: resumeLog H s how := by
  have hwait := checkStopLog_extends H (resume s how)
  rw [resume_log] at hwait
  unfold resumeLog
  split
  · exact List.prefix_rfl
  · cases hc : checkStop H (resume s how) with
    | error e => exact hwait
    | ok x =>
        rw [checkStopLog_ok hc] at hwait
        simp only
        split
        · exact (hwait.trans (onPath_extends H _ how)).trans (rearmLog_extends H _ _)
        · exact hwait

/-! ## The protocol -/

/-- The requests of `cont` or `si` are made in ptrace-stop, whether the command comes to its prompt or not. -/
def Obeys (H : Host ω) (s : Debugger ω) (how : Resume) : Prop :=
  Lawful Event.InStop s.world.log (resumeLog H s how)

/-- **The tracee comes back** to the breakpoint in `rip_now`: its next report is a stop, as `cpu`, one byte
    past the breakpoint `b`. -/
structure ComesBack (H : Host ω) (s : Debugger ω) (how : Resume) (b : Breakpoint) (cpu : Cpu) (hidden : ω) :
    Prop where
  stops : ∃ p sig, s.tracee = some p ∧ H.run how p.cpu p.hidden = some (.stopped sig, cpu, hidden)
  hit : hit s.points cpu.regs = some b
  now : s.ripNow = b.addr

/-- **What the protocol needs**: if the tracee comes back to the breakpoint in `rip_now`, the command is `si`,
    and the instruction under the breakpoint is not the tracee's last. -/
def Permitted (H : Host ω) (s : Debugger ω) (how : Resume) : Prop :=
  s.state = .running → ∀ b cpu hidden, ComesBack H s how b cpu hidden →
    how = .step ∧ ∀ st cpu' hidden',
      H.run .step (liftedCpu (H.writable hidden) cpu s.bpaddrNow b.ori) hidden = some (st, cpu', hidden') →
        ∃ sig, st = .stopped sig

/-- Only there is the first stop answered by the resume path. -/
theorem comesBack_of_again (hrun : s.state = .running) (hp : s.Holds p) {s₁ : Debugger ω}
    (hc : checkStop H (resume s how) = .ok (1, s₁)) : ∃ b cpu hidden, ComesBack H s how b cpu hidden := by
  have hresumed := (resume_moved hp how).tracee
  cases hcomes : H.run how p.cpu p.hidden with
  | none => cases (checkStop_never hresumed rfl hcomes).1.symm.trans hc
  | some r =>
      obtain ⟨st, cpu, hidden⟩ := r
      by_cases hend : ∀ sig, st ≠ .stopped sig
      · obtain ⟨s', hs', -⟩ := checkStop_ends hresumed rfl hcomes hend
        cases hs'.symm.trans hc
      · obtain ⟨sig, hsig⟩ := not_forall.mp hend
        obtain rfl := not_not.mp hsig
        obtain ⟨hclassify, -, -, hheld⟩ := checkStop_comes hresumed rfl hcomes
        have hv := classifyStop_verdict (H := H) (by exact hrun) hheld
        rw [← hclassify, hc] at hv
        cases hv with
        | again b hhit hnow => exact ⟨b, cpu, hidden, ⟨p, sig, hp.tracee, hcomes⟩, hhit, hnow⟩

/-- The resume path is not taken where the tracee does not come back. -/
theorem resumeLog_plain (hrun : s.state = .running) (hp : s.Holds p)
    (hno : ∀ b cpu hidden, ¬ ComesBack H s how b cpu hidden) : Obeys H s how := by
  have hresumed := (resume_moved hp how).tracee
  have hwaits : Lawful Event.InStop s.world.log (checkStopLog H (resume s how)) := by
    rw [← resume_log s how]
    exact checkStopLog_lawful hrun hresumed rfl
  unfold Obeys resumeLog
  rw [if_neg (fun hne => hne hrun)]
  cases hc : checkStop H (resume s how) with
  | error e => exact hwaits
  | ok x =>
      obtain ⟨ret, s₁⟩ := x
      rw [checkStopLog_ok hc] at hwaits
      by_cases hret : ret = 1
      · subst hret
        obtain ⟨b, cpu, hidden, hback⟩ := comesBack_of_again hrun hp hc
        exact absurd hback (hno b cpu hidden)
      · simp only [if_neg hret]
        exact hwaits

/-- What the debugger has on its way onto the resume path. -/
structure OnWay (s s₁ : Debugger ω) (ori : Byte) : Prop where
  running : s₁.state = .running
  program : s₁.program = s.program
  text : s₁.text = s.text
  points : s₁.points = s.points
  code : s₁.code = s.code
  ripNow : s₁.ripNow = s.ripNow
  bpaddrNow : s₁.bpaddrNow = s.bpaddrNow
  restore : s₁.restore = ori

/-- Where the tracee comes back, the first stop leads onto the resume path. -/
theorem ComesBack.path {b : Breakpoint} {cpu : Cpu} {hidden : ω} (h : ComesBack H s how b cpu hidden)
    (hrun : s.state = .running) (hs : s.AtRest) :
    ∃ p s₁ q, s.Holds p ∧ checkStop H (resume s how) = .ok (1, s₁) ∧ OnWay s s₁ b.ori ∧ s₁.Holds q ∧
      q.hidden = hidden ∧ q.cpu = ⟨rewound cpu.regs, cpu.mem⟩ := by
  obtain ⟨p, sig, ht, hcomes⟩ := h.stops
  have hp : s.Holds p := hs.held ht
  have hresumed := (resume_moved hp how).tracee
  obtain ⟨hclassify, -, -, hheld⟩ := checkStop_comes hresumed rfl hcomes
  obtain ⟨s₁, hs₁, hv⟩ := classifyStop_again (H := H) (by exact hrun) hheld h.hit h.now
  cases hv with
  | again b' hhit hnow hran hstate hrip hbp hout hcode hrestore =>
      obtain rfl : b = b' := Option.some.inj (h.hit.symm.trans hhit)
      have hway : OnWay s s₁ b.ori :=
        { running := hstate.trans hrun
          program := hran.program
          text := hran.text
          points := hran.points
          code := hcode
          ripNow := hrip
          bpaddrNow := hbp
          restore := hrestore }
      exact ⟨p, s₁, _, hp, hclassify.trans hs₁, hway, hran.holds rfl, rfl, rfl⟩

/-- Once the tracee has been killed, the debugger ends at its `waitpid`. -/
theorem checkStop_gone (ht : s.tracee = none) (how : Resume) :
    checkStop H (resume s how) = .error (.quit "** wait error.") ∧
      checkStopLog H (resume s how) = s.world.log := by
  have hprocs : (resume s how).world.procs s.child = none := by
    have ht' : s.world.procs s.child = none := ht
    show (s.world.resume s.child how).procs s.child = none
    unfold World.resume
    rw [ht']
    exact ht'
  have hw : (resume s how).world.waitpid H (resume s how).child = .error := by
    unfold World.waitpid
    rw [show (resume s how).child = s.child from rfl, hprocs]
  unfold checkStop checkStopLog
  rw [hw]
  exact ⟨rfl, resume_log s how⟩

theorem obeys_gone (hrun : s.state = .running) (ht : s.tracee = none) : Obeys H s how := by
  obtain ⟨hc, hlog⟩ := checkStop_gone (H := H) ht how
  unfold Obeys resumeLog
  rw [if_neg (fun hne => hne hrun), hc]
  show Lawful _ _ (checkStopLog H (resume s how))
  rw [hlog]
  exact Lawful.refl _

/-- **`cont` at the breakpoint it comes back to** breaks the protocol. -/
theorem cont_disobeys {b : Breakpoint} {cpu : Cpu} {hidden : ω} (h : ComesBack H s .cont b cpu hidden)
    (hrun : s.state = .running) (hs : s.AtRest) : ¬ Obeys H s .cont := by
  obtain ⟨p, s₁, q, hp, hc, -, hq, -⟩ := h.path hrun hs
  have hfirst : s.world.log <+: s₁.world.log := by
    rw [← checkStopLog_ok hc, ← resume_log s .cont]
    exact checkStopLog_extends H _
  have hlast := rearmLog_extends H (onPath H s₁ .cont) s₁.bpaddrNow
  unfold Obeys
  rw [resumeLog_path hrun hc]
  exact ((Spoiled.after hfirst (onPath_cont hq)).extend hlast).not_lawful

/-- **A wait for a resumed tracee, and a patch behind it**, are lawful unless the tracee ends. -/
theorem rearmLog_iff (hrun : s.state = .running) (ht : s.tracee = some p) (hp : p.phase = .resumed how)
    (addr : Addr) : Lawful Event.InStop s.world.log (rearmLog H s addr) ↔
      ∀ st cpu hidden, H.run how p.cpu p.hidden = some (st, cpu, hidden) → ∃ sig, st = .stopped sig := by
  have hwait := checkStopLog_lawful (H := H) hrun ht hp
  unfold rearmLog
  cases hcomes : H.run how p.cpu p.hidden with
  | none =>
      rw [(checkStop_never ht hp hcomes).1]
      constructor
      · intro _ st cpu hidden hnone
        cases hnone
      · intro _
        exact hwait
  | some r =>
      obtain ⟨st, cpu, hidden⟩ := r
      by_cases hend : ∀ sig, st ≠ .stopped sig
      · -- the tracee has ended, and is asked all the same
        obtain ⟨s₂, hs₂, hasks, -, hgone⟩ := checkStop_ends ht hp hcomes hend
        have hout : s₂.world.inStop s₂.child = false := by
          have hnone : s₂.world.procs s₂.child = none := hgone
          simp only [World.inStop, hnone]
        rw [hs₂]
        constructor
        · intro hlawful
          exact absurd hlawful (Spoiled.after hasks.isPrefix (replaceByte_spoils hout addr int3)).not_lawful
        · intro hstops
          obtain ⟨sig, hsig⟩ := hstops st cpu hidden rfl
          exact absurd hsig (hend sig)
      · obtain ⟨sig, hsig⟩ := not_forall.mp hend
        obtain rfl := not_not.mp hsig
        obtain ⟨hclassify, -, -, hheld⟩ := checkStop_comes ht hp hcomes
        constructor
        · intro _ st cpu hidden heq
          cases heq
          exact ⟨sig, rfl⟩
        · intro _
          cases hc : checkStop H s with
          | error e => exact hwait
          | ok y =>
              obtain ⟨ret, s₂⟩ := y
              have hkept := classifyStop_tends (H := H) (by exact hrun) hheld (hclassify.symm.trans hc)
              obtain ⟨q, hq⟩ := hkept.holds ⟨_, hheld⟩
              rw [checkStopLog_ok hc] at hwait
              exact hwait.trans (replaceByte_asks hq addr int3)

/-- **`si` at the breakpoint it comes back to** keeps the protocol while the tracee does not end. -/
theorem si_obeys_iff {b : Breakpoint} {cpu : Cpu} {hidden : ω} (h : ComesBack H s .step b cpu hidden)
    (hrun : s.state = .running) (hs : s.AtRest) :
    Obeys H s .step ↔ ∀ st cpu' hidden',
      H.run .step (liftedCpu (H.writable hidden) cpu s.bpaddrNow b.ori) hidden = some (st, cpu', hidden') →
        ∃ sig, st = .stopped sig := by
  obtain ⟨p, s₁, q, hp, hc, hway, hq, hhidden, hcpu⟩ := h.path hrun hs
  obtain ⟨hasks, q₁, ht, hphase, hhidden₁, hcpu₁⟩ := onPath_step (H := H) hq
  have hresumed := (resume_moved hp .step).tracee
  have hfirst : Lawful Event.InStop s.world.log s₁.world.log := by
    rw [← checkStopLog_ok hc, ← resume_log s .step]
    exact checkStopLog_lawful hrun hresumed rfl
  have hlifted : q₁.cpu = liftedCpu (H.writable hidden) cpu s.bpaddrNow b.ori := by
    rw [hcpu₁, hcpu, hhidden, hway.bpaddrNow, hway.restore]
    rfl
  have hrunPath : (onPath H s₁ .step).state = .running := hway.running
  have hsecond := rearmLog_iff (H := H) hrunPath ht hphase s₁.bpaddrNow
  rw [hlifted, hhidden₁, hhidden] at hsecond
  have hbefore := hfirst.trans hasks
  unfold Obeys
  rw [resumeLog_path hrun hc, ← hsecond,
    Lawful.split hbefore.isPrefix (rearmLog_extends H _ _)]
  constructor
  · rintro ⟨-, hrest⟩
    exact hrest
  · intro hrest
    exact ⟨hbefore, hrest⟩

/-- **One command.** -/
theorem obeys_iff (hs : Rested s) : Obeys H s how ↔ Permitted H s how := by
  by_cases hrun : s.state = .running
  · have hrest := hs hrun
    by_cases hback : ∃ b cpu hidden, ComesBack H s how b cpu hidden
    · obtain ⟨b, cpu, hidden, hcomes⟩ := hback
      -- `cont` asks the running tracee on its way back, `si` waits for it first
      cases how with
      | cont =>
          constructor
          · intro hobeys
            exact absurd hobeys (cont_disobeys hcomes hrun hrest)
          · intro hpermitted
            cases (hpermitted hrun b cpu hidden hcomes).1
      | step =>
          constructor
          · intro hobeys _ b' cpu' hidden' hcomes'
            exact ⟨rfl, (si_obeys_iff hcomes' hrun hrest).mp hobeys⟩
          · intro hpermitted
            exact (si_obeys_iff hcomes hrun hrest).mpr (hpermitted hrun b cpu hidden hcomes).2
    · constructor
      · intro _ _ b cpu hidden hcomes
        exact absurd ⟨b, cpu, hidden, hcomes⟩ hback
      · intro _
        cases ht : s.tracee with
        | none => exact obeys_gone hrun ht
        | some p =>
            refine resumeLog_plain hrun (hrest.held ht) ?_
            intro b cpu hidden hcomes
            exact hback ⟨b, cpu, hidden, hcomes⟩
  · constructor
    · intro _ hrun'
      exact absurd hrun' hrun
    · intro _
      unfold Obeys resumeLog
      rw [if_pos hrun]
      exact Lawful.refl _

/-! ## Runs -/

/-- `cont` and `si`. -/
def Resume.command : Resume → Command
  | .cont => .cont
  | .step => .si

/-- The log when a run of `cont` and `si` is over. -/
def runLog (H : Host ω) : Debugger ω → List Resume → List Event
  | s, [] => s.world.log
  | s, how :: hows =>
      match exec H s how.command with
      | .ok s' => runLog H s' hows
      | .error _ => resumeLog H s how

/-- Each command of a run is permitted where it is given. -/
def PermittedAlong (H : Host ω) : Debugger ω → List Resume → Prop
  | _, [] => True
  | s, how :: hows => Permitted H s how ∧ ∀ s', exec H s how.command = .ok s' → PermittedAlong H s' hows

theorem resumeLog_exec (h : exec H s how.command = .ok s') : resumeLog H s how = s'.world.log := by
  by_cases hrun : s.state = .running
  · refine resumeLog_ok hrun ?_
    cases how with
    | cont => exact (cont_eq hrun).symm.trans h
    | step => exact (si_eq hrun).symm.trans h
  · have hidle : exec H s how.command = .ok s.notRunning := by
      cases how with
      | cont => exact if_pos hrun
      | step => exact if_pos hrun
    cases hidle.symm.trans h
    unfold resumeLog
    rw [if_pos hrun]
    rfl

theorem runLog_extends (H : Host ω) (s : Debugger ω) (hows : List Resume) : s.world.log <+: runLog H s hows := by
  induction hows generalizing s with
  | nil => exact List.prefix_rfl
  | cons how hows ih =>
      have hone := resumeLog_extends H s how
      unfold runLog
      cases hc : exec H s how.command with
      | error e => exact hone
      | ok s' =>
          rw [resumeLog_exec hc] at hone
          exact hone.trans (ih s')

/-- **The requests of a run** are made in ptrace-stop exactly if each of its commands is permitted. -/
theorem runLog_lawful_iff (hs : Rested s) (hows : List Resume) :
    Lawful Event.InStop s.world.log (runLog H s hows) ↔ PermittedAlong H s hows := by
  induction hows generalizing s with
  | nil => exact ⟨fun _ => trivial, fun _ => Lawful.refl _⟩
  | cons how hows ih =>
      have hone : Obeys H s how ↔ Permitted H s how := obeys_iff hs
      unfold Obeys at hone
      unfold runLog PermittedAlong
      cases hc : exec H s how.command with
      | error e =>
          rw [hone]
          constructor
          · intro hpermitted
            exact ⟨hpermitted, fun s' hs' => by cases hs'⟩
          · rintro ⟨hpermitted, -⟩
            exact hpermitted
      | ok s' =>
          have hgrows := resumeLog_extends H s how
          rw [resumeLog_exec hc] at hone hgrows
          have hrested : Rested s' := exec_rested hs hc
          rw [Lawful.split hgrows (runLog_extends H s' hows), hone, ih hrested]
          constructor
          · rintro ⟨hpermitted, hrest⟩
            refine ⟨hpermitted, ?_⟩
            rintro s'' ⟨⟩
            exact hrest
          · rintro ⟨hpermitted, hrest⟩
            exact ⟨hpermitted, hrest s' rfl⟩

/-- **The protocol**, on every run of `cont` and `si` from a prompt of a running program. -/
theorem ptrace_protocol {cmds : List Command} (h : execAll H (Debugger.init : Debugger ω) cmds = .ok s)
    (hrun : s.state = .running) (hows : List Resume) :
    Lawful Event.InStop s.world.log (runLog H s hows) ↔ PermittedAlong H s hows :=
  runLog_lawful_iff (fun _ => session_atRest h hrun) hows

/-- A session up to a breakpoint. -/
def stoppedSession : List Command := [.load "./a", .start, .break "400001", .cont]

/-- The report behind the second step of `si`, where the tracee comes back. -/
def secondReport (s : Debugger (List Bool)) : Option WaitStatus :=
  s.tracee.bind fun p => ((sampleHost nopText 9).run .step p.cpu p.hidden).bind fun r =>
    (hit s.points r.2.1.regs).bind fun b =>
      ((sampleHost nopText 9).run .step (liftedCpu everywhere r.2.1 s.bpaddrNow b.ori) r.2.2).map fun r' => r'.1

/-- `si` at the breakpoint steps over the two-byte `nop` there. -/
theorem ptrace_protocol_nop : ∃ s, execAll (sampleHost nopText 9) Debugger.init stoppedSession = .ok s ∧
    Lawful Event.InStop s.world.log (runLog (sampleHost nopText 9) s [.step]) := by
  have hlook : (execAll (sampleHost nopText 9) Debugger.init stoppedSession).map
      (fun s => (s.state, secondReport s)) = .ok (.running, some (.stopped 5)) := by decide
  obtain ⟨s, hs, hseen⟩ := ok_of_seen hlook
  obtain ⟨hrun, hsecond⟩ := Prod.mk.inj hseen
  have hall : ∀ w, (sampleHost nopText 9).writable w = everywhere := fun _ => rfl
  refine ⟨s, hs, (ptrace_protocol hs hrun [.step]).mpr ⟨?_, fun _ _ => trivial⟩⟩
  intro _ b cpu hidden hcomes
  refine ⟨rfl, ?_⟩
  intro st cpu' hidden' hnext
  obtain ⟨p, sig, ht, hfirst⟩ := hcomes.stops
  rw [hall] at hnext
  rw [secondReport, ht, Option.bind_some, hfirst, Option.bind_some, hcomes.hit, Option.bind_some, hnext] at hsecond
  exact ⟨5, Option.some.inj hsecond⟩

/-- Whether a request in a log was made out of ptrace-stop. -/
def outOfStop (log : List Event) : Bool :=
  log.any fun ev => match ev with
    | .request _ inStop => !inStop
    | _ => false

/-- `cont` at the breakpoint asks for the memory of the tracee it has just resumed. -/
theorem cont_asks_running : ¬ ∀ (s : Debugger (List Bool)) (cmds : List Command) (hows : List Resume),
    execAll (sampleHost nopText 9) Debugger.init cmds = .ok s → s.state = .running →
      Lawful Event.InStop s.world.log (runLog (sampleHost nopText 9) s hows) := by
  intro h
  have hlook : (execAll (sampleHost nopText 9) Debugger.init stoppedSession).map (fun s =>
      (s.state, outOfStop ((runLog (sampleHost nopText 9) s [.cont]).drop s.world.log.length)))
        = .ok (.running, true) := by decide
  obtain ⟨s, hs, hseen⟩ := ok_of_seen hlook
  obtain ⟨hrun, hout⟩ := Prod.mk.inj hseen
  obtain ⟨evs, heq, hevs⟩ := h s stoppedSession [.cont] hs hrun
  rw [heq, List.drop_left] at hout
  obtain ⟨ev, hev, hbad⟩ := List.any_eq_true.mp hout
  have hok := hevs ev hev
  cases ev with
  | request pid inStop =>
      rw [show inStop = true from hok] at hbad
      cases hbad
  | wait pid st => cases hbad
  | kill pid there => cases hbad

end AdvUnix.Sdb
