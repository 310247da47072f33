import AdvUnix.Sdb.BreakTable

/-!
# `Sdb.Stops` — what `check_stop` makes of a report

One lemma for each function, so that no later proof unfolds one:

* `Due` — the report that `waitpid` comes to next, and the lemmas `checkStop_stopped`, `checkStop_exited` and
  `checkStop_signaled` on what is made of it;
* `Verdict` — the three outcomes of `classifyStop` on a stopped tracee.
-/

namespace AdvUnix.Sdb

open StepMachine Debugger

variable {ω : Type} {H : Host ω} {s s' s'' : Debugger ω} {p q : Proc ω}

/-! ## Frames -/

/-- **What a command that runs the tracee leaves alone**: the program, the child and the table. The
    child's table entry becomes `q`. -/
structure Ran (s s' : Debugger ω) (q : Option (Proc ω)) : Prop where
  program : s'.program = s.program
  child : s'.child = s.child
  text : s'.text = s.text
  points : s'.points = s.points
  bpid : s'.bpid = s.bpid
  procs : s'.world.procs = Function.update s.world.procs s.child q
  nextPid : s'.world.nextPid = s.world.nextPid

theorem Ran.of_moved {q : Option (Proc ω)} (h : Moved s s' q) : Ran s s' q := by
  have hsame := h.same
  refine ⟨?_, ?_, ?_, ?_, ?_, h.procs, h.nextPid⟩ <;> rw [hsame]

theorem Ran.trans {q r : Option (Proc ω)} (h : Ran s s' q) (h' : Ran s' s'' r) : Ran s s'' r where
  program := h'.program.trans h.program
  child := h'.child.trans h.child
  text := h'.text.trans h.text
  points := h'.points.trans h.points
  bpid := h'.bpid.trans h.bpid
  procs := by rw [h'.procs, h.procs, h.child, Function.update_idem]
  nextPid := h'.nextPid.trans h.nextPid

theorem Ran.tracee {q : Option (Proc ω)} (h : Ran s s' q) : s'.tracee = q := by
  unfold Debugger.tracee
  rw [h.procs, h.child]
  exact Function.update_self ..

theorem Ran.holds (h : Ran s s' (some q)) (hq : q.phase = .stopped) : s'.Holds q := ⟨h.tracee, hq⟩

/-! ## The report that is due -/

/-- What is left of a process once its report has been collected. -/
def left (st : WaitStatus) (p : Proc ω) : Option (Proc ω) :=
  match st with
  | .stopped _ => some { p with phase := .stopped }
  | _ => none

theorem World.collect_procs (w : World ω) (pid : Pid) (p : Proc ω) (st : WaitStatus) :
    (w.collect pid p st).procs = Function.update w.procs pid (left st p) := by
  cases st <;> rfl

theorem World.collect_nextPid (w : World ω) (pid : Pid) (p : Proc ω) (st : WaitStatus) :
    (w.collect pid p st).nextPid = w.nextPid := by
  cases st <;> rfl

/-- **`waitpid` comes to the report `st`**, with the tracee as `p`. -/
def Due (H : Host ω) (s : Debugger ω) (st : WaitStatus) (p : Proc ω) : Prop :=
  ∃ p₀, s.tracee = some p₀ ∧
    s.world.waitpid H s.child = .report st (s.world.collect s.child p st)

theorem due_resumed {how : Resume} {st : WaitStatus} {cpu : Cpu} {hidden : ω}
    (ht : s.tracee = some p) (hp : p.phase = .resumed how)
    (hrun : H.run how p.cpu p.hidden = some (st, cpu, hidden)) :
    Due H s st { p with cpu := cpu, hidden := hidden } := by
  refine ⟨p, ht, ?_⟩
  have ht' : s.world.procs s.child = some p := ht
  simp only [World.waitpid, ht', hp, hrun]

theorem due_arrived {st : WaitStatus} (ht : s.tracee = some p) (hp : p.phase = .arrived st) :
    Due H s st p := by
  refine ⟨p, ht, ?_⟩
  have ht' : s.world.procs s.child = some p := ht
  simp only [World.waitpid, ht', hp]

/-- The state with the report collected. -/
def collected (s : Debugger ω) (p : Proc ω) (st : WaitStatus) : Debugger ω :=
  { s with world := s.world.collect s.child p st }

theorem collected_moved (s : Debugger ω) (p : Proc ω) (st : WaitStatus) :
    Moved s (collected s p st) (left st p) :=
  ⟨rfl, World.collect_procs .., World.collect_nextPid ..⟩

theorem checkStop_stopped {sig : Nat} (h : Due H s (.stopped sig) p) :
    checkStop H s = classifyStop H (collected s p (.stopped sig)) := by
  obtain ⟨p₀, -, hw⟩ := h
  simp only [checkStop, hw]
  rfl

theorem checkStop_exited {code : Nat} (h : Due H s (.exited code) p) :
    checkStop H s = .ok (-1, { (collected s p (.exited code)).say (.terminated s.child (256 * code))
      with state := .loaded }) := by
  obtain ⟨p₀, -, hw⟩ := h
  simp only [checkStop, hw]
  rfl

theorem checkStop_signaled {sig : Nat} (h : Due H s (.signaled sig) p) :
    checkStop H s = .ok (-1, collected s p (.signaled sig)) := by
  obtain ⟨p₀, -, hw⟩ := h
  simp only [checkStop, hw]
  rfl

/-! ## What a report prints -/

theorem hexChars_last (fuel n : Nat) : ∃ cs d, d < 16 ∧ hexChars (fuel + 1) n = cs ++ [hexChar d] := by
  unfold hexChars
  by_cases h : n < 16
  · exact ⟨[], n, h, by rw [if_pos h, List.nil_append]⟩
  · exact ⟨hexChars fuel (n / 16), n % 16, Nat.mod_lt _ (by decide), by rw [if_neg h]⟩

/-- An address is never printed as the text that stands for a missing one. -/
theorem hexString_ne_missing (a : Addr) : hexString a ≠ "QQ" := by
  intro h
  obtain ⟨cs, d, hd, hcs⟩ := hexChars_last 15 a.toNat
  have hlist : cs ++ [hexChar d] = ['Q'] ++ ['Q'] := by
    rw [← hcs]
    simpa [hexString] using congrArg String.toList h
  have hlast := List.append_inj_right' hlist rfl
  have hno : ∀ d, d < 16 → hexChar d ≠ 'Q' := by decide
  exact hno d hd (List.cons.inj hlast).1

/-- The code that `disasm` looks at: what was read before, else the file of the program. -/
def codeOf (H : Host ω) (program : String) (code : Option (List Byte)) : Except Halt (List Byte) :=
  match code with
  | some code => .ok code
  | none =>
      match H.openFile program with
      | none => .error .segv
      | some i =>
          if (H.content i).bytes.length + 1 < 2 ^ 31 then .ok ((H.content i).bytes ++ [0])
          else .error .segv

/-- The loop only adds lines. -/
theorem disasmLoop_acc (code : List Byte) (text : Elf.Shdr) (n : Nat) (addr : Addr) (acc : List Out) :
    disasmLoop H code text n addr acc = (disasmLoop H code text n addr []).map (acc ++ ·) := by
  induction n generalizing addr acc with
  | zero => simp [disasmLoop, Except.map]
  | succ n ih =>
      simp only [disasmLoop]
      split
      · simp [Except.map]
      · split
        · rfl
        · rename_i i _
          rw [ih _ (acc ++ _), ih _ ([] ++ _)]
          cases disasmLoop H code text n (addr + BitVec.ofNat 64 i.bytes.length) [] <;>
            simp [Except.map]

/-- **The lines that `disasm` prints** while a program is running, with the code it has read. -/
def listing (H : Host ω) (program : String) (text : Elf.Shdr) (code : Option (List Byte)) (addr : Addr)
    (len : Nat) : Except Halt (List Byte × List Out) :=
  (codeOf H program code).bind fun code =>
    (disasmLoop H code text len addr []).map fun lines => (code, lines)

theorem disasm_running (hrun : s.state = .running) {str : String} (hstr : str ≠ "QQ") (len : Nat) :
    disasm H s str len = (listing H s.program s.text s.code (addrOf str) len).map fun r =>
      { s with code := some r.1, out := s.out ++ r.2 } := by
  unfold disasm listing
  rw [if_neg (fun h => h hrun), if_neg hstr]
  cases hcode : s.code with
  | some code =>
      simp only [codeOf, Option.isNone_some, Bool.false_eq_true, if_false, bind, Except.bind, hcode,
        Option.getD_some]
      rw [disasmLoop_acc]
      cases disasmLoop H code s.text len (addrOf str) [] with
      | error e => rfl
      | ok lines =>
          simp only [Except.map, ← hcode]
  | none =>
      simp only [codeOf, Option.isNone_none, if_true, getcode, bind, Except.bind]
      cases H.openFile s.program with
      | none => rfl
      | some i =>
          by_cases hlen : (H.content i).bytes.length + 1 < 2 ^ 31
          · simp only [if_pos hlen, Option.getD_some]
            rw [disasmLoop_acc]
            cases disasmLoop H ((H.content i).bytes ++ [0]) s.text len (addrOf str) [] <;> rfl
          · simp only [if_neg hlen]
            rfl

/-- What a `disasm` that has succeeded has done. -/
theorem disasm_cases {str : String} {len : Nat} (h : disasm H s str len = .ok s') :
    (∃ o, s' = s.say o) ∨
      (s.state = .running ∧ ∃ code lines,
        listing H s.program s.text s.code (addrOf str) len = .ok (code, lines) ∧
          s' = { s with code := some code, out := s.out ++ lines }) := by
  by_cases hrun : s.state = .running
  · by_cases hstr : str = "QQ"
    · unfold disasm at h
      rw [if_neg (fun hne => hne hrun), if_pos hstr] at h
      exact Or.inl ⟨_, (Except.ok.inj h).symm⟩
    · rw [disasm_running hrun hstr] at h
      cases hlist : listing H s.program s.text s.code (addrOf str) len with
      | error e =>
          rw [hlist] at h
          cases h
      | ok r =>
          rw [hlist] at h
          exact Or.inr ⟨hrun, r.1, r.2, rfl, (Except.ok.inj h).symm⟩
  · unfold disasm at h
    rw [if_pos hrun] at h
    exact Or.inl ⟨_, (Except.ok.inj h).symm⟩

/-! ## The verdict on a stop -/

/-- The registers rewound to the address of the trap. -/
def rewound (r : Regs) : Regs := Function.update r .rip (r .rip - 1)

/-- The breakpoint one byte before the instruction pointer, which `check_stop` takes for the one that
    was hit. -/
def hit (points : List Breakpoint) (r : Regs) : Option Breakpoint :=
  points.find? fun b => b.addr = r .rip - 1

theorem hit_eq_none {points : List Breakpoint} {r : Regs} :
    hit points r = none ↔ r .rip - 1 ∉ addrs points := by
  unfold hit addrs
  rw [List.find?_eq_none, List.mem_map]
  constructor
  · rintro h ⟨b, hb, haddr⟩
    exact h b hb (by simpa using haddr)
  · intro h b hb haddr
    exact h ⟨b, hb, by simpa using haddr⟩

theorem hit_mem {points : List Breakpoint} {r : Regs} {b : Breakpoint} (h : hit points r = some b) :
    b ∈ points := List.mem_of_find?_eq_some h

theorem hit_addr {points : List Breakpoint} {r : Regs} {b : Breakpoint} (h : hit points r = some b) :
    b.addr = r .rip - 1 := by
  simpa using List.find?_some h

/-- What the report of a breakpoint at `addr` shows, with the code read. -/
def reportOf (H : Host ω) (s : Debugger ω) (addr : Addr) : Except Halt (List Byte × List Out) :=
  listing H s.program s.text s.code (addrOf (hexString addr)) 1

/-- **What `classifyStop` makes of the tracee `p`**: its return value and the state it leaves. -/
inductive Verdict (H : Host ω) (s : Debugger ω) (p : Proc ω) : Int → Debugger ω → Prop
  /-- One byte past no breakpoint. -/
  | elsewhere {s' : Debugger ω} :
      hit s.points p.cpu.regs = none → Ran s s' (some p) → s'.state = s.state →
      s'.ripNow = s.ripNow → s'.bpaddrNow = s.bpaddrNow → s'.out = s.out → s'.code = s.code →
      Verdict H s p (-1) s'
  /-- One byte past the breakpoint in `rip_now`. -/
  | again {s' : Debugger ω} (b : Breakpoint) :
      hit s.points p.cpu.regs = some b → s.ripNow = b.addr →
      Ran s s' (some (p.withRegs (rewound p.cpu.regs))) → s'.state = s.state →
      s'.ripNow = s.ripNow → s'.bpaddrNow = s.bpaddrNow → s'.out = s.out → s'.code = s.code →
      s'.restore = b.ori →
      Verdict H s p 1 s'
  /-- One byte past another breakpoint, which is reported. -/
  | report {s' : Debugger ω} (b : Breakpoint) (code : List Byte) (lines : List Out) :
      hit s.points p.cpu.regs = some b → s.ripNow ≠ b.addr →
      Ran s s' (some (p.withRegs (rewound p.cpu.regs))) → s'.state = s.state →
      s'.ripNow = b.addr → s'.bpaddrNow = b.addr →
      reportOf H s b.addr = .ok (code, lines) →
      s'.out = s.out ++ .reached :: lines → s'.code = some code →
      Verdict H s p 0 s'

theorem getregs_holds (hrun : s.state = .running) (hp : s.Holds p) :
    getregs H s false = .ok (0, { s with
      regs := p.cpu.regs, world := s.world.logged (.request s.child true) }) := by
  unfold getregs
  rw [if_neg (fun h => h hrun), World.getregs_stopped hp.tracee hp.stopped]
  rfl

theorem setRip_ran (hp : s.Holds p) (v : Addr) :
    Ran s (setRip H s v) (some (p.withRegs (Function.update s.regs .rip v))) := by
  unfold setRip
  simp only [World.setregs_stopped hp.tracee hp.stopped]
  exact ⟨rfl, rfl, rfl, rfl, rfl, rfl, rfl⟩

/-- **The verdict**, or the failure to show the breakpoint that would be reported. -/
theorem classifyStop_verdict (hrun : s.state = .running) (hp : s.Holds p) :
    match classifyStop H s with
    | .ok (ret, s') => Verdict H s p ret s'
    | .error e => ∃ b, hit s.points p.cpu.regs = some b ∧ s.ripNow ≠ b.addr ∧
        reportOf H s b.addr = .error e := by
  simp only [classifyStop, getregs_holds hrun hp, bind, Except.bind]
  cases hfind : s.points.find? fun b => b.addr = p.cpu.regs .rip - 1 with
  | none =>
      refine .elsewhere hfind ⟨rfl, rfl, rfl, rfl, rfl, ?_, rfl⟩ rfl rfl rfl rfl rfl
      show s.world.procs = _
      rw [← show s.world.procs s.child = some p from hp.tracee, Function.update_eq_self]
  | some b =>
      have haddr : b.addr = p.cpu.regs .rip - 1 := hit_addr hfind
      by_cases hnow : s.ripNow = b.addr
      · simp only [if_pos hnow]
        have hran := setRip_ran (H := H) (p := p) (s := { s with
          regs := p.cpu.regs, world := s.world.logged (.request s.child true) })
          ⟨hp.tracee, hp.stopped⟩ (p.cpu.regs .rip - 1)
        exact .again b hfind hnow ⟨rfl, rfl, rfl, rfl, rfl, hran.procs, hran.nextPid⟩
          rfl rfl rfl rfl rfl rfl
      · simp only [if_neg hnow]
        rw [disasm_running (by exact hrun) (hexString_ne_missing _)]
        cases hlist : reportOf H s b.addr with
        | error e =>
            unfold reportOf at hlist
            simp only [say, hlist, Except.map]
            exact ⟨b, hfind, hnow, hlist⟩
        | ok r =>
            have hlist' := hlist
            unfold reportOf at hlist
            simp only [say, hlist, Except.map]
            have hran := setRip_ran (H := H) (p := p) (s := { s with
              regs := p.cpu.regs, world := s.world.logged (.request s.child true) })
              ⟨hp.tracee, hp.stopped⟩ (p.cpu.regs .rip - 1)
            refine .report b r.1 r.2 hfind hnow
              ⟨rfl, rfl, rfl, rfl, rfl, hran.procs, hran.nextPid⟩ rfl haddr.symm rfl hlist' ?_ rfl
            show s.out ++ [Out.reached] ++ r.2 = s.out ++ Out.reached :: r.2
            rw [List.append_assoc]
            rfl

/-- One byte past no breakpoint, the verdict is `-1`. -/
theorem classifyStop_elsewhere (hrun : s.state = .running) (hp : s.Holds p)
    (hhit : hit s.points p.cpu.regs = none) :
    ∃ s', classifyStop H s = .ok (-1, s') ∧ Verdict H s p (-1) s' := by
  have hv := classifyStop_verdict (H := H) hrun hp
  cases hc : classifyStop H s with
  | error e =>
      rw [hc] at hv
      obtain ⟨b, hb, -⟩ := hv
      cases hhit.symm.trans hb
  | ok r =>
      obtain ⟨ret, s'⟩ := r
      rw [hc] at hv
      cases hv with
      | elsewhere hb hran hstate hrip hbp hout hcode =>
          exact ⟨s', rfl, .elsewhere hb hran hstate hrip hbp hout hcode⟩
      | again b hb => cases hhit.symm.trans hb
      | report b code lines hb => cases hhit.symm.trans hb

/-- One byte past the breakpoint in `rip_now`, it is `1`. -/
theorem classifyStop_again (hrun : s.state = .running) (hp : s.Holds p) {b : Breakpoint}
    (hhit : hit s.points p.cpu.regs = some b) (hnow : s.ripNow = b.addr) :
    ∃ s', classifyStop H s = .ok (1, s') ∧ Verdict H s p 1 s' := by
  have hv := classifyStop_verdict (H := H) hrun hp
  cases hc : classifyStop H s with
  | error e =>
      rw [hc] at hv
      obtain ⟨b', hb, hne, -⟩ := hv
      cases hhit.symm.trans hb
      exact absurd hnow hne
  | ok r =>
      obtain ⟨ret, s'⟩ := r
      rw [hc] at hv
      cases hv with
      | elsewhere hb => cases hhit.symm.trans hb
      | again b' hb hnow' hran hstate hrip hbp hout hcode hrestore =>
          exact ⟨s', rfl, .again b' hb hnow' hran hstate hrip hbp hout hcode hrestore⟩
      | report b' code lines hb hne =>
          cases hhit.symm.trans hb
          exact absurd hnow hne

/-- One byte past another breakpoint, it is `0`, if the breakpoint can be shown. -/
theorem classifyStop_report (hrun : s.state = .running) (hp : s.Holds p) {b : Breakpoint}
    (hhit : hit s.points p.cpu.regs = some b) (hne : s.ripNow ≠ b.addr) :
    (∃ e, reportOf H s b.addr = .error e ∧ classifyStop H s = .error e) ∨
      ∃ s', classifyStop H s = .ok (0, s') ∧ Verdict H s p 0 s' := by
  have hv := classifyStop_verdict (H := H) hrun hp
  cases hc : classifyStop H s with
  | error e =>
      rw [hc] at hv
      obtain ⟨b', hb, -, hrep⟩ := hv
      cases hhit.symm.trans hb
      exact Or.inl ⟨e, hrep, rfl⟩
  | ok r =>
      obtain ⟨ret, s'⟩ := r
      rw [hc] at hv
      cases hv with
      | elsewhere hb => cases hhit.symm.trans hb
      | again b' hb hnow =>
          cases hhit.symm.trans hb
          exact absurd hnow hne
      | report b' code lines hb hne' hran hstate hrip hbp hrep hout hcode =>
          exact Or.inr ⟨s', rfl, .report b' code lines hb hne' hran hstate hrip hbp hrep hout hcode⟩

/-! ## Starting -/

/-- The process that a path is started as, if `execvp` finds a program there. -/
def launched (H : Host ω) (path : String) : Option (Proc ω) :=
  (H.execvp path).bind fun i => (H.image i).map fun im => ⟨im.1, im.2, .stopped, i⟩

theorem spawn_procs (w : World ω) (path : String) :
    (spawn H w path).procs = Function.update w.procs w.nextPid (launched H path) := by
  unfold spawn launched
  cases H.execvp path with
  | none => rfl
  | some i =>
      simp only [Option.bind_some]
      cases H.image i <;> rfl

/-- **What `start` does**: a fresh tracee, an empty table, and all other globals as they were. -/
structure Started (H : Host ω) (s s' : Debugger ω) : Prop where
  state : s'.state = .running
  points : s'.points = []
  child : s'.child = s.world.nextPid
  tracee : s'.tracee = launched H (execPath s.program)
  program : s'.program = s.program
  text : s'.text = s.text
  code : s'.code = s.code
  bpid : s'.bpid = s.bpid
  ripNow : s'.ripNow = s.ripNow
  bpaddrNow : s'.bpaddrNow = s.bpaddrNow
  world : s'.world
    = spawn H (if s.state = .running then s.world.kill s.child else s.world) (execPath s.program)

theorem start_started (hstate : s.state ≠ .others) (h : start H s = .ok s') : Started H s s' := by
  have hspawn : ∀ w : World ω,
      (spawn H w (execPath s.program)).procs w.nextPid = launched H (execPath s.program) := by
    intro w
    rw [spawn_procs]
    exact Function.update_self ..
  unfold start at h
  rw [if_neg hstate] at h
  -- a running program is killed first, which leaves the table of processes as it is
  by_cases hrun : s.state = .running
  · simp only [if_pos hrun] at h
    split at h
    · cases h
      exact ⟨rfl, rfl, rfl, hspawn (s.world.kill s.child), rfl, rfl, rfl, rfl, rfl, rfl,
        by rw [if_pos hrun]; rfl⟩
    · cases h
  · simp only [if_neg hrun] at h
    split at h
    · cases h
      exact ⟨rfl, rfl, rfl, hspawn s.world, rfl, rfl, rfl, rfl, rfl, rfl, by rw [if_neg hrun]; rfl⟩
    · cases h

end AdvUnix.Sdb
