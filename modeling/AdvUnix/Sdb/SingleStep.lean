import AdvUnix.Sdb.Transparency

/-!
# `Sdb.SingleStep` — what one `si` does

A single step has to execute one instruction, or none where it reports the breakpoint that the tracee has just
come to. `check_stop` tells an arrival from a departure by `rip_now` and `bpaddr_now` alone: `rip_now` keeps
the address when the tracee has left the breakpoint, `bpaddr_now` does not, and any step that ends one byte
past a breakpoint looks like its trap. Where the tracee comes back to the breakpoint reported last, or steps
over a one-byte instruction under a breakpoint, `si` does neither (`si_does_neither`).
-/

namespace AdvUnix.Sdb

open StepMachine Debugger

variable {insn : Cpu → Except Byte Cpu} {fuel : Nat} {S : Site (List Bool)} {how : Resume}
variable {c₀ c d : Cpu} {A : Set Addr} {n m : Nat} {k k' : Core} {H : Host (List Bool)}
variable {s s' s₁ : Debugger (List Bool)} {cmd : Command} {cmds : List Command}

/-! ## What has to hold -/

/-- The commands of a stepping session. -/
inductive Stepping : Command → Prop
  | break (sAddr : String) : Stepping (.break sAddr)
  | delete (sId : String) : Stepping (.delete sId)
  | cont : Stepping .cont
  | si : Stepping .si

theorem Stepping.watching (h : Stepping cmd) : Watching cmd := by
  cases h with
  | «break» sAddr => exact .break sAddr
  | delete sId => exact .delete sId
  | cont => exact .cont
  | si => exact .si

/-- A command has reported a breakpoint. -/
def Reported (s s' : Debugger (List Bool)) : Prop := ∃ lines, s'.out = s.out ++ .reached :: lines

/-- **One instruction** of the program has been executed, and nothing reported: the tracee has gone from the
    native state after `n` steps to the next one, or has exited instead. -/
def Executed (insn : Cpu → Except Byte Cpu) (c₀ : Cpu) (n m : Nat) (s s' : Debugger (List Bool)) : Prop :=
  (s'.state = .running ∧ m = n + 1 ∧ s'.out = s.out) ∨
    (s'.state = .loaded ∧ ∃ c code, (machine insn).after n c₀ = .ok c ∧ (machine insn).step c = .error code)

/-- **None** has been executed, and the breakpoint at the instruction pointer is reported. -/
def ReportedHere (H : Host (List Bool)) (n m : Nat) (s s' : Debugger (List Bool)) : Prop :=
  s'.state = .running ∧ m = n ∧
    ∃ p, s.Holds p ∧ p.cpu.regs .rip ∈ addrs s.points ∧ Printed H s s' (some (p.cpu.regs .rip))

/-- A breakpoint has been reported since the tracee came where it is at prompt `i`. -/
def Told (H : Host (List Bool)) (s₁ : Debugger (List Bool)) (cmds : List Command) (f : Nat → Nat) (i : Nat) :
    Prop :=
  ∃ j < i, f (j + 1) = f i ∧ ∃ s s', execAll H s₁ (cmds.take j) = .ok s ∧
    execAll H s₁ (cmds.take (j + 1)) = .ok s' ∧ Reported s s'

/-- **Single steps are exact** in a session: with `f i` instructions executed at prompt `i`, each `si` executes
    one, or none and reports the breakpoint here, unless that has been told. Only `cont` and `si` execute any. -/
def StepsExactly (H : Host (List Bool)) (insn : Cpu → Except Byte Cpu) (c₀ : Cpu)
    (s₁ : Debugger (List Bool)) (cmds : List Command) : Prop :=
  ∃ f : Nat → Nat, Monotone f ∧
    (∀ i s, execAll H s₁ (cmds.take i) = .ok s → s.state = .running → AtNative insn c₀ (f i) s) ∧
    (∀ i cmd, cmds[i]? = some cmd → cmd ≠ .cont → cmd ≠ .si → f (i + 1) = f i) ∧
    ∀ i s, execAll H s₁ (cmds.take i) = .ok s → s.state = .running → cmds[i]? = some .si →
      ∃ s', exec H s .si = .ok s' ∧
        (Executed insn c₀ (f i) (f (i + 1)) s s' ∨
          ReportedHere H (f i) (f (i + 1)) s s' ∧ ¬ Told H s₁ cmds f i)

/-! ## What a single step must be given -/

/-- **What `si` must be given.** At the breakpoint in `rip_now`, that breakpoint is in `bpaddr_now` too; and
    where an instruction is executed, it does not end one byte past a breakpoint. -/
def Core.Steppable (insn : Cpu → Except Byte Cpu) (k : Core) : Prop :=
  (k.cpu.regs .rip ∈ addrs k.points → k.cpu.regs .rip = k.ripNow → k.bpaddrNow = k.ripNow) ∧
    ((k.cpu.regs .rip ∈ addrs k.points → k.cpu.regs .rip = k.ripNow) →
      ∀ d, (machine insn).step k.unarmed = .ok d → d.regs .rip - 1 ∉ addrs k.points)

/-- **What a step of a session must be given** for single steps to be exact. The breakpoint that `si` has to
    report can be shown. -/
def Exactable (H : Host (List Bool)) (insn : Cpu → Except Byte Cpu) (A : Set Addr)
    (s : Debugger (List Bool)) : Command → Prop
  | .si => ∀ k, Shows s k → k.Steppable insn ∧
      (k.cpu.regs .rip ∈ addrs k.points → k.cpu.regs .rip ≠ k.ripNow →
        ∃ r, reportOf H s (k.cpu.regs .rip) = .ok r)
  | cmd => CleanCommand insn A s cmd

/-! ## What a stop reports -/

/-- The debugger knows of a breakpoint where the tracee is: it is in `rip_now`. -/
def Core.Knows (k : Core) : Prop := k.ripNow = k.cpu.regs .rip

theorem Core.settle_reports (k : Core) (d : Cpu) :
    (∀ a, (k.settle d).2 = some a → (k.settle d).1.Knows) ∧
      ((k.settle d).2 = none → (k.settle d).1.ripNow = k.ripNow) := by
  by_cases hin : d.regs .rip - 1 ∈ addrs k.points
  · by_cases hnow : k.ripNow = d.regs .rip - 1
    · obtain ⟨-, -, -, -, hset⟩ := Core.settle_again hin hnow
      rw [hset]
      exact ⟨fun a ha => (Option.some_ne_none a ha.symm).elim, fun _ => rfl⟩
    · obtain ⟨-, hset⟩ := Core.settle_report hin hnow
      rw [hset]
      refine ⟨fun a _ => ?_, fun hn => by cases hn⟩
      change d.regs .rip - 1 = rewound d.regs .rip
      rw [rewound, Function.update_self]
  · obtain ⟨-, hset⟩ := Core.settle_off hin
    rw [hset]
    exact ⟨fun a ha => (Option.some_ne_none a ha.symm).elim, fun _ => rfl⟩

/-- **A report is about the place** where the tracee then is; without one `rip_now` stays. -/
theorem Core.resume_reports {rep : Option Addr} (hr : k.resume insn fuel how = .prompt k' rep) :
    (∀ a, rep = some a → k'.Knows) ∧ (rep = none → k'.ripNow = k.ripNow) := by
  obtain ⟨d, -, hstop⟩ := Course.next_prompt hr
  unfold Core.stopCourse at hstop
  cases hagain : k.again d with
  | none =>
      rw [hagain] at hstop
      cases hstop
      exact k.settle_reports d
  | some b =>
      rw [hagain] at hstop
      obtain ⟨-, -, hset⟩ := Core.settle_of_again hagain
      obtain ⟨e, -, hstop'⟩ := Course.next_prompt hstop
      -- writing the trap back changes neither `rip_now` nor the registers
      cases hstop'
      have hreports := Core.settle_reports ((k.settle d).1.resumed how)
        ⟨e.regs, (k.settle d).1.behind how e.mem⟩
      rw [Core.resumed_ripNow, hset] at hreports
      rw [hset]
      exact hreports

/-! ## One single step -/

/-- The tracee steps over its instruction, with the breakpoints `P` in its memory. -/
theorem step_patched (hT : Text insn c₀ A) (hc : (machine insn).after n c₀ = .ok c) {P : List Addr}
    (hP : ∀ x ∈ P, x ∈ A) (hrip : c.regs .rip ∉ P) :
    nextReport insn fuel .step ((machine insn).patched P c)
      = some (((machine insn).step c).map ((machine insn).patched P)) :=
  congrArg some (Machine.patched_step hT.toUndisturbed hc hP hrip)

/-- What `si` comes to at a prompt of the native run. -/
inductive SiCourse (insn : Cpu → Except Byte Cpu) (c₀ : Cpu) (A : Set Addr) (n : Nat) (c : Cpu) (k : Core) :
    Course → Prop
  | executed {k' : Core} : k'.points = k.points → Native insn c₀ A (n + 1) k' →
      SiCourse insn c₀ A n c k (.prompt k' none)
  | exited {code : Byte} : (machine insn).step c = .error code → SiCourse insn c₀ A n c k (.exit code)
  | reported {k' : Core} : c.regs .rip ∈ addrs k.points → ¬ k.Knows → k'.points = k.points →
      Native insn c₀ A n k' → SiCourse insn c₀ A n c k (.prompt k' (some (c.regs .rip)))

/-- Away from the breakpoints the instruction is executed at once. -/
theorem si_away (hT : Text insn c₀ A) (h : Native insn c₀ A n k) (hc : (machine insn).after n c₀ = .ok c)
    (hout : c.regs .rip ∉ addrs k.points)
    (hland : ∀ d, (machine insn).step c = .ok d → d.regs .rip - 1 ∉ addrs k.points) :
    SiCourse insn c₀ A n c k (k.resume insn fuel .step) := by
  rw [Core.resume, h.cpu_eq hc, step_patched hT hc h.inside hout]
  cases hs : (machine insn).step c with
  | error code => exact .exited hs
  | ok d =>
      have hd : (machine insn).after (n + 1) c₀ = .ok d := by rw [(machine insn).after_succ hc, hs]
      obtain ⟨hagain, hset⟩ := Core.settle_off (k := k) (d := (machine insn).patched (addrs k.points) d)
        (hland d hs)
      simp only [Except.map, Course.next, Core.stopCourse, hagain, hset]
      exact .executed rfl (h.of_patched _ (by rfl) hd (by rfl))

/-- At a breakpoint the tracee traps. -/
theorem si_trapped (h : Native insn c₀ A n k) (hc : (machine insn).after n c₀ = .ok c)
    (hin : c.regs .rip ∈ addrs k.points) :
    k.resume insn fuel .step = k.stopCourse insn fuel .step
      ((machine insn).pastTrap ((machine insn).patched (addrs k.points) c)) := by
  have htrap : (machine insn).AtTrap ((machine insn).patched (addrs k.points) c) :=
    Machine.atTrap_patched.mpr (Or.inl hin)
  rw [Core.resume, h.cpu_eq hc]
  simp only [nextReport, (machine insn).step_trap htrap, Course.next]

/-- **An arrival**: the breakpoint is reported. -/
theorem si_arrived (h : Native insn c₀ A n k) (hc : (machine insn).after n c₀ = .ok c)
    (hin : c.regs .rip ∈ addrs k.points) (hnow : k.ripNow ≠ c.regs .rip) :
    SiCourse insn c₀ A n c k (k.resume insn fuel .step) := by
  have hrip := rip_trap insn (addrs k.points) c
  obtain ⟨hagain, hset⟩ := Core.settle_report (k := k) (hrip ▸ hin) (fun he => hnow (he.trans hrip))
  rw [rewound_trap, hrip] at hset
  rw [si_trapped h hc hin]
  simp only [Core.stopCourse, hagain, hset]
  refine .reported hin ?_ rfl (h.of_patched _ (by rfl) hc (by rfl))
  intro hknows
  rw [Core.Knows, h.cpu_eq hc] at hknows
  exact hnow hknows

/-- **A departure**: the breakpoint is lifted for one instruction. -/
theorem si_departed (hT : Text insn c₀ A) (h : Native insn c₀ A n k)
    (hc : (machine insn).after n c₀ = .ok c) (hin : c.regs .rip ∈ addrs k.points)
    (hnow : k.ripNow = c.regs .rip) (hbp : k.bpaddrNow = k.ripNow)
    (hland : ∀ d, (machine insn).step c = .ok d → d.regs .rip - 1 ∉ addrs k.points) :
    SiCourse insn c₀ A n c k (k.resume insn fuel .step) := by
  have hrip := rip_trap insn (addrs k.points) c
  obtain ⟨b, hb, hbaddr, hagain, hset⟩ := Core.settle_again (k := k) (hrip ▸ hin) (hnow.trans hrip.symm)
  have hsame : ({ k with cpu := (machine insn).patched (addrs k.points) c } : Core) = k := by
    rw [← h.cpu_eq hc]
  rw [rewound_trap, hsame] at hset
  have haddr : k.bpaddrNow = b.addr := hbp.trans hbaddr.symm
  -- the breakpoint under the tracee is the one that is lifted
  have hlifted : c.regs .rip ∉ others k.points b := by
    intro hx
    exact (mem_others.mp hx).2 (hnow.symm.trans hbaddr.symm)
  rw [si_trapped h hc hin]
  simp only [Core.stopCourse, hagain, hset]
  rw [path_lifted hT h hc hb haddr, step_patched hT hc (others_inside h b) hlifted]
  cases hs : (machine insn).step c with
  | error code => exact .exited hs
  | ok d =>
      have hd : (machine insn).after (n + 1) c₀ = .ok d := by rw [(machine insn).after_succ hc, hs]
      have hoff : d.regs .rip - 1 ∉ addrs (k.resumed .step).points := hland d hs
      obtain ⟨-, hsettle⟩ := Core.settle_off
        (d := ⟨d.regs, k.behind .step (patch (some int3) (others k.points b) d.mem)⟩) hoff
      have hpath : k.settleOnPath .step ((machine insn).patched (others k.points b) d) = _ := hsettle
      simp only [Except.map, Course.next, hpath]
      refine .executed (by rfl) (h.of_patched _ (by rfl) hd ?_)
      rw [Core.rearmed, rearm hT h hd hb haddr (fun hcont => by cases hcont)]
      rfl

/-- **One single step**, given what it needs. -/
theorem si_exact (hT : Text insn c₀ A) (h : Native insn c₀ A n k) (hc : (machine insn).after n c₀ = .ok c)
    (hstep : k.Steppable insn) : SiCourse insn c₀ A n c k (k.resume insn fuel .step) := by
  obtain ⟨hbp, hland⟩ := hstep
  have hregs : k.cpu.regs = c.regs := by
    rw [h.cpu_eq hc]
    rfl
  rw [hregs] at hbp hland
  rw [h.unarmed_eq hT hc] at hland
  by_cases hin : c.regs .rip ∈ addrs k.points
  · by_cases hnow : k.ripNow = c.regs .rip
    · -- the breakpoint under the tracee has been reported, or it has not
      exact si_departed hT h hc hin hnow (hbp hin hnow.symm) (hland fun _ => hnow.symm)
    · exact si_arrived h hc hin hnow
  · exact si_away hT h hc hin (hland fun hx => absurd hx hin)

/-! ## One command -/

/-- The breakpoint where the tracee stands is in `rip_now`. -/
def Knows (s : Debugger (List Bool)) : Prop := ∀ p, s.Holds p → s.ripNow = p.cpu.regs .rip

theorem Shows.knows (h : Shows s k) : Knows s ↔ k.Knows := by
  obtain ⟨p, hp, hcpu, -⟩ := h.tracee
  unfold Core.Knows
  rw [← h.ripNow, ← hcpu]
  constructor
  · intro hknows
    exact hknows p hp
  · intro hknows q hq
    rw [hq.unique hp]
    exact hknows

theorem not_reported {lines : List Out} (hout : s'.out = s.out ++ lines)
    (hlines : ∀ rest, lines ≠ .reached :: rest) : ¬ Reported s s' := by
  rintro ⟨rest, hrest⟩
  rw [hout] at hrest
  exact hlines rest (List.append_cancel_left hrest)

/-- A command that leaves a prompt either reports the breakpoint it stops at, or leaves `rip_now` alone. -/
def Marks (s s' : Debugger (List Bool)) : Prop :=
  (Reported s s' → Knows s') ∧ (¬ Reported s s' → s'.ripNow = s.ripNow)

theorem Marks.quiet (lines : List Out) (hout : s'.out = s.out ++ lines)
    (hlines : ∀ rest, lines ≠ .reached :: rest) (hrip : s'.ripNow = s.ripNow) : Marks s s' := by
  constructor
  · intro hreported
    exact absurd hreported (not_reported hout hlines)
  · intro _
    exact hrip

/-- `cont` and `si`. -/
theorem Follows.marks (hk : Shows s k) (h : Follows H s (k.resume insn fuel how) (.ok s'))
    (hrun : s'.state = .running) : Marks s s' := by
  cases hr : k.resume insn fuel how with
  | forever =>
      rw [hr] at h
      cases h
  | exit code =>
      rw [hr] at h
      obtain ⟨s₂, hs₂, hex⟩ := h
      cases hs₂
      rw [hex.loaded] at hrun
      cases hrun
  | prompt k' rep =>
      rw [hr] at h
      obtain ⟨hshows, -, hprinted⟩ := h
      obtain ⟨hsome, hnone⟩ := Core.resume_reports hr
      cases rep with
      | none =>
          refine Marks.quiet [] (by rw [hprinted.1, List.append_nil]) (fun _ hnil => by cases hnil) ?_
          exact (hshows.ripNow.trans (hnone rfl)).trans hk.ripNow.symm
      | some a =>
          obtain ⟨code, lines, -, hout, -⟩ := hprinted
          constructor
          · intro _
            exact hshows.knows.mpr (hsome a rfl)
          · intro hnot
            exact absurd ⟨lines, hout⟩ hnot

theorem breakpoint_marks {sAddr : String} (hexec : breakpoint H s sAddr = .ok s') (hrun : s.state = .running) :
    Marks s s' := by
  rcases breakpoint_cases hexec with ⟨hidle, -⟩ | ⟨-, ⟨-, rfl⟩ | ⟨-, rfl⟩⟩
  · exact absurd hrun hidle
  · exact Marks.quiet [] (List.append_nil _).symm (fun _ hnil => by cases hnil) rfl
  · exact Marks.quiet [] (List.append_nil _).symm (fun _ hnil => by cases hnil) rfl

theorem del_marks {sId : String} (hexec : del H s sId = .ok s') (hrun : s.state = .running) : Marks s s' := by
  rcases del_cases hexec with ⟨hidle, -⟩ | ⟨-, ⟨-, rfl⟩ | ⟨id, -, ⟨-, rfl⟩ | ⟨q, -, rfl⟩⟩⟩
  · exact absurd hrun hidle
  · exact Marks.quiet [] (List.append_nil _).symm (fun _ hnil => by cases hnil) rfl
  · exact Marks.quiet [_] rfl (fun _ hline => by cases hline) rfl
  · exact Marks.quiet [_] rfl (fun _ hline => by cases hline) rfl

theorem exec_marks (hk : Shows s k) (hcmd : Stepping cmd) (hexec : exec (hosted insn fuel S) s cmd = .ok s')
    (hrun : s'.state = .running) : Marks s s' := by
  cases hcmd with
  | «break» sAddr => exact breakpoint_marks hexec hk.running
  | delete sId => exact del_marks hexec hk.running
  | cont =>
      have hfollow := cont_course insn fuel S hk
      rw [show cont (hosted insn fuel S) s = .ok s' from hexec] at hfollow
      exact hfollow.marks hk hrun
  | si =>
      have hfollow := si_course insn fuel S hk
      rw [show si (hosted insn fuel S) s = .ok s' from hexec] at hfollow
      exact hfollow.marks hk hrun

/-- **What one `si` does to a session** that is `n` instructions on. -/
theorem si_executes (hT : Text insn c₀ A) (hon : OnRun insn c₀ A n s)
    (hok : Exactable (hosted insn fuel S) insn A s .si) :
    ∃ s' m, exec (hosted insn fuel S) s .si = .ok s' ∧ n ≤ m ∧ (s'.state = .running → OnRun insn c₀ A m s') ∧
      (Executed insn c₀ n m s s' ∨ ReportedHere (hosted insn fuel S) n m s s' ∧ ¬ Knows s) := by
  obtain ⟨k, hk, hn⟩ := hon
  obtain ⟨hstep, hshown⟩ := hok k hk
  obtain ⟨c, hc, -⟩ := hn.state
  have hfollow := si_course insn fuel S hk
  have hcourse : SiCourse insn c₀ A n c k (k.resume insn fuel .step) := si_exact hT hn hc hstep
  cases hr : k.resume insn fuel .step with
  | forever =>
      rw [hr] at hcourse
      cases hcourse
  | exit code =>
      rw [hr] at hcourse hfollow
      -- the instruction exits the program
      cases hcourse with
      | exited hexit =>
          obtain ⟨s', hs', hex⟩ := hfollow
          refine ⟨s', n, hs', Nat.le_refl n, fun hrun => ?_, Or.inl (Or.inr ⟨hex.loaded, c, code, hc, hexit⟩)⟩
          rw [hex.loaded] at hrun
          cases hrun
  | prompt k' rep =>
      rw [hr] at hcourse hfollow
      cases hcourse with
      | executed hpoints hnext =>
          cases hsi : si (hosted insn fuel S) s with
          | error e =>
              rw [hsi] at hfollow
              obtain ⟨a, ha, -⟩ := hfollow
              cases ha
          | ok s' =>
              rw [hsi] at hfollow
              obtain ⟨hshows, -, hout, -⟩ := hfollow
              exact ⟨s', n + 1, hsi, Nat.le_succ n, fun _ => ⟨k', hshows, hnext⟩,
                Or.inl (Or.inl ⟨hshows.running, rfl, hout⟩)⟩
      | reported hin hnew hpoints hsame =>
          -- nothing is executed at a breakpoint that has not been told
          cases hsi : si (hosted insn fuel S) s with
          | error e =>
              -- the breakpoint could not be shown
              rw [hsi] at hfollow
              obtain ⟨a, ha, he⟩ := hfollow
              have hregs : k.cpu.regs = c.regs := by
                rw [hn.cpu_eq hc]
                rfl
              rw [hregs] at hshown
              obtain ⟨r, hshow⟩ := hshown hin fun hnow => hnew (by rw [Core.Knows, hregs, hnow])
              cases ha
              rw [hshow] at he
              cases he
          | ok s' =>
              rw [hsi] at hfollow
              obtain ⟨hshows, -, hprinted⟩ := hfollow
              obtain ⟨p, hp, hcpu, -⟩ := hk.tracee
              have hrip : p.cpu.regs .rip = c.regs .rip := by
                rw [hcpu, hn.cpu_eq hc]
                rfl
              refine ⟨s', n, hsi, Nat.le_refl n, fun _ => ⟨k', hshows, hsame⟩,
                Or.inr ⟨⟨hshows.running, rfl, p, hp, ?_, ?_⟩, fun hknows => hnew (hk.knows.mp hknows)⟩⟩
              · rw [hrip, hk.points]
                exact hin
              · rw [hrip]
                exact hprinted

/-! ## Sessions -/

/-- While the tracee stays where it is, what is in `rip_now` is still its place. -/
theorem OnRun.knows (hT : Text insn c₀ A) (hon : OnRun insn c₀ A n s) (hon' : OnRun insn c₀ A n s')
    (hrip : s'.ripNow = s.ripNow) (hknows : Knows s) : Knows s' := by
  obtain ⟨c, hc, hov, hregs, -, -⟩ := hon.overlay hT
  obtain ⟨c', hc', -, hregs', -, -⟩ := hon'.overlay hT
  cases hc.symm.trans hc'
  obtain ⟨p, hp, -⟩ := hov.tracee
  intro p' hp'
  rw [hrip, hknows p hp, hregs p hp, hregs' p' hp']

/-- **One command of a session.** `told` stands for what has been reported where the tracee is. -/
theorem session_step (hT : Text insn c₀ A) (hon : OnRun insn c₀ A n s) (hcmd : Stepping cmd)
    (hok : Exactable (hosted insn fuel S) insn A s cmd) {told : Prop} (htold : told → Knows s)
    (hexec : exec (hosted insn fuel S) s cmd = .ok s') :
    ∃ m, n ≤ m ∧ (s'.state = .running →
        OnRun insn c₀ A m s' ∧ ((m = n ∧ told) ∨ Reported s s' → Knows s')) ∧
      (cmd ≠ .cont → cmd ≠ .si → m = n) ∧
      (cmd = .si → Executed insn c₀ n m s s' ∨ ReportedHere (hosted insn fuel S) n m s s' ∧ ¬ told) := by
  have hmarked : ∀ m, (s'.state = .running → OnRun insn c₀ A m s') → s'.state = .running →
      OnRun insn c₀ A m s' ∧ ((m = n ∧ told) ∨ Reported s s' → Knows s') := by
    intro m hon' hrun
    have ⟨k, hk, _⟩ := hon
    obtain ⟨hreported, hsame⟩ := exec_marks hk hcmd hexec hrun
    refine ⟨hon' hrun, ?_⟩
    rintro (⟨rfl, ht⟩ | hrep)
    · by_cases hrep : Reported s s'
      · exact hreported hrep
      · exact OnRun.knows hT hon (hon' hrun) (hsame hrep) (htold ht)
    · exact hreported hrep
  cases hcmd with
  | «break» sAddr =>
      have hstays : s'.state = .running → OnRun insn c₀ A n s' := fun _ =>
        breakpoint_native hT hon (hok hon.running) hexec
      exact ⟨n, Nat.le_refl n, hmarked n hstays, fun _ _ => rfl, fun h => by cases h⟩
  | delete sId =>
      have hstays : s'.state = .running → OnRun insn c₀ A n s' := fun _ => del_native hT hon hexec
      exact ⟨n, Nat.le_refl n, hmarked n hstays, fun _ _ => rfl, fun h => by cases h⟩
  | cont =>
      by_cases hrun : s'.state = .running
      · obtain ⟨m, hm, hon'⟩ := exec_native hT hon .cont hok hexec hrun
        exact ⟨m, hm, hmarked m fun _ => hon', fun h => absurd rfl h, fun h => by cases h⟩
      · exact ⟨n, Nat.le_refl n, fun h => absurd h hrun, fun h => absurd rfl h, fun h => by cases h⟩
  | si =>
      obtain ⟨s₂, m, hs₂, hm, hon', hdone⟩ := si_executes hT hon hok
      cases hs₂.symm.trans hexec
      refine ⟨m, hm, hmarked m hon', fun _ h => absurd rfl h, fun _ => ?_⟩
      refine hdone.imp_right fun hhere => ⟨hhere.1, fun ht => ?_⟩
      exact hhere.2 (htold ht)

/-- **The counts of a session** from a prompt that is `n` instructions on: how many have been executed at each
    prompt, and what each `si` has done. -/
structure Counts (H : Host (List Bool)) (insn : Cpu → Except Byte Cpu) (c₀ : Cpu) (A : Set Addr)
    (s : Debugger (List Bool)) (n : Nat) (told : Prop) (cmds : List Command) (f : Nat → Nat) : Prop where
  mono : Monotone f
  first : f 0 = n
  prompts : ∀ i s', execAll H s (cmds.take i) = .ok s' → s'.state = .running → OnRun insn c₀ A (f i) s'
  still : ∀ i cmd, cmds[i]? = some cmd → cmd ≠ .cont → cmd ≠ .si → f (i + 1) = f i
  steps : ∀ i s', execAll H s (cmds.take i) = .ok s' → s'.state = .running → cmds[i]? = some .si →
    ∃ s₂, exec H s' .si = .ok s₂ ∧
      (Executed insn c₀ (f i) (f (i + 1)) s' s₂ ∨
        ReportedHere H (f i) (f (i + 1)) s' s₂ ∧ (f i = n → ¬ told) ∧ ¬ Told H s cmds f i)

/-- A session that gets no further than its first prompt, where no `si` is asked for. -/
theorem Counts.ended {told : Prop} (hon : s.state = .running → OnRun insn c₀ A n s)
    (hended : ∀ i s', execAll H s (cmds.take i) = .ok s' → s' = s ∧ (s.state = .running → cmds[i]? ≠ some .si)) :
    Counts H insn c₀ A s n told cmds fun _ => n := by
  constructor
  · exact monotone_const
  · rfl
  · intro i s' hs' hrun
    obtain ⟨rfl, -⟩ := hended i s' hs'
    exact hon hrun
  · intro _ _ _ _ _
    rfl
  · intro i s' hs' hrun hsi
    obtain ⟨rfl, hnone⟩ := hended i s' hs'
    exact absurd hsi (hnone hrun)

/-- The counts of a session by those of the session behind its first command. -/
theorem Counts.cons {told : Prop} {g : Nat → Nat} (hexec : exec H s cmd = .ok s₁)
    (hon : s.state = .running → OnRun insn c₀ A n s) (hm : n ≤ m) (hstays : cmd ≠ .cont → cmd ≠ .si → m = n)
    (hdone : s.state = .running → cmd = .si →
      Executed insn c₀ n m s s₁ ∨ ReportedHere H n m s s₁ ∧ ¬ told)
    (h : Counts H insn c₀ A s₁ m ((m = n ∧ told) ∨ Reported s s₁) cmds g) :
    Counts H insn c₀ A s n told (cmd :: cmds) fun i => Nat.casesOn i n g := by
  have hg0 := h.first
  constructor
  · exact monotone_cons h.mono (hg0.symm ▸ hm)
  · rfl
  · intro i s' hs' hrun
    cases i with
    | zero =>
        cases hs'
        exact hon hrun
    | succ i =>
        rw [List.take_succ_cons, execAll_cons hexec] at hs'
        exact h.prompts i s' hs' hrun
  · intro i c hc hcont hsi
    cases i with
    | zero =>
        cases hc
        exact hg0.trans (hstays hcont hsi)
    | succ i => exact h.still i c hc hcont hsi
  · intro i s' hs' hrun hsi
    cases i with
    | zero =>
        cases hs'
        cases hsi
        refine ⟨s₁, hexec, ?_⟩
        change Executed insn c₀ n (g 0) s s₁ ∨ ReportedHere _ n (g 0) s s₁ ∧ _
        rw [hg0]
        refine (hdone hrun rfl).imp_right fun hhere => ⟨hhere.1, fun _ => hhere.2, ?_⟩
        rintro ⟨j, hj, -⟩
        exact absurd hj (Nat.not_lt_zero j)
    | succ i =>
        rw [List.take_succ_cons, execAll_cons hexec] at hs'
        obtain ⟨s₂, hs₂, hstep⟩ := h.steps i s' hs' hrun hsi
        refine ⟨s₂, hs₂, hstep.imp_right fun ⟨hhere, hnew, hnot⟩ => ⟨hhere, ?_, ?_⟩⟩
        · -- if nothing has been executed so far, the first command has not told either
          intro hstay ht
          have hstart := h.mono (Nat.zero_le i)
          exact hnew (by change g i = n at hstay; omega) (Or.inl ⟨by change g i = n at hstay; omega, ht⟩)
        · -- a report for this place is one by the first command or one behind it
          rintro ⟨j, hj, hsame, t, t', ht, ht', hrep⟩
          cases j with
          | zero =>
              cases ht
              rw [List.take_succ_cons, List.take_zero, execAll_cons hexec] at ht'
              cases ht'
              exact hnew (hsame.symm.trans hg0) (Or.inr hrep)
          | succ j =>
              rw [List.take_succ_cons, execAll_cons hexec] at ht ht'
              exact hnot ⟨j, Nat.lt_of_succ_lt_succ hj, hsame, t, t', ht, ht', hrep⟩

/-- **A session** from a prompt that is `n` instructions on. -/
theorem session_exact (hT : Text insn c₀ A) (hcmds : ∀ c ∈ cmds, Stepping c)
    (hok : Along (hosted insn fuel S) (Exactable (hosted insn fuel S) insn A) s cmds) (told : Prop)
    (hon : s.state = .running → OnRun insn c₀ A n s) (htold : s.state = .running → told → Knows s) :
    ∃ f, Counts (hosted insn fuel S) insn c₀ A s n told cmds f := by
  induction cmds generalizing s n told with
  | nil =>
      refine ⟨_, Counts.ended hon ?_⟩
      intro i s' hs'
      rw [List.take_nil] at hs'
      cases hs'
      exact ⟨rfl, fun _ h => by cases h⟩
  | cons cmd cmds ih =>
      obtain ⟨hfirst, hrest⟩ := hok
      have hcmd := hcmds cmd List.mem_cons_self
      have htail : ∀ c ∈ cmds, Stepping c := fun c hc => hcmds c (List.mem_cons_of_mem _ hc)
      cases hexec : exec (hosted insn fuel S) s cmd with
      | error e =>
          -- a session that ends here; it is not by an `si` of a running program
          refine ⟨_, Counts.ended hon ?_⟩
          intro i s' hs'
          cases i with
          | zero =>
              cases hs'
              refine ⟨rfl, fun hrun hsi => ?_⟩
              cases hsi
              obtain ⟨s₂, m, hs₂, -⟩ := si_executes hT (hon hrun) hfirst
              cases hexec.symm.trans hs₂
          | succ i =>
              obtain ⟨s₁, hs₁, -⟩ := execAll_take_succ hs'
              cases hexec.symm.trans hs₁
      | ok s₁ =>
          by_cases hrun : s.state = .running
          · obtain ⟨m, hm, hon', hstays, hdone⟩ := session_step hT (hon hrun) hcmd hfirst (htold hrun) hexec
            obtain ⟨g, hg⟩ := ih htail (hrest s₁ hexec) ((m = n ∧ told) ∨ Reported s s₁)
              (fun h => (hon' h).1) (fun h => (hon' h).2)
            exact ⟨_, Counts.cons hexec hon hm hstays (fun _ => hdone) hg⟩
          · -- nothing runs before the command, so nothing runs behind it
            have hidle : s₁.state ≠ .running := exec_idle hcmd.watching hrun hexec
            obtain ⟨g, hg⟩ := ih htail (hrest s₁ hexec) ((n = n ∧ told) ∨ Reported s s₁)
              (fun h => absurd h hidle) (fun h => absurd h hidle)
            exact ⟨_, Counts.cons hexec hon (Nat.le_refl n) (fun _ _ => rfl) (fun h => absurd h hrun) hg⟩

/-- **Single-step exactness.** After `start`, single steps are exact in every session whose steps are given
    what they need. -/
theorem single_steps_exact {file : Inode} {sched : List Bool} (hstate : s.state ≠ .others)
    (hfile : S.execvp (execPath s.program) = some file) (himage : S.image file = some (c₀, sched))
    (hT : Text insn c₀ A) (hstart : start (hosted insn fuel S) s = .ok s₁) (hcmds : ∀ c ∈ cmds, Stepping c)
    (hok : Along (hosted insn fuel S) (Exactable (hosted insn fuel S) insn A) s₁ cmds) :
    StepsExactly (hosted insn fuel S) insn c₀ s₁ cmds := by
  have hon : OnRun insn c₀ A 0 s₁ := onRun_start hstate hfile himage hstart
  obtain ⟨f, hf⟩ := session_exact hT hcmds hok False (fun _ => hon) (fun _ => False.elim)
  refine ⟨f, hf.mono, fun i s' hs' hrun => (hf.prompts i s' hs' hrun).atNative hT, hf.still, ?_⟩
  intro i s' hs' hrun hsi
  obtain ⟨s₂, hs₂, hstep⟩ := hf.steps i s' hs' hrun hsi
  exact ⟨s₂, hs₂, hstep.imp_right fun hhere => ⟨hhere.1, hhere.2.2⟩⟩

/-- `si` has what it needs at a prompt of a sample program. -/
def steppableNow (H : Host (List Bool)) (s : Debugger (List Bool)) : Bool :=
  match s.tracee with
  | none => false
  | some p =>
      decide (p.cpu.regs .rip ∈ addrs s.points → p.cpu.regs .rip = s.ripNow → s.bpaddrNow = s.ripNow) &&
      (decide (¬ (p.cpu.regs .rip ∈ addrs s.points → p.cpu.regs .rip = s.ripNow)) ||
        match (machine sampleInsn).step ⟨p.cpu.regs, unarmed s.points p.cpu.mem⟩ with
        | .error _ => true
        | .ok d => decide (d.regs .rip - 1 ∉ addrs s.points)) &&
      (reportOf H s (p.cpu.regs .rip)).toBool

theorem exactable_si {r : Except Halt (Debugger (List Bool))} (hs : r = .ok s)
    (hlook : r.map (steppableNow H) = .ok true) : Exactable H sampleInsn A s .si := by
  rw [hs, Except.map, Except.ok.injEq] at hlook
  unfold steppableNow at hlook
  split at hlook
  · cases hlook
  · rename_i p hp
    simp only [Bool.and_eq_true, Bool.or_eq_true, decide_eq_true_eq] at hlook
    obtain ⟨⟨hbp, hland⟩, hshown⟩ := hlook
    intro k hk
    obtain ⟨p', hp', hcpu, -⟩ := hk.tracee
    cases (hp.symm.trans hp'.tracee)
    rw [hcpu, hk.points, hk.ripNow] at hbp hland
    rw [hk.bpaddrNow] at hbp
    rw [hcpu] at hshown
    refine ⟨⟨hbp, fun hmoves d hd => ?_⟩, fun _ _ => ?_⟩
    · rcases hland with hstays | hland
      · exact absurd hmoves hstays
      · rw [show (⟨k.cpu.regs, unarmed k.points k.cpu.mem⟩ : Cpu) = k.unarmed from rfl, hd] at hland
        simpa using hland
    · cases hrep : reportOf H s (k.cpu.regs .rip) with
      | error e =>
          rw [hrep] at hshown
          cases hshown
      | ok r => exact ⟨r, rfl⟩

/-- To a breakpoint, its report, and the departure from it. -/
theorem single_steps_exact_nop : StepsExactly (sampleHost nopText 9) sampleInsn (sampleCpu nopText)
    (sampleStarted nopText 9) [.break "400001", .si, .si, .si] := by
  have hT : Text sampleInsn (sampleCpu nopText) {0x400001} :=
    sample_text_straight (by decide) (by
      intro a ha
      cases ha
      decide)
  refine single_steps_exact (s := sampleLoaded) (by decide) rfl rfl hT (sample_start nopText 9) ?_ ?_
  · intro c hc
    simp only [List.mem_cons, List.not_mem_nil, or_false] at hc
    rcases hc with rfl | rfl | rfl | rfl
    · exact .break _
    · exact .si
    · exact .si
    · exact .si
  · refine Along.of_prompts fun i s' c hs' hc => ?_
    match i with
    | 0 =>
        cases hc
        exact fun _ => by decide
    | 1 =>
        cases hc
        exact exactable_si hs' (by decide)
    | 2 =>
        cases hc
        exact exactable_si hs' (by decide)
    | 3 =>
        cases hc
        exact exactable_si hs' (by decide)
    | i + 4 => cases hc

/-- **`break` at a one-byte instruction and `si` twice**: the first `si` reports the breakpoint, the second one
    executes the instruction and leaves the tracee in front of it. The program writes no memory. -/
theorem si_does_neither :
    (∀ c d, sampleInsn c = .ok d → d.mem = c.mem) ∧
    (∀ c ∈ [Command.break "400000", .si, .si], Stepping c) ∧
    start (sampleHost carryText 9) sampleLoaded = .ok (sampleStarted carryText 9) ∧
      ¬ StepsExactly (sampleHost carryText 9) sampleInsn (sampleCpu carryText)
        (sampleStarted carryText 9) [.break "400000", .si, .si] := by
  refine ⟨fun c d => sample_keeps, ?_, rfl, ?_⟩
  · intro c hc
    simp only [List.mem_cons, List.not_mem_nil, or_false] at hc
    rcases hc with rfl | rfl | rfl
    · exact .break _
    · exact .si
    · exact .si
  · rintro ⟨f, -, hprompts, -⟩
    obtain ⟨s', hs', hrun, hnot⟩ := carry_not_native
    exact hnot (f 3) (hprompts 3 s' hs' hrun)

end AdvUnix.Sdb
