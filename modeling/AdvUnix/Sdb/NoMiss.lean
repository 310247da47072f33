import AdvUnix.Sdb.Transparency

/-!
# `Sdb.NoMiss` — where `cont` stops

The first **moment** after a state is the first one, at least one instruction later, with the instruction
pointer at a breakpoint. `cont` stops there and reports it, or runs to the exit when there is none
(`cont_moment`, `cont_ends`), provided that it starts from a breakpoint only when that is the one reported
last, and that the first moment is not at that breakpoint again: while the tracee runs on the resume path
its own breakpoint is lifted, and the line that writes it back behind the running tracee fails.
-/

namespace AdvUnix.Sdb

open StepMachine Debugger

variable {insn : Cpu → Except Byte Cpu} {fuel : Nat} {S : Site (List Bool)}
variable {c₀ c d : Cpu} {A : Set Addr} {P : List Addr} {n m : Nat} {k k' : Core}
variable {s s' s₁ : Debugger (List Bool)} {cmds : List Command} {code : Byte}

/-! ## Moments -/

/-- **The first moment** after `c`: `m` instructions later, in `d`. -/
structure Moment (insn : Cpu → Except Byte Cpu) (P : List Addr) (c : Cpu) (m : Nat) (d : Cpu) :
    Prop where
  pos : 0 < m
  reached : (machine insn).after m c = .ok d
  stands : d.regs .rip ∈ P
  first : ∀ j e, 0 < j → j < m → (machine insn).after j c = .ok e → e.regs .rip ∉ P

/-- **No moment comes**: the program exits after `m` instructions. -/
structure Ends (insn : Cpu → Except Byte Cpu) (P : List Addr) (c : Cpu) (m : Nat) (code : Byte) :
    Prop where
  exits : ∃ d, (machine insn).after m c = .ok d ∧ (machine insn).step d = .error code
  never : ∀ j e, 0 < j → j ≤ m → (machine insn).after j c = .ok e → e.regs .rip ∉ P

/-- A moment is preceded by a first one. -/
theorem exists_moment (hm : 0 < m) (hd : (machine insn).after m c = .ok d) (hin : d.regs .rip ∈ P) :
    ∃ j e, Moment insn P c j e := by
  induction m using Nat.strong_induction_on generalizing d with
  | _ m ih =>
    by_cases hearlier : ∃ j e, 0 < j ∧ j < m ∧ (machine insn).after j c = .ok e ∧ e.regs .rip ∈ P
    · obtain ⟨j, e, hj, hjm, he, hine⟩ := hearlier
      exact ih j hjm hj he hine
    · refine ⟨m, d, hm, hd, hin, fun j e hj hjm he hine => ?_⟩
      exact hearlier ⟨j, e, hj, hjm, he, hine⟩

/-- **No trap of its own**: up to the first moment, the program executes none. -/
def TrapFree (insn : Cpu → Except Byte Cpu) (P : List Addr) (c : Cpu) : Prop :=
  ∀ j d, (machine insn).after j c = .ok d →
    (∀ i e, 0 < i → i ≤ j → (machine insn).after i c = .ok e → e.regs .rip ∉ P) →
    ¬ (machine insn).AtTrap d

/-- **What `cont` has to do** at a prompt with the tracee `c`, the breakpoints read away: stop at the
    first moment and report it, run to the exit if none comes, and return in no other case. -/
def Continues (H : Host (List Bool)) (insn : Cpu → Except Byte Cpu) (fuel : Nat)
    (s : Debugger (List Bool)) : Prop :=
  ∀ p, s.Holds p → ∀ c, c = ⟨p.cpu.regs, unarmed s.points p.cpu.mem⟩ →
    (∀ m d, Moment insn (addrs s.points) c m d → m < fuel → ∃ s' p', cont H s = .ok s' ∧
      s'.state = .running ∧ s'.points = s.points ∧ s'.Holds p' ∧ p'.cpu.regs = d.regs ∧
      unarmed s'.points p'.cpu.mem = d.mem ∧ ∃ lines, s'.out = s.out ++ .reached :: lines) ∧
    (∀ m code, Ends insn (addrs s.points) c m code → m < fuel → ∃ s', cont H s = .ok s' ∧
      s'.state = .loaded ∧ s'.out = s.out ++ [.terminated s.child (256 * code.toNat)]) ∧
    ∀ s', cont H s = .ok s' → (∃ m d, Moment insn (addrs s.points) c m d) ∨
      ∃ m code, Ends insn (addrs s.points) c m code

/-- **What `cont` must be given.** It starts at a breakpoint only if that is the one reported last and
    nothing has lifted it since; the first moment is not at the breakpoint reported last; and the program
    has no trap of its own before it. -/
structure Core.Continuable (insn : Cpu → Except Byte Cpu) (k : Core) : Prop where
  stands : k.cpu.regs .rip ∈ addrs k.points →
    k.cpu.regs .rip = k.ripNow ∧ k.bpaddrNow = k.ripNow ∧ ¬ Core.Torn k.sched
  elsewhere : ∀ m d, Moment insn (addrs k.points) k.unarmed m d → d.regs .rip ≠ k.ripNow
  trapFree : TrapFree insn (addrs k.points) k.unarmed

theorem Core.Continuable.clean (h : k.Continuable insn) : k.Clean insn .cont := by
  intro j d hd hquiet hin hnow
  cases j with
  | zero =>
      cases hd
      obtain ⟨-, hbp, htorn⟩ := h.stands hin
      exact Or.inl ⟨hbp, fun _ => htorn⟩
  | succ j =>
      refine absurd hnow (h.elsewhere (j + 1) d ⟨Nat.succ_pos j, hd, hin, fun i e _ hi he => ?_⟩)
      obtain ⟨e', he', hout, -⟩ := hquiet i hi
      cases he'.symm.trans he
      exact hout

/-! ## The native run towards the moment -/

section Towards

variable (hT : Text insn c₀ A) (hc : (machine insn).after n c₀ = .ok c)

/-- Nothing stops the tracee before the moment, where the breakpoint it starts from is lifted. -/
theorem quiet_of_first (hfree : TrapFree insn P c) {Q : List Addr} (hQ : ∀ x ∈ Q, x ∈ P) (hstart : c.regs .rip ∉ Q)
    (hd : (machine insn).after m c = .ok d)
    (hfirst : ∀ j e, 0 < j → j < m → (machine insn).after j c = .ok e → e.regs .rip ∉ P) :
    (machine insn).Quiet Q m c := by
  intro j hj
  obtain ⟨i, rfl⟩ : ∃ i, m = j + i := ⟨m - j, by omega⟩
  obtain ⟨e, he⟩ := (machine insn).after_of_add hd
  refine ⟨e, he, ?_, hfree j e he fun i' e' hi' hij => hfirst i' e' hi' (by omega)⟩
  cases j with
  | zero =>
      cases he
      exact hstart
  | succ j => exact fun hx => hfirst (j + 1) e (Nat.succ_pos j) hj he (hQ _ hx)

include hT hc in
/-- **`cont` from the breakpoint that was reported last**: the resume path, with that breakpoint
    lifted. -/
theorem resume_standing (h : Native insn c₀ A n k) (hin : c.regs .rip ∈ addrs k.points)
    (hnow : c.regs .rip = k.ripNow) (hbp : k.bpaddrNow = k.ripNow) (hfuel : 0 < fuel) :
    ∃ b ∈ k.points, b.addr = k.ripNow ∧ k.resume insn fuel .cont =
      .next (nextReport insn fuel .cont ((machine insn).patched (others k.points b) c)) fun d =>
        .prompt ((k.settleOnPath .cont d).1.rearmed b.addr) (k.settleOnPath .cont d).2 := by
  have hcpu := h.cpu_eq hc
  have hrip := rip_trap insn (addrs k.points) c
  obtain ⟨b, hb, hbaddr, hagain, hset⟩ :=
    Core.settle_again (k := k) (hrip ▸ hin) (hnow.symm.trans hrip.symm)
  have hsame : ({ k with cpu := (machine insn).patched (addrs k.points) c } : Core) = k := by
    rw [← hcpu]
  rw [rewound_trap, hsame] at hset
  have hfirst : nextReport insn fuel .cont k.cpu
      = some (.ok ((machine insn).pastTrap ((machine insn).patched (addrs k.points) c))) := by
    rw [hcpu]
    exact Machine.runTrap_of_first hT.toUndisturbed hc h.inside rfl Machine.quiet_zero (Or.inl hin) hfuel
  refine ⟨b, hb, hbaddr, ?_⟩
  rw [Core.resume, hfirst]
  simp only [Course.next, Core.stopCourse, hagain, hset]
  exact path_lifted hT h hc hb (hbp.trans hbaddr.symm)

include hT hc in
/-- **`cont` stops at the first moment.** -/
theorem cont_moment (h : Native insn c₀ A n k) (hk : k.Continuable insn)
    (hm : Moment insn (addrs k.points) c m d) (hfuel : m < fuel) :
    ∃ k', k.resume insn fuel .cont = .prompt k' (some (d.regs .rip)) ∧ k'.points = k.points ∧
      k'.cpu = (machine insn).patched (addrs k.points) d := by
  have hun := h.unarmed_eq hT hc
  have hcpu := h.cpu_eq hc
  have hne : k.ripNow ≠ d.regs .rip := fun he => hk.elsewhere m d (by rw [hun]; exact hm) he.symm
  have hd : (machine insn).after (n + m) c₀ = .ok d := by rw [(machine insn).after_add hc, hm.reached]
  have hfree := hk.trapFree
  rw [hun] at hfree
  by_cases hin : c.regs .rip ∈ addrs k.points
  · obtain ⟨hnow, hbp, htorn⟩ := hk.stands (by rw [hcpu]; exact hin)
    rw [show k.cpu.regs = c.regs by rw [hcpu]; rfl] at hnow
    obtain ⟨b, hb, hbaddr, hresume⟩ := resume_standing hT hc h hin hnow hbp (by omega : 0 < fuel)
    have hquiet := quiet_of_first hfree (fun x hx => (mem_others.mp hx).1)
      (fun hx => (mem_others.mp hx).2 (hnow.trans hbaddr.symm)) hm.reached hm.first
    have hstops : d.regs .rip ∈ others k.points b :=
      mem_others.mpr ⟨hm.stands, fun he => hne (hbaddr.symm.trans he.symm)⟩
    have hnext : nextReport insn fuel .cont ((machine insn).patched (others k.points b) c)
        = some (.ok ((machine insn).pastTrap ((machine insn).patched (others k.points b) d))) :=
      Machine.runTrap_of_first hT.toUndisturbed hc (others_inside h b) hm.reached hquiet (Or.inl hstops)
        hfuel
    obtain ⟨-, hon, hpoints⟩ := settleOnPath_trap insn .cont k d.regs
      (patch (some int3) (others k.points b) d.mem)
    -- the lifted breakpoint is written back when the others have been run up to the moment
    have hrearm : replaced everywhere (k.behind .cont (patch (some int3) (others k.points b) d.mem)) b.addr int3
        = armed k.points d.mem := rearm hT h hd hb (hbp.trans hbaddr.symm) (fun _ => htorn)
    have hrep : (k.settleOnPath .cont ((machine insn).pastTrap
        ((machine insn).patched (others k.points b) d))).2 = some (d.regs .rip) := by
      have hrip : (machine insn).past d.regs .rip - 1 = d.regs .rip := rip_past d.regs
      obtain ⟨-, hset⟩ := Core.settle_report (k := k.resumed .cont)
        (d := ⟨(machine insn).past d.regs, k.behind .cont (patch (some int3) (others k.points b) d.mem)⟩)
        (by rw [hrip]; exact hm.stands) (by rw [hrip]; exact hne)
      exact (congrArg Prod.snd hset).trans (congrArg some hrip)
    have hcpu' : (k.settleOnPath .cont ((machine insn).pastTrap
        ((machine insn).patched (others k.points b) d))).1.cpu = _ := hon hm.stands
    have hprompt : k.resume insn fuel .cont = .prompt ((k.settleOnPath .cont ((machine insn).pastTrap
        ((machine insn).patched (others k.points b) d))).1.rearmed b.addr) (some (d.regs .rip)) := by
      rw [hresume, hnext]
      exact congrArg (Course.prompt _) hrep
    refine ⟨_, hprompt, hpoints, ?_⟩
    rw [Core.rearmed, hcpu', hrearm]
    rfl
  · -- from elsewhere all breakpoints are in memory, and there is no resume path
    have hquiet := quiet_of_first hfree (fun x hx => hx) hin hm.reached hm.first
    have hnext : nextReport insn fuel .cont k.cpu
        = some (.ok ((machine insn).pastTrap ((machine insn).patched (addrs k.points) d))) := by
      rw [hcpu]
      exact Machine.runTrap_of_first hT.toUndisturbed hc h.inside hm.reached hquiet (Or.inl hm.stands)
        hfuel
    have hrip := rip_trap insn (addrs k.points) d
    obtain ⟨hagain, hset⟩ := Core.settle_report (k := k) (hrip ▸ hm.stands) (by rw [hrip]; exact hne)
    rw [rewound_trap, hrip] at hset
    have hprompt : k.resume insn fuel .cont = .prompt { k with
        cpu := (machine insn).patched (addrs k.points) d
        ripNow := d.regs .rip
        bpaddrNow := d.regs .rip } (some (d.regs .rip)) := by
      rw [Core.resume, hnext]
      simp only [Course.next, Core.stopCourse, hagain, hset]
    exact ⟨_, hprompt, rfl, rfl⟩

include hT hc in
/-- **`cont` runs to the exit** when no moment comes. -/
theorem cont_ends (h : Native insn c₀ A n k) (hk : k.Continuable insn)
    (hm : Ends insn (addrs k.points) c m code) (hfuel : m < fuel) :
    k.resume insn fuel .cont = .exit code := by
  have hcpu := h.cpu_eq hc
  have hfree := hk.trapFree
  rw [h.unarmed_eq hT hc] at hfree
  obtain ⟨d, hd, hexit⟩ := hm.exits
  have htd : ¬ (machine insn).AtTrap d := hfree m d hd fun i e hi him => hm.never i e hi him
  rw [(machine insn).step_insn htd] at hexit
  -- on the way to the exit no breakpoint of `Q` is met, unless the run starts on one
  have hnever : ∀ {Q : List Addr}, (∀ x ∈ Q, x ∈ addrs k.points) → c.regs .rip ∉ Q →
      (machine insn).Quiet Q (m + 1) c := by
    intro Q hQ hstart j hj
    by_cases hlast : j = m
    · subst hlast
      refine ⟨d, hd, fun hx => ?_, htd⟩
      cases j with
      | zero =>
          cases hd
          exact hstart hx
      | succ j => exact hm.never (j + 1) d (Nat.succ_pos j) (Nat.le_refl _) hd (hQ _ hx)
    · have hfirst := fun j e hj hjm he => hm.never j e hj (Nat.le_of_lt hjm) he
      exact quiet_of_first hfree hQ hstart hd hfirst j (by omega)
  by_cases hin : c.regs .rip ∈ addrs k.points
  · obtain ⟨hnow, hbp, -⟩ := hk.stands (by rw [hcpu]; exact hin)
    rw [show k.cpu.regs = c.regs by rw [hcpu]; rfl] at hnow
    obtain ⟨b, hb, hbaddr, hresume⟩ := resume_standing hT hc h hin hnow hbp (by omega : 0 < fuel)
    have hquiet := hnever (fun x hx => (mem_others.mp hx).1)
      (fun hx => (mem_others.mp hx).2 (hnow.trans hbaddr.symm))
    have hnext : nextReport insn fuel .cont ((machine insn).patched (others k.points b) c)
        = some (.error code) :=
      Machine.runTrap_of_end hT.toUndisturbed hc (others_inside h b) hd hquiet hexit hfuel
    rw [hresume, hnext]
    rfl
  · have hquiet := hnever (fun x hx => hx) hin
    have hnext : nextReport insn fuel .cont k.cpu = some (.error code) := by
      rw [hcpu]
      exact Machine.runTrap_of_end hT.toUndisturbed hc h.inside hd hquiet hexit hfuel
    rw [Core.resume, hnext]
    rfl

include hT hc in
/-- A tracee that stops or exits, from anywhere but a breakpoint in `Q`, has come to a moment or to its
    end. -/
theorem moment_or_end (hfree : TrapFree insn P c) {Q : List Addr} (hQ : ∀ x ∈ Q, x ∈ P) (hQA : ∀ x ∈ Q, x ∈ A)
    (hstart : c.regs .rip ∉ Q) {r : Except Byte Cpu}
    (hr : nextReport insn fuel .cont ((machine insn).patched Q c) = some r) :
    (∃ m d, Moment insn P c m d) ∨ ∃ m code, Ends insn P c m code := by
  obtain ⟨j, d, hj, -, hend⟩ := Machine.runTrap_patched hT.toUndisturbed hc hQA hr
  by_cases hearlier : ∃ i e, 0 < i ∧ i ≤ j ∧ (machine insn).after i c = .ok e ∧ e.regs .rip ∈ P
  · obtain ⟨i, e, hi, -, he, hine⟩ := hearlier
    exact Or.inl (exists_moment hi he hine)
  · have hnever : ∀ i e, 0 < i → i ≤ j → (machine insn).after i c = .ok e → e.regs .rip ∉ P :=
      fun i e hi hij he hine => hearlier ⟨i, e, hi, hij, he, hine⟩
    have htd := hfree j d hj hnever
    rcases hend with ⟨hwhere, -⟩ | ⟨code, -, -, hexit, -⟩
    · -- a stop at a breakpoint other than the first instruction's would have been a moment
      have hin := hwhere.resolve_right htd
      cases j with
      | zero =>
          cases hj
          exact absurd hin hstart
      | succ j => exact absurd (hQ _ hin) (hnever (j + 1) d (Nat.succ_pos j) (Nat.le_refl _) hj)
    · exact Or.inr ⟨j, code, ⟨d, hj, by rw [(machine insn).step_insn htd]; exact hexit⟩, hnever⟩

include hT hc in
/-- **`cont` returns in no other case.** -/
theorem cont_returns (h : Native insn c₀ A n k) (hk : k.Continuable insn)
    (hr : k.resume insn fuel .cont ≠ .forever) :
    (∃ m d, Moment insn (addrs k.points) c m d) ∨ ∃ m code, Ends insn (addrs k.points) c m code := by
  have hcpu := h.cpu_eq hc
  have hfree := hk.trapFree
  rw [h.unarmed_eq hT hc] at hfree
  have hnext : ∀ {r : Option (Except Byte Cpu)} {stop : Cpu → Course}, Course.next r stop ≠ .forever →
      ∃ x, r = some x := by
    intro r stop hne
    cases r with
    | none => exact absurd rfl hne
    | some x => exact ⟨x, rfl⟩
  by_cases hin : c.regs .rip ∈ addrs k.points
  · obtain ⟨hnow, hbp, -⟩ := hk.stands (by rw [hcpu]; exact hin)
    rw [show k.cpu.regs = c.regs by rw [hcpu]; rfl] at hnow
    -- without fuel the first instruction would not have reported
    have hfuel : 0 < fuel := by
      obtain ⟨x, hx⟩ := hnext hr
      rcases Nat.eq_zero_or_pos fuel with rfl | hpos
      · cases hx
      · exact hpos
    obtain ⟨b, hb, hbaddr, hresume⟩ := resume_standing hT hc h hin hnow hbp hfuel
    rw [hresume] at hr
    obtain ⟨x, hx⟩ := hnext hr
    exact moment_or_end hT hc hfree (fun x hx => (mem_others.mp hx).1) (others_inside h b)
      (fun hx => (mem_others.mp hx).2 (hnow.trans hbaddr.symm)) hx
  · obtain ⟨x, hx⟩ := hnext hr
    rw [hcpu] at hx
    exact moment_or_end hT hc hfree (fun x hx => hx) h.inside hin hx

end Towards

/-! ## Sessions -/

/-- **What a step of a session must be given** for no breakpoint to be missed. -/
def MissFree (H : Host (List Bool)) (insn : Cpu → Except Byte Cpu) (A : Set Addr)
    (s : Debugger (List Bool)) : Command → Prop
  | .cont => (∀ k, Shows s k → k.Continuable insn) ∧ ∀ q ∈ s.points, ∃ r, reportOf H s q.addr = .ok r
  | cmd => CleanCommand insn A s cmd

theorem MissFree.clean {H : Host (List Bool)} {cmd : Command} (h : MissFree H insn A s cmd) :
    CleanCommand insn A s cmd := by
  cases cmd with
  | cont => exact fun k hk => (h.1 k hk).clean
  | _ => exact h

theorem continues_onRun (hT : Text insn c₀ A) (hon : OnRun insn c₀ A n s)
    (hfree : MissFree (hosted insn fuel S) insn A s .cont) :
    Continues (hosted insn fuel S) insn fuel s := by
  intro p hp c hcp
  obtain ⟨hcont, hshown⟩ := hfree
  obtain ⟨c', hc, hov, hregs, hin, -⟩ := hon.overlay hT
  obtain ⟨k, hk, hn⟩ := hon
  -- the state that `Continues` reads off the tracee is the native one
  have hcc : c = c' := by
    obtain ⟨p', hp', hmem⟩ := hov.tracee
    cases hp.unique hp'
    rw [hcp, hregs p hp, hmem, unarmed_armed hov.placed]
  subst hcc
  have hfollow := cont_course insn fuel S hk
  rw [hk.points]
  refine ⟨?_, ?_, ?_⟩
  · intro m d hm hfuel
    obtain ⟨k', hprompt, hpoints, hcpu⟩ := cont_moment hT hc hn (hcont k hk) hm hfuel
    rw [hprompt] at hfollow
    cases hcont' : cont (hosted insn fuel S) s with
    | error e =>
        rw [hcont'] at hfollow
        obtain ⟨a, ha, he⟩ := hfollow
        obtain ⟨q, hq, hqa⟩ := List.mem_map.mp hm.stands
        rw [← hk.points] at hq
        obtain ⟨r, hr⟩ := hshown q hq
        cases ha
        rw [← hqa, hr] at he
        cases he
    | ok s' =>
        rw [hcont'] at hfollow
        obtain ⟨hshows, -, code, lines, -, hout, -⟩ := hfollow
        obtain ⟨p', hp', hpcpu, -⟩ := hshows.tracee
        have hd : (machine insn).after (n + m) c₀ = .ok d := by
          rw [(machine insn).after_add hc, hm.reached]
        have hmem : p'.cpu.mem = armed k.points d.mem := by rw [hpcpu, hcpu]; rfl
        refine ⟨s', p', rfl, hshows.running, hshows.points.trans hpoints, hp', by rw [hpcpu, hcpu]; rfl, ?_,
          lines, hout⟩
        rw [hshows.points, hpoints, hmem, unarmed_armed (hn.placed_at hT hd)]
  · intro m code hm hfuel
    rw [cont_ends hT hc hn (hcont k hk) hm hfuel] at hfollow
    obtain ⟨s', hs', hex⟩ := hfollow
    exact ⟨s', hs', hex.loaded, hex.out⟩
  · intro s' hs'
    have hreturns : k.resume insn fuel .cont ≠ .forever := by
      intro hforever
      rw [hforever, hs'] at hfollow
      cases hfollow
    exact cont_returns hT hc hn (hcont k hk) hreturns

/-- **No breakpoint is missed.** After `start`, in every session of these commands whose steps are given
    what they need, `cont` at the next prompt of the running program does what it has to do. -/
theorem no_breakpoint_missed {file : Inode} {sched : List Bool} (hstate : s.state ≠ .others)
    (hfile : S.execvp (execPath s.program) = some file) (himage : S.image file = some (c₀, sched))
    (hT : Text insn c₀ A) (hstart : start (hosted insn fuel S) s = .ok s₁) (hcmds : ∀ c ∈ cmds, Watching c)
    (hfree : Along (hosted insn fuel S) (MissFree (hosted insn fuel S) insn A) s₁ (cmds ++ [.cont]))
    (hs' : execAll (hosted insn fuel S) s₁ cmds = .ok s') (hrun : s'.state = .running) :
    Continues (hosted insn fuel S) insn fuel s' := by
  obtain ⟨hpre, hlast⟩ := hfree.of_snoc hs'
  have hon : OnRun insn c₀ A 0 s₁ := onRun_start hstate hfile himage hstart
  obtain ⟨f, -, -, hprompts⟩ := native_run hT hcmds (hpre.mono fun _ _ => MissFree.clean) fun _ => hon
  have hlen := hprompts cmds.length s' (by rw [List.take_length]; exact hs') hrun
  exact continues_onRun hT hlen hlast

/-- On the native run of a program that never executes a trap there is none before the next moment. -/
theorem OnRun.trapFree (hT : Text insn c₀ A)
    (hnt : ∀ n c, (machine insn).after n c₀ = .ok c → ¬ (machine insn).AtTrap c) (h : OnRun insn c₀ A n s)
    (hk : Shows s k) : TrapFree insn P k.unarmed := by
  obtain ⟨c, hc, hov, hregs, -, -⟩ := h.overlay hT
  obtain ⟨p, hp, hcpu, -⟩ := hk.tracee
  have hun : k.unarmed = c := by
    obtain ⟨p', hp', hmem⟩ := hov.tracee
    cases hp.unique hp'
    unfold Core.unarmed
    rw [← hcpu, ← hk.points, hregs p hp, hmem, unarmed_armed hov.placed]
  rw [hun]
  intro j d hj _
  exact hnt (n + j) d (by rw [(machine insn).after_add hc, hj])

/-- A session with a breakpoint ahead. -/
theorem no_breakpoint_missed_nop : ∃ s',
    execAll (sampleHost nopText 9) (sampleStarted nopText 9) [.break "400001"] = .ok s' ∧
      Continues (sampleHost nopText 9) sampleInsn 9 s' := by
  have hT : Text sampleInsn (sampleCpu nopText) {0x400001} :=
    sample_text_straight (by decide) (by
      intro a ha
      cases ha
      decide)
  have hlook : steering (exec (sampleHost nopText 9) (sampleStarted nopText 9) (.break "400001"))
      = .ok (.running, [0x400001], 0, 0, some 0x400000) := by decide
  have hshown : (exec (sampleHost nopText 9) (sampleStarted nopText 9) (.break "400001")).map
      (fun s => s.points.all fun q => (reportOf (sampleHost nopText 9) s q.addr).toBool)
        = .ok true := by decide
  cases hs' : exec (sampleHost nopText 9) (sampleStarted nopText 9) (.break "400001") with
  | error e =>
      rw [hs'] at hlook
      cases hlook
  | ok s' =>
      rw [hs'] at hlook hshown
      simp only [Except.map, Except.ok.injEq] at hshown
      have hrun : s'.state = .running := congrArg Prod.fst (Except.ok.inj hlook)
      have hall : execAll (sampleHost nopText 9) (sampleStarted nopText 9) [.break "400001"] = .ok s' :=
        execAll_cons hs' []
      have hwatch : ∀ c ∈ [Command.break "400001"], Watching c := by
        intro c hc
        cases List.mem_singleton.mp hc
        exact .break _
      have hin : CleanCommand sampleInsn {0x400001} (sampleStarted nopText 9) (.break "400001") :=
        fun _ => by decide
      refine ⟨s', hall, no_breakpoint_missed (s := sampleLoaded) (by decide) rfl rfl hT
        (sample_start nopText 9) hwatch ⟨hin, ?_⟩ hall hrun⟩
      intro s₂ hs₂
      cases hs'.symm.trans hs₂
      refine ⟨⟨fun k hk => ?_, fun q hq => ?_⟩, fun _ _ => trivial⟩
      · simp only [hk.steering rfl, Except.ok.injEq, Prod.mk.injEq, Option.some.injEq] at hlook
        obtain ⟨-, hpoints, hripNow, -, hrip⟩ := hlook
        refine ⟨fun hstands => ?_, fun m d hm hnow => ?_, ?_⟩
        · -- the tracee is at its first instruction
          rw [hpoints, hrip] at hstands
          exact absurd hstands (by decide)
        · -- nothing has been reported yet
          have hmoment := hm.stands
          rw [hnow, hripNow, hpoints] at hmoment
          exact absurd hmoment (by decide)
        · have hstarted : OnRun sampleInsn (sampleCpu nopText) {0x400001} 0 (sampleStarted nopText 9) :=
            onRun_start (s := sampleLoaded) (by decide) rfl rfl (sample_start nopText 9)
          obtain ⟨m, -, hon⟩ := exec_native hT hstarted (.break _) hin hs' hrun
          exact hon.trapFree hT (fun n c => sample_trap_free (by decide)) hk
      · have hq := List.all_eq_true.mp hshown q hq
        cases hrep : reportOf (sampleHost nopText 9) s' q.addr with
        | error e =>
            rw [hrep] at hq
            cases hq
        | ok r => exact ⟨r, hrep⟩

/-! ## A breakpoint that is missed -/

/-- `nop`, then a `jmp` to itself. -/
def loopText : List Byte := [0x90, 0xeb, 0xfe, 0, 0, 0, 0, 0, 0]

/-- The address of the tracee's next instruction but one in the native execution. -/
def peekNext (s : Debugger (List Bool)) : Option Addr :=
  s.tracee.bind fun p =>
    match (machine sampleInsn).step ⟨p.cpu.regs, unarmed s.points p.cpu.mem⟩ with
    | .ok d => some (d.regs .rip)
    | .error _ => none

/-- `cont` at the breakpoint that was reported last runs through it: its trap is lifted while the tracee
    runs, and the loop comes back to it at once. -/
theorem cont_misses_breakpoint :
    (∀ c d, sampleInsn c = .ok d → d.mem = c.mem) ∧
    start (sampleHost loopText 9) sampleLoaded = .ok (sampleStarted loopText 9) ∧
      ∃ s', execAll (sampleHost loopText 9) (sampleStarted loopText 9) [.break "400001", .cont] = .ok s' ∧
        s'.state = .running ∧ ¬ Continues (sampleHost loopText 9) sampleInsn 9 s' := by
  refine ⟨fun c d => sample_keeps, rfl, ?_⟩
  have hlook : (execAll (sampleHost loopText 9) (sampleStarted loopText 9) [.break "400001", .cont]).map
      (fun s => (s.state, addrs s.points, peekNext s, s.tracee.map fun p => p.phase))
        = .ok (.running, [0x400001], some 0x400001, some .stopped) := by decide
  have hblocked : ((execAll (sampleHost loopText 9) (sampleStarted loopText 9)
      [.break "400001", .cont]).bind (cont (sampleHost loopText 9))).map (fun s => s.state)
        = .error .blocked := by decide
  cases hs' : execAll (sampleHost loopText 9) (sampleStarted loopText 9) [.break "400001", .cont] with
  | error e =>
      rw [hs'] at hlook
      cases hlook
  | ok s' =>
      rw [hs'] at hlook hblocked
      simp only [Except.map, Except.ok.injEq, Prod.mk.injEq] at hlook
      obtain ⟨hrun, hpoints, hnext, hphase⟩ := hlook
      refine ⟨s', rfl, hrun, fun hcontinues => ?_⟩
      obtain ⟨p, hp, hstopped⟩ := Option.map_eq_some_iff.mp hphase
      obtain ⟨hmoment, -⟩ := hcontinues p ⟨hp, hstopped⟩ _ rfl
      rw [peekNext, hp, Option.bind_some] at hnext
      cases hstep : (machine sampleInsn).step ⟨p.cpu.regs, unarmed s'.points p.cpu.mem⟩ with
      | error e =>
          rw [hstep] at hnext
          cases hnext
      | ok d =>
          rw [hstep] at hnext
          have hd : d.regs .rip = 0x400001 := Option.some.inj hnext
          have hm : Moment sampleInsn (addrs s'.points) ⟨p.cpu.regs, unarmed s'.points p.cpu.mem⟩ 1 d :=
            { pos := Nat.one_pos
              reached := by rw [(machine sampleInsn).after_one, hstep]
              stands := by
                rw [hd, hpoints]
                decide
              first := fun j e hj hj1 => by omega }
          obtain ⟨s₂, p₂, hs₂, -⟩ := hmoment 1 d hm (by decide)
          rw [Except.bind, hs₂] at hblocked
          cases hblocked

end AdvUnix.Sdb
