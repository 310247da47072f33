import AdvUnix.Sdb.Sample

/-!
# `Sdb.Restore` — the byte that a resume restores

`check_stop` returns `1` at the breakpoint in `rip_now`; `cont` and `si` then write the byte in `restore`
to `bpaddr_now`. Nothing ties the three globals together: `set` moves `rip_now` alone, a resume clears
`bpaddr_now` alone, and `delete` forgets neither. Here the registers of the tracee may be set to anything
at any prompt, so it is on no native run; what is left is its text, which it does not write.

* `restores_right_byte` — where the globals agree at each resume, the right byte goes to the right place
  and the text is intact at every prompt.
* `restores_wrong_byte` — where they do not.
-/

namespace AdvUnix.Sdb

open ByteStore StepMachine Debugger

variable {insn : Cpu → Except Byte Cpu} {fuel : Nat} {S : Site (List Bool)} {how : Resume}
variable {M : Mem} {T : Set Addr} {k k' : Core} {c d : Cpu} {points : List Breakpoint} {a : Addr}
variable {s s' : Debugger (List Bool)} {cmds : List Command}

/-! ## Words of text -/

/-- All bytes of the word at `a` are in `T`. -/
def WordIn (T : Set Addr) (a : Addr) : Prop := ∀ i < 8, a + BitVec.ofNat 64 i ∈ T

theorem WordIn.mem (h : WordIn T a) : a ∈ T := by
  have h0 := h 0 (by decide)
  rwa [show a + BitVec.ofNat 64 0 = a by bv_omega] at h0

theorem WordIn.peek {m : Mem} (h : WordIn T a) (hm : ∀ x ∈ T, (m x).isSome) : (Mem.peek m a).isSome := by
  have hall : ∀ l : List Addr, (∀ x ∈ l, x ∈ T) → (allSome (l.map m)).isSome := by
    intro l hl
    induction l with
    | nil => rfl
    | cons x l ih =>
        obtain ⟨b, hb⟩ := Option.isSome_iff_exists.mp (hm x (hl x List.mem_cons_self))
        obtain ⟨bs, hbs⟩ := Option.isSome_iff_exists.mp (ih fun y hy => hl y (List.mem_cons_of_mem x hy))
        simp [allSome, hb, hbs]
  have hword := hall ((List.range 8).map fun i => a + BitVec.ofNat 64 i) (by
    intro x hx
    obtain ⟨i, hi, rfl⟩ := List.mem_map.mp hx
    exact h i (List.mem_range.mp hi))
  simpa [Mem.peek, ByteStore.read, Function.comp_def] using hword

/-! ## Intact text -/

/-- **The text `T` of `M` is intact**: it has the breakpoints of the table in it and is otherwise as
    in `M`. -/
structure Core.Intact (M : Mem) (T : Set Addr) (k : Core) : Prop where
  bytes : ∀ a ∈ T, k.cpu.mem a = armed k.points M a
  placed : Placed M k.points
  inside : ∀ q ∈ k.points, WordIn T q.addr

theorem Core.Intact.of_same (h : k.Intact M T) (hpoints : k'.points = k.points)
    (hmem : ∀ a ∈ T, k'.cpu.mem a = k.cpu.mem a) : k'.Intact M T where
  bytes := by
    intro a ha
    rw [hmem a ha, hpoints]
    exact h.bytes a ha
  placed := by
    rw [hpoints]
    exact h.placed
  inside := by
    rw [hpoints]
    exact h.inside

/-- The original bytes under a table that is placed are its own. -/
theorem Placed.unarmed (h : Placed M points) (m : Mem) : Placed (unarmed points m) points where
  nodup := h.nodup
  ori := by
    intro q hq
    unfold Sdb.unarmed
    cases hfind : points.find? fun b => b.addr = q.addr with
    | none => exact absurd (List.find?_eq_none.mp hfind q hq) (by simp)
    | some b =>
        have haddr : b.addr = q.addr := by simpa using List.find?_some hfind
        have hb := h.ori b (List.mem_of_find?_eq_some hfind)
        rw [haddr, h.ori q hq] at hb
        exact hb.symm

theorem armed_unarmed {m : Mem} (h : ∀ a ∈ addrs points, m a = some int3) :
    armed points (unarmed points m) = m := by
  funext a
  unfold armed
  by_cases ha : a ∈ addrs points
  · rw [patch_mem ha, h a ha]
  · rw [patch_not_mem ha]
    unfold unarmed
    cases hfind : points.find? fun b => b.addr = a with
    | none => rfl
    | some b =>
        have haddr : b.addr = a := by simpa using List.find?_some hfind
        exact absurd (haddr ▸ mem_addrs (List.mem_of_find?_eq_some hfind)) ha

/-- Read through its breakpoints, an intact text is the original one. -/
theorem Core.Intact.unarmed_eq (h : k.Intact M T) (ha : a ∈ T) :
    Sdb.unarmed k.points k.cpu.mem a = M a := by
  unfold Sdb.unarmed
  cases hfind : k.points.find? fun b => b.addr = a with
  | none =>
      rw [h.bytes a ha]
      refine patch_not_mem fun hin => ?_
      obtain ⟨b, hb, haddr⟩ := List.mem_map.mp hin
      exact absurd haddr (by simpa using List.find?_eq_none.mp hfind b hb)
  | some b =>
      have haddr : b.addr = a := by simpa using List.find?_some hfind
      rw [← haddr]
      exact (h.placed.ori b (List.mem_of_find?_eq_some hfind)).symm

theorem Core.Intact.overlay (h : k.Intact M T) (hk : Shows s k) :
    Overlay (Sdb.unarmed k.points k.cpu.mem) s := by
  obtain ⟨p, hp, hcpu, -⟩ := hk.tracee
  refine ⟨hk.running, ?_, p, hp, ?_⟩
  · rw [hk.points]
    exact h.placed.unarmed _
  · rw [hk.points, hcpu, armed_unarmed]
    intro a ha
    obtain ⟨q, hq, rfl⟩ := List.mem_map.mp ha
    rw [h.bytes _ (h.inside q hq).mem]
    exact patch_mem ha

/-! ## Resuming -/

/-- **What a resume must be given.** Where the tracee's next stop is one byte past the breakpoint in
    `rip_now`, `bpaddr_now` is that breakpoint too; `si` has trapped there; and the write behind the
    tracee of `cont` is not torn. -/
def Core.Restorable (insn : Cpu → Except Byte Cpu) (fuel : Nat) (k : Core) (how : Resume) : Prop :=
  ∀ d, nextReport insn fuel how k.cpu = some (.ok d) → d.regs .rip - 1 ∈ addrs k.points →
    d.regs .rip - 1 = k.ripNow → k.bpaddrNow = k.ripNow ∧
      (how = .step → k.cpu.regs .rip = k.ripNow) ∧ (how = .cont → ¬ Core.Torn k.sched)

theorem nextReport_kept (hT : (machine insn).ReadOnly T) (h : nextReport insn fuel how c = some (.ok d)) :
    ∀ a ∈ T, d.mem a = c.mem a := by
  cases how with
  | cont => exact hT.runTrap h
  | step => exact hT.step (Option.some.inj h)

theorem Core.settle_mem (k : Core) (d : Cpu) :
    (k.settle d).1.cpu.mem = d.mem ∧ (k.settle d).1.points = k.points := by
  unfold Core.settle
  cases hit k.points d.regs with
  | none => exact ⟨rfl, rfl⟩
  | some b =>
      by_cases hnow : k.ripNow = b.addr
      · simp only [if_pos hnow, and_self]
      · simp only [if_neg hnow, and_self]

/-- The trap written back behind a tracee that keeps its text. -/
theorem behind_rearmed {m : Mem} (hm : (Mem.peek m k.bpaddrNow).isSome)
    (htorn : how = .cont → ¬ Core.Torn k.sched) :
    replaced everywhere (k.behind how m) k.bpaddrNow int3 = Function.update m k.bpaddrNow (some int3) := by
  cases how with
  | cont => exact Core.replaced_inFlight (htorn rfl) hm
  | step => exact replaced_mapped hm rfl int3

/-- **The resume path keeps the text**, when it is taken for the breakpoint in `bpaddr_now`. -/
theorem path_intact (hT : (machine insn).ReadOnly T) (hmapped : ∀ x ∈ T, (M x).isSome)
    (h : k.Intact M T) {b : Breakpoint} (hb : b ∈ k.points) (haddr : k.bpaddrNow = b.addr)
    (htorn : how = .cont → ¬ Core.Torn k.sched) {rep : Option Addr}
    (hr : k.path insn fuel how b.ori = .prompt k' rep) : k'.Intact M T := by
  -- breakpoints map nothing and unmap nothing
  have hsome : ∀ x ∈ T, (k.cpu.mem x).isSome := by
    intro x hx
    rw [h.bytes x hx, h.placed.armed_isSome]
    exact hmapped x hx
  have hword := h.inside b hb
  rw [Core.path, haddr, replaced_mapped (hword.peek hsome) rfl] at hr
  obtain ⟨e, he, hstop⟩ := Course.next_prompt hr
  have hk' := (Course.prompt.inj hstop).1.symm
  -- the tracee has kept the text with its breakpoint lifted
  have hkept : ∀ x ∈ T, e.mem x = Function.update k.cpu.mem b.addr (some b.ori) x := nextReport_kept hT he
  have hesome : ∀ x ∈ T, (e.mem x).isSome := by
    intro x hx
    rw [hkept x hx]
    by_cases hxa : x = b.addr
    · rw [hxa, Function.update_self]
      rfl
    · rw [Function.update_of_ne hxa]
      exact hsome x hx
  obtain ⟨hmem, hpoints⟩ := (k.resumed how).settle_mem ⟨e.regs, k.behind how e.mem⟩
  have hrearmed : k'.cpu.mem = Function.update e.mem b.addr (some int3) := by
    rw [hk', Core.rearmed]
    show replaced everywhere (k.settleOnPath how e).1.cpu.mem b.addr int3 = _
    rw [Core.settleOnPath, hmem, ← haddr]
    refine behind_rearmed ?_ htorn
    rw [haddr]
    exact hword.peek hesome
  refine h.of_same ?_ fun x hx => ?_
  · rw [hk']
    exact hpoints.trans (Core.resumed_points how k)
  · rw [hrearmed]
    by_cases hxa : x = b.addr
    · rw [hxa, Function.update_self, h.bytes _ hword.mem]
      exact (patch_mem (mem_addrs hb)).symm
    · rw [Function.update_of_ne hxa, hkept x hx, Function.update_of_ne hxa]

/-- **`cont` and `si` keep the text**, when they are given what they need. -/
theorem resume_intact (hT : (machine insn).ReadOnly T) (hmapped : ∀ x ∈ T, (M x).isSome)
    (h : k.Intact M T) (hclean : k.Restorable insn fuel how) {rep : Option Addr}
    (hr : k.resume insn fuel how = .prompt k' rep) : k'.Intact M T := by
  obtain ⟨d, hd, hstop⟩ := Course.next_prompt hr
  obtain ⟨hmem, hpoints⟩ := k.settle_mem d
  -- the tracee has kept the text, and settling a stop writes no memory
  have hsettled : (k.settle d).1.Intact M T := by
    refine h.of_same hpoints fun x hx => ?_
    rw [hmem, nextReport_kept hT hd x hx]
  unfold Core.stopCourse at hstop
  cases hagain : k.again d with
  | none =>
      rw [hagain] at hstop
      rw [← (Course.prompt.inj hstop).1]
      exact hsettled
  | some b =>
      rw [hagain] at hstop
      obtain ⟨hhit, hnow, hset⟩ := Core.settle_of_again hagain
      have hrip : d.regs .rip - 1 = k.ripNow := (hit_addr hhit).symm.trans hnow.symm
      have hin : d.regs .rip - 1 ∈ addrs k.points := by
        rw [← hit_addr hhit]
        exact mem_addrs (hit_mem hhit)
      obtain ⟨hbp, -, htorn⟩ := hclean d hd hin hrip
      rw [hset] at hsettled hstop
      exact path_intact hT hmapped hsettled (hit_mem hhit) (hbp.trans hnow) htorn hstop

/-! ## What a resume restores -/

/-- The tracee, resumed in `c`, executes its first `int3` at `a`; a single step executes it at once. -/
def TrapsAt (insn : Cpu → Except Byte Cpu) (how : Resume) (c : Cpu) (a : Addr) : Prop :=
  ∃ j e, (how = .step → j = 0) ∧ (machine insn).after j c = .ok e ∧
    (∀ i b, i < j → (machine insn).after i c = .ok b → ¬ (machine insn).AtTrap b) ∧
    (machine insn).AtTrap e ∧ e.regs .rip = a

/-- **The right byte at the right place**: where `check_stop` returns `1` to `cont` or `si`, the tracee has
    trapped at a breakpoint, `bpaddr_now` is its address and `restore` its original byte. -/
def RestoresRight (H : Host (List Bool)) (insn : Cpu → Except Byte Cpu) (M : Mem)
    (s : Debugger (List Bool)) (how : Resume) : Prop :=
  ∀ p s₁, s.Holds p → checkStop H (resume s how) = .ok (1, s₁) →
    ∃ q ∈ s.points, TrapsAt insn how p.cpu q.addr ∧ s₁.bpaddrNow = q.addr ∧ M q.addr = some s₁.restore

/-- **The text at a prompt**: `0xcc` at every address of the table, the original bytes elsewhere. -/
def TextIntact (M : Mem) (T : Set Addr) (s : Debugger (List Bool)) : Prop :=
  ∃ p, s.Holds p ∧ (∀ q ∈ s.points, p.cpu.mem q.addr = some int3) ∧
    ∀ a ∈ T, a ∉ addrs s.points → p.cpu.mem a = M a

theorem Core.Intact.text (h : k.Intact M T) (hk : Shows s k) : TextIntact M T s := by
  obtain ⟨p, hp, hcpu, -⟩ := hk.tracee
  refine ⟨p, hp, fun q hq => ?_, fun a ha hout => ?_⟩
  · rw [hk.points] at hq
    rw [hcpu, h.bytes _ (h.inside q hq).mem]
    exact patch_mem (mem_addrs hq)
  · rw [hk.points] at hout
    rw [hcpu, h.bytes a ha]
    exact patch_not_mem hout

/-- A resume that is given what it needs restores the right byte. -/
theorem restoresRight (h : k.Intact M T) (hk : Shows s k) (hclean : k.Restorable insn fuel how) :
    RestoresRight (hosted insn fuel S) insn M s how := by
  intro p s₁ hp hstop
  obtain ⟨p', hp', hcpu, -⟩ := hk.tracee
  cases hp.unique hp'
  obtain ⟨hawait, -⟩ := hk.resumed insn fuel S how
  rcases hrun : nextReport insn fuel how k.cpu with _ | code | d
  · rw [hrun] at hawait
    cases hstop.symm.trans hawait.forever
  · rw [hrun] at hawait
    obtain ⟨s₂, hs₂, -⟩ := hawait.exit
    cases hstop.symm.trans hs₂
  · rw [hrun] at hawait
    have hset := hawait.stop
    rw [hstop] at hset
    obtain ⟨hshows, -, -, hret⟩ := hset
    cases hagain : k.again d with
    | none =>
        rw [hagain] at hret
        exact absurd rfl hret
    | some b =>
        rw [hagain] at hret
        obtain ⟨-, hrestore⟩ := hret
        obtain ⟨hhit, hnow, hsettle⟩ := Core.settle_of_again hagain
        have hb := hit_mem hhit
        have hrip : d.regs .rip - 1 = b.addr := (hit_addr hhit).symm
        obtain ⟨hbp, hstep, -⟩ := hclean d hrun (by rw [hrip]; exact mem_addrs hb) (hrip.trans hnow.symm)
        refine ⟨b, by rw [hk.points]; exact hb, ?_, ?_, ?_⟩
        · rw [hcpu]
          cases how with
          | cont =>
              -- it stopped one byte behind the trap that it has met first
              obtain ⟨j, e, hj, hfirst, hat, hd⟩ := (machine insn).runTrap_stops
                (show (machine insn).runTrap fuel k.cpu = some (.ok d) from hrun)
              refine ⟨j, e, (fun h => by cases h), hj, hfirst, hat, ?_⟩
              rw [← hrip, hd]
              exact (rip_past (i := insn) e.regs).symm
          | step =>
              -- the step is at the breakpoint, whose int3 is in memory
              have hstands := (hstep rfl).trans hnow
              refine ⟨0, k.cpu, fun _ => rfl, rfl, fun i _ hi => absurd hi (Nat.not_lt_zero i), ?_, hstands⟩
              show k.cpu.mem (k.cpu.regs .rip) = some int3
              rw [hstands, h.bytes _ (h.inside b hb).mem]
              exact patch_mem (mem_addrs hb)
        · rw [hshows.bpaddrNow, hsettle]
          exact hbp.trans hnow
        · rw [hrestore]
          exact h.placed.ori b hb

/-! ## One command -/

/-- The commands that steer a program. -/
inductive Steering : Command → Prop
  | start : Steering .start
  | break (sAddr : String) : Steering (.break sAddr)
  | delete (sId : String) : Steering (.delete sId)
  | cont : Steering .cont
  | si : Steering .si
  | set (reg sVal : String) : Steering (.set reg sVal)

/-- **What a step of a session must be given**: a breakpoint in the text, and resumes that find the globals
    in step. -/
def RestoreClean (insn : Cpu → Except Byte Cpu) (fuel : Nat) (T : Set Addr) (s : Debugger (List Bool)) :
    Command → Prop
  | .break sAddr => s.state = .running → WordIn T (addrOf sAddr)
  | .cont => ∀ k, Shows s k → k.Restorable insn fuel .cont
  | .si => ∀ k, Shows s k → k.Restorable insn fuel .step
  | _ => True

/-- **The invariant of such sessions.** -/
structure Upheld (program : String) (M : Mem) (T : Set Addr) (s : Debugger (List Bool)) : Prop where
  program : s.program = program
  loaded : s.state ≠ .others
  intact : s.state = .running → ∃ k, Shows s k ∧ k.Intact M T

variable {program : String}

theorem Upheld.idle (h : Upheld program M T s) (hidle : s.state ≠ .running)
    {r : Except Halt (Debugger (List Bool))} (hr : r = .ok s.notRunning) (hs' : r = .ok s') :
    Upheld program M T s' := by
  cases hr.symm.trans hs'
  exact ⟨h.program, h.loaded, fun hrun => absurd hrun hidle⟩

/-- An overlay on a memory that agrees with `M` on the text. -/
theorem Overlay.intact {M' : Mem} (hov : Overlay M' s) (hM : ∀ a ∈ T, M' a = M a)
    (hin : ∀ q ∈ s.points, WordIn T q.addr) : ∃ k, Shows s k ∧ k.Intact M T := by
  obtain ⟨p, hp, hmem⟩ := hov.tracee
  refine ⟨⟨p.cpu, p.hidden, s.points, s.ripNow, s.bpaddrNow⟩,
    ⟨hov.running, rfl, rfl, rfl, p, hp, rfl, rfl⟩, ?_, ?_, hin⟩
  · intro a ha
    show p.cpu.mem a = armed s.points M a
    rw [hmem]
    unfold armed
    by_cases hx : a ∈ addrs s.points
    · rw [patch_mem hx, patch_mem hx]
    · rw [patch_not_mem hx, patch_not_mem hx, hM a ha]
  · exact hov.placed.congr fun q hq => (hM _ (hin q hq).mem).symm

/-- What a command that edits the table leaves. -/
theorem Upheld.of_edited {M' : Mem} (h : Upheld program M T s) (hed : Edited s s') (hov : Overlay M' s')
    (hM : ∀ a ∈ T, M' a = M a) (hin : ∀ q ∈ s'.points, WordIn T q.addr) : Upheld program M T s' where
  program := by
    rw [hed.same]
    exact h.program
  loaded := by
    rw [hed.same]
    exact h.loaded
  intact := fun _ => hov.intact hM hin

/-- What a command that follows a resume leaves. -/
theorem Upheld.of_follows {H : Host (List Bool)} (h : Upheld program M T s)
    (hT : (machine insn).ReadOnly T) (hmapped : ∀ x ∈ T, (M x).isSome) (hi : k.Intact M T)
    (hclean : k.Restorable insn fuel how) (hfollow : Follows H s (k.resume insn fuel how) (.ok s')) :
    Upheld program M T s' := by
  cases hr : k.resume insn fuel how with
  | forever =>
      rw [hr] at hfollow
      cases hfollow
  | exit code =>
      rw [hr] at hfollow
      obtain ⟨s₁, hs₁, hex⟩ := hfollow
      cases hs₁
      refine ⟨hex.ran.program.trans h.program, ?_, ?_⟩
      · rw [hex.loaded]
        decide
      · intro hrun
        rw [hex.loaded] at hrun
        cases hrun
  | prompt k' rep =>
      rw [hr] at hfollow
      obtain ⟨hshows, ⟨q, hran⟩, -⟩ := hfollow
      refine ⟨hran.program.trans h.program, ?_, fun _ => ⟨k', hshows, ?_⟩⟩
      · rw [hshows.running]
        decide
      · exact resume_intact hT hmapped hi hclean hr

/-- **`set`** changes registers only, and maybe `rip_now`. -/
theorem set_shows {H : Host (List Bool)} (hk : Shows s k) {reg sVal : String}
    (hset : set H s reg sVal = .ok s') :
    s'.program = s.program ∧ ∃ k', Shows s' k' ∧ k'.points = k.points ∧ k'.cpu.mem = k.cpu.mem := by
  obtain ⟨p, hp, hcpu, hsched⟩ := hk.tracee
  rcases set_cases hset with ⟨hidle, -⟩ | ⟨hrun, rfl | ⟨ret, s₁, hgot, hdone⟩⟩
  · exact absurd hk.running hidle
  · exact ⟨rfl, k, hk, rfl, rfl⟩
  · cases (getregs_holds hrun hp).symm.trans hgot
    rcases hdone with rfl | ⟨-, r, -, rfl⟩
    · exact ⟨rfl, k, ⟨hk.running, hk.points, hk.ripNow, hk.bpaddrNow, p, ⟨hp.tracee, hp.stopped⟩, hcpu, hsched⟩,
        rfl, rfl⟩
    · have hp' : (s.world.logged (.request s.child true)).procs s.child = some p := hp.tracee
      have htracee : (World.setregs H (s.world.logged (.request s.child true)) s.child
          (Function.update p.cpu.regs r (addrOf sVal))).procs s.child
            = some (p.withRegs (Function.update p.cpu.regs r (addrOf sVal))) := by
        rw [World.setregs_stopped hp' hp.stopped]
        exact World.setProc_procs_self _
      refine ⟨rfl, ⟨_, p.hidden, s.points, _, s.bpaddrNow⟩, ⟨hk.running, rfl, rfl, rfl, _,
        ⟨htracee, hp.stopped⟩, rfl, rfl⟩, hk.points, ?_⟩
      rw [← hcpu]
      rfl

/-- **`start`** places no byte. -/
theorem start_upheld {file : Inode} {c₀ : Cpu} {sched : List Bool} (hfile : S.execvp (execPath program) = some file)
    (himage : S.image file = some (c₀, sched)) (h : Upheld program c₀.mem T s)
    (hexec : start (hosted insn fuel S) s = .ok s') : Upheld program c₀.mem T s' := by
  obtain ⟨hshows, hprogram, -⟩ := start_shows h.loaded (by rw [h.program]; exact hfile) himage hexec
  refine ⟨hprogram.trans h.program, ?_, fun _ => ⟨_, hshows, ?_, Placed.nil _, ?_⟩⟩
  · rw [hshows.running]
    decide
  · intro a _
    exact (congrFun (patch_nil (t := some int3) (m := c₀.mem)) a).symm
  · exact fun q hq => absurd hq List.not_mem_nil

/-- **`break`** places one byte, in the text. -/
theorem breakpoint_upheld (hmapped : ∀ x ∈ T, (M x).isSome) (h : Upheld program M T s)
    {sAddr : String} (hword : s.state = .running → WordIn T (addrOf sAddr))
    (hexec : breakpoint (hosted insn fuel S) s sAddr = .ok s') : Upheld program M T s' := by
  by_cases hrun : s.state = .running
  · obtain ⟨k, hk, hi⟩ := h.intact hrun
    have hM := fun a (ha : a ∈ T) => hi.unarmed_eq ha
    obtain ⟨s₁, hs₁, hov, hed, hcase⟩ := breakpoint_overlay (H := hosted insn fuel S) (hi.overlay hk)
      ((hword hrun).peek fun x hx => by rw [hM x hx]; exact hmapped x hx) (hosted_pokable s _)
    cases hexec.symm.trans hs₁
    refine h.of_edited hed hov hM fun q hq => ?_
    rcases hcase with ⟨-, hpoints, -⟩ | ⟨-, -, ori, hpoints⟩
    · rw [hpoints, hk.points] at hq
      exact hi.inside q hq
    · rw [hpoints, hk.points] at hq
      rcases List.mem_append.mp hq with hq | hq
      · exact hi.inside q hq
      · cases List.mem_singleton.mp hq
        exact hword hrun
  · exact h.idle hrun (if_pos hrun) hexec

/-- **`delete`** takes one byte away, of a breakpoint in the text. -/
theorem del_upheld (hmapped : ∀ x ∈ T, (M x).isSome) (h : Upheld program M T s)
    {sId : String} (hexec : del (hosted insn fuel S) s sId = .ok s') : Upheld program M T s' := by
  by_cases hrun : s.state = .running
  · obtain ⟨k, hk, hi⟩ := h.intact hrun
    have hM := fun a (ha : a ∈ T) => hi.unarmed_eq ha
    have hwords : ∀ q ∈ s.points, WordIn T q.addr := by
      rw [hk.points]
      exact hi.inside
    rcases del_cases hexec with ⟨hidle, -⟩ | ⟨-, ⟨-, rfl⟩ | ⟨id, hid, -⟩⟩
    · exact absurd hrun hidle
    · exact h
    · obtain ⟨s₁, hs₁, hov, hed, -, hpoints⟩ := del_overlay (H := hosted insn fuel S) (hi.overlay hk)
        (fun q hq => (hwords q hq).peek fun x hx => by rw [hM x hx]; exact hmapped x hx)
        (fun q _ => hosted_pokable s q.addr) hid
      cases hexec.symm.trans hs₁
      refine h.of_edited hed hov hM fun q hq => ?_
      rw [hpoints] at hq
      exact hwords q (List.mem_of_mem_eraseP hq)
  · exact h.idle hrun (if_pos hrun) hexec

/-- **One command** upholds the invariant. -/
theorem exec_upheld {file : Inode} {c₀ : Cpu} {sched : List Bool} (hT : (machine insn).ReadOnly T)
    (hmapped : ∀ x ∈ T, (c₀.mem x).isSome) (hfile : S.execvp (execPath program) = some file)
    (himage : S.image file = some (c₀, sched)) (h : Upheld program c₀.mem T s) {cmd : Command}
    (hsteer : Steering cmd) (hclean : RestoreClean insn fuel T s cmd)
    (hexec : exec (hosted insn fuel S) s cmd = .ok s') : Upheld program c₀.mem T s' := by
  cases hsteer with
  | start => exact start_upheld hfile himage h hexec
  | «break» sAddr => exact breakpoint_upheld hmapped h hclean hexec
  | delete sId => exact del_upheld hmapped h hexec
  | cont =>
      by_cases hrun : s.state = .running
      · obtain ⟨k, hk, hi⟩ := h.intact hrun
        have hfollow := cont_course insn fuel S hk
        rw [show cont (hosted insn fuel S) s = .ok s' from hexec] at hfollow
        exact h.of_follows hT hmapped hi (hclean k hk) hfollow
      · exact h.idle hrun (if_pos hrun) hexec
  | si =>
      by_cases hrun : s.state = .running
      · obtain ⟨k, hk, hi⟩ := h.intact hrun
        have hfollow := si_course insn fuel S hk
        rw [show si (hosted insn fuel S) s = .ok s' from hexec] at hfollow
        exact h.of_follows hT hmapped hi (hclean k hk) hfollow
      · exact h.idle hrun (if_pos hrun) hexec
  | set reg sVal =>
      by_cases hrun : s.state = .running
      · obtain ⟨k, hk, hi⟩ := h.intact hrun
        obtain ⟨hprogram, k', hk', hpoints, hmem⟩ := set_shows hk hexec
        refine ⟨hprogram.trans h.program, ?_, fun _ => ⟨k', hk', hi.of_same hpoints fun a _ => ?_⟩⟩
        · rw [hk'.running]
          decide
        · rw [hmem]
      · exact h.idle hrun (if_pos hrun) hexec

/-! ## Sessions -/

/-- The command that resumes. -/
def resuming : Resume → Command
  | .cont => .cont
  | .step => .si

/-- **A session that restores**: at each of its prompts with a running program the text is intact, and if
    the next command resumes, the right byte goes to the right place. -/
def Restores (H : Host (List Bool)) (insn : Cpu → Except Byte Cpu) (M : Mem) (T : Set Addr)
    (s : Debugger (List Bool)) (cmds : List Command) : Prop :=
  ∀ i s', execAll H s (cmds.take i) = .ok s' → s'.state = .running → TextIntact M T s' ∧
    ∀ how, cmds[i]? = some (resuming how) → RestoresRight H insn M s' how

/-- **Resuming restores the right byte at the right place**, in every session of these commands that is
    given what it needs. -/
theorem restores_right_byte {file : Inode} {c₀ : Cpu} {sched : List Bool} (hloaded : s.state = .loaded)
    (hfile : S.execvp (execPath s.program) = some file) (himage : S.image file = some (c₀, sched))
    (hT : (machine insn).ReadOnly T) (hmapped : ∀ x ∈ T, (c₀.mem x).isSome)
    (hcmds : ∀ c ∈ cmds, Steering c)
    (hclean : Along (hosted insn fuel S) (RestoreClean insn fuel T) s cmds) :
    Restores (hosted insn fuel S) insn c₀.mem T s cmds := by
  intro i s' hs' hrun
  have hstart : Upheld s.program c₀.mem T s := by
    refine ⟨rfl, ?_, ?_⟩
    · rw [hloaded]
      decide
    · intro h
      rw [hloaded] at h
      cases h
  obtain ⟨hinv, hnext⟩ := (hclean.and_mem hcmds).run
    (fun s c s' hI hP hexec => exec_upheld hT hmapped hfile himage hI hP.1 hP.2 hexec) hstart hs'
  obtain ⟨k, hk, hi⟩ := hinv.intact hrun
  refine ⟨hi.text hk, fun how hcmd => ?_⟩
  obtain ⟨-, hgiven⟩ := hnext _ hcmd
  cases how with
  | cont => exact restoresRight hi hk (hgiven k hk)
  | step => exact restoresRight hi hk (hgiven k hk)

/-- A session that takes the resume path. -/
theorem restores_nop : Restores (sampleHost nopText 9) sampleInsn (sampleMem nopText)
    {a | (sampleMem nopText a).isSome} sampleLoaded [.start, .break "400001", .cont, .si] := by
  show Restores (sampleHost nopText 9) sampleInsn (sampleCpu nopText).mem _ _ _
  refine restores_right_byte rfl rfl rfl
    (fun c d hi a _ => by rw [sample_keeps hi]) (fun x hx => hx) ?_ ?_
  · intro c hc
    simp only [List.mem_cons, List.not_mem_nil, or_false] at hc
    rcases hc with rfl | rfl | rfl | rfl
    · exact .start
    · exact .break _
    · exact .cont
    · exact .si
  · refine ⟨trivial, fun s₁ hs₁ => ⟨fun _ => by unfold WordIn; decide, fun s₂ hs₂ =>
      ⟨fun k hk d _ hin hnow => ?_, fun s₃ hs₃ => ⟨fun k hk d _ _ _ => ?_, fun _ _ => trivial⟩⟩⟩⟩
    · -- nothing has been reported yet
      have hall : execAll (sampleHost nopText 9) sampleLoaded [.start, .break "400001"] = .ok s₂ :=
        (execAll_cons hs₁ _).trans (execAll_cons hs₂ _)
      have hlook : steering (execAll (sampleHost nopText 9) sampleLoaded [.start, .break "400001"])
          = .ok (.running, [0x400001], 0, 0, some 0x400000) := by decide
      simp only [hk.steering hall, Except.ok.injEq, Prod.mk.injEq] at hlook
      obtain ⟨-, hpoints, hripNow, -⟩ := hlook
      rw [hpoints, hnow, hripNow] at hin
      exact absurd hin (by decide)
    · -- the tracee stands at the breakpoint that was reported
      have hall : execAll (sampleHost nopText 9) sampleLoaded [.start, .break "400001", .cont] = .ok s₃ :=
        (execAll_cons hs₁ _).trans ((execAll_cons hs₂ _).trans (execAll_cons hs₃ _))
      have hlook : steering (execAll (sampleHost nopText 9) sampleLoaded [.start, .break "400001", .cont])
          = .ok (.running, [0x400001], 0x400001, 0x400001, some 0x400001) := by decide
      simp only [hk.steering hall, Except.ok.injEq, Prod.mk.injEq, Option.some.injEq] at hlook
      obtain ⟨-, -, hripNow, hbpaddrNow, hrip⟩ := hlook
      exact ⟨hbpaddrNow.trans hripNow.symm, fun _ => hrip.trans hripNow.symm, fun h => by cases h⟩

/-! ## A session that does not -/

/-- Four `nop`s, then an exit. -/
def nopsText : List Byte := [0x90, 0x90, 0x90, 0x90, 0, 0, 0, 0, 0, 0, 0]

/-- The commands: `delete` removes the breakpoint that `bpaddr_now` names, and `set` moves `rip_now` to
    another one. -/
def wrongSession : List Command :=
  [.start, .break "400001", .cont, .delete "0", .break "400003", .set "rip" "400003", .cont]

/-- The table and the byte at the first of the two addresses. -/
def peekByte (r : Except Halt (Debugger (List Bool))) :
    Except Halt (State × List Addr × Option (Option Byte)) :=
  r.map fun s => (s.state, addrs s.points, s.tracee.map fun p => p.cpu.mem 0x400001)

/-- The last `cont` traps at `400003` and writes its byte to `400001`, where it leaves a trap for no
    breakpoint. -/
theorem restores_wrong_byte :
    (∀ c d, sampleInsn c = .ok d → d.mem = c.mem) ∧ (∀ c ∈ wrongSession, Steering c) ∧
      ¬ Restores (sampleHost nopsText 9) sampleInsn (sampleMem nopsText)
        {a | (sampleMem nopsText a).isSome} sampleLoaded wrongSession := by
  refine ⟨fun c d => sample_keeps, ?_, fun hrestores => ?_⟩
  · intro c hc
    simp only [wrongSession, List.mem_cons, List.not_mem_nil, or_false] at hc
    rcases hc with rfl | rfl | rfl | rfl | rfl | rfl | rfl
    · exact .start
    · exact .break _
    · exact .cont
    · exact .delete _
    · exact .break _
    · exact .set _ _
    · exact .cont
  · have hlook : peekByte (execAll (sampleHost nopsText 9) sampleLoaded (wrongSession.take 7))
        = .ok (.running, [0x400003], some (some int3)) := by decide
    obtain ⟨s', hs, hseen⟩ := ok_of_seen hlook
    obtain ⟨hrun, hrest⟩ := Prod.mk.inj hseen
    obtain ⟨hpoints, htracee⟩ := Prod.mk.inj hrest
    obtain ⟨⟨p, hp, -, hothers⟩, -⟩ := hrestores 7 s' hs hrun
    have horiginal := hothers 0x400001 (by decide) (by rw [hpoints]; decide)
    rw [hp.tracee, Option.map_some, horiginal] at htracee
    exact absurd htracee (by decide)

end AdvUnix.Sdb
