import AdvUnix.Sdb.Core

/-!
# `Sdb.Native` — the tracee on the native execution

`Native` relates the reduced debugger to a state of the **native run**, the one without a debugger: same
registers, and the memory with the breakpoints of the table in it. `break`, `delete`, `cont` and `si`
keep it and never move backwards (`exec_native`, `native_run`) as long as each step is `Clean`: no
single step ends one byte past a breakpoint, where `check_stop` takes it for a trap, and the resume path
is taken with the breakpoint in `bpaddr_now` that it is meant for.

* `Text` — what a program must grant: it leaves the addresses where breakpoints may stand alone.
-/

namespace AdvUnix.Sdb

open ByteStore StepMachine Debugger

variable {insn : Cpu → Except Byte Cpu} {fuel : Nat} {S : Site (List Bool)} {how : Resume}
variable {c₀ c d : Cpu} {A : Set Addr} {n : Nat} {k k' : Core} {M : Mem} {points : List Breakpoint}

/-! ## Reading through the breakpoints -/

/-- The memory with the bytes at the addresses of the table read as the original ones. -/
def unarmed (points : List Breakpoint) (m : Mem) : Mem := fun a =>
  match points.find? fun b => b.addr = a with
  | some b => some b.ori
  | none => m a

/-- The processor that the native run would have. -/
def Core.unarmed (k : Core) : Cpu := ⟨k.cpu.regs, Sdb.unarmed k.points k.cpu.mem⟩

theorem unarmed_armed (h : Placed M points) : unarmed points (armed points M) = M := by
  funext a
  unfold unarmed
  cases hfind : points.find? fun b => b.addr = a with
  | none =>
      refine patch_not_mem fun hin => ?_
      obtain ⟨b, hb, haddr⟩ := List.mem_map.mp hin
      exact absurd haddr (by simpa using List.find?_eq_none.mp hfind b hb)
  | some b =>
      have haddr : b.addr = a := by simpa using List.find?_some hfind
      rw [← haddr]
      exact (h.ori b (List.mem_of_find?_eq_some hfind)).symm

/-! ## The relation -/

/-- **The text of a program**, or a part of it: addresses that the native run from `c₀` neither writes
    nor reads other than by executing the instruction there, and whose words stay mapped. -/
structure Text (insn : Cpu → Except Byte Cpu) (c₀ : Cpu) (A : Set Addr) : Prop
    extends (machine insn).Undisturbed c₀ A where
  mapped : ∀ n c, (machine insn).after n c₀ = .ok c → ∀ a ∈ A, (Mem.peek c.mem a).isSome

/-- **On the native run**: the tracee is the native state after `n` steps, with the breakpoints in it. -/
structure Native (insn : Cpu → Except Byte Cpu) (c₀ : Cpu) (A : Set Addr) (n : Nat) (k : Core) :
    Prop where
  state : ∃ c, (machine insn).after n c₀ = .ok c ∧ k.cpu = (machine insn).patched (addrs k.points) c
  placed : Placed c₀.mem k.points
  inside : ∀ a ∈ addrs k.points, a ∈ A

/-- The table is placed on every state of the native run. -/
theorem Native.placed_at (hT : Text insn c₀ A) (h : Native insn c₀ A n k) {m : Nat}
    (hc : (machine insn).after m c₀ = .ok c) : Placed c.mem k.points :=
  h.placed.congr fun _ hq => hT.after_kept hc (h.inside _ (mem_addrs hq))

theorem Native.unarmed_eq (hT : Text insn c₀ A) (h : Native insn c₀ A n k)
    (hc : (machine insn).after n c₀ = .ok c) : k.unarmed = c := by
  obtain ⟨c', hc', hcpu⟩ := h.state
  rw [hc] at hc'
  cases hc'
  unfold Core.unarmed
  rw [hcpu]
  show (⟨c.regs, Sdb.unarmed k.points (armed k.points c.mem)⟩ : Cpu) = c
  rw [unarmed_armed (h.placed_at hT hc)]

/-! ## What a step must grant -/

/-- The write of the resume path is harmless: it is for the breakpoint in `rip_now`, and no race tears
    it, or nothing is mapped where it goes. -/
def Aligned (k : Core) (how : Resume) (m : Mem) : Prop :=
  k.bpaddrNow = k.ripNow ∧ (how = .cont → ¬ Core.Torn k.sched) ∨ m k.bpaddrNow = none

/-- **A clean resume.** Where the tracee traps at the breakpoint in `rip_now`, the resume path is
    harmless; and where `si` executes an instruction of the program, it does not end one byte past a
    breakpoint. -/
def Core.Clean (insn : Cpu → Except Byte Cpu) (k : Core) : Resume → Prop
  | .cont => ∀ j d, (machine insn).after j k.unarmed = .ok d →
      (machine insn).Quiet (addrs k.points) j k.unarmed → d.regs .rip ∈ addrs k.points →
      d.regs .rip = k.ripNow → Aligned k .cont d.mem
  | .step =>
      (k.cpu.regs .rip ∈ addrs k.points → k.cpu.regs .rip = k.ripNow →
        Aligned k .step k.unarmed.mem) ∧
      ((k.cpu.regs .rip ∈ addrs k.points →
          k.cpu.regs .rip = k.ripNow ∧ k.bpaddrNow = k.ripNow) →
        ¬ (machine insn).AtTrap k.unarmed → ∀ d, insn k.unarmed = .ok d →
        d.regs .rip - 1 ∉ addrs k.points)

/-! ## Stops on the native run -/

/-- The addresses of a table but for one breakpoint. -/
def others (points : List Breakpoint) (b : Breakpoint) : List Addr :=
  (addrs points).filter (· ≠ b.addr)

theorem mem_others {b : Breakpoint} {x : Addr} :
    x ∈ others points b ↔ x ∈ addrs points ∧ x ≠ b.addr := by
  unfold others
  rw [List.mem_filter]
  simp

/-- The memory armed without one of the breakpoints, and with it again. -/
theorem armed_without (hM : Placed M points) {b : Breakpoint} (hb : b ∈ points) :
    Function.update (armed points M) b.addr (some b.ori)
        = patch (some int3) (others points b) M ∧
      Function.update (patch (some int3) (others points b) M) b.addr (some int3)
        = armed points M := by
  constructor
  · rw [← hM.ori b hb]
    exact update_patch_orig (some int3) M fun x => mem_others
  · rw [update_patch_trap]
    refine patch_congr fun x => ?_
    rw [List.mem_cons, mem_others]
    constructor
    · rintro (rfl | ⟨hx, -⟩)
      · exact mem_addrs hb
      · exact hx
    · intro hx
      by_cases he : x = b.addr
      · exact Or.inl he
      · exact Or.inr ⟨hx, he⟩

/-- Patching mapped addresses maps nothing new. -/
theorem peek_patch {P : List Addr} (hP : ∀ x ∈ P, (M x).isSome) (a : Addr) :
    (Mem.peek (patch (some int3) P M) a).isSome = (Mem.peek M a).isSome := by
  refine Mem.peek_isSome_congr fun x => ?_
  by_cases hx : x ∈ P
  · rw [patch_mem hx, hP x hx]
    rfl
  · rw [patch_not_mem hx]

theorem Placed.isSome (h : Placed M points) : ∀ x ∈ addrs points, (M x).isSome := by
  intro x hx
  obtain ⟨b, hb, rfl⟩ := List.mem_map.mp hx
  rw [h.ori b hb]
  rfl

/-- A core on the native run, from its parts. -/
theorem Native.of_patched (h : Native insn c₀ A n k) (k' : Core) (hpoints : k'.points = k.points) {m : Nat}
    (hc : (machine insn).after m c₀ = .ok c)
    (hcpu : k'.cpu = (machine insn).patched (addrs k.points) c) : Native insn c₀ A m k' where
  state := ⟨c, hc, by rw [hcpu, hpoints]⟩
  placed := by
    rw [hpoints]
    exact h.placed
  inside := by
    rw [hpoints]
    exact h.inside

/-- The tracee of a core on the native run. -/
theorem Native.cpu_eq (h : Native insn c₀ A n k) (hc : (machine insn).after n c₀ = .ok c) :
    k.cpu = (machine insn).patched (addrs k.points) c := by
  obtain ⟨c', hc', hcpu⟩ := h.state
  rw [hc] at hc'
  cases hc'
  exact hcpu

/-- **A stop by a trap on the resume path**, with the registers `r` before it. -/
theorem settleOnPath_trap (insn : Cpu → Except Byte Cpu) (how : Resume) (k : Core) (r : Regs) (m : Mem) :
    (r .rip ∉ addrs k.points →
      (k.settleOnPath how ⟨(machine insn).past r, m⟩).1.cpu
        = ⟨(machine insn).past r, k.behind how m⟩) ∧
    (r .rip ∈ addrs k.points →
      (k.settleOnPath how ⟨(machine insn).past r, m⟩).1.cpu = ⟨r, k.behind how m⟩) ∧
    (k.settleOnPath how ⟨(machine insn).past r, m⟩).1.points = k.points := by
  unfold Core.settleOnPath
  by_cases hin : r .rip ∈ addrs k.points
  · have hin' : (machine insn).past r .rip - 1 ∈ addrs (k.resumed how).points := by
      rw [rip_past, Core.resumed_points]
      exact hin
    by_cases hnow : (k.resumed how).ripNow = (machine insn).past r .rip - 1
    · obtain ⟨b, -, -, -, hset⟩ := Core.settle_again hin' hnow
        (d := ⟨(machine insn).past r, k.behind how m⟩)
      rw [hset]
      exact ⟨fun hout => absurd hin hout, fun _ => by rw [rewound_past], Core.resumed_points ..⟩
    · obtain ⟨-, hset⟩ := Core.settle_report (d := ⟨(machine insn).past r, k.behind how m⟩) hin' hnow
      rw [hset]
      exact ⟨fun hout => absurd hin hout, fun _ => by rw [rewound_past], Core.resumed_points ..⟩
  · have hin' : (machine insn).past r .rip - 1 ∉ addrs (k.resumed how).points := by
      rw [rip_past, Core.resumed_points]
      exact hin
    obtain ⟨-, hset⟩ := Core.settle_off (d := ⟨(machine insn).past r, k.behind how m⟩) hin'
    rw [hset]
    exact ⟨fun _ => rfl, fun h => absurd h hin, Core.resumed_points ..⟩

/-- **The resume path is stuck** when there is nothing to write: the tracee traps again at once. -/
theorem path_stuck (hT : Text insn c₀ A) (h : Native insn c₀ A n k)
    (hc : (machine insn).after n c₀ = .ok c) (hrip : c.regs .rip ∈ addrs k.points)
    (hnone : c.mem k.bpaddrNow = none) {ori : Byte}
    {rep : Option Addr} (hr : k.path insn fuel how ori = .prompt k' rep) :
    k'.points = k.points ∧ Native insn c₀ A n k' := by
  have hcpu := h.cpu_eq hc
  have hmem : k.cpu.mem k.bpaddrNow = none := by
    have hsome : (k.cpu.mem k.bpaddrNow).isSome = (c.mem k.bpaddrNow).isSome := by
      rw [hcpu]
      exact (h.placed_at hT hc).armed_isSome k.bpaddrNow
    rw [hnone] at hsome
    simpa using hsome
  have htrap : (machine insn).AtTrap k.cpu := by
    rw [hcpu]
    exact Machine.atTrap_patched.mpr (Or.inl hrip)
  have hregs : k.cpu.regs = c.regs := by rw [hcpu]; rfl
  unfold Core.path at hr
  rw [replaced_unmapped hmem] at hr
  obtain ⟨e, he, hstop⟩ := Course.next_prompt hr
  -- the trap is still there
  have hstuck : e = (machine insn).pastTrap k.cpu := by
    cases how with
    | cont =>
        cases fuel with
        | zero => cases he
        | succ fuel =>
            have he' : (machine insn).runTrap (fuel + 1) k.cpu = some (.ok e) := he
            simp only [Machine.runTrap, if_pos htrap] at he'
            cases he'
            rfl
    | step =>
        have he' : some ((machine insn).step k.cpu) = some (.ok e) := he
        rw [(machine insn).step_trap htrap] at he'
        cases he'
        rfl
  subst hstuck
  obtain ⟨-, hon, hpoints⟩ := settleOnPath_trap insn how k k.cpu.regs k.cpu.mem
  have hbehind : k.behind how k.cpu.mem = k.cpu.mem := by
    cases how with
    | cont => exact Core.inFlight_unmapped hmem k.sched
    | step => rfl
  have hcpu' := hon (by rw [hregs]; exact hrip)
  cases hstop
  have hresult : ((k.settleOnPath how ((machine insn).pastTrap k.cpu)).1.rearmed k.bpaddrNow).cpu
      = (machine insn).patched (addrs k.points) c := by
    unfold Core.rearmed Machine.pastTrap
    rw [hcpu', hbehind, replaced_unmapped hmem, ← hcpu]
  have hsame : ((k.settleOnPath how ((machine insn).pastTrap k.cpu)).1.rearmed k.bpaddrNow).points
      = k.points := hpoints
  exact ⟨hsame, h.of_patched _ hsame hc hresult⟩

theorem after_trap (hc : (machine insn).after n c₀ = .ok c) (ht : (machine insn).AtTrap c) :
    (machine insn).after (n + 1) c₀ = .ok ((machine insn).pastTrap c) := by
  rw [(machine insn).after_succ hc, (machine insn).step_trap ht]

/-- **Rearming.** With one breakpoint lifted, the trap written back after the next stop makes the memory
    the armed one again. -/
theorem rearm (hT : Text insn c₀ A) (h : Native insn c₀ A n k) {m : Nat}
    (hd : (machine insn).after m c₀ = .ok d) {b : Breakpoint} (hb : b ∈ k.points)
    (haddr : k.bpaddrNow = b.addr) (htorn : how = .cont → ¬ Core.Torn k.sched) :
    replaced everywhere (k.behind how (patch (some int3) (others k.points b) d.mem)) b.addr int3
      = armed k.points d.mem := by
  have hplaced := h.placed_at hT hd
  have hmapped : (Mem.peek (patch (some int3) (others k.points b) d.mem) b.addr).isSome := by
    rw [peek_patch fun x hx => hplaced.isSome x (mem_others.mp hx).1]
    exact hT.mapped m d hd _ (h.inside _ (mem_addrs hb))
  rw [← (armed_without hplaced hb).2]
  cases how with
  | cont =>
      unfold Core.behind
      rw [haddr]
      exact Core.replaced_inFlight (htorn rfl) hmapped
  | step => exact replaced_mapped hmapped rfl int3

/-- A trap on the resume path, with one breakpoint lifted, ends on the native run. -/
theorem trap_on_path (hT : Text insn c₀ A) (h : Native insn c₀ A n k) {m : Nat}
    (hd : (machine insn).after m c₀ = .ok d) {b : Breakpoint} (hb : b ∈ k.points)
    (haddr : k.bpaddrNow = b.addr) (htorn : how = .cont → ¬ Core.Torn k.sched)
    (hwhere : d.regs .rip ∈ addrs k.points ∨ (machine insn).AtTrap d)
    (hk' : k' = (k.settleOnPath how ((machine insn).pastTrap
      ((machine insn).patched (others k.points b) d))).1.rearmed b.addr) :
    k'.points = k.points ∧ ∃ m', m ≤ m' ∧ Native insn c₀ A m' k' := by
  have hrearm := rearm hT h hd hb haddr htorn
  obtain ⟨hoff, hon, hpoints⟩ := settleOnPath_trap insn how k d.regs
    (patch (some int3) (others k.points b) d.mem)
  have hsame : k'.points = k.points := by
    rw [hk']
    exact hpoints
  refine ⟨hsame, ?_⟩
  by_cases hin : d.regs .rip ∈ addrs k.points
  · refine ⟨m, Nat.le_refl m, h.of_patched _ hsame hd ?_⟩
    have hcpu : (k.settleOnPath how ((machine insn).pastTrap
        ((machine insn).patched (others k.points b) d))).1.cpu = _ := hon hin
    rw [hk', Core.rearmed, hcpu, hrearm]
    rfl
  · have ht : (machine insn).AtTrap d := hwhere.resolve_left hin
    refine ⟨m + 1, Nat.le_succ m, h.of_patched _ hsame (after_trap hd ht) ?_⟩
    have hcpu : (k.settleOnPath how ((machine insn).pastTrap
        ((machine insn).patched (others k.points b) d))).1.cpu = _ := hoff hin
    rw [hk', Core.rearmed, hcpu, hrearm]
    rfl

/-- **The resume path with its breakpoint lifted.** Where the tracee stands at the breakpoint in
    `bpaddr_now`, it is resumed as the native state with the other breakpoints. -/
theorem path_lifted (hT : Text insn c₀ A) (h : Native insn c₀ A n k)
    (hc : (machine insn).after n c₀ = .ok c) {b : Breakpoint} (hb : b ∈ k.points)
    (haddr : k.bpaddrNow = b.addr) :
    k.path insn fuel how b.ori =
      .next (nextReport insn fuel how ((machine insn).patched (others k.points b) c)) fun d =>
        .prompt ((k.settleOnPath how d).1.rearmed b.addr) (k.settleOnPath how d).2 := by
  have hcpu := h.cpu_eq hc
  have hplaced := h.placed_at hT hc
  have hmapped : (Mem.peek k.cpu.mem b.addr).isSome := by
    rw [hcpu]
    show (Mem.peek (armed k.points c.mem) b.addr).isSome
    rw [hplaced.armed_peek]
    exact hT.mapped n c hc _ (h.inside _ (mem_addrs hb))
  have hlifted : (⟨k.cpu.regs, Function.update k.cpu.mem b.addr (some b.ori)⟩ : Cpu)
      = (machine insn).patched (others k.points b) c := by
    rw [hcpu]
    show (⟨c.regs, Function.update (armed k.points c.mem) b.addr (some b.ori)⟩ : Cpu) = _
    rw [(armed_without hplaced hb).1]
    rfl
  unfold Core.path
  rw [haddr, replaced_mapped hmapped rfl, hlifted]

theorem others_inside (h : Native insn c₀ A n k) (b : Breakpoint) : ∀ x ∈ others k.points b, x ∈ A :=
  fun x hx => h.inside x (mem_others.mp hx).1

/-- **The resume path goes on** from the breakpoint that it lifts. -/
theorem path_on (hT : Text insn c₀ A) (h : Native insn c₀ A n k)
    (hc : (machine insn).after n c₀ = .ok c) {b : Breakpoint} (hb : b ∈ k.points)
    (hrip : c.regs .rip = b.addr) (haddr : k.bpaddrNow = b.addr)
    (htorn : how = .cont → ¬ Core.Torn k.sched)
    (hland : how = .step → ¬ (machine insn).AtTrap c → ∀ d, insn c = .ok d →
      d.regs .rip - 1 ∉ addrs k.points)
    {rep : Option Addr} (hr : k.path insn fuel how b.ori = .prompt k' rep) :
    k'.points = k.points ∧ ∃ m, n ≤ m ∧ Native insn c₀ A m k' := by
  have hsub := others_inside h b
  rw [path_lifted hT h hc hb haddr] at hr
  obtain ⟨e, he, hstop⟩ := Course.next_prompt hr
  have hk' := (Course.prompt.inj hstop).1.symm
  cases how with
  | cont =>
      -- the run with the one breakpoint lifted goes to the next trap, or to the exit
      obtain ⟨j, d, hj, -, hend⟩ := Machine.runTrap_patched hT.toUndisturbed hc hsub
        (show (machine insn).runTrap fuel _ = some (.ok e) from he)
      have hd : (machine insn).after (n + j) c₀ = .ok d := by rw [(machine insn).after_add hc, hj]
      rcases hend with ⟨hwhere, hed⟩ | ⟨code, -, -, -, hed⟩
      · cases hed
        have hwhere' := hwhere.imp_left fun hx => (mem_others.mp hx).1
        obtain ⟨hsame, m, hm, hnative⟩ := trap_on_path hT h hd hb haddr htorn hwhere' hk'
        exact ⟨hsame, m, by omega, hnative⟩
      · cases hed
  | step =>
      have hpc : (machine insn).pc c.regs ∉ others k.points b :=
        fun hx => (mem_others.mp hx).2 hrip
      have he' : (machine insn).step ((machine insn).patched (others k.points b) c) = .ok e :=
        Option.some.inj he
      by_cases ht : (machine insn).AtTrap c
      · -- a trap of the program's own under the breakpoint: it is hit again
        rw [(machine insn).step_trap (Machine.atTrap_patched.mpr (Or.inr ht))] at he'
        cases he'
        have hin : c.regs .rip ∈ addrs k.points := by
          rw [hrip]
          exact mem_addrs hb
        obtain ⟨hsame, m, hm, hnative⟩ := trap_on_path hT h hc hb haddr htorn (Or.inl hin) hk'
        exact ⟨hsame, m, hm, hnative⟩
      · rw [Machine.patched_step hT.toUndisturbed hc hsub hpc, (machine insn).step_insn ht] at he'
        cases hi : insn c with
        | error code =>
            rw [show (machine insn).insn c = .error code from hi] at he'
            cases he'
        | ok d =>
            rw [show (machine insn).insn c = .ok d from hi] at he'
            cases he'
            have hd : (machine insn).after (n + 1) c₀ = .ok d := by
              rw [(machine insn).after_succ hc, (machine insn).step_insn ht]
              exact hi
            -- one instruction, and the debugger does not take its end for a stop behind a breakpoint
            have hoff : d.regs .rip - 1 ∉ addrs (k.resumed .step).points := hland rfl ht d hi
            obtain ⟨-, hset⟩ := Core.settle_off
              (d := ⟨d.regs, k.behind .step (patch (some int3) (others k.points b) d.mem)⟩) hoff
            have hsettle : k.settleOnPath .step ((machine insn).patched (others k.points b) d) = _ := hset
            rw [hsettle] at hk'
            have hsame : k'.points = k.points := by rw [hk']; rfl
            refine ⟨hsame, n + 1, Nat.le_succ n, h.of_patched _ hsame hd ?_⟩
            rw [hk', Core.rearmed, rearm hT h hd hb haddr htorn]
            rfl

theorem rip_trap (insn : Cpu → Except Byte Cpu) (P : List Addr) (d : Cpu) :
    ((machine insn).pastTrap ((machine insn).patched P d)).regs .rip - 1 = d.regs .rip :=
  rip_past (i := insn) d.regs

theorem rewound_trap (insn : Cpu → Except Byte Cpu) (P : List Addr) (d : Cpu) :
    (⟨rewound ((machine insn).pastTrap ((machine insn).patched P d)).regs,
      ((machine insn).pastTrap ((machine insn).patched P d)).mem⟩ : Cpu) = (machine insn).patched P d := by
  show (⟨rewound ((machine insn).past d.regs), _⟩ : Cpu) = _
  rw [rewound_past]
  rfl

/-- **A trap of the armed tracee** in the native state `d` leads to a prompt on the native run. -/
theorem trap_native (hT : Text insn c₀ A) (h : Native insn c₀ A n k) {m : Nat}
    (hd : (machine insn).after m c₀ = .ok d)
    (hwhere : d.regs .rip ∈ addrs k.points ∨ (machine insn).AtTrap d)
    (halign : d.regs .rip ∈ addrs k.points → d.regs .rip = k.ripNow → Aligned k how d.mem)
    (hland : how = .step → d.regs .rip = k.ripNow → k.bpaddrNow = k.ripNow →
      ¬ (machine insn).AtTrap d → ∀ e, insn d = .ok e → e.regs .rip - 1 ∉ addrs k.points)
    {rep : Option Addr}
    (hr : k.stopCourse insn fuel how ((machine insn).pastTrap
      ((machine insn).patched (addrs k.points) d)) = .prompt k' rep) :
    k'.points = k.points ∧ ∃ m', m ≤ m' ∧ Native insn c₀ A m' k' := by
  have hrip := rip_trap insn (addrs k.points) d
  unfold Core.stopCourse at hr
  by_cases hin : d.regs .rip ∈ addrs k.points
  · by_cases hnow : k.ripNow = d.regs .rip
    · -- the breakpoint that has been reported last: the resume path follows
      obtain ⟨b, hb, hbaddr, hagain, hset⟩ :=
        Core.settle_again (k := k) (hrip ▸ hin) (hnow.trans hrip.symm)
      rw [hagain, hset, rewound_trap] at hr
      have hnative := h.of_patched { k with cpu := (machine insn).patched (addrs k.points) d } rfl hd rfl
      rcases halign hin hnow.symm with ⟨hbp, htorn⟩ | hnone
      · refine path_on (k := { k with cpu := (machine insn).patched (addrs k.points) d }) hT hnative hd hb
          (by rw [hbaddr, hnow]) (by rw [hbaddr]; exact hbp) htorn ?_ hr
        exact fun hs => hland hs hnow.symm hbp
      · obtain ⟨hsame, hnative'⟩ := path_stuck hT hnative hd hin hnone hr
        exact ⟨hsame, m, Nat.le_refl m, hnative'⟩
    · obtain ⟨hagain, hset⟩ :=
        Core.settle_report (k := k) (hrip ▸ hin) (fun he => hnow (he.trans hrip))
      rw [hagain, hset, rewound_trap] at hr
      cases hr
      exact ⟨rfl, m, Nat.le_refl m, h.of_patched _ (by rfl) hd (by rfl)⟩
  · -- a trap of the program's own, which is not rewound
    obtain ⟨hagain, hset⟩ := Core.settle_off (k := k) (hrip ▸ hin)
    rw [hagain, hset] at hr
    cases hr
    exact ⟨rfl, m + 1, Nat.le_succ m,
      h.of_patched _ (by rfl) (after_trap hd (hwhere.resolve_left hin)) (by rfl)⟩

/-- **A clean `cont` or `si`** takes the tracee along the native run. -/
theorem resume_native (hT : Text insn c₀ A) (h : Native insn c₀ A n k) (hclean : k.Clean insn how)
    {rep : Option Addr} (hr : k.resume insn fuel how = .prompt k' rep) :
    k'.points = k.points ∧ ∃ m, n ≤ m ∧ Native insn c₀ A m k' := by
  obtain ⟨c, hc, hcpu⟩ := h.state
  have hun := h.unarmed_eq hT hc
  obtain ⟨e, he, hstop⟩ := Course.next_prompt hr
  rw [hcpu] at he
  cases how with
  | cont =>
      -- the armed run up to its first trap is the native run
      obtain ⟨j, d, hj, hquiet, hend⟩ := Machine.runTrap_patched hT.toUndisturbed hc h.inside
        (show (machine insn).runTrap fuel _ = some (.ok e) from he)
      have hd : (machine insn).after (n + j) c₀ = .ok d := by rw [(machine insn).after_add hc, hj]
      rcases hend with ⟨hwhere, hed⟩ | ⟨code, -, -, -, hed⟩
      · cases hed
        have halign := hclean j d (by rw [hun, hj]) (by rw [hun]; exact hquiet)
        obtain ⟨hsame, m, hm, hnative⟩ := trap_native hT h hd hwhere halign (fun hs => by cases hs) hstop
        exact ⟨hsame, m, by omega, hnative⟩
      · cases hed
  | step =>
      obtain ⟨halign, hland⟩ := hclean
      rw [hun] at halign hland
      have hregs : k.cpu.regs = c.regs := by rw [hcpu]; rfl
      rw [hregs] at halign hland
      have he' : (machine insn).step ((machine insn).patched (addrs k.points) c) = .ok e :=
        Option.some.inj he
      by_cases hin : c.regs .rip ∈ addrs k.points
      · -- the step is the int3 under the tracee
        rw [(machine insn).step_trap (Machine.atTrap_patched.mpr (Or.inl hin))] at he'
        cases he'
        refine trap_native hT h hc (Or.inl hin) halign ?_ hstop
        exact fun _ hnow hbp => hland fun _ => ⟨hnow, hbp⟩
      · rw [Machine.patched_step hT.toUndisturbed hc h.inside hin] at he'
        cases hs : (machine insn).step c with
        | error code =>
            rw [hs] at he'
            cases he'
        | ok d =>
            rw [hs] at he'
            cases he'
            have hd : (machine insn).after (n + 1) c₀ = .ok d := by rw [(machine insn).after_succ hc, hs]
            have hoff : d.regs .rip - 1 ∉ addrs k.points := by
              by_cases ht : (machine insn).AtTrap c
              · rw [(machine insn).step_trap ht] at hs
                cases hs
                rw [show ((machine insn).pastTrap c).regs .rip - 1 = c.regs .rip from
                  rip_past (i := insn) c.regs]
                exact hin
              · rw [(machine insn).step_insn ht] at hs
                exact hland (fun hx => absurd hx hin) ht d hs
            obtain ⟨hagain, hset⟩ := Core.settle_off (k := k)
              (d := (machine insn).patched (addrs k.points) d) hoff
            rw [Core.stopCourse, hagain, hset] at hstop
            cases hstop
            exact ⟨rfl, n + 1, Nat.le_succ n, h.of_patched _ (by rfl) hd (by rfl)⟩

/-! ## The commands that only look -/

section Looking

variable {H : Host (List Bool)} {s s' : Debugger (List Bool)}

theorem Shows.of_tracee (h : Shows s k) (hsame : s'.state = s.state ∧ s'.points = s.points ∧
    s'.ripNow = s.ripNow ∧ s'.bpaddrNow = s.bpaddrNow) (ht : s'.tracee = s.tracee) : Shows s' k := by
  obtain ⟨hstate, hpoints, hrip, hbp⟩ := hsame
  obtain ⟨p, hp, hcpu, hsched⟩ := h.tracee
  exact ⟨hstate.trans h.running, hpoints.trans h.points, hrip.trans h.ripNow, hbp.trans h.bpaddrNow,
    p, ⟨ht.trans hp.tracee, hp.stopped⟩, hcpu, hsched⟩

theorem Shows.getregs (h : Shows s k) (flag : Bool) :
    ∃ s', getregs H s flag = .ok (0, s') ∧ Shows s' k := by
  obtain ⟨p, hp, -⟩ := h.tracee
  unfold Sdb.getregs
  rw [if_neg (fun hne => hne h.running), World.getregs_stopped hp.tracee hp.stopped]
  cases flag with
  | false => exact ⟨_, rfl, h.of_tracee ⟨rfl, rfl, rfl, rfl⟩ rfl⟩
  | true => exact ⟨_, rfl, h.of_tracee ⟨rfl, rfl, rfl, rfl⟩ rfl⟩

theorem Shows.dumpLoop (h : Shows s k) (length : Int) (rows : Nat) (cnt : Int) :
    Shows (dumpLoop H length rows cnt s) k := by
  induction rows generalizing s cnt with
  | zero => exact h
  | succ rows ih =>
      obtain ⟨p, hp, -⟩ := h.tracee
      unfold Sdb.dumpLoop
      have h1 := World.peektext_stopped (H := H) hp.tracee hp.stopped s.dumpaddr
      have h2 := World.peektext_stopped (H := H)
        (show (s.world.logged (.request s.child true)).procs s.child = some p from hp.tracee) hp.stopped
        (s.dumpaddr + 8)
      simp only [h1, h2]
      refine ih ?_ _
      exact h.of_tracee ⟨rfl, rfl, rfl, rfl⟩ rfl

theorem Shows.dump (h : Shows s k) (sAddr : String) : ∃ s', dump H s sAddr = .ok s' ∧ Shows s' k := by
  unfold Sdb.dump
  rw [if_neg (fun hne => hne h.running)]
  refine ⟨_, rfl, Shows.dumpLoop ?_ _ _ _⟩
  by_cases hno : sAddr ≠ "NO"
  · rw [if_pos hno]
    exact h.of_tracee ⟨rfl, rfl, rfl, rfl⟩ rfl
  · rw [if_neg hno]
    exact h

theorem Shows.getreg (h : Shows s k) (reg : String) : ∃ s', getreg H s reg = .ok s' ∧ Shows s' k := by
  obtain ⟨s₁, hs₁, hk⟩ := h.getregs (H := H) false
  simp only [Sdb.getreg, hs₁, bind, Except.bind, ne_eq, not_true_eq_false, if_false]
  by_cases hqq : reg = "QQ"
  · rw [if_pos hqq]
    exact ⟨s₁, rfl, hk⟩
  · rw [if_neg hqq]
    cases regsMap reg with
    | none => exact ⟨_, rfl, hk.of_tracee ⟨rfl, rfl, rfl, rfl⟩ rfl⟩
    | some r => exact ⟨_, rfl, hk.of_tracee ⟨rfl, rfl, rfl, rfl⟩ rfl⟩

end Looking

/-! ## One command -/

section Commands

variable {s s' : Debugger (List Bool)}

/-- The commands that watch a program without steering it elsewhere. -/
inductive Watching : Command → Prop
  | break (sAddr : String) : Watching (.break sAddr)
  | delete (sId : String) : Watching (.delete sId)
  | cont : Watching .cont
  | si : Watching .si
  | list : Watching .list
  | get (reg : String) : Watching (.get reg)
  | getregs : Watching .getregs
  | dump (sAddr : String) : Watching (.dump sAddr)

/-- **A clean command**: a breakpoint is set in the text only, and `cont` and `si` are clean. -/
def CleanCommand (insn : Cpu → Except Byte Cpu) (A : Set Addr) (s : Debugger (List Bool)) :
    Command → Prop
  | .break sAddr => s.state = .running → addrOf sAddr ∈ A
  | .cont => ∀ k, Shows s k → k.Clean insn .cont
  | .si => ∀ k, Shows s k → k.Clean insn .step
  | _ => True

/-- The debugger at a prompt, with its tracee on the native run. -/
def OnRun (insn : Cpu → Except Byte Cpu) (c₀ : Cpu) (A : Set Addr) (n : Nat)
    (s : Debugger (List Bool)) : Prop := ∃ k, Shows s k ∧ Native insn c₀ A n k

theorem OnRun.overlay (hT : Text insn c₀ A) (h : OnRun insn c₀ A n s) :
    ∃ c, (machine insn).after n c₀ = .ok c ∧ Overlay c.mem s ∧ (∀ p, s.Holds p → p.cpu.regs = c.regs) ∧
      (∀ q ∈ s.points, q.addr ∈ A) ∧ ∀ q ∈ s.points, (Mem.peek c.mem q.addr).isSome := by
  obtain ⟨k, hk, hn⟩ := h
  obtain ⟨c, hc, hcpu⟩ := hn.state
  obtain ⟨p, hp, hpcpu, -⟩ := hk.tracee
  have hin : ∀ q ∈ s.points, q.addr ∈ A := by
    intro q hq
    rw [hk.points] at hq
    exact hn.inside _ (mem_addrs hq)
  refine ⟨c, hc, ⟨hk.running, ?_, p, hp, ?_⟩, ?_, hin, fun q hq => hT.mapped n c hc _ (hin q hq)⟩
  · rw [hk.points]
    exact hn.placed_at hT hc
  · rw [hpcpu, hcpu, hk.points]
    rfl
  · intro q hq
    rw [hq.unique hp, hpcpu, hcpu]
    rfl

/-- An edited table leaves the tracee where it is on the native run. -/
theorem OnRun.of_edited (hT : Text insn c₀ A) (hc : (machine insn).after n c₀ = .ok c)
    (hregs : ∀ p, s.Holds p → p.cpu.regs = c.regs) (hp : ∃ p, s.Holds p) (hov : Overlay c.mem s')
    (hed : Edited s s') (hin : ∀ q ∈ s'.points, q.addr ∈ A) : OnRun insn c₀ A n s' := by
  obtain ⟨p, hp⟩ := hp
  obtain ⟨m, hm⟩ := hed.tracee p hp
  obtain ⟨p', hp', hmem⟩ := hov.tracee
  cases hm.unique hp'
  refine ⟨⟨(p.withMem m).cpu, p.hidden, s'.points, s'.ripNow, s'.bpaddrNow⟩,
    ⟨hov.running, rfl, rfl, rfl, _, hm, rfl, rfl⟩, ⟨c, hc, ?_⟩, ?_, ?_⟩
  · show (⟨p.cpu.regs, m⟩ : Cpu) = ⟨c.regs, armed s'.points c.mem⟩
    rw [hregs p hp, show m = _ from hmem]
  · exact hov.placed.congr fun q hq => (hT.after_kept hc (hin q hq)).symm
  · intro a ha
    obtain ⟨q, hq, rfl⟩ := List.mem_map.mp ha
    exact hin q hq

/-- A command that follows a clean resume, and has come to a prompt of a running program. -/
theorem Follows.native {H : Host (List Bool)} (hT : Text insn c₀ A) (hn : Native insn c₀ A n k)
    (hclean : k.Clean insn how) (h : Follows H s (k.resume insn fuel how) (.ok s'))
    (hrun : s'.state = .running) : ∃ m, n ≤ m ∧ OnRun insn c₀ A m s' := by
  cases hr : k.resume insn fuel how with
  | forever =>
      rw [hr] at h
      cases h
  | exit code =>
      rw [hr] at h
      obtain ⟨s₁, hs₁, hex⟩ := h
      cases hs₁
      rw [hex.loaded] at hrun
      cases hrun
  | prompt k' rep =>
      rw [hr] at h
      obtain ⟨-, m, hm, hnative⟩ := resume_native hT hn hclean hr
      exact ⟨m, hm, k', h.1, hnative⟩

theorem OnRun.running (h : OnRun insn c₀ A n s) : s.state = .running := by
  obtain ⟨k, hk, -⟩ := h
  exact hk.running

/-- **`break`** in the text leaves the tracee where it is. -/
theorem breakpoint_native (hT : Text insn c₀ A) (h : OnRun insn c₀ A n s) {sAddr : String}
    (ha : addrOf sAddr ∈ A) (hexec : breakpoint (hosted insn fuel S) s sAddr = .ok s') :
    OnRun insn c₀ A n s' := by
  obtain ⟨c, hc, hov, hregs, hin, hmapped⟩ := h.overlay hT
  have hheld : ∃ p, s.Holds p := hov.tracee.imp fun p hp => hp.1
  obtain ⟨s₁, hs₁, hov₁, hed, hcase⟩ :=
    breakpoint_overlay (H := hosted insn fuel S) hov (hT.mapped n c hc _ ha) (hosted_pokable s _)
  cases hexec.symm.trans hs₁
  refine OnRun.of_edited hT hc hregs hheld hov₁ hed ?_
  intro q hq
  rcases hcase with ⟨-, hpoints, -⟩ | ⟨-, -, ori, hpoints⟩
  · rw [hpoints] at hq
    exact hin q hq
  · rw [hpoints] at hq
    rcases List.mem_append.mp hq with hq | hq
    · exact hin q hq
    · cases List.mem_singleton.mp hq
      exact ha

/-- **`delete`** leaves the tracee where it is. -/
theorem del_native (hT : Text insn c₀ A) (h : OnRun insn c₀ A n s) {sId : String}
    (hexec : del (hosted insn fuel S) s sId = .ok s') : OnRun insn c₀ A n s' := by
  obtain ⟨c, hc, hov, hregs, hin, hmapped⟩ := h.overlay hT
  have hheld : ∃ p, s.Holds p := hov.tracee.imp fun p hp => hp.1
  rcases del_cases hexec with ⟨hidle, -⟩ | ⟨-, ⟨-, rfl⟩ | ⟨id, hid, -⟩⟩
  · exact absurd h.running hidle
  · exact h
  · obtain ⟨s₁, hs₁, hov₁, hed, -, hpoints⟩ := del_overlay (H := hosted insn fuel S) hov hmapped
      (fun q _ => hosted_pokable s q.addr) hid
    cases hexec.symm.trans hs₁
    refine OnRun.of_edited hT hc hregs hheld hov₁ hed ?_
    intro q hq
    rw [hpoints] at hq
    exact hin q (List.mem_of_mem_eraseP hq)

/-- **One clean command** keeps the tracee on the native run and does not move backwards. -/
theorem exec_native (hT : Text insn c₀ A) (h : OnRun insn c₀ A n s) {cmd : Command}
    (hw : Watching cmd) (hclean : CleanCommand insn A s cmd)
    (hexec : exec (hosted insn fuel S) s cmd = .ok s') (hrun : s'.state = .running) :
    ∃ m, n ≤ m ∧ OnRun insn c₀ A m s' := by
  have ⟨k, hk, hn⟩ := h
  cases hw with
  | «break» sAddr => exact ⟨n, Nat.le_refl n, breakpoint_native hT h (hclean h.running) hexec⟩
  | delete sId => exact ⟨n, Nat.le_refl n, del_native hT h hexec⟩
  | cont =>
      have hfollow := cont_course insn fuel S hk
      rw [show cont (hosted insn fuel S) s = .ok s' from hexec] at hfollow
      exact hfollow.native hT hn (hclean k hk) hrun
  | si =>
      have hfollow := si_course insn fuel S hk
      rw [show si (hosted insn fuel S) s = .ok s' from hexec] at hfollow
      exact hfollow.native hT hn (hclean k hk) hrun
  | list =>
      cases hexec
      exact ⟨n, Nat.le_refl n, k, hk.of_tracee ⟨rfl, rfl, rfl, rfl⟩ rfl, hn⟩
  | get reg =>
      obtain ⟨s₁, hs₁, hk₁⟩ := hk.getreg (H := hosted insn fuel S) reg
      cases hexec.symm.trans hs₁
      exact ⟨n, Nat.le_refl n, k, hk₁, hn⟩
  | getregs =>
      obtain ⟨s₁, hs₁, hk₁⟩ := hk.getregs (H := hosted insn fuel S) true
      simp only [exec, hs₁, bind, Except.bind] at hexec
      cases hexec
      exact ⟨n, Nat.le_refl n, k, hk₁, hn⟩
  | dump sAddr =>
      obtain ⟨s₁, hs₁, hk₁⟩ := hk.dump (H := hosted insn fuel S) sAddr
      cases hexec.symm.trans hs₁
      exact ⟨n, Nat.le_refl n, k, hk₁, hn⟩

/-- Without a program running these commands leave it so. -/
theorem exec_idle {H : Host (List Bool)} {cmd : Command} (hw : Watching cmd)
    (hidle : s.state ≠ .running) (hexec : exec H s cmd = .ok s') : s'.state ≠ .running := by
  have hnot : ∀ {r : Except Halt (Debugger (List Bool))}, r = .ok s.notRunning → r = .ok s' →
      s'.state ≠ .running := by
    intro r hr hs'
    cases hr.symm.trans hs'
    exact hidle
  cases hw with
  | «break» sAddr => exact hnot (if_pos hidle) hexec
  | delete sId => exact hnot (if_pos hidle) hexec
  | cont => exact hnot (if_pos hidle) hexec
  | si => exact hnot (if_pos hidle) hexec
  | dump sAddr => exact hnot (if_pos hidle) hexec
  | list =>
      cases hexec
      exact hidle
  | get reg =>
      have hg : getregs H s false = .ok (-1, s.notRunning) := if_pos hidle
      simp only [exec, getreg, hg, bind, Except.bind] at hexec
      cases hexec
      exact hidle
  | getregs =>
      have hg : getregs H s true = .ok (-1, s.notRunning) := if_pos hidle
      simp only [exec, hg, bind, Except.bind] at hexec
      cases hexec
      exact hidle

/-- The prompts of a session by the first command and the rest. -/
theorem execAll_take_succ {H : Host (List Bool)} {cmd : Command} {cmds : List Command} {i : Nat}
    (h : execAll H s ((cmd :: cmds).take (i + 1)) = .ok s') :
    ∃ s₁, exec H s cmd = .ok s₁ ∧ execAll H s₁ (cmds.take i) = .ok s' := by
  rw [List.take_succ_cons] at h
  cases hexec : exec H s cmd with
  | error e =>
      simp only [execAll, List.foldlM_cons, hexec] at h
      cases h
  | ok s₁ =>
      rw [execAll_cons hexec] at h
      exact ⟨s₁, rfl, h⟩

/-- The counts at the prompts of a session by those behind its first command. -/
theorem monotone_cons {g : Nat → Nat} (hg : Monotone g) (h : n ≤ g 0) :
    Monotone fun i => Nat.casesOn (motive := fun _ => Nat) i n g := by
  refine monotone_nat_of_le_succ fun i => ?_
  cases i with
  | zero => exact h
  | succ i => exact hg (Nat.le_succ i)

/-- **A clean session.** Its prompts of the running program show states of the native run that never
    move backwards. -/
theorem native_run (hT : Text insn c₀ A) {cmds : List Command} (hcmds : ∀ c ∈ cmds, Watching c)
    (hclean : Along (hosted insn fuel S) (CleanCommand insn A) s cmds)
    (h : s.state = .running → OnRun insn c₀ A n s) :
    ∃ f : Nat → Nat, Monotone f ∧ f 0 = n ∧ ∀ i s', execAll (hosted insn fuel S) s (cmds.take i) = .ok s' →
      s'.state = .running → OnRun insn c₀ A (f i) s' := by
  induction cmds generalizing s n with
  | nil =>
      refine ⟨fun _ => n, monotone_const, rfl, ?_⟩
      intro i s' hs' hrun
      rw [List.take_nil] at hs'
      cases hs'
      exact h hrun
  | cons cmd cmds ih =>
      obtain ⟨hstep, hrest⟩ := hclean
      have hw := hcmds cmd List.mem_cons_self
      cases hexec : exec (hosted insn fuel S) s cmd with
      | error e =>
          refine ⟨fun _ => n, monotone_const, rfl, ?_⟩
          intro i s' hs' hrun
          cases i with
          | zero =>
              cases hs'
              exact h hrun
          | succ i =>
              obtain ⟨s₁, hs₁, -⟩ := execAll_take_succ hs'
              cases hexec.symm.trans hs₁
      | ok s₁ =>
          have hnext : ∃ m, n ≤ m ∧ (s₁.state = .running → OnRun insn c₀ A m s₁) := by
            by_cases hrun₁ : s₁.state = .running
            · by_cases hrun : s.state = .running
              · obtain ⟨m, hm, hon⟩ := exec_native hT (h hrun) hw hstep hexec hrun₁
                exact ⟨m, hm, fun _ => hon⟩
              · exact absurd hrun₁ (exec_idle hw hrun hexec)
            · exact ⟨n, Nat.le_refl n, fun hr => absurd hr hrun₁⟩
          obtain ⟨m, hm, hon⟩ := hnext
          obtain ⟨g, hg, hg0, hprompts⟩ :=
            ih (fun c hc => hcmds c (List.mem_cons_of_mem _ hc)) (hrest s₁ hexec) hon
          refine ⟨fun i => Nat.casesOn i n g, monotone_cons hg (hg0.symm ▸ hm), rfl, ?_⟩
          intro i s' hs' hrun
          cases i with
          | zero =>
              cases hs'
              exact h hrun
          | succ i =>
              rw [List.take_succ_cons, execAll_cons hexec] at hs'
              exact hprompts i s' hs' hrun

end Commands

end AdvUnix.Sdb
