import AdvUnix.Sdb.Sample

/-!
# `Sdb.Transparency` — debugging does not change the program

At each prompt of a clean session after `start`, the tracee is in a state of the native execution, and
prompts never move backwards on it. A single step that ends one byte past a breakpoint is not clean:
`check_stop` rewinds the instruction pointer although no trap was executed, and the tracee is left in a
state that the native execution does not have.
-/

namespace AdvUnix.Sdb

open StepMachine Debugger

variable {insn : Cpu → Except Byte Cpu} {fuel : Nat} {S : Site (List Bool)}
variable {c₀ : Cpu} {A : Set Addr} {n : Nat} {s s₁ : Debugger (List Bool)} {cmds : List Command}

/-- The tracee is in the native state after `n` steps, the traps of the table read as the original
    bytes. -/
def AtNative (insn : Cpu → Except Byte Cpu) (c₀ : Cpu) (n : Nat) (s : Debugger (List Bool)) : Prop :=
  ∃ c p, (machine insn).after n c₀ = .ok c ∧ s.Holds p ∧ p.cpu.regs = c.regs ∧
    unarmed s.points p.cpu.mem = c.mem

/-- **Transparency of a session**: its prompts with a running program show native states, in the order of
    the native execution. -/
def Transparent (H : Host (List Bool)) (insn : Cpu → Except Byte Cpu) (c₀ : Cpu)
    (s : Debugger (List Bool)) (cmds : List Command) : Prop :=
  ∃ f : Nat → Nat, Monotone f ∧ ∀ i s', execAll H s (cmds.take i) = .ok s' → s'.state = .running →
    AtNative insn c₀ (f i) s'

theorem OnRun.atNative (hT : Text insn c₀ A) (h : OnRun insn c₀ A n s) : AtNative insn c₀ n s := by
  obtain ⟨c, hc, hov, hregs, -, -⟩ := h.overlay hT
  obtain ⟨p, hp, hmem⟩ := hov.tracee
  refine ⟨c, p, hc, hp, hregs p hp, ?_⟩
  rw [hmem, unarmed_armed hov.placed]

/-- A fresh tracee is on its native run. -/
theorem onRun_start {file : Inode} {sched : List Bool} (hstate : s.state ≠ .others)
    (hfile : S.execvp (execPath s.program) = some file) (himage : S.image file = some (c₀, sched))
    (hstart : start (hosted insn fuel S) s = .ok s₁) : OnRun insn c₀ A 0 s₁ := by
  obtain ⟨hshows, -⟩ := start_shows hstate hfile himage hstart
  refine ⟨_, hshows, ⟨c₀, rfl, ?_⟩, Placed.nil _, fun a ha => absurd ha List.not_mem_nil⟩
  show c₀ = ⟨c₀.regs, patch (some int3) [] c₀.mem⟩
  rw [patch_nil]

/-- **Transparency of debugging.** After `start`, every clean session of these commands is
    transparent. -/
theorem transparency {file : Inode} {sched : List Bool} (hstate : s.state ≠ .others)
    (hfile : S.execvp (execPath s.program) = some file) (himage : S.image file = some (c₀, sched))
    (hT : Text insn c₀ A) (hstart : start (hosted insn fuel S) s = .ok s₁)
    (hcmds : ∀ c ∈ cmds, Watching c)
    (hclean : Along (hosted insn fuel S) (CleanCommand insn A) s₁ cmds) :
    Transparent (hosted insn fuel S) insn c₀ s₁ cmds := by
  have hon : OnRun insn c₀ A 0 s₁ := onRun_start hstate hfile himage hstart
  obtain ⟨f, hf, -, hprompts⟩ := native_run hT hcmds hclean fun _ => hon
  exact ⟨f, hf, fun i s' hs' hrun => (hprompts i s' hs' hrun).atNative hT⟩

/-- A session that stops at the second instruction. -/
theorem transparency_nop : Transparent (sampleHost nopText 9) sampleInsn (sampleCpu nopText)
    (sampleStarted nopText 9) [.break "400001", .cont] := by
  have hT : Text sampleInsn (sampleCpu nopText) {0x400001} :=
    sample_text_straight (by decide) (by
      intro a ha
      cases ha
      decide)
  refine transparency (s := sampleLoaded) (by decide) rfl rfl hT (sample_start nopText 9) ?_ ?_
  · intro c hc
    simp only [List.mem_cons, List.not_mem_nil, or_false] at hc
    rcases hc with rfl | rfl
    · exact .break _
    · exact .cont
  · refine ⟨fun _ => by decide, fun s' hs' => ⟨fun k hk j d _ _ hin hnow => ?_, fun _ _ => trivial⟩⟩
    have htable : (exec (sampleHost nopText 9) (sampleStarted nopText 9) (.break "400001")).map
        (fun s => (addrs s.points, s.ripNow)) = .ok ([0x400001], 0) := by decide
    rw [show exec (sampleHost nopText 9) (sampleStarted nopText 9) (.break "400001") = .ok s' from hs',
      Except.map] at htable
    obtain ⟨hpoints, hripNow⟩ := Prod.mk.inj (Except.ok.inj htable)
    rw [← hk.points, hpoints, hnow, ← hk.ripNow, hripNow] at hin
    exact absurd hin (by decide)

/-! ## A session that is not transparent -/

/-- `stc`, then an exit. -/
def carryText : List Byte := [0xf9, 0, 0, 0, 0, 0, 0, 0]

/-- Where the native execution is at its first instruction, the carry flag is clear. -/
theorem carry_native {c : Cpu} (hc : (machine sampleInsn).after n (sampleCpu carryText) = .ok c)
    (hrip : c.regs .rip = 0x400000) : c.regs .eflags = 0 := by
  match n with
  | 0 =>
      cases hc
      rfl
  | 1 =>
      cases hc
      exact absurd hrip (by decide)
  | n + 2 =>
      have hend : (machine sampleInsn).after (n + 2) (sampleCpu carryText) = .error 0 := rfl
      cases hend.symm.trans hc

/-- The instruction pointer and the flags of the tracee at a prompt of a running program. -/
def peekFlags (r : Except Halt (Debugger (List Bool))) : Option (Word × Word) :=
  match r with
  | .ok s => if s.state = .running then s.tracee.map fun p => (p.cpu.regs .rip, p.cpu.regs .eflags)
      else none
  | .error _ => none

/-- The session ends in a state that the native execution does not have: back at the first instruction, with the
    carry flag set. -/
theorem carry_not_native : ∃ s', execAll (sampleHost carryText 9) (sampleStarted carryText 9)
      [.break "400000", .si, .si] = .ok s' ∧ s'.state = .running ∧
    ∀ n, ¬ AtNative sampleInsn (sampleCpu carryText) n s' := by
  have hlook : peekFlags (execAll (sampleHost carryText 9) (sampleStarted carryText 9)
      [.break "400000", .si, .si]) = some (0x400000, 1) := by decide
  cases hs : execAll (sampleHost carryText 9) (sampleStarted carryText 9) [.break "400000", .si, .si] with
  | error e =>
      rw [hs] at hlook
      cases hlook
  | ok s' =>
      rw [hs, peekFlags] at hlook
      split at hlook
      · rename_i hrun
        refine ⟨s', rfl, hrun, ?_⟩
        rintro n ⟨c, p, hc, hp, hregs, -⟩
        rw [hp.tracee, Option.map_some, hregs] at hlook
        obtain ⟨hrip, hflags⟩ := Prod.mk.inj (Option.some.inj hlook)
        rw [carry_native hc hrip] at hflags
        exact absurd hflags (by decide)
      · cases hlook

/-- `break` at a one-byte instruction and `si` twice: the second `si` executes the instruction, and the
    tracee is back in front of it. The program writes no memory. -/
theorem si_not_transparent :
    (∀ c d, sampleInsn c = .ok d → d.mem = c.mem) ∧
    (∀ c ∈ [Command.break "400000", .si, .si], Watching c) ∧
    start (sampleHost carryText 9) sampleLoaded = .ok (sampleStarted carryText 9) ∧
      ¬ Transparent (sampleHost carryText 9) sampleInsn (sampleCpu carryText)
        (sampleStarted carryText 9) [.break "400000", .si, .si] := by
  refine ⟨fun c d => sample_keeps, ?_, rfl, ?_⟩
  · intro c hc
    simp only [List.mem_cons, List.not_mem_nil, or_false] at hc
    rcases hc with rfl | rfl | rfl
    · exact .break _
    · exact .si
    · exact .si
  · rintro ⟨f, -, hprompts⟩
    obtain ⟨s', hs', hrun, hnot⟩ := carry_not_native
    exact hnot (f 3) (hprompts 3 s' hs' hrun)

end AdvUnix.Sdb
