import AdvUnix.Sdb.Native

/-!
# `Sdb.Sample` — small programs

Programs of a few x86-64 instructions on a site that has nothing else, to run sessions of the debugger on:
`nop` and its two-byte form, `stc`, the short `jmp`; any other byte exits. Such a program never writes its
memory, and it reads no byte but its opcode and the displacement of a `jmp` (`sample_text`).
-/

namespace AdvUnix.Sdb

open StepMachine

/-- The registers after one instruction, by its opcode and the byte after it; `none` when it exits. -/
def sampleRegs (r : Regs) (op disp : Option Byte) : Option Regs :=
  match op with
  | some 0x90 => some (Function.update r .rip (r .rip + 1))
  | some 0x66 => some (Function.update r .rip (r .rip + 2))
  | some 0xf9 =>
      some (Function.update (Function.update r .eflags (r .eflags ||| 1)) .rip (r .rip + 1))
  | some 0xeb => some (Function.update r .rip (r .rip + 2 + (disp.getD 0).signExtend 64))
  | _ => none

/-- One instruction. -/
def sampleInsn (c : Cpu) : Except Byte Cpu :=
  match sampleRegs c.regs (c.mem (c.regs .rip)) (c.mem (c.regs .rip + 1)) with
  | some r => .ok ⟨r, c.mem⟩
  | none => .error 0

/-- Where the text is mapped. -/
def sampleBase : Addr := 0x400000

def sampleMem (text : List Byte) : Mem := fun a =>
  if sampleBase ≤ a then text[(a - sampleBase).toNat]? else none

/-- The program at its first instruction. -/
def sampleCpu (text : List Byte) : Cpu :=
  ⟨Function.update (fun _ => 0) .rip sampleBase, sampleMem text⟩

/-- The file of the program, an ELF file that ends after its magic. -/
def sampleFile : Elf.Image := ⟨Elf.elfmag, by decide⟩

/-- The site: every path is the program, and `sched` decides the races. -/
def sampleSite (text : List Byte) (sched : List Bool) : Site (List Bool) where
  openFile := fun _ => some 0
  content := fun _ => sampleFile
  memory := ⟨fun _ => true, fun _ _ => false⟩
  fork := fun _ => true
  execvp := fun _ => some 0
  image := fun _ => some (sampleCpu text, sched)
  csDisasm := fun _ _ => none
  around := fun _ _ => false
  maps := fun _ => []

/-- The system with the program on it. -/
def sampleHost (text : List Byte) (fuel : Nat) : Host (List Bool) :=
  hosted sampleInsn fuel (sampleSite text [])

/-- A debugger that has loaded the program. -/
def sampleLoaded : Debugger (List Bool) :=
  { Debugger.init with
    e := { Elf.Handle.init with file := some ⟨sampleFile, 4⟩, ehdr := Elf.ehdrOf sampleFile }
    state := .loaded
    program := "./a"
    out := [.loaded "./a" 0] }

theorem sample_load (text : List Byte) (fuel : Nat) :
    load (sampleHost text fuel) Debugger.init "./a" = .ok sampleLoaded := rfl

/-- The debugger once it has started the program. -/
def sampleStarted (text : List Byte) (fuel : Nat) : Debugger (List Bool) :=
  { sampleLoaded with
    state := .running
    child := 1
    world := spawn (sampleHost text fuel) sampleLoaded.world "./a"
    out := [.loaded "./a" 0, .pid 1] }

theorem sample_start (text : List Byte) (fuel : Nat) :
    start (sampleHost text fuel) sampleLoaded = .ok (sampleStarted text fuel) := rfl

/-- What is seen of a session that has come to its prompt. -/
theorem ok_of_seen {α : Type} {r : Except Halt (Debugger (List Bool))} {f : Debugger (List Bool) → α} {v : α}
    (h : r.map f = .ok v) : ∃ s, r = .ok s ∧ f s = v := by
  cases r with
  | error e => cases h
  | ok s => exact ⟨s, rfl, Except.ok.inj h⟩

/-- What steers a resume at the end of a session: the table, `rip_now`, `bpaddr_now` and the instruction
    pointer. -/
def steering (r : Except Halt (Debugger (List Bool))) : Except Halt (State × List Addr × Addr × Addr ×
    Option Addr) :=
  r.map fun s => (s.state, addrs s.points, s.ripNow, s.bpaddrNow, s.tracee.map fun p => p.cpu.regs .rip)

theorem Shows.steering {s : Debugger (List Bool)} {k : Core} (hk : Shows s k)
    {r : Except Halt (Debugger (List Bool))} (hr : r = .ok s) :
    Sdb.steering r = .ok (.running, addrs k.points, k.ripNow, k.bpaddrNow, some (k.cpu.regs .rip)) := by
  obtain ⟨p, hp, hcpu, -⟩ := hk.tracee
  have htracee : s.tracee.map (fun p => p.cpu.regs .rip) = some (k.cpu.regs .rip) := by
    rw [hp.tracee, ← hcpu]
    rfl
  rw [hr, Sdb.steering, Except.map, hk.running, hk.points, hk.ripNow, hk.bpaddrNow, htracee]

/-- A `nop`, a two-byte `nop`, then an exit. -/
def nopText : List Byte := [0x90, 0x66, 0x90, 0, 0, 0, 0, 0, 0]

/-- The program writes nothing. -/
theorem sample_keeps {c d : Cpu} (h : sampleInsn c = .ok d) : d.mem = c.mem := by
  unfold sampleInsn at h
  split at h
  · cases h
    rfl
  · cases h

/-- Only a `jmp` looks at the byte after its opcode. -/
theorem sampleRegs_congr {r : Regs} {op disp disp' : Option Byte} (h : op = some 0xeb → disp = disp') :
    sampleRegs r op disp = sampleRegs r op disp' := by
  by_cases heb : op = some 0xeb
  · rw [h heb]
  · unfold sampleRegs
    split
    · rfl
    · rfl
    · rfl
    · exact absurd rfl heb
    · rfl

/-- What an instruction does is decided by its opcode and, for a `jmp`, by the byte after it. -/
theorem sample_congr {c : Cpu} {m : Mem} (hop : m (c.regs .rip) = c.mem (c.regs .rip))
    (hjmp : c.mem (c.regs .rip) = some 0xeb → m (c.regs .rip + 1) = c.mem (c.regs .rip + 1)) :
    sampleInsn ⟨c.regs, m⟩ = (sampleInsn c).map fun d => ⟨d.regs, m⟩ := by
  unfold sampleInsn
  simp only [hop]
  rw [sampleRegs_congr hjmp]
  cases sampleRegs c.regs (c.mem (c.regs .rip)) (c.mem (c.regs .rip + 1)) <;> rfl

variable {c₀ : Cpu} {A : Set Addr}

theorem sample_after_mem {n : Nat} {c : Cpu} (hc : (machine sampleInsn).after n c₀ = .ok c) :
    c.mem = c₀.mem := by
  induction n generalizing c with
  | zero =>
      cases hc
      rfl
  | succ n ih =>
      obtain ⟨b, hb⟩ := (machine sampleInsn).after_of_add (m := n) (n := 1) hc
      rw [(machine sampleInsn).after_succ hb] at hc
      rw [← ih hb]
      by_cases ht : (machine sampleInsn).AtTrap b
      · rw [(machine sampleInsn).step_trap ht] at hc
        cases hc
        rfl
      · rw [(machine sampleInsn).step_insn ht] at hc
        exact sample_keeps hc

/-- A program without `int3` in its bytes executes none. -/
theorem sample_trap_free {text : List Byte} (hno : int3 ∉ text) {n : Nat} {c : Cpu}
    (hc : (machine sampleInsn).after n (sampleCpu text) = .ok c) : ¬ (machine sampleInsn).AtTrap c := by
  intro ht
  have hmem : sampleMem text (c.regs .rip) = some int3 := by
    rw [← show c.mem = sampleMem text from sample_after_mem hc]
    exact ht
  unfold sampleMem at hmem
  split at hmem
  · exact hno (List.mem_of_getElem? hmem)
  · cases hmem

/-- **The text of a program** whose run has no `jmp` with its displacement in it. -/
theorem sample_text (hmapped : ∀ a ∈ A, (Mem.peek c₀.mem a).isSome)
    (hjmp : ∀ n c, (machine sampleInsn).after n c₀ = .ok c → c.mem (c.regs .rip) = some 0xeb →
      c.regs .rip + 1 ∉ A) : Text sampleInsn c₀ A where
  blind := by
    intro n c hc _ m hm
    have hop : m (c.regs .rip) = c.mem (c.regs .rip) := hm _ (fun h => h.2 rfl)
    have hdisp : c.mem (c.regs .rip) = some 0xeb →
        m (c.regs .rip + 1) = c.mem (c.regs .rip + 1) :=
      fun heb => hm _ (fun h => hjmp n c hc heb h.1)
    have hsame := sample_congr hop hdisp
    rw [show (machine sampleInsn).insn = sampleInsn from rfl]
    cases hi : sampleInsn c with
    | error e => rw [hsame, hi]; rfl
    | ok d =>
        refine ⟨m, by rw [hsame, hi]; rfl, fun _ _ => rfl, ?_⟩
        intro a ha
        rw [sample_keeps hi]
        exact hm a ha
  kept := by
    intro n c d _ _ hi a _
    rw [sample_keeps hi]
  mapped := by
    intro n c hc a ha
    rw [sample_after_mem hc]
    exact hmapped a ha

/-- A program without any `jmp` in its bytes. -/
theorem sample_text_straight {text : List Byte} (hno : 0xeb ∉ text)
    (hmapped : ∀ a ∈ A, (Mem.peek (sampleMem text) a).isSome) :
    Text sampleInsn (sampleCpu text) A := by
  refine sample_text hmapped fun n c hc heb => ?_
  rw [sample_after_mem hc] at heb
  change sampleMem text (c.regs .rip) = some 0xeb at heb
  unfold sampleMem at heb
  split at heb
  · exact absurd (List.mem_of_getElem? heb) hno
  · cases heb

end AdvUnix.Sdb
