import AdvUnix.Sdb.Dump
import AdvUnix.Sdb.Numerals
import AdvUnix.Sdb.Robust

/-!
# `Sdb.SetGet` — `set` followed by `get`

`set` writes one field of the register file it has just read, and gives the whole file back. The value comes out of
the signed parser, so it is the one on the command line up to `7fffffffffffffff` only (`set_then_get`).
-/

namespace AdvUnix.Sdb

open Debugger

variable {ω : Type} {H : Host ω} {s : Debugger ω} {p : Proc ω} {reg tok : String} {r : UserReg} {n : Int}

/-! ## The two commands -/

theorem Debugger.Holds.atRest (h : s.Holds p) : s.AtRest := by
  intro q hq
  rw [Option.some.inj (hq.symm.trans h.tracee)]
  exact h.stopped

/-- **`set`** changes one register of a stopped tracee. -/
theorem set_holds (hrun : s.state = .running) (hp : s.Holds p) (hreg : regsMap reg = some r) {sVal : String}
    (hval : sVal ≠ "QQ") :
    ∃ s', set H s reg sVal = .ok s' ∧ s'.state = .running ∧ s'.out = s.out ∧
      s'.Holds (p.withRegs (Function.update p.cpu.regs r (addrOf sVal))) := by
  unfold set
  rw [if_neg (fun hne => hne hrun), if_neg hval, getregs_holds hrun hp]
  simp only [bind, Except.bind, hreg]
  refine ⟨_, rfl, hrun, rfl, ?_, hp.stopped⟩
  have hlogged : (s.world.logged (.request s.child true)).procs s.child = some p := hp.tracee
  show (World.setregs H (s.world.logged (.request s.child true)) s.child _).procs s.child = _
  rw [World.setregs_stopped hlogged hp.stopped]
  exact Function.update_self ..

/-- **`get`** shows a register of a stopped tracee. -/
theorem getreg_holds (hrun : s.state = .running) (hp : s.Holds p) (hreg : regsMap reg = some r) :
    ∃ s', getreg H s reg = .ok s' ∧ s'.out = s.out ++ [.reg reg (p.cpu.regs r)] ∧ s'.Holds p := by
  have hname : reg ≠ "QQ" := by
    rintro rfl
    cases hreg
  unfold getreg
  rw [getregs_holds hrun hp]
  simp only [bind, Except.bind, if_neg hname, hreg]
  exact ⟨_, rfl, rfl, hp.tracee, hp.stopped⟩

/-! ## One after the other -/

/-- **`set` then `get`**: the two lines are handled, `v` is what is printed, and the other registers of the tracee
    and its memory are as before. -/
def SetsThenGets (H : Host ω) (s : Debugger ω) (reg : String) (r : UserReg) (tok : String) (v : Word) : Prop :=
  ∃ s', execLines H s [["set", reg, tok], ["get", reg]] = .ok s' ∧ s'.out = s.out ++ [.reg reg v] ∧
    (∀ r' ≠ r, s'.tracee.map (·.cpu.regs r') = s.tracee.map (·.cpu.regs r')) ∧ s'.memory = s.memory

/-- On a stopped tracee both lines are handled, and what is printed is the value that the parser made. -/
theorem setThenGet_run (hrun : s.state = .running) (hp : s.Holds p) (hreg : regsMap reg = some r)
    (hval : tok ≠ "QQ") :
    ∃ s', execLines H s [["set", reg, tok], ["get", reg]] = .ok s' ∧
      s'.out = s.out ++ [.reg reg (addrOf tok)] ∧
      s'.Holds (p.withRegs (Function.update p.cpu.regs r (addrOf tok))) := by
  obtain ⟨s₁, hset, hrun₁, hout₁, hp₁⟩ := @set_holds ω H s p reg r hrun hp hreg tok hval
  obtain ⟨s₂, hget, hout₂, hp₂⟩ := @getreg_holds ω H s₁ _ reg r hrun₁ hp₁ hreg
  have hline₁ : execLine H s ["set", reg, tok] = .ok s₁ := hset
  have hline₂ : execLine H s₁ ["get", reg] = .ok s₂ := hget
  have hshown : (p.withRegs (Function.update p.cpu.regs r (addrOf tok))).cpu.regs r = addrOf tok :=
    Function.update_self ..
  refine ⟨s₂, ?_, ?_, hp₂⟩
  · rw [execLines_cons hline₁, execLines_cons hline₂]
    rfl
  · rw [hout₂, hout₁, hshown]

/-- **When `set` then `get` gives the value back**, for a tracee that is still there: below `2 ^ 63`. -/
theorem set_then_get (hrun : s.state = .running) (hrest : s.AtRest) (hreg : regsMap reg = some r)
    (htok : HexNumeral tok n) (hlow : -2 ^ 63 ≤ n) (hhigh : n < 2 ^ 64) :
    SetsThenGets H s reg r tok (BitVec.ofInt 64 n) ↔ s.tracee.isSome ∧ n < 2 ^ 63 := by
  cases ht : s.tracee with
  | none =>
      -- `getregs` ends the debugger
      have hquit : execLine H s ["set", reg, tok] = .error (.quit "** ptrace error.") := by
        show set H s reg tok = _
        unfold set
        rw [if_neg (fun hne => hne hrun), if_neg htok.ne_QQ]
        rcases @getregs_at_rest ω H s hrun hrest false with ⟨-, hquit⟩ | ⟨hsome, -⟩
        · rw [hquit]
          rfl
        · rw [ht] at hsome
          cases hsome
      simp only [Option.isSome_none, Bool.false_eq_true, false_and, iff_false]
      rintro ⟨s', hs', -⟩
      rw [execLines, List.foldlM_cons, hquit] at hs'
      cases hs'
  | some p =>
      obtain ⟨s', hs', hout, hp'⟩ := @setThenGet_run ω H s p reg tok r hrun (hrest.held ht) hreg htok.ne_QQ
      simp only [Option.isSome_some, true_and, ← addrOf_numeral htok hlow hhigh]
      constructor
      · rintro ⟨s'', hs'', hout'', -⟩
        cases hs'.symm.trans hs''
        have hprinted := List.append_cancel_left (hout.symm.trans hout'')
        simpa using hprinted
      · intro hkept
        refine ⟨s', hs', by rw [hout, hkept], ?_, ?_⟩
        · intro r' hne
          rw [hp'.tracee, ht]
          simp only [Option.map_some, Proc.withRegs, Function.update_of_ne hne]
        · funext a
          rw [Debugger.memory, Debugger.memory, hp'.tracee, ht]
          rfl

/-! ## The sample program -/

theorem sampleStarted_holds (text : List Byte) (fuel : Nat) :
    (sampleStarted text fuel).Holds ⟨sampleCpu text, [], .stopped, 0⟩ := ⟨rfl, rfl⟩

/-- `1f` is shown as it was given. -/
theorem set_then_get_sample :
    SetsThenGets (sampleHost nopText 9) (sampleStarted nopText 9) "rax" .rax "1f" (BitVec.ofInt 64 31) := by
  have hp := sampleStarted_holds nopText 9
  have hdigits : Spells hexDigit 16 ['1', 'f'] 31 := spells_digits (by decide) (by decide)
  have htok : HexNumeral "1f" 31 :=
    ⟨false, [], [], ['1', 'f'], 31, rfl, Or.inl ⟨rfl, Or.inl rfl⟩, Or.inl rfl, hdigits, rfl⟩
  exact (set_then_get rfl hp.atRest rfl htok (by decide) (by decide)).mpr ⟨rfl, by decide⟩

/-- `ffffffffffffffff` is not. -/
theorem set_saturates : ¬ ∀ (s : Debugger (List Bool)) (reg : String) (r : UserReg) (tok : String) (n : Int),
    s.state = .running → s.AtRest → s.tracee.isSome → regsMap reg = some r → HexNumeral tok n →
      -2 ^ 63 ≤ n → n < 2 ^ 64 → SetsThenGets (sampleHost nopText 9) s reg r tok (BitVec.ofInt 64 n) := by
  intro h
  have hp := sampleStarted_holds nopText 9
  have hdigits : Spells hexDigit 16 (List.replicate 16 'f') (2 ^ 64 - 1) :=
    spells_digits (by decide) (by decide)
  have htok : HexNumeral "ffffffffffffffff" (2 ^ 64 - 1) :=
    ⟨false, [], [], List.replicate 16 'f', 2 ^ 64 - 1, rfl, Or.inl ⟨rfl, Or.inl rfl⟩, Or.inl rfl, hdigits, rfl⟩
  obtain ⟨s', hs', hout, -⟩ := h (sampleStarted nopText 9) "rax" .rax "ffffffffffffffff" (2 ^ 64 - 1)
    rfl hp.atRest rfl rfl htok (by decide) (by decide)
  obtain ⟨s'', hs'', hout'', -⟩ :=
    @setThenGet_run _ (sampleHost nopText 9) _ _ "rax" "ffffffffffffffff" .rax rfl hp rfl (by decide)
  cases hs''.symm.trans hs'
  have hprinted := List.append_cancel_left (hout''.symm.trans hout)
  simp only [List.cons.injEq, Out.reg.injEq, true_and, and_true] at hprinted
  exact absurd hprinted (by decide)

end AdvUnix.Sdb
