import AdvUnix.Sdb.Disasm
import AdvUnix.Sdb.Protocol

/-!
# `Sdb.Robust` — what every line of input comes to

A line of input is handled when the debugger is back at its prompt after it, or has ended by `exit` or by
`error_quit`. Each command has its own way to fail that (`Handles`): a register name that `regs_map` does not
have is written through, a breakpoint id that is no number throws, and what a command takes from files, from
`/proc` and from `waitpid` is not checked either (`dispatch_handled`).
-/

namespace AdvUnix.Sdb

open ByteStore Debugger

variable {ω α β : Type} {H : Host ω}
variable {s s' : Debugger ω} {p q : Proc ω} {how : Resume}

/-! ## Handled results -/

/-- The debugger has ended on purpose. -/
def Halt.Proper : Halt → Prop
  | .exit => True
  | .quit _ => True
  | _ => False

/-- **Handled**: back at the prompt, or ended by `exit` or `error_quit`. -/
def Handled (r : Except Halt α) : Prop := ∀ e, r = .error e → e.Proper

theorem handled_ok (a : α) : Handled (.ok a) := by
  intro e he
  cases he

theorem handled_error {e : Halt} : Handled (.error e : Except Halt α) ↔ e.Proper := by
  constructor
  · intro h
    exact h e rfl
  · rintro h e' ⟨⟩
    exact h

theorem handled_map {r : Except Halt α} {f : α → β} : Handled (r.map f) ↔ Handled r := by
  cases r with
  | ok a => exact ⟨fun _ => handled_ok a, fun _ => handled_ok (f a)⟩
  | error e => exact handled_error.trans handled_error.symm

/-- What goes on after a step is handled if it always ends well. -/
theorem handled_bind {r : Except Halt α} {k : α → Except Halt β} (hk : ∀ a, r = .ok a → Handled (k a)) :
    Handled (r.bind k) ↔ Handled r := by
  cases r with
  | ok a => exact ⟨fun _ => handled_ok a, fun _ => hk a rfl⟩
  | error e => exact handled_error.trans handled_error.symm

/-! ## Showing instructions -/

/-- The code of the program has been read, or can be: its file opens and its size fits an `int`. -/
def CodeReadable (H : Host ω) (s : Debugger ω) : Prop :=
  s.code.isSome ∨ ∃ i, H.openFile s.program = some i ∧ (H.content i).bytes.length + 1 < 2 ^ 31

theorem codeOf_handled : Handled (codeOf H s.program s.code) ↔ CodeReadable H s := by
  unfold codeOf CodeReadable
  cases s.code with
  | some code => exact ⟨fun _ => Or.inl rfl, fun _ => handled_ok code⟩
  | none =>
      cases H.openFile s.program with
      | none =>
          rw [handled_error]
          constructor
          · intro h
            cases h
          · rintro (h | ⟨i, hi, -⟩)
            · cases h
            · cases hi
      | some i =>
          by_cases hlen : (H.content i).bytes.length + 1 < 2 ^ 31
          · simp only [if_pos hlen]
            exact ⟨fun _ => Or.inr ⟨i, rfl, hlen⟩, fun _ => handled_ok _⟩
          · simp only [if_neg hlen]
            rw [handled_error]
            constructor
            · intro h
              cases h
            · rintro (h | ⟨j, hj, hlen'⟩)
              · cases h
              · cases hj
                exact absurd hlen' hlen

/-- The 256 bytes at an offset lie in the buffer, or what lies around it can be read. -/
def WindowReadable (H : Host ω) (code : List Byte) (offset : Int) : Prop :=
  (0 ≤ offset ∧ offset.toNat + 256 ≤ code.length) ∨ H.around code offset

theorem disassemble_handled (code : List Byte) (offset : Int) (addr : Addr) :
    Handled (disassemble H code offset addr) ↔ WindowReadable H code offset := by
  unfold disassemble WindowReadable
  rw [← window_inside_iff, ← List.all_eq_true, ← Bool.or_eq_true]
  cases (window code offset).all Option.isSome || H.around code offset with
  | true =>
      refine iff_of_true ?_ rfl
      rw [if_pos rfl]
      split
      · exact handled_error.mpr trivial
      · exact handled_ok _
  | false =>
      refine iff_of_false ?_ Bool.false_ne_true
      rw [if_neg Bool.false_ne_true]
      exact fun h => handled_error.mp h

/-- The loop needs every window that it comes to. -/
theorem disasmLoop_handled (code : List Byte) (text : Elf.Shdr) (n : Nat) (addr : Addr) (acc : List Out) :
    Handled (disasmLoop H code text n addr acc) ↔
      ∀ x ∈ visits H code text n addr, WindowReadable H code (offsetAt text x).toInt := by
  induction n generalizing addr acc with
  | zero => exact iff_of_true (handled_ok acc) fun x hx => absurd hx List.not_mem_nil
  | succ n ih =>
      have hfirst := disassemble_handled (H := H) code (offsetAt text addr).toInt addr
      rw [visits]
      by_cases hend : textEnd text ≤ addr
      · rw [disasmLoop_end hend, if_pos hend]
        exact iff_of_true (handled_ok acc) fun x hx => absurd hx List.not_mem_nil
      · rw [disasmLoop_next hend, if_neg hend]
        cases hd : disassemble H code (offsetAt text addr).toInt addr with
        | error e =>
            rw [hd, handled_error] at hfirst
            simp only
            rw [List.forall_mem_singleton, ← hfirst]
            exact handled_error
        | ok i =>
            rw [hd] at hfirst
            simp only
            rw [Except.bind, List.forall_mem_cons, ih]
            exact (and_iff_right (hfirst.mp (handled_ok i))).symm

/-- **What it takes to show** up to `n` instructions from an address on: the code has been read, or can be, and
    so can each window of it that is handed to the decoder. -/
def Showable (H : Host ω) (s : Debugger ω) (addr : Addr) (n : Nat) : Prop :=
  CodeReadable H s ∧ ∀ code, codeOf H s.program s.code = .ok code →
    ∀ x ∈ visits H code s.text n addr, WindowReadable H code (offsetAt s.text x).toInt

theorem listing_handled (addr : Addr) (len : Nat) :
    Handled (listing H s.program s.text s.code addr len) ↔ Showable H s addr len := by
  unfold listing Showable
  rw [← codeOf_handled]
  cases codeOf H s.program s.code with
  | error e =>
      have hends : Handled ((.error e : Except Halt (List Byte)).bind fun code =>
          (disasmLoop H code s.text len addr []).map fun lines => (code, lines)) ↔ e.Proper := handled_error
      rw [hends, handled_error]
      refine ⟨fun h => ⟨h, ?_⟩, fun h => h.1⟩
      intro code hcode
      cases hcode
  | ok code =>
      refine handled_map.trans ((disasmLoop_handled code s.text len addr []).trans ?_)
      constructor
      · rintro h
        refine ⟨handled_ok code, ?_⟩
        rintro _ ⟨⟩
        exact h
      · rintro ⟨-, h⟩
        exact h code rfl

/-! ## Waiting for the tracee -/

/-- What a process reports when it is waited for: the report and its registers then. -/
def Proc.due (H : Host ω) (p : Proc ω) : Option (WaitStatus × Regs) :=
  match p.phase with
  | .stopped => none
  | .arrived st => some (st, p.cpu.regs)
  | .resumed how => (H.run how p.cpu p.hidden).map fun r => (r.1, r.2.1.regs)

/-- **A report that `check_stop` can answer**: one that comes at all, and if it is a stop at a breakpoint that
    is to be shown, its instruction can be. -/
def Answers (H : Host ω) (s : Debugger ω) : Option (WaitStatus × Regs) → Prop
  | none => False
  | some (.stopped _, r) => ∀ b, hit s.points r = some b → s.ripNow ≠ b.addr →
      Showable H s (addrOf (hexString b.addr)) 1
  | some _ => True

theorem classifyStop_handled (hrun : s.state = .running) (hp : s.Holds p) :
    Handled (classifyStop H s) ↔ ∀ b, hit s.points p.cpu.regs = some b → s.ripNow ≠ b.addr →
      Showable H s (addrOf (hexString b.addr)) 1 := by
  constructor
  · intro h b hhit hne
    refine (listing_handled (addrOf (hexString b.addr)) 1).mp ?_
    show Handled (reportOf H s b.addr)
    rcases classifyStop_report hrun hp hhit hne with ⟨e, hrep, hc⟩ | ⟨s', hs', hv⟩
    · rw [hc] at h
      rw [hrep]
      exact handled_error.mpr (handled_error.mp h)
    · cases hv with
      | report b' code lines hhit' _ _ _ _ _ hrep =>
          obtain rfl : b = b' := Option.some.inj (hhit.symm.trans hhit')
          rw [hrep]
          exact handled_ok (code, lines)
  · intro h
    have hv := classifyStop_verdict (H := H) hrun hp
    cases hc : classifyStop H s with
    | ok x => exact handled_ok x
    | error e =>
        rw [hc] at hv
        obtain ⟨b, hhit, hne, hrep⟩ := hv
        have hshown : Handled (reportOf H s b.addr) := (listing_handled _ 1).mpr (h b hhit hne)
        rw [hrep] at hshown
        exact handled_error.mpr (handled_error.mp hshown)

/-- **A wait** for a process that is there. -/
theorem checkStop_handled (hrun : s.state = .running) (ht : s.tracee = some p) :
    Handled (checkStop H s) ↔ Answers H s (p.due H) := by
  have ht' : s.world.procs s.child = some p := ht
  have hreports : ∀ {st : WaitStatus} {q : Proc ω}, Due H s st q →
      (Handled (checkStop H s) ↔ Answers H s (some (st, q.cpu.regs))) := by
    intro st q hdue
    cases st with
    | stopped sig =>
        rw [checkStop_stopped hdue]
        have hheld : (collected s q (.stopped sig)).Holds { q with phase := .stopped } :=
          (collected_moved s q _).holds rfl
        have hclassify := classifyStop_handled (H := H) (by exact hrun) hheld
        exact hclassify
    | exited code =>
        rw [checkStop_exited hdue]
        exact ⟨fun _ => trivial, fun _ => handled_ok _⟩
    | signaled sig =>
        rw [checkStop_signaled hdue]
        exact ⟨fun _ => trivial, fun _ => handled_ok _⟩
  have hblocks : s.world.waitpid H s.child = .blocked → (Handled (checkStop H s) ↔ False) := by
    intro hw
    unfold checkStop
    rw [hw, handled_error]
    exact Iff.rfl
  rcases hphase : p.phase with _ | how | st
  · have hnone : p.due H = none := by simp only [Proc.due, hphase]
    rw [hnone]
    exact hblocks (by simp only [World.waitpid, ht', hphase])
  · have hdue : p.due H = (H.run how p.cpu p.hidden).map fun r => (r.1, r.2.1.regs) := by
      simp only [Proc.due, hphase]
    rw [hdue]
    cases hcomes : H.run how p.cpu p.hidden with
    | none => exact hblocks (by simp only [World.waitpid, ht', hphase, hcomes])
    | some r =>
        obtain ⟨st, cpu, hidden⟩ := r
        exact hreports (due_resumed ht hphase hcomes)
  · have hdue : p.due H = some (st, p.cpu.regs) := by simp only [Proc.due, hphase]
    rw [hdue]
    exact hreports (due_arrived ht hphase)

/-! ## Looking at a tracee that runs -/

/-- A process is served as it is after the look, when it is in a stop. -/
theorem request_looked {w : World ω} {pid : Pid} (hp : w.procs pid = some p) :
    (w.request H pid).2.procs pid = some (p.looked H) ∧
      ∀ q, (w.request H pid).1 = some q → q = p.looked H ∧ ∀ how, q.phase ≠ .resumed how := by
  rw [World.request_spec hp]
  refine ⟨World.setProc_procs_self _, ?_⟩
  intro q hq
  cases hserves : (p.looked H).serves with
  | true =>
      simp only [hserves, if_true] at hq
      cases hq
      exact ⟨rfl, Proc.not_resumed hserves⟩
  | false =>
      simp only [hserves, Bool.false_eq_true, if_false] at hq
      cases hq

theorem peektext_procs {w : World ω} {pid : Pid} (a : Addr) :
    (w.peektext H pid a).2.procs = (w.request H pid).2.procs := by
  unfold World.peektext
  rcases w.request H pid with ⟨_ | p, w'⟩ <;> rfl

/-- What a request writes does not change the report that is due. -/
theorem poketext_due {w : World ω} {pid : Pid} (hp : w.procs pid = some p) (a : Addr) (v : Word) :
    ∃ q, (w.poketext H pid a v).procs pid = some q ∧ q.due H = (p.looked H).due H := by
  obtain ⟨hprocs, hserved⟩ := request_looked (H := H) hp
  unfold World.poketext
  rcases hr : w.request H pid with ⟨_ | q, w'⟩
  · rw [hr] at hprocs
    exact ⟨_, hprocs, rfl⟩
  · rw [hr] at hserved
    obtain ⟨rfl, hstop⟩ := hserved q rfl
    refine ⟨_, World.setProc_procs_self _, ?_⟩
    unfold Proc.due
    rcases hphase : (p.looked H).phase with _ | how | st
    · rfl
    · exact absurd hphase (hstop how)
    · rfl

/-- **The report of a tracee that `cont` has resumed and then asked twice**: the one that it has come to at
    the first request, or the one that it comes to later. -/
def racedDue (H : Host ω) (cpu : Cpu) (hidden : ω) : Option (WaitStatus × Regs) :=
  let (here, hidden) := H.arrived hidden
  match here, H.run .cont cpu hidden with
  | true, some (st, cpu, _) => some (st, cpu.regs)
  | _, _ => (H.run .cont cpu (H.arrived hidden).2).map fun r => (r.1, r.2.1.regs)

/-- One look at a resumed process makes no difference to what it reports, but for the schedule. -/
theorem looked_due (hp : p.phase = .resumed how) :
    (p.looked H).due H = (H.run how p.cpu (H.arrived p.hidden).2).map fun r => (r.1, r.2.1.regs) := by
  rcases harr : H.arrived p.hidden with ⟨here, hidden⟩
  rcases hrun : H.run how p.cpu hidden with _ | ⟨st, cpu, hid⟩
  · cases here <;> simp [Proc.looked, Proc.due, hp, harr, hrun]
  · cases here <;> simp [Proc.looked, Proc.due, hp, harr, hrun]

theorem looked_twice_due (hp : p.phase = .resumed .cont) :
    ((p.looked H).looked H).due H = racedDue H p.cpu p.hidden := by
  unfold racedDue
  rcases harr : H.arrived p.hidden with ⟨here, hidden⟩
  have hlate : p.looked H = { p with hidden := hidden } →
      ((p.looked H).looked H).due H
        = (H.run .cont p.cpu (H.arrived hidden).2).map fun r => (r.1, r.2.1.regs) := by
    intro hlooked
    rw [hlooked]
    exact looked_due hp
  rcases hrun : H.run .cont p.cpu hidden with _ | ⟨st, cpu, hid⟩
  · have hlooked : p.looked H = { p with hidden := hidden } := by
      cases here <;> simp [Proc.looked, hp, harr, hrun]
    rw [hlate hlooked]
    cases here <;> simp only [hrun]
  · cases here with
    | false =>
        have hlooked : p.looked H = { p with hidden := hidden } := by simp [Proc.looked, hp, harr, hrun]
        rw [hlate hlooked]
    | true =>
        -- the report has come by the first look, and the second finds it
        simp [Proc.looked, Proc.due, hp, harr, hrun]

/-! ## `cont` and `si` -/

/-- The report behind the resume path. -/
def secondDue (H : Host ω) (cpu : Cpu) (hidden : ω) : Resume → Option (WaitStatus × Regs)
  | .cont => racedDue H cpu hidden
  | .step => (H.run .step cpu hidden).map fun r => (r.1, r.2.1.regs)

/-- **What `cont` and `si` need of the tracee**: reports that can be answered, the first one and, where it
    comes back to the breakpoint in `rip_now`, the second. -/
def ResumeHandled (H : Host ω) (s : Debugger ω) (how : Resume) : Prop :=
  ∀ p, s.tracee = some p →
    Answers H s ((H.run how p.cpu p.hidden).map fun r => (r.1, r.2.1.regs)) ∧
      ∀ b cpu hidden, ComesBack H s how b cpu hidden →
        Answers H s (secondDue H (liftedCpu (H.writable hidden) cpu s.bpaddrNow b.ori) hidden how)

/-- `replace_byte` looks at the tracee twice, to read the word and to write it. -/
theorem replaceByte_due (hp : s.tracee = some p) (a : Addr) (b : Byte) :
    ∃ q, (replaceByte H s a b).2.tracee = some q ∧ q.due H = ((p.looked H).looked H).due H := by
  have hprocs : s.world.procs s.child = some p := hp
  obtain ⟨hpeeked, -⟩ := request_looked (H := H) hprocs
  rw [← peektext_procs a] at hpeeked
  exact poketext_due (H := H) hpeeked a _

/-- The tracee of `onPath`, and the report that is due of it. -/
theorem onPath_due (hp : s.Holds p) (how : Resume) :
    ∃ q, (onPath H s how).tracee = some q ∧
      q.due H = secondDue H ⟨p.cpu.regs, replaced (H.writable p.hidden) p.cpu.mem s.bpaddrNow s.restore⟩ p.hidden
        how := by
  have hmoved := replaceByte_moved (H := H) hp s.bpaddrNow s.restore
  have hresumed := (resume_moved (hmoved.holds hp.stopped) how).tracee
  cases how with
  | step => exact ⟨_, hresumed, rfl⟩
  | cont =>
      -- the two looks at the running tracee come from `cont` writing the int3 back
      obtain ⟨q, hq, hdue⟩ := replaceByte_due (H := H) hresumed s.bpaddrNow int3
      exact ⟨q, hq, hdue.trans (looked_twice_due rfl)⟩

/-- Where the tracee comes back, the second report decides. -/
theorem second_handled {b : Breakpoint} {cpu : Cpu} {hidden : ω} (h : ComesBack H s how b cpu hidden)
    (hrun : s.state = .running) (hs : s.AtRest) : Handled (resumeAndWait H s how) ↔
      Answers H s (secondDue H (liftedCpu (H.writable hidden) cpu s.bpaddrNow b.ori) hidden how) := by
  obtain ⟨p, s₁, q, -, hc, hway, hq, hhidden, hcpu⟩ := h.path hrun hs
  obtain ⟨q₁, ht, hdue⟩ := onPath_due (H := H) hq how
  obtain ⟨hstate, hprogram, -⟩ := onPath_frame H s₁ how
  have hrunning := hstate.trans hway.running
  have hpath : (onPath H s₁ how).points = s₁.points ∧ (onPath H s₁ how).text = s₁.text ∧
      (onPath H s₁ how).code = s₁.code ∧ (onPath H s₁ how).ripNow = s₁.ripNow := by
    cases how with
    | cont =>
        simp only [onPath, resume, replaceByte_points, replaceByte_text, replaceByte_code, replaceByte_ripNow,
          and_self]
    | step =>
        simp only [onPath, resume, replaceByte_points, replaceByte_text, replaceByte_code, replaceByte_ripNow,
          and_self]
  obtain ⟨hpoints, htext, hcode, hrip⟩ := hpath
  have hlifted : q₁.due H = secondDue H (liftedCpu (H.writable hidden) cpu s.bpaddrNow b.ori) hidden how := by
    rw [hdue, hcpu, hhidden, hway.bpaddrNow, hway.restore]
    rfl
  have hsame : ∀ r, Answers H (onPath H s₁ how) r ↔ Answers H s r := by
    intro r
    unfold Answers Showable CodeReadable
    rw [hpoints, hcode, hrip, hprogram, htext, hway.points, hway.code, hway.ripNow, hway.program, hway.text]
  rw [← hlifted, ← hsame, ← checkStop_handled hrunning ht]
  unfold resumeAndWait
  rw [hc]
  exact handled_bind fun y _ => handled_ok _

/-- **`cont` and `si`**, given to a running program. -/
theorem resumeAndWait_handled (hrun : s.state = .running) (hs : s.AtRest) :
    Handled (resumeAndWait H s how) ↔ ResumeHandled H s how := by
  cases ht : s.tracee with
  | none =>
      have hc := (checkStop_gone (H := H) ht how).1
      constructor
      · intro _ p hp
        cases ht.symm.trans hp
      · intro _
        unfold resumeAndWait
        rw [hc]
        exact handled_error.mpr trivial
  | some p =>
      have hp : s.Holds p := hs.held ht
      have hfirst : Handled (checkStop H (resume s how)) ↔
          Answers H s ((H.run how p.cpu p.hidden).map fun r => (r.1, r.2.1.regs)) :=
        checkStop_handled (by exact hrun) (resume_moved hp how).tracee
      constructor
      · intro h q hq
        obtain rfl : p = q := Option.some.inj (ht.symm.trans hq)
        constructor
        · refine hfirst.mp ?_
          intro e he
          refine h e ?_
          unfold resumeAndWait
          rw [he]
          rfl
        · intro b cpu hidden hback
          exact (second_handled hback hrun hs).mp h
      · intro h
        obtain ⟨hanswers, hsecond⟩ := h p ht
        unfold resumeAndWait
        cases hc : checkStop H (resume s how) with
        | error e =>
            have hproper := hfirst.mpr hanswers
            rw [hc] at hproper
            exact handled_error.mpr (handled_error.mp hproper)
        | ok x =>
            obtain ⟨ret, s₁⟩ := x
            by_cases hret : ret = 1
            · -- the tracee has come back to the breakpoint reported last, so the second report counts too
              subst hret
              obtain ⟨b, cpu, hidden, hback⟩ := comesBack_of_again hrun hp hc
              have hall := (second_handled hback hrun hs).mpr (hsecond b cpu hidden hback)
              unfold resumeAndWait at hall
              rw [hc] at hall
              exact hall
            · rw [Except.bind, if_neg hret]
              exact handled_ok s₁

/-! ## The rows of `vmmap` -/

/-- The permissions on a line of `/proc/PID/maps`, as `vmmap` reads them. -/
def permColumn (line : String) : List Char :=
  let (col, cs) := extract line.toList []
  (extract cs col).1

theorem erasePerm_eq_none {col : List Char} : erasePerm col = none ↔ 'p' ∉ col := by
  have hlen : (col.filter (· ≠ 'p')).length = col.length ↔ 'p' ∉ col := by
    rw [List.length_filter_eq_length_iff]
    constructor
    · intro h hp
      exact absurd (h 'p' hp) (by decide)
    · intro h c hc
      exact decide_eq_true fun heq => h (heq ▸ hc)
  rw [← hlen]
  unfold erasePerm
  simp only
  split
  · rename_i hall
    exact ⟨fun _ => hall, fun _ => rfl⟩
  · rename_i hall
    constructor
    · intro h
      cases h
    · intro h
      exact absurd h hall

/-- Nothing is erased from permissions without a `p`, and then the end of the string is. -/
theorem vmmapRow_error {line : String} {e : Halt} (h : vmmapRow line = .error e) : ¬ e.Proper := by
  unfold vmmapRow at h
  simp only at h
  split at h
  · cases h
    exact id
  · cases h

theorem vmmapRow_handled (line : String) : Handled (vmmapRow line) ↔ 'p' ∈ permColumn line := by
  have hperm := @erasePerm_eq_none (permColumn line)
  unfold permColumn at hperm ⊢
  unfold vmmapRow
  simp only at hperm ⊢
  split
  · rename_i hnone
    rw [handled_error]
    constructor
    · intro h
      cases h
    · intro h
      exact absurd h (hperm.mp hnone)
  · rename_i perm hsome
    refine ⟨fun _ => ?_, fun _ => handled_ok _⟩
    by_contra hno
    cases hsome.symm.trans (hperm.mpr hno)

/-- Steps that only fail badly are handled together if each is. -/
theorem mapM_handled {f : α → Except Halt β} (hf : ∀ x e, f x = .error e → ¬ e.Proper) (xs : List α) :
    Handled (xs.mapM f) ↔ ∀ x ∈ xs, Handled (f x) := by
  induction xs with
  | nil => exact ⟨fun _ x hx => absurd hx List.not_mem_nil, fun _ => handled_ok []⟩
  | cons x xs ih =>
      rw [List.mapM_cons, List.forall_mem_cons, ← ih]
      cases hx : f x with
      | error e =>
          -- the first step that fails ends the rest
          constructor
          · intro h
            exact absurd (handled_error.mp h) (hf x e hx)
          · rintro ⟨h, -⟩
            exact absurd (handled_error.mp h) (hf x e hx)
      | ok y =>
          have hrest : Handled ((.ok y : Except Halt β) >>= fun b => xs.mapM f >>= fun bs => pure (b :: bs)) ↔
              Handled (xs.mapM f) := handled_bind fun bs _ => handled_ok (y :: bs)
          rw [hrest]
          exact ⟨fun h => ⟨handled_ok y, h⟩, fun h => h.2⟩

/-! ## Lines of input -/

/-- **What each command needs** to be handled. -/
def Handles (H : Host ω) (s : Debugger ω) : Command → Prop
  | .load f => s.state ≠ .loaded → ∀ i, H.openFile f = some i → (Elf.elfOpen s.e (H.content i)).isSome →
      Elf.WholeFile H.memory (H.content i)
  | .delete sId => s.state = .running → sId ≠ "QQ" → ∃ id, stoi sId = .ok id
  | .set reg sVal => s.state = .running → sVal ≠ "QQ" → s.tracee.isSome → (regsMap reg).isSome
  | .vmmap => s.state = .running → ∀ p, s.tracee = some p → ∀ line ∈ H.maps p.cpu, 'p' ∈ permColumn line
  | .disasm sAddr => s.state = .running → sAddr ≠ "QQ" → Showable H s (addrOf sAddr) 10
  | .cont => s.state = .running → ResumeHandled H s .cont
  | .si => s.state = .running → ResumeHandled H s .step
  | .run => (s.state = .running → ResumeHandled H s .cont) ∧
      (s.state = .loaded → H.fork s.world.nextPid → ∀ p, launched H (execPath s.program) = some p →
        (H.run .cont p.cpu p.hidden).isSome)
  | _ => True

theorem load_handled (f : String) : Handled (load H s f) ↔ Handles H s (.load f) := by
  unfold load Handles
  by_cases hloaded : s.state = .loaded
  · rw [if_pos hloaded]
    exact ⟨fun _ hne => absurd hloaded hne, fun _ => handled_ok _⟩
  · rw [if_neg hloaded]
    cases hopen : (H.openFile f).bind fun i => Elf.elfOpen s.e (H.content i) with
    | none =>
        -- nothing is opened: `error_quit`
        constructor
        · intro _ _ i hi hsome
          rw [hi, Option.bind_some] at hopen
          rw [hopen] at hsome
          cases hsome
        · intro _
          exact handled_error.mpr trivial
    | some e =>
        obtain ⟨i, hi, he⟩ := Option.bind_eq_some_iff.mp hopen
        have hends : Elf.Ends (Elf.load H.memory e) ↔ Elf.WholeFile H.memory (H.content i) := Elf.load_ends_iff he
        simp only
        cases hload : Elf.load H.memory e with
        | error flt =>
            rw [hload] at hends
            constructor
            · intro h
              cases handled_error.mp h
            · intro h
              have hwhole := h hloaded i hi (by rw [he]; rfl)
              exact absurd (hends.mpr hwhole) (Elf.not_ends flt)
        | ok r =>
            rw [hload] at hends
            constructor
            · intro _ _ j hj _
              obtain rfl : i = j := Option.some.inj (hi.symm.trans hj)
              exact hends.mp (Elf.ends_ok r)
            · intro _
              exact handled_ok _

theorem del_handled (sId : String) : Handled (del H s sId) ↔ Handles H s (.delete sId) := by
  unfold del Handles
  by_cases hrun : s.state = .running
  · rw [if_neg (fun hne => hne hrun)]
    by_cases hQ : sId = "QQ"
    · rw [if_pos hQ]
      exact ⟨fun _ _ hne => absurd hQ hne, fun _ => handled_ok _⟩
    · rw [if_neg hQ]
      cases hid : stoi sId with
      | error ex =>
          constructor
          · intro h
            cases handled_error.mp h
          · intro h
            obtain ⟨id, hid'⟩ := h hrun hQ
            rw [hid] at hid'
            cases hid'
      | ok id =>
          constructor
          · intro _ _ _
            exact ⟨id, hid⟩
          · intro _
            simp only
            split <;> exact handled_ok _
  · rw [if_pos hrun]
    exact ⟨fun _ hrun' => absurd hrun' hrun, fun _ => handled_ok _⟩

/-- The registers of a tracee at rest. -/
theorem getregs_at_rest (hrun : s.state = .running) (hs : s.AtRest) (flag : Bool) :
    (s.tracee = none ∧ getregs H s flag = .error (.quit "** ptrace error.")) ∨
      (s.tracee.isSome ∧ ∃ s', getregs H s flag = .ok (0, s')) := by
  have hasked : s.world.getregs H s.child = _ := World.getregs_atRest hs
  unfold getregs
  rw [if_neg (fun hne => hne hrun), hasked]
  cases ht : s.world.procs s.child with
  | none => exact Or.inl ⟨ht, rfl⟩
  | some p => exact Or.inr ⟨by rw [Debugger.tracee, ht]; rfl, _, rfl⟩

theorem set_handled (hs : Rested s) (reg sVal : String) :
    Handled (set H s reg sVal) ↔ Handles H s (.set reg sVal) := by
  unfold set Handles
  by_cases hrun : s.state = .running
  · rw [if_neg (fun hne => hne hrun)]
    by_cases hQ : sVal = "QQ"
    · rw [if_pos hQ]
      exact ⟨fun _ _ hne => absurd hQ hne, fun _ => handled_ok _⟩
    · rw [if_neg hQ]
      rcases getregs_at_rest (H := H) hrun (hs hrun) false with ⟨hnone, hquit⟩ | ⟨hsome, s', hok⟩
      · simp only [hquit, bind, Except.bind]
        constructor
        · intro _ _ _ hsome
          rw [hnone] at hsome
          cases hsome
        · intro _
          exact handled_error.mpr trivial
      · simp only [hok, bind, Except.bind]
        rw [if_neg (fun hne => hne rfl)]
        cases regsMap reg with
        | none =>
            constructor
            · intro h
              cases handled_error.mp h
            · intro h
              cases h hrun hQ hsome
        | some r =>
            constructor
            · intro _ _ _ _
              rfl
            · intro _
              exact handled_ok _
  · rw [if_pos hrun]
    exact ⟨fun _ hrun' => absurd hrun' hrun, fun _ => handled_ok _⟩

theorem vmmap_handled : Handled (vmmap H s) ↔ Handles H s .vmmap := by
  unfold vmmap Handles
  by_cases hrun : s.state = .running
  · rw [if_neg (fun hne => hne hrun)]
    have hrows : ∀ lines : List String,
        Handled ((lines.mapM vmmapRow).bind fun rows => .ok { s with out := s.out ++ rows }) ↔
          ∀ line ∈ lines, 'p' ∈ permColumn line := by
      intro lines
      rw [handled_bind (fun rows _ => handled_ok _), mapM_handled (fun _ _ => vmmapRow_error)]
      exact forall₂_congr fun line _ => vmmapRow_handled line
    refine (hrows _).trans ?_
    unfold Debugger.tracee
    cases s.world.procs s.child with
    | none =>
        constructor
        · intro _ _ p hp
          cases hp
        · intro _ line hline
          cases hline
    | some p =>
        constructor
        · rintro h _ q ⟨⟩
          exact h
        · intro h
          exact h hrun p rfl
  · rw [if_pos hrun]
    exact ⟨fun _ hrun' => absurd hrun' hrun, fun _ => handled_ok _⟩

theorem disasm_handled (sAddr : String) (len : Nat) : Handled (disasm H s sAddr len) ↔
    (s.state = .running → sAddr ≠ "QQ" → Showable H s (addrOf sAddr) len) := by
  by_cases hrun : s.state = .running
  · by_cases hQ : sAddr = "QQ"
    · have hsaid : disasm H s sAddr len = .ok (s.say (.line "** no addr is given.")) := by
        unfold disasm
        rw [if_neg (fun hne => hne hrun), if_pos hQ]
      rw [hsaid]
      exact ⟨fun _ _ hne => absurd hQ hne, fun _ => handled_ok _⟩
    · rw [disasm_running hrun hQ, handled_map, listing_handled]
      exact ⟨fun h _ _ => h, fun h => h hrun hQ⟩
  · have hidle : disasm H s sAddr len = .ok s.notRunning := by
      unfold disasm
      rw [if_pos hrun]
    rw [hidle]
    exact ⟨fun _ hrun' => absurd hrun' hrun, fun _ => handled_ok _⟩

/-- `cont` and `si`, from any prompt. -/
theorem resume_handled (hs : Rested s) {r : Except Halt (Debugger ω)}
    (hrunning : s.state = .running → r = resumeAndWait H s how) (hidle : s.state ≠ .running → r = .ok s.notRunning) :
    Handled r ↔ (s.state = .running → ResumeHandled H s how) := by
  by_cases hrun : s.state = .running
  · rw [hrunning hrun, resumeAndWait_handled hrun (hs hrun)]
    exact ⟨fun h _ => h, fun h => h hrun⟩
  · rw [hidle hrun]
    exact ⟨fun _ hrun' => absurd hrun' hrun, fun _ => handled_ok _⟩

/-- A tracee that has just been started has no breakpoint to come back to. -/
theorem started_handled (hstarted : Started H s s') : ResumeHandled H s' .cont ↔
    ∀ p, launched H (execPath s.program) = some p → (H.run .cont p.cpu p.hidden).isSome := by
  have hnone : ∀ r, hit s'.points r = none := by
    intro r
    rw [hstarted.points]
    rfl
  unfold ResumeHandled
  rw [hstarted.tracee]
  constructor
  · intro h p hp
    have hanswers := (h p hp).1
    cases hcomes : H.run .cont p.cpu p.hidden with
    | none =>
        rw [hcomes] at hanswers
        cases hanswers
    | some r => rfl
  · intro h p hp
    constructor
    · obtain ⟨⟨st, cpu, hidden⟩, hr⟩ := Option.isSome_iff_exists.mp (h p hp)
      rw [hr]
      cases st with
      | stopped sig =>
          intro b hhit
          cases (hnone cpu.regs).symm.trans hhit
      | exited code => trivial
      | signaled sig => trivial
    · intro b cpu hidden hback
      cases (hnone cpu.regs).symm.trans hback.hit

/-- Nothing that is printed changes what `cont` and `si` need. -/
theorem resumeHandled_say (s : Debugger ω) (o : Out) :
    ResumeHandled H (s.say o) how ↔ ResumeHandled H s how := by
  have hback : ∀ b cpu hidden, ComesBack H (s.say o) how b cpu hidden ↔ ComesBack H s how b cpu hidden := by
    intro b cpu hidden
    constructor
    · rintro ⟨hstops, hhit, hnow⟩
      exact ⟨hstops, hhit, hnow⟩
    · rintro ⟨hstops, hhit, hnow⟩
      exact ⟨hstops, hhit, hnow⟩
  have hanswers : ∀ r, Answers H (s.say o) r ↔ Answers H s r := by
    intro r
    rcases r with _ | ⟨st, r⟩
    · exact Iff.rfl
    · cases st <;> exact Iff.rfl
  unfold ResumeHandled
  simp only [hback, hanswers]
  exact Iff.rfl

/-- `start` on a loaded program ends at a `fork` that fails. -/
theorem start_loaded (hloaded : s.state = .loaded) :
    (H.fork s.world.nextPid = false ∧ start H s = .error (.quit "** fork error.")) ∨
      (H.fork s.world.nextPid = true ∧ ∃ s', start H s = .ok s') := by
  unfold start
  simp only [hloaded, reduceCtorEq, if_false]
  cases H.fork s.world.nextPid with
  | false => exact Or.inl ⟨rfl, rfl⟩
  | true => exact Or.inr ⟨rfl, _, rfl⟩

theorem run_handled (hs : Rested s) : Handled (run H s) ↔ Handles H s .run := by
  unfold run Handles
  cases hstate : s.state with
  | running =>
      simp only [forall_true_left, reduceCtorEq, IsEmpty.forall_iff, and_true]
      have hsaid : (s.say (.alreadyRunning s.program)).state = .running := hstate
      rw [cont_eq hsaid, ← resumeHandled_say s (.alreadyRunning s.program)]
      exact resumeAndWait_handled hsaid (hs hstate)
  | loaded =>
      simp only [forall_true_left, reduceCtorEq, IsEmpty.forall_iff, true_and]
      have hstart : s.state ≠ .others := by
        rw [hstate]
        exact State.noConfusion
      rcases start_loaded (H := H) hstate with ⟨hfork, hquit⟩ | ⟨hfork, s', hok⟩
      · rw [hquit, hfork]
        constructor
        · intro _ htrue
          cases htrue
        · intro _
          exact handled_error.mpr trivial
      · -- the `cont` behind `start` finds an empty table
        have hstarted := start_started hstart hok
        have hresume : Handled (resumeAndWait H s' .cont) ↔ ResumeHandled H s' .cont :=
          resumeAndWait_handled hstarted.state (start_atRest hstart hok)
        have hcont := hresume.trans (started_handled hstarted)
        rw [← cont_eq hstarted.state] at hcont
        rw [hok, hfork]
        refine hcont.trans ?_
        exact ⟨fun h _ => h, fun h => h rfl⟩
  | others =>
      simp only [reduceCtorEq, IsEmpty.forall_iff, and_self, iff_true]
      exact handled_ok _

theorem getregs_handled (hs : Rested s) (flag : Bool) : Handled (getregs H s flag) := by
  by_cases hrun : s.state = .running
  · rcases getregs_at_rest (H := H) hrun (hs hrun) flag with ⟨-, hquit⟩ | ⟨-, s', hok⟩
    · rw [hquit]
      exact handled_error.mpr trivial
    · rw [hok]
      exact handled_ok _
  · have hidle : getregs H s flag = .ok (-1, s.notRunning) := if_pos hrun
    rw [hidle]
    exact handled_ok _

/-- The commands that are always handled. -/
theorem always_handled (hs : Rested s) : Handled (start H s) ∧ (∀ a, Handled (breakpoint H s a)) ∧
    (∀ a, Handled (dump H s a)) ∧ (∀ r, Handled (getreg H s r)) ∧ Handled (exec H s .getregs) := by
  refine ⟨?_, ?_, ?_, ?_, ?_⟩
  · unfold start
    by_cases hothers : s.state = .others
    · rw [if_pos hothers]
      exact handled_ok _
    · -- only `fork` can fail, and that is an `error_quit`
      rw [if_neg hothers]
      by_cases hrun : s.state = .running
      · simp only [if_pos hrun]
        split
        · exact handled_ok _
        · exact handled_error.mpr trivial
      · simp only [if_neg hrun]
        split
        · exact handled_ok _
        · exact handled_error.mpr trivial
  · intro a
    unfold breakpoint
    split
    · exact handled_ok _
    · simp only
      split <;> exact handled_ok _
  · intro a
    unfold dump
    split <;> exact handled_ok _
  · intro r
    refine (handled_bind ?_).mpr (getregs_handled hs false)
    rintro ⟨ret, s'⟩ -
    simp only
    split
    · exact handled_ok _
    · split
      · exact handled_ok _
      · split <;> exact handled_ok _
  · refine (handled_bind ?_).mpr (getregs_handled hs true)
    intro x _
    exact handled_ok _

/-- **One command.** -/
theorem exec_handled (hs : Rested s) (c : Command) : Handled (exec H s c) ↔ Handles H s c := by
  obtain ⟨hstart, hbreak, hdump, hget, hgetregs⟩ := always_handled (H := H) hs
  have halways : ∀ {r : Except Halt (Debugger ω)}, Handled r → (Handled r ↔ True) :=
    fun h => ⟨fun _ => trivial, fun _ => h⟩
  cases c with
  | load f => exact load_handled f
  | delete sId => exact del_handled sId
  | set reg sVal => exact set_handled hs reg sVal
  | vmmap => exact vmmap_handled
  | disasm sAddr => exact disasm_handled sAddr 10
  | run => exact run_handled hs
  | cont => exact resume_handled hs cont_eq (fun hne => if_pos hne)
  | si => exact resume_handled hs si_eq (fun hne => if_pos hne)
  | start => exact halways hstart
  | «break» sAddr => exact halways (hbreak sAddr)
  | dump sAddr => exact halways (hdump sAddr)
  | getregs => exact halways hgetregs
  | get reg => exact halways (hget reg)
  | help => exact halways (handled_ok _)
  | exit => exact halways (handled_error.mpr trivial)
  | list => exact halways (handled_ok _)
  | ignored => exact halways (handled_ok _)

/-- **Every line of input**, from every prompt, is handled exactly if the command it stands for is given what
    it needs. -/
theorem dispatch_handled {cmds : List Command} (h : execAll H (Debugger.init : Debugger ω) cmds = .ok s)
    (tokens : List String) :
    Handled (execLine H s tokens) ↔ Handles H s (Command.ofTokens s.dumpaddr tokens) :=
  exec_handled (fun hrun => session_atRest h hrun) _

/-- `set` of a register that exists. -/
theorem dispatch_handled_sample : ∃ s,
    execAll (sampleHost nopText 9) Debugger.init [.load "./a", .start] = .ok s ∧
      Handled (execLine (sampleHost nopText 9) s ["set", "rip", "400001"]) := by
  have hs : execAll (sampleHost nopText 9) Debugger.init [.load "./a", .start] = .ok (sampleStarted nopText 9) := rfl
  have hset : Command.ofTokens (sampleStarted nopText 9).dumpaddr ["set", "rip", "400001"] = .set "rip" "400001" :=
    rfl
  have hgiven : Handles (sampleHost nopText 9) (sampleStarted nopText 9) (.set "rip" "400001") := by
    intro _ _ _
    rfl
  rw [← hset] at hgiven
  exact ⟨sampleStarted nopText 9, hs, (dispatch_handled hs _).mpr hgiven⟩

/-- `set` of an unknown register, given to a running program, writes through a null pointer. -/
theorem set_unhandled : ¬ ∀ (s : Debugger (List Bool)) (cmds : List Command) (tokens : List String),
    execAll (sampleHost nopText 9) Debugger.init cmds = .ok s →
      Handled (execLine (sampleHost nopText 9) s tokens) := by
  intro h
  have hs : execAll (sampleHost nopText 9) Debugger.init [.load "./a", .start] = .ok (sampleStarted nopText 9) := rfl
  have hhandled := h _ _ ["set", "abc", "1"] hs
  have hsegv : execLine (sampleHost nopText 9) (sampleStarted nopText 9) ["set", "abc", "1"] = .error .segv := rfl
  rw [hsegv] at hhandled
  cases handled_error.mp hhandled

end AdvUnix.Sdb
