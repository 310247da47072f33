import AdvUnix.Sdb.Stops

/-!
# `Sdb.Core` — the debugger reduced to what steers its tracee

The tracee of this file is a deterministic **instruction-step program** (`machine`): it stops by executing
`int3` or by being single-stepped, it exits, and nothing else happens to it (`hosted`). Of the debugger,
five things decide where such a tracee goes: its processor, the table, `rip_now`, `bpaddr_now` and who
wins the races of the line that re-arms a breakpoint behind a running tracee. `Core` is those five, and
`Core.resume` is what `cont` and `si` do to them.

* `cont_course` / `si_course` — the commands of the debugger follow `Core.resume`.
-/

namespace AdvUnix.Sdb

open ByteStore StepMachine Debugger

/-! ## Programs -/

/-- The machine of a program: `insn` executes every instruction but `int3`, or exits. -/
def machine (insn : Cpu → Except Byte Cpu) : Machine Regs Addr (Option Byte) Byte where
  pc := fun r => r .rip
  trap := some int3
  past := fun r => Function.update r .rip (r .rip + 1)
  insn := insn

/-- The next report of a resumed program, if `fuel` instructions suffice: a stop, or its exit. -/
def nextReport (insn : Cpu → Except Byte Cpu) (fuel : Nat) : Resume → Cpu → Option (Except Byte Cpu)
  | .step, c => some ((machine insn).step c)
  | .cont, c => (machine insn).runTrap fuel c

/-- The permission to store wherever something is mapped. -/
abbrev everywhere : Addr → Bool := fun _ => true

/-- **The host of a program.** What the program has mapped can be stored to. The hidden state is the schedule: for each
    request to a running tracee, whether the tracee has come to its report by then. -/
def hosted (insn : Cpu → Except Byte Cpu) (fuel : Nat) (site : Site (List Bool)) :
    Host (List Bool) where
  toSite := site
  run := fun how c sched =>
    match nextReport insn fuel how c with
    | none => none
    | some (.ok d) => some (.stopped sigtrap, d, sched)
    | some (.error code) => some (.exited code.toNat, c, sched)
  arrived := fun sched =>
    match sched with
    | [] => (false, [])
    | b :: bs => (b, bs)
  writable := fun _ => everywhere

/-! ## The reduced debugger -/

/-- **What steers the tracee** at a prompt. -/
structure Core where
  cpu : Cpu
  sched : List Bool
  points : List Breakpoint
  ripNow : Addr
  bpaddrNow : Addr

/-- What a resume comes to: the tracee runs for ever, it exits, or there is a prompt, maybe with a
    breakpoint reported. -/
inductive Course
  | forever
  | exit (code : Byte)
  | prompt (k : Core) (reported : Option Addr)

/-- The course after the next report, by what a stop leads to. -/
def Course.next (r : Option (Except Byte Cpu)) (stop : Cpu → Course) : Course :=
  match r with
  | none => .forever
  | some (.error code) => .exit code
  | some (.ok d) => stop d

theorem Course.next_prompt {r : Option (Except Byte Cpu)} {stop : Cpu → Course} {k : Core}
    {rep : Option Addr} (h : Course.next r stop = .prompt k rep) :
    ∃ d, r = some (.ok d) ∧ stop d = .prompt k rep := by
  rcases r with _ | code | d
  · cases h
  · cases h
  · exact ⟨d, rfl, h⟩

theorem Course.next_map (r : Option (Except Byte Cpu)) (g : Cpu → Cpu) (stop : Cpu → Course) :
    Course.next (r.map (Except.map g)) stop = Course.next r fun d => stop (g d) := by
  rcases r with _ | code | d <;> rfl

/-- The registers after a trap, and back. -/
theorem rip_past {i : Cpu → Except Byte Cpu} (r : Regs) : (machine i).past r .rip - 1 = r .rip := by
  show Function.update r .rip (r .rip + 1) .rip - 1 = _
  rw [Function.update_self]
  bv_omega

theorem rewound_past {i : Cpu → Except Byte Cpu} (r : Regs) : rewound ((machine i).past r) = r := by
  unfold rewound
  rw [rip_past]
  show Function.update (Function.update r .rip _) .rip _ = r
  rw [Function.update_idem, Function.update_eq_self]

namespace Core

/-- The stop of the tracee in `d`, as `check_stop` leaves it. -/
def settle (k : Core) (d : Cpu) : Core × Option Addr :=
  match hit k.points d.regs with
  | none => ({ k with cpu := d }, none)
  | some b =>
      let k := { k with cpu := ⟨rewound d.regs, d.mem⟩ }
      if k.ripNow = b.addr then (k, none)
      else ({ k with ripNow := b.addr, bpaddrNow := b.addr }, some b.addr)

/-- The breakpoint for which `check_stop` returns `1`. -/
def again (k : Core) (d : Cpu) : Option Breakpoint :=
  (hit k.points d.regs).filter fun b => k.ripNow = b.addr

section Settle

variable {k : Core} {d : Cpu}

/-- At the breakpoint that was reported last, nothing is reported. -/
theorem settle_of_again {b : Breakpoint} (h : k.again d = some b) :
    hit k.points d.regs = some b ∧ k.ripNow = b.addr ∧
      k.settle d = ({ k with cpu := ⟨rewound d.regs, d.mem⟩ }, none) := by
  unfold again at h
  obtain ⟨hhit, hnow⟩ := Option.filter_eq_some_iff.mp h
  have hnow : k.ripNow = b.addr := by simpa using hnow
  exact ⟨hhit, hnow, by simp only [settle, hhit, if_pos hnow]⟩

/-- A stop one byte past no breakpoint. -/
theorem settle_off (h : d.regs .rip - 1 ∉ addrs k.points) :
    k.again d = none ∧ k.settle d = ({ k with cpu := d }, none) := by
  have hhit := hit_eq_none.mpr h
  exact ⟨by simp only [again, hhit, Option.filter_none], by simp only [settle, hhit]⟩

/-- A stop one byte past the breakpoint in `rip_now`. -/
theorem settle_again (h : d.regs .rip - 1 ∈ addrs k.points) (hnow : k.ripNow = d.regs .rip - 1) :
    ∃ b ∈ k.points, b.addr = k.ripNow ∧ k.again d = some b ∧
      k.settle d = ({ k with cpu := ⟨rewound d.regs, d.mem⟩ }, none) := by
  cases hhit : hit k.points d.regs with
  | none => exact absurd h (hit_eq_none.mp hhit)
  | some b =>
      have hb : k.ripNow = b.addr := hnow.trans (hit_addr hhit).symm
      have hagain : k.again d = some b := by
        simp only [again, hhit, Option.filter_some, hb, decide_true, if_true]
      exact ⟨b, hit_mem hhit, hb.symm, hagain, (settle_of_again hagain).2.2⟩

/-- A stop one byte past another breakpoint. -/
theorem settle_report (h : d.regs .rip - 1 ∈ addrs k.points) (hnow : k.ripNow ≠ d.regs .rip - 1) :
    k.again d = none ∧ k.settle d = ({ k with
      cpu := ⟨rewound d.regs, d.mem⟩
      ripNow := d.regs .rip - 1
      bpaddrNow := d.regs .rip - 1 }, some (d.regs .rip - 1)) := by
  cases hhit : hit k.points d.regs with
  | none => exact absurd h (hit_eq_none.mp hhit)
  | some b =>
      have hb := hit_addr hhit
      have hne : k.ripNow ≠ b.addr := fun he => hnow (he.trans hb)
      refine ⟨?_, ?_⟩
      · simp only [again, hhit, Option.filter_some, hne, decide_false, Bool.false_eq_true, if_false]
      · simp only [settle, hhit, hb, if_neg hnow]

end Settle

/-- What the write behind the running tracee of `cont` does to its memory at the next stop. The first
    request that finds the tracee stopped is served: both, only the second one, which then writes what
    the failed first one returned, or none. -/
def inFlight (sched : List Bool) (a : Addr) (m : Mem) : Mem :=
  match sched with
  | true :: _ => replaced everywhere m a int3
  | false :: true :: _ => Mem.poke everywhere m a (setLow (-1) int3)
  | _ => m

/-- The tracee stops between the two requests. -/
def Torn (sched : List Bool) : Prop := ∃ bs, sched = false :: true :: bs

/-- Unless it is torn, what is written behind the tracee is what is written after its stop. -/
theorem replaced_inFlight {sched : List Bool} (h : ¬ Torn sched) {a : Addr} {m : Mem}
    (hm : (Mem.peek m a).isSome) :
    replaced everywhere (inFlight sched a m) a int3 = Function.update m a (some int3) := by
  have hmapped : ∀ b, (Mem.peek (Function.update m a (some b)) a).isSome := by
    intro b
    have hsome : ∀ x, (Function.update m a (some b) x).isSome = (m x).isSome := by
      intro x
      by_cases hx : x = a
      · obtain ⟨v, hv⟩ := Option.isSome_iff_exists.mp hm
        rw [hx, Function.update_self, Mem.byte_of_peek hv]
        rfl
      · rw [Function.update_of_ne hx]
    rw [Mem.peek_isSome_congr hsome]
    exact hm
  match sched with
  | [] => exact replaced_mapped hm rfl int3
  | true :: _ =>
      show replaced everywhere (replaced everywhere m a int3) a int3 = _
      rw [replaced_mapped hm rfl, replaced_mapped (hmapped int3) rfl, Function.update_idem]
  | [false] => exact replaced_mapped hm rfl int3
  | false :: false :: _ => exact replaced_mapped hm rfl int3
  | false :: true :: bs => exact absurd ⟨bs, rfl⟩ h

theorem inFlight_unmapped {m : Mem} {a : Addr} (h : m a = none) (sched : List Bool) :
    inFlight sched a m = m := by
  match sched with
  | [] => rfl
  | true :: _ => exact replaced_unmapped h int3
  | [false] => rfl
  | false :: false :: _ => rfl
  | false :: true :: _ => exact Mem.poke_nowhere (Mem.storable_unmapped h)

/-- The schedule after those two requests. -/
def spent : List Bool → List Bool
  | [] => []
  | true :: bs => bs
  | false :: bs => bs.tail

variable (insn : Cpu → Except Byte Cpu) (fuel : Nat)

/-- The memory at the next stop after a resume from the resume path: only `cont` writes behind the
    running tracee. -/
def behind (how : Resume) (k : Core) (m : Mem) : Mem :=
  match how with
  | .cont => inFlight k.sched k.bpaddrNow m
  | .step => m

/-- The debugger after a resume from the resume path, before its stop is looked at. -/
def resumed (how : Resume) (k : Core) : Core :=
  match how with
  | .cont => { k with sched := spent k.sched, bpaddrNow := 0 }
  | .step => { k with bpaddrNow := 0 }

@[simp] theorem resumed_points (how : Resume) (k : Core) : (resumed how k).points = k.points := by
  cases how <;> rfl

@[simp] theorem resumed_ripNow (how : Resume) (k : Core) : (resumed how k).ripNow = k.ripNow := by
  cases how <;> rfl

@[simp] theorem resumed_bpaddrNow (how : Resume) (k : Core) : (resumed how k).bpaddrNow = 0 := by
  cases how <;> rfl

/-- The stop of the tracee on the resume path. -/
def settleOnPath (how : Resume) (k : Core) (d : Cpu) : Core × Option Addr :=
  settle (resumed how k) ⟨d.regs, behind how k d.mem⟩

/-- The trap written back. -/
def rearmed (k : Core) (a : Addr) : Core :=
  { k with cpu := ⟨k.cpu.regs, replaced everywhere k.cpu.mem a int3⟩ }

/-- **The resume path**: the byte in `restore` goes to `bpaddr_now`, the tracee is resumed, and the trap
    is written back after its next stop. -/
def path (how : Resume) (k : Core) (restore : Byte) : Course :=
  .next (nextReport insn fuel how ⟨k.cpu.regs, replaced everywhere k.cpu.mem k.bpaddrNow restore⟩) fun d =>
    .prompt (rearmed (settleOnPath how k d).1 k.bpaddrNow) (settleOnPath how k d).2

/-- What is done with the first stop. -/
def stopCourse (how : Resume) (k : Core) (d : Cpu) : Course :=
  match again k d with
  | none => .prompt (settle k d).1 (settle k d).2
  | some b => path insn fuel how (settle k d).1 b.ori

/-- **`cont` and `si`.** -/
def resume (how : Resume) (k : Core) : Course :=
  .next (nextReport insn fuel how k.cpu) (stopCourse insn fuel how k)

end Core

/-! ## Requests to a running tracee -/

section Races

variable {insn : Cpu → Except Byte Cpu} {fuel : Nat} {S : Site (List Bool)}
variable {w : World (List Bool)} {pid : Pid} {p : Proc (List Bool)} {how : Resume}

variable (insn fuel S) in
/-- The tracee still runs. -/
theorem request_early {bs : List Bool} (h : w.procs pid = some p) (hp : p.phase = .resumed how)
    (hs : (hosted insn fuel S).arrived p.hidden = (false, bs)) :
    w.request (hosted insn fuel S) pid =
      (none, (w.logged (.request pid false)).setProc pid (some { p with hidden := bs })) := by
  simp only [World.request, h, hp, hs]

/-- The tracee has come to a stop. -/
theorem request_stop {d : Cpu} {bs : List Bool} (h : w.procs pid = some p)
    (hp : p.phase = .resumed how) (hs : p.hidden = true :: bs)
    (hrun : nextReport insn fuel how p.cpu = some (.ok d)) :
    w.request (hosted insn fuel S) pid =
      (some { p with cpu := d, hidden := bs, phase := .arrived (.stopped sigtrap) },
       (w.logged (.request pid false)).setProc pid
         (some { p with cpu := d, hidden := bs, phase := .arrived (.stopped sigtrap) })) := by
  simp only [World.request, h, hp, hosted, hs, hrun]

/-- The tracee has exited. -/
theorem request_exit {code : Byte} {bs : List Bool} (h : w.procs pid = some p)
    (hp : p.phase = .resumed how) (hs : p.hidden = true :: bs)
    (hrun : nextReport insn fuel how p.cpu = some (.error code)) :
    w.request (hosted insn fuel S) pid =
      (none, (w.logged (.request pid false)).setProc pid
        (some { p with hidden := bs, phase := .arrived (.exited code.toNat) })) := by
  simp only [World.request, h, hp, hosted, hs, hrun]

theorem request_arrived {H : Host (List Bool)} {sig : Nat} (h : w.procs pid = some p)
    (hp : p.phase = .arrived (.stopped sig)) :
    w.request H pid = (some p, w.logged (.request pid false)) := by
  simp only [World.request, h, hp]

theorem request_ended {H : Host (List Bool)} {code : Nat} (h : w.procs pid = some p)
    (hp : p.phase = .arrived (.exited code)) :
    w.request H pid = (none, w.logged (.request pid false)) := by
  simp only [World.request, h, hp]

variable (S) in
/-- The tracee runs for ever, whoever looks. -/
theorem request_forever (h : w.procs pid = some p) (hp : p.phase = .resumed how)
    (hrun : nextReport insn fuel how p.cpu = none) :
    ∃ bs, w.request (hosted insn fuel S) pid =
      (none, (w.logged (.request pid false)).setProc pid (some { p with hidden := bs })) := by
  refine ⟨((hosted insn fuel S).arrived p.hidden).2, ?_⟩
  simp only [World.request, h, hp]
  cases ((hosted insn fuel S).arrived p.hidden).1 <;> simp only [hosted, hrun]

end Races

/-- **The write behind a running tracee** and what it finds there. -/
inductive Behind (insn : Cpu → Except Byte Cpu) (fuel : Nat) (how : Resume) (a : Addr)
    (p : Proc (List Bool)) : Proc (List Bool) → Prop
  | running {q : Proc (List Bool)} :
      q.phase = .resumed how → q.cpu = p.cpu → q.hidden = Core.spent p.hidden →
      (∀ m, Core.inFlight p.hidden a m = m) → Behind insn fuel how a p q
  | forever {q : Proc (List Bool)} :
      nextReport insn fuel how p.cpu = none → q.phase = .resumed how → q.cpu = p.cpu →
      Behind insn fuel how a p q
  | stopped {q : Proc (List Bool)} {d : Cpu} :
      nextReport insn fuel how p.cpu = some (.ok d) → q.phase = .arrived (.stopped sigtrap) →
      q.cpu = ⟨d.regs, Core.inFlight p.hidden a d.mem⟩ → q.hidden = Core.spent p.hidden →
      Behind insn fuel how a p q
  | ended {q : Proc (List Bool)} {code : Byte} :
      nextReport insn fuel how p.cpu = some (.error code) → q.phase = .arrived (.exited code.toNat) →
      Behind insn fuel how a p q

variable {insn : Cpu → Except Byte Cpu} {fuel : Nat} {S : Site (List Bool)} {how : Resume}
variable {s s' : Debugger (List Bool)} {p : Proc (List Bool)} {a : Addr}

theorem hosted_pokable (s : Debugger (List Bool)) (a : Addr) : s.Pokable (hosted insn fuel S) a := fun _ _ => rfl

/-- Two requests that both fail. -/
theorem replaceByte_failed {H : Host (List Bool)} {b : Byte} {w w' : World (List Bool)}
    {q r : Option (Proc (List Bool))}
    (h1 : s.world.request H s.child = (none, w)) (hw : w.procs = Function.update s.world.procs s.child q)
    (h2 : w.request H s.child = (none, w')) (hw' : w'.procs = Function.update w.procs s.child r)
    (hpid : w'.nextPid = s.world.nextPid) : Moved s (replaceByte H s a b).2 r := by
  refine replaceByte_of_requests (World.peektext_failed h1 a) ?_ ?_
  · rw [World.poketext_failed h2, hw', hw, Function.update_idem]
  · rw [World.poketext_failed h2, hpid]

/-- The first request fails and the second one is served. -/
theorem replaceByte_late {H : Host (List Bool)} {b : Byte} {w w' : World (List Bool)}
    {q : Option (Proc (List Bool))} {r : Proc (List Bool)}
    (h1 : s.world.request H s.child = (none, w)) (hw : w.procs = Function.update s.world.procs s.child q)
    (h2 : w.request H s.child = (some r, w'))
    (hw' : w'.procs = Function.update w.procs s.child (some r))
    (hpid : w'.nextPid = s.world.nextPid) :
    Moved s (replaceByte H s a b).2
      (some (r.withMem (Mem.poke (H.writable r.hidden) r.cpu.mem a (setLow (-1) b)))) := by
  refine replaceByte_of_requests (World.peektext_failed h1 a) ?_ ?_
  · rw [World.poketext_served h2]
    show Function.update w'.procs s.child _ = _
    rw [hw', hw, Function.update_idem, Function.update_idem]
  · rw [World.poketext_served h2]
    exact hpid

/-- Two requests that are both served. -/
theorem replaceByte_served {H : Host (List Bool)} {b : Byte} {w w' : World (List Bool)}
    {r : Proc (List Bool)}
    (h1 : s.world.request H s.child = (some r, w))
    (hw : w.procs = Function.update s.world.procs s.child (some r))
    (h2 : w.request H s.child = (some r, w')) (hw' : w'.procs = w.procs)
    (hpid : w'.nextPid = s.world.nextPid) :
    Moved s (replaceByte H s a b).2 (some (r.withMem (replaced (H.writable r.hidden) r.cpu.mem a b))) := by
  refine replaceByte_of_requests (World.peektext_served h1 a) ?_ ?_
  · rw [World.poketext_served h2]
    show Function.update w'.procs s.child _ = _
    rw [hw', hw, Function.update_idem]
    rfl
  · rw [World.poketext_served h2]
    exact hpid

variable (insn fuel S) in
/-- **What the write behind a running tracee does**, by the schedule. -/
theorem replaceByte_behind (h : s.tracee = some p) (hp : p.phase = .resumed how) (a : Addr) :
    ∃ q, Moved s (replaceByte (hosted insn fuel S) s a int3).2 (some q) ∧
      Behind insn fuel how a p q := by
  have h0 : s.world.procs s.child = some p := h
  cases hrun : nextReport insn fuel how p.cpu with
  | none =>
      obtain ⟨bs, h1⟩ := request_forever S h0 hp hrun
      obtain ⟨bs', h2⟩ := request_forever S (p := { p with hidden := bs })
        (World.setProc_procs_self _) hp hrun
      exact ⟨_, replaceByte_failed h1 rfl h2 rfl rfl, .forever hrun hp rfl⟩
  | some r =>
      rcases hs : p.hidden with _ | ⟨_ | _, bs⟩
      · -- the tracee is never in time
        have h1 := request_early insn fuel S h0 hp (by rw [hs]; rfl)
        exact ⟨_, replaceByte_failed h1 rfl
          (request_early insn fuel S (World.setProc_procs_self _) hp rfl) rfl rfl,
          .running hp rfl (by rw [hs]; rfl) (fun m => by rw [hs]; rfl)⟩
      · have h1 := request_early insn fuel S h0 hp (by rw [hs]; rfl)
        rcases bs with _ | ⟨_ | _, bs⟩
        · exact ⟨_, replaceByte_failed h1 rfl
            (request_early insn fuel S (World.setProc_procs_self _) hp rfl) rfl rfl,
            .running hp rfl (by rw [hs]; rfl) (fun m => by rw [hs]; rfl)⟩
        · exact ⟨_, replaceByte_failed h1 rfl
            (request_early insn fuel S (World.setProc_procs_self _) hp rfl) rfl rfl,
            .running hp rfl (by rw [hs]; rfl) (fun m => by rw [hs]; rfl)⟩
        · -- it stops between the two requests
          cases r with
          | error code =>
              exact ⟨_, replaceByte_failed h1 rfl
                (request_exit (World.setProc_procs_self _) hp rfl hrun) rfl rfl, .ended hrun rfl⟩
          | ok d =>
              refine ⟨_, replaceByte_late h1 rfl
                (request_stop (World.setProc_procs_self _) hp rfl hrun) rfl rfl,
                .stopped hrun rfl ?_ ?_⟩
              · rw [hs]
                rfl
              · rw [hs]
                rfl
      · -- it has come to its report before the first request
        cases r with
        | error code =>
            exact ⟨_, replaceByte_failed (request_exit h0 hp hs hrun) rfl
              (request_ended (World.setProc_procs_self _) rfl) (Function.update_idem ..).symm rfl,
              .ended hrun rfl⟩
        | ok d =>
            refine ⟨_, replaceByte_served (request_stop h0 hp hs hrun) rfl
              (request_arrived (World.setProc_procs_self _) rfl) rfl rfl, .stopped hrun rfl ?_ ?_⟩
            · rw [hs]
              rfl
            · rw [hs]
              rfl

/-! ## The commands follow the reduced debugger -/

/-- The debugger at a prompt, reduced to `k`. -/
structure Shows (s : Debugger (List Bool)) (k : Core) : Prop where
  running : s.state = .running
  points : s.points = k.points
  ripNow : s.ripNow = k.ripNow
  bpaddrNow : s.bpaddrNow = k.bpaddrNow
  tracee : ∃ p, s.Holds p ∧ p.cpu = k.cpu ∧ p.hidden = k.sched

/-- What a stop prints: nothing, or the report of a breakpoint. -/
def Printed (H : Host (List Bool)) (s s' : Debugger (List Bool)) : Option Addr → Prop
  | none => s'.out = s.out ∧ s'.code = s.code
  | some a => ∃ code lines, reportOf H s a = .ok (code, lines) ∧
      s'.out = s.out ++ .reached :: lines ∧ s'.code = some code

/-- The exit of the tracee, as a command leaves the debugger after it. -/
structure Exited (s s' : Debugger (List Bool)) (code : Byte) : Prop where
  loaded : s'.state = .loaded
  ran : Ran s s' none
  out : s'.out = s.out ++ [.terminated s.child (256 * code.toNat)]
  code : s'.code = s.code

/-- **A command follows a course.** It fails only by being blocked for ever, or because the breakpoint
    that it reports cannot be shown. -/
def Follows (H : Host (List Bool)) (s : Debugger (List Bool)) :
    Course → Except Halt (Debugger (List Bool)) → Prop
  | .forever, r => r = .error .blocked
  | .exit code, r => ∃ s', r = .ok s' ∧ Exited s s' code
  | .prompt k rep, .ok s' => Shows s' k ∧ (∃ q, Ran s s' q) ∧ Printed H s s' rep
  | .prompt _ rep, .error e => ∃ a, rep = some a ∧ reportOf H s a = .error e

/-- What `checkStop` comes to on a stop in `d`: the debugger settles, and the return value tells
    whether the resume path is next. -/
def Settles (H : Host (List Bool)) (s : Debugger (List Bool)) (k : Core) (d : Cpu) :
    Except Halt (Int × Debugger (List Bool)) → Prop
  | .ok (ret, s') => Shows s' (k.settle d).1 ∧ (∃ q, Ran s s' q) ∧ Printed H s s' (k.settle d).2 ∧
      match k.again d with
      | none => ret ≠ 1
      | some b => ret = 1 ∧ s'.restore = b.ori
  | .error e => ∃ a, (k.settle d).2 = some a ∧ reportOf H s a = .error e

variable {k : Core} {H : Host (List Bool)}

variable (insn fuel S) in
/-- What `waitpid` comes to on a running program. -/
theorem wait_running (ht : s.tracee = some p) (hp : p.phase = .resumed how) :
    match nextReport insn fuel how p.cpu with
    | none => s.world.waitpid (hosted insn fuel S) s.child = .blocked
    | some (.error code) => Due (hosted insn fuel S) s (.exited code.toNat) p
    | some (.ok d) => Due (hosted insn fuel S) s (.stopped sigtrap) { p with cpu := d } := by
  cases hrun : nextReport insn fuel how p.cpu with
  | none =>
      have ht' : s.world.procs s.child = some p := ht
      simp only [World.waitpid, ht', hp, hosted, hrun]
  | some r =>
      cases r with
      | error code =>
          have hhost : (hosted insn fuel S).run how p.cpu p.hidden
              = some (.exited code.toNat, p.cpu, p.hidden) := by simp only [hosted, hrun]
          exact due_resumed ht hp hhost
      | ok d =>
          have hhost : (hosted insn fuel S).run how p.cpu p.hidden
              = some (.stopped sigtrap, d, p.hidden) := by simp only [hosted, hrun]
          exact due_resumed ht hp hhost

/-- **A verdict settles.** -/
theorem verdict_settles (hk : Shows s k) : Settles H s k k.cpu (classifyStop H s) := by
  obtain ⟨p, hp, hcpu, hsched⟩ := hk.tracee
  rw [← hcpu]
  have hv := classifyStop_verdict (H := H) hk.running hp
  cases hc : classifyStop H s with
  | error e =>
      rw [hc] at hv
      obtain ⟨b, hb, hne, hrep⟩ := hv
      rw [hk.points] at hb
      rw [hk.ripNow] at hne
      exact ⟨b.addr, by simp only [Core.settle, hb, if_neg hne], hrep⟩
  | ok r =>
      obtain ⟨ret, s'⟩ := r
      rw [hc] at hv
      cases hv with
      | elsewhere hb hran hstate hrip hbp hout hcode =>
          rw [hk.points] at hb
          simp only [Settles, Core.settle, Core.again, hb, Option.filter_none]
          refine ⟨⟨hstate.trans hk.running, hran.points.trans hk.points, hrip.trans hk.ripNow,
            hbp.trans hk.bpaddrNow, p, hran.holds hp.stopped, rfl, hsched⟩, ⟨_, hran⟩, ⟨hout, hcode⟩, ?_⟩
          decide
      | again b hb hnow hran hstate hrip hbp hout hcode hrestore =>
          rw [hk.points] at hb
          rw [hk.ripNow] at hnow
          simp only [Settles, Core.settle, Core.again, hb, Option.filter_some, hnow, decide_true, if_true]
          refine ⟨⟨hstate.trans hk.running, hran.points.trans hk.points,
            hrip.trans (hk.ripNow.trans hnow),
            hbp.trans hk.bpaddrNow, _, hran.holds hp.stopped, rfl, hsched⟩, ⟨_, hran⟩, ⟨hout, hcode⟩,
            trivial, hrestore⟩
      | report b code lines hb hne hran hstate hrip hbp hrep hout hcode =>
          rw [hk.points] at hb
          rw [hk.ripNow] at hne
          simp only [Settles, Core.settle, Core.again, hb, Option.filter_some, hne, decide_false,
            Bool.false_eq_true, if_false]
          refine ⟨⟨hstate.trans hk.running, hran.points.trans hk.points, hrip, hbp, _,
            hran.holds hp.stopped, rfl, hsched⟩, ⟨_, hran⟩, ⟨code, lines, hrep, hout, hcode⟩, ?_⟩
          decide


/-- **The next report is on its way**: the tracee has been resumed, and its report is computed by `r`. -/
structure Awaits (H : Host (List Bool)) (s : Debugger (List Bool)) (k : Core)
    (r : Option (Except Byte Cpu)) : Prop where
  running : s.state = .running
  points : s.points = k.points
  ripNow : s.ripNow = k.ripNow
  bpaddrNow : s.bpaddrNow = k.bpaddrNow
  due : match r with
    | none => s.world.waitpid H s.child = .blocked
    | some (.error code) => ∃ p, Due H s (.exited code.toNat) p
    | some (.ok d) => ∃ p, Due H s (.stopped sigtrap) p ∧ p.cpu = d ∧ p.hidden = k.sched

theorem Awaits.forever (h : Awaits H s k none) : checkStop H s = .error .blocked := by
  have hdue := h.due
  simp only [checkStop, hdue]

theorem Awaits.exit {code : Byte} (h : Awaits H s k (some (.error code))) :
    ∃ s', checkStop H s = .ok (-1, s') ∧ Exited s s' code := by
  obtain ⟨p, hp⟩ := h.due
  refine ⟨_, checkStop_exited hp, rfl, ?_, rfl, rfl⟩
  have hran := Ran.of_moved (collected_moved s p (.exited code.toNat))
  exact ⟨rfl, rfl, rfl, rfl, rfl, hran.procs, hran.nextPid⟩

/-- A change of the tracee that prints nothing. -/
structure Silent (s s' : Debugger (List Bool)) : Prop where
  ran : ∃ q, Ran s s' q
  out : s'.out = s.out
  code : s'.code = s.code

theorem Silent.of_moved {q : Option (Proc (List Bool))} (h : Moved s s' q) : Silent s s' :=
  ⟨⟨q, Ran.of_moved h⟩, by rw [h.same], by rw [h.same]⟩

theorem Silent.trans {s'' : Debugger (List Bool)} (h : Silent s s') (h' : Silent s' s'') :
    Silent s s'' := by
  obtain ⟨q, hq⟩ := h.ran
  obtain ⟨r, hr⟩ := h'.ran
  exact ⟨⟨r, hq.trans hr⟩, h'.out.trans h.out, h'.code.trans h.code⟩

theorem Silent.setBpaddrNow (s : Debugger (List Bool)) (a : Addr) :
    Silent s { s with bpaddrNow := a } :=
  ⟨⟨s.tracee, rfl, rfl, rfl, rfl, rfl, (Function.update_eq_self ..).symm, rfl⟩, rfl, rfl⟩

theorem Silent.reportOf (h : Silent s s') (a : Addr) : reportOf H s' a = reportOf H s a := by
  obtain ⟨q, hq⟩ := h.ran
  unfold Sdb.reportOf
  rw [hq.program, hq.text, h.code]

theorem Printed.of_silent {s'' : Debugger (List Bool)} (hm : Silent s s') {rep : Option Addr}
    (h : Printed H s' s'' rep) : Printed H s s'' rep := by
  cases rep with
  | none => exact ⟨h.1.trans hm.out, h.2.trans hm.code⟩
  | some a =>
      obtain ⟨code, lines, hok, hlines, hread⟩ := h
      exact ⟨code, lines, (hm.reportOf a).symm.trans hok, by rw [hlines, hm.out], hread⟩

/-- A silent change in front of what a stop settles. -/
theorem Settles.of_silent {d : Cpu} (hm : Silent s s') {r : Except Halt (Int × Debugger (List Bool))}
    (h : Settles H s' k d r) : Settles H s k d r := by
  cases r with
  | error e =>
      obtain ⟨a, ha, he⟩ := h
      exact ⟨a, ha, (hm.reportOf a).symm.trans he⟩
  | ok r =>
      obtain ⟨hshows, ⟨r, hr⟩, hprinted, hret⟩ := h
      obtain ⟨q, hq⟩ := hm.ran
      exact ⟨hshows, ⟨r, hq.trans hr⟩, hprinted.of_silent hm, hret⟩

/-- A silent change in front of a command. -/
theorem Follows.of_silent {c : Course} (hm : Silent s s') {r : Except Halt (Debugger (List Bool))}
    (h : Follows H s' c r) : Follows H s c r := by
  obtain ⟨q, hq⟩ := hm.ran
  cases c with
  | forever => exact h
  | exit code =>
      obtain ⟨s'', hs'', hex⟩ := h
      exact ⟨s'', hs'', hex.loaded, hq.trans hex.ran, by rw [hex.out, hm.out, hq.child],
        hex.code.trans hm.code⟩
  | prompt k rep =>
      cases r with
      | error e =>
          obtain ⟨a, ha, he⟩ := h
          exact ⟨a, ha, (hm.reportOf a).symm.trans he⟩
      | ok s'' =>
          obtain ⟨hshows, ⟨r, hr⟩, hprinted⟩ := h
          exact ⟨hshows, ⟨r, hq.trans hr⟩, hprinted.of_silent hm⟩

theorem Awaits.stop {d : Cpu} (h : Awaits H s k (some (.ok d))) :
    Settles H s k d (checkStop H s) := by
  obtain ⟨p, hp, hcpu, hsched⟩ := h.due
  rw [checkStop_stopped hp]
  have hm := collected_moved s p (.stopped sigtrap)
  refine Settles.of_silent (Silent.of_moved hm) ?_
  exact verdict_settles (k := { k with cpu := d })
    ⟨h.running, h.points, h.ripNow, h.bpaddrNow, _, hm.holds rfl, hcpu, hsched⟩


/-! ## The two stages of a resume -/

/-- `replaceByte` on a tracee in ptrace-stop. -/
theorem Shows.replaced (hall : ∀ sched, H.writable sched = everywhere) (h : Shows s k) (a : Addr) (b : Byte) :
    Shows (replaceByte H s a b).2 { k with cpu := ⟨k.cpu.regs, Sdb.replaced everywhere k.cpu.mem a b⟩ } ∧
      Silent s (replaceByte H s a b).2 := by
  obtain ⟨p, hp, hcpu, hsched⟩ := h.tracee
  have hm := replaceByte_moved (H := H) hp a b
  refine ⟨⟨h.running, h.points, h.ripNow, h.bpaddrNow, _, hm.holds hp.stopped, ?_, hsched⟩,
    Silent.of_moved hm⟩
  rw [← hcpu, ← hall p.hidden]
  rfl

variable (insn fuel S) in
/-- Resuming a tracee in ptrace-stop. -/
theorem Shows.resumed (h : Shows s k) (how : Resume) :
    Awaits (hosted insn fuel S) (resume s how) k (nextReport insn fuel how k.cpu) ∧
      Silent s (resume s how) := by
  obtain ⟨p, hp, hcpu, hsched⟩ := h.tracee
  have hm := resume_moved hp how
  refine ⟨⟨h.running, h.points, h.ripNow, h.bpaddrNow, ?_⟩, Silent.of_moved hm⟩
  have hwait := wait_running insn fuel S hm.tracee rfl
  rw [← hcpu]
  cases hrun : nextReport insn fuel how p.cpu with
  | none =>
      simp only [hrun] at hwait
      exact hwait
  | some r =>
      cases r with
      | error code =>
          simp only [hrun] at hwait
          exact ⟨_, hwait⟩
      | ok d =>
          simp only [hrun] at hwait
          exact ⟨_, hwait, rfl, hsched⟩

variable (insn fuel S) in
/-- Resuming it and writing behind it. -/
theorem Shows.resumed_behind (h : Shows s k) (how : Resume) (a : Addr) :
    Awaits (hosted insn fuel S) (replaceByte (hosted insn fuel S) (resume s how) a int3).2
        { k with sched := Core.spent k.sched }
        ((nextReport insn fuel how k.cpu).map
          (Except.map fun d => ⟨d.regs, Core.inFlight k.sched a d.mem⟩)) ∧
      Silent s (replaceByte (hosted insn fuel S) (resume s how) a int3).2 := by
  obtain ⟨p, hp, hcpu, hsched⟩ := h.tracee
  have hm := resume_moved hp how
  obtain ⟨q, hmq, hbehind⟩ := replaceByte_behind insn fuel S hm.tracee rfl a
  refine ⟨⟨h.running, h.points, h.ripNow, h.bpaddrNow, ?_⟩,
    (Silent.of_moved hm).trans (Silent.of_moved hmq)⟩
  have ht := hmq.tracee
  rw [← hcpu, ← hsched]
  cases hbehind with
  | running hphase hqcpu hqsched hsame =>
      -- no request has been served, so the memory is as it was
      have hwait := wait_running insn fuel S ht hphase
      rw [hqcpu] at hwait
      cases hrun : nextReport insn fuel how p.cpu with
      | none =>
          simp only [hrun] at hwait
          exact hwait
      | some r =>
          cases r with
          | error code =>
              simp only [hrun] at hwait
              exact ⟨_, hwait⟩
          | ok d =>
              simp only [hrun] at hwait
              have hmem : Core.inFlight p.hidden a d.mem = d.mem := hsame d.mem
              refine ⟨_, hwait, ?_, hqsched⟩
              show d = ⟨d.regs, Core.inFlight p.hidden a d.mem⟩
              rw [hmem]
  | forever hrun hphase hqcpu =>
      have hwait := wait_running insn fuel S ht hphase
      rw [hqcpu, hrun] at hwait
      rw [show nextReport insn fuel how p.cpu = none from hrun]
      exact hwait
  | stopped hrun hphase hqcpu hqsched =>
      rw [show nextReport insn fuel how p.cpu = some (.ok _) from hrun]
      exact ⟨q, due_arrived ht hphase, hqcpu, hqsched⟩
  | ended hrun hphase =>
      rw [show nextReport insn fuel how p.cpu = some (.error _) from hrun]
      exact ⟨q, due_arrived ht hphase⟩

/-- The global `bpaddr_now` set while the report is on its way. -/
theorem Awaits.setBpaddrNow {r : Option (Except Byte Cpu)} (h : Awaits H s k r) (a : Addr) :
    Awaits H { s with bpaddrNow := a } { k with bpaddrNow := a } r :=
  ⟨h.running, h.points, h.ripNow, rfl, h.due⟩

/-- **The end of the resume path**: one more stop, and the trap written back. -/
theorem Awaits.finish (hall : ∀ sched, H.writable sched = everywhere) {r : Option (Except Byte Cpu)}
    (h : Awaits H s k r) (a : Addr) :
    Follows H s
      (.next r fun d => .prompt { (k.settle d).1 with
        cpu := ⟨(k.settle d).1.cpu.regs, Sdb.replaced everywhere (k.settle d).1.cpu.mem a int3⟩ } (k.settle d).2)
      ((checkStop H s).bind fun x => .ok (replaceByte H x.2 a int3).2) := by
  rcases r with _ | code | d
  · rw [h.forever]
    rfl
  · obtain ⟨s', hs', hex⟩ := h.exit
    rw [hs']
    have hm := replaceByte_gone (H := H) hex.ran.tracee a int3
    exact ⟨_, rfl, hex.loaded, hex.ran.trans (Ran.of_moved hm), hex.out, hex.code⟩
  · have hset := h.stop
    cases hc : checkStop H s with
    | error e =>
        rw [hc] at hset
        exact hset
    | ok x =>
        obtain ⟨ret, s'⟩ := x
        rw [hc] at hset
        obtain ⟨hshows, ⟨q, hq⟩, hprinted, -⟩ := hset
        obtain ⟨hshows', hsilent⟩ := hshows.replaced hall a int3
        obtain ⟨q', hq'⟩ := hsilent.ran
        exact ⟨hshows', ⟨q', hq.trans hq'⟩, hprinted⟩

/-- **The first stage of a resume**, with what comes after it in the resume path. -/
theorem Awaits.firstStage {r : Option (Except Byte Cpu)} (h : Awaits H s k r)
    {c : Core → Byte → Course} {f : Debugger (List Bool) → Except Halt (Debugger (List Bool))}
    (hf : ∀ s' k', Shows s' k' → Follows H s' (c k' s'.restore) (f s')) :
    Follows H s
      (.next r fun d => match k.again d with
        | none => .prompt (k.settle d).1 (k.settle d).2
        | some b => c (k.settle d).1 b.ori)
      ((checkStop H s).bind fun x => if x.1 = 1 then f x.2 else .ok x.2) := by
  rcases r with _ | code | d
  · rw [h.forever]
    rfl
  · obtain ⟨s', hs', hex⟩ := h.exit
    rw [hs']
    exact ⟨s', rfl, hex⟩
  · have hset := h.stop
    simp only [Course.next]
    cases hc : checkStop H s with
    | error e =>
        rw [hc] at hset
        -- only a breakpoint that is reported now can fail to be shown
        obtain ⟨a, ha, he⟩ := hset
        cases hagain : k.again d with
        | none => exact ⟨a, ha, he⟩
        | some b =>
            rw [(Core.settle_of_again hagain).2.2] at ha
            cases ha
    | ok x =>
        obtain ⟨ret, s'⟩ := x
        rw [hc] at hset
        obtain ⟨hshows, hran, hprinted, hret⟩ := hset
        cases hagain : k.again d with
        | none =>
            rw [hagain] at hret
            simp only [Except.bind, if_neg hret]
            exact ⟨hshows, hran, hprinted⟩
        | some b =>
            rw [hagain] at hret
            obtain ⟨rfl, hrestore⟩ := hret
            rw [(Core.settle_of_again hagain).2.2] at hprinted
            simp only [Except.bind, if_true]
            rw [← hrestore]
            exact Follows.of_silent ⟨hran, hprinted.1, hprinted.2⟩ (hf s' _ hshows)

variable (insn fuel S) in
/-- **`cont` follows the reduced debugger.** -/
theorem cont_course (h : Shows s k) :
    Follows (hosted insn fuel S) s (k.resume insn fuel .cont) (cont (hosted insn fuel S) s) := by
  obtain ⟨hawait, hsilent⟩ := h.resumed insn fuel S .cont
  refine Follows.of_silent hsilent ?_
  unfold cont Core.resume
  rw [if_neg (fun hne => hne h.running)]
  refine hawait.firstStage (c := Core.path insn fuel .cont) (f := fun s =>
    (checkStop (hosted insn fuel S)
      { (replaceByte (hosted insn fuel S) (resume (replaceByte (hosted insn fuel S) s s.bpaddrNow
          s.restore).2 .cont) s.bpaddrNow int3).2 with bpaddrNow := 0 }).bind fun x =>
        .ok (replaceByte (hosted insn fuel S) x.2 s.bpaddrNow int3).2) fun s₁ k₁ h₁ => ?_
  obtain ⟨h₂, hsilent₂⟩ := Shows.replaced (H := hosted insn fuel S) (fun _ => rfl) h₁ s₁.bpaddrNow s₁.restore
  obtain ⟨h₃, hsilent₃⟩ :=
    h₂.resumed_behind insn fuel S .cont s₁.bpaddrNow
  have hfinish := Awaits.finish (fun _ => rfl) (h₃.setBpaddrNow 0) s₁.bpaddrNow
  refine Follows.of_silent hsilent₂ (Follows.of_silent hsilent₃
    (Follows.of_silent (Silent.setBpaddrNow _ 0) ?_))
  rw [h₁.bpaddrNow, Course.next_map] at hfinish
  rw [h₁.bpaddrNow]
  exact hfinish

variable (insn fuel S) in
/-- **`si` follows the reduced debugger.** -/
theorem si_course (h : Shows s k) :
    Follows (hosted insn fuel S) s (k.resume insn fuel .step) (si (hosted insn fuel S) s) := by
  obtain ⟨hawait, hsilent⟩ := h.resumed insn fuel S .step
  refine Follows.of_silent hsilent ?_
  unfold si Core.resume
  rw [if_neg (fun hne => hne h.running)]
  refine hawait.firstStage (c := Core.path insn fuel .step) (f := fun s =>
    (checkStop (hosted insn fuel S)
      { resume (replaceByte (hosted insn fuel S) s s.bpaddrNow s.restore).2 .step with
        bpaddrNow := 0 }).bind fun x =>
        .ok (replaceByte (hosted insn fuel S) x.2 s.bpaddrNow int3).2) fun s₁ k₁ h₁ => ?_
  obtain ⟨h₂, hsilent₂⟩ := Shows.replaced (H := hosted insn fuel S) (fun _ => rfl) h₁ s₁.bpaddrNow s₁.restore
  obtain ⟨h₃, hsilent₃⟩ := h₂.resumed insn fuel S .step
  have hfinish := Awaits.finish (fun _ => rfl) (h₃.setBpaddrNow 0) s₁.bpaddrNow
  refine Follows.of_silent hsilent₂ (Follows.of_silent hsilent₃
    (Follows.of_silent (Silent.setBpaddrNow _ 0) ?_))
  rw [h₁.bpaddrNow] at hfinish ⊢
  exact hfinish

/-- **`start`** leaves a fresh tracee at its first instruction, an empty table, and the globals of the
    resume path as it found them. -/
theorem start_shows {file : Inode} {c₀ : Cpu} {sched : List Bool} (hstate : s.state ≠ .others)
    (hfile : S.execvp (execPath s.program) = some file) (himage : S.image file = some (c₀, sched))
    (hstart : start (hosted insn fuel S) s = .ok s') :
    Shows s' ⟨c₀, sched, [], s.ripNow, s.bpaddrNow⟩ ∧ s'.program = s.program ∧ s'.text = s.text ∧
      s'.code = s.code ∧ s'.bpid = s.bpid := by
  have h := start_started hstate hstart
  have hfile' : (hosted insn fuel S).execvp (execPath s.program) = some file := hfile
  have himage' : (hosted insn fuel S).image file = some (c₀, sched) := himage
  have htracee : s'.tracee = some ⟨c₀, sched, .stopped, file⟩ := by
    rw [h.tracee, launched, hfile', Option.bind_some, himage']
    rfl
  exact ⟨⟨h.state, h.points, h.ripNow, h.bpaddrNow, _, ⟨htracee, rfl⟩, rfl, rfl⟩, h.program, h.text, h.code,
    h.bpid⟩

end AdvUnix.Sdb
