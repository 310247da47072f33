import AdvUnix.Lib.Lockstep
import AdvUnix.Sdb.Sample

/-!
# `Sdb.Restart` — two sessions after a restart

`start` empties the table and makes a fresh tracee, and leaves `rip_now`, `bpaddr_now` and `restore` as the
last session left them. Two debuggers that differ in these, in their pids and in their numbers, and that
then get the same commands, run in lockstep (`exec_twins`) until a stop comes at a breakpoint that one of
them takes for the one it reported last and the other does not.
-/

namespace AdvUnix.Sdb

open TwoRun Debugger

variable {ω : Type} {H : Host ω} {how : Resume} {δ : Int}
variable {s t s' t' s₀ t₀ : Debugger ω} {p : Proc ω} {a : Addr} {b : Byte}

/-! ## Two worlds with the same process -/

section Worlds

variable {w v : World ω} {pid pid' : Pid}

/-- A request finds the same in both, and leaves the same in both. -/
theorem World.request_same (h : w.procs pid = v.procs pid') :
    ∃ found w' v', w.request H pid = (found, w') ∧ v.request H pid' = (found, v') ∧
      w'.procs pid = v'.procs pid' := by
  cases hp : w.procs pid with
  | none => exact ⟨_, _, _, World.request_gone hp, World.request_gone (h.symm.trans hp), h⟩
  | some p =>
      refine ⟨_, _, _, World.request_spec hp, World.request_spec (h.symm.trans hp), ?_⟩
      rw [World.setProc_procs_self, World.setProc_procs_self]

theorem World.peektext_same (h : w.procs pid = v.procs pid') (a : Addr) :
    (w.peektext H pid a).1 = (v.peektext H pid' a).1 ∧
      (w.peektext H pid a).2.procs pid = (v.peektext H pid' a).2.procs pid' := by
  obtain ⟨found, w', v', hw, hv, hleft⟩ := World.request_same (H := H) h
  unfold World.peektext
  rw [hw, hv]
  cases found with
  | none => exact ⟨rfl, hleft⟩
  | some p => exact ⟨rfl, hleft⟩

theorem World.poketext_same (h : w.procs pid = v.procs pid') (a : Addr) (x : Word) :
    (w.poketext H pid a x).procs pid = (v.poketext H pid' a x).procs pid' := by
  obtain ⟨found, w', v', hw, hv, hleft⟩ := World.request_same (H := H) h
  unfold World.poketext
  rw [hw, hv]
  cases found with
  | none => exact hleft
  | some p => simp only [World.setProc_procs_self]

theorem World.resume_same (h : w.procs pid = v.procs pid') (how : Resume) :
    (w.resume pid how).procs pid = (v.resume pid' how).procs pid' := by
  cases hp : w.procs pid with
  | none =>
      have hq := h.symm.trans hp
      simp only [World.resume, hp, hq]
  | some p =>
      have hq := h.symm.trans hp
      rcases hphase : p.phase with _ | how' | st
      · simp only [World.resume, hp, hq, hphase, World.setProc_procs_self]
      · simp only [World.resume, hp, hq, hphase]
      · simp only [World.resume, hp, hq, hphase]

end Worlds

/-! ## Twins -/

/-- The entry with another number. -/
def renumber (δ : Int) (b : Breakpoint) : Breakpoint := { b with id := b.id + δ }

/-- The lines that report a breakpoint. -/
def reports (out : List Out) : List Out :=
  out.filter fun o =>
    match o with
    | .reached | .insn _ _ => true
    | _ => false

/-- **Twins**: two debuggers with the same program and the same tracee, whose tables are the same up to the
    numbers, and that have reported the same since `s₀` and `t₀`. -/
structure Twins (H : Host ω) (δ : Int) (s₀ t₀ s t : Debugger ω) : Prop where
  state : t.state = s.state
  tracee : t.tracee = s.tracee
  program : t.program = s.program
  text : t.text = s.text
  code : codeOf H t.program t.code = codeOf H s.program s.code
  points : t.points = s.points.map (renumber δ)
  bpid : t.bpid = s.bpid + δ
  reported : ∃ l, reports s.out = reports s₀.out ++ l ∧ reports t.out = reports t₀.out ++ l

/-- They agree on whether the breakpoint at `a` was the one reported last, and if so, on `bpaddr_now`. -/
def Agree (s t : Debugger ω) (a : Addr) : Prop :=
  (s.ripNow = a ↔ t.ripNow = a) ∧ (s.ripNow = a → t.bpaddrNow = s.bpaddrNow)

theorem agree_of_eq (hrip : t.ripNow = s.ripNow) (hbp : t.bpaddrNow = s.bpaddrNow) : Agree s t a :=
  ⟨by rw [hrip], fun _ => hbp⟩

namespace Twins

theorem addrs_eq (h : Twins H δ s₀ t₀ s t) : addrs t.points = addrs s.points := by
  rw [h.points, addrs, List.map_map]
  rfl

theorem hit_eq (h : Twins H δ s₀ t₀ s t) (r : Regs) :
    hit t.points r = (hit s.points r).map (renumber δ) := by
  unfold hit
  rw [h.points, List.find?_map]
  rfl

theorem reportOf_eq (h : Twins H δ s₀ t₀ s t) (a : Addr) : reportOf H t a = reportOf H s a := by
  unfold reportOf listing
  rw [h.code, h.text]

/-- The same lines printed by both, up to those that report nothing. -/
theorem out_append {u v : List Out} (h : Twins H δ s₀ t₀ s t) (huv : reports u = reports v) :
    ∃ l, reports (s.out ++ u) = reports s₀.out ++ l ∧ reports (t.out ++ v) = reports t₀.out ++ l := by
  obtain ⟨l, hs, ht⟩ := h.reported
  refine ⟨l ++ reports u, ?_, ?_⟩
  · rw [← List.append_assoc, ← hs]
    exact List.filter_append ..
  · rw [huv, ← List.append_assoc, ← ht]
    exact List.filter_append ..

/-- Twins whose tracees have made the same move. -/
theorem moved {q : Option (Proc ω)} (h : Twins H δ s₀ t₀ s t) (hs : Moved s s' q) (ht : Moved t t' q) :
    Twins H δ s₀ t₀ s' t' := by
  have htracee : t'.tracee = s'.tracee := ht.tracee.trans hs.tracee.symm
  have hs' := hs.same
  have ht' := ht.same
  rw [hs', ht'] at htracee ⊢
  exact ⟨h.state, htracee, h.program, h.text, h.code, h.points, h.bpid, h.reported⟩

/-- Only the tracees of two twins have changed, and in the same way. -/
theorem of_world {w v : World ω} (h : Twins H δ s₀ t₀ s t) (hwv : v.procs t.child = w.procs s.child) :
    Twins H δ s₀ t₀ { s with world := w } { t with world := v } :=
  ⟨h.state, hwv, h.program, h.text, h.code, h.points, h.bpid, h.reported⟩

theorem say (h : Twins H δ s₀ t₀ s t) {o o' : Out} (ho : reports [o] = reports [o']) :
    Twins H δ s₀ t₀ (s.say o) (t.say o') :=
  ⟨h.state, h.tracee, h.program, h.text, h.code, h.points, h.bpid, h.out_append ho⟩

theorem replaceByte (h : Twins H δ s₀ t₀ s t) (a : Addr) (b : Byte) :
    (Sdb.replaceByte H t a b).1 = (Sdb.replaceByte H s a b).1 ∧
      Twins H δ s₀ t₀ (Sdb.replaceByte H s a b).2 (Sdb.replaceByte H t a b).2 := by
  obtain ⟨hword, hleft⟩ := World.peektext_same (H := H) h.tracee a
  unfold Sdb.replaceByte
  simp only [hword]
  refine ⟨trivial, h.of_world ?_⟩
  exact World.poketext_same hleft a _

theorem resume (h : Twins H δ s₀ t₀ s t) (how : Resume) :
    Twins H δ s₀ t₀ (Sdb.resume s how) (Sdb.resume t how) :=
  h.of_world (World.resume_same h.tracee how)

theorem setBpaddrNow (h : Twins H δ s₀ t₀ s t) (a : Addr) :
    Twins H δ s₀ t₀ { s with bpaddrNow := a } { t with bpaddrNow := a } :=
  ⟨h.state, h.tracee, h.program, h.text, h.code, h.points, h.bpid, h.reported⟩

/-- `waitpid` comes to the same in both. -/
theorem waitpid (h : Twins H δ s₀ t₀ s t) :
    s.world.waitpid H s.child = .error ∧ t.world.waitpid H t.child = .error ∨
      s.world.waitpid H s.child = .blocked ∧ t.world.waitpid H t.child = .blocked ∨
      ∃ st p, Due H s st p ∧ Due H t st p := by
  have htracee := h.tracee
  cases hs : s.tracee with
  | none =>
      have ht : t.world.procs t.child = none := htracee.trans hs
      have hs' : s.world.procs s.child = none := hs
      exact Or.inl ⟨by simp only [World.waitpid, hs'], by simp only [World.waitpid, ht]⟩
  | some p =>
      have ht : t.tracee = some p := htracee.trans hs
      have hs' : s.world.procs s.child = some p := hs
      have ht' : t.world.procs t.child = some p := ht
      rcases hphase : p.phase with _ | how | st
      · exact Or.inr (Or.inl ⟨by simp only [World.waitpid, hs', hphase],
          by simp only [World.waitpid, ht', hphase]⟩)
      · rcases hrun : H.run how p.cpu p.hidden with _ | ⟨st, cpu, hidden⟩
        · exact Or.inr (Or.inl ⟨by simp only [World.waitpid, hs', hphase, hrun],
            by simp only [World.waitpid, ht', hphase, hrun]⟩)
        · exact Or.inr (Or.inr ⟨st, _, due_resumed hs hphase hrun, due_resumed ht hphase hrun⟩)
      · exact Or.inr (Or.inr ⟨st, p, due_arrived hs hphase, due_arrived ht hphase⟩)

end Twins

/-! ## Stops -/

/-- Two running debuggers with the same globals of the resume path. -/
structure OnPath (s t : Debugger ω) : Prop where
  running : s.state = .running
  ripNow : t.ripNow = s.ripNow
  bpaddrNow : t.bpaddrNow = s.bpaddrNow
  restore : t.restore = s.restore

/-- What two twins come to at a stop: the same return value, and twins again, which have the same globals
    when the resume path is next. -/
structure Stopped (H : Host ω) (δ : Int) (s₀ t₀ : Debugger ω) (x y : Int × Debugger ω) : Prop where
  ret : y.1 = x.1
  twins : Twins H δ s₀ t₀ x.2 y.2
  onPath : x.1 = 1 → OnPath x.2 y.2

theorem Twins.ran (h : Twins H δ s₀ t₀ s t) {q : Option (Proc ω)} (hs : Ran s s' q) (ht : Ran t t' q)
    (hstate : t'.state = s'.state) (hcode : codeOf H t'.program t'.code = codeOf H s'.program s'.code)
    {u v : List Out} (hs' : s'.out = s.out ++ u) (ht' : t'.out = t.out ++ v)
    (huv : reports u = reports v) : Twins H δ s₀ t₀ s' t' where
  state := hstate
  tracee := ht.tracee.trans hs.tracee.symm
  program := (ht.program.trans h.program).trans hs.program.symm
  text := (ht.text.trans h.text).trans hs.text.symm
  code := hcode
  points := by rw [ht.points, hs.points, h.points]
  bpid := by rw [ht.bpid, hs.bpid, h.bpid]
  reported := by
    rw [hs', ht']
    exact h.out_append huv

/-- Neither of them has stopped at a breakpoint. -/
theorem elsewhere_twins (h : Twins H δ s₀ t₀ s t) (hrun : s.state = .running) (hs : s.Holds p) (ht : t.Holds p)
    (hb : hit s.points p.cpu.regs = none) :
    Lockstep (Stopped H δ s₀ t₀) (classifyStop H s) (classifyStop H t) := by
  have hhit := h.hit_eq p.cpu.regs
  rw [hb, Option.map_none] at hhit
  obtain ⟨s', hs', hvs⟩ := classifyStop_elsewhere (H := H) hrun hs hb
  obtain ⟨t', ht', hvt⟩ := classifyStop_elsewhere (H := H) (h.state.trans hrun) ht hhit
  refine Lockstep.of_ok hs' ht' ⟨rfl, ?_, fun h => absurd h (show (-1 : Int) ≠ 1 by decide)⟩
  cases hvs with
  | elsewhere _ hran hstate _ _ hout hcode =>
      cases hvt with
      | elsewhere _ hran' hstate' _ _ hout' hcode' =>
          refine h.ran hran hran' ?_ ?_ (u := []) (v := []) ?_ ?_ rfl
          · rw [hstate', hstate, h.state]
          · rw [hcode', hcode, hran'.program, hran.program, h.code]
          · rw [hout, List.append_nil]
          · rw [hout', List.append_nil]

/-- Both have stopped at the breakpoint that they have reported last. -/
theorem again_twins (h : Twins H δ s₀ t₀ s t) (hrun : s.state = .running) (hs : s.Holds p) (ht : t.Holds p)
    {b : Breakpoint} (hb : hit s.points p.cpu.regs = some b) (hnow : s.ripNow = b.addr) (hnow' : t.ripNow = b.addr)
    (hbp : t.bpaddrNow = s.bpaddrNow) :
    Lockstep (Stopped H δ s₀ t₀) (classifyStop H s) (classifyStop H t) := by
  have hhit := h.hit_eq p.cpu.regs
  rw [hb, Option.map_some] at hhit
  obtain ⟨s', hs', hvs⟩ := classifyStop_again (H := H) hrun hs hb hnow
  obtain ⟨t', ht', hvt⟩ := classifyStop_again (H := H) (h.state.trans hrun) ht hhit hnow'
  cases hvs with
  | again b₁ hb₁ _ hran hstate hr hbp₁ hout hcode hrestore =>
      cases hvt with
      | again b₂ hb₂ _ hran' hstate' hr' hbp₂ hout' hcode' hrestore' =>
          cases hb.symm.trans hb₁
          cases hhit.symm.trans hb₂
          refine Lockstep.of_ok hs' ht' ⟨rfl, ?_, fun _ => ⟨?_, ?_, ?_, ?_⟩⟩
          · refine h.ran hran hran' ?_ ?_ (u := []) (v := []) ?_ ?_ rfl
            · rw [hstate', hstate, h.state]
            · rw [hcode', hcode, hran'.program, hran.program, h.code]
            · rw [hout, List.append_nil]
            · rw [hout', List.append_nil]
          · rw [hstate, hrun]
          · rw [hr', hr, hnow', hnow]
          · rw [hbp₂, hbp₁, hbp]
          · rw [hrestore', hrestore]
            rfl

/-- Both have a breakpoint to report. The report is made from the same file, so it fails on both sides or on
    none. -/
theorem report_twins (h : Twins H δ s₀ t₀ s t) (hrun : s.state = .running) (hs : s.Holds p) (ht : t.Holds p)
    {b : Breakpoint} (hb : hit s.points p.cpu.regs = some b) (hnow : s.ripNow ≠ b.addr) (hnow' : t.ripNow ≠ b.addr) :
    Lockstep (Stopped H δ s₀ t₀) (classifyStop H s) (classifyStop H t) := by
  have hrunt := h.state.trans hrun
  have hhit := h.hit_eq p.cpu.regs
  rw [hb, Option.map_some] at hhit
  have hreport : reportOf H t (renumber δ b).addr = reportOf H s b.addr := h.reportOf_eq b.addr
  rcases classifyStop_report (H := H) hrun hs hb hnow with ⟨e, hrep, hs'⟩ | ⟨s', hs', hvs⟩
  · rcases classifyStop_report (H := H) hrunt ht hhit hnow' with ⟨e', hrep', ht'⟩ | ⟨t', ht', hvt⟩
    · cases hrep.symm.trans (hreport.symm.trans hrep')
      exact Lockstep.of_error hs' ht'
    · cases hvt with
      | report b₂ code lines hb₂ _ _ _ _ _ hrep' =>
          cases hhit.symm.trans hb₂
          cases hrep.symm.trans (hreport.symm.trans hrep')
  · cases hvs with
    | report b₁ code lines hb₁ _ hran hstate _ _ hrep hout hcode =>
        cases hb.symm.trans hb₁
        rcases classifyStop_report (H := H) hrunt ht hhit hnow' with ⟨e', hrep', ht'⟩ | ⟨t', ht', hvt⟩
        · cases hrep.symm.trans (hreport.symm.trans hrep')
        · cases hvt with
          | report b₂ code₂ lines₂ hb₂ _ hran' hstate' _ _ hrep' hout' hcode' =>
              cases hhit.symm.trans hb₂
              cases hrep.symm.trans (hreport.symm.trans hrep')
              refine Lockstep.of_ok hs' ht' ⟨rfl, ?_, fun h => absurd h (show (0 : Int) ≠ 1 by decide)⟩
              refine h.ran hran hran' ?_ ?_ hout hout' rfl
              · rw [hstate', hstate, h.state]
              · rw [hcode', hcode]
                rfl

/-- **Twins stop alike**, if they agree on the breakpoint they stop at. -/
theorem classifyStop_twins (h : Twins H δ s₀ t₀ s t) (hrun : s.state = .running) (hs : s.Holds p)
    (ht : t.Holds p) (hagree : p.cpu.regs .rip - 1 ∈ addrs s.points → Agree s t (p.cpu.regs .rip - 1)) :
    Lockstep (Stopped H δ s₀ t₀) (classifyStop H s) (classifyStop H t) := by
  cases hb : hit s.points p.cpu.regs with
  | none => exact elsewhere_twins h hrun hs ht hb
  | some b =>
      have hrip : p.cpu.regs .rip - 1 = b.addr := (hit_addr hb).symm
      have hin : p.cpu.regs .rip - 1 ∈ addrs s.points := by
        rw [hrip]
        exact mem_addrs (hit_mem hb)
      -- both have reported it last, or neither has
      obtain ⟨hsame, hbp⟩ := hagree hin
      rw [hrip] at hsame hbp
      by_cases hnow : s.ripNow = b.addr
      · exact again_twins h hrun hs ht hb hnow (hsame.mp hnow) (hbp hnow)
      · exact report_twins h hrun hs ht hb hnow fun he => hnow (hsame.mpr he)

/-- They agree on the breakpoint at which the next stop comes. -/
def AgreeAtStop (H : Host ω) (s t : Debugger ω) : Prop :=
  ∀ sig p, Due H s (.stopped sig) p → p.cpu.regs .rip - 1 ∈ addrs s.points →
    Agree s t (p.cpu.regs .rip - 1)

theorem checkStop_twins (h : Twins H δ s₀ t₀ s t) (hrun : s.state = .running)
    (hagree : AgreeAtStop H s t) : Lockstep (Stopped H δ s₀ t₀) (checkStop H s) (checkStop H t) := by
  rcases h.waitpid with ⟨hs, ht⟩ | ⟨hs, ht⟩ | ⟨st, p, hs, ht⟩
  · exact Lockstep.of_error (e := .quit "** wait error.") (by simp only [checkStop, hs])
      (by simp only [checkStop, ht])
  · exact Lockstep.of_error (e := .blocked) (by simp only [checkStop, hs]) (by simp only [checkStop, ht])
  · have hmoved := h.moved (collected_moved s p st) (collected_moved t p st)
    cases st with
    | stopped sig =>
        rw [checkStop_stopped hs, checkStop_stopped ht]
        exact classifyStop_twins hmoved hrun ((collected_moved s p (.stopped sig)).holds rfl)
          ((collected_moved t p (.stopped sig)).holds rfl) (hagree sig p hs)
    | exited code =>
        refine Lockstep.of_ok (checkStop_exited hs) (checkStop_exited ht)
          ⟨rfl, ?_, fun h => absurd h (show (-1 : Int) ≠ 1 by decide)⟩
        exact ⟨rfl, hmoved.tracee, hmoved.program, hmoved.text, hmoved.code, hmoved.points, hmoved.bpid,
          hmoved.out_append (u := [_]) (v := [_]) rfl⟩
    | signaled sig =>
        exact Lockstep.of_ok (checkStop_signaled hs) (checkStop_signaled ht)
          ⟨rfl, hmoved, fun h => absurd h (show (-1 : Int) ≠ 1 by decide)⟩

/-! ## One command -/

/-- The end of the resume path, with `addr` the same in both. -/
theorem finish_twins (h : Twins H δ s₀ t₀ s t) (hrun : s.state = .running) (hrip : t.ripNow = s.ripNow)
    (addr : Addr) :
    Lockstep (Twins H δ s₀ t₀)
      ((checkStop H { s with bpaddrNow := 0 }).bind fun x => .ok (replaceByte H x.2 addr int3).2)
      ((checkStop H { t with bpaddrNow := 0 }).bind fun x => .ok (replaceByte H x.2 addr int3).2) :=
  (checkStop_twins (h.setBpaddrNow 0) hrun fun _ _ _ _ => agree_of_eq hrip rfl).bind fun _ _ hxy =>
    (hxy.twins.replaceByte addr int3).2

/-- **A command that resumes**, by what comes after its first stop. -/
theorem firstStop_twins (h : Twins H δ s₀ t₀ s t) (hrun : s.state = .running)
    (hagree : AgreeAtStop H (resume s how) (resume t how)) {f : Debugger ω → Except Halt (Debugger ω)}
    (hf : ∀ s t, Twins H δ s₀ t₀ s t → OnPath s t → Lockstep (Twins H δ s₀ t₀) (f s) (f t)) :
    Lockstep (Twins H δ s₀ t₀)
      ((checkStop H (resume s how)).bind fun x => if x.1 = 1 then f x.2 else .ok x.2)
      ((checkStop H (resume t how)).bind fun x => if x.1 = 1 then f x.2 else .ok x.2) := by
  refine (checkStop_twins (h.resume how) hrun hagree).bind fun x y hxy => ?_
  rw [hxy.ret]
  by_cases hret : x.1 = 1
  · rw [if_pos hret, if_pos hret]
    exact hf x.2 y.2 hxy.twins (hxy.onPath hret)
  · rw [if_neg hret, if_neg hret]
    exact hxy.twins

theorem Twins.idle (h : Twins H δ s₀ t₀ s t) : Twins H δ s₀ t₀ s.notRunning t.notRunning := h.say rfl

theorem cont_twins (h : Twins H δ s₀ t₀ s t)
    (hagree : s.state = .running → AgreeAtStop H (resume s .cont) (resume t .cont)) :
    Lockstep (Twins H δ s₀ t₀) (cont H s) (cont H t) := by
  by_cases hrun : s.state = .running
  · have hrunt := h.state.trans hrun
    unfold cont
    rw [if_neg (fun hne => hne hrun), if_neg (fun hne => hne hrunt)]
    refine firstStop_twins h hrun (hagree hrun) (f := fun s =>
      (checkStop H { (replaceByte H (resume (replaceByte H s s.bpaddrNow s.restore).2 .cont)
        s.bpaddrNow int3).2 with bpaddrNow := 0 }).bind fun x =>
          .ok (replaceByte H x.2 s.bpaddrNow int3).2) fun s₁ t₁ h₁ hpath => ?_
    rw [hpath.bpaddrNow, hpath.restore]
    have h₂ := ((h₁.replaceByte s₁.bpaddrNow s₁.restore).2.resume .cont).replaceByte s₁.bpaddrNow int3
    refine finish_twins h₂.2 ?_ ?_ s₁.bpaddrNow
    · rw [replaceByte_state]
      exact hpath.running
    · rw [replaceByte_ripNow, replaceByte_ripNow]
      exact hpath.ripNow
  · have hrunt : t.state ≠ .running := fun ht => hrun (h.state.symm.trans ht)
    exact Lockstep.of_ok (if_pos hrun) (if_pos hrunt) h.idle

theorem si_twins (h : Twins H δ s₀ t₀ s t)
    (hagree : s.state = .running → AgreeAtStop H (resume s .step) (resume t .step)) :
    Lockstep (Twins H δ s₀ t₀) (si H s) (si H t) := by
  by_cases hrun : s.state = .running
  · have hrunt := h.state.trans hrun
    unfold si
    rw [if_neg (fun hne => hne hrun), if_neg (fun hne => hne hrunt)]
    refine firstStop_twins h hrun (hagree hrun) (f := fun s =>
      (checkStop H { resume (replaceByte H s s.bpaddrNow s.restore).2 .step with bpaddrNow := 0 }).bind
        fun x => .ok (replaceByte H x.2 s.bpaddrNow int3).2) fun s₁ t₁ h₁ hpath => ?_
    rw [hpath.bpaddrNow, hpath.restore]
    have h₂ := (h₁.replaceByte s₁.bpaddrNow s₁.restore).2.resume .step
    exact finish_twins h₂ hpath.running hpath.ripNow s₁.bpaddrNow
  · have hrunt : t.state ≠ .running := fun ht => hrun (h.state.symm.trans ht)
    exact Lockstep.of_ok (if_pos hrun) (if_pos hrunt) h.idle

/-- The next number does not overflow. -/
def Fits (n : Int) : Prop := incInt n = n + 1

theorem breakpoint_twins (h : Twins H δ s₀ t₀ s t) {sAddr : String}
    (hfits : s.state = .running → Fits s.bpid ∧ Fits t.bpid) :
    Lockstep (Twins H δ s₀ t₀) (breakpoint H s sAddr) (breakpoint H t sAddr) := by
  by_cases hrun : s.state = .running
  · have hrunt := h.state.trans hrun
    obtain ⟨hori, htwins⟩ := h.replaceByte (addrOf sAddr) int3
    by_cases hin : addrOf sAddr ∈ addrs s.points
    · have hint : addrOf sAddr ∈ addrs t.points := by
        rw [h.addrs_eq]
        exact hin
      exact Lockstep.of_ok (breakpoint_dup hrun hin) (breakpoint_dup hrunt hint) htwins
    · have hint : addrOf sAddr ∉ addrs t.points := by
        rw [h.addrs_eq]
        exact hin
      obtain ⟨hs, ht⟩ := hfits hrun
      refine Lockstep.of_ok (breakpoint_new hrun hin) (breakpoint_new hrunt hint)
        ⟨htwins.state, htwins.tracee, htwins.program, htwins.text, htwins.code, ?_, ?_, htwins.reported⟩
      · show t.points ++ _ = (s.points ++ _).map (renumber δ)
        rw [List.map_append, ← h.points, hori, h.bpid]
        rfl
      · show incInt t.bpid = incInt s.bpid + δ
        rw [hs, ht, h.bpid]
        omega
  · have hrunt : t.state ≠ .running := fun ht => hrun (h.state.symm.trans ht)
    exact Lockstep.of_ok (if_pos hrun) (if_pos hrunt) h.idle

theorem stoi_ne_missing {sId : String} {id : Int} (hid : stoi sId = .ok id) : sId ≠ "QQ" := by
  intro he
  rw [he, show stoi "QQ" = .error .invalidArgument by decide] at hid
  cases hid

theorem del_twins (h : Twins H δ s₀ t₀ s t) {sId tId : String} {id : Int} (hs : stoi sId = .ok id)
    (ht : stoi tId = .ok (id + δ)) : Lockstep (Twins H δ s₀ t₀) (del H s sId) (del H t tId) := by
  by_cases hrun : s.state = .running
  · have hrunt := h.state.trans hrun
    have hshift : ((fun q : Breakpoint => decide (q.id = id + δ)) ∘ renumber δ)
        = fun q : Breakpoint => decide (q.id = id) := by
      funext q
      simp [renumber]
    have hfind : t.points.find? (fun q => decide (q.id = id + δ))
        = (s.points.find? fun q => decide (q.id = id)).map (renumber δ) := by
      rw [h.points, List.find?_map, hshift]
    have herase : t.points.eraseP (fun q => decide (q.id = id + δ))
        = (s.points.eraseP fun q => decide (q.id = id)).map (renumber δ) := by
      rw [h.points, List.eraseP_map, hshift]
    simp only [del, hrun, hrunt, ne_eq, not_true_eq_false, if_false, stoi_ne_missing hs,
      stoi_ne_missing ht, hs, ht, hfind]
    cases s.points.find? fun q => decide (q.id = id) with
    | none => exact h.say (o := .line "** no such breakpoint.") rfl
    | some q =>
        obtain ⟨-, htwins⟩ := h.replaceByte q.addr q.ori
        exact ⟨htwins.state, htwins.tracee, htwins.program, htwins.text, htwins.code, herase, htwins.bpid,
          htwins.out_append (u := [_]) (v := [_]) rfl⟩
  · have hrunt : t.state ≠ .running := fun ht' => hrun (h.state.symm.trans ht')
    exact Lockstep.of_ok (if_pos hrun) (if_pos hrunt) h.idle

/-! ## Sessions -/

/-- The same command for both, the numbers in `delete` shifted. -/
inductive Paired (δ : Int) : Command → Command → Prop
  | break (sAddr : String) : Paired δ (.break sAddr) (.break sAddr)
  | delete {sId tId : String} {id : Int} :
      stoi sId = .ok id → stoi tId = .ok (id + δ) → Paired δ (.delete sId) (.delete tId)
  | cont : Paired δ .cont .cont
  | si : Paired δ .si .si

/-- **What a step of two sessions must be given**: a resume stops at no breakpoint that the two debuggers
    take differently, and the next number does not overflow. -/
def Meets (H : Host ω) (s t : Debugger ω) : Command → Prop
  | .break _ => s.state = .running → Fits s.bpid ∧ Fits t.bpid
  | .cont => s.state = .running → AgreeAtStop H (resume s .cont) (resume t .cont)
  | .si => s.state = .running → AgreeAtStop H (resume s .step) (resume t .step)
  | _ => True

/-- **One command** keeps twins in lockstep. -/
theorem exec_twins (h : Twins H δ s₀ t₀ s t) {c d : Command} (hpair : Paired δ c d) (hmeets : Meets H s t c) :
    Lockstep (Twins H δ s₀ t₀) (exec H s c) (exec H t d) := by
  cases hpair with
  | «break» sAddr => exact breakpoint_twins h hmeets
  | delete hs ht => exact del_twins h hs ht
  | cont => exact cont_twins h hmeets
  | si => exact si_twins h hmeets

/-- Every step of two sessions is given what it needs. -/
def AlongBoth (H : Host ω) : Debugger ω → Debugger ω → List (Command × Command) → Prop
  | _, _, [] => True
  | s, t, (c, d) :: cmds => Meets H s t c ∧
      ∀ s' t', exec H s c = .ok s' → exec H t d = .ok t' → AlongBoth H s' t' cmds

/-- What is seen of two debuggers, since `s₀` and `t₀`, is the same: the state, the registers and memory of
    the tracee, and the reports. -/
def Alike (s₀ t₀ s t : Debugger ω) : Prop :=
  t.state = s.state ∧ t.tracee.map (·.cpu) = s.tracee.map (·.cpu) ∧
    ∃ l, reports s.out = reports s₀.out ++ l ∧ reports t.out = reports t₀.out ++ l

/-- **Two sessions that look alike** at every prompt, or end in the same way. -/
def Indistinguishable (H : Host ω) (s t : Debugger ω) (cmds : List (Command × Command)) : Prop :=
  ∀ i, Lockstep (Alike s t) (execAll H s ((cmds.map Prod.fst).take i))
    (execAll H t ((cmds.map Prod.snd).take i))

theorem execAll_twins (h : Twins H δ s₀ t₀ s t) {cmds : List (Command × Command)}
    (hpairs : ∀ c ∈ cmds, Paired δ c.1 c.2) (hmeets : AlongBoth H s t cmds) (i : Nat) :
    Lockstep (Twins H δ s₀ t₀) (execAll H s ((cmds.map Prod.fst).take i))
      (execAll H t ((cmds.map Prod.snd).take i)) := by
  induction cmds generalizing s t i with
  | nil =>
      rw [List.map_nil, List.map_nil, List.take_nil]
      exact h
  | cons c cmds ih =>
      cases i with
      | zero => exact h
      | succ i =>
          obtain ⟨hstep, hrest⟩ := hmeets
          have hfirst := exec_twins h (hpairs c List.mem_cons_self) hstep
          simp only [List.map_cons, List.take_succ_cons, execAll, List.foldlM_cons]
          -- the rest of the session is met for the states that the two commands do lead to
          cases hs : exec H s c.1 with
          | error e =>
              cases ht : exec H t c.2 with
              | error e' =>
                  rw [hs, ht] at hfirst
                  exact hfirst
              | ok t' =>
                  rw [hs, ht] at hfirst
                  exact absurd hfirst id
          | ok s' =>
              cases ht : exec H t c.2 with
              | error e' =>
                  rw [hs, ht] at hfirst
                  exact absurd hfirst id
              | ok t' =>
                  rw [hs, ht] at hfirst
                  exact ih hfirst (fun d hd => hpairs d (List.mem_cons_of_mem c hd)) (hrest s' t' hs ht) i

/-- **Restart independence.** Two debuggers with the same program loaded, and the same code and text section
    to show, look alike after `start` under the same commands, if every step is given what it needs. -/
theorem restart_independent {s₁ t₁ : Debugger ω} {cmds : List (Command × Command)}
    (hs : s.state ≠ .others) (ht : t.state ≠ .others) (hprogram : t.program = s.program)
    (htext : t.text = s.text) (hcode : codeOf H t.program t.code = codeOf H s.program s.code)
    (hs₁ : start H s = .ok s₁) (ht₁ : start H t = .ok t₁)
    (hpairs : ∀ c ∈ cmds, Paired (t.bpid - s.bpid) c.1 c.2) (hmeets : AlongBoth H s₁ t₁ cmds) :
    Indistinguishable H s₁ t₁ cmds := by
  have h := start_started hs hs₁
  have h' := start_started ht ht₁
  have htwins : Twins H (t.bpid - s.bpid) s₁ t₁ s₁ t₁ := by
    refine ⟨h'.state.trans h.state.symm, ?_, ?_, ?_, ?_, ?_, ?_, [], ?_, ?_⟩
    · rw [h'.tracee, h.tracee, hprogram]
    · rw [h'.program, h.program, hprogram]
    · rw [h'.text, h.text, htext]
    · rw [h'.program, h'.code, h.program, h.code, hcode]
    · rw [h'.points, h.points]
      rfl
    · rw [h'.bpid, h.bpid]
      omega
    · exact (List.append_nil _).symm
    · exact (List.append_nil _).symm
  intro i
  refine (execAll_twins htwins hpairs hmeets i).mono fun s' t' h => ⟨h.state, ?_, h.reported⟩
  rw [h.tracee]

/-! ## A history that does not show, and one that does -/

/-- A session that has reported the breakpoint at the second instruction. -/
def reportedSession : List Command := [.load "./a", .start, .break "400001", .cont]

/-- The debugger after it, and after a restart. -/
structure Restarted (t t₁ : Debugger (List Bool)) : Prop where
  history : execAll (sampleHost nopText 9) Debugger.init reportedSession = .ok t
  start : start (sampleHost nopText 9) t = .ok t₁

theorem exists_restarted : ∃ t t₁, Restarted t t₁ := by
  have hlook : steering (execAll (sampleHost nopText 9) Debugger.init reportedSession)
      = .ok (.running, [0x400001], 0x400001, 0x400001, some 0x400001) := by decide
  cases ht : execAll (sampleHost nopText 9) Debugger.init reportedSession with
  | error e =>
      rw [ht] at hlook
      cases hlook
  | ok t =>
      rw [ht] at hlook
      have hrun : t.state = .running := congrArg Prod.fst (Except.ok.inj hlook)
      have hrestart : ∃ t₁, Sdb.start (sampleHost nopText 9) t = .ok t₁ := by
        unfold Sdb.start
        rw [hrun]
        exact ⟨_, rfl⟩
      obtain ⟨t₁, ht₁⟩ := hrestart
      exact ⟨t, t₁, ht, ht₁⟩

/-- A session after the restart is a session from the beginning. -/
theorem Restarted.session {t t₁ : Debugger (List Bool)} (h : Restarted t t₁) (cmds : List Command) :
    execAll (sampleHost nopText 9) t₁ cmds
      = execAll (sampleHost nopText 9) Debugger.init (reportedSession ++ .start :: cmds) := by
  have hstart : exec (sampleHost nopText 9) t .start = .ok t₁ := h.start
  rw [execAll_append h.history, execAll_cons hstart]

/-- The stale globals do not show at another breakpoint. -/
theorem restart_elsewhere : ∃ t t₁, Restarted t t₁ ∧
    Indistinguishable (sampleHost nopText 9) (sampleStarted nopText 9) t₁
      [(.break "400000", .break "400000"), (.cont, .cont), (.delete "0", .delete "1")] := by
  obtain ⟨t, t₁, h⟩ := exists_restarted
  have hlook : (execAll (sampleHost nopText 9) Debugger.init reportedSession).map
      (fun t => (t.state, t.program, t.text, t.bpid)) = .ok (.running, "./a", Elf.Shdr.zero, 1) := by decide
  have hread : (execAll (sampleHost nopText 9) Debugger.init reportedSession).map (fun t => t.code)
      = .ok (some (Elf.elfmag ++ [0])) := by decide
  rw [h.history] at hlook hread
  simp only [Except.map, Except.ok.injEq, Prod.mk.injEq] at hlook hread
  obtain ⟨hrun, hprogram, htext, hbpid⟩ := hlook
  have hstate : t.state ≠ .others := by
    rw [hrun]
    decide
  refine ⟨t, t₁, h, restart_independent (s := sampleLoaded) (by decide) hstate hprogram htext ?_
    (sample_start nopText 9) h.start ?_ ?_⟩
  · rw [hread]
    rfl
  · rw [hbpid]
    intro c hc
    simp only [List.mem_cons, List.not_mem_nil, or_false] at hc
    rcases hc with rfl | rfl | rfl
    · exact .break _
    · exact .cont
    · exact .delete (show stoi "0" = .ok 0 by decide) (by decide)
  · refine ⟨fun _ => ⟨by unfold Fits; decide, ?_⟩, fun s₂ t₂ hs₂ ht₂ => ⟨fun _ sig p _ hin => ?_,
      fun _ _ _ _ => ⟨trivial, fun _ _ _ _ => trivial⟩⟩⟩
    · unfold Fits
      rw [(start_started hstate h.start).bpid, hbpid]
      decide
    · -- the stop is at the only breakpoint, and neither debugger has reported that one
      have hs : steering (exec (sampleHost nopText 9) (sampleStarted nopText 9) (.break "400000"))
          = .ok (.running, [0x400000], 0, 0, some 0x400000) := by decide
      have ht : steering (execAll (sampleHost nopText 9) Debugger.init
          (reportedSession ++ [.start, .break "400000"]))
            = .ok (.running, [0x400000], 0x400001, 0x400001, some 0x400000) := by decide
      have hall : execAll (sampleHost nopText 9) t₁ [.break "400000"] = .ok t₂ := execAll_cons ht₂ []
      rw [show exec _ _ _ = .ok s₂ from hs₂] at hs
      rw [← h.session [.break "400000"], hall] at ht
      simp only [steering, Except.map, Except.ok.injEq, Prod.mk.injEq] at hs ht
      obtain ⟨-, hpoints, hripNow, -⟩ := hs
      obtain ⟨-, -, hripNow', -⟩ := ht
      have hin' : p.cpu.regs .rip - 1 ∈ addrs s₂.points := hin
      rw [hpoints] at hin'
      have hat := List.mem_singleton.mp hin'
      rw [hat]
      refine ⟨?_, fun hnow => ?_⟩
      · show s₂.ripNow = _ ↔ t₂.ripNow = _
        rw [hripNow, hripNow']
        decide
      · have hnow' : s₂.ripNow = 0x400000 := hnow
        rw [hripNow] at hnow'
        exact absurd hnow' (by decide)

/-- The stale `rip_now` shows: the fresh debugger reports the breakpoint, the other one runs through it. -/
theorem restart_shows_history :
    execAll (sampleHost nopText 9) Debugger.init [.load "./a"] = .ok sampleLoaded ∧
    start (sampleHost nopText 9) sampleLoaded = .ok (sampleStarted nopText 9) ∧
      ∃ t t₁, Restarted t t₁ ∧ t.program = sampleLoaded.program ∧ t.state = .running ∧
        ¬ Indistinguishable (sampleHost nopText 9) (sampleStarted nopText 9) t₁
          [(.break "400001", .break "400001"), (.cont, .cont)] := by
  obtain ⟨t, t₁, h⟩ := exists_restarted
  have hlook : (execAll (sampleHost nopText 9) Debugger.init reportedSession).map
      (fun t => (t.program, t.state)) = .ok ("./a", .running) := by decide
  rw [h.history] at hlook
  obtain ⟨hprogram, hrun⟩ := Prod.mk.inj (Except.ok.inj hlook)
  refine ⟨rfl, rfl, t, t₁, h, hprogram, hrun, fun hsame => ?_⟩
  have hlock := hsame 2
  have hs : (execAll (sampleHost nopText 9) (sampleStarted nopText 9) [.break "400001", .cont]).map
      (fun s => s.state) = .ok .running := by decide
  have ht : (execAll (sampleHost nopText 9) Debugger.init
      (reportedSession ++ [.start, .break "400001", .cont])).map (fun s => s.state) = .ok .loaded := by
    decide
  rw [← h.session [.break "400001", .cont]] at ht
  simp only [List.map_cons, List.map_nil, List.take_succ_cons, List.take_zero] at hlock
  cases hs' : execAll (sampleHost nopText 9) (sampleStarted nopText 9) [.break "400001", .cont] with
  | error e =>
      rw [hs'] at hs
      cases hs
  | ok s' =>
      cases ht' : execAll (sampleHost nopText 9) t₁ [.break "400001", .cont] with
      | error e =>
          rw [ht'] at ht
          cases ht
      | ok t' =>
          rw [hs', ht'] at hlock
          rw [hs'] at hs
          rw [ht'] at ht
          have hrun' : s'.state = .running := Except.ok.inj hs
          have hloaded : t'.state = .loaded := Except.ok.inj ht
          have hstate := hlock.1
          rw [hrun', hloaded] at hstate
          cases hstate

end AdvUnix.Sdb
