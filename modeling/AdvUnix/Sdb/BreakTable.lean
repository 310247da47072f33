import AdvUnix.Sdb.Tracee

/-!
# `Sdb.BreakTable` — the table of breakpoints and the patched memory

`break` and `delete` keep an **overlay** (`breakpoint_overlay`, `del_overlay`): the tracee's memory is the
original one with `0xcc` at the addresses of the table, however the eight-byte words they read and write
overlap. The file begins with the laws of sessions, commands one after the other.
-/

namespace AdvUnix.Sdb

open StepMachine Debugger

variable {ω : Type} {H : Host ω}

/-! ## Sessions -/

theorem execAll_cons {s s' : Debugger ω} {c : Command} (h : exec H s c = .ok s')
    (cmds : List Command) : execAll H s (c :: cmds) = execAll H s' cmds := by
  simp only [execAll, List.foldlM_cons, h]
  rfl

theorem execAll_append {s s' : Debugger ω} {pre : List Command} (h : execAll H s pre = .ok s')
    (post : List Command) : execAll H s (pre ++ post) = execAll H s' post := by
  simp only [execAll, List.foldlM_append] at h ⊢
  rw [h]
  rfl

variable (H) in
/-- **Every step of the session meets `P`**: it holds of each command and the state it is given in. -/
def Along (P : Debugger ω → Command → Prop) : Debugger ω → List Command → Prop
  | _, [] => True
  | s, c :: cmds => P s c ∧ ∀ s', exec H s c = .ok s' → Along P s' cmds

theorem Along.mono {P Q : Debugger ω → Command → Prop} (hPQ : ∀ s c, P s c → Q s c)
    {s : Debugger ω} {cmds : List Command} (h : Along H P s cmds) : Along H Q s cmds := by
  induction cmds generalizing s with
  | nil => trivial
  | cons c cmds ih => exact ⟨hPQ s c h.1, fun s' hs' => ih (h.2 s' hs')⟩

/-- What holds of every command of the session. -/
theorem Along.and_mem {P : Debugger ω → Command → Prop} {Q : Command → Prop} {s : Debugger ω}
    {cmds : List Command} (h : Along H P s cmds) (hQ : ∀ c ∈ cmds, Q c) :
    Along H (fun s c => Q c ∧ P s c) s cmds := by
  induction cmds generalizing s with
  | nil => trivial
  | cons c cmds ih =>
      refine ⟨⟨hQ c List.mem_cons_self, h.1⟩, fun s' hs' => ?_⟩
      exact ih (h.2 s' hs') fun d hd => hQ d (List.mem_cons_of_mem c hd)

/-- The steps of a session and the one after it. -/
theorem Along.of_snoc {P : Debugger ω → Command → Prop} {s s' : Debugger ω} {cmds : List Command}
    {c : Command} (h : Along H P s (cmds ++ [c])) (hs' : execAll H s cmds = .ok s') :
    Along H P s cmds ∧ P s' c := by
  induction cmds generalizing s with
  | nil =>
      cases hs'
      exact ⟨trivial, h.1⟩
  | cons d cmds ih =>
      cases hd : exec H s d with
      | error e =>
          simp only [execAll, List.foldlM_cons, hd] at hs'
          cases hs'
      | ok s₁ =>
          rw [execAll_cons hd] at hs'
          obtain ⟨hstep, hrest⟩ := h
          obtain ⟨hpre, hlast⟩ := ih (hrest s₁ hd) hs'
          refine ⟨⟨hstep, fun s₂ hs₂ => ?_⟩, hlast⟩
          cases hd.symm.trans hs₂
          exact hpre

/-- A session each of whose prompts meets `P` with the command that is given there. -/
theorem Along.of_prompts {P : Debugger ω → Command → Prop} {s : Debugger ω} {cmds : List Command}
    (h : ∀ i s' c, execAll H s (cmds.take i) = .ok s' → cmds[i]? = some c → P s' c) : Along H P s cmds := by
  induction cmds generalizing s with
  | nil => trivial
  | cons d cmds ih =>
      refine ⟨h 0 s d rfl rfl, fun s₁ hs₁ => ih fun i s' c hs' hc => ?_⟩
      exact h (i + 1) s' c (by rw [List.take_succ_cons, execAll_cons hs₁, hs']) hc

/-- **The rule of sessions.** What every step that meets `P` preserves holds after each part of a session
    whose steps all meet it, and so does `P` of the next step. -/
theorem Along.run {P : Debugger ω → Command → Prop} {I : Debugger ω → Prop}
    (hstep : ∀ s c s', I s → P s c → exec H s c = .ok s' → I s') {s : Debugger ω} {cmds : List Command}
    (h : Along H P s cmds) (hI : I s) {i : Nat} {s' : Debugger ω}
    (hs' : execAll H s (cmds.take i) = .ok s') : I s' ∧ ∀ c, cmds[i]? = some c → P s' c := by
  induction cmds generalizing s i with
  | nil =>
      rw [List.take_nil] at hs'
      cases hs'
      exact ⟨hI, fun c hc => absurd hc (by simp)⟩
  | cons d cmds ih =>
      obtain ⟨hd, hrest⟩ := h
      cases i with
      | zero =>
          cases hs'
          refine ⟨hI, fun c hc => ?_⟩
          cases hc
          exact hd
      | succ i =>
          cases hexec : exec H s d with
          | error e =>
              simp only [List.take_succ_cons, execAll, List.foldlM_cons, hexec] at hs'
              cases hs'
          | ok s₁ =>
              rw [List.take_succ_cons, execAll_cons hexec] at hs'
              rw [List.getElem?_cons_succ]
              exact ih (hrest s₁ hexec) (hstep s d s₁ hI hd hexec) hs'

/-! ## The overlay -/

/-- The addresses of a table. -/
def addrs (points : List Breakpoint) : List Addr := points.map (·.addr)

/-- The memory with the breakpoints of a table in it. -/
def armed (points : List Breakpoint) (M : Mem) : Mem := patch (some int3) (addrs points) M

theorem mem_addrs {points : List Breakpoint} {q : Breakpoint} (h : q ∈ points) :
    q.addr ∈ addrs points := List.mem_map_of_mem h

/-- **Breakpoints placed on the memory `M`**: every entry has `M`'s byte, and no two are at one
    address. -/
structure Placed (M : Mem) (points : List Breakpoint) : Prop where
  ori : ∀ q ∈ points, M q.addr = some q.ori
  nodup : (addrs points).Nodup

/-- **Numbered entries**: ids increase along the table and stay below the next one. -/
structure Numbered (points : List Breakpoint) (bpid : Int) : Prop where
  ids : points.Pairwise fun q r => q.id < r.id
  below : ∀ q ∈ points, q.id < bpid

/-- **The overlay invariant**: a running debugger whose breakpoints are placed on `M` and whose tracee is
    stopped with the armed memory. -/
structure Overlay (M : Mem) (s : Debugger ω) : Prop where
  running : s.state = .running
  placed : Placed M s.points
  tracee : ∃ p, s.Holds p ∧ p.cpu.mem = armed s.points M

namespace Placed

variable {M : Mem} {points : List Breakpoint}

theorem nil (M : Mem) : Placed M [] where
  ori := fun _ hq => absurd hq List.not_mem_nil
  nodup := List.nodup_nil

/-- The entries depend on the memory at their own addresses only. -/
theorem congr {M' : Mem} (h : Placed M points) (hM : ∀ q ∈ points, M' q.addr = M q.addr) :
    Placed M' points where
  ori := fun q hq => (hM q hq).trans (h.ori q hq)
  nodup := h.nodup

/-- Arming writes only mapped bytes, so it maps and unmaps nothing. -/
theorem armed_isSome (h : Placed M points) (x : Addr) :
    (armed points M x).isSome = (M x).isSome := by
  unfold armed
  by_cases hx : x ∈ addrs points
  · obtain ⟨q, hq, rfl⟩ := List.mem_map.mp hx
    rw [patch_mem hx, h.ori q hq]
    rfl
  · rw [patch_not_mem hx]

theorem armed_peek (h : Placed M points) (a : Addr) :
    (Mem.peek (armed points M) a).isSome = (Mem.peek M a).isSome :=
  Mem.peek_isSome_congr h.armed_isSome

/-- A new entry at an address the table does not have. -/
theorem snoc (h : Placed M points) {a : Addr} {ori : Byte} (ha : a ∉ addrs points)
    (hori : M a = some ori) (id : Int) : Placed M (points ++ [⟨id, a, ori⟩]) where
  ori := by
    intro q hq
    rcases List.mem_append.mp hq with hq | hq
    · exact h.ori q hq
    · cases List.mem_singleton.mp hq
      exact hori
  nodup := by
    rw [addrs, List.map_append, List.map_singleton, List.nodup_append]
    refine ⟨h.nodup, List.nodup_singleton _, ?_⟩
    intro x hx y hy he
    rw [he, List.mem_singleton.mp hy] at hx
    exact ha hx

/-- The table without the entry of an id. -/
theorem erase (h : Placed M points) (id : Int) :
    Placed M (points.eraseP fun q => q.id = id) where
  ori := fun q hq => h.ori q (List.mem_of_mem_eraseP hq)
  nodup := h.nodup.sublist (List.eraseP_sublist.map _)

/-- The addresses left after erasing the entry that an id finds. -/
theorem addrs_erase (h : Placed M points) {id : Int} {q : Breakpoint}
    (hq : points.find? (fun y => y.id = id) = some q) (x : Addr) :
    (x ∈ addrs (points.eraseP fun y => y.id = id)) ↔ x ∈ addrs points ∧ x ≠ q.addr := by
  have hnodup := h.nodup
  clear h
  induction points with
  | nil => exact absurd hq (by simp)
  | cons y ys ih =>
      rw [addrs, List.map_cons, List.nodup_cons] at hnodup
      by_cases hid : y.id = id
      · rw [List.find?_cons_of_pos (by simpa using hid)] at hq
        cases hq
        rw [List.eraseP_cons_of_pos (by simpa using hid), addrs, addrs, List.map_cons, List.mem_cons]
        constructor
        · intro hx
          exact ⟨Or.inr hx, fun he => hnodup.1 (he ▸ hx)⟩
        · rintro ⟨hx | hx, hne⟩
          · exact absurd hx hne
          · exact hx
      · rw [List.find?_cons_of_neg (by simpa using hid)] at hq
        rw [List.eraseP_cons_of_neg (by simpa using hid), addrs, addrs, List.map_cons, List.map_cons,
          List.mem_cons, List.mem_cons]
        have hne : y.addr ≠ q.addr := fun he =>
          hnodup.1 (he ▸ mem_addrs (List.mem_of_find?_eq_some hq))
        constructor
        · rintro (hx | hx)
          · exact ⟨Or.inl hx, hx ▸ hne⟩
          · obtain ⟨hmem, hxq⟩ := (ih hq hnodup.2).mp hx
            exact ⟨Or.inr hmem, hxq⟩
        · rintro ⟨hx | hx, hxq⟩
          · exact Or.inl hx
          · exact Or.inr ((ih hq hnodup.2).mpr ⟨hx, hxq⟩)

/-- Disarming the entry that an id finds. -/
theorem armed_erase (h : Placed M points) {id : Int} {q : Breakpoint}
    (hq : points.find? (fun y => y.id = id) = some q) :
    Function.update (armed points M) q.addr (some q.ori)
      = armed (points.eraseP fun y => y.id = id) M := by
  rw [← h.ori q (List.mem_of_find?_eq_some hq)]
  exact update_patch_orig (some int3) M (h.addrs_erase hq)

end Placed

namespace Numbered

variable {points : List Breakpoint} {bpid : Int}

theorem nil (bpid : Int) : Numbered [] bpid where
  ids := List.Pairwise.nil
  below := fun _ hq => absurd hq List.not_mem_nil

theorem snoc (h : Numbered points bpid) (a : Addr) (ori : Byte) {bpid' : Int} (hlt : bpid < bpid') :
    Numbered (points ++ [⟨bpid, a, ori⟩]) bpid' where
  ids := by
    rw [List.pairwise_append]
    refine ⟨h.ids, List.pairwise_singleton _ _, ?_⟩
    intro q hq r hr
    cases List.mem_singleton.mp hr
    exact h.below q hq
  below := by
    intro q hq
    rcases List.mem_append.mp hq with hq | hq
    · exact Int.lt_trans (h.below q hq) hlt
    · cases List.mem_singleton.mp hq
      exact hlt

theorem erase (h : Numbered points bpid) (id : Int) :
    Numbered (points.eraseP fun q => q.id = id) bpid where
  ids := h.ids.sublist List.eraseP_sublist
  below := fun q hq => h.below q (List.mem_of_mem_eraseP hq)

/-- Erasing by id leaves no entry with it. -/
theorem erase_ne (h : Numbered points bpid) {id : Int} {r : Breakpoint}
    (hr : r ∈ points.eraseP fun q => q.id = id) : r.id ≠ id := by
  have hids := h.ids
  clear h
  induction points with
  | nil => exact absurd hr List.not_mem_nil
  | cons y ys ih =>
      obtain ⟨hy, hys⟩ := List.pairwise_cons.mp hids
      by_cases hid : y.id = id
      · rw [List.eraseP_cons_of_pos (by simpa using hid)] at hr
        have := hy r hr
        omega
      · rw [List.eraseP_cons_of_neg (by simpa using hid)] at hr
        rcases List.mem_cons.mp hr with rfl | hr
        · exact hid
        · exact ih hr hys

end Numbered

/-- Arming one more address, or the same one again. -/
theorem armed_break {M : Mem} {points points' : List Breakpoint} {a : Addr}
    (h : ∀ x, x ∈ addrs points' ↔ x = a ∨ x ∈ addrs points) :
    Function.update (armed points M) a (some int3) = armed points' M := by
  rw [armed, update_patch_trap]
  exact patch_congr fun x => by rw [h x, List.mem_cons]

/-! ## One command -/

/-- The tracee's memory at `a` can be stored to, where it is mapped. -/
def Debugger.Pokable (H : Host ω) (s : Debugger ω) (a : Addr) : Prop :=
  ∀ p, s.tracee = some p → H.writable p.hidden a = true

/-- **Only the table and the tracee's memory have changed** from `s` to `s'`, besides what is printed. -/
structure Edited (s s' : Debugger ω) : Prop where
  same : s' = { s with points := s'.points, bpid := s'.bpid, out := s'.out, world := s'.world }
  tracee : ∀ p, s.Holds p → ∃ m, s'.Holds (p.withMem m)
  nextPid : s'.world.nextPid = s.world.nextPid

variable {M : Mem} {s : Debugger ω}

theorem breakpoint_dup (hrun : s.state = .running) {sAddr : String}
    (hin : addrOf sAddr ∈ addrs s.points) :
    breakpoint H s sAddr = .ok (replaceByte H s (addrOf sAddr) int3).2 := by
  have hany : (s.points.any fun q => q.addr = addrOf sAddr) = true := by
    obtain ⟨q, hq, he⟩ := List.mem_map.mp hin
    exact List.any_eq_true.mpr ⟨q, hq, by simpa using he⟩
  simp only [breakpoint, hrun, ne_eq, not_true_eq_false, if_false, replaceByte_points, hany, if_true]

theorem breakpoint_new (hrun : s.state = .running) {sAddr : String}
    (hin : addrOf sAddr ∉ addrs s.points) :
    breakpoint H s sAddr = .ok
      { (replaceByte H s (addrOf sAddr) int3).2 with
        points := s.points ++
          [⟨s.bpid, addrOf sAddr, (replaceByte H s (addrOf sAddr) int3).1⟩]
        bpid := incInt s.bpid } := by
  have hany : (s.points.any fun q => q.addr = addrOf sAddr) = false := by
    rw [List.any_eq_false]
    intro q hq he
    exact hin (List.mem_map.mpr ⟨q, hq, by simpa using he⟩)
  simp only [breakpoint, hrun, ne_eq, not_true_eq_false, if_false, replaceByte_points, hany,
    Bool.false_eq_true, replaceByte_bpid]

theorem breakpoint_cases {s' : Debugger ω} {sAddr : String} (h : breakpoint H s sAddr = .ok s') :
    (s.state ≠ .running ∧ s' = s.notRunning) ∨
      (s.state = .running ∧
        (addrOf sAddr ∈ addrs s.points ∧ s' = (replaceByte H s (addrOf sAddr) int3).2 ∨
          addrOf sAddr ∉ addrs s.points ∧
            s' = { (replaceByte H s (addrOf sAddr) int3).2 with
              points := s.points ++ [⟨s.bpid, addrOf sAddr, (replaceByte H s (addrOf sAddr) int3).1⟩]
              bpid := incInt s.bpid })) := by
  by_cases hrun : s.state = .running
  · refine Or.inr ⟨hrun, ?_⟩
    by_cases hin : addrOf sAddr ∈ addrs s.points
    · rw [breakpoint_dup hrun hin] at h
      exact Or.inl ⟨hin, (Except.ok.inj h).symm⟩
    · rw [breakpoint_new hrun hin] at h
      exact Or.inr ⟨hin, (Except.ok.inj h).symm⟩
  · exact Or.inl ⟨hrun, (Except.ok.inj ((if_pos hrun).symm.trans h)).symm⟩

/-- **`break`** on a word that can be peeked and poked keeps the overlay; it adds one entry, or none when the
    table has the address. -/
theorem breakpoint_overlay (h : Overlay M s) {sAddr : String}
    (hm : (Mem.peek M (addrOf sAddr)).isSome) (hw : s.Pokable H (addrOf sAddr)) :
    ∃ s', breakpoint H s sAddr = .ok s' ∧ Overlay M s' ∧ Edited s s' ∧
      (addrOf sAddr ∈ addrs s.points ∧ s'.points = s.points ∧ s'.bpid = s.bpid ∨
       addrOf sAddr ∉ addrs s.points ∧ s'.bpid = incInt s.bpid ∧
         ∃ ori, s'.points = s.points ++ [⟨s.bpid, addrOf sAddr, ori⟩]) := by
  obtain ⟨p, hp, hmem⟩ := h.tracee
  have hm' : (Mem.peek p.cpu.mem (addrOf sAddr)).isSome := by
    rw [hmem, h.placed.armed_peek]
    exact hm
  have hold := replaceByte_returns (H := H) hp hm' int3
  have hmoved := replaceByte_mapped (H := H) hp hm' (hw p hp.tracee) int3
  have hheld := hmoved.holds (hp.stopped : (p.withMem _).phase = .stopped)
  by_cases hin : addrOf sAddr ∈ addrs s.points
  · refine ⟨_, breakpoint_dup h.running hin, ⟨h.running, h.placed, _, hheld, ?_⟩,
      ⟨replaceByte_same .., ?_, hmoved.nextPid⟩, Or.inl ⟨hin, rfl, rfl⟩⟩
    · show Function.update p.cpu.mem (addrOf sAddr) (some int3) = armed s.points M
      rw [hmem]
      exact armed_break fun x => ⟨Or.inr, fun hx => hx.elim (fun he => he ▸ hin) id⟩
    · intro q hq
      cases hp.unique hq
      exact ⟨_, hheld⟩
  · have hori : M (addrOf sAddr) = some (replaceByte H s (addrOf sAddr) int3).1 := by
      rw [← hold, hmem]
      exact (patch_not_mem hin).symm
    refine ⟨_, breakpoint_new h.running hin,
      ⟨h.running, h.placed.snoc hin hori _, p.withMem _, ⟨hheld.tracee, hheld.stopped⟩, ?_⟩,
      ⟨by rw [replaceByte_same], ?_, hmoved.nextPid⟩, Or.inr ⟨hin, rfl, _, rfl⟩⟩
    · show Function.update p.cpu.mem (addrOf sAddr) (some int3) = armed (s.points ++ _) M
      rw [hmem]
      refine armed_break fun x => ?_
      simp [addrs, or_comm]
    · intro q hq
      cases hp.unique hq
      exact ⟨_, hheld.tracee, hheld.stopped⟩

/-- **`delete`** keeps the overlay; it takes out the first entry that has the id, if there is one. -/
theorem del_overlay (h : Overlay M s) (hmapped : ∀ q ∈ s.points, (Mem.peek M q.addr).isSome)
    (hw : ∀ q ∈ s.points, s.Pokable H q.addr)
    {sId : String} {id : Int} (hid : stoi sId = .ok id) :
    ∃ s', del H s sId = .ok s' ∧ Overlay M s' ∧ Edited s s' ∧ s'.bpid = s.bpid ∧
      s'.points = s.points.eraseP fun q => q.id = id := by
  have hqq : sId ≠ "QQ" := by
    intro he
    rw [he, show stoi "QQ" = .error .invalidArgument by decide] at hid
    cases hid
  obtain ⟨p, hp, hmem⟩ := h.tracee
  simp only [del, h.running, ne_eq, not_true_eq_false, if_false, hqq, hid]
  cases hfind : s.points.find? fun q => q.id = id with
  | none =>
      have hno : s.points.eraseP (fun q => decide (q.id = id)) = s.points :=
        List.eraseP_of_forall_not fun q hq => by simpa using List.find?_eq_none.mp hfind q hq
      refine ⟨_, rfl, ⟨h.running, h.placed, p, ⟨hp.tracee, hp.stopped⟩, hmem⟩, ⟨rfl, ?_, rfl⟩, rfl,
        hno.symm⟩
      intro q hq
      exact ⟨q.cpu.mem, hq.tracee, hq.stopped⟩
  | some r =>
      have hm' : (Mem.peek p.cpu.mem r.addr).isSome := by
        rw [hmem, h.placed.armed_peek]
        exact hmapped r (List.mem_of_find?_eq_some hfind)
      have hmoved := replaceByte_mapped (H := H) hp hm' (hw r (List.mem_of_find?_eq_some hfind) p hp.tracee) r.ori
      refine ⟨_, rfl, ⟨h.running, h.placed.erase id, _, ⟨hmoved.tracee, hp.stopped⟩, ?_⟩,
        ⟨by rw [replaceByte_same]; rfl, ?_, hmoved.nextPid⟩, rfl, rfl⟩
      · show Function.update p.cpu.mem r.addr (some r.ori) = armed (s.points.eraseP _) M
        rw [hmem, h.placed.armed_erase hfind]
      · intro q hq
        cases hp.unique hq
        exact ⟨_, hmoved.tracee, hp.stopped⟩

end AdvUnix.Sdb
