import AdvUnix.Sdb.Sample

/-!
# `Sdb.BreakDelete` — sessions of `break` and `delete`

Over whole sessions the overlay of `Sdb.BreakTable` makes `break` and `delete` an algebra: whatever the
order of insertions, repeated insertions and deletions, the table and the memory agree, ids are never
given out twice, and the original memory is back when the table is empty.
-/

namespace AdvUnix.Sdb

open StepMachine Debugger

variable {ω : Type} {H : Host ω} {writable : Addr → Bool} {M : Mem} {s : Debugger ω}

/-- A `break` on a word that can be peeked and poked, or a `delete` with a number. -/
inductive TableCommand (writable : Addr → Bool) (M : Mem) : Command → Prop
  | break {sAddr : String} : (Mem.peek M (addrOf sAddr)).isSome → writable (addrOf sAddr) = true →
      TableCommand writable M (.break sAddr)
  | delete {sId : String} {id : Int} : stoi sId = .ok id → TableCommand writable M (.delete sId)

/-- Whether a command creates a breakpoint: `1` for a `break` at an address the table does not have. -/
def creates (s : Debugger ω) : Command → Nat
  | .break sAddr => if addrOf sAddr ∈ addrs s.points then 0 else 1
  | _ => 0

variable (H) in
/-- The number of breakpoints that a session creates. -/
def created : Debugger ω → List Command → Nat
  | _, [] => 0
  | s, c :: cmds =>
      match exec H s c with
      | .ok s' => creates s c + created s' cmds
      | .error _ => creates s c

/-- **The table has only moved forward** from `s` to `s'`: an entry of the later table is one of the
    earlier table, or its id had not been given out then. -/
structure Advance (s s' : Debugger ω) : Prop where
  bpid : s.bpid ≤ s'.bpid
  fresh : ∀ q ∈ s'.points, q ∈ s.points ∨ s.bpid ≤ q.id

theorem Advance.refl (s : Debugger ω) : Advance s s := ⟨Int.le_refl _, fun _ hq => Or.inl hq⟩

theorem Advance.trans {s s' s'' : Debugger ω} (h : Advance s s') (h' : Advance s' s'') :
    Advance s s'' where
  bpid := Int.le_trans h.bpid h'.bpid
  fresh := by
    intro q hq
    rcases h'.fresh q hq with hq' | hle
    · exact h.fresh q hq'
    · exact Or.inr (Int.le_trans h.bpid hle)

/-- The tracee's memory can be stored to at the addresses in `writable`. -/
def Permits (H : Host ω) (writable : Addr → Bool) (s : Debugger ω) : Prop :=
  ∀ p, s.tracee = some p → H.writable p.hidden = writable

theorem Permits.pokable (h : Permits H writable s) {a : Addr} (ha : writable a = true) : s.Pokable H a := by
  intro p hp
  rw [h p hp]
  exact ha

/-- What is stored does not change where something can be. -/
theorem Permits.edited {s' : Debugger ω} (h : Permits H writable s) (hov : Overlay M s) (hed : Edited s s') :
    Permits H writable s' := by
  obtain ⟨p, hp, -⟩ := hov.tracee
  obtain ⟨m, hm⟩ := hed.tracee p hp
  intro q hq
  cases hm.tracee.symm.trans hq
  exact h p hp.tracee

/-- What holds between the commands of such a session. -/
structure TableInv (H : Host ω) (writable : Addr → Bool) (M : Mem) (s : Debugger ω) : Prop
    extends Overlay M s where
  numbered : Numbered s.points s.bpid
  mapped : ∀ q ∈ s.points, (Mem.peek M q.addr).isSome
  pokable : ∀ q ∈ s.points, writable q.addr = true
  permits : Permits H writable s
  bpid_nonneg : 0 ≤ s.bpid

theorem incInt_eq {n : Int} (h0 : 0 ≤ n) (h : n + 1 < 2 ^ 31) : incInt n = n + 1 := by
  unfold incInt
  rw [Int.bmod_def]
  omega

/-- **`delete`** of a number keeps the invariant. -/
theorem TableInv.del {sId : String} {id : Int} (h : TableInv H writable M s) (hid : stoi sId = .ok id) :
    ∃ s', del H s sId = .ok s' ∧ TableInv H writable M s' ∧ s'.bpid = s.bpid ∧
      s'.points = s.points.eraseP fun q => q.id = id := by
  obtain ⟨s', hs', hov, hed, hbpid, hpoints⟩ :=
    del_overlay h.toOverlay h.mapped (fun q hq => h.permits.pokable (h.pokable q hq)) hid
  refine ⟨s', hs', ⟨hov, ?_, ?_, ?_, h.permits.edited h.toOverlay hed, by rw [hbpid]; exact h.bpid_nonneg⟩, hbpid,
    hpoints⟩
  · rw [hpoints, hbpid]
    exact h.numbered.erase id
  · intro q hq
    rw [hpoints] at hq
    exact h.mapped q (List.mem_of_mem_eraseP hq)
  · intro q hq
    rw [hpoints] at hq
    exact h.pokable q (List.mem_of_mem_eraseP hq)

/-- **One command of the session** does not fail, keeps the invariant and moves the table forward. -/
theorem tableInv_step {c : Command} (h : TableInv H writable M s) (hc : TableCommand writable M c)
    (hfit : s.bpid + creates s c < 2 ^ 31) :
    ∃ s', exec H s c = .ok s' ∧ TableInv H writable M s' ∧ Advance s s' ∧ s'.bpid = s.bpid + creates s c := by
  have h0 := h.bpid_nonneg
  cases hc with
  | @«break» sAddr hm hw =>
      have hinc : addrOf sAddr ∉ addrs s.points → incInt s.bpid = s.bpid + 1 := by
        intro hin
        simp only [creates, if_neg hin] at hfit
        exact incInt_eq h0 (by omega)
      obtain ⟨s', hs', hov, hed, hcase⟩ := breakpoint_overlay h.toOverlay hm (h.permits.pokable hw)
      have hpermits := h.permits.edited h.toOverlay hed
      rcases hcase with ⟨hin, hpoints, hbpid⟩ | ⟨hin, hbpid, ori, hpoints⟩
      · refine ⟨s', hs', ⟨hov, ?_, ?_, ?_, hpermits, by omega⟩, ⟨by omega, ?_⟩, by simp [creates, hin, hbpid]⟩
        · rw [hpoints, hbpid]
          exact h.numbered
        · rw [hpoints]
          exact h.mapped
        · rw [hpoints]
          exact h.pokable
        · rw [hpoints]
          exact fun q hq => Or.inl hq
      · rw [hinc hin] at hbpid
        refine ⟨s', hs', ⟨hov, ?_, ?_, ?_, hpermits, by omega⟩, ⟨by omega, ?_⟩, by simp [creates, hin, hbpid]⟩
        · rw [hpoints]
          exact h.numbered.snoc _ _ (by omega)
        · intro q hq
          rw [hpoints] at hq
          rcases List.mem_append.mp hq with hq | hq
          · exact h.mapped q hq
          · cases List.mem_singleton.mp hq
            exact hm
        · intro q hq
          rw [hpoints] at hq
          rcases List.mem_append.mp hq with hq | hq
          · exact h.pokable q hq
          · cases List.mem_singleton.mp hq
            exact hw
        · intro q hq
          rw [hpoints] at hq
          rcases List.mem_append.mp hq with hq | hq
          · exact Or.inl hq
          · cases List.mem_singleton.mp hq
            exact Or.inr (Int.le_refl _)
  | @delete sId id hid =>
      obtain ⟨s', hs', hinv, hbpid, hpoints⟩ := h.del (H := H) hid
      refine ⟨s', hs', hinv, ⟨by omega, fun q hq => Or.inl ?_⟩, by simp [creates, hbpid]⟩
      rw [hpoints] at hq
      exact List.mem_of_mem_eraseP hq

/-- **A whole session.** -/
theorem tableInv_run {cmds : List Command} (h : TableInv H writable M s)
    (hcmds : ∀ c ∈ cmds, TableCommand writable M c) (hfit : s.bpid + created H s cmds < 2 ^ 31) :
    ∃ s', execAll H s cmds = .ok s' ∧ TableInv H writable M s' ∧ Advance s s' ∧
      s'.bpid = s.bpid + created H s cmds := by
  induction cmds generalizing s with
  | nil => exact ⟨s, rfl, h, Advance.refl s, by simp [created]⟩
  | cons c cmds ih =>
      have hc := hcmds c List.mem_cons_self
      have hfit1 : s.bpid + creates s c < 2 ^ 31 := by
        simp only [created] at hfit
        split at hfit <;> push_cast at hfit <;> omega
      obtain ⟨s₁, hs₁, hinv, hadv, hbpid⟩ := tableInv_step (H := H) h hc hfit1
      have hcreated : created H s (c :: cmds) = creates s c + created H s₁ cmds := by
        simp only [created, hs₁]
      rw [hcreated] at hfit ⊢
      obtain ⟨s₂, hs₂, hinv₂, hadv₂, hbpid₂⟩ :=
        ih hinv (fun d hd => hcmds d (List.mem_cons_of_mem _ hd)) (by push_cast at hfit; omega)
      exact ⟨s₂, by rw [execAll_cons hs₁, hs₂], hinv₂, hadv.trans hadv₂, by push_cast; omega⟩

/-- What a session creates is what its two parts create. -/
theorem created_append {s s' : Debugger ω} {pre : List Command} (h : execAll H s pre = .ok s')
    (post : List Command) : created H s (pre ++ post) = created H s pre + created H s' post := by
  induction pre generalizing s with
  | nil =>
      cases h
      simp [created]
  | cons c pre ih =>
      cases hc : exec H s c with
      | error e =>
          simp only [execAll, List.foldlM_cons, hc] at h
          cases h
      | ok s₁ =>
          rw [execAll_cons hc] at h
          simp only [List.cons_append, created, hc, ih h, Nat.add_assoc]

theorem created_le_append (s : Debugger ω) (pre post : List Command) :
    created H s pre ≤ created H s (pre ++ post) := by
  induction pre generalizing s with
  | nil => exact Nat.zero_le _
  | cons c pre ih =>
      simp only [List.cons_append, created]
      cases exec H s c with
      | error e => exact Nat.le_refl _
      | ok s₁ => exact Nat.add_le_add_left (ih s₁) _

/-- Deletions create nothing. -/
theorem created_deletes (s : Debugger ω) (ids : List String) :
    created H s (ids.map .delete) = 0 := by
  induction ids generalizing s with
  | nil => rfl
  | cons i ids ih =>
      simp only [List.map_cons, created, creates]
      split
      · rw [ih]
      · rfl

/-- A session of deletions takes out every id it names. -/
theorem deletes_points {ids : List String} (h : TableInv H writable M s)
    (hids : ∀ i ∈ ids, ∃ id, stoi i = .ok id) {s' : Debugger ω}
    (hrun : execAll H s (ids.map .delete) = .ok s') :
    ∀ q ∈ s'.points, q ∈ s.points ∧ ∀ i ∈ ids, stoi i ≠ .ok q.id := by
  induction ids generalizing s with
  | nil =>
      cases hrun
      exact fun q hq => ⟨hq, fun i hi => absurd hi List.not_mem_nil⟩
  | cons i ids ih =>
      obtain ⟨id, hid⟩ := hids i List.mem_cons_self
      obtain ⟨s₁, hs₁, hinv, -, hpoints⟩ := h.del (H := H) hid
      rw [List.map_cons, execAll_cons (show exec H s (.delete i) = .ok s₁ from hs₁)] at hrun
      intro q hq
      obtain ⟨hq₁, hrest⟩ := ih hinv (fun j hj => hids j (List.mem_cons_of_mem _ hj)) hrun q hq
      rw [hpoints] at hq₁
      have hmem := List.mem_of_mem_eraseP hq₁
      refine ⟨hmem, fun j hj hjid => ?_⟩
      rcases List.mem_cons.mp hj with rfl | hj
      · -- the entry of this id is the one that has just been taken out
        rw [hid] at hjid
        cases hjid
        exact h.numbered.erase_ne hq₁ rfl
      · exact hrest j hj hjid

/-- The table is empty at the start. -/
theorem TableInv.empty {p : Proc ω} (hrun : s.state = .running) (hempty : s.points = []) (hp : s.Holds p)
    (hbpid : 0 ≤ s.bpid) : TableInv H (H.writable p.hidden) p.cpu.mem s := by
  refine ⟨⟨hrun, ?_, p, hp, ?_⟩, ?_, ?_, ?_, ?_, hbpid⟩
  · rw [hempty]
    exact Placed.nil _
  · rw [hempty]
    exact patch_nil.symm
  · rw [hempty]
    exact Numbered.nil _
  · rw [hempty]
    exact fun q hq => absurd hq List.not_mem_nil
  · rw [hempty]
    exact fun q hq => absurd hq List.not_mem_nil
  · intro q hq
    cases hp.tracee.symm.trans hq
    rfl

/-- **Deleting every entry**, in any order, brings the memory back. -/
theorem deletes_all (h : TableInv H writable M s) (hfit : s.bpid < 2 ^ 31) {ids : List String}
    (hids : ∀ i ∈ ids, ∃ id, stoi i = .ok id) (hall : ∀ q ∈ s.points, ∃ i ∈ ids, stoi i = .ok q.id) :
    ∃ s' p', execAll H s (ids.map .delete) = .ok s' ∧ s'.points = [] ∧ s'.Holds p' ∧ p'.cpu.mem = M := by
  have hdel : ∀ c ∈ ids.map Command.delete, TableCommand writable M c := by
    intro c hc
    obtain ⟨i, hi, rfl⟩ := List.mem_map.mp hc
    obtain ⟨id, hid⟩ := hids i hi
    exact .delete hid
  have hfit' : s.bpid + created H s (ids.map .delete) < 2 ^ 31 := by
    rw [created_deletes]
    omega
  obtain ⟨s', hs', hinv, -, -⟩ := tableInv_run (H := H) h hdel hfit'
  have hgone : s'.points = [] := by
    apply List.eq_nil_iff_forall_not_mem.mpr
    intro q hq
    obtain ⟨hq', hno⟩ := deletes_points h hids hs' q hq
    obtain ⟨i, hi, hid⟩ := hall q hq'
    exact hno i hi hid
  obtain ⟨p', hp', hmem⟩ := hinv.tracee
  refine ⟨s', p', hs', hgone, hp', ?_⟩
  rw [hmem, hgone]
  exact patch_nil

/-- **The algebra of `break` and `delete`.** From an empty table over any memory `M`, every session of
    `break`s on words that can be peeked and poked and `delete`s with numbers, creating fewer than `2 ^ 31`
    breakpoints in all, runs through. Afterwards a byte of the tracee is `0xcc` at the addresses of the table and
    as in `M` elsewhere; every entry has `M`'s byte; addresses are distinct; ids increase, stay below `bpid` and
    are never given out twice. Deleting all entries, in any order, brings `M` back. -/
theorem break_delete_algebra {p : Proc ω} (hrun : s.state = .running) (hempty : s.points = [])
    (hp : s.Holds p) (hbpid : 0 ≤ s.bpid) {cmds : List Command}
    (hcmds : ∀ c ∈ cmds, TableCommand (H.writable p.hidden) p.cpu.mem c)
    (hfit : s.bpid + created H s cmds < 2 ^ 31) :
    ∃ s', execAll H s cmds = .ok s' ∧
      (∃ p', s'.Holds p' ∧ ∀ a, p'.cpu.mem a =
        if ∃ q ∈ s'.points, q.addr = a then some int3 else p.cpu.mem a) ∧
      (∀ q ∈ s'.points, p.cpu.mem q.addr = some q.ori) ∧
      (s'.points.map (·.addr)).Nodup ∧
      s'.points.Pairwise (fun q r => q.id < r.id) ∧
      (∀ q ∈ s'.points, q.id < s'.bpid) ∧
      (∀ pre post, cmds = pre ++ post → ∃ s₁, execAll H s pre = .ok s₁ ∧
        ∀ q ∈ s'.points, q ∈ s₁.points ∨ s₁.bpid ≤ q.id) ∧
      ∀ ids : List String, (∀ i ∈ ids, ∃ id, stoi i = .ok id) →
        (∀ q ∈ s'.points, ∃ i ∈ ids, stoi i = .ok q.id) →
        ∃ s₂ p₂, execAll H s' (ids.map .delete) = .ok s₂ ∧ s₂.points = [] ∧
          s₂.Holds p₂ ∧ p₂.cpu.mem = p.cpu.mem := by
  have hinit := TableInv.empty (H := H) hrun hempty hp hbpid
  obtain ⟨s', hs', hinv, -, hbpid'⟩ := tableInv_run (H := H) hinit hcmds hfit
  refine ⟨s', hs', ?_, hinv.placed.ori, hinv.placed.nodup, hinv.numbered.ids,
    hinv.numbered.below, ?_, ?_⟩
  · obtain ⟨p', hp', hmem⟩ := hinv.tracee
    refine ⟨p', hp', fun a => ?_⟩
    rw [hmem]
    simp only [armed, patch, addrs, List.mem_map]
  · rintro pre post rfl
    have hpre : ∀ c ∈ pre, TableCommand (H.writable p.hidden) p.cpu.mem c :=
      fun c hc => hcmds c (List.mem_append_left _ hc)
    have hpost : ∀ c ∈ post, TableCommand (H.writable p.hidden) p.cpu.mem c :=
      fun c hc => hcmds c (List.mem_append_right _ hc)
    -- every entry that is new since then has an id from `s₁.bpid` on
    have hle := created_le_append (H := H) s pre post
    obtain ⟨s₁, hs₁, hinv₁, -, hbpid₁⟩ := tableInv_run (H := H) hinit hpre (by omega)
    rw [created_append hs₁] at hfit
    obtain ⟨s₂, hs₂, -, hadv, -⟩ :=
      tableInv_run (H := H) hinv₁ hpost (by rw [hbpid₁]; push_cast at hfit; omega)
    have hsame : s₂ = s' := by
      rw [execAll_append hs₁, hs₂] at hs'
      exact Except.ok.inj hs'
    rw [hsame] at hadv
    exact ⟨s₁, hs₁, hadv.fresh⟩
  · intro ids hids hall
    exact deletes_all hinv (by omega) hids hall

/-- Two overlapping breakpoints, one of them set twice and one deleted. -/
theorem break_delete_sample : ∃ s', execAll (sampleHost nopText 9) (sampleStarted nopText 9)
      [.break "400000", .break "400001", .break "400000", .delete "0"] = .ok s' ∧
    (s'.points.map (·.addr)).Nodup ∧ ∀ q ∈ s'.points, sampleMem nopText q.addr = some q.ori := by
  have hp : (sampleStarted nopText 9).Holds ⟨sampleCpu nopText, [], .stopped, 0⟩ := ⟨rfl, rfl⟩
  have hcmds : ∀ c ∈ [Command.break "400000", .break "400001", .break "400000", .delete "0"],
      TableCommand everywhere (sampleMem nopText) c := by
    intro c hc
    simp only [List.mem_cons, List.not_mem_nil, or_false] at hc
    rcases hc with rfl | rfl | rfl | rfl
    · exact .break (by decide) rfl
    · exact .break (by decide) rfl
    · exact .break (by decide) rfl
    · exact .delete (show stoi "0" = .ok 0 by decide)
  obtain ⟨s', hs', -, hori, hnodup, -⟩ :=
    break_delete_algebra (H := sampleHost nopText 9) rfl rfl hp (by decide) hcmds (by decide)
  exact ⟨s', hs', hnodup, hori⟩

end AdvUnix.Sdb
