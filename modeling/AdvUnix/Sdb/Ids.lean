import AdvUnix.Sdb.BreakDelete
import AdvUnix.Sdb.Prompt

/-!
# `Sdb.Ids` — what an id stands for

`bpid` is never taken back, not by `delete`, and not by `start`, which empties the table. So in a session of any
commands, whatever the tracee does, an id stands for one breakpoint from the `break` that made it on: the table
only loses entries, or gets one with an id that has never been given out (`exec_table`), and an entry with the
id of an earlier one is that one (`ids_name_breakpoints`). What is told of each command tells of the handle too.
-/

namespace AdvUnix.Sdb

open Debugger

variable {ω : Type} {H : Host ω} {s s' s'' : Debugger ω} {how : Resume}

/-! ## One command -/

/-- **No entry is made and no file is loaded**: the table has lost entries at most. -/
structure Shrinks (s s' : Debugger ω) : Prop where
  points : s'.points.Sublist s.points
  bpid : s'.bpid = s.bpid
  handle : s'.e = s.e

namespace Shrinks

theorem trans (h : Shrinks s s') (h' : Shrinks s' s'') : Shrinks s s'' where
  points := h'.points.trans h.points
  bpid := h'.bpid.trans h.bpid
  handle := h'.handle.trans h.handle

/-- A step that leaves the table alone. -/
theorem quiet (hpoints : s'.points = s.points) (hbpid : s'.bpid = s.bpid) (he : s'.e = s.e) : Shrinks s s' :=
  ⟨hpoints ▸ List.Sublist.refl _, hbpid, he⟩

theorem disasm {str : String} {len : Nat} (h : Sdb.disasm H s str len = .ok s') : Shrinks s s' := by
  rcases disasm_cases h with ⟨o, rfl⟩ | ⟨-, code, lines, -, rfl⟩
  · exact quiet rfl rfl rfl
  · exact quiet rfl rfl rfl

theorem getregs {flag : Bool} {ret : Int} (h : Sdb.getregs H s flag = .ok (ret, s')) : Shrinks s s' := by
  rcases getregs_cases h with ⟨-, -, rfl⟩ | ⟨-, -, r, w, -, rfl⟩
  · exact quiet rfl rfl rfl
  · exact quiet rfl rfl rfl

theorem classifyStop {ret : Int} (h : Sdb.classifyStop H s = .ok (ret, s')) : Shrinks s s' := by
  obtain ⟨r, s₁, hg, hcase⟩ := classifyStop_cases h
  have hgot : Shrinks s s₁ := getregs hg
  rcases hcase with ⟨-, -, rfl⟩ | ⟨b, -, ⟨-, -, rfl⟩ | ⟨-, -, s₂, hs₂, rfl⟩⟩
  · exact hgot
  · exact hgot.trans (quiet rfl rfl rfl)
  · have hshown := disasm hs₂
    exact hgot.trans ⟨hshown.points, hshown.bpid, hshown.handle⟩

theorem checkStop {ret : Int} (h : Sdb.checkStop H s = .ok (ret, s')) : Shrinks s s' := by
  rcases checkStop_cases h with ⟨sig, w, -, hstop⟩ | ⟨code, w, -, -, rfl⟩ | ⟨sig, w, -, -, rfl⟩
  · have hclassified := @classifyStop ω H { s with world := w } _ _ hstop
    exact ⟨hclassified.points, hclassified.bpid, hclassified.handle⟩
  · exact quiet rfl rfl rfl
  · exact quiet rfl rfl rfl

theorem replaceByte (s : Debugger ω) (a : Addr) (b : Byte) : Shrinks s (Sdb.replaceByte H s a b).2 := quiet rfl rfl rfl

theorem resume (s : Debugger ω) (how : Resume) : Shrinks s (Sdb.resume s how) := quiet rfl rfl rfl

theorem onPath (s : Debugger ω) (how : Resume) : Shrinks s (Sdb.onPath H s how) := by
  have hresumed := (replaceByte (H := H) s s.bpaddrNow s.restore).trans (resume _ how)
  cases how with
  | cont =>
      have hpatched := hresumed.trans (replaceByte (H := H) _ s.bpaddrNow int3)
      exact ⟨hpatched.points, hpatched.bpid, hpatched.handle⟩
  | step => exact ⟨hresumed.points, hresumed.bpid, hresumed.handle⟩

theorem resumeAndWait (h : Sdb.resumeAndWait H s how = .ok s') : Shrinks s s' := by
  obtain ⟨ret, s₁, hc, ⟨-, rfl⟩ | ⟨-, r, s₂, hc', rfl⟩⟩ := resumeAndWait_cases h
  · exact (resume s how).trans (checkStop hc)
  · have hfirst := (resume s how).trans (checkStop hc)
    have hsecond := (onPath s₁ how).trans (checkStop hc')
    exact (hfirst.trans hsecond).trans (replaceByte s₂ _ _)

theorem cont (h : Sdb.cont H s = .ok s') : Shrinks s s' := by
  rcases cont_cases h with ⟨-, rfl⟩ | ⟨-, hcont⟩
  · exact quiet rfl rfl rfl
  · exact resumeAndWait hcont

theorem si (h : Sdb.si H s = .ok s') : Shrinks s s' := by
  rcases si_cases h with ⟨-, rfl⟩ | ⟨-, hsi⟩
  · exact quiet rfl rfl rfl
  · exact resumeAndWait hsi

theorem start_handle (h : Sdb.start H s = .ok s') : s'.e = s.e := by
  unfold Sdb.start at h
  split at h
  · cases h
    rfl
  · by_cases hrun : s.state = .running
    · simp only [hrun, if_true] at h
      split at h
      · cases h
        rfl
      · cases h
    · simp only [hrun, if_false] at h
      split at h
      · cases h
        rfl
      · cases h

/-- `start` empties the table and keeps `bpid`. -/
theorem start (h : Sdb.start H s = .ok s') : Shrinks s s' := by
  by_cases hothers : s.state = .others
  · rw [show Sdb.start H s = .ok (s.say (.line "** not in loaded state.")) from if_pos hothers] at h
    cases h
    exact quiet rfl rfl rfl
  · have hstarted := start_started hothers h
    refine ⟨?_, hstarted.bpid, start_handle h⟩
    rw [hstarted.points]
    exact List.nil_sublist _

theorem run (h : Sdb.run H s = .ok s') : Shrinks s s' := by
  rcases run_cases h with ⟨-, hcont⟩ | ⟨-, s₁, hstart, hcont⟩ | ⟨-, rfl⟩
  · have hsaid : Shrinks s (s.say (.alreadyRunning s.program)) := quiet rfl rfl rfl
    exact hsaid.trans (cont hcont)
  · exact (start hstart).trans (cont hcont)
  · exact quiet rfl rfl rfl

theorem dumpLoop (length : Int) (rows : Nat) (cnt : Int) (s : Debugger ω) :
    Shrinks s (Sdb.dumpLoop H length rows cnt s) := by
  induction rows generalizing s cnt with
  | zero => exact quiet rfl rfl rfl
  | succ rows ih =>
      rw [dumpLoop_succ]
      have hrow : Shrinks s (dumpRow H length cnt s).1 := quiet rfl rfl rfl
      exact hrow.trans (ih _ _)

end Shrinks

/-- A command has made an entry: the table did not have its address, and the id is the next one. -/
structure Makes (s s' : Debugger ω) : Prop where
  bpid : s'.bpid = incInt s.bpid
  points : ∃ a ori, a ∉ addrs s.points ∧ s'.points = s.points ++ [⟨s.bpid, a, ori⟩]
  handle : s'.e = s.e

def isBreak : Command → Bool
  | .break _ => true
  | _ => false

/-- **What a command does to the table**: only `break` makes an entry, and no more than one. -/
theorem exec_table {cmd : Command} (h : exec H s cmd = .ok s') :
    Shrinks s s' ∨ (isBreak cmd = true ∧ Makes s s') ∨
      ∃ f, cmd = .load f ∧ s'.points = s.points ∧ s'.bpid = s.bpid := by
  cases cmd with
  | «break» a =>
      rcases breakpoint_cases h with ⟨-, rfl⟩ | ⟨-, ⟨-, rfl⟩ | ⟨hin, rfl⟩⟩
      · exact Or.inl (.quiet rfl rfl rfl)
      · exact Or.inl (.quiet rfl rfl rfl)
      · exact Or.inr (Or.inl ⟨rfl, rfl, ⟨_, _, hin, rfl⟩, rfl⟩)
  | delete sId =>
      rcases del_cases h with ⟨-, rfl⟩ | ⟨-, ⟨-, rfl⟩ | ⟨id, -, ⟨-, rfl⟩ | ⟨q, -, rfl⟩⟩⟩
      · exact Or.inl (.quiet rfl rfl rfl)
      · exact Or.inl (.quiet rfl rfl rfl)
      · exact Or.inl (.quiet rfl rfl rfl)
      · exact Or.inl ⟨List.eraseP_sublist, rfl, rfl⟩
  | load f =>
      rcases load_cases h with ⟨-, rfl⟩ | ⟨-, e, text, o, rfl⟩
      · exact Or.inr (Or.inr ⟨f, rfl, rfl, rfl⟩)
      · exact Or.inr (Or.inr ⟨f, rfl, rfl, rfl⟩)
  | start => exact Or.inl (Shrinks.start h)
  | run => exact Or.inl (Shrinks.run h)
  | cont => exact Or.inl (Shrinks.cont h)
  | si => exact Or.inl (Shrinks.si h)
  | disasm a => exact Or.inl (Shrinks.disasm h)
  | exit => cases h
  | help =>
      cases h
      exact Or.inl (.quiet rfl rfl rfl)
  | list =>
      cases h
      exact Or.inl (.quiet rfl rfl rfl)
  | ignored =>
      cases h
      exact Or.inl (.quiet rfl rfl rfl)
  | vmmap =>
      rcases vmmap_cases h with ⟨-, rfl⟩ | ⟨-, rows, rfl⟩
      · exact Or.inl (.quiet rfl rfl rfl)
      · exact Or.inl (.quiet rfl rfl rfl)
  | get r =>
      obtain ⟨ret, s₁, hgot, rfl | ⟨-, o, rfl⟩⟩ := getreg_cases h
      · exact Or.inl (Shrinks.getregs hgot)
      · exact Or.inl ((Shrinks.getregs hgot).trans (.quiet rfl rfl rfl))
  | set r v =>
      rcases set_cases h with ⟨-, rfl⟩ | ⟨-, rfl | ⟨ret, s₁, hgot, rfl | ⟨-, r, -, rfl⟩⟩⟩
      · exact Or.inl (.quiet rfl rfl rfl)
      · exact Or.inl (.quiet rfl rfl rfl)
      · exact Or.inl (Shrinks.getregs hgot)
      · exact Or.inl ((Shrinks.getregs hgot).trans (.quiet rfl rfl rfl))
  | dump a =>
      rcases dump_cases h with ⟨-, rfl⟩ | ⟨-, a, length, rows, rfl⟩
      · exact Or.inl (.quiet rfl rfl rfl)
      · have hset : Shrinks s { s with dumpaddr := a } := .quiet rfl rfl rfl
        exact Or.inl (hset.trans (Shrinks.dumpLoop length rows 0 _))
  | getregs =>
      obtain ⟨ret, hgot⟩ := exec_getregs h
      exact Or.inl (Shrinks.getregs hgot)

/-- **Only `load` changes the handle.** -/
theorem exec_handle {cmd : Command} (hload : ∀ f, cmd ≠ .load f) (h : exec H s cmd = .ok s') : s'.e = s.e := by
  rcases exec_table h with hshrinks | ⟨-, hmakes⟩ | ⟨f, hcmd, -⟩
  · exact hshrinks.handle
  · exact hmakes.handle
  · exact absurd hcmd (hload f)

/-! ## Sessions -/

/-- The table in order, after `n` commands `break`. -/
structure Ordered (s : Debugger ω) (n : Nat) : Prop extends Numbered s.points s.bpid where
  nodup : (addrs s.points).Nodup
  bpid_nonneg : 0 ≤ s.bpid
  bpid_le : s.bpid ≤ n

theorem ordered_init : Ordered (Debugger.init : Debugger ω) 0 where
  toNumbered := Numbered.nil 0
  nodup := List.nodup_nil
  bpid_nonneg := Int.le_refl 0
  bpid_le := Int.le_refl 0

/-- How many of the commands are `break`. -/
def breaks (cmds : List Command) : Nat := cmds.countP isBreak

/-- A table that has lost entries at most. -/
theorem Ordered.shrink {n : Nat} (hs : Ordered s n) (hsub : s'.points.Sublist s.points) (hbpid : s'.bpid = s.bpid)
    (k : Nat) : Ordered s' (n + k) ∧ Advance s s' := by
  have hmem : ∀ q ∈ s'.points, q ∈ s.points := fun q hq => hsub.subset hq
  have hle := hs.bpid_le
  refine ⟨⟨⟨hs.ids.sublist hsub, ?_⟩, ?_, ?_, ?_⟩, ⟨?_, ?_⟩⟩
  · rw [hbpid]
    exact fun q hq => hs.below q (hmem q hq)
  · exact hs.nodup.sublist (hsub.map _)
  · rw [hbpid]
    exact hs.bpid_nonneg
  · rw [hbpid]
    omega
  · rw [hbpid]
  · exact fun q hq => Or.inl (hmem q hq)

/-- **One command** keeps the table in order, and its ids are not given out again. -/
theorem exec_ordered {n : Nat} {cmd : Command} (hs : Ordered s n) (hfit : n + breaks [cmd] < 2 ^ 31)
    (h : exec H s cmd = .ok s') : Ordered s' (n + breaks [cmd]) ∧ Advance s s' := by
  rcases exec_table h with hshrinks | ⟨hbreak, hmakes⟩ | ⟨f, -, hpoints, hbpid⟩
  · exact hs.shrink hshrinks.points hshrinks.bpid _
  · -- `break`: the next id is above all of the table, and the counter does not wrap yet
    obtain ⟨a, ori, hin, hpoints⟩ := hmakes.points
    have hone : breaks [cmd] = 1 := by simp [breaks, hbreak]
    rw [hone] at hfit ⊢
    have hle := hs.bpid_le
    have hinc : s'.bpid = s.bpid + 1 := hmakes.bpid.trans (incInt_eq hs.bpid_nonneg (by omega))
    refine ⟨⟨?_, ?_, ?_, ?_⟩, ⟨?_, ?_⟩⟩
    · rw [hpoints, hinc]
      exact hs.toNumbered.snoc a ori (Int.lt_succ s.bpid)
    · rw [hpoints]
      unfold addrs
      rw [List.map_append]
      exact List.Nodup.append hs.nodup (List.nodup_singleton a) (List.disjoint_singleton.mpr hin)
    · rw [hinc]
      have hnonneg := hs.bpid_nonneg
      omega
    · rw [hinc]
      omega
    · rw [hinc]
      omega
    · intro q hq
      rw [hpoints] at hq
      rcases List.mem_append.mp hq with hold | hnew
      · exact Or.inl hold
      · cases List.mem_singleton.mp hnew
        exact Or.inr (Int.le_refl _)
  · exact hs.shrink (hpoints ▸ List.Sublist.refl _) hbpid _

/-- **A session**. -/
theorem session_ordered {n : Nat} {cmds : List Command} (hs : Ordered s n) (hfit : n + breaks cmds < 2 ^ 31)
    (h : execAll H s cmds = .ok s') : Ordered s' (n + breaks cmds) ∧ Advance s s' := by
  induction cmds generalizing s n with
  | nil =>
      cases h
      exact ⟨hs, Advance.refl _⟩
  | cons c cmds ih =>
      have hsplit : breaks (c :: cmds) = breaks [c] + breaks cmds := by
        simp only [breaks, List.countP_cons, List.countP_nil]
        omega
      cases hc : exec H s c with
      | error e =>
          simp only [execAll, List.foldlM_cons, hc] at h
          cases h
      | ok s₁ =>
          rw [execAll_cons hc] at h
          rw [hsplit, ← Nat.add_assoc] at hfit ⊢
          obtain ⟨hone, hfirst⟩ := exec_ordered hs (by omega) hc
          obtain ⟨hrest, hlater⟩ := ih hone hfit h
          exact ⟨hrest, hfirst.trans hlater⟩

/-- Two entries of one table with the same id are one. -/
theorem Numbered.id_inj {points : List Breakpoint} {bpid : Int} (h : Numbered points bpid) {q r : Breakpoint}
    (hq : q ∈ points) (hr : r ∈ points) (hid : q.id = r.id) : q = r := by
  have hids : (points.map (·.id)).Nodup := List.pairwise_map.mpr (h.ids.imp fun hlt => Int.ne_of_lt hlt)
  exact List.inj_on_of_nodup_map hids hq hr hid

/-- **An id stands for one breakpoint**, in every session of fewer than 2^31 `break`s, whatever else is in it and
    whatever the tracee does. At each prompt the ids ascend along the table, below the next one, and no two entries are
    at one address; the entries of a later prompt are earlier ones or have ids that had not been given out; so an entry
    with the id of an earlier one is that one. -/
theorem ids_name_breakpoints (H : Host ω) (before after : List Command) (s s' : Debugger ω)
    (h : execAll H Debugger.init before = .ok s) (h' : execAll H s after = .ok s')
    (hfit : breaks before + breaks after < 2 ^ 31) :
    Numbered s.points s.bpid ∧ (addrs s.points).Nodup ∧
      (∀ r ∈ s'.points, r ∈ s.points ∨ s.bpid ≤ r.id) ∧
      ∀ q ∈ s.points, ∀ r ∈ s'.points, q.id = r.id → q = r := by
  obtain ⟨hs, -⟩ := session_ordered (n := 0) ordered_init (by omega) h
  rw [Nat.zero_add] at hs
  obtain ⟨-, hlater⟩ := session_ordered hs hfit h'
  refine ⟨hs.toNumbered, hs.nodup, hlater.fresh, ?_⟩
  intro q hq r hr hid
  rcases hlater.fresh r hr with hold | hnew
  · exact hs.toNumbered.id_inj hq hold hid
  · have hbelow := hs.below q hq
    omega

/-- A breakpoint, the same one after a restart. -/
theorem ids_name_breakpoints_sample : ∃ s s',
    execAll (sampleHost nopText 9) Debugger.init [.load "./a", .start, .break "400000"] = .ok s ∧
    execAll (sampleHost nopText 9) s [.start, .break "400000"] = .ok s' ∧
    s.points.map (·.id) = [0] ∧ s'.points.map (·.id) = [1] ∧
    ∀ q ∈ s.points, ∀ r ∈ s'.points, q.id = r.id → q = r := by
  obtain ⟨s, hs, hids⟩ := ok_of_seen (f := fun s => s.points.map (·.id)) (v := [0])
    (r := execAll (sampleHost nopText 9) Debugger.init [.load "./a", .start, .break "400000"]) rfl
  obtain ⟨s', hs', hids'⟩ := ok_of_seen (f := fun s => s.points.map (·.id)) (v := [1])
    (r := execAll (sampleHost nopText 9) Debugger.init
      ([.load "./a", .start, .break "400000"] ++ [.start, .break "400000"])) rfl
  rw [execAll_append hs] at hs'
  exact ⟨s, s', hs, hs', hids, hids', (ids_name_breakpoints _ _ _ s s' hs hs' (by decide)).2.2.2⟩

end AdvUnix.Sdb
