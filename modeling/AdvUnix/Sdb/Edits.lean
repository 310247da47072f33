import AdvUnix.Sdb.Dump
import AdvUnix.Sdb.Numerals

/-!
# `Sdb.Edits` — `break` and `delete` on any argument

Both commands change the table and one byte of the tracee, the byte through a word of eight. On which memory
one byte is all that changes is said once (`replaced_eq_update_iff`, `replaced_eq_self_iff`); with it
`delete` accepts exactly the ids of the table (`delete_exact_iff`), and `break` does all of its work or none
(`break_atomic_iff`), for the arguments that these name and no others.
-/

namespace AdvUnix.Sdb

open ByteStore Debugger

variable {ω : Type} {H : Host ω} {s s' : Debugger ω} {p : Proc ω} {w : Addr → Bool}
variable {m : Mem} {a : Addr} {b : Byte}

/-! ## One byte through a word -/

/-- **The byte at `a` can be made `b` alone.** Where it can be stored to: its word can be read, or what follows it
    up to the first byte that is unmapped or not writable is `0xff`, which is what a failed read supplies. Where it
    cannot, it is `b` already. -/
def Patchable (writable : Addr → Bool) (m : Mem) (a : Addr) (b : Byte) : Prop :=
  if (m.storable writable a).isSome then
    (Mem.peek m a).isSome ∨ ∀ i, 1 ≤ i → i < 8 →
      (∀ j ≤ i, (m.storable writable (a + BitVec.ofNat 64 j)).isSome) → m (a + BitVec.ofNat 64 i) = some 0xff
  else m a = some b

/-- **A byte replaced through a word that cannot be read**: the bytes behind it are overwritten, too. -/
theorem replaced_unreadable (h : Mem.peek m a = none) {i : Nat} (hi : i < 8) :
    replaced w m a b (a + BitVec.ofNat 64 i)
      = if ∀ j ≤ i, (m.storable w (a + BitVec.ofNat 64 j)).isSome then some (if i = 0 then b else 0xff)
        else m (a + BitVec.ofNat 64 i) := by
  have hbytes : wordBytes (setLow (-1) b) = b :: List.replicate 7 0xff := by
    rw [wordBytes_setLow]
    rfl
  have hcell : (b :: List.replicate 7 0xff)[i]? = some (if i = 0 then b else 0xff) := by
    cases i with
    | zero => rfl
    | succ i =>
        rw [List.getElem?_cons_succ, List.getElem?_replicate, if_pos (by omega)]
        rfl
  rw [replaced, h, Option.getD_none, Mem.poke, hbytes, write, offset_toNat (by omega),
    List.getD_eq_getElem?_getD, List.getElem?_map, List.getElem?_take]
  by_cases hall : ∀ j ≤ i, (m.storable w (a + BitVec.ofNat 64 j)).isSome
  · rw [if_pos hall, if_pos ((lt_present_read hi).mpr hall), hcell]
    rfl
  · rw [if_neg hall, if_neg (fun hlt => hall ((lt_present_read hi).mp hlt))]
    rfl

/-- Bytes outside the word are left alone. -/
theorem replaced_outside {x : Addr} (h : 8 ≤ (x - a).toNat) : replaced w m a b x = m x := by
  refine write_frame (Nat.le_trans ?_ h)
  simp

theorem add_ofNat_ne {i : Nat} (hpos : 1 ≤ i) (hlt : i < 8) : a + BitVec.ofNat 64 i ≠ a := by
  intro heq
  have hoffset := offset_toNat (a := a) (i := i) (by omega)
  rw [heq, BitVec.sub_self] at hoffset
  simp at hoffset
  omega

/-- Where nothing can be stored, nothing is. -/
theorem replaced_nowhere (h : ¬ (m.storable w a).isSome) : replaced w m a b = m :=
  Mem.poke_nowhere (by simpa using h)

/-- What can be stored to is writable. -/
theorem writable_of_storable (h : (m.storable w a).isSome) : w a = true := by
  unfold Mem.storable at h
  split at h
  · assumption
  · cases h

theorem replaced_here (h : (m.storable w a).isSome) : replaced w m a b a = some b := by
  by_cases hpeek : (Mem.peek m a).isSome
  · rw [replaced_mapped hpeek (writable_of_storable h), Function.update_self]
  · have hfirst := @replaced_unreadable w m a b (by simpa using hpeek) 0 (by decide)
    simp only [BitVec.add_zero, Nat.le_zero_eq, forall_eq, if_true] at hfirst
    rwa [if_pos h] at hfirst

/-- **When a byte is replaced alone.** -/
theorem replaced_eq_update_iff :
    replaced w m a b = Function.update m a (some b) ↔ Patchable w m a b := by
  unfold Patchable
  by_cases hstore : (m.storable w a).isSome
  · rw [if_pos hstore]
    by_cases hpeek : (Mem.peek m a).isSome
    · exact iff_of_true (replaced_mapped hpeek (writable_of_storable hstore) b) (Or.inl hpeek)
    · have hnone : Mem.peek m a = none := by simpa using hpeek
      constructor
      · intro heq
        refine Or.inr fun i hpos hlt hall => ?_
        have hcell := congrFun heq (a + BitVec.ofNat 64 i)
        rw [replaced_unreadable hnone hlt, if_pos hall, if_neg (by omega),
          Function.update_of_ne (add_ofNat_ne hpos hlt)] at hcell
        exact hcell.symm
      · rintro (hsome | hff)
        · exact absurd hsome hpeek
        · funext x
          by_cases hlt : (x - a).toNat < 8
          · rw [eq_add_offset a x]
            generalize (x - a).toNat = i at hlt
            cases i with
            | zero =>
                rw [show BitVec.ofNat 64 0 = 0#64 from rfl, BitVec.add_zero, replaced_here hstore,
                  Function.update_self]
            | succ i =>
                rw [replaced_unreadable hnone hlt, Function.update_of_ne (add_ofNat_ne (Nat.succ_pos i) hlt)]
                by_cases hall : ∀ j ≤ i + 1, (m.storable w (a + BitVec.ofNat 64 j)).isSome
                · rw [if_pos hall, if_neg (Nat.succ_ne_zero i), hff (i + 1) (Nat.succ_pos i) hlt hall]
                · rw [if_neg hall]
          · have hne : x ≠ a := by
              rintro rfl
              simp at hlt
            rw [replaced_outside (Nat.not_lt.mp hlt), Function.update_of_ne hne]
  · rw [if_neg hstore, replaced_nowhere hstore]
    constructor
    · intro heq
      rw [congrFun heq a, Function.update_self]
    · intro hcell
      rw [← hcell, Function.update_eq_self]

/-- **When replacing a byte changes nothing.** -/
theorem replaced_eq_self_iff : replaced w m a b = m ↔
    m.storable w a = none ∨ (m a = some b ∧ Patchable w m a b) := by
  constructor
  · intro heq
    by_cases hstore : (m.storable w a).isSome
    · have hcell : m a = some b := by
        rw [← replaced_here (b := b) hstore, heq]
      refine Or.inr ⟨hcell, replaced_eq_update_iff.mp (heq.trans ?_)⟩
      rw [← hcell, Function.update_eq_self]
    · exact Or.inl (by simpa using hstore)
  · rintro (hnone | ⟨ha, hpatchable⟩)
    · exact replaced_nowhere (by simp [hnone])
    · rw [replaced_eq_update_iff.mpr hpatchable, ← ha, Function.update_eq_self]

/-! ## The memory after `replaceByte` -/

namespace Debugger

theorem memory_of_tracee (h : s.tracee = some p) : s.memory = p.cpu.mem := by
  funext x
  simp [memory, h]

theorem memory_gone (h : s.tracee = none) : s.memory = fun _ => none := by
  funext x
  simp [memory, h]

/-- The addresses of the tracee that can be stored to. -/
def writable (H : Host ω) (s : Debugger ω) (a : Addr) : Bool := s.tracee.any fun p => H.writable p.hidden a

/-- The memory of the tracee that can be stored to. -/
def storable (H : Host ω) (s : Debugger ω) : Mem := Mem.storable (s.writable H) s.memory

/-- The memory is that of the child's process. -/
theorem memory_congr (hchild : s'.child = s.child) (hworld : s'.world = s.world) : s'.memory = s.memory := by
  funext x
  simp [memory, tracee, hchild, hworld]

end Debugger

/-- On a tracee at rest `replaceByte` reads the word and writes it back, or nothing is there to be written. -/
theorem replaceByte_memory (hs : s.AtRest) (a : Addr) (b : Byte) :
    (replaceByte H s a b).2.memory = replaced (s.writable H) s.memory a b := by
  cases ht : s.tracee with
  | none =>
      have hgone := (replaceByte_gone (H := H) ht a b).tracee
      rw [memory_gone hgone, memory_gone ht, replaced_unmapped rfl]
  | some p =>
      have hmoved := replaceByte_moved (H := H) (hs.held ht) a b
      have hwritable : s.writable H = H.writable p.hidden := by
        funext x
        simp [Debugger.writable, ht]
      rw [memory_of_tracee hmoved.tracee, memory_of_tracee ht, hwritable]
      rfl

/-- The byte it returns is the one that was there, when the word can be read. -/
theorem replaceByte_old (hs : s.AtRest) (ha : (Mem.peek s.memory a).isSome) (b : Byte) :
    s.memory a = some (replaceByte H s a b).1 := by
  cases ht : s.tracee with
  | none =>
      rw [memory_gone ht] at ha
      cases ha
  | some p =>
      rw [memory_of_tracee ht] at ha ⊢
      exact replaceByte_returns (H := H) (hs.held ht) ha b

/-! ## `delete` -/

variable {sId : String} {id : Int}

theorem stoi_ne_QQ (hid : stoi sId = .ok id) : sId ≠ "QQ" := by
  rintro rfl
  rw [show stoi "QQ" = .error .invalidArgument by decide] at hid
  cases hid

theorem del_unknown (hrun : s.state = .running) (hid : stoi sId = .ok id)
    (hfind : (s.points.find? fun q => q.id = id) = none) :
    del H s sId = .ok (s.say (.line "** no such breakpoint.")) := by
  simp only [del, hrun, ne_eq, not_true_eq_false, if_false, stoi_ne_QQ hid, hid, hfind]

theorem del_known (hrun : s.state = .running) (hid : stoi sId = .ok id) {q : Breakpoint}
    (hfind : (s.points.find? fun q => q.id = id) = some q) :
    del H s sId = .ok ({ (replaceByte H s q.addr q.ori).2 with
      points := s.points.eraseP fun q => q.id = id }.say (.deleted sId)) := by
  simp only [del, hrun, ne_eq, not_true_eq_false, if_false, stoi_ne_QQ hid, hid, hfind, replaceByte_points]

/-- **One entry is removed**, the first one with its id, and its byte is restored. -/
def Removes (s s' : Debugger ω) (q : Breakpoint) : Prop :=
  ∃ before after, s.points = before ++ q :: after ∧ (∀ x ∈ before, x.id ≠ q.id) ∧
    s'.points = before ++ after ∧ s'.memory = Function.update s.memory q.addr (some q.ori)

/-- **`delete` accepts exactly ids**: on the decimal numeral of an entry's id it removes that entry; on any other
    string it says that there is no such breakpoint and changes nothing. -/
def DeletesExactly (H : Host ω) (s : Debugger ω) (sId : String) : Prop :=
  ∃ s', del H s sId = .ok s' ∧
    ((∃ q ∈ s.points, sId = toString q.id) → ∃ q, sId = toString q.id ∧ Removes s s' q) ∧
    ((¬ ∃ q ∈ s.points, sId = toString q.id) →
      s'.out = s.out ++ [.line "** no such breakpoint."] ∧ s'.points = s.points ∧ s'.memory = s.memory)

/-- What `delete` needs: the string begins with an `int`, and if that is the id of an entry, the string is its
    decimal numeral and the byte can be written. -/
def Deletable (H : Host ω) (s : Debugger ω) (sId : String) : Prop :=
  ∃ id, stoi sId = .ok id ∧ ∀ q, s.points.find? (fun q => q.id = id) = some q →
    sId = toString id ∧ Patchable (s.writable H) s.memory q.addr q.ori

/-- A numeral is read as its own number, if at all. -/
theorem stoi_numeral_unique (h : sId = toString id) {n : Int} (hn : stoi sId = .ok n) : n = id := by
  rw [h, stoi_toString] at hn
  split at hn
  · exact (Except.ok.inj hn).symm
  · cases hn

/-- The entry that is found, and the table without it. -/
theorem eraseP_of_find {points : List Breakpoint} {q : Breakpoint}
    (hq : points.find? (fun q => q.id = id) = some q) :
    q.id = id ∧ ∃ before after, points = before ++ q :: after ∧ (∀ x ∈ before, x.id ≠ id) ∧
      points.eraseP (fun q => q.id = id) = before ++ after := by
  obtain ⟨hid, before, after, rfl, hbefore⟩ := List.find?_eq_some_iff_append.mp hq
  have hne : ∀ x ∈ before, x.id ≠ id := by
    intro x hx
    simpa using hbefore x hx
  refine ⟨by simpa using hid, before, after, rfl, hne, ?_⟩
  rw [List.eraseP_append_right _ (by simpa using hne), List.eraseP_cons_of_pos (by simpa using hid)]

/-- A string that `stoi` does not read as an `int` is no accepted one: it throws, or says nothing. -/
theorem not_deletesExactly {ex : StoiError} (hrun : s.state = .running) (hid : stoi sId = .error ex) :
    ¬ DeletesExactly H s sId := by
  rintro ⟨s', hs', -, hother⟩
  by_cases hqq : sId = "QQ"
  · have hno : ¬ ∃ q ∈ s.points, sId = toString q.id := by
      rintro ⟨q, -, hnumeral⟩
      have hread := stoi_toString q.id
      rw [← hnumeral, hqq, show stoi "QQ" = .error .invalidArgument by decide] at hread
      split at hread
      · cases hread
      · cases hread
    have hsilent : del H s sId = .ok s := by
      simp only [del, hrun, ne_eq, not_true_eq_false, if_false, hqq, if_true]
    cases hsilent.symm.trans hs'
    exact absurd (hother hno).1 (by simp)
  · simp only [del, hrun, ne_eq, not_true_eq_false, if_false, hqq, hid] at hs'
    cases hs'

/-- **When `delete` accepts exactly ids.** -/
theorem delete_exact_iff (hrun : s.state = .running) (hrest : s.AtRest) (sId : String) :
    DeletesExactly H s sId ↔ Deletable H s sId := by
  cases hid : stoi sId with
  | error ex =>
      refine iff_of_false (not_deletesExactly hrun hid) ?_
      rintro ⟨id, hok, -⟩
      rw [hid] at hok
      cases hok
  | ok id =>
      cases hfind : s.points.find? fun q => q.id = id with
      | none =>
          -- no entry has the number that is read, so the string is no entry's numeral
          have hno : ¬ ∃ q ∈ s.points, sId = toString q.id := by
            rintro ⟨q, hq, hnumeral⟩
            have hsame := stoi_numeral_unique hnumeral hid
            exact absurd hsame.symm (by simpa using List.find?_eq_none.mp hfind q hq)
          refine iff_of_true ⟨_, del_unknown hrun hid hfind, fun hyes => absurd hyes hno, fun _ => ⟨rfl, rfl, ?_⟩⟩ ?_
          · exact memory_congr rfl rfl
          · refine ⟨id, hid, fun q hq => ?_⟩
            rw [hfind] at hq
            cases hq
      | some q =>
          have hdel := @del_known ω H s sId id hrun hid q hfind
          obtain ⟨hqid, before, after, hpoints, hbefore, herase⟩ := eraseP_of_find hfind
          have hq : q ∈ s.points := List.mem_of_find?_eq_some hfind
          have hmemory : (({ (replaceByte H s q.addr q.ori).2 with
              points := s.points.eraseP fun q => q.id = id } : Debugger ω).say (.deleted sId)).memory
                = replaced (s.writable H) s.memory q.addr q.ori :=
            (memory_congr rfl rfl).trans (replaceByte_memory hrest q.addr q.ori)
          constructor
          · rintro ⟨s', hs', hnumeral, hother⟩
            cases hdel.symm.trans hs'
            by_cases hsId : sId = toString q.id
            · obtain ⟨q', hsId', before', after', hpoints', hbefore', -, hrestored⟩ := hnumeral ⟨q, hq, hsId⟩
              -- the entry that is found is the one that the numeral is about
              have hid' : q'.id = id := (stoi_numeral_unique hsId' hid).symm
              have hfind' : (s.points.find? fun q => q.id = id) = some q' := by
                refine List.find?_eq_some_iff_append.mpr ⟨by simpa using hid', before', after', hpoints', ?_⟩
                intro x hx
                simpa [hid'] using hbefore' x hx
              cases hfind.symm.trans hfind'
              refine ⟨id, hid, fun r hr => ?_⟩
              cases hfind.symm.trans hr
              exact ⟨by rw [hsId, hqid], replaced_eq_update_iff.mp (hmemory.symm.trans hrestored)⟩
            · have hno : ¬ ∃ q ∈ s.points, sId = toString q.id := by
                rintro ⟨r, -, hr⟩
                rw [hr, ← stoi_numeral_unique hr hid, hqid] at hsId
                exact hsId rfl
              have hprinted := List.append_cancel_left (hother hno).1
              simp at hprinted
          · rintro ⟨id', hid', hgood⟩
            cases hid.symm.trans hid'
            obtain ⟨hsId, hpatchable⟩ := hgood q hfind
            have hnumeral : sId = toString q.id := by rw [hsId, hqid]
            refine ⟨_, hdel, fun _ => ⟨q, hnumeral, before, after, hpoints, ?_, herase, ?_⟩, fun hno => ?_⟩
            · rw [hqid]
              exact hbefore
            · rw [hmemory, replaced_eq_update_iff.mpr hpatchable]
            · exact absurd ⟨q, hq, hnumeral⟩ hno

/-- The program with a breakpoint at its first instruction. -/
theorem sample_broken : ∃ s, execAll (sampleHost nopText 9) Debugger.init
      [.load "./a", .start, .break "400000"] = .ok s ∧
    s.state = .running ∧ s.points = [⟨0, 0x400000, 0x90⟩] ∧ (Mem.peek s.memory 0x400000).isSome ∧
      (s.storable (sampleHost nopText 9) 0x400000).isSome := by
  obtain ⟨s, hs, hseen⟩ := ok_of_seen (f := fun s => (s.state, s.points, (Mem.peek s.memory 0x400000).isSome,
      (s.storable (sampleHost nopText 9) 0x400000).isSome))
    (show (execAll (sampleHost nopText 9) Debugger.init [.load "./a", .start, .break "400000"]).map _
      = .ok (.running, [⟨0, 0x400000, 0x90⟩], true, true) by rfl)
  simp only [Prod.mk.injEq] at hseen
  exact ⟨s, hs, hseen.1, hseen.2.1, hseen.2.2.1, hseen.2.2.2⟩

/-- `delete 0` takes it out. -/
theorem delete_exact_sample : ∃ s, execAll (sampleHost nopText 9) Debugger.init
      [.load "./a", .start, .break "400000"] = .ok s ∧ DeletesExactly (sampleHost nopText 9) s "0" := by
  obtain ⟨s, hs, hrun, hpoints, hword, hstore⟩ := sample_broken
  refine ⟨s, hs, (delete_exact_iff hrun (session_atRest hs hrun) "0").mpr ⟨0, by decide, fun q hq => ?_⟩⟩
  rw [hpoints] at hq
  cases hq
  refine ⟨rfl, ?_⟩
  exact (if_pos hstore).mpr (Or.inl hword)

/-- So does `delete 0x400000`. -/
theorem delete_by_address : ¬ ∀ (s : Debugger (List Bool)) (cmds : List Command) (sId : String),
    execAll (sampleHost nopText 9) Debugger.init cmds = .ok s → s.state = .running →
      DeletesExactly (sampleHost nopText 9) s sId := by
  intro h
  obtain ⟨s, hs, hrun, hpoints, -⟩ := sample_broken
  have hexact := (delete_exact_iff hrun (session_atRest hs hrun) "0x400000").mp (h s _ "0x400000" hs hrun)
  obtain ⟨id, hid, hgood⟩ := hexact
  cases (show stoi "0x400000" = .ok 0 by decide).symm.trans hid
  have hfound := (hgood ⟨0, 0x400000, 0x90⟩ (by rw [hpoints]; rfl)).1
  revert hfound
  decide

/-! ## `break` -/

/-- **An entry for the address**, unless there is one, with the byte that was there. -/
def Adds (s s' : Debugger ω) (a : Addr) : Prop :=
  (a ∈ addrs s.points → s'.points = s.points) ∧
    (a ∉ addrs s.points → ∃ q, s'.points = s.points ++ [q] ∧ q.addr = a ∧ s.memory a = some q.ori)

/-- The string is the hexadecimal address of a word that can be read and written. -/
def Breakable (H : Host ω) (s : Debugger ω) (sAddr : String) (a : Addr) : Prop :=
  HexAddress sAddr a ∧ (Mem.peek s.memory a).isSome ∧ (Mem.peek (s.storable H) a).isSome

/-- **`break` is atomic**: on an address it can patch it adds one entry, or none when there is one already; on any
    other string it changes nothing. -/
def BreaksAtomically (H : Host ω) (s : Debugger ω) (sAddr : String) : Prop :=
  ∃ s', breakpoint H s sAddr = .ok s' ∧ (∀ a, Breakable H s sAddr a → Adds s s' a) ∧
    ((¬ ∃ a, Breakable H s sAddr a) → s'.points = s.points ∧ s'.bpid = s.bpid ∧ s'.memory = s.memory)

/-- What `break` needs. For an address it can patch: the parser keeps it, or it and the one that the parser makes of
    it are both in the table. For any other string: the address that the parser makes of it is in the table,
    and nothing can be stored there or it is patched already. -/
def Atomic (H : Host ω) (s : Debugger ω) (sAddr : String) : Prop :=
  (∀ a, Breakable H s sAddr a → a.toNat < 2 ^ 63 ∨ (a ∈ addrs s.points ∧ addrOf sAddr ∈ addrs s.points)) ∧
    ((¬ ∃ a, Breakable H s sAddr a) → addrOf sAddr ∈ addrs s.points ∧
      (s.storable H (addrOf sAddr) = none ∨
        (s.memory (addrOf sAddr) = some int3 ∧ Patchable (s.writable H) s.memory (addrOf sAddr) int3)))

variable {sAddr : String}

/-- The outcome of `break` is there; only what it is has to be looked at. -/
theorem breaks_iff {s₁ : Debugger ω} (h : breakpoint H s sAddr = .ok s₁) :
    BreaksAtomically H s sAddr ↔ (∀ a, Breakable H s sAddr a → Adds s s₁ a) ∧
      ((¬ ∃ a, Breakable H s sAddr a) →
        s₁.points = s.points ∧ s₁.bpid = s.bpid ∧ s₁.memory = s.memory) := by
  constructor
  · rintro ⟨s', hs', hadds, hother⟩
    cases h.symm.trans hs'
    exact ⟨hadds, hother⟩
  · rintro ⟨hadds, hother⟩
    exact ⟨s₁, h, hadds, hother⟩

/-- A table that stays has its addresses. -/
theorem adds_same (hpoints : s'.points = s.points) : Adds s s' a ↔ a ∈ addrs s.points := by
  constructor
  · rintro ⟨-, hnew⟩
    by_contra hin
    obtain ⟨q, hq, -⟩ := hnew hin
    rw [hpoints] at hq
    simpa using congrArg List.length hq
  · intro hin
    exact ⟨fun _ => hpoints, fun hout => absurd hin hout⟩

/-- A table with one more entry has its address. -/
theorem adds_snoc {q : Breakpoint} (hpoints : s'.points = s.points ++ [q]) (hout : q.addr ∉ addrs s.points) :
    Adds s s' a ↔ a = q.addr ∧ s.memory a = some q.ori := by
  constructor
  · rintro ⟨hold, hnew⟩
    by_cases hin : a ∈ addrs s.points
    · have hsame := hpoints.symm.trans (hold hin)
      simpa using congrArg List.length hsame
    · obtain ⟨r, hr, hraddr, hori⟩ := hnew hin
      have hqr : q = r := by simpa using List.append_cancel_left (hpoints.symm.trans hr)
      rw [hqr]
      exact ⟨hraddr.symm, hori⟩
  · rintro ⟨rfl, hori⟩
    exact ⟨fun hin => absurd hin hout, fun _ => ⟨q, hpoints, rfl, hori⟩⟩

/-- **When `break` is atomic.** -/
theorem break_atomic_iff (hrun : s.state = .running) (hrest : s.AtRest) (sAddr : String) :
    BreaksAtomically H s sAddr ↔ Atomic H s sAddr := by
  have hmemory : ∀ s' : Debugger ω, s'.child = (replaceByte H s (addrOf sAddr) int3).2.child →
      s'.world = (replaceByte H s (addrOf sAddr) int3).2.world →
        s'.memory = replaced (s.writable H) s.memory (addrOf sAddr) int3 := by
    intro s' hchild hworld
    rw [memory_congr hchild hworld, replaceByte_memory hrest]
  by_cases hin : addrOf sAddr ∈ addrs s.points
  · rw [breaks_iff (breakpoint_dup hrun hin), Atomic]
    refine and_congr (forall₂_congr fun a ha => ?_) (imp_congr_right fun _ => ?_)
    · rw [adds_same replaceByte_points, ← addrOf_address ha.1]
      constructor
      · intro ha'
        exact Or.inr ⟨ha', hin⟩
      · rintro (heq | ⟨ha', -⟩)
        · exact heq ▸ hin
        · exact ha'
    · rw [hmemory _ rfl rfl, replaced_eq_self_iff, ← Debugger.storable]
      simp [hin]
  · rw [breaks_iff (breakpoint_new hrun hin), Atomic]
    refine and_congr (forall₂_congr fun a ha => ?_) (imp_congr_right fun _ => ?_)
    · refine (adds_snoc (by rfl) hin).trans ?_
      rw [← addrOf_address ha.1]
      constructor
      · rintro ⟨heq, -⟩
        exact Or.inl heq.symm
      · rintro (heq | ⟨-, ha'⟩)
        · subst heq
          exact ⟨rfl, replaceByte_old hrest ha.2.1 int3⟩
        · exact absurd ha' hin
    · refine iff_of_false ?_ (fun h => hin h.1)
      rintro ⟨hpoints, -⟩
      simp at hpoints

/-- The program at its first prompt. -/
theorem sample_started : execAll (sampleHost nopText 9) Debugger.init [.load "./a", .start]
    = .ok (sampleStarted nopText 9) := rfl

/-- `break 400000` adds its entry. -/
theorem break_atomic_sample : BreaksAtomically (sampleHost nopText 9) (sampleStarted nopText 9) "400000" := by
  have haddress : HexAddress "400000" 0x400000 :=
    ⟨[], ['4', '0', '0', '0', '0', '0'], rfl, Or.inl rfl, spells_digits (by decide) (by decide)⟩
  have hword : (Mem.peek (sampleStarted nopText 9).memory 0x400000).isSome := by decide
  refine (break_atomic_iff rfl (session_atRest sample_started rfl) "400000").mpr ⟨fun a ha => Or.inl ?_, fun hno => ?_⟩
  · rw [ha.1.toNat_eq]
    decide
  · exact absurd ⟨_, haddress, hword, hword⟩ hno

/-- `break zz` puts a breakpoint at address 0. -/
theorem break_garbage : ¬ ∀ (s : Debugger (List Bool)) (cmds : List Command) (sAddr : String),
    execAll (sampleHost nopText 9) Debugger.init cmds = .ok s → s.state = .running →
      BreaksAtomically (sampleHost nopText 9) s sAddr := by
  intro h
  have hatomic := (break_atomic_iff rfl (session_atRest sample_started rfl) "zz").mp
    (h (sampleStarted nopText 9) _ "zz" sample_started rfl)
  have hno : ¬ ∃ a, Breakable (sampleHost nopText 9) (sampleStarted nopText 9) "zz" a := by
    rintro ⟨a, haddress, -⟩
    have hdigit := haddress.numeral.has_digit
    revert hdigit
    decide
  have hin := (hatomic.2 hno).1
  revert hin
  decide

end AdvUnix.Sdb
