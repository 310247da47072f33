import AdvUnix.Lsof.MapsFormat
import AdvUnix.Sdb.Sample

/-!
# `Sdb.Vmmap` — the rows of `vmmap`

`vmmap` takes a line of `/proc/PID/maps` apart word by word, with one string for all the columns. The words of a
line are known (`Mapping.words_text`), so a row is (`vmmapRow_private`, `vmmapRow_shared`); it is the row of the
mapping if this is private and its path is one word (`vmmap_rows_iff`).
-/

namespace AdvUnix.Sdb

open Words Lsof

variable {ω : Type} {H : Host ω}

/-! ## Extraction -/

theorem extract_cons {cs w : List Char} {ws : List (List Char)} (h : words isSpace cs = w :: ws) (old : List Char) :
    ∃ rest, extract cs old = (w, rest) ∧ words isSpace rest = ws := by
  rcases words_cases isSpace cs with ⟨-, hnone⟩ | ⟨hne, hfirst⟩
  · rw [hnone] at h
    cases h
  · rw [hfirst] at h
    obtain ⟨rfl, rfl⟩ := List.cons.inj h
    refine ⟨_, ?_, rfl⟩
    rw [extract]
    exact if_neg hne

/-- Where no word is left, the old one stays. -/
theorem extract_nil {cs : List Char} (h : words isSpace cs = []) (old : List Char) : extract cs old = (old, []) := by
  rcases words_cases isSpace cs with ⟨hdrop, -⟩ | ⟨-, hfirst⟩
  · rw [extract, hdrop]
    rfl
  · rw [hfirst] at h
    cases h

theorem extract_fst (cs old : List Char) : (extract cs old).1 = (words isSpace cs).headD old := by
  cases h : words isSpace cs with
  | nil => rw [extract_nil h, List.headD_nil]
  | cons w ws =>
      obtain ⟨rest, hextract, -⟩ := extract_cons h old
      rw [hextract]
      rfl

/-! ## One line -/

theorem isHex_ne_dash {c : Char} (h : isHex c = true) : c ≠ '-' := by
  rintro rfl
  exact absurd h (by decide)

/-- The numerals of an address. -/
theorem words_address (m : Mapping) :
    words isSpace (m.address.map fun c => if c = '-' then ' ' else c) = [m.start.digits, m.stop.digits] := by
  have hdigits : ∀ h : Hex, (h.digits.map fun c => if c = '-' then ' ' else c) = h.digits := by
    intro h
    have hid : ∀ c ∈ h.digits, (if c = '-' then ' ' else c) = id c := fun c hc =>
      if_neg (isHex_ne_dash (List.all_eq_true.mp h.hex c hc))
    rw [List.map_congr_left hid, List.map_id]
  rw [Mapping.address, List.map_append, List.map_cons, hdigits, hdigits, if_pos rfl,
    words_word_append m.start.nonempty m.start.solid (by decide), words_word m.stop.nonempty m.stop.solid]

theorem erasePerm_private {p : Perms} (h : p.shared = false) : erasePerm p.text = some p.access := by
  obtain ⟨r, w, x, s⟩ := p
  obtain rfl : s = false := h
  revert r w x
  decide

theorem erasePerm_shared {p : Perms} (h : p.shared = true) : erasePerm p.text = none := by
  obtain ⟨r, w, x, s⟩ := p
  obtain rfl : s = true := h
  revert r w x
  decide

/-- The words of the path and the mark. -/
def tailWords (m : Mapping) : List (List Char) := m.pathWords ++ m.markWords

/-- **The row of a line** of a mapping. -/
theorem vmmapRow_text (m : Mapping) :
    vmmapRow (String.ofList m.text) =
      (erasePerm m.perms.text).elim (.error .segv) fun perm =>
        .ok (.mapRow (pad16 m.start.digits) (pad16 m.stop.digits) perm m.inodeText
          ((tailWords m).headD m.inodeText)) := by
  have hwords : words isSpace m.text =
      m.address :: m.perms.text :: m.offset.digits :: m.device :: m.inodeText :: tailWords m := m.words_text
  -- what is left of the line after each column
  obtain ⟨r₁, haddress, hr₁⟩ := extract_cons hwords []
  obtain ⟨a, hstart, ha⟩ := extract_cons (words_address m) []
  obtain ⟨a', hstop, -⟩ := extract_cons ha []
  obtain ⟨r₂, hperms, hr₂⟩ := extract_cons hr₁ m.address
  rw [vmmapRow, String.toList_ofList, haddress]
  dsimp only
  rw [hstart]
  dsimp only
  rw [hstop, hperms]
  dsimp only
  cases erasePerm m.perms.text with
  | none => rfl
  | some perm =>
      obtain ⟨r₃, hoffset, hr₃⟩ := extract_cons hr₂ perm
      obtain ⟨r₄, hdevice, hr₄⟩ := extract_cons hr₃ m.offset.digits
      obtain ⟨r₅, hinode, hr₅⟩ := extract_cons hr₄ m.device
      dsimp only
      rw [hoffset]
      dsimp only
      rw [hdevice]
      dsimp only
      rw [hinode]
      dsimp only
      rw [extract_fst, hr₅]
      rfl

/-- **The row that a mapping should have.** -/
def row (m : Mapping) : Out :=
  .mapRow (pad16 m.start.digits) (pad16 m.stop.digits) m.perms.access m.inodeText (m.path.elim [] MappedPath.text)

/-- A path of one word. -/
def OneWord (m : Mapping) : Prop := ∃ path, m.path = some path ∧ Solid isSpace path.text

/-- Without a path the inode is shown again, and of a path only the first word. -/
theorem path_column_iff (m : Mapping) :
    (tailWords m).headD m.inodeText = m.path.elim [] MappedPath.text ↔ OneWord m := by
  unfold tailWords OneWord
  cases hpath : m.path with
  | none =>
      have hinode : m.inodeText ≠ [] := Nat.toDigits_ne_nil
      rw [Mapping.words_none hpath]
      exact iff_of_false hinode (fun ⟨_, h, _⟩ => nomatch h)
  | some path =>
      obtain ⟨w, ws, hw⟩ := List.exists_cons_of_ne_nil path.words_ne_nil
      rw [Mapping.pathWords_some hpath, hw, List.cons_append, List.headD_cons, Option.elim_some]
      constructor
      · rintro rfl
        obtain ⟨c, cs, htext, hc⟩ := path.text_cons
        obtain ⟨hsolid, hfirst⟩ := @words_of_start _ isSpace c cs hc
        rw [← htext] at hsolid hfirst
        rw [hfirst] at hw
        refine ⟨path, rfl, ?_⟩
        rw [← (List.cons.inj hw).1]
        exact hsolid
      · rintro ⟨path', hpath', hsolid⟩
        obtain rfl := Option.some.inj hpath'
        rw [words_word path.text_ne_nil hsolid] at hw
        exact (List.cons.inj hw).1.symm

theorem vmmapRow_eq_iff (m : Mapping) :
    vmmapRow (String.ofList m.text) = .ok (row m) ↔ m.perms.shared = false ∧ OneWord m := by
  rw [vmmapRow_text, ← path_column_iff]
  cases hshared : m.perms.shared with
  | true =>
      rw [erasePerm_shared hshared]
      exact iff_of_false (fun h => nomatch h) (fun h => nomatch h.1)
  | false =>
      rw [erasePerm_private hshared, and_iff_right rfl, Option.elim_some, row]
      constructor
      · intro h
        injection h with h
        injection h
      · intro h
        rw [h]

/-! ## All lines -/

/-- Every line gives its own row. -/
theorem mapM_eq_ok_iff {α β γ : Type} {f : β → Except Halt γ} {g : α → β} {h : α → γ} (as : List α) :
    (as.map g).mapM f = .ok (as.map h) ↔ ∀ a ∈ as, f (g a) = .ok (h a) := by
  induction as with
  | nil => exact ⟨fun _ a ha => absurd ha List.not_mem_nil, fun _ => rfl⟩
  | cons a as ih =>
      rw [List.map_cons, List.mapM_cons, List.forall_mem_cons, ← ih, List.map_cons]
      cases hfirst : f (g a) with
      | error e => exact iff_of_false (fun h => nomatch h) (fun h => nomatch h.1)
      | ok c =>
          cases hrest : (as.map g).mapM f with
          | error e => exact iff_of_false (fun h => nomatch h) (fun h => nomatch h.2)
          | ok cs =>
              change Except.ok (c :: cs) = _ ↔ _
              simp

/-- **`vmmap` prints the rows of the mappings** exactly when each is private and has a path of one word. -/
theorem vmmap_rows_iff {s : Debugger ω} {p : Proc ω} {ms : List Mapping} (hrun : s.state = .running)
    (hchild : s.world.procs s.child = some p) (hlines : H.maps p.cpu = ms.map fun m => String.ofList m.text) :
    vmmap H s = .ok { s with out := s.out ++ ms.map row } ↔ ∀ m ∈ ms, m.perms.shared = false ∧ OneWord m := by
  have hvmmap : vmmap H s = ((ms.map fun m => String.ofList m.text).mapM vmmapRow).bind fun rows =>
      .ok { s with out := s.out ++ rows } := by
    rw [vmmap, if_neg (fun hne => hne hrun), hchild, ← hlines]
    rfl
  have hrows : (∀ m ∈ ms, m.perms.shared = false ∧ OneWord m) ↔
      (ms.map fun m => String.ofList m.text).mapM vmmapRow = .ok (ms.map row) := by
    rw [mapM_eq_ok_iff]
    exact forall₂_congr fun m _ => (vmmapRow_eq_iff m).symm
  rw [hrows, hvmmap]
  cases (ms.map fun m => String.ofList m.text).mapM vmmapRow with
  | error e =>
      constructor
      · intro h
        cases h
      · intro h
        cases h
  | ok rows =>
      constructor
      · intro h
        injection h with h
        have hout : s.out ++ rows = s.out ++ ms.map row := congrArg Debugger.out h
        rw [List.append_cancel_left hout]
      · intro h
        injection h with h
        rw [h]
        rfl

/-- A system on which the program has these mappings. -/
def mappedHost (ms : List Mapping) : Host (List Bool) :=
  { sampleHost [0x90, 0] 9 with maps := fun _ => ms.map fun m => String.ofList m.text }

theorem vmmap_rows_sample : ∃ p, (sampleStarted [0x90, 0] 9).world.procs (sampleStarted [0x90, 0] 9).child = some p ∧
    vmmap (mappedHost [readable one 7 pathA]) (sampleStarted [0x90, 0] 9) =
      .ok { sampleStarted [0x90, 0] 9 with
        out := (sampleStarted [0x90, 0] 9).out ++ [readable one 7 pathA].map row } := by
  have hplain : ∀ m ∈ [readable one 7 pathA], m.perms.shared = false ∧ OneWord m := by
    intro m hm
    obtain rfl := List.mem_singleton.mp hm
    exact ⟨rfl, pathA, rfl, by decide⟩
  exact ⟨_, rfl, (vmmap_rows_iff rfl rfl rfl).mpr hplain⟩

/-- A shared mapping, and one without a path. -/
def sharedMapping : Mapping := { readable one 7 pathA with perms := ⟨true, false, false, true⟩ }
def pathlessMapping : Mapping := { readable one 0 pathA with path := none }

/-- The first erases at the end of its permissions, the second shows its inode twice. -/
theorem vmmap_spoils :
    vmmap (mappedHost [sharedMapping]) (sampleStarted [0x90, 0] 9) = .error .segv ∧
      vmmap (mappedHost [pathlessMapping]) (sampleStarted [0x90, 0] 9) =
        .ok { sampleStarted [0x90, 0] 9 with
          out := (sampleStarted [0x90, 0] 9).out ++
            [.mapRow (pad16 ['0']) (pad16 ['1']) "r--".toList ['0'] ['0']] } ∧
      row pathlessMapping = .mapRow (pad16 ['0']) (pad16 ['1']) "r--".toList ['0'] [] :=
  ⟨rfl, rfl, rfl⟩

end AdvUnix.Sdb
