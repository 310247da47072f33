import AdvUnix.Elf.Tables

/-!
# `Elf.Safety` — which files are loaded safely

Only the magic of a file is checked, so each of the four accesses that can go wrong does on some file:
the sizes of the header tables overflow, `load_strtab` and the search walk off the section headers, the
section-name table is missing, a name runs off it. `SafeFile` collects what has to hold of the header
fields and the tables for none of them to happen.
-/

namespace AdvUnix.Elf

open ByteStore

variable {α β : Type}

/-! ## Contained results -/

/-- **A contained load**: none of the four accesses is made. A store through a null pointer ends the program
    before the load is over, and is not one of them. -/
def Contained (r : Except Fault α) : Prop := ∀ f, r = .error f → f = .nullWrite

/-- The access that ends a load, if one does. -/
def faultOf : Except Fault α → Option Fault
  | .error f => some f
  | .ok _ => none

theorem contained_iff {r : Except Fault α} :
    Contained r ↔ faultOf r = none ∨ faultOf r = some .nullWrite := by
  cases r with
  | error f => exact ⟨fun h => Or.inr (congrArg some (h f rfl)), fun h f' he => by
      cases he
      exact Option.some.inj (h.resolve_left (Option.some_ne_none f))⟩
  | ok a => exact ⟨fun _ => Or.inl rfl, fun _ f h => by cases h⟩

theorem contained_ok (a : α) : Contained (.ok a : Except Fault α) := by
  intro f h
  cases h

theorem contained_nullWrite : Contained (.error .nullWrite : Except Fault α) := by
  intro f h
  cases h
  rfl

theorem not_contained {f : Fault} (h : f ≠ .nullWrite) : ¬ Contained (.error f : Except Fault α) :=
  fun hc => h (hc f rfl)

theorem contained_map {r : Except Fault α} {g : α → β} : Contained (r.map g) ↔ Contained r := by
  cases r with
  | error f => exact ⟨fun h f' he => h f' (by cases he; rfl), fun h f' he => h f' (by cases he; rfl)⟩
  | ok a => exact ⟨fun _ => contained_ok a, fun _ => contained_ok (g a)⟩

/-- A check that guards the rest of the load. -/
theorem contained_guard {c : Prop} [Decidable c] {r : Except Fault α} {f : Fault}
    (hf : f ≠ .nullWrite) : Contained (if c then r else .error f) ↔ c ∧ Contained r := by
  by_cases hc : c
  · rw [if_pos hc]
    exact ⟨fun h => ⟨hc, h⟩, fun h => h.2⟩
  · rw [if_neg hc]
    exact ⟨fun h => absurd h (not_contained hf), fun h => absurd h.1 hc⟩

/-! ## The search -/

variable {mem : Memory} {shdr : List Byte} {f : Stream}

/-- Turn `i` of the search makes no bad access: the name ends inside the table or differs from `.text`
    before, and a header that is copied is there as a whole. -/
def TurnInside (shdr : List Byte) (data : Option (List Byte)) (i : Nat) : Prop :=
  ¬ NameCut shdr data i ∧ (NamedText shdr data i → hdrSize * i + hdrSize ≤ shdr.length)

/-- Every turn of the search makes no bad access, up to the one that finds `.text`. -/
def SearchInside (shdr : List Byte) (data : Option (List Byte)) (n : Nat) : Prop :=
  ∀ i < n, (∀ j < i, ¬ NamedText shdr data j) → TurnInside shdr data i

/-- The search from turn `i` on. -/
theorem findText_contained {t : Strtab} (n i : Nat)
    (hin : ∀ k < i + n, HeaderInside shdr k) (hnone : ∀ j < i, ¬ NamedText shdr t.data j) :
    Contained (findText shdr (some t) i n) ↔
      ∀ k < i + n, i ≤ k → (∀ j < k, ¬ NamedText shdr t.data j) → TurnInside shdr t.data k := by
  induction n generalizing i with
  | zero => exact ⟨fun _ k hk hik => by omega, fun _ => contained_ok none⟩
  | succ n ih =>
      have hhere : hdrSize * i + 4 ≤ shdr.length := by
        have := (hin i (by omega)).1
        omega
      rw [findText_succ n hhere]
      by_cases hcut : NameCut shdr t.data i
      · rw [if_pos hcut]
        refine ⟨fun h => absurd h (not_contained (by decide)), fun h => ?_⟩
        exact absurd hcut (h i (by omega) (Nat.le_refl i) hnone).1
      rw [if_neg hcut]
      by_cases hname : NamedText shdr t.data i
      · rw [if_pos hname, contained_guard (by simp)]
        constructor
        · rintro ⟨hwhole, -⟩ k hk hik hbefore
          -- turn `i` finds the section, so no later turn is taken
          rcases Nat.lt_or_ge i k with hlt | hge
          · exact absurd hname (hbefore i hlt)
          · obtain rfl : k = i := by omega
            exact ⟨hcut, fun _ => hwhole⟩
        · intro h
          exact ⟨(h i (by omega) (Nat.le_refl i) hnone).2 hname, contained_ok _⟩
      · rw [if_neg hname]
        have hnone' : ∀ j < i + 1, ¬ NamedText shdr t.data j := by
          intro j hj
          rcases Nat.lt_succ_iff_lt_or_eq.mp hj with hlt | rfl
          · exact hnone j hlt
          · exact hname
        rw [ih (i + 1) (fun k hk => hin k (by omega)) hnone']
        constructor
        · intro h k hk hik hbefore
          rcases Nat.lt_or_ge i k with hlt | hge
          · exact h k (by omega) hlt hbefore
          · obtain rfl : k = i := by omega
            exact ⟨hcut, fun hn => absurd hn hname⟩
        · intro h k hk hik hbefore
          exact h k (by omega) (by omega) hbefore

/-! ## Sections -/

/-- The section headers that the loader looks at are inside their table, the section-name table is there
    and no name runs off it. -/
structure SoundSections (mem : Memory) (shdr : List Byte) (f : Stream) (num strndx : Nat) :
    Prop where
  inside : ∀ i < num, HeaderInside shdr i
  index : strndx < num
  strtab : secType shdr strndx = shtStrtab
  names : SearchInside shdr (tabAt mem shdr f strndx).data num

/-- A string table is stored through a null pointer before any header outside the table is looked at. -/
def TabStoresNull (mem : Memory) (shdr : List Byte) (f : Stream) (num : Nat) : Prop :=
  ∃ j < num, TabNull mem shdr f j ∧ ∀ i ≤ j, HeaderInside shdr i

theorem loadSections_contained {e : Handle} (hshdr : e.shdr = some shdr) (hcnt : e.shCnt ≠ 0) :
    Contained (loadSections mem e f) ↔
      TabStoresNull mem shdr f e.shCnt ∨ SoundSections mem shdr f e.shCnt e.shStridx := by
  rw [loadSections_some hshdr]
  rcases strtabLoop_cases mem shdr f e.shCnt with
    ⟨hloop, hin, hnull⟩ | ⟨hloop, hnull⟩ | ⟨j, hj, hloop, hout, hnull⟩
  · rw [hloop]
    simp only [Except.bind]
    rw [contained_map, find_tabs]
    have hno : ¬ TabStoresNull mem shdr f e.shCnt := fun ⟨j, hj, hn, _⟩ => hnull j hj hn
    by_cases htab : e.shStridx < e.shCnt ∧ secType shdr e.shStridx = shtStrtab
    · rw [if_pos htab, findText_contained e.shCnt 0 (by simpa using hin)
        (fun j hj => absurd hj (Nat.not_lt_zero j))]
      simp only [Nat.zero_add, Nat.zero_le, forall_true_left]
      exact ⟨fun h => Or.inr ⟨hin, htab.1, htab.2, h⟩, fun h => (h.resolve_left hno).names⟩
    · -- without the table of names the first turn of the search reads through a null pointer
      rw [if_neg htab]
      obtain ⟨n, hn⟩ := Nat.exists_eq_succ_of_ne_zero hcnt
      have hmissing : ¬ Contained (findText shdr none 0 e.shCnt) := by
        rw [hn]
        exact not_contained (by decide)
      exact ⟨fun h => absurd h hmissing,
        fun h => absurd ⟨(h.resolve_left hno).index, (h.resolve_left hno).strtab⟩ htab⟩
  · rw [hloop]
    exact ⟨fun _ => Or.inl hnull, fun _ => contained_nullWrite⟩
  · rw [hloop]
    refine ⟨fun h => absurd h (not_contained (by simp)), fun h => ?_⟩
    rcases h with ⟨k, hk, hn, hin⟩ | h
    · rcases Nat.lt_or_ge k j with hlt | hge
      · exact absurd hn (hnull k hlt)
      · exact absurd (hin j hge) hout
    · exact absurd (h.inside j hj) hout

/-! ## Files -/

/-- The sections of a file: none, or a header table that is read as a whole and is sound. -/
def SafeSections (mem : Memory) (image : Image) : Prop :=
  (ehdrOf image).shnum = 0 ∨
    shSize (ehdrOf image) < 2 ^ 31 ∧ (ShNull mem image ∨
      mem.calloc (shSize (ehdrOf image)) = true ∧
        (TabStoresNull mem (headers mem image) (shStream mem image) (ehdrOf image).shnum ∨
          SoundSections mem (headers mem image) (shStream mem image) (ehdrOf image).shnum
            (ehdrOf image).shstrndx))

/-- **A file that is loaded safely.** -/
def SafeFile (mem : Memory) (image : Image) : Prop :=
  ((ehdrOf image).phnum = 0 ∧ SafeSections mem image) ∨
    ((ehdrOf image).phnum ≠ 0 ∧ phSize (ehdrOf image) < 2 ^ 31 ∧
      (PhNull mem image ∨ SafeSections mem image))

/-- The sections, once the program headers have been read. -/
theorem loadShdr_contained {e : Handle} {image : Image} (hcnt : e.shCnt = (ehdrOf image).shnum)
    (hehdr : e.ehdr = ehdrOf image) (hstr : e.shStridx = (ehdrOf image).shstrndx) :
    Contained ((loadShdr mem e (phStream mem image)).bind fun (e, f) => loadSections mem e f) ↔
      SafeSections mem image := by
  rw [loadShdr_opened hcnt hehdr]
  unfold SafeSections
  by_cases hnum : (ehdrOf image).shnum = 0
  · rw [if_pos hnum]
    simp only [Except.bind]
    rw [loadSections_none (hcnt.trans hnum)]
    exact ⟨fun _ => Or.inl hnum, fun _ => contained_ok _⟩
  rw [if_neg hnum]
  by_cases hsize : shSize (ehdrOf image) < 2 ^ 31
  · rw [if_pos hsize]
    by_cases hnull : ShNull mem image
    · rw [if_pos hnull]
      exact ⟨fun _ => Or.inr ⟨hsize, Or.inl hnull⟩, fun _ => contained_nullWrite⟩
    · rw [if_neg hnull]
      simp only [Except.bind]
      have hne : e.shCnt ≠ 0 := fun h => hnum (hcnt.symm.trans h)
      by_cases halloc : mem.calloc (shSize (ehdrOf image)) = true
      · have hshdr : shdrs mem image = some (headers mem image) := if_pos halloc
        rw [hshdr, loadSections_contained (e := { e with shdr := some (headers mem image) }) rfl hne]
        simp only [hcnt, hstr, hnum, hsize, hnull, halloc, false_or, true_and]
      · have hshdr : shdrs mem image = none := if_neg halloc
        rw [hshdr, loadSections_null (e := { e with shdr := none }) hne rfl]
        refine ⟨fun h => absurd h (not_contained (by decide)), fun h => ?_⟩
        rcases h with h | ⟨-, h | ⟨h, -⟩⟩
        · exact absurd h hnum
        · exact absurd h hnull
        · exact absurd h halloc
  · rw [if_neg hsize]
    refine ⟨fun h => absurd h (not_contained (by decide)), fun h => ?_⟩
    rcases h with h | ⟨h, -⟩
    · exact absurd h hnum
    · exact absurd h hsize

/-- **Loader safety.** On a file that `elf_open` accepts, whatever the debugger loaded before, `load`
    makes none of the four accesses exactly when the file is safe. -/
theorem load_safe_iff {mem : Memory} {e e' : Handle} {image : Image}
    (hopen : elfOpen e image = some e') : Contained (load mem e') ↔ SafeFile mem image := by
  have h := elfOpen_opened hopen
  rw [load_opened h, loadPhdr_opened h]
  unfold SafeFile
  by_cases hnum : (ehdrOf image).phnum = 0
  · rw [if_pos hnum]
    refine (loadShdr_contained h.shCnt h.ehdr h.shStridx).trans ?_
    exact ⟨fun hs => Or.inl ⟨hnum, hs⟩, fun hs => (hs.resolve_right fun hr => hr.1 hnum).2⟩
  rw [if_neg hnum]
  have hiff : ∀ p : Prop, ((ehdrOf image).phnum = 0 ∧ SafeSections mem image ∨
      (ehdrOf image).phnum ≠ 0 ∧ p) ↔ p :=
    fun p => ⟨fun hs => (hs.resolve_left fun hl => hnum hl.1).2, fun hp => Or.inr ⟨hnum, hp⟩⟩
  rw [hiff]
  by_cases hsize : phSize (ehdrOf image) < 2 ^ 31
  · rw [if_pos hsize]
    by_cases hnull : PhNull mem image
    · rw [if_pos hnull]
      exact ⟨fun _ => ⟨hsize, Or.inl hnull⟩, fun _ => contained_nullWrite⟩
    · rw [if_neg hnull]
      refine (loadShdr_contained (e := { e' with phdr := phdrs mem image }) h.shCnt h.ehdr
        h.shStridx).trans ?_
      exact ⟨fun hs => ⟨hsize, Or.inr hs⟩, fun hs => hs.2.resolve_left hnull⟩
  · rw [if_neg hsize]
    exact ⟨fun hc => absurd hc (not_contained (by decide)), fun hs => absurd hs.1 hsize⟩

/-! ## Files that are loaded -/

/-- The sections of a file whose tables are all allocated and sound. -/
def WholeSections (mem : Memory) (image : Image) : Prop :=
  (ehdrOf image).shnum = 0 ∨
    shSize (ehdrOf image) < 2 ^ 31 ∧ ¬ ShNull mem image ∧ mem.calloc (shSize (ehdrOf image)) = true ∧
      (∀ j < (ehdrOf image).shnum, ¬ TabNull mem (headers mem image) (shStream mem image) j) ∧
      SoundSections mem (headers mem image) (shStream mem image) (ehdrOf image).shnum (ehdrOf image).shstrndx

/-- **A file that is loaded**: safely, and with memory for each of its tables. -/
def WholeFile (mem : Memory) (image : Image) : Prop :=
  ((ehdrOf image).phnum = 0 ∨ phSize (ehdrOf image) < 2 ^ 31 ∧ ¬ PhNull mem image) ∧
    WholeSections mem image

/-- The load comes to its end. -/
def Ends (r : Except Fault α) : Prop := ∃ a, r = .ok a

theorem ends_ok (a : α) : Ends (.ok a : Except Fault α) := ⟨a, rfl⟩

theorem not_ends (f : Fault) : ¬ Ends (.error f : Except Fault α) := by
  rintro ⟨a, ha⟩
  cases ha

theorem ends_iff {r : Except Fault α} : Ends r ↔ Contained r ∧ r ≠ .error .nullWrite := by
  cases r with
  | ok a => exact ⟨fun _ => ⟨contained_ok a, by simp⟩, fun _ => ends_ok a⟩
  | error f =>
      constructor
      · intro h
        exact absurd h (not_ends f)
      · rintro ⟨hcontained, hne⟩
        exact absurd (congrArg Except.error (hcontained f rfl)) hne

/-- The search stores nothing. -/
theorem findText_stores_nothing {t : Strtab} (n i : Nat) (hin : ∀ k < i + n, HeaderInside shdr k) :
    findText shdr (some t) i n ≠ .error .nullWrite := by
  induction n generalizing i with
  | zero => simp [findText]
  | succ n ih =>
      have hhere : hdrSize * i + 4 ≤ shdr.length := by
        have := (hin i (by omega)).1
        omega
      rw [findText_succ n hhere]
      split
      · simp
      · split
        · split <;> simp
        · exact ih (i + 1) (fun k hk => hin k (by omega))

theorem loadSections_ends {e : Handle} (hshdr : e.shdr = some shdr) (hcnt : e.shCnt ≠ 0) :
    Ends (loadSections mem e f) ↔
      (∀ j < e.shCnt, ¬ TabNull mem shdr f j) ∧ SoundSections mem shdr f e.shCnt e.shStridx := by
  have hcontained : Contained (loadSections mem e f) ↔ _ := loadSections_contained hshdr hcnt
  rw [ends_iff, hcontained, loadSections_some hshdr]
  rcases strtabLoop_cases mem shdr f e.shCnt with
    ⟨hloop, hin, hnull⟩ | ⟨hloop, j, hj, hn, -⟩ | ⟨j, hj, hloop, hout, hnull⟩
  · rw [hloop]
    -- the search stores nothing, so a store through a null pointer is not its doing
    have hstores : ∀ tab : Option Strtab, findText shdr tab 0 e.shCnt ≠ .error .nullWrite := by
      intro tab
      cases tab with
      | none =>
          obtain ⟨n, hn⟩ := Nat.exists_eq_succ_of_ne_zero hcnt
          rw [hn]
          simp [findText]
      | some t => exact findText_stores_nothing e.shCnt 0 (by simpa using hin)
    constructor
    · rintro ⟨⟨j, hj, hn, -⟩ | hsound, -⟩
      · exact absurd hn (hnull j hj)
      · exact ⟨hnull, hsound⟩
    · rintro ⟨-, hsound⟩
      refine ⟨Or.inr hsound, ?_⟩
      intro hstored
      simp only [Except.bind] at hstored
      cases hfind : findText shdr ((tabs mem shdr f e.shCnt).find? fun tab => tab.id = e.shStridx) 0 e.shCnt with
      | ok r =>
          rw [hfind] at hstored
          cases hstored
      | error f' =>
          rw [hfind] at hstored
          cases hstored
          exact hstores _ hfind
  · rw [hloop]
    constructor
    · rintro ⟨-, hne⟩
      exact absurd rfl hne
    · rintro ⟨hnull, -⟩
      exact absurd hn (hnull j hj)
  · constructor
    · rintro ⟨⟨k, hk, hn, hin⟩ | hsound, hne⟩
      · rcases Nat.lt_or_ge k j with hlt | hge
        · exact absurd hn (hnull k hlt)
        · exact absurd (hin j hge) hout
      · exact absurd (hsound.inside j hj) hout
    · rintro ⟨-, hsound⟩
      exact absurd (hsound.inside j hj) hout

/-- What ends in the sections, once the program headers have been read. -/
theorem loadShdr_ends {e : Handle} {image : Image} (hcnt : e.shCnt = (ehdrOf image).shnum)
    (hehdr : e.ehdr = ehdrOf image) (hstr : e.shStridx = (ehdrOf image).shstrndx) :
    Ends ((loadShdr mem e (phStream mem image)).bind fun (e, f) => loadSections mem e f) ↔
      WholeSections mem image := by
  rw [loadShdr_opened hcnt hehdr]
  unfold WholeSections
  by_cases hnum : (ehdrOf image).shnum = 0
  · rw [if_pos hnum]
    simp only [Except.bind]
    rw [loadSections_none (hcnt.trans hnum)]
    exact ⟨fun _ => Or.inl hnum, fun _ => ends_ok _⟩
  rw [if_neg hnum]
  by_cases hsize : shSize (ehdrOf image) < 2 ^ 31
  · rw [if_pos hsize]
    by_cases hnull : ShNull mem image
    · rw [if_pos hnull]
      refine ⟨fun h => absurd h (not_ends _), fun h => ?_⟩
      exact absurd hnull (h.resolve_left hnum).2.1
    · rw [if_neg hnull]
      simp only [Except.bind]
      have hne : e.shCnt ≠ 0 := fun h => hnum (hcnt.symm.trans h)
      by_cases halloc : mem.calloc (shSize (ehdrOf image)) = true
      · have hshdr : shdrs mem image = some (headers mem image) := if_pos halloc
        rw [hshdr, loadSections_ends (e := { e with shdr := some (headers mem image) }) rfl hne]
        simp only [hcnt, hstr, hnum, hsize, hnull, halloc, false_or, true_and, not_false_eq_true]
      · have hshdr : shdrs mem image = none := if_neg halloc
        rw [hshdr, loadSections_null (e := { e with shdr := none }) hne rfl]
        refine ⟨fun h => absurd h (not_ends _), fun h => ?_⟩
        exact absurd (h.resolve_left hnum).2.2.1 halloc
  · rw [if_neg hsize]
    refine ⟨fun h => absurd h (not_ends _), fun h => ?_⟩
    exact absurd (h.resolve_left hnum).1 hsize

/-- **The load of an accepted file comes to its end** exactly when the file is whole. -/
theorem load_ends_iff {e e' : Handle} {image : Image} (hopen : elfOpen e image = some e') :
    Ends (load mem e') ↔ WholeFile mem image := by
  have h := elfOpen_opened hopen
  rw [load_opened h, loadPhdr_opened h]
  unfold WholeFile
  by_cases hnum : (ehdrOf image).phnum = 0
  · rw [if_pos hnum]
    refine (loadShdr_ends h.shCnt h.ehdr h.shStridx).trans ?_
    exact ⟨fun hs => ⟨Or.inl hnum, hs⟩, fun hs => hs.2⟩
  rw [if_neg hnum]
  by_cases hsize : phSize (ehdrOf image) < 2 ^ 31
  · rw [if_pos hsize]
    by_cases hnull : PhNull mem image
    · rw [if_pos hnull]
      refine ⟨fun hs => absurd hs (not_ends _), fun hs => ?_⟩
      exact absurd hnull (hs.1.resolve_left hnum).2
    · rw [if_neg hnull]
      refine (loadShdr_ends (e := { e' with phdr := phdrs mem image }) h.shCnt h.ehdr
        h.shStridx).trans ?_
      exact ⟨fun hs => ⟨Or.inr ⟨hsize, hnull⟩, hs⟩, fun hs => hs.2⟩
  · rw [if_neg hsize]
    refine ⟨fun hs => absurd hs (not_ends _), fun hs => ?_⟩
    exact absurd (hs.1.resolve_left hnum).1 hsize

/-! ## Files -/

/-- A file header followed by its `shnum` section headers. -/
def sampleEhdr (shnum shstrndx : Nat) : List Byte :=
  elfmag ++ List.replicate 20 0 ++ leBytes 8 0x400000 ++ leBytes 8 0 ++ leBytes 8 64 ++
    List.replicate 10 0 ++ leBytes 2 64 ++ leBytes 2 shnum ++ leBytes 2 shstrndx

def sampleShdr (name type offset size : Nat) : List Byte :=
  leBytes 4 name ++ leBytes 4 type ++ List.replicate 16 0 ++ leBytes 8 offset ++ leBytes 8 size ++
    List.replicate 24 0

/-- A file of three sections: the null one, `.text`, and the section names, where the name of the last
    is the end of the name before it. -/
def sampleElf : Image where
  bytes := sampleEhdr 3 2 ++ sampleShdr 0 0 0 0 ++ sampleShdr 1 1 0x1000 9 ++ sampleShdr 2 3 256 7 ++
    [0, 0x2e, 0x74, 0x65, 0x78, 0x74, 0]
  length_lt := by decide +kernel

/-- The same header with nothing after it. -/
def truncatedElf : Image := ⟨sampleEhdr 3 2, by decide⟩

/-- An allocator that is out of memory for requests of 2 GiB and more. -/
def sampleMemory : Memory where
  calloc := fun n => n < 2 ^ 31
  nullFails := fun _ _ => false

theorem load_safe_sample : ∃ e, elfOpen Handle.init sampleElf = some e ∧
    SafeFile sampleMemory sampleElf := by
  have hload : ∃ e, elfOpen Handle.init sampleElf = some e ∧
      faultOf (load sampleMemory e) = none := ⟨_, rfl, by decide +kernel⟩
  obtain ⟨e, hopen, hload⟩ := hload
  exact ⟨e, hopen, (load_safe_iff hopen).mp (contained_iff.mpr (Or.inl hload))⟩

/-- **A truncated file**: there are no section headers, so there is no section-name table, and the search
    takes it all the same. -/
theorem load_truncated_unsafe : ¬ ∀ (e e' : Handle) (image : Image),
    elfOpen e image = some e' → Contained (load sampleMemory e') := by
  intro h
  have hfault : ∃ e, elfOpen Handle.init truncatedElf = some e ∧
      faultOf (load sampleMemory e) = some .noStrtab := ⟨_, rfl, by decide +kernel⟩
  obtain ⟨e, hopen, hload⟩ := hfault
  have hcontained := contained_iff.mp (h Handle.init e truncatedElf hopen)
  rw [hload] at hcontained
  exact absurd hcontained (by decide)

end AdvUnix.Elf
