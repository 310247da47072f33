import AdvUnix.Elf.Tables

/-!
# `Elf.Correct` — what a well-formed file is loaded as

The sections of a file, their contents and names are defined on its bytes alone. Then the loader is compared
with them: its header table is the file's (`headers_field`), its list of string tables has one node for
each string table of the file in decreasing order (`tabs_wellFormed`), and its search finds the first section
named `.text` (`findText_wellFormed`).
-/

namespace AdvUnix.Elf

open ByteStore CString

variable {mem : Memory}

/-! ## The file -/

/-- Section header `i` of a file. -/
def shdrAt (image : Image) (i : Nat) : Shdr :=
  Shdr.ofBytes ((image.bytes.drop ((ehdrOf image).shoff + hdrSize * i)).take hdrSize)

/-- The file bytes of section `i`. -/
def contents (image : Image) (i : Nat) : List Byte :=
  (image.bytes.drop (shdrAt image i).shOffset).take (shdrAt image i).shSize

/-- The name of section `i`, from the section-name table. -/
def sectionName (image : Image) (i : Nat) : List Byte :=
  content 0 ((contents image (ehdrOf image).shstrndx).drop (shdrAt image i).shName)

/-- **A well-formed file.** -/
structure WellFormed (image : Image) : Prop where
  magic : image.bytes.take 4 = elfmag
  whole : hdrSize ≤ image.bytes.length
  /-- With program headers of 56 bytes the table is never larger than this. -/
  phSmall : phSize (ehdrOf image) < 2 ^ 31
  shentsize : (ehdrOf image).shentsize = hdrSize
  tableInside : (ehdrOf image).shoff + hdrSize * (ehdrOf image).shnum ≤ image.bytes.length
  strtabsInside : ∀ i < (ehdrOf image).shnum, (shdrAt image i).shType = shtStrtab →
    (shdrAt image i).shOffset + (shdrAt image i).shSize ≤ image.bytes.length ∧
      (shdrAt image i).shSize < 2 ^ 31
  shstrndx : (ehdrOf image).shstrndx < (ehdrOf image).shnum
  shstrtab : (shdrAt image (ehdrOf image).shstrndx).shType = shtStrtab
  named : ∀ i < (ehdrOf image).shnum,
    0 ∈ (contents image (ehdrOf image).shstrndx).drop (shdrAt image i).shName

/-- The node for section `i`. -/
def node (image : Image) (i : Nat) : Strtab :=
  ⟨i, (shdrAt image i).shSize, some (contents image i)⟩

/-- One node for each string table, the last one first. -/
def stringTables (image : Image) : List Strtab :=
  ((List.range (ehdrOf image).shnum).filter fun i =>
    (shdrAt image i).shType = shtStrtab).reverse.map (node image)

/-- The header of the first section named `.text`. -/
def textSection (image : Image) : Option Shdr :=
  ((List.range (ehdrOf image).shnum).find? fun i => sectionName image i = dotText).map (shdrAt image)

/-! ## Reads inside the file -/

theorem Stream.seek_image (f : Stream) (off : Nat) : (f.seek off).image = f.image := by
  unfold Stream.seek
  split <;> rfl

theorem Stream.after_image (f : Stream) (off size : Nat) : (f.after mem off size).image = f.image := by
  unfold Stream.after
  split <;> exact f.seek_image off

theorem phStream_image (image : Image) : (phStream mem image).image = image := by
  unfold phStream
  split
  · rfl
  · exact Stream.after_image _ _ _

theorem shStream_image (image : Image) : (shStream mem image).image = image :=
  (Stream.after_image _ _ _).trans (phStream_image image)

theorem tabStream_image (shdr : List Byte) (f : Stream) (i : Nat) :
    (tabStream mem shdr f i).image = f.image := by
  induction i with
  | zero => rfl
  | succ i ih =>
      unfold tabStream
      split
      · exact (Stream.after_image _ _ _).trans ih
      · exact ih

/-- A read that stays inside the file gets the bytes there, wherever the stream was. -/
theorem padded_inside {f : Stream} {off size : Nat} (h : off + size ≤ f.image.bytes.length) :
    f.padded off size = (f.image.bytes.drop off).take size := by
  have hlt := f.image.length_lt
  have hgot : (f.seek off).got size = (f.image.bytes.drop off).take size := by
    rw [Stream.got, Stream.seek_image, Stream.seek, if_pos (by omega)]
  have hlen : ((f.image.bytes.drop off).take size).length = size := by
    rw [List.length_take, List.length_drop]
    omega
  rw [Stream.padded, hgot, hlen, Nat.sub_self, List.replicate_zero, List.append_nil]

/-- A field of an entry of a table is the field of the entry. -/
theorem field_entry {l : List Byte} {num i off n : Nat} (hi : i < num) (hoff : off + n ≤ hdrSize) :
    field (l.take (hdrSize * num)) (hdrSize * i + off) n =
      field ((l.drop (hdrSize * i)).take hdrSize) off n := by
  have hentry : hdrSize * i + hdrSize ≤ hdrSize * num := by
    rw [← Nat.mul_succ]
    exact Nat.mul_le_mul_left hdrSize hi
  unfold field
  rw [List.drop_take, List.drop_take, List.take_take, List.take_take, List.drop_drop]
  congr 2
  omega

theorem ehdr_shnum_lt (image : Image) : (ehdrOf image).shnum < 2 ^ 16 := by
  have h := leNat_lt (((ehdrBytes image).drop 60).take 2)
  have hlen : (((ehdrBytes image).drop 60).take 2).length ≤ 2 := by
    rw [List.length_take]
    exact Nat.min_le_left _ _
  exact Nat.lt_of_lt_of_le h (Nat.pow_le_pow_right (by decide) hlen)

/-- An allocator that serves every request below 2 GiB loses no read. -/
theorem not_storesNull (hcalloc : ∀ n < 2 ^ 31, mem.calloc n = true) {size : Nat}
    (hsize : size < 2 ^ 31) (f : Stream) (off : Nat) : ¬ StoresNull mem f off size := by
  rintro ⟨hnull, -⟩
  rw [hcalloc size hsize] at hnull
  cases hnull

/-! ## The loader on a well-formed file -/

variable {image : Image} (hwf : WellFormed image)

namespace WellFormed

include hwf

theorem shSize_eq : shSize (ehdrOf image) = hdrSize * (ehdrOf image).shnum := by
  rw [shSize, hwf.shentsize]

theorem headers_eq :
    headers mem image = (image.bytes.drop (ehdrOf image).shoff).take (hdrSize * (ehdrOf image).shnum) := by
  have h := hwf.tableInside
  unfold headers
  rw [hwf.shSize_eq, padded_inside (by rw [phStream_image]; exact h), phStream_image]

/-- **The header table is the file's.** -/
theorem headers_field {i off n : Nat} (hi : i < (ehdrOf image).shnum) (hoff : off + n ≤ hdrSize) :
    field (headers mem image) (hdrSize * i + off) n =
      field ((image.bytes.drop ((ehdrOf image).shoff + hdrSize * i)).take hdrSize) off n := by
  rw [hwf.headers_eq, field_entry hi hoff, List.drop_drop]

theorem secName_eq {i : Nat} (hi : i < (ehdrOf image).shnum) :
    secName (headers mem image) i = (shdrAt image i).shName :=
  @headers_field mem image hwf i 0 4 hi (by decide)

theorem secType_eq {i : Nat} (hi : i < (ehdrOf image).shnum) :
    secType (headers mem image) i = (shdrAt image i).shType := hwf.headers_field hi (by decide)

theorem secOffset_eq {i : Nat} (hi : i < (ehdrOf image).shnum) :
    secOffset (headers mem image) i = (shdrAt image i).shOffset := hwf.headers_field hi (by decide)

theorem secSize_eq {i : Nat} (hi : i < (ehdrOf image).shnum) :
    secSize (headers mem image) i = (shdrAt image i).shSize := hwf.headers_field hi (by decide)

theorem headers_length : (headers mem image).length = hdrSize * (ehdrOf image).shnum :=
  (Stream.padded_length _ _ _).trans hwf.shSize_eq

/-- A header is in the table as a whole. -/
theorem header_inside {i : Nat} (hi : i < (ehdrOf image).shnum) :
    hdrSize * i + hdrSize ≤ (headers mem image).length := by
  rw [hwf.headers_length, ← Nat.mul_succ]
  exact Nat.mul_le_mul_left hdrSize hi

theorem header_eq {i : Nat} (hi : i < (ehdrOf image).shnum) : header (headers mem image) i = shdrAt image i := by
  have hin : hdrSize * i + hdrSize ≤ (headers mem image).length := hwf.header_inside hi
  rw [hwf.headers_length] at hin
  unfold header shdrAt
  rw [hwf.headers_eq, List.drop_take, List.take_take, List.drop_drop]
  congr 2
  omega

theorem headerInside {i : Nat} (hi : i < (ehdrOf image).shnum) : HeaderInside (headers mem image) i := by
  have hin : hdrSize * i + hdrSize ≤ (headers mem image).length := hwf.header_inside hi
  unfold hdrSize at hin
  refine ⟨?_, fun _ => ?_⟩
  · unfold hdrSize
    omega
  · unfold hdrSize
    omega

/-- The allocator has room for every table. -/
theorem shSize_lt : shSize (ehdrOf image) < 2 ^ 31 := by
  have hnum : (ehdrOf image).shnum < 2 ^ 16 := ehdr_shnum_lt _
  rw [hwf.shSize_eq, hdrSize]
  omega

variable (hcalloc : ∀ n < 2 ^ 31, mem.calloc n = true)

include hcalloc

/-- **A string table is read as a whole.** -/
theorem tabAt_eq {i : Nat} (hi : i < (ehdrOf image).shnum)
    (hty : (shdrAt image i).shType = shtStrtab) :
    tabAt mem (headers mem image) (shStream mem image) i = node image i := by
  obtain ⟨hin, hsize⟩ := hwf.strtabsInside i hi hty
  have himage : (tabStream mem (headers mem image) (shStream mem image) i).image = image :=
    (tabStream_image _ _ _).trans (shStream_image image)
  have hint : Int.bmod (shdrAt image i).shSize (2 ^ 32) = (shdrAt image i).shSize :=
    Int.bmod_eq_of_le (by omega) (by omega)
  unfold tabAt node contents
  rw [hwf.secOffset_eq hi, hwf.secSize_eq hi, hint, buffer, if_pos (hcalloc _ hsize),
    padded_inside (by rw [himage]; exact hin), himage]

theorem not_tabNull {i : Nat} (hi : i < (ehdrOf image).shnum) :
    ¬ TabNull mem (headers mem image) (shStream mem image) i := by
  rintro ⟨hty, hnull⟩
  rw [hwf.secType_eq hi] at hty
  rw [hwf.secSize_eq hi] at hnull
  exact not_storesNull hcalloc (hwf.strtabsInside i hi hty).2 _ _ hnull

/-- **The list of string tables.** -/
theorem tabs_wellFormed :
    tabs mem (headers mem image) (shStream mem image) (ehdrOf image).shnum = stringTables image := by
  unfold stringTables
  generalize hn : (ehdrOf image).shnum = n
  have hle : n ≤ (ehdrOf image).shnum := hn.ge
  clear hn
  induction n with
  | zero => rfl
  | succ n ih =>
      rw [tabs, ih (by omega), List.range_succ, List.filter_append, List.reverse_append, List.map_append,
        hwf.secType_eq hle]
      by_cases hty : (shdrAt image n).shType = shtStrtab
      · rw [if_pos hty, hwf.tabAt_eq hcalloc hle hty]
        simp [hty]
      · rw [if_neg hty]
        simp [hty]

omit hcalloc

/-- **A section is named `.text`** when the search finds it so. -/
theorem namedText_iff {i : Nat} (hi : i < (ehdrOf image).shnum) :
    NamedText (headers mem image) (some (contents image (ehdrOf image).shstrndx)) i ↔
      sectionName image i = dotText := by
  unfold NamedText sectionName
  rw [hwf.secName_eq hi]
  exact terminated_prefix_iff (by decide) (hwf.named i hi)

theorem not_nameCut {i : Nat} (hi : i < (ehdrOf image).shnum) :
    ¬ NameCut (headers mem image) (some (contents image (ehdrOf image).shstrndx)) i := by
  rintro ⟨hname, hcut⟩
  unfold NamedText at hname
  rw [hwf.secName_eq hi] at hname hcut
  exact hname (terminated_not_cut (by decide) (hwf.named i hi) hcut)

/-- The search from section `i` on. -/
theorem findText_from {t : Strtab} (ht : t.data = some (contents image (ehdrOf image).shstrndx)) (n i : Nat)
    (hin : i + n = (ehdrOf image).shnum) :
    findText (headers mem image) (some t) i n =
      .ok (((List.range' i n).find? fun i => sectionName image i = dotText).map (shdrAt image)) := by
  induction n generalizing i with
  | zero => rfl
  | succ n ih =>
      have hi : i < (ehdrOf image).shnum := by omega
      have hwhole : hdrSize * i + hdrSize ≤ (headers mem image).length := hwf.header_inside hi
      rw [findText_succ n (by unfold hdrSize at hwhole ⊢; omega), ht, if_neg (hwf.not_nameCut hi),
        List.range'_succ, List.find?_cons]
      by_cases hname : sectionName image i = dotText
      · rw [if_pos ((hwf.namedText_iff hi).mpr hname), if_pos hwhole, hwf.header_eq hi]
        simp [hname]
      · rw [if_neg (mt (hwf.namedText_iff hi).mp hname), ih (i + 1) (by omega)]
        simp [hname]

/-- **The search.** -/
theorem findText_wellFormed :
    findText (headers mem image) (some (node image (ehdrOf image).shstrndx)) 0 (ehdrOf image).shnum =
      .ok (textSection image) := by
  rw [hwf.findText_from rfl _ 0 (Nat.zero_add _), ← List.range_eq_range']
  rfl

theorem elfOpen_eq (e : Handle) : ∃ e', elfOpen e image = some e' := by
  have hmagic : (ehdrBytes image).take 4 = elfmag := by
    have h64 : 4 ≤ (image.bytes.take hdrSize).length := by
      rw [List.length_take]
      exact Nat.le_min.mpr ⟨by decide, Nat.le_trans (by decide) hwf.whole⟩
    rw [ehdrBytes, List.take_append_of_le_length h64, List.take_take]
    exact hwf.magic
  unfold elfOpen
  rw [if_pos hmagic]
  exact ⟨_, rfl⟩

include hcalloc

/-- **The load of a well-formed file.** -/
theorem load_eq {e : Handle} (h : Opened e image) : ∃ e', load mem e = .ok (e', textSection image) ∧
    e'.strtab = stringTables image ∧
    findTab e' = some (node image (ehdrOf image).shstrndx) := by
  have hstr := hwf.shstrndx
  -- the program headers are read and not used again
  have hph : ∃ e₁, loadPhdr mem e (opened image) = .ok (e₁, phStream mem image) ∧
      e₁.shCnt = e.shCnt ∧ e₁.ehdr = e.ehdr ∧ e₁.shStridx = e.shStridx := by
    have hnull : ¬ PhNull mem image := not_storesNull hcalloc hwf.phSmall _ _
    rw [loadPhdr_opened h]
    by_cases hnum : (ehdrOf image).phnum = 0
    · rw [if_pos hnum]
      exact ⟨e, rfl, rfl, rfl, rfl⟩
    · rw [if_neg hnum, if_pos hwf.phSmall, if_neg hnull]
      exact ⟨_, rfl, rfl, rfl, rfl⟩
  obtain ⟨e₁, hload, hcnt, hehdr, hidx⟩ := hph
  have hsh : loadShdr mem e₁ (phStream mem image) =
      .ok ({ e₁ with shdr := some (headers mem image) }, shStream mem image) := by
    have hnull : ¬ ShNull mem image := not_storesNull hcalloc hwf.shSize_lt _ _
    rw [loadShdr_opened (hcnt.trans h.shCnt) (hehdr.trans h.ehdr), if_neg (by omega),
      if_pos hwf.shSize_lt, if_neg hnull]
    unfold shdrs
    rw [buffer, if_pos (hcalloc _ hwf.shSize_lt)]
    rfl
  -- the loop goes through, since no header is outside and no table is stored through a null pointer
  have hloop : strtabLoop mem (headers mem image) (shStream mem image) (ehdrOf image).shnum =
      .ok (stringTables image, tabStream mem (headers mem image) (shStream mem image) (ehdrOf image).shnum) := by
    rcases strtabLoop_cases mem (headers mem image) (shStream mem image) (ehdrOf image).shnum with
      ⟨hloop, -, -⟩ | ⟨-, j, hj, hnull, -⟩ | ⟨j, hj, -, hout, -⟩
    · rw [hloop, hwf.tabs_wellFormed hcalloc]
    · exact absurd hnull (hwf.not_tabNull hcalloc hj)
    · exact absurd (hwf.headerInside hj) hout
  have hfind : (stringTables image).find? (fun tab => tab.id = (ehdrOf image).shstrndx) =
      some (node image (ehdrOf image).shstrndx) := by
    have hty : secType (headers mem image) (ehdrOf image).shstrndx = shtStrtab :=
      (hwf.secType_eq hstr).trans hwf.shstrtab
    rw [← hwf.tabs_wellFormed hcalloc, find_tabs, if_pos ⟨hstr, hty⟩,
      hwf.tabAt_eq hcalloc hstr hwf.shstrtab]
  have hcnt' : e₁.shCnt = (ehdrOf image).shnum := hcnt.trans h.shCnt
  have hidx' : e₁.shStridx = (ehdrOf image).shstrndx := hidx.trans h.shStridx
  refine ⟨{ e₁ with
    file := some (tabStream mem (headers mem image) (shStream mem image) (ehdrOf image).shnum)
    shdr := some (headers mem image)
    strtab := stringTables image }, ?_, rfl, ?_⟩
  · simp only [load_opened h, hload, Except.bind, hsh]
    rw [loadSections_some (e := { e₁ with shdr := some (headers mem image) }) rfl]
    simp only [hcnt', hidx', hloop, Except.bind, hfind, hwf.findText_wellFormed]
    rfl
  · unfold findTab
    simp only [hidx']
    exact hfind

end WellFormed

end AdvUnix.Elf
