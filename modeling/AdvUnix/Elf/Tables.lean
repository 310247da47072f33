import AdvUnix.Elf.Loader
import AdvUnix.Lib.CString

/-!
# `Elf.Tables` — what the loader reads

One equation or one case analysis for each function of the loader, in terms of the file: `Stream.padded`
is what a read leaves in a zeroed buffer, `Stream.after` where it leaves the stream. A stream that is asked
to seek beyond `2 ^ 63` stays where the read before it ended, so what a table holds can depend on all reads
before it.
-/

namespace AdvUnix.Elf

open ByteStore CString

variable {mem : Memory} {f : Stream} {off size : Nat} {shdr : List Byte}

/-! ## Reads -/

/-- The stream after a read of `size` bytes at `off`: a read that finds no buffer does not move it. -/
def Stream.after (mem : Memory) (f : Stream) (off size : Nat) : Stream :=
  if mem.calloc size then { f.seek off with pos := (f.seek off).pos + ((f.seek off).got size).length }
  else f.seek off

/-- The zeroed buffer of `size` bytes after that read. -/
def Stream.padded (f : Stream) (off size : Nat) : List Byte :=
  (f.seek off).got size ++ List.replicate (size - ((f.seek off).got size).length) 0

/-- The read stores bytes through a null pointer. -/
def StoresNull (mem : Memory) (f : Stream) (off size : Nat) : Prop :=
  mem.calloc size = false ∧ (f.seek off).got size ≠ [] ∧ mem.nullFails (f.seek off) size = false

instance : Decidable (StoresNull mem f off size) :=
  inferInstanceAs (Decidable (mem.calloc size = false ∧ (f.seek off).got size ≠ [] ∧ _ = false))

/-- The buffer, null when the allocator has none. -/
def buffer (mem : Memory) (f : Stream) (off size : Nat) : Option (List Byte) :=
  if mem.calloc size then some (f.padded off size) else none

theorem Stream.got_length_le (f : Stream) (size : Nat) : (f.got size).length ≤ size := by
  unfold Stream.got
  rw [List.length_take]
  exact Nat.min_le_left _ _

theorem Stream.padded_length (f : Stream) (off size : Nat) : (f.padded off size).length = size := by
  unfold Stream.padded
  rw [List.length_append, List.length_replicate]
  have := (f.seek off).got_length_le size
  omega

/-- **A read** into a buffer from `calloc`. -/
theorem fread_calloc (mem : Memory) (f : Stream) (off size : Nat) :
    fread mem (f.seek off) (callocBytes mem size) size =
      if StoresNull mem f off size then .error .nullWrite
      else .ok (buffer mem f off size, f.after mem off size) := by
  unfold fread callocBytes buffer Stream.after
  by_cases hc : mem.calloc size = true
  · rw [if_pos hc, if_pos hc, if_pos hc, if_neg (fun h => by rw [h.1] at hc; cases hc)]
    simp only [List.drop_replicate]
    rfl
  · have hc' : mem.calloc size = false := by simpa using hc
    rw [if_neg hc, if_neg hc, if_neg hc]
    by_cases hfails : (f.seek off).got size = [] ∨ mem.nullFails (f.seek off) size
    · rw [if_neg (fun h => hfails.elim h.2.1 fun hf => by rw [h.2.2] at hf; cases hf)]
      simp only [if_pos hfails]
    · obtain ⟨hgot, hnull⟩ := not_or.mp hfails
      rw [if_pos ⟨hc', hgot, by simpa using hnull⟩]
      simp only [if_neg hfails]

/-- **A table of headers.** -/
theorem loadTable_eq (mem : Memory) (f : Stream) (off entsize num : Nat) :
    loadTable mem f off entsize num =
      if entsize * num < 2 ^ 31 then
        if StoresNull mem f off (entsize * num) then .error .nullWrite
        else .ok (buffer mem f off (entsize * num), f.after mem off (entsize * num))
      else .error .intOverflow := by
  unfold loadTable mulInt
  by_cases hsize : entsize * num < 2 ^ 31
  · rw [if_pos hsize, if_pos hsize]
    exact fread_calloc mem f off (entsize * num)
  · rw [if_neg hsize, if_neg hsize]
    rfl

/-! ## Section headers -/

/-- The fields of section header `i` in a table. -/
def secName (shdr : List Byte) (i : Nat) : Nat := field shdr (hdrSize * i) 4
def secType (shdr : List Byte) (i : Nat) : Nat := field shdr (hdrSize * i + 4) 4
def secOffset (shdr : List Byte) (i : Nat) : Nat := field shdr (hdrSize * i + 24) 8
def secSize (shdr : List Byte) (i : Nat) : Nat := field shdr (hdrSize * i + 32) 8

/-- The fields that `load_strtab` reads of header `i` are in the table. -/
def HeaderInside (shdr : List Byte) (i : Nat) : Prop :=
  hdrSize * i + 8 ≤ shdr.length ∧ (secType shdr i = shtStrtab → hdrSize * i + 40 ≤ shdr.length)

theorem shField_inside {i off n : Nat} (h : hdrSize * i + off + n ≤ shdr.length) :
    shField shdr i off n = .ok (field shdr (hdrSize * i + off) n) := if_pos h

theorem shField_outside {i off n : Nat} (h : ¬ hdrSize * i + off + n ≤ shdr.length) :
    shField shdr i off n = .error (.shdrOutside i) := if_neg h

/-! ## String tables -/

/-- The stream when header `i` is looked at. -/
def tabStream (mem : Memory) (shdr : List Byte) (f : Stream) : Nat → Stream
  | 0 => f
  | i + 1 =>
      if secType shdr i = shtStrtab then
        (tabStream mem shdr f i).after mem (secOffset shdr i) (secSize shdr i)
      else tabStream mem shdr f i

/-- The string table that header `i` describes. -/
def tabAt (mem : Memory) (shdr : List Byte) (f : Stream) (i : Nat) : Strtab :=
  ⟨i, Int.bmod (secSize shdr i) (2 ^ 32),
    buffer mem (tabStream mem shdr f i) (secOffset shdr i) (secSize shdr i)⟩

/-- The list of string tables after `n` headers. -/
def tabs (mem : Memory) (shdr : List Byte) (f : Stream) : Nat → List Strtab
  | 0 => []
  | n + 1 =>
      if secType shdr n = shtStrtab then tabAt mem shdr f n :: tabs mem shdr f n
      else tabs mem shdr f n

/-- The content of header `i`'s string table is stored through a null pointer. -/
def TabNull (mem : Memory) (shdr : List Byte) (f : Stream) (i : Nat) : Prop :=
  secType shdr i = shtStrtab ∧
    StoresNull mem (tabStream mem shdr f i) (secOffset shdr i) (secSize shdr i)

/-- The loop of `load_strtab` over `n` headers. -/
def strtabLoop (mem : Memory) (shdr : List Byte) (f : Stream) (n : Nat) :
    Except Fault (List Strtab × Stream) :=
  (List.range n).foldlM (loadStrtabStep mem shdr) ([], f)

theorem strtabLoop_succ (n : Nat) : strtabLoop mem shdr f (n + 1) =
    (strtabLoop mem shdr f n).bind fun acc => loadStrtabStep mem shdr acc n := by
  unfold strtabLoop
  rw [List.range_succ, List.foldlM_append]
  cases (List.range n).foldlM (loadStrtabStep mem shdr) ([], f) with
  | error e => rfl
  | ok acc =>
      simp only [bind, Except.bind, List.foldlM_cons, List.foldlM_nil]
      cases loadStrtabStep mem shdr acc n <;> rfl

/-- One turn, on a header whose fields are in the table. -/
theorem loadStrtabStep_inside {acc : List Strtab × Stream} {i : Nat} (h : HeaderInside shdr i) :
    loadStrtabStep mem shdr acc i =
      if secType shdr i = shtStrtab then
        if StoresNull mem acc.2 (secOffset shdr i) (secSize shdr i) then .error .nullWrite
        else .ok (⟨i, Int.bmod (secSize shdr i) (2 ^ 32),
          buffer mem acc.2 (secOffset shdr i) (secSize shdr i)⟩ :: acc.1,
          acc.2.after mem (secOffset shdr i) (secSize shdr i))
      else .ok acc := by
  obtain ⟨hty, hrest⟩ := h
  unfold loadStrtabStep
  rw [shField_inside (by omega)]
  simp only [bind, Except.bind]
  by_cases htab : secType shdr i = shtStrtab
  · have hin := hrest htab
    unfold secType at htab
    rw [if_neg (fun hne => hne htab), if_pos (show secType shdr i = shtStrtab from htab)]
    rw [shField_inside (by omega), shField_inside (by omega)]
    simp only
    rw [show field shdr (hdrSize * i + 24) 8 = secOffset shdr i from rfl,
      show field shdr (hdrSize * i + 32) 8 = secSize shdr i from rfl, fread_calloc]
    by_cases hnull : StoresNull mem acc.2 (secOffset shdr i) (secSize shdr i)
    · rw [if_pos hnull, if_pos hnull]
    · rw [if_neg hnull, if_neg hnull]
  · rw [if_neg htab]
    exact if_pos htab

/-- One turn, on a header that is not. -/
theorem loadStrtabStep_outside {acc : List Strtab × Stream} {i : Nat} (h : ¬ HeaderInside shdr i) :
    loadStrtabStep mem shdr acc i = .error (.shdrOutside i) := by
  unfold loadStrtabStep
  by_cases hty : hdrSize * i + 4 + 4 ≤ shdr.length
  · rw [shField_inside hty]
    simp only [bind, Except.bind]
    have htab : secType shdr i = shtStrtab := by
      by_contra hne
      exact h ⟨hty, fun he => absurd he hne⟩
    -- the type is inside, so it is the offset or the size that is not
    have hout : ¬ hdrSize * i + 32 + 8 ≤ shdr.length := fun hin => h ⟨hty, fun _ => hin⟩
    rw [if_neg (fun hne => hne htab), shField_outside hout]
  · rw [shField_outside hty]
    rfl

/-- **The loop of `load_strtab`**: it reads all tables, or it ends at the first access that it must not
    make. -/
theorem strtabLoop_cases (mem : Memory) (shdr : List Byte) (f : Stream) (n : Nat) :
    (strtabLoop mem shdr f n = .ok (tabs mem shdr f n, tabStream mem shdr f n) ∧
        (∀ i < n, HeaderInside shdr i) ∧ ∀ i < n, ¬ TabNull mem shdr f i) ∨
      (strtabLoop mem shdr f n = .error .nullWrite ∧
        ∃ j < n, TabNull mem shdr f j ∧ ∀ i ≤ j, HeaderInside shdr i) ∨
      ∃ j < n, strtabLoop mem shdr f n = .error (.shdrOutside j) ∧ ¬ HeaderInside shdr j ∧
        ∀ i < j, ¬ TabNull mem shdr f i := by
  induction n with
  | zero => exact Or.inl ⟨rfl, fun i hi => by omega, fun i hi => by omega⟩
  | succ n ih =>
      rw [strtabLoop_succ]
      rcases ih with ⟨hloop, hin, hnull⟩ | ⟨hloop, j, hj, hnull, hin⟩ | ⟨j, hj, hloop, hout, hnull⟩
      · rw [hloop, Except.bind]
        by_cases hinside : HeaderInside shdr n
        · have hall : ∀ i < n + 1, HeaderInside shdr i := by
            intro i hi
            rcases Nat.lt_succ_iff_lt_or_eq.mp hi with hlt | rfl
            · exact hin i hlt
            · exact hinside
          rw [loadStrtabStep_inside hinside]
          by_cases htab : secType shdr n = shtStrtab
          · rw [if_pos htab]
            by_cases hstores :
                StoresNull mem (tabStream mem shdr f n) (secOffset shdr n) (secSize shdr n)
            · rw [if_pos hstores]
              exact Or.inr (Or.inl ⟨rfl, n, Nat.lt_succ_self n, ⟨htab, hstores⟩,
                fun i hi => hall i (Nat.lt_succ_of_le hi)⟩)
            · rw [if_neg hstores]
              refine Or.inl ⟨?_, hall, fun i hi htn => ?_⟩
              · simp only [tabs, tabStream, if_pos htab]
                rfl
              · rcases Nat.lt_succ_iff_lt_or_eq.mp hi with hlt | rfl
                · exact hnull i hlt htn
                · exact hstores htn.2
          · rw [if_neg htab]
            refine Or.inl ⟨?_, hall, fun i hi htn => ?_⟩
            · simp only [tabs, tabStream, if_neg htab]
            · rcases Nat.lt_succ_iff_lt_or_eq.mp hi with hlt | rfl
              · exact hnull i hlt htn
              · exact htab htn.1
        · rw [loadStrtabStep_outside hinside]
          exact Or.inr (Or.inr ⟨n, Nat.lt_succ_self n, rfl, hinside, hnull⟩)
      · -- a loop that has ended before turn `n` stays as it ended
        rw [hloop]
        exact Or.inr (Or.inl ⟨rfl, j, Nat.lt_succ_of_lt hj, hnull, hin⟩)
      · rw [hloop]
        exact Or.inr (Or.inr ⟨j, Nat.lt_succ_of_lt hj, rfl, hout, hnull⟩)

/-- The table with an index among those that have been read. -/
theorem find_tabs (mem : Memory) (shdr : List Byte) (f : Stream) (n id : Nat) :
    (tabs mem shdr f n).find? (fun tab => tab.id = id) =
      if id < n ∧ secType shdr id = shtStrtab then some (tabAt mem shdr f id) else none := by
  induction n with
  | zero => exact (if_neg fun h => absurd h.1 (Nat.not_lt_zero id)).symm
  | succ n ih =>
      by_cases htab : secType shdr n = shtStrtab
      · simp only [tabs, if_pos htab]
        by_cases hid : n = id
        · subst hid
          rw [List.find?_cons_of_pos (by simp [tabAt]), if_pos ⟨Nat.lt_succ_self n, htab⟩]
        · rw [List.find?_cons_of_neg (by simp [tabAt, hid]), ih]
          exact if_congr ⟨fun h => ⟨Nat.lt_succ_of_lt h.1, h.2⟩, fun h => ⟨by omega, h.2⟩⟩ rfl rfl
      · simp only [tabs, if_neg htab]
        rw [ih]
        refine if_congr ⟨fun h => ⟨Nat.lt_succ_of_lt h.1, h.2⟩, fun h => ⟨?_, h.2⟩⟩ rfl rfl
        have hne : id ≠ n := fun he => htab (he ▸ h.2)
        omega

/-! ## Names -/

/-- What is left of a table from an offset on. -/
def rest (data : Option (List Byte)) (off : Nat) : List Byte := (data.getD []).drop off

theorem nameByte_eq (data : Option (List Byte)) (off : Nat) : nameByte data off =
    match rest data off with
    | [] => .error .nameOutside
    | b :: _ => .ok b := by
  have hget : data.bind (·[off]?) = (rest data off)[0]? := by
    unfold rest
    rw [List.getElem?_drop]
    cases data with
    | none => rfl
    | some bs => rfl
  unfold nameByte
  rw [hget]
  cases rest data off <;> rfl

theorem rest_succ {data : Option (List Byte)} {off : Nat} {b : Byte} {bs : List Byte}
    (h : rest data off = b :: bs) : rest data (off + 1) = bs := by
  unfold rest at h ⊢
  rw [← List.drop_drop, h]
  rfl

/-- **`strcmp`** by prefixes: the string is there, or the table ends inside it, or a byte differs. -/
theorem strcmpEq_cases (data : Option (List Byte)) (off : Nat) (lit : List Byte) :
    (terminated 0 lit <+: rest data off ∧ strcmpEq data off lit = .ok true) ∨
      (¬ terminated 0 lit <+: rest data off ∧ rest data off <+: terminated 0 lit ∧
        strcmpEq data off lit = .error .nameOutside) ∨
      (¬ terminated 0 lit <+: rest data off ∧ ¬ rest data off <+: terminated 0 lit ∧
        strcmpEq data off lit = .ok false) := by
  induction lit generalizing off with
  | nil =>
      simp only [strcmpEq, nameByte_eq]
      cases hrest : rest data off with
      | nil => exact Or.inr (Or.inl ⟨by simp [terminated], List.nil_prefix, rfl⟩)
      | cons b bs =>
          by_cases hb : b = 0
          · subst hb
            exact Or.inl ⟨by simp [terminated], rfl⟩
          · refine Or.inr (Or.inr ⟨?_, ?_, ?_⟩)
            · exact fun h => hb (List.cons_prefix_cons.mp h).1.symm
            · exact fun h => hb (List.cons_prefix_cons.mp h).1
            · exact congrArg Except.ok (decide_eq_false hb)
  | cons c cs ih =>
      simp only [strcmpEq, nameByte_eq]
      cases hrest : rest data off with
      | nil => exact Or.inr (Or.inl ⟨by simp [terminated], List.nil_prefix, rfl⟩)
      | cons b bs =>
          by_cases hb : b = c
          · subst hb
            -- equal bytes: the rest decides
            have hnext := ih (off + 1)
            rw [rest_succ hrest] at hnext
            simp only [bind, Except.bind, if_true, terminated, List.cons_append,
              List.prefix_cons_inj] at hnext ⊢
            exact hnext
          · refine Or.inr (Or.inr ⟨?_, ?_, ?_⟩)
            · simp [terminated, List.cons_prefix_cons, Ne.symm hb]
            · simp [terminated, List.cons_prefix_cons, hb]
            · simp [bind, Except.bind, hb]

/-! ## The search for `.text` -/

/-- Section `i` has exactly the name `.text` in a string table. -/
def NamedText (shdr : List Byte) (data : Option (List Byte)) (i : Nat) : Prop :=
  terminated 0 dotText <+: rest data (secName shdr i)

/-- The string table ends inside the name of section `i`, which is `.text` as far as it goes. -/
def NameCut (shdr : List Byte) (data : Option (List Byte)) (i : Nat) : Prop :=
  ¬ NamedText shdr data i ∧ rest data (secName shdr i) <+: terminated 0 dotText

instance (shdr : List Byte) (data : Option (List Byte)) (i : Nat) : Decidable (NamedText shdr data i) :=
  inferInstanceAs (Decidable (_ <+: _))

instance (shdr : List Byte) (data : Option (List Byte)) (i : Nat) : Decidable (NameCut shdr data i) :=
  inferInstanceAs (Decidable (_ ∧ _))

/-- Section header `i` of a table. -/
def header (shdr : List Byte) (i : Nat) : Shdr :=
  Shdr.ofBytes ((shdr.drop (hdrSize * i)).take hdrSize)

/-- **One turn of the search**, on a header whose `sh_name` is in the table. -/
theorem findText_succ {t : Strtab} {i : Nat} (n : Nat) (hin : hdrSize * i + 4 ≤ shdr.length) :
    findText shdr (some t) i (n + 1) =
      if NameCut shdr t.data i then .error .nameOutside
      else if NamedText shdr t.data i then
        if hdrSize * i + hdrSize ≤ shdr.length then .ok (some (header shdr i))
        else .error (.shdrOutside i)
      else findText shdr (some t) (i + 1) n := by
  rw [findText, shField_inside (by omega)]
  simp only [bind, Except.bind]
  rw [show field shdr (hdrSize * i + 0) 4 = secName shdr i from rfl]
  rcases strcmpEq_cases t.data (secName shdr i) dotText with
    ⟨hname, hcmp⟩ | ⟨hname, hcut, hcmp⟩ | ⟨hname, hcut, hcmp⟩
  · rw [hcmp, if_neg (fun h : NameCut shdr t.data i => h.1 hname),
      if_pos (show NamedText shdr t.data i from hname)]
    rfl
  · rw [hcmp, if_pos (show NameCut shdr t.data i from ⟨hname, hcut⟩)]
  · rw [hcmp, if_neg (fun h : NameCut shdr t.data i => hcut h.2),
      if_neg (show ¬ NamedText shdr t.data i from hname)]
    rfl

/-! ## A file that has been opened -/

/-- The stream after the file header has been read. -/
def opened (image : Image) : Stream := ⟨image, (image.bytes.take hdrSize).length⟩

/-- The sizes of the two header tables. -/
def phSize (h : Ehdr) : Nat := h.phentsize * h.phnum
def shSize (h : Ehdr) : Nat := h.shentsize * h.shnum

/-- The stream after the program headers have been read. -/
def phStream (mem : Memory) (image : Image) : Stream :=
  if (ehdrOf image).phnum = 0 then opened image
  else (opened image).after mem (ehdrOf image).phoff (phSize (ehdrOf image))

/-- The section headers of a file, and the stream after them. -/
def headers (mem : Memory) (image : Image) : List Byte :=
  (phStream mem image).padded (ehdrOf image).shoff (shSize (ehdrOf image))
def shStream (mem : Memory) (image : Image) : Stream :=
  (phStream mem image).after mem (ehdrOf image).shoff (shSize (ehdrOf image))

/-- The program headers, or the section headers, are stored through a null pointer. -/
def PhNull (mem : Memory) (image : Image) : Prop :=
  StoresNull mem (opened image) (ehdrOf image).phoff (phSize (ehdrOf image))
def ShNull (mem : Memory) (image : Image) : Prop :=
  StoresNull mem (phStream mem image) (ehdrOf image).shoff (shSize (ehdrOf image))

instance (mem : Memory) (image : Image) : Decidable (PhNull mem image) :=
  inferInstanceAs (Decidable (StoresNull _ _ _ _))

instance (mem : Memory) (image : Image) : Decidable (ShNull mem image) :=
  inferInstanceAs (Decidable (StoresNull _ _ _ _))

/-- A handle on a file that `elf_open` has accepted. -/
structure Opened (e : Handle) (image : Image) : Prop where
  file : e.file = some (opened image)
  ehdr : e.ehdr = ehdrOf image
  phCnt : e.phCnt = (ehdrOf image).phnum
  shCnt : e.shCnt = (ehdrOf image).shnum
  shStridx : e.shStridx = (ehdrOf image).shstrndx

theorem elfOpen_opened {e e' : Handle} {image : Image} (h : elfOpen e image = some e') :
    Opened e' image := by
  unfold elfOpen at h
  split at h
  · cases h
    exact ⟨rfl, rfl, rfl, rfl, rfl⟩
  · cases h

variable {e : Handle} {image : Image}

/-- The header tables in memory. -/
def phdrs (mem : Memory) (image : Image) : Option (List Byte) :=
  buffer mem (opened image) (ehdrOf image).phoff (phSize (ehdrOf image))
def shdrs (mem : Memory) (image : Image) : Option (List Byte) :=
  buffer mem (phStream mem image) (ehdrOf image).shoff (shSize (ehdrOf image))

/-- The program headers of an opened file. -/
theorem loadPhdr_opened (h : Opened e image) : loadPhdr mem e (opened image) =
    if (ehdrOf image).phnum = 0 then .ok (e, phStream mem image)
    else if phSize (ehdrOf image) < 2 ^ 31 then
      if PhNull mem image then .error .nullWrite
      else .ok ({ e with phdr := phdrs mem image }, phStream mem image)
    else .error .intOverflow := by
  have htable : loadTable mem (opened image) (ehdrOf image).phoff (ehdrOf image).phentsize
      (ehdrOf image).phnum =
        if phSize (ehdrOf image) < 2 ^ 31 then
          if PhNull mem image then .error .nullWrite
          else .ok (phdrs mem image, (opened image).after mem (ehdrOf image).phoff (phSize (ehdrOf image)))
        else .error .intOverflow := loadTable_eq _ _ _ _ _
  unfold loadPhdr phStream
  rw [h.phCnt, h.ehdr, htable]
  by_cases hnum : (ehdrOf image).phnum = 0
  · rw [if_pos hnum, if_pos hnum, if_pos hnum]
  · rw [if_neg hnum, if_neg hnum, if_neg hnum]
    by_cases hsize : phSize (ehdrOf image) < 2 ^ 31
    · rw [if_pos hsize, if_pos hsize]
      by_cases hnull : PhNull mem image
      · rw [if_pos hnull, if_pos hnull]
        rfl
      · rw [if_neg hnull, if_neg hnull]
        rfl
    · rw [if_neg hsize, if_neg hsize]
      rfl

/-- The section headers, once the program headers have been read. -/
theorem loadShdr_opened (hcnt : e.shCnt = (ehdrOf image).shnum) (hehdr : e.ehdr = ehdrOf image) :
    loadShdr mem e (phStream mem image) =
      if (ehdrOf image).shnum = 0 then .ok (e, phStream mem image)
      else if shSize (ehdrOf image) < 2 ^ 31 then
        if ShNull mem image then .error .nullWrite
        else .ok ({ e with shdr := shdrs mem image }, shStream mem image)
      else .error .intOverflow := by
  have htable : loadTable mem (phStream mem image) (ehdrOf image).shoff (ehdrOf image).shentsize
      (ehdrOf image).shnum =
        if shSize (ehdrOf image) < 2 ^ 31 then
          if ShNull mem image then .error .nullWrite else .ok (shdrs mem image, shStream mem image)
        else .error .intOverflow := loadTable_eq _ _ _ _ _
  unfold loadShdr
  rw [hcnt, hehdr, htable]
  by_cases hnum : (ehdrOf image).shnum = 0
  · rw [if_pos hnum, if_pos hnum]
  · rw [if_neg hnum, if_neg hnum]
    by_cases hsize : shSize (ehdrOf image) < 2 ^ 31
    · rw [if_pos hsize, if_pos hsize]
      by_cases hnull : ShNull mem image
      · rw [if_pos hnull, if_pos hnull]
        rfl
      · rw [if_neg hnull, if_neg hnull]
        rfl
    · rw [if_neg hsize, if_neg hsize]
      rfl

/-! ## The rest of the load -/

/-- What `load` does once the two header tables have been read. -/
def loadSections (mem : Memory) (e : Handle) (f : Stream) :
    Except Fault (Handle × Option Shdr) := do
  let (e, f) ← loadStrtab mem e f
  let text ← searchText { e with file := some f }
  .ok ({ e with file := some f }, text)

theorem load_opened (h : Opened e image) : load mem e =
    (loadPhdr mem e (opened image)).bind fun (e, f) =>
      (loadShdr mem e f).bind fun (e, f) => loadSections mem e f := by
  unfold load elfLoad loadSections
  rw [h.file]
  simp only [bind]
  cases loadPhdr mem e (opened image) with
  | error e => rfl
  | ok r =>
      simp only [Except.bind]
      cases loadShdr mem r.1 r.2 with
      | error e => rfl
      | ok r =>
          simp only
          cases loadStrtab mem r.1 r.2 <;> rfl

/-- A file without sections: an earlier header table, if there is one, is not looked at. -/
theorem loadSections_none {f : Stream} (hcnt : e.shCnt = 0) :
    loadSections mem e f = .ok ({ e with file := some f, strtab := [] }, none) := by
  unfold loadSections loadStrtab searchText
  cases e.shdr <;> simp only [hcnt] <;> rfl

/-- The header table could not be allocated and the file has no byte of it. -/
theorem loadSections_null {f : Stream} (hcnt : e.shCnt ≠ 0) (hnull : e.shdr = none) :
    loadSections mem e f = .error .noStrtab := by
  obtain ⟨n, hn⟩ := Nat.exists_eq_succ_of_ne_zero hcnt
  unfold loadSections loadStrtab searchText
  rw [hnull]
  simp only [bind, Except.bind]
  rw [hn]
  rfl

theorem loadSections_some {f : Stream} (hshdr : e.shdr = some shdr) :
    loadSections mem e f = (strtabLoop mem shdr f e.shCnt).bind fun (strtab, f) =>
      (findText shdr (strtab.find? fun tab => tab.id = e.shStridx) 0 e.shCnt).map fun text =>
        ({ e with file := some f, strtab := strtab }, text) := by
  unfold loadSections loadStrtab searchText strtabLoop
  rw [hshdr]
  simp only [bind, Except.bind]
  cases (List.range e.shCnt).foldlM (loadStrtabStep mem shdr) ([], f) with
  | error e => rfl
  | ok r =>
      simp only [findTab, Option.getD_some]
      cases findText shdr (r.1.find? fun tab => tab.id = e.shStridx) 0 e.shCnt <;> rfl

end AdvUnix.Elf
