import AdvUnix.Lsof.Maps

/-!
# `Lsof.MappedFiles` — what the files that are mapped become

`/proc/PID/maps` as the kernel writes it, read by `get_mem_info`. `inRange_tokens_iff` says which lines can be
read at all, `lineName_tokens_iff` for which of these the name is the path. Lines of different files that have
the same inode number become one row: `no_mapped_file_lost_iff`.
-/

namespace AdvUnix.Lsof

open Words Firsts Sdb

/-! ## Names -/

theorem unmarked_eq {ws : List Token} (h : deletedMark ∉ ws) : unmarked ws = ws := by
  refine List.takeWhile_eq_self_iff.mpr fun w hw => ?_
  have hne : w ≠ deletedMark := fun he => h (he ▸ hw)
  simpa using hne

theorem unmarked_append_mark (ws : List Token) : unmarked (ws ++ [deletedMark]) = unmarked ws := by
  induction ws with
  | nil => exact unmarked_mark []
  | cons w ws ih =>
      by_cases hw : w = deletedMark
      · subst hw
        rw [List.cons_append, unmarked_mark, unmarked_mark]
      · rw [List.cons_append, unmarked_cons hw, unmarked_cons hw, ih]

/-- A mark that is a word of the path cuts the name short. -/
theorem spaced_unmarked_ne {ws : List Token} (w : Token) (h : deletedMark ∈ ws) :
    spaced (w :: unmarked ws) ≠ spaced (w :: ws) := by
  have hsplit : ws = unmarked ws ++ ws.dropWhile (· ≠ deletedMark) := List.takeWhile_append_dropWhile.symm
  have hrest : ws.dropWhile (· ≠ deletedMark) ≠ [] := by
    intro hnil
    have hall := List.dropWhile_eq_nil_iff.mp hnil deletedMark h
    simp at hall
  have hlt := length_intercalate_append_lt ' ' (List.cons_ne_nil w (unmarked ws)) hrest
  rw [List.cons_append, ← hsplit] at hlt
  intro heq
  exact Nat.ne_of_lt hlt (congrArg List.length heq)

theorem spaced_unmarked_iff (w : Token) (ws : List Token) :
    spaced (w :: unmarked ws) = spaced (w :: ws) ↔ deletedMark ∉ ws := by
  constructor
  · intro heq hmark
    exact spaced_unmarked_ne w hmark heq
  · intro hmark
    rw [unmarked_eq hmark]

/-! ## The lines of mappings -/

theorem toDigits_inj {a b : Nat} : Nat.toDigits 10 a = Nat.toDigits 10 b ↔ a = b := by
  constructor
  · intro heq
    have hnum := congrArg (Nat.ofDigitChars 10 · 0) heq
    rw [Nat.ofDigitChars_ten_toDigits, Nat.ofDigitChars_ten_toDigits] at hnum
    exact hnum
  · rintro rfl
    rfl

namespace Mapping

variable (m : Mapping)

/-- The words of its line. -/
def tokens : List Token := m.head ++ (m.pathWords ++ m.markWords)

/-- The file: the device and the inode. -/
def file : List Char × Nat := (m.device, m.inode)

/-- A path that the loop over its words gets to the end of. -/
def Scannable : Prop :=
  m.inode ≠ 0 → ∃ path, m.path = some path ∧
    (path.deleted = true ∨ (words isSpace path.text).length = 1 ∨ deletedMark ∈ (words isSpace path.text).tail)

/-- A path of one word, or a deleted one without another mark in it. -/
def Plain : Prop :=
  m.inode ≠ 0 → ∃ path, m.path = some path ∧
    if path.deleted then deletedMark ∉ (words isSpace path.text).tail else (words isSpace path.text).length = 1

theorem inodeOf_tokens : inodeOf m.tokens = m.inodeText := rfl

variable {m} in
theorem inodeText_inj {m' : Mapping} : m.inodeText = m'.inodeText ↔ m.inode = m'.inode := toDigits_inj

theorem mapped_tokens : Mapped m.tokens ↔ m.inode ≠ 0 := by
  have hzero : ['0'] = Nat.toDigits 10 0 := rfl
  rw [Mapped, inodeOf_tokens, inodeText, hzero, ne_eq, toDigits_inj]

/-- The words behind the first five. -/
theorem drop_five_tokens : m.tokens.drop 5 = m.pathWords ++ m.markWords := rfl

theorem drop_six_tokens : m.tokens.drop 6 = (m.pathWords ++ m.markWords).tail := by
  rw [← List.drop_one, ← drop_five_tokens, List.drop_drop]

theorem length_tokens : m.tokens.length = 5 + (m.pathWords ++ m.markWords).length := by
  rw [tokens, List.length_append]
  rfl

variable {m} {path : MappedPath}

theorem inRange_tokens_iff : InRange m.tokens ↔ m.Scannable := by
  have hfive : 5 ≤ m.tokens.length := by
    rw [length_tokens]
    exact Nat.le_add_right _ _
  unfold InRange Scannable
  rw [and_iff_right hfive, mapped_tokens]
  refine imp_congr_right fun _ => ?_
  rw [Marked, drop_six_tokens, length_tokens]
  cases hpath : m.path with
  | none =>
      rw [words_none hpath]
      simp
  | some path =>
      rw [words_of_path hpath]
      simp only [Option.some.injEq, exists_eq_left']
      obtain ⟨w, ws, hwords⟩ := List.exists_cons_of_ne_nil path.words_ne_nil
      rw [hwords]
      cases hdeleted : path.deleted with
      | true => simp
      | false =>
          have hlen : 5 + (w :: ws).length = 6 ↔ (w :: ws).length = 1 := by omega
          rw [if_neg Bool.false_ne_true, List.append_nil, hlen]
          simp

/-- The name is the path, in the lines that can be read. -/
theorem lineName_tokens_iff (hpath : m.path = some path) :
    lineName m.tokens = spaced m.pathWords ↔ deletedMark ∉ (words isSpace path.text).tail := by
  obtain ⟨w, ws, hwords⟩ := List.exists_cons_of_ne_nil path.words_ne_nil
  rw [lineName, drop_six_tokens, drop_five_tokens, words_of_path hpath, pathWords_some hpath, hwords]
  cases hdeleted : path.deleted with
  | false =>
      simpa using spaced_unmarked_iff w ws
  | true =>
      have htail : (w :: ws ++ [deletedMark]).tail = ws ++ [deletedMark] := rfl
      rw [if_pos rfl, htail, unmarked_append_mark]
      exact spaced_unmarked_iff w ws

/-- **A line is read right** when its path is plain. -/
theorem plain_iff :
    m.Plain ↔ m.Scannable ∧ (m.inode ≠ 0 → lineName m.tokens = spaced m.pathWords) := by
  unfold Plain Scannable
  rw [← imp_and]
  refine imp_congr_right fun _ => ?_
  cases hpath : m.path with
  | none => simp
  | some path =>
      simp only [Option.some.injEq, exists_eq_left']
      rw [lineName_tokens_iff hpath]
      obtain ⟨w, ws, hwords⟩ := List.exists_cons_of_ne_nil path.words_ne_nil
      rw [hwords]
      cases hdeleted : path.deleted with
      | true => simp
      | false =>
          rw [if_neg Bool.false_ne_true]
          constructor
          · intro hlen
            obtain rfl : ws = [] := by simpa using hlen
            exact ⟨Or.inr (Or.inl rfl), List.not_mem_nil⟩
          · rintro ⟨hscan, hmark⟩
            exact (hscan.resolve_left Bool.false_ne_true).resolve_right hmark

end Mapping

/-! ## The names of the rows -/

variable {maps : List Char} {ms : List Mapping}

theorem memLines_eq (h : lines '\n' maps = ms.map Mapping.text) : memLines maps = ms.map Mapping.tokens := by
  have htokens : words isSpace ∘ Mapping.text = Mapping.tokens := funext Mapping.words_text
  rw [memLines, h, List.map_map, htokens]

theorem memLines_inRange_iff (h : lines '\n' maps = ms.map Mapping.text) :
    (∀ t ∈ memLines maps, InRange t) ↔ ∀ m ∈ ms, m.Scannable := by
  rw [memLines_eq h, List.forall_mem_map]
  exact forall₂_congr fun m _ => m.inRange_tokens_iff

/-- The lines with an inode. -/
theorem filter_mapped (ms : List Mapping) :
    (ms.map Mapping.tokens).filter (fun t => Mapped t) =
      (ms.filter fun m => m.inode ≠ 0).map Mapping.tokens := by
  have hsame : (fun t => decide (Mapped t)) ∘ Mapping.tokens = fun m => decide (m.inode ≠ 0) :=
    funext fun m => decide_eq_decide.mpr m.mapped_tokens
  rw [List.filter_map, hsame]

/-- The first pass over `maps`: no word is missing, and the names are the paths, their words joined by single
    blanks. -/
def ScansRight (maps : List Char) (ms : List Mapping) : Prop :=
  ∃ mi, memEntries (memLines maps) = .ok mi ∧
    mi.map FdInfo.name = (ms.filter fun m => m.inode ≠ 0).map fun m => spaced m.pathWords

/-- **The paths are scanned right** exactly when each line with an inode has a plain one. -/
theorem scans_right_iff (h : lines '\n' maps = ms.map Mapping.text) :
    ScansRight maps ms ↔ ∀ m ∈ ms, m.Plain := by
  have hnames : ((((ms.filter fun m => m.inode ≠ 0).map Mapping.tokens).map rawEntry).map FdInfo.name =
      (ms.filter fun m => m.inode ≠ 0).map fun m => spaced m.pathWords) ↔
      ∀ m ∈ ms, m.inode ≠ 0 → lineName m.tokens = spaced m.pathWords := by
    rw [List.map_map, List.map_map, List.map_inj_left]
    simp only [List.mem_filter, decide_eq_true_eq, and_imp]
    rfl
  have hplain : (∀ m ∈ ms, m.Plain) ↔
      (∀ m ∈ ms, m.Scannable) ∧ ∀ m ∈ ms, m.inode ≠ 0 → lineName m.tokens = spaced m.pathWords := by
    rw [← forall₂_and]
    exact forall₂_congr fun m _ => Mapping.plain_iff
  rw [hplain, ← memLines_inRange_iff h, ← hnames]
  constructor
  · rintro ⟨mi, hmi, hname⟩
    have hrange : ∀ t ∈ memLines maps, InRange t := by
      by_contra hnot
      rw [memEntries_error hnot] at hmi
      cases hmi
    rw [memEntries_ok hrange, memLines_eq h, filter_mapped] at hmi
    cases hmi
    exact ⟨hrange, hname⟩
  · rintro ⟨hrange, hname⟩
    refine ⟨_, memEntries_ok hrange, ?_⟩
    rw [memLines_eq h, filter_mapped]
    exact hname

def pathBlank : MappedPath := ⟨"/a b".toList, false, by decide⟩

def sampleText (ms : List Mapping) : List Char := ms.flatMap fun m => m.text ++ ['\n']

theorem scans_right_sample :
    lines '\n' (sampleText [readable one 7 pathA]) = [readable one 7 pathA].map Mapping.text ∧
      (ScansRight (sampleText [readable one 7 pathA]) [readable one 7 pathA] ↔
        ∀ m ∈ [readable one 7 pathA], m.Plain) :=
  have hlines : lines '\n' (sampleText [readable one 7 pathA]) = [readable one 7 pathA].map Mapping.text := by decide
  ⟨hlines, scans_right_iff hlines⟩

/-- The words of `/a b` run over the end of the line. -/
theorem blank_path_overruns :
    lines '\n' (sampleText [readable one 7 pathBlank]) = [readable one 7 pathBlank].map Mapping.text ∧
      memEntries (memLines (sampleText [readable one 7 pathBlank])) = .error .mk ∧
      ¬ ScansRight (sampleText [readable one 7 pathBlank]) [readable one 7 pathBlank] := by
  have herror : memEntries (memLines (sampleText [readable one 7 pathBlank])) = .error .mk := by decide
  refine ⟨by decide, herror, ?_⟩
  rintro ⟨mi, hmi, -⟩
  rw [herror] at hmi
  cases hmi

/-! ## The files of the rows -/

/-- The row at `k` is that of a line of the same file. -/
def RowAt (mi : List FdInfo) (ms : List Mapping) (m : Mapping) (k : Nat) : Prop :=
  ∃ m' ∈ ms, m'.file = m.file ∧ mi[k]? = some (rowOf m'.tokens)

/-- Each of the two has a row of its own. -/
def BothKept (maps : List Char) (ms : List Mapping) (a b : Mapping) : Prop :=
  ∃ mi, getMemInfo maps = .ok mi ∧ ∃ i j, i ≠ j ∧ RowAt mi ms a i ∧ RowAt mi ms b j

theorem getMemInfo_error (maps : List Char) (h : ¬ ∀ t ∈ memLines maps, InRange t) :
    getMemInfo maps = .error .mk := by
  rw [getMemInfo, memEntries_error h]
  rfl

/-- The rows are there, and no inode is there twice. -/
theorem getMemInfo_ok {mi : List FdInfo} (h : getMemInfo maps = .ok mi) :
    (∀ t ∈ memLines maps, InRange t) ∧ (mi.map FdInfo.inode).Nodup := by
  have hrange : ∀ t ∈ memLines maps, InRange t := by
    by_contra hnot
    rw [getMemInfo_error maps hnot] at h
    cases h
  refine ⟨hrange, ?_⟩
  rw [getMemInfo_eq maps hrange] at h
  cases h
  rw [map_inode_rowOf]
  exact nodup_key_firsts _

/-- Rows of different lines with one inode are one row. -/
theorem bothKept_ne {a b : Mapping} (hkept : BothKept maps ms a b) : a.inode ≠ b.inode := by
  intro heq
  obtain ⟨mi, hmi, i, j, hij, ⟨a', -, hfileA, hi⟩, b', -, hfileB, hj⟩ := hkept
  have hnodup := (getMemInfo_ok hmi).2
  have hinode : a'.inode = b'.inode := by
    have hA : a'.inode = a.inode := congrArg Prod.snd hfileA
    have hB : b'.inode = b.inode := congrArg Prod.snd hfileB
    rw [hA, hB, heq]
  have hrow : (mi.map FdInfo.inode)[i]? = (mi.map FdInfo.inode)[j]? := by
    rw [List.getElem?_map, List.getElem?_map, hi, hj]
    exact congrArg some (Mapping.inodeText_inj.mpr hinode)
  have hlt : i < (mi.map FdInfo.inode).length := by
    rw [List.length_map]
    exact (List.getElem?_eq_some_iff.mp hi).1
  exact hij ((List.getElem?_inj hlt hnodup).mp hrow)

/-- If no other file has its inode, a file has a row. -/
theorem exists_rowAt (h : lines '\n' maps = ms.map Mapping.text) {mi : List FdInfo} (hmi : getMemInfo maps = .ok mi)
    {a : Mapping} (ha : a ∈ ms) (hinode : a.inode ≠ 0)
    (hown : ∀ m ∈ ms, m.inode = a.inode → m.file = a.file) : ∃ k, RowAt mi ms a k := by
  have hmem : a.tokens ∈ (memLines maps).filter fun t => Mapped t := by
    rw [memLines_eq h, filter_mapped]
    exact List.mem_map_of_mem (List.mem_filter.mpr ⟨ha, by simpa using hinode⟩)
  obtain ⟨t, hfirst, ht, hkey⟩ : ∃ t ∈ firsts inodeOf [] _, t ∈ _ ∧ inodeOf t = inodeOf a.tokens :=
    exists_mem_firsts _ hmem
  rw [memLines_eq h, filter_mapped] at ht
  obtain ⟨m, hm, rfl⟩ := List.mem_map.mp ht
  have hms : m ∈ ms := (List.mem_filter.mp hm).1
  rw [getMemInfo_eq maps (getMemInfo_ok hmi).1] at hmi
  cases hmi
  obtain ⟨k, hk⟩ := List.mem_iff_getElem?.mp (List.mem_map_of_mem (f := rowOf) hfirst)
  exact ⟨k, m, hms, hown m hms (Mapping.inodeText_inj.mp hkey), hk⟩

/-- **No mapped file is lost** exactly when files that differ have different inodes, and the lines can be read. -/
theorem no_mapped_file_lost_iff (h : lines '\n' maps = ms.map Mapping.text) :
    (∀ a ∈ ms, ∀ b ∈ ms, a.inode ≠ 0 → b.inode ≠ 0 → a.file ≠ b.file → BothKept maps ms a b) ↔
      ∀ a ∈ ms, ∀ b ∈ ms, a.inode ≠ 0 → b.inode ≠ 0 → a.file ≠ b.file →
        (∀ m ∈ ms, m.Scannable) ∧ a.inode ≠ b.inode := by
  constructor
  · intro hkept a ha b hb hza hzb hne
    have hboth := hkept a ha b hb hza hzb hne
    obtain ⟨mi, hmi, -⟩ := id hboth
    exact ⟨(memLines_inRange_iff h).mp (getMemInfo_ok hmi).1, bothKept_ne hboth⟩
  · intro hcond a ha b hb hza hzb hne
    obtain ⟨hscan, hinode⟩ := hcond a ha b hb hza hzb hne
    -- a line with the inode of another is one of its file
    have hown : ∀ c ∈ ms, c.inode ≠ 0 → ∀ m ∈ ms, m.inode = c.inode → m.file = c.file := by
      intro c hc hzc m hm heq
      by_contra hfile
      have hzm : m.inode ≠ 0 := heq ▸ hzc
      exact (hcond m hm c hc hzm hzc hfile).2 heq
    have hmi := getMemInfo_eq maps ((memLines_inRange_iff h).mpr hscan)
    obtain ⟨i, hi⟩ := exists_rowAt h hmi ha hza (hown a ha hza)
    obtain ⟨j, hj⟩ := exists_rowAt h hmi hb hzb (hown b hb hzb)
    refine ⟨_, hmi, i, j, ?_, hi, hj⟩
    rintro rfl
    obtain ⟨a', -, hfileA, hrowA⟩ := hi
    obtain ⟨b', -, hfileB, hrowB⟩ := hj
    have hrows : rowOf a'.tokens = rowOf b'.tokens := Option.some.inj (hrowA.symm.trans hrowB)
    have hinodes : a'.inode = b'.inode := Mapping.inodeText_inj.mp (congrArg FdInfo.inode hrows)
    have hA : a'.inode = a.inode := congrArg Prod.snd hfileA
    have hB : b'.inode = b.inode := congrArg Prod.snd hfileB
    exact hinode (hA.symm.trans (hinodes.trans hB))

/-- Two files with two inodes. -/
def twoFiles : List Mapping := [readable one 7 pathA, readable one 8 pathB]

theorem no_mapped_file_lost_sample :
    lines '\n' (sampleText twoFiles) = twoFiles.map Mapping.text ∧
      ((∀ a ∈ twoFiles, ∀ b ∈ twoFiles, a.inode ≠ 0 → b.inode ≠ 0 → a.file ≠ b.file →
          BothKept (sampleText twoFiles) twoFiles a b) ↔
        ∀ a ∈ twoFiles, ∀ b ∈ twoFiles, a.inode ≠ 0 → b.inode ≠ 0 → a.file ≠ b.file →
          (∀ m ∈ twoFiles, m.Scannable) ∧ a.inode ≠ b.inode) :=
  have hlines : lines '\n' (sampleText twoFiles) = twoFiles.map Mapping.text := by decide
  ⟨hlines, no_mapped_file_lost_iff hlines⟩

/-- Two files on two devices with one inode. -/
def twoDevices : List Mapping := [readable zero 7 pathA, readable one 7 pathB]

theorem other_device_lost :
    lines '\n' (sampleText twoDevices) = twoDevices.map Mapping.text ∧
      (∀ m ∈ twoDevices, m.inode ≠ 0) ∧ (readable zero 7 pathA).file ≠ (readable one 7 pathB).file ∧
      (∃ e, getMemInfo (sampleText twoDevices) = .ok [e]) ∧
      ¬ BothKept (sampleText twoDevices) twoDevices (readable zero 7 pathA) (readable one 7 pathB) :=
  ⟨by decide, by decide, by decide, ⟨_, rfl⟩, fun hkept => bothKept_ne hkept rfl⟩

end AdvUnix.Lsof
