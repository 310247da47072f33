import AdvUnix.Lsof.Links
import AdvUnix.Lsof.MappedFiles

/-!
# `Lsof.OpenFiles` — the files that a process has open

`get_rwu_info` takes the name of an open file from the link of its descriptor, and cuts it at the first
`(deleted`. `get_mem_info` takes the same file's name from its line in `/proc/PID/maps`, where the mark is a
word. The two views of a file are compared in `views_agree_iff`.
-/

namespace AdvUnix.Lsof

open Words Firsts Sdb

/-! ## `get_rwu_info` -/

def O_WRONLY : BitVec 64 := 1
def O_RDWR : BitVec 64 := 2

/-- **What the system answers for a descriptor**: its name, the contents of its `fdinfo` (empty when it cannot be
    opened), the results of `readlink` and of both calls of `stat`; and what the uninitialised variables hold. -/
structure Opened where
  name : List Char
  fdinfo : List Char
  readlink : Except Int (List Char)
  inode : Except Int Stat
  type : Except Int Stat
  mode : BitVec 64
  junk : Junk

/-- The digits that `oct` reads. -/
def octal (w : List Char) : Int :=
  Nat.ofDigitChars 8 (w.takeWhile fun c => '0' ≤ c && c ≤ '7') 0

/-- `fin >> oct >> mode` -/
def readMode (w : List Char) : BitVec 64 :=
  match w with
  | '-' :: ds => BitVec.ofInt 64 (max (-2 ^ 63) (-octal ds))
  | '+' :: ds => BitVec.ofInt 64 (min (2 ^ 63 - 1) (octal ds))
  | ds => BitVec.ofInt 64 (min (2 ^ 63 - 1) (octal ds))

/-- The loop over the words of `fdinfo`. -/
def scanFlags (mode : BitVec 64) : List Token → BitVec 64
  | content :: garbage :: rest =>
    if content = "flags:".toList then readMode garbage else scanFlags mode rest
  | _ => mode

def fdMode (mode : BitVec 64) : List Char :=
  if mode &&& O_WRONLY ≠ 0 then ['w'] else if mode &&& O_RDWR ≠ 0 then ['u'] else ['r']

/-- `stat`, which leaves its buffer as it was when it fails. -/
def statBuffer (result : Except Int Stat) (fileInfo : Stat) : Stat :=
  match result with
  | .ok info => info
  | .error _ => fileInfo

/-- `(deleted` -/
def deletedStart : List Char := "(deleted".toList

/-- The cut of a name at the mark. -/
def cutDeleted (e : FdInfo) : FdInfo :=
  match find deletedStart e.name with
  | some pos => { e with type := "unknown".toList, name := e.name.take pos, append := deletedMark }
  | none => e

/-- The body of the loop in `get_rwu_info`. `readlink` stores 1023 bytes at most. -/
def rwuInfo (f : Opened) : FdInfo :=
  let mode := scanFlags f.mode (words isSpace f.fdinfo)
  let fdType := (typeName (statBuffer f.type f.junk.type)).toList
  let fditmp : FdInfo := match f.readlink with
    | .ok link =>
      ⟨f.name ++ fdMode mode, fdType, Nat.toDigits 10 (statBuffer f.inode f.junk.inode).stIno, link.take 1023, []⟩
    | .error _ => ⟨f.name ++ fdMode mode, fdType, [], [], []⟩
  anonName (cutDeleted fditmp)

/-- **`get_rwu_info`**, of the answers for each descriptor. -/
def getRwuInfo (fdFiles : List Opened) : List FdInfo := fdFiles.map rwuInfo

/-! ## One file -/

/-- The descriptor has the file of the mapping open, and it is a regular file. -/
structure Opened.Opens (f : Opened) (m : Mapping) : Prop where
  link : f.readlink = .ok m.pathText
  inode : ∃ info, f.inode = .ok info ∧ info.stIno = m.inode
  regular : ∃ info, f.type = .ok info ∧ isType 0o100000 info = true

/-- The link as the buffer has it. -/
def Mapping.link (m : Mapping) : List Char := m.pathText.take 1023

/-- The name, but for `anon_inode`. -/
def anonymous (name inode : List Char) : List Char :=
  if anonMark <:+: name then "anon_inode:[".toList ++ inode ++ [']'] else name

theorem typeName_regular {info : Stat} (h : isType 0o100000 info = true) : typeName info = "REG" := by
  have hmode : info.stMode &&& 0o170000 = 0o100000 := by simpa [isType] using h
  have hdir : isType 0o040000 info = false := by
    rw [isType, hmode]
    decide
  rw [typeName, hdir, h]
  rfl

variable {f : Opened} {m : Mapping}

/-- The descriptor's view. -/
theorem rwuInfo_opens (h : f.Opens m) :
    (find deletedStart m.link = none → (rwuInfo f).name = anonymous m.link m.inodeText ∧
      (rwuInfo f).append = [] ∧ (rwuInfo f).type = "REG".toList) ∧
    ∀ pos, find deletedStart m.link = some pos → (rwuInfo f).name = anonymous (m.link.take pos) m.inodeText ∧
      (rwuInfo f).append = deletedMark ∧ (rwuInfo f).type = "unknown".toList := by
  obtain ⟨hlink, ⟨i, hi, hino⟩, t, ht, hreg⟩ := h
  have hinfo : rwuInfo f = anonName (cutDeleted ⟨f.name ++ fdMode (scanFlags f.mode (words isSpace f.fdinfo)),
      "REG".toList, m.inodeText, m.link, []⟩) := by
    rw [rwuInfo, hlink, hi, ht]
    dsimp only [statBuffer]
    rw [typeName_regular hreg, hino]
    rfl
  rw [hinfo, anonName_eq]
  constructor
  · intro hfind
    rw [cutDeleted]
    dsimp only
    rw [hfind]
    exact ⟨rfl, rfl, rfl⟩
  · intro pos hfind
    rw [cutDeleted]
    dsimp only
    rw [hfind]
    exact ⟨rfl, rfl, rfl⟩

/-! ## Both views -/

/-- Names that do not begin like the anonymous ones. -/
theorem anonymous_eq_iff {s t : List Char} (inode : List Char) (hs : s.head? ≠ some 'a') (ht : t.head? ≠ some 'a') :
    anonymous s inode = anonymous t inode ↔
      (anonMark <:+: s ∧ anonMark <:+: t) ∨ (¬ anonMark <:+: s ∧ ¬ anonMark <:+: t ∧ s = t) := by
  have hhead : ("anon_inode:[".toList ++ inode ++ [']']).head? = some 'a' := rfl
  unfold anonymous
  by_cases hanonS : anonMark <:+: s
  · by_cases hanonT : anonMark <:+: t
    · simp [hanonS, hanonT]
    · rw [if_pos hanonS, if_neg hanonT]
      have hne : "anon_inode:[".toList ++ inode ++ [']'] ≠ t := fun heq => ht (heq ▸ hhead)
      exact iff_of_false hne (by simp [hanonS, hanonT])
  · by_cases hanonT : anonMark <:+: t
    · rw [if_neg hanonS, if_pos hanonT]
      have hne : s ≠ "anon_inode:[".toList ++ inode ++ [']'] := fun heq => hs (heq ▸ hhead)
      exact iff_of_false hne (by simp [hanonS, hanonT])
    · simp [hanonS, hanonT]

variable {path : MappedPath} {maps : List Char} {ms : List Mapping}

/-- **The mapping's view**, of a path that is one word. -/
theorem rowOf_file (hpath : m.path = some path) (hsolid : Solid isSpace path.text) :
    (rowOf m.tokens).name = anonymous path.text m.inodeText ∧
      (rowOf m.tokens).append = (if path.deleted then deletedMark else []) ∧
      (rowOf m.tokens).type = if path.deleted then "unknown".toList else "REG".toList := by
  have hword : words isSpace path.text = [path.text] := words_word path.text_ne_nil hsolid
  have hname : lineName m.tokens = path.text := by
    have htail : deletedMark ∉ (words isSpace path.text).tail := by
      rw [hword]
      exact List.not_mem_nil
    rw [(Mapping.lineName_tokens_iff hpath).mpr htail, Mapping.pathWords_some hpath, hword, spaced_singleton]
  have hmarked : Marked m.tokens ↔ path.deleted = true := by
    rw [Marked, Mapping.drop_six_tokens, Mapping.words_of_path hpath, hword]
    cases path.deleted with
    | false => simp
    | true => simp
  refine ⟨?_, if_congr hmarked rfl rfl, if_congr hmarked rfl rfl⟩
  rw [rowOf, hname]
  rfl

/-- The line is the first with its inode. -/
def IsFirst (ms : List Mapping) (m : Mapping) : Prop := ms.find? (fun m' => m'.inode == m.inode) = some m

theorem first_line (hlines : lines '\n' maps = ms.map Mapping.text) (hfirst : IsFirst ms m) (hinode : m.inode ≠ 0) :
    m.tokens ∈ firsts inodeOf [] ((memLines maps).filter fun t => Mapped t) := by
  have hsame : (fun m' : Mapping => decide (decide (m'.inode ≠ 0) = true ∧
      ((fun t => inodeOf t == inodeOf m.tokens) ∘ Mapping.tokens) m' = true)) = fun m' => m'.inode == m.inode := by
    funext m'
    rw [Bool.eq_iff_iff]
    simp only [decide_eq_true_eq, Function.comp_apply, beq_iff_eq, Mapping.inodeOf_tokens, Mapping.inodeText_inj,
      and_iff_right_iff_imp]
    rintro heq
    rw [heq]
    exact hinode
  rw [mem_firsts, memLines_eq hlines, filter_mapped, List.find?_map, List.find?_filter, hsame, hfirst]
  rfl

/-- **The row of such a line** is the one with the inode. -/
theorem row_of_first (hlines : lines '\n' maps = ms.map Mapping.text) (hfirst : IsFirst ms m) {mi : List FdInfo}
    (hmi : getMemInfo maps = .ok mi) {e : FdInfo} :
    (e ∈ mi ∧ e.inode = m.inodeText) ↔ m.inode ≠ 0 ∧ e = rowOf m.tokens := by
  rw [getMemInfo_eq maps (getMemInfo_ok hmi).1] at hmi
  cases hmi
  constructor
  · rintro ⟨he, heq⟩
    obtain ⟨t, ht, rfl⟩ := List.mem_map.mp he
    have hinodeT : inodeOf t = inodeOf m.tokens := heq
    have hfind := (mem_firsts _).mp ht
    have hmapped := mapped_of_mem_firsts ht
    have hinode : m.inode ≠ 0 := by
      refine m.mapped_tokens.mp ?_
      unfold Mapped
      rw [← hinodeT]
      exact hmapped
    have hfindM := (mem_firsts _).mp (first_line hlines hfirst hinode)
    rw [← hinodeT] at hfindM
    exact ⟨hinode, congrArg rowOf (Option.some.inj (hfind.symm.trans hfindM))⟩
  · rintro ⟨hinode, rfl⟩
    exact ⟨List.mem_map_of_mem (first_line hlines hfirst hinode), rfl⟩

/-! ## Agreement -/

/-- **The views of a mapping and of a descriptor are the same**, and a file that one of them reports as deleted
    is deleted. -/
def Alike (maps : List Char) (fdFiles : List Opened) (m : Mapping) (path : MappedPath) (k : Nat) : Prop :=
  ∃ mi, getMemInfo maps = .ok mi ∧ ∃ e, (e ∈ mi ∧ e.inode = m.inodeText) ∧
    ∃ e', (getRwuInfo fdFiles)[k]? = some e' ∧
      (e.name = e'.name ∧ e.append = e'.append ∧ e.type = e'.type) ∧
      (e.append = deletedMark ∨ e'.append = deletedMark → path.deleted = true)

/-- What the link must be like: that of a live file has no `(deleted` and is not cut, that of a deleted one has
    `anon_inode:` before the first `(deleted`. -/
def Mapping.Agreeing (m : Mapping) (path : MappedPath) : Prop :=
  if path.deleted then ∃ pos, find deletedStart m.link = some pos ∧ anonMark <:+: m.link.take pos
  else ¬ deletedStart <:+: m.link ∧ (path.text.length ≤ 1023 ∨ anonMark <:+: m.link)

theorem head_of_start {s t : List Char} (h : s <+: t) (ht : t.head? = some '/') : s.head? ≠ some 'a' := by
  cases s with
  | nil => exact nofun
  | cons c cs =>
      cases t with
      | nil => cases ht
      | cons d ds =>
          obtain ⟨rfl, -⟩ := List.cons_prefix_cons.mp h
          cases ht
          simp

/-- A live file whose link has no mark. -/
theorem live_name_iff {p : List Char} (habs : p.head? = some '/') (inode : List Char) :
    anonymous p inode = anonymous (p.take 1023) inode ↔ p.length ≤ 1023 ∨ anonMark <:+: p.take 1023 := by
  rw [anonymous_eq_iff inode (head_of_start (List.prefix_refl p) habs) (head_of_start (List.take_prefix 1023 p) habs)]
  constructor
  · rintro (⟨-, hanon⟩ | ⟨-, -, heq⟩)
    · exact Or.inr hanon
    · exact Or.inl ((List.take_eq_self_iff p).mp heq.symm)
  · rintro (hlen | hanon)
    · rw [List.take_of_length_le hlen]
      by_cases hanon : anonMark <:+: p
      · exact Or.inl ⟨hanon, hanon⟩
      · exact Or.inr ⟨hanon, hanon, rfl⟩
    · exact Or.inl ⟨hanon.trans (List.take_prefix 1023 p).isInfix, hanon⟩

/-- A deleted file is named with the blank before the mark, or with less. -/
theorem deleted_name_iff {p link : List Char} (habs : p.head? = some '/') (hlink : link <+: p ++ ' ' :: deletedMark)
    {pos : Nat} (hfind : find deletedStart link = some pos) (inode : List Char) :
    anonymous p inode = anonymous (link.take pos) inode ↔ anonMark <:+: link.take pos := by
  have hcut : link.take pos <+: p ++ ' ' :: deletedMark := (List.take_prefix pos link).trans hlink
  have hhead : (p ++ ' ' :: deletedMark).head? = some '/' := by
    rw [List.head?_append, habs]
    rfl
  rw [anonymous_eq_iff inode (head_of_start (List.prefix_refl p) habs) (head_of_start hcut hhead)]
  constructor
  · rintro (⟨-, hanon⟩ | ⟨-, -, heq⟩)
    · exact hanon
    · -- the mark would begin with the blank
      have hrest : link.drop pos <+: ' ' :: deletedMark := by
        rw [← List.take_append_drop pos link, ← heq] at hlink
        exact (List.prefix_append_right_inj p).mp hlink
      exact absurd ((find_spec hfind).1.trans hrest) (by decide)
  · intro hanon
    refine Or.inl ⟨(infix_append_cons (by decide) (hanon.trans hcut.isInfix)).resolve_right ?_, hanon⟩
    intro hmark
    exact absurd hmark.length_le (by decide)

/-- The two rows of a file. -/
theorem rows_agree_iff (hpath : m.path = some path) (hsolid : Solid isSpace path.text)
    (habs : path.text.head? = some '/') (hopens : f.Opens m) :
    (((rowOf m.tokens).name = (rwuInfo f).name ∧ (rowOf m.tokens).append = (rwuInfo f).append ∧
        (rowOf m.tokens).type = (rwuInfo f).type) ∧
      ((rowOf m.tokens).append = deletedMark ∨ (rwuInfo f).append = deletedMark → path.deleted = true)) ↔
      m.Agreeing path := by
  obtain ⟨hname, happend, htype⟩ := rowOf_file hpath hsolid
  obtain ⟨hnone, hsome⟩ := rwuInfo_opens hopens
  have hmark : ([] : List Char) ≠ deletedMark := by decide
  have htext : m.pathText = path.text ++ if path.deleted then ' ' :: deletedMark else [] := by
    rw [Mapping.pathText, hpath]
  rw [hname, happend, htype, Mapping.Agreeing]
  cases hdeleted : path.deleted with
  | false =>
      have hlink : m.link = path.text.take 1023 := by
        rw [Mapping.link, htext, hdeleted]
        simp
      rw [if_neg Bool.false_ne_true, if_neg Bool.false_ne_true, if_neg Bool.false_ne_true, ← find_eq_none_iff]
      cases hfind : find deletedStart m.link with
      | none =>
          -- only the names can differ
          obtain ⟨hname', happend', htype'⟩ := hnone hfind
          rw [hname', happend', htype', hlink, live_name_iff habs]
          simp [hmark]
      | some pos =>
          -- the descriptor's view says deleted
          obtain ⟨-, happend', -⟩ := hsome pos hfind
          rw [happend']
          simp [hmark]
  | true =>
      have hlink : m.link <+: path.text ++ ' ' :: deletedMark := by
        rw [Mapping.link, htext, hdeleted]
        exact List.take_prefix 1023 _
      rw [if_pos rfl, if_pos rfl, if_pos rfl]
      cases hfind : find deletedStart m.link with
      | none =>
          -- the mark is cut off the link
          obtain ⟨-, happend', -⟩ := hnone hfind
          rw [happend']
          simp [hmark.symm]
      | some pos =>
          obtain ⟨hname', happend', htype'⟩ := hsome pos hfind
          rw [hname', happend', htype', deleted_name_iff habs hlink hfind]
          simp

/-- **Both views of a file agree** exactly when its link is like this, where it has a row at all. -/
theorem views_agree_iff (hlines : lines '\n' maps = ms.map Mapping.text) (hfirst : IsFirst ms m)
    (hpath : m.path = some path) (hsolid : Solid isSpace path.text) (habs : path.text.head? = some '/')
    {fdFiles : List Opened} {k : Nat} (hk : fdFiles[k]? = some f) (hopens : f.Opens m) :
    Alike maps fdFiles m path k ↔ ((∀ m' ∈ ms, m'.Scannable) ∧ m.inode ≠ 0) ∧ m.Agreeing path := by
  have hrow : (getRwuInfo fdFiles)[k]? = some (rwuInfo f) := by
    rw [getRwuInfo, List.getElem?_map, hk]
    rfl
  rw [← memLines_inRange_iff hlines, ← rows_agree_iff hpath hsolid habs hopens]
  constructor
  · rintro ⟨mi, hmi, e, he, e', he', hsame⟩
    obtain ⟨hinode, rfl⟩ := (row_of_first hlines hfirst hmi).mp he
    obtain rfl := Option.some.inj (hrow.symm.trans he')
    exact ⟨⟨(getMemInfo_ok hmi).1, hinode⟩, hsame⟩
  · rintro ⟨⟨hrange, hinode⟩, hsame⟩
    have hmi := getMemInfo_eq maps hrange
    exact ⟨_, hmi, _, (row_of_first hlines hfirst hmi).mpr ⟨hinode, rfl⟩, _, hrow, hsame⟩

def regularStat : Stat := ⟨0o100644, 7⟩

/-- A descriptor for reading. -/
def openedFor (m : Mapping) : Opened where
  name := ['3']
  fdinfo := "pos:\t0\nflags:\t0100000\nmnt_id:\t29\n".toList
  readlink := .ok m.pathText
  inode := .ok regularStat
  type := .ok regularStat
  mode := 0
  junk := ⟨regularStat, regularStat⟩

theorem openedFor_opens {m : Mapping} (h : m.inode = 7) : (openedFor m).Opens m where
  link := rfl
  inode := ⟨regularStat, rfl, h.symm⟩
  regular := ⟨regularStat, rfl, by decide⟩

theorem views_agree_sample :
    Alike (sampleText [readable one 7 pathA]) [openedFor (readable one 7 pathA)] (readable one 7 pathA) pathA 0 ↔
      ((∀ m' ∈ [readable one 7 pathA], m'.Scannable) ∧ (readable one 7 pathA).inode ≠ 0) ∧
        (readable one 7 pathA).Agreeing pathA :=
  have hlines : lines '\n' (sampleText [readable one 7 pathA]) = [readable one 7 pathA].map Mapping.text := by decide
  have hfirst : IsFirst [readable one 7 pathA] (readable one 7 pathA) := rfl
  have hopens : (openedFor (readable one 7 pathA)).Opens (readable one 7 pathA) := openedFor_opens rfl
  views_agree_iff hlines hfirst rfl (by decide) rfl rfl hopens

/-- The live file `/a(deleted`. -/
def pathMarked : MappedPath := ⟨"/a(deleted".toList, false, by decide⟩

/-- A deleted file is named with a blank at its end; a live one with the mark in its name counts as deleted. -/
theorem views_disagree :
    (openedFor (readable one 7 pathB)).Opens (readable one 7 pathB) ∧
      (rwuInfo (openedFor (readable one 7 pathB))).name = "/b ".toList ∧
      ¬ Alike (sampleText [readable one 7 pathB]) [openedFor (readable one 7 pathB)] (readable one 7 pathB) pathB 0 ∧
      (openedFor (readable one 7 pathMarked)).Opens (readable one 7 pathMarked) ∧
      (rwuInfo (openedFor (readable one 7 pathMarked))).append = deletedMark := by
  have hrows : getMemInfo (sampleText [readable one 7 pathB]) =
      .ok [⟨"del".toList, "unknown".toList, ['7'], "/b".toList, deletedMark⟩] := by decide
  have hname : (rwuInfo (openedFor (readable one 7 pathB))).name = "/b ".toList := by decide
  refine ⟨openedFor_opens rfl, hname, ?_, openedFor_opens rfl, by decide⟩
  rintro ⟨mi, hmi, e, ⟨he, -⟩, e', he', ⟨heq, -, -⟩, -⟩
  rw [hrows] at hmi
  cases hmi
  obtain rfl := List.mem_singleton.mp he
  obtain rfl := Option.some.inj he'
  rw [hname] at heq
  exact absurd heq (by decide)

end AdvUnix.Lsof
