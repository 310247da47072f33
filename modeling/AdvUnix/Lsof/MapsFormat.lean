import AdvUnix.Lib.Words
import AdvUnix.Sdb.Text

/-!
# `Lsof.MapsFormat` — the lines of `/proc/PID/maps`

What the kernel writes for a mapping: the two addresses, the permissions, the offset, the device, the inode, and
after some padding the path, which may have blanks in it and is marked when the file has been deleted. A
`Mapping` has only what a line can have; `words_text` takes the line apart.
-/

namespace AdvUnix.Lsof

open Words Sdb

/-! ## The fields -/

def isHex (c : Char) : Bool := c.isDigit || ('a' ≤ c && c ≤ 'f')

/-- A hexadecimal numeral. -/
structure Hex where
  digits : List Char
  nonempty : digits ≠ []
  hex : digits.all isHex = true

/-- The four letters of a mapping. -/
structure Perms where
  read : Bool
  write : Bool
  exec : Bool
  shared : Bool
  deriving DecidableEq, Repr

def Perms.access (p : Perms) : List Char :=
  [if p.read then 'r' else '-', if p.write then 'w' else '-', if p.exec then 'x' else '-']

def Perms.text (p : Perms) : List Char := p.access ++ [if p.shared then 's' else 'p']

/-- `(deleted)` -/
def deletedMark : List Char := "(deleted)".toList

/-- The path of a mapping. It does not begin with a blank. -/
structure MappedPath where
  text : List Char
  deleted : Bool
  starts : (text.head?.any fun c => !isSpace c) = true

/-- **A mapping.** -/
structure Mapping where
  start : Hex
  stop : Hex
  perms : Perms
  offset : Hex
  major : Hex
  minor : Hex
  inode : Nat
  padding : Nat
  path : Option MappedPath

namespace Mapping

variable (m : Mapping)

def address : List Char := m.start.digits ++ '-' :: m.stop.digits
def device : List Char := m.major.digits ++ ':' :: m.minor.digits
def inodeText : List Char := Nat.toDigits 10 m.inode

/-- The path as it is written, with its mark. -/
def pathText : List Char :=
  match m.path with
  | none => []
  | some path => path.text ++ if path.deleted then ' ' :: deletedMark else []

/-- The fields that every line has. -/
def head : List (List Char) := [m.address, m.perms.text, m.offset.digits, m.device, m.inodeText]

/-- **The line of a mapping.** -/
def text : List Char :=
  [' '].intercalate m.head ++ ' ' :: (List.replicate m.padding ' ' ++ m.pathText)

/-- The words of the path, and of its mark. -/
def pathWords : List (List Char) := m.path.elim [] fun path => words isSpace path.text

def markWords : List (List Char) := m.path.elim [] fun path => if path.deleted then [deletedMark] else []

end Mapping

/-! ## The words of a line -/

theorem isSpace_of_le {c : Char} (h : 33 ≤ c.toNat) : isSpace c = false := by
  unfold isSpace
  simp
  omega

theorem isDigit_solid {c : Char} (h : c.isDigit = true) : isSpace c = false := by
  have hrange := Char.isDigit_iff_toNat.mp h
  exact isSpace_of_le (Nat.le_trans (by decide) hrange.1)

theorem isHex_solid {c : Char} (h : isHex c = true) : isSpace c = false := by
  rw [isHex, Bool.or_eq_true, Bool.and_eq_true, decide_eq_true_eq] at h
  rcases h with hdigit | ⟨hle, -⟩
  · exact isDigit_solid hdigit
  · have hnat : 'a'.toNat ≤ c.toNat := hle
    exact isSpace_of_le (Nat.le_trans (by decide) hnat)

theorem Hex.solid (h : Hex) : Solid isSpace h.digits := fun c hc =>
  isHex_solid (List.all_eq_true.mp h.hex c hc)

/-- Two numerals with a sign between them are a word. -/
theorem Hex.solid_pair (h h' : Hex) {c : Char} (hc : isSpace c = false) :
    Solid isSpace (h.digits ++ c :: h'.digits) := by
  intro d hd
  rcases List.mem_append.mp hd with hd | hd
  · exact h.solid d hd
  · rcases List.mem_cons.mp hd with rfl | hd
    · exact hc
    · exact h'.solid d hd

theorem toDigits_solid (n : Nat) : Solid isSpace (Nat.toDigits 10 n) := fun _ hc =>
  isDigit_solid (Nat.isDigit_of_mem_toDigits (by decide) (by decide) hc)

theorem Perms.solid (p : Perms) : Solid isSpace p.text := by
  obtain ⟨r, w, x, s⟩ := p
  revert r w x s
  decide

/-- The first five fields are words. -/
theorem Mapping.head_words (m : Mapping) : ∀ w ∈ m.head, w ≠ [] ∧ Solid isSpace w := by
  intro w hw
  simp only [head, List.mem_cons, List.not_mem_nil, or_false] at hw
  rcases hw with rfl | rfl | rfl | rfl | rfl
  · exact ⟨by simp [address], m.start.solid_pair m.stop (by decide)⟩
  · exact ⟨by simp [Perms.text], m.perms.solid⟩
  · exact ⟨m.offset.nonempty, m.offset.solid⟩
  · exact ⟨by simp [device], m.major.solid_pair m.minor (by decide)⟩
  · exact ⟨Nat.toDigits_ne_nil, toDigits_solid _⟩

theorem Mapping.words_pathText (m : Mapping) : words isSpace m.pathText = m.pathWords ++ m.markWords := by
  unfold pathText pathWords markWords
  cases m.path with
  | none => rfl
  | some path =>
      cases hdeleted : path.deleted with
      | false => simp [hdeleted]
      | true =>
          have hspace : isSpace ' ' = true := by decide
          simp only [Option.elim_some, hdeleted, if_true]
          rw [words_append_cons _ _ hspace]
          exact congrArg (words isSpace path.text ++ ·) (words_word (by decide) (by decide))

/-- **The words of a line**: its five fields, the words of its path, and its mark. -/
theorem Mapping.words_text (m : Mapping) :
    words isSpace m.text = m.head ++ (m.pathWords ++ m.markWords) := by
  have hspace : isSpace ' ' = true := by decide
  rw [text, words_append_cons _ _ hspace, words_spaced hspace m.head_words, words_replicate hspace,
    m.words_pathText]

namespace MappedPath

variable (path : MappedPath)

theorem text_cons : ∃ c cs, path.text = c :: cs ∧ isSpace c = false := by
  have hstarts := path.starts
  cases htext : path.text with
  | nil => simp [htext] at hstarts
  | cons c cs =>
      rw [htext] at hstarts
      exact ⟨c, cs, rfl, by simpa using hstarts⟩

theorem text_ne_nil : path.text ≠ [] := by
  obtain ⟨c, cs, htext, -⟩ := path.text_cons
  rw [htext]
  exact List.cons_ne_nil c cs

theorem words_ne_nil : words isSpace path.text ≠ [] := by
  obtain ⟨c, cs, htext, hc⟩ := path.text_cons
  rw [htext]
  exact Words.words_ne_nil hc

end MappedPath

variable {m : Mapping}

theorem Mapping.pathWords_some {path : MappedPath} (hpath : m.path = some path) :
    m.pathWords = words isSpace path.text := by
  rw [pathWords, hpath]
  rfl

theorem Mapping.words_of_path {path : MappedPath} (hpath : m.path = some path) :
    m.pathWords ++ m.markWords = words isSpace path.text ++ if path.deleted then [deletedMark] else [] := by
  rw [pathWords, markWords, hpath]
  rfl

theorem Mapping.words_none (hpath : m.path = none) : m.pathWords ++ m.markWords = [] := by
  rw [pathWords, markWords, hpath]
  rfl

/-! ## Samples -/

def zero : Hex := ⟨['0'], by decide, by decide⟩
def one : Hex := ⟨['1'], by decide, by decide⟩

/-- A private mapping for reading. -/
def readable (minor : Hex) (inode : Nat) (path : MappedPath) : Mapping :=
  ⟨zero, one, ⟨true, false, false, false⟩, zero, one, minor, inode, 0, some path⟩

/-- Two paths, the second of a deleted file. -/
def pathA : MappedPath := ⟨"/a".toList, false, by decide⟩
def pathB : MappedPath := ⟨"/b".toList, true, by decide⟩

end AdvUnix.Lsof
