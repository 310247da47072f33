import AdvUnix.Lsof.OpenFiles

/-!
# `Lsof.FdInfo` — the letter behind a descriptor

`get_rwu_info` reads the flags of an open file from the text of its `fdinfo`, an octal numeral behind the word
`flags:`, and makes a letter of the access mode. The letter is that of the flags that the kernel has written
there (`fd_letter`).
-/

namespace AdvUnix.Lsof

open Words Sdb

/-! ## The text of the kernel -/

/-- **The contents of an `fdinfo`**: the position, the flags in octal with a zero before them, and whatever lines
    follow. -/
structure FdText where
  pos : List Char
  flags : BitVec 32
  rest : List Char
  pos_word : pos ≠ [] ∧ Solid isSpace pos

namespace FdText

variable (i : FdText)

def flagsText : List Char := '0' :: Nat.toDigits 8 i.flags.toNat

def text : List Char :=
  "pos:".toList ++ '\t' :: (i.pos ++ '\n' :: ("flags:".toList ++ '\t' :: (i.flagsText ++ '\n' :: i.rest)))

/-- **The letter of an access mode**: the last two bits, of which the lower one stands for writing only. -/
def letter : Char :=
  match i.flags.toNat % 4 with
  | 0 => 'r'
  | 2 => 'u'
  | _ => 'w'

end FdText

/-! ## Octal numerals -/

theorem digitChar_octal {d : Nat} (h : d < 8) : '0' ≤ d.digitChar ∧ d.digitChar ≤ '7' := by
  revert d
  decide

theorem toDigits_octal (n : Nat) : ∀ c ∈ Nat.toDigits 8 n, '0' ≤ c ∧ c ≤ '7' := by
  induction n using Nat.strong_induction_on with
  | _ n ih =>
      intro c hc
      by_cases hlt : n < 8
      · rw [Nat.toDigits_of_lt_base hlt] at hc
        obtain rfl := List.mem_singleton.mp hc
        exact digitChar_octal hlt
      · rw [Nat.toDigits_of_base_le (by decide) (by omega)] at hc
        rcases List.mem_append.mp hc with hc | hc
        · exact ih (n / 8) (by omega) c hc
        · obtain rfl := List.mem_singleton.mp hc
          exact digitChar_octal (Nat.mod_lt n (by decide))

/-- **A numeral is read back.** -/
theorem octal_toDigits (n : Nat) : octal ('0' :: Nat.toDigits 8 n) = n := by
  have hall : ('0' :: Nat.toDigits 8 n).takeWhile (fun c => '0' ≤ c && c ≤ '7') = '0' :: Nat.toDigits 8 n := by
    rw [List.takeWhile_eq_self_iff]
    intro c hc
    rcases List.mem_cons.mp hc with rfl | hc
    · decide
    · have hdigit := toDigits_octal n c hc
      simp [hdigit]
  have hvalue : Nat.ofDigitChars 8 ('0' :: Nat.toDigits 8 n) 0 = n :=
    Nat.ofDigitChars_toDigits (by decide) (by decide)
  rw [octal, hall, hvalue]

theorem readMode_flags (i : FdText) : readMode i.flagsText = i.flags.setWidth 64 := by
  have hsmall := i.flags.isLt
  have hmin : min (2 ^ 63 - 1 : Int) (i.flags.toNat : Int) = i.flags.toNat := min_eq_right (by omega)
  have hread : readMode i.flagsText = BitVec.ofInt 64 (min (2 ^ 63 - 1) (octal i.flagsText)) := rfl
  rw [hread, FdText.flagsText, octal_toDigits, hmin]
  apply BitVec.eq_of_toNat_eq
  rw [BitVec.toNat_setWidth]
  rfl

/-! ## The words -/

theorem flagsText_solid (i : FdText) : Solid isSpace i.flagsText := by
  intro c hc
  rcases List.mem_cons.mp hc with rfl | hc
  · rfl
  · exact isDigit_solid (Nat.isDigit_of_mem_toDigits (by decide) (by decide) hc)

theorem words_fdText (i : FdText) :
    words isSpace i.text = "pos:".toList :: i.pos :: "flags:".toList :: i.flagsText :: words isSpace i.rest := by
  have htab : isSpace '\t' = true := rfl
  have hnl : isSpace '\n' = true := rfl
  have hflagsText : i.flagsText ≠ [] := List.cons_ne_nil _ _
  have hposWord : ∀ ys, words isSpace ("pos:".toList ++ '\t' :: ys) = "pos:".toList :: words isSpace ys :=
    fun ys => words_word_append (by decide) (by decide) htab ys
  have hflagsWord : ∀ ys, words isSpace ("flags:".toList ++ '\t' :: ys) = "flags:".toList :: words isSpace ys :=
    fun ys => words_word_append (by decide) (by decide) htab ys
  rw [FdText.text, hposWord, words_word_append i.pos_word.1 i.pos_word.2 hnl, hflagsWord,
    words_word_append hflagsText (flagsText_solid i) hnl]

theorem scanFlags_fdText (i : FdText) (mode : BitVec 64) :
    scanFlags mode (words isSpace i.text) = i.flags.setWidth 64 := by
  have hne : "pos:".toList ≠ "flags:".toList := by decide
  rw [words_fdText, scanFlags, if_neg hne, scanFlags, if_pos rfl, readMode_flags]

/-! ## The letter -/

theorem and_one_ne_zero (x : BitVec 64) : x &&& O_WRONLY ≠ 0 ↔ x.toNat % 2 = 1 := by
  rw [ne_eq, ← BitVec.toNat_inj, BitVec.toNat_and]
  change ¬ x.toNat &&& 1 = 0 ↔ _
  rw [Nat.and_one_is_mod]
  omega

theorem and_two_ne_zero (x : BitVec 64) : x &&& O_RDWR ≠ 0 ↔ x.toNat / 2 % 2 = 1 := by
  have hbit : x.toNat &&& 2 = 2 * (x.toNat / 2 % 2) := by
    have hdiv : (x.toNat &&& 2) / 2 = x.toNat / 2 % 2 := by
      rw [← Nat.and_one_is_mod]
      exact Nat.and_div_two
    have hmod : ¬ (x.toNat &&& 2) % 2 = 1 := fun h => absurd (Nat.and_mod_two_eq_one.mp h).2 (by decide)
    omega
  rw [ne_eq, ← BitVec.toNat_inj, BitVec.toNat_and]
  change ¬ x.toNat &&& 2 = 0 ↔ _
  omega

theorem fdMode_flags (i : FdText) : fdMode (i.flags.setWidth 64) = [i.letter] := by
  have hnat : (i.flags.setWidth 64).toNat = i.flags.toNat := by
    rw [BitVec.toNat_setWidth]
    have hsmall := i.flags.isLt
    exact Nat.mod_eq_of_lt (by omega)
  have hcases : i.flags.toNat % 4 = 0 ∨ i.flags.toNat % 4 = 1 ∨ i.flags.toNat % 4 = 2 ∨ i.flags.toNat % 4 = 3 := by
    omega
  unfold fdMode FdText.letter
  rw [← hnat] at hcases ⊢
  simp only [and_one_ne_zero, and_two_ne_zero]
  rcases hcases with h | h | h | h
  · rw [if_neg (by omega), if_neg (by omega), h]
    rfl
  · rw [if_pos (by omega), h]
    rfl
  · rw [if_neg (by omega), if_pos (by omega), h]
    rfl
  · rw [if_pos (by omega), h]
    rfl

/-- What stands before the name of a row goes through the marks unchanged. -/
theorem anonName_cutDeleted_fd (e : FdInfo) : (anonName (cutDeleted e)).fd = e.fd := by
  rw [anonName_eq]
  unfold cutDeleted
  cases find deletedStart e.name with
  | none => rfl
  | some pos => rfl

theorem rwuInfo_fd (f : Opened) : (rwuInfo f).fd = f.name ++ fdMode (scanFlags f.mode (words isSpace f.fdinfo)) := by
  unfold rwuInfo
  dsimp only
  rw [anonName_cutDeleted_fd]
  cases f.readlink with
  | ok link => rfl
  | error errno => rfl

/-- **The letter is the access mode.** For every position, every flags and whatever lines follow, the column `FD`
    of an open file is the number of its descriptor and the letter of the mode it was opened in; what the variable
    `mode` held before matters only if there is no `fdinfo`. -/
theorem fd_letter (f : Opened) :
    (∀ i : FdText, f.fdinfo = i.text → (rwuInfo f).fd = f.name ++ [i.letter]) ∧
      (f.fdinfo = [] → (rwuInfo f).fd = f.name ++ fdMode f.mode) := by
  rw [rwuInfo_fd]
  constructor
  · intro i hi
    rw [hi, scanFlags_fdText, fdMode_flags]
  · intro hnone
    rw [hnone, words_nil]
    rfl

/-- A file opened for reading and writing, with `O_LARGEFILE`. -/
example : (⟨['0'], 0o100002, [], by decide⟩ : FdText).letter = 'u' := rfl

end AdvUnix.Lsof
