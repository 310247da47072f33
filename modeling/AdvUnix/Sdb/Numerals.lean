import AdvUnix.Sdb.Debugger
import Mathlib.Data.List.Induction

/-!
# `Sdb.Numerals` — what the numbers of the command line stand for

`strtoll` and `stoi` on numerals written out: a hexadecimal numeral has its value, cut to the range of a `long long`
(`strtoll16_numeral`), and the decimal numeral of an `int` has its own (`stoi_toString`). A token may be anything
else, too; `stoi` then throws or reads the number the token begins with.
-/

namespace AdvUnix.Sdb

/-! ## Digits -/

variable {digit : Char → Option Nat} {base n m : Nat} {cs rest : List Char} {c : Char} {d : Nat}

/-- **The digits `cs` spell the number `n`**, the most significant one first. -/
inductive Spells (digit : Char → Option Nat) (base : Nat) : List Char → Nat → Prop
  | one {c : Char} {d : Nat} (h : digit c = some d) : Spells digit base [c] d
  | snoc {cs : List Char} {n : Nat} {c : Char} {d : Nat} (hcs : Spells digit base cs n)
      (h : digit c = some d) : Spells digit base (cs ++ [c]) (base * n + d)

theorem Spells.ne_nil (h : Spells digit base cs n) : cs ≠ [] := by
  cases h with
  | one hc => simp
  | snoc hcs hc => simp

theorem Spells.digits (h : Spells digit base cs n) : ∀ c ∈ cs, (digit c).isSome := by
  induction h with
  | one hc => simp [hc]
  | snoc hcs hc ih =>
      intro x hx
      rcases List.mem_append.mp hx with hx | hx
      · exact ih x hx
      · cases List.mem_singleton.mp hx
        simp [hc]

/-- A run of digits is read as the number it spells. -/
theorem Spells.digitsValue (h : Spells digit base cs n) (rest : List Char) :
    digitsValue digit base 0 (cs ++ rest) = digitsValue digit base n rest := by
  induction h generalizing rest with
  | one hc => simp [Sdb.digitsValue, hc]
  | snoc hcs hc ih =>
      rw [List.append_assoc, ih]
      simp [Sdb.digitsValue, hc]

theorem Spells.value (h : Spells digit base cs n) : Sdb.digitsValue digit base 0 cs = n := by
  have hvalue := h.digitsValue []
  rwa [List.append_nil] at hvalue

/-- Any run of digits spells a number. -/
theorem spells_digits (hne : cs ≠ []) (hcs : (cs.all fun c => (digit c).isSome) = true) :
    Spells digit base cs (digitsValue digit base 0 cs) := by
  rw [List.all_eq_true] at hcs
  induction cs using List.reverseRecOn with
  | nil => exact absurd rfl hne
  | append_singleton cs c ih =>
      obtain ⟨d, hd⟩ := Option.isSome_iff_exists.mp (hcs c (by simp))
      by_cases hnil : cs = []
      · rw [hnil]
        simpa [digitsValue, hd] using Spells.one hd
      · have hspells := ih hnil fun x hx => hcs x (by simp [hx])
        rw [hspells.digitsValue]
        simpa [digitsValue, hd] using hspells.snoc hd

/-- Digits are behind the blanks and the signs in the character table. -/
theorem hexDigit_toNat (h : (hexDigit c).isSome) : 48 ≤ c.toNat := by
  have hle : ∀ b : Char, 48 ≤ b.toNat → b ≤ c → 48 ≤ c.toNat := by
    intro b hb hbc
    exact Nat.le_trans hb (UInt32.le_iff_toNat_le.mp hbc)
  unfold hexDigit at h
  split at h
  · exact hle '0' (by decide) (by simp_all)
  · split at h
    · exact hle 'a' (by decide) (by simp_all)
    · split at h
      · exact hle 'A' (by decide) (by simp_all)
      · cases h

/-- A digit is neither a blank nor a sign, and not the `x` of a prefix. -/
theorem hexDigit_plain (h : (hexDigit c).isSome) :
    isSpace c = false ∧ c ≠ '-' ∧ c ≠ '+' ∧ c ≠ 'x' ∧ c ≠ 'X' := by
  have hnat := hexDigit_toNat h
  refine ⟨?_, ?_, ?_, ?_, ?_⟩
  · simp [isSpace]
    omega
  all_goals
    rintro rfl
    revert h
    decide

theorem decDigit_hex (h : (decDigit c).isSome) : (hexDigit c).isSome := by
  unfold decDigit at h
  unfold hexDigit
  split at h
  · rename_i hc
    rw [if_pos hc]
    rfl
  · cases h

/-! ## Hexadecimal numerals -/

/-- **A hexadecimal numeral** of a number: an optional sign, an optional `0x`, and digits. -/
def HexNumeral (s : String) (n : Int) : Prop :=
  ∃ (neg : Bool) (sign pre digits : List Char) (m : Nat), s.toList = sign ++ (pre ++ digits) ∧
    (neg = false ∧ (sign = [] ∨ sign = ['+']) ∨ neg = true ∧ sign = ['-']) ∧
    (pre = [] ∨ pre = ['0', 'x'] ∨ pre = ['0', 'X']) ∧
    Spells hexDigit 16 digits m ∧ n = signed neg m

/-- **A hexadecimal address**: the same without a sign, for a word. -/
def HexAddress (s : String) (a : BitVec 64) : Prop :=
  ∃ (pre digits : List Char), s.toList = pre ++ digits ∧
    (pre = [] ∨ pre = ['0', 'x'] ∨ pre = ['0', 'X']) ∧ Spells hexDigit 16 digits a.toNat

theorem HexAddress.numeral {s : String} {a : BitVec 64} (h : HexAddress s a) : HexNumeral s a.toNat := by
  obtain ⟨pre, digits, hs, hpre, hdigits⟩ := h
  exact ⟨false, [], pre, digits, a.toNat, hs, Or.inl ⟨rfl, Or.inl rfl⟩, hpre, hdigits, rfl⟩

/-- What stands behind the sign begins with a digit. -/
theorem readSign_of {s : String} {neg : Bool} {sign cs : List Char} (hs : s.toList = sign ++ cs)
    (hsign : neg = false ∧ (sign = [] ∨ sign = ['+']) ∨ neg = true ∧ sign = ['-'])
    (hcs : ∃ c rest, cs = c :: rest ∧ (hexDigit c).isSome) : readSign s = (neg, cs) := by
  obtain ⟨c, rest, rfl, hc⟩ := hcs
  obtain ⟨hspace, hminus, hplus, -, -⟩ := hexDigit_plain hc
  unfold readSign
  rw [hs]
  rcases hsign with ⟨rfl, rfl | rfl⟩ | ⟨rfl, rfl⟩
  · rw [List.nil_append, List.dropWhile_cons_of_neg (by simp [hspace])]
    split
    · rename_i heq
      exact absurd (List.cons.inj heq).1 hminus
    · rename_i heq
      exact absurd (List.cons.inj heq).1 hplus
    · rfl
  · rfl
  · rfl

theorem skipHexPrefix_of {pre digits : List Char} (hpre : pre = [] ∨ pre = ['0', 'x'] ∨ pre = ['0', 'X'])
    (hdigits : ∀ c ∈ digits, (hexDigit c).isSome) : skipHexPrefix (pre ++ digits) = digits := by
  rcases hpre with rfl | rfl | rfl
  · rw [List.nil_append]
    unfold skipHexPrefix
    split
    · exact absurd rfl (hexDigit_plain (hdigits 'x' (by simp))).2.2.2.1
    · exact absurd rfl (hexDigit_plain (hdigits 'X' (by simp))).2.2.2.2
    · rfl
  · rfl
  · rfl

/-- **`strtoll` on a hexadecimal numeral**: its value, or the nearest `long long`. -/
theorem strtoll16_numeral {s : String} {n : Int} (h : HexNumeral s n) :
    strtoll16 s = max (-2 ^ 63) (min (2 ^ 63 - 1) n) := by
  obtain ⟨neg, sign, pre, digits, m, hs, hsign, hpre, hdigits, rfl⟩ := h
  have hsome := hdigits.digits
  have hhead : ∃ c rest, pre ++ digits = c :: rest ∧ (hexDigit c).isSome := by
    rcases hpre with rfl | rfl | rfl
    · cases digits with
      | nil => exact absurd rfl hdigits.ne_nil
      | cons c rest => exact ⟨c, rest, rfl, hsome c List.mem_cons_self⟩
    · exact ⟨'0', 'x' :: digits, rfl, by decide⟩
    · exact ⟨'0', 'X' :: digits, rfl, by decide⟩
  unfold strtoll16
  rw [readSign_of hs hsign hhead]
  simp only [skipHexPrefix_of hpre hsome, hdigits.value]

/-! ## Addresses and values -/

variable {tok : String} {k : Int} {a : Addr}

/-- There is a digit in a number. -/
theorem HexNumeral.has_digit (h : HexNumeral tok k) :
    (tok.toList.any fun c => (hexDigit c).isSome) = true := by
  obtain ⟨neg, sign, pre, digits, m, hs, -, -, hdigits, -⟩ := h
  cases digits with
  | nil => exact absurd rfl hdigits.ne_nil
  | cons c rest => exact List.any_eq_true.mpr ⟨c, by simp [hs], hdigits.digits c List.mem_cons_self⟩

theorem HexNumeral.ne_QQ (h : HexNumeral tok k) : tok ≠ "QQ" := by
  rintro rfl
  have hdigit := h.has_digit
  revert hdigit
  decide

/-- A token is the address of one word at most. -/
theorem HexAddress.toNat_eq (h : HexAddress tok a) :
    a.toNat = digitsValue hexDigit 16 0 (skipHexPrefix tok.toList) := by
  obtain ⟨pre, digits, hs, hpre, hdigits⟩ := h
  rw [hs, skipHexPrefix_of hpre hdigits.digits, hdigits.value]

/-- **The parser keeps a value** exactly below `2 ^ 63`. -/
theorem addrOf_numeral (h : HexNumeral tok k) (hlow : -2 ^ 63 ≤ k) (hhigh : k < 2 ^ 64) :
    addrOf tok = BitVec.ofInt 64 k ↔ k < 2 ^ 63 := by
  unfold addrOf
  rw [strtoll16_numeral h]
  by_cases hk : k < 2 ^ 63
  · rw [min_eq_right (by omega), max_eq_right hlow]
    exact iff_of_true rfl hk
  · rw [min_eq_left (by omega), max_eq_right (by omega)]
    refine iff_of_false ?_ hk
    intro heq
    have hnat := congrArg BitVec.toNat heq
    rw [BitVec.toNat_ofInt, BitVec.toNat_ofInt] at hnat
    omega

/-- An address below `2 ^ 63` is the one that the parser finds. -/
theorem addrOf_address (h : HexAddress tok a) : addrOf tok = a ↔ a.toNat < 2 ^ 63 := by
  have hlt := a.isLt
  have hkept := addrOf_numeral h.numeral (by omega) (by omega)
  rw [BitVec.ofInt_natCast, BitVec.ofNat_toNat, BitVec.setWidth_eq] at hkept
  exact hkept.trans (by omega)

/-! ## Decimal numerals -/

theorem spells_toDigits (n : Nat) : Spells decDigit 10 (Nat.toDigits 10 n) n := by
  induction n using Nat.strong_induction_on with
  | _ n ih =>
      have hdigit : ∀ d < 10, decDigit (Nat.digitChar d) = some d := by decide
      by_cases hlt : n < 10
      · rw [Nat.toDigits_of_lt_base hlt]
        exact .one (hdigit n hlt)
      · have hlast := hdigit (n % 10) (Nat.mod_lt n (by decide))
        rw [Nat.toDigits_of_base_le (by decide) (by omega)]
        have hspells := Spells.snoc (ih (n / 10) (by omega)) hlast
        rwa [Nat.div_add_mod] at hspells

/-- **`stoi` on a decimal numeral.** -/
theorem stoi_numeral {s : String} {neg : Bool} {sign digits : List Char} {m : Nat}
    (hs : s.toList = sign ++ digits)
    (hsign : neg = false ∧ (sign = [] ∨ sign = ['+']) ∨ neg = true ∧ sign = ['-'])
    (hdigits : Spells decDigit 10 digits m) :
    stoi s = if -2 ^ 31 ≤ signed neg m ∧ signed neg m < 2 ^ 31 then .ok (signed neg m)
      else .error .outOfRange := by
  have hsome := hdigits.digits
  have hvalue := hdigits.value
  cases digits with
  | nil => exact absurd rfl hdigits.ne_nil
  | cons c rest =>
      have hc := hsome c List.mem_cons_self
      have hnone : (decDigit c).isNone = false := by
        rw [← Option.not_isSome, hc]
        rfl
      unfold stoi
      rw [readSign_of hs hsign ⟨c, rest, rfl, decDigit_hex hc⟩]
      simp only [hnone, Bool.false_eq_true, if_false, hvalue]

/-- **The decimal numeral of a number** is read back, when the number is an `int`. -/
theorem stoi_toString (n : Int) :
    stoi (toString n) = if -2 ^ 31 ≤ n ∧ n < 2 ^ 31 then .ok n else .error .outOfRange := by
  rw [Int.toString_eq_repr, Int.repr_eq_if]
  by_cases hn : 0 ≤ n
  · have hvalue : signed false n.toNat = n := by
      simp [signed, hn]
    rw [if_pos hn, ← hvalue]
    refine @stoi_numeral _ false [] _ _ ?_ (Or.inl ⟨rfl, Or.inl rfl⟩) (spells_toDigits n.toNat)
    rw [Nat.toList_repr, hvalue]
    rfl
  · have hvalue : signed true (-n).toNat = n := by
      simp only [signed, if_true]
      omega
    rw [if_neg hn, ← hvalue]
    refine @stoi_numeral _ true ['-'] _ _ ?_ (Or.inr ⟨rfl, rfl⟩) (spells_toDigits (-n).toNat)
    rw [String.toList_append, Nat.toList_repr, hvalue]
    rfl

end AdvUnix.Sdb
