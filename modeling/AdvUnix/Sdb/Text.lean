import Mathlib.Data.BitVec

/-!
# `Sdb.Text` — the number parsing and formatting of the debugger's command line

`strtoll(s, NULL, 16)`, `stoi(s)` and `hex` output as the C++ library documents them, on the characters
of a token.
-/

namespace AdvUnix.Sdb

/-- `isspace` in the C locale. -/
def isSpace (c : Char) : Bool := c.toNat = 32 || (9 ≤ c.toNat && c.toNat ≤ 13)

/-- The value of a hexadecimal digit. -/
def hexDigit (c : Char) : Option Nat :=
  if '0' ≤ c ∧ c ≤ '9' then some (c.toNat - 48)
  else if 'a' ≤ c ∧ c ≤ 'f' then some (c.toNat - 87)
  else if 'A' ≤ c ∧ c ≤ 'F' then some (c.toNat - 55)
  else none

/-- The value of a decimal digit. -/
def decDigit (c : Char) : Option Nat := if '0' ≤ c ∧ c ≤ '9' then some (c.toNat - 48) else none

/-- The value of the longest run of digits, with `acc` in front of it. -/
def digitsValue (digit : Char → Option Nat) (base : Nat) : Nat → List Char → Nat
  | acc, [] => acc
  | acc, c :: cs =>
      match digit c with
      | some d => digitsValue digit base (base * acc + d) cs
      | none => acc

/-- Leading blanks skipped and the optional sign read. -/
def readSign (s : String) : Bool × List Char :=
  match s.toList.dropWhile isSpace with
  | '-' :: cs => (true, cs)
  | '+' :: cs => (false, cs)
  | cs => (false, cs)

/-- The optional `0x` of a hexadecimal number. -/
def skipHexPrefix : List Char → List Char
  | '0' :: 'x' :: cs => cs
  | '0' :: 'X' :: cs => cs
  | cs => cs

def signed (neg : Bool) (n : Nat) : Int := if neg then -(n : Int) else n

/-- `strtoll(s, NULL, 16)`: garbage after the number is ignored, no digits give `0`, and a number that
    does not fit is replaced by the nearest one that does. -/
def strtoll16 (s : String) : Int :=
  let (neg, cs) := readSign s
  max (-2 ^ 63) (min (2 ^ 63 - 1) (signed neg (digitsValue hexDigit 16 0 (skipHexPrefix cs))))

/-- The exceptions of `stoi`. -/
inductive StoiError
  | invalidArgument
  | outOfRange
  deriving DecidableEq, Repr

/-- `stoi(s)`: garbage after the number is ignored, no digits or a number that is no `int` throw. -/
def stoi (s : String) : Except StoiError Int :=
  let (neg, cs) := readSign s
  match cs with
  | [] => .error .invalidArgument
  | c :: _ =>
      if (decDigit c).isNone then .error .invalidArgument
      else
        let v := signed neg (digitsValue decDigit 10 0 cs)
        if -2 ^ 31 ≤ v ∧ v < 2 ^ 31 then .ok v else .error .outOfRange

def hexChar (d : Nat) : Char := if d < 10 then Char.ofNat (48 + d) else Char.ofNat (87 + d)

/-- The hexadecimal digits of `n < 16 ^ fuel`, most significant first. -/
def hexChars : Nat → Nat → List Char
  | 0, _ => []
  | fuel + 1, n => if n < 16 then [hexChar n] else hexChars fuel (n / 16) ++ [hexChar (n % 16)]

/-- `ss << hex << a` of a `long long`. -/
def hexString (a : BitVec 64) : String := String.ofList (hexChars 16 a.toNat)

end AdvUnix.Sdb
