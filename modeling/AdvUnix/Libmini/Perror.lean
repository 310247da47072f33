import Mathlib.Data.List.Basic

/-!
# `Libmini.Perror` — `perror`

`perror` of `libmini.c` over the library's own `write`, which sets `errno` at every call. The range test of
`perror` reads `errno` after the prefix has been written, and the index is the value from before; without a
prefix the two are one (`perror_faithful_iff`).
-/

namespace AdvUnix.Libmini

/-! ## `write` -/

/-- A call of `write`. -/
structure WriteCall where
  fd : Int
  buf : String
  count : Nat
  deriving DecidableEq, Repr

/-- `errno`, and the calls of `write`, oldest first. -/
structure Console where
  errno : Int
  calls : List WriteCall

/-- An access to `errmsg` outside its entries. -/
structure BadIndex where
  index : Int
  deriving DecidableEq, Repr

/-- A function that writes. -/
abbrev Printing (α : Type) := StateT Console (Except BadIndex) α

/-- `strlen`, of a string whose characters are bytes. -/
def strlen (s : String) : Nat := (s.toList.takeWhile (· ≠ '\x00')).length

-- what `sys_write` returns at each of its calls
variable (sysWrite : Nat → Int)

/-- `write`, with `WRAPPER_RETval(ssize_t)`. -/
def write (fd : Int) (buf : String) (count : Nat) : Printing Int := fun c =>
  let ret := sysWrite c.calls.length
  let calls := c.calls ++ [⟨fd, buf, count⟩]
  if ret < 0 then .ok (-1, ⟨-ret, calls⟩) else .ok (ret, ⟨0, calls⟩)

/-! ## `perror` -/

def PERRMSG_MIN : Int := 0
def PERRMSG_MAX : Int := 34

def errmsg : List String := [
  "Success",
  "Operation not permitted",
  "No such file or directory",
  "No such process",
  "Interrupted system call",
  "I/O error",
  "No such device or address",
  "Argument list too long",
  "Exec format error",
  "Bad file number",
  "No child processes",
  "Try again",
  "Out of memory",
  "Permission denied",
  "Bad address",
  "Block device required",
  "Device or resource busy",
  "File exists",
  "Cross-device link",
  "No such device",
  "Not a directory",
  "Is a directory",
  "Invalid argument",
  "File table overflow",
  "Too many open files",
  "Not a typewriter",
  "Text file busy",
  "File too large",
  "No space left on device",
  "Illegal seek",
  "Read-only file system",
  "Too many links",
  "Broken pipe",
  "Math argument out of domain of func",
  "Math result not representable"]

/-- `errmsg[i]` -/
def errmsgAt (i : Int) : Except BadIndex String :=
  if 0 ≤ i then
    match errmsg[i.toNat]? with
    | some msg => .ok msg
    | none => .error ⟨i⟩
  else .error ⟨i⟩

def perror (pre : Option String) : Printing Unit := do
  let unknown := "Unknown"
  let backup := (← get).errno
  match pre with
  | none => pure ()
  | some s => do
      let _ ← write sysWrite 2 s (strlen s)
      let _ ← write sysWrite 2 ": " 2
  let errno := (← get).errno
  if errno < PERRMSG_MIN ∨ errno > PERRMSG_MAX then
    let _ ← write sysWrite 2 unknown (strlen unknown)
  else
    let msg ← errmsgAt backup
    let _ ← write sysWrite 2 msg (strlen msg)
  let _ ← write sysWrite 2 "\n" 1

/-! ## What it is for -/

/-- **An error that has a message.** -/
def Listed (e : Int) : Prop := PERRMSG_MIN ≤ e ∧ e ≤ PERRMSG_MAX

instance (e : Int) : Decidable (Listed e) := inferInstanceAs (Decidable (_ ∧ _))

/-- The message of an error. -/
def message (e : Int) : String := if Listed e then errmsg[e.toNat]?.getD "" else "Unknown"

/-- The text put before the message. -/
def header : Option String → List WriteCall
  | none => []
  | some s => [⟨2, s, strlen s⟩, ⟨2, ": ", 2⟩]

/-- **`perror` is in bounds and faithful**: it returns, and what it has written is the prefix, the message of the
    error there was at the call, and the end of the line. -/
def Faithful (e : Int) (pre : Option String) : Prop :=
  ∃ c, perror sysWrite pre ⟨e, []⟩ = .ok ((), c) ∧
    c.calls = header pre ++ [⟨2, message e, strlen (message e)⟩, ⟨2, "\n", 1⟩]

/-! ## `errno` along the way -/

variable {sysWrite : Nat → Int} {c : Console} {e : Int}

/-- What `write` leaves in `errno`: the error, or zero. -/
def errnoOf (ret : Int) : Int := if ret < 0 then -ret else 0

/-- **The rule of `write`** where its result is not looked at. -/
theorem write_then {α : Type} (fd : Int) (buf : String) (count : Nat) (k : Printing α) :
    (write sysWrite fd buf count >>= fun _ => k) c
      = k ⟨errnoOf (sysWrite c.calls.length), c.calls ++ [⟨fd, buf, count⟩]⟩ := by
  show Except.bind (write sysWrite fd buf count c) _ = _
  unfold write errnoOf
  by_cases hret : sysWrite c.calls.length < 0
  · simp [hret, Except.bind]
  · simp [hret, Except.bind]

/-- `write` leaves an error that has a message, or none, unless it fails with a number beyond the table. -/
theorem errnoOf_listed {ret : Int} : Listed (errnoOf ret) ↔ -34 ≤ ret := by
  unfold Listed PERRMSG_MIN PERRMSG_MAX errnoOf
  by_cases hret : ret < 0
  · rw [if_pos hret]
    omega
  · rw [if_neg hret]
    omega

/-- The entry of a listed error. -/
theorem errmsg_listed (h : Listed e) : ∃ msg ∈ errmsg, errmsgAt e = .ok msg ∧ message e = msg := by
  obtain ⟨hmin, hmax⟩ := h
  have hpos : 0 ≤ e := hmin
  have hlt : e.toNat < errmsg.length := by
    have hmax' : e ≤ 34 := hmax
    have hlen : errmsg.length = 35 := rfl
    omega
  refine ⟨errmsg[e.toNat], List.getElem_mem hlt, ?_, ?_⟩
  · simp [errmsgAt, hpos, hlt]
  · simp [message, Listed, hmin, hmax, hlt]

theorem errmsgAt_unlisted (h : ¬ Listed e) : errmsgAt e = .error ⟨e⟩ := by
  unfold errmsgAt
  by_cases hpos : 0 ≤ e
  · have hmax : ¬ e ≤ 34 := by
      intro hmax
      exact h ⟨hpos, hmax⟩
    have hnone : errmsg[e.toNat]? = none := by
      have hlen : errmsg.length = 35 := rfl
      rw [List.getElem?_eq_none_iff]
      omega
    simp [hpos, hnone]
  · simp [hpos]

/-- No message reads as the text for an error that has none. -/
theorem message_ne_unknown (h : Listed e) : message e ≠ "Unknown" := by
  have hall : ∀ msg ∈ errmsg, msg ≠ "Unknown" := by decide
  obtain ⟨msg, hmem, -, hmsg⟩ := errmsg_listed h
  rw [hmsg]
  exact hall msg hmem

theorem message_unlisted (h : ¬ Listed e) : message e = "Unknown" := if_neg h

/-! ## The two halves of `perror` -/

variable (sysWrite)

/-- What follows the prefix: the test, with the `errno` of now, and the message, with the one from before. -/
def perrorTail (backup : Int) : Printing Unit := do
  let errno := (← get).errno
  if errno < PERRMSG_MIN ∨ errno > PERRMSG_MAX then
    let _ ← write sysWrite 2 "Unknown" (strlen "Unknown")
  else
    let msg ← errmsgAt backup
    let _ ← write sysWrite 2 msg (strlen msg)
  let _ ← write sysWrite 2 "\n" 1

variable {sysWrite}

theorem perror_none : perror sysWrite none ⟨e, []⟩ = perrorTail sysWrite e ⟨e, []⟩ := rfl

theorem perror_some (s : String) : perror sysWrite (some s) ⟨e, []⟩
    = perrorTail sysWrite e ⟨errnoOf (sysWrite 1), header (some s)⟩ := by
  show (write sysWrite 2 s (strlen s) >>= fun _ => write sysWrite 2 ": " 2 >>=
    fun _ => perrorTail sysWrite e) ⟨e, []⟩ = _
  rw [write_then, write_then]
  rfl

/-- A text and the end of the line. -/
theorem write_line (msg : String) :
    (write sysWrite 2 msg (strlen msg) >>= fun _ => write sysWrite 2 "\n" 1 >>= fun _ => pure ()) c
      = .ok ((), ⟨errnoOf (sysWrite (c.calls.length + 1)),
          c.calls ++ [⟨2, msg, strlen msg⟩, ⟨2, "\n", 1⟩]⟩) := by
  rw [write_then, write_then, List.append_assoc, List.length_append]
  rfl

/-- **The end of `perror`**, by what the two copies of `errno` say. -/
theorem perrorTail_listed {backup : Int} (h : Listed c.errno) :
    perrorTail sysWrite backup c = (errmsgAt backup).bind fun msg =>
      .ok ((), ⟨errnoOf (sysWrite (c.calls.length + 1)),
        c.calls ++ [⟨2, msg, strlen msg⟩, ⟨2, "\n", 1⟩]⟩) := by
  have hin : ¬ (c.errno < PERRMSG_MIN ∨ c.errno > PERRMSG_MAX) := by
    rintro (hlt | hgt)
    · exact absurd h.1 (Int.not_le.mpr hlt)
    · exact absurd h.2 (Int.not_le.mpr hgt)
  show (if _ then _ else _ : Printing Unit) c = _
  rw [if_neg hin]
  cases hmsg : errmsgAt backup with
  | error i => rfl
  | ok msg => exact write_line msg

theorem perrorTail_unlisted {backup : Int} (h : ¬ Listed c.errno) :
    perrorTail sysWrite backup c = .ok ((), ⟨errnoOf (sysWrite (c.calls.length + 1)),
      c.calls ++ [⟨2, "Unknown", strlen "Unknown"⟩, ⟨2, "\n", 1⟩]⟩) := by
  have hout : c.errno < PERRMSG_MIN ∨ c.errno > PERRMSG_MAX := by
    by_contra hnot
    rw [not_or, Int.not_lt, Int.not_lt] at hnot
    exact h hnot
  show (if _ then _ else _ : Printing Unit) c = _
  rw [if_pos hout]
  exact write_line "Unknown"

/-- **The end of `perror` is right** where the test and the index agree. -/
theorem perrorTail_faithful {before : List WriteCall} {now : Int} :
    (∃ c, perrorTail sysWrite e ⟨now, before⟩ = .ok ((), c) ∧
      c.calls = before ++ [⟨2, message e, strlen (message e)⟩, ⟨2, "\n", 1⟩]) ↔
        (Listed e ↔ Listed now) := by
  by_cases hnow : Listed now
  · rw [perrorTail_listed hnow]
    by_cases he : Listed e
    · obtain ⟨msg, -, hget, hmsg⟩ := errmsg_listed he
      rw [hget, hmsg]
      exact iff_of_true ⟨_, rfl, rfl⟩ (iff_of_true he hnow)
    · -- the test lets an index through that the table does not have
      rw [errmsgAt_unlisted he]
      refine iff_of_false ?_ (fun hiff => he (hiff.mpr hnow))
      rintro ⟨c, hc, -⟩
      cases hc
  · rw [perrorTail_unlisted hnow]
    by_cases he : Listed e
    · -- the message is there, but the test does not ask for it
      refine iff_of_false ?_ (fun hiff => hnow (hiff.mp he))
      rintro ⟨c, hc, hcalls⟩
      cases hc
      have htext := List.append_cancel_left hcalls
      simp only [List.cons.injEq, WriteCall.mk.injEq] at htext
      exact message_ne_unknown he htext.1.2.1.symm
    · rw [message_unlisted he]
      exact iff_of_true ⟨_, rfl, rfl⟩ (iff_of_false he hnow)

/-- **When `perror` is in bounds and faithful**: always without a prefix; with one, when the errors there were
    at the call and after the second write both have a message, or neither has. -/
theorem perror_faithful_iff (sysWrite : Nat → Int) (e : Int) (pre : Option String) :
    Faithful sysWrite e pre ↔ pre = none ∨ (Listed e ↔ -34 ≤ sysWrite 1) := by
  cases pre with
  | none =>
      unfold Faithful
      rw [perror_none, show header none = [] from rfl, perrorTail_faithful]
      simp
  | some s =>
      unfold Faithful
      rw [perror_some, perrorTail_faithful, errnoOf_listed]
      simp

/-- An error beyond the table, and a prefix that is written. -/
theorem perror_out_of_bounds : ¬ ∀ (sysWrite : Nat → Int) (e : Int) (pre : Option String),
    Faithful sysWrite e pre := by
  intro h
  obtain ⟨c, hc, -⟩ := h (fun _ => 1) 100 (some "x")
  cases hc

end AdvUnix.Libmini
