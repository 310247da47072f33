import AdvUnix.Elf.Safety
import AdvUnix.Sdb.Prompt
import AdvUnix.Sdb.Sample

/-!
# `Sdb.Dump` — the window of memory that `dump` shows

`dump` shows rows of sixteen cells from `dumpaddr` on, and moves `dumpaddr` over them. How many rows there
are and how many bytes are shown in them is computed from the distance to the end of `.text`, each in its
own way (`dump_spec`). One `dump` shows its window exactly for the distances that both get right
(`dump_window`); over several, the bytes follow each other up to the end of the section
(`dump_continues`).
-/

namespace AdvUnix.Sdb

open ByteStore Debugger

variable {ω : Type} {H : Host ω} {s s' s'' : Debugger ω}

/-! ## Rows -/

/-- The label of a row and its cells. -/
abbrev Row := Addr × List (Option Byte)

def Row.out (r : Row) : Out := .dumpRow r.1 r.2

/-- The cells that show a byte, each with the address it stands for. -/
def located : Addr → List (Option Byte) → List (Addr × Byte)
  | _, [] => []
  | a, none :: cells => located (a + 1) cells
  | a, some b :: cells => (a, b) :: located (a + 1) cells

/-- **The bytes that rows show**, in order, each with the address it stands for. -/
def shown (rows : List Row) : List (Addr × Byte) := rows.flatMap fun r => located r.1 r.2

/-- Bytes at consecutive addresses. -/
def bytesFrom : Addr → List Byte → List (Addr × Byte)
  | _, [] => []
  | a, b :: bs => (a, b) :: bytesFrom (a + 1) bs

theorem addr_add (a : Addr) (m n : Nat) :
    a + BitVec.ofNat 64 m + BitVec.ofNat 64 n = a + BitVec.ofNat 64 (m + n) := by
  rw [BitVec.add_assoc, BitVec.ofNat_add]

theorem addr_succ (a : Addr) (n : Nat) : a + 1 + BitVec.ofNat 64 n = a + BitVec.ofNat 64 (n + 1) := by
  rw [Nat.add_comm n 1]
  exact addr_add a 1 n

theorem bytesFrom_append (a : Addr) (xs ys : List Byte) :
    bytesFrom a (xs ++ ys) = bytesFrom a xs ++ bytesFrom (a + BitVec.ofNat 64 xs.length) ys := by
  induction xs generalizing a with
  | nil => simp only [bytesFrom, List.nil_append, List.length_nil, BitVec.add_zero]
  | cons x xs ih => simp only [bytesFrom, List.cons_append, List.length_cons, ih, addr_succ]

/-- The addresses of consecutive bytes count up from the first. -/
theorem bytesFrom_map (a : Addr) (bs : List Byte) :
    (bytesFrom a bs).map (fun x => (x.1, some x.2))
      = (List.range bs.length).map fun i => (a + BitVec.ofNat 64 i, bs[i]?) := by
  induction bs generalizing a with
  | nil => rfl
  | cons b bs ih =>
      rw [bytesFrom, List.map_cons, ih, List.length_cons, List.range_succ_eq_map, List.map_cons, List.map_map]
      congr 1
      · simp only [BitVec.add_zero, List.getElem?_cons_zero]
      · apply List.map_congr_left
        intro i _
        simp only [Function.comp_apply, List.getElem?_cons_succ, addr_succ]

/-- **The cells of one row**: bytes are shown until the count reaches `length`. -/
theorem located_dumpCells (length : Int) (a : Addr) (bs : List Byte) (cnt : Int) :
    located a (dumpCells length bs cnt).1 = bytesFrom a (bs.take (length - cnt).toNat) := by
  induction bs generalizing a cnt with
  | nil => rw [List.take_nil]; rfl
  | cons b bs ih =>
      by_cases hfull : cnt ≥ length
      · have hnone : (length - cnt).toNat = 0 := by omega
        have hrest := ih (a + 1) cnt
        simp only [dumpCells, if_pos hfull, located]
        rw [hrest, hnone, List.take_zero, List.take_zero]
        rfl
      · have hone : (length - cnt).toNat = (length - (cnt + 1)).toNat + 1 := by omega
        have hrest := ih (a + 1) (cnt + 1)
        simp only [dumpCells, if_neg hfull, located]
        rw [hrest, hone, List.take_succ_cons]
        rfl

theorem dumpCells_count (length : Int) (bs : List Byte) (cnt : Int) :
    (dumpCells length bs cnt).2 = cnt + (min bs.length (length - cnt).toNat : Nat) := by
  induction bs generalizing cnt with
  | nil => simp only [dumpCells, List.length_nil, Nat.zero_min, Nat.cast_zero, Int.add_zero]
  | cons b bs ih =>
      by_cases hfull : cnt ≥ length
      · have hrest := ih cnt
        simp only [dumpCells, if_pos hfull, List.length_cons]
        rw [hrest]
        omega
      · have hrest := ih (cnt + 1)
        simp only [dumpCells, if_neg hfull, List.length_cons]
        rw [hrest]
        omega

/-! ## What the debugger sees of memory -/

namespace Debugger

/-- The word that `PTRACE_PEEKTEXT` finds at an address. -/
def wordAt (s : Debugger ω) (a : Addr) : Option Word := s.world.wordAt s.child a

/-- **The memory of the tracee.** -/
def memory (s : Debugger ω) (a : Addr) : Option Byte := s.tracee.bind fun p => p.cpu.mem a

/-- `n` words of memory as `PTRACE_PEEKTEXT` returns them: `-1` for one that cannot be read. -/
def seen (s : Debugger ω) : Addr → Nat → List Byte
  | _, 0 => []
  | a, n + 1 => wordBytes ((s.wordAt a).getD (-1)) ++ seen s (a + 8) n

end Debugger

@[simp] theorem seen_length (a : Addr) (n : Nat) : (s.seen a n).length = 8 * n := by
  induction n generalizing a with
  | zero => rfl
  | succ n ih =>
      rw [Debugger.seen, List.length_append, wordBytes_length, ih]
      omega

theorem seen_add (a : Addr) (m n : Nat) :
    s.seen a (m + n) = s.seen a m ++ s.seen (a + BitVec.ofNat 64 (8 * m)) n := by
  induction m generalizing a with
  | zero =>
      simp only [Debugger.seen, Nat.zero_add, List.nil_append, Nat.mul_zero, BitVec.add_zero]
  | succ m ih =>
      have hnext : a + 8 + BitVec.ofNat 64 (8 * m) = a + BitVec.ofNat 64 (8 * (m + 1)) := by
        rw [show 8 * (m + 1) = 8 + 8 * m by omega]
        exact addr_add a 8 (8 * m)
      rw [show m + 1 + n = (m + n) + 1 by omega, Debugger.seen, Debugger.seen, ih, List.append_assoc, hnext]

/-- A byte seen is one of the word it lies in. -/
theorem seen_getElem? {a : Addr} {n i : Nat} (h : i < 8 * n) :
    (s.seen a n)[i]?
      = (wordBytes ((s.wordAt (a + BitVec.ofNat 64 (8 * (i / 8)))).getD (-1)))[i % 8]? := by
  have hbefore : 8 * (i / 8) ≤ i := Nat.mul_div_le i 8
  have hsplit : n = i / 8 + (1 + (n - i / 8 - 1)) := by omega
  rw [hsplit, seen_add, List.getElem?_append_right (by rw [seen_length]; exact hbefore), seen_add, seen_length,
    show i - 8 * (i / 8) = i % 8 by omega]
  have hin : i % 8 < (s.seen (a + BitVec.ofNat 64 (8 * (i / 8))) 1).length := by
    rw [seen_length]
    omega
  rw [List.getElem?_append_left hin, Debugger.seen, Debugger.seen, List.append_nil]

/-- **What is seen is the memory** where its word can be read; elsewhere `0xff` is seen. -/
theorem seen_memory {a : Addr} {n i : Nat} (h : i < 8 * n) :
    (s.seen a n)[i]? = s.memory (a + BitVec.ofNat 64 i) ↔
      (s.wordAt (a + BitVec.ofNat 64 (8 * (i / 8)))).isSome ∨
        s.memory (a + BitVec.ofNat 64 i) = some 0xff := by
  have hlt : i % 8 < 8 := Nat.mod_lt i (by decide)
  rw [seen_getElem? h]
  cases hword : s.wordAt (a + BitVec.ofNat 64 (8 * (i / 8))) with
  | none =>
      have hff : (wordBytes (-1))[i % 8]? = some 0xff := by
        rw [show wordBytes (-1) = List.replicate 8 0xff from by decide, List.getElem?_replicate, if_pos hlt]
      simp only [Option.getD_none, Option.isSome_none, Bool.false_eq_true, false_or, hff]
      exact eq_comm
  | some v =>
      simp only [Option.getD_some, Option.isSome_some, true_or, iff_true]
      obtain ⟨p, hp, hpeek⟩ := Option.bind_eq_some_iff.mp hword
      obtain ⟨bs, hlen, hread, rfl⟩ := Mem.peek_eq_some hpeek
      have hcell := congrArg (fun l : List (Option Byte) => l[i % 8]?) hread
      have hin : i % 8 < (read p.cpu.mem (a + BitVec.ofNat 64 (8 * (i / 8))) 8).length := by
        rw [read_length]
        exact hlt
      have haddr : a + BitVec.ofNat 64 (8 * (i / 8)) + BitVec.ofNat 64 (i % 8) = a + BitVec.ofNat 64 i := by
        rw [addr_add, Nat.div_add_mod]
      simp only [List.getElem?_eq_getElem hin, read_getElem, List.getElem?_map, haddr,
        List.getElem?_eq_getElem (show i % 8 < bs.length by omega), Option.map_some] at hcell
      have hmem : s.memory (a + BitVec.ofNat 64 i) = p.cpu.mem (a + BitVec.ofNat 64 i) := by
        rw [Debugger.memory, show s.tracee = some p from hp]
        rfl
      rw [hmem, Option.some.inj hcell, wordBytes_word hlen,
        List.getElem?_eq_getElem (show i % 8 < bs.length by omega)]

/-! ## The rows of one `dump` -/

/-- Nothing but the output, the log and `dumpaddr` has changed. -/
structure Kept (s s' : Debugger ω) : Prop where
  procs : s'.world.procs = s.world.procs
  child : s'.child = s.child
  state : s'.state = s.state
  text : s'.text = s.text

namespace Kept

theorem trans (h : Kept s s') (h' : Kept s' s'') : Kept s s'' where
  procs := h'.procs.trans h.procs
  child := h'.child.trans h.child
  state := h'.state.trans h.state
  text := h'.text.trans h.text

theorem tracee (h : Kept s s') : s'.tracee = s.tracee := by
  unfold Debugger.tracee
  rw [h.procs, h.child]

theorem wordAt (h : Kept s s') (a : Addr) : s'.wordAt a = s.wordAt a := by
  unfold Debugger.wordAt World.wordAt
  rw [h.procs, h.child]

theorem memory (h : Kept s s') (a : Addr) : s'.memory a = s.memory a := by
  unfold Debugger.memory
  rw [h.tracee]

theorem seen (h : Kept s s') (a : Addr) (n : Nat) : s'.seen a n = s.seen a n := by
  induction n generalizing a with
  | zero => rfl
  | succ n ih => rw [Debugger.seen, Debugger.seen, ih, h.wordAt]

theorem atRest (h : Kept s s') (hs : s.AtRest) : s'.AtRest := by
  intro p hp
  rw [h.procs, h.child] at hp
  exact hs p hp

end Kept

/-- **`rows` have been printed** from `s` to `s'`: `n` of them, with the first `len` bytes seen from
    `dumpaddr` on in them. -/
structure Dumped (s s' : Debugger ω) (n len : Nat) (rows : List Row) : Prop where
  kept : Kept s s'
  out : s'.out = s.out ++ rows.map Row.out
  dumpaddr : s'.dumpaddr = s.dumpaddr + BitVec.ofNat 64 (16 * n)
  labels : rows.map (·.1) = (List.range n).map fun i => s.dumpaddr + BitVec.ofNat 64 (16 * i)
  bytes : shown rows = bytesFrom s.dumpaddr ((s.seen s.dumpaddr (2 * n)).take len)

theorem dumpRow_spec (hs : s.AtRest) (length cnt : Int) :
    ∃ cells, Dumped s (dumpRow H length cnt s).1 1 (length - cnt).toNat [(s.dumpaddr, cells)] ∧
      (dumpRow H length cnt s).2 = cnt + (min 16 (length - cnt).toNat : Nat) := by
  have hfirst := World.peektext_atRest (H := H) hs s.dumpaddr
  have hsecond := World.peektext_atRest (H := H) (hs.logged (.request s.child (s.world.procs s.child).isSome))
    (s.dumpaddr + 8)
  -- a row is two words
  have hseen : s.seen s.dumpaddr 2
      = wordBytes ((s.wordAt s.dumpaddr).getD (-1)) ++ wordBytes ((s.wordAt (s.dumpaddr + 8)).getD (-1)) := by
    simp only [Debugger.seen, List.append_nil]
  have hrow : dumpRow H length cnt s
      = (({ s with
            world := (s.world.logged (.request s.child (s.world.procs s.child).isSome)).logged
              (.request s.child (s.world.procs s.child).isSome)
            dumpaddr := s.dumpaddr + 16 } : Debugger ω).say
          (.dumpRow s.dumpaddr (dumpCells length (s.seen s.dumpaddr 2) cnt).1),
        (dumpCells length (s.seen s.dumpaddr 2) cnt).2) := by
    rw [hseen]
    unfold dumpRow
    simp only [hfirst, hsecond]
    rfl
  refine ⟨(dumpCells length (s.seen s.dumpaddr 2) cnt).1, ?_, ?_⟩
  · rw [hrow]
    constructor
    · exact ⟨rfl, rfl, rfl, rfl⟩
    · rfl
    · rfl
    · simp only [List.map_cons, List.map_nil, List.range_one, Nat.mul_zero, BitVec.add_zero]
    · simp only [shown, List.flatMap_cons, List.flatMap_nil, List.append_nil, Nat.mul_one]
      exact located_dumpCells length s.dumpaddr _ cnt
  · rw [hrow]
    have hcount := dumpCells_count length (s.seen s.dumpaddr 2) cnt
    rw [seen_length] at hcount
    exact hcount

/-- The rows so far and the rows after them. -/
theorem Dumped.append {m n len : Nat} {rows rows' : List Row} (h : Dumped s s' m len rows)
    (h' : Dumped s' s'' n (len - min (16 * m) len) rows') : Dumped s s'' (m + n) len (rows ++ rows') := by
  constructor
  · exact h.kept.trans h'.kept
  · rw [h'.out, h.out, List.map_append, List.append_assoc]
  · rw [h'.dumpaddr, h.dumpaddr, addr_add, Nat.mul_add]
  · rw [List.map_append, h.labels, h'.labels, List.range_add, List.map_append, List.map_map]
    congr 1
    apply List.map_congr_left
    intro i _
    rw [Function.comp_apply, h.dumpaddr, addr_add, Nat.mul_add]
  · have hnext : s'.dumpaddr = s.dumpaddr + BitVec.ofNat 64 (8 * (2 * m)) := by
      rw [h.dumpaddr]
      congr 2
      omega
    have hall : shown (rows ++ rows') = shown rows ++ shown rows' := List.flatMap_append
    rw [hall, h.bytes, h'.bytes, Nat.mul_add, seen_add, List.take_append, seen_length, bytesFrom_append,
      hnext, h.kept.seen, List.length_take, seen_length]
    -- either these rows are full, or the count has ended and nothing follows
    by_cases hfull : 16 * m ≤ len
    · have hin : min len (8 * (2 * m)) = 8 * (2 * m) := by omega
      rw [hin, show len - min (16 * m) len = len - 8 * (2 * m) by omega]
    · have hended : len - 8 * (2 * m) = 0 := by omega
      rw [hended, show len - min (16 * m) len = 0 by omega, List.take_zero, bytesFrom, bytesFrom]

theorem dumpLoop_spec (hs : s.AtRest) (length : Int) (n : Nat) (cnt : Int) :
    ∃ rows, Dumped s (dumpLoop H length n cnt s) n (length - cnt).toNat rows := by
  induction n generalizing s cnt with
  | zero =>
      refine ⟨[], ?_⟩
      constructor
      · exact ⟨rfl, rfl, rfl, rfl⟩
      · simp only [dumpLoop, List.map_nil, List.append_nil]
      · simp only [dumpLoop, Nat.mul_zero, BitVec.add_zero]
      · rfl
      · simp only [Debugger.seen, List.take_nil, bytesFrom]
        rfl
  | succ n ih =>
      obtain ⟨cells, hrow, hcount⟩ := dumpRow_spec (H := H) hs length cnt
      obtain ⟨rows, hrows⟩ := ih (hrow.kept.atRest hs) (dumpRow H length cnt s).2
      rw [dumpLoop_succ]
      refine ⟨[(s.dumpaddr, cells)] ++ rows, ?_⟩
      rw [Nat.add_comm n 1]
      refine hrow.append ?_
      rw [show (length - cnt).toNat - min (16 * 1) (length - cnt).toNat
        = (length - (dumpRow H length cnt s).2).toNat by omega]
      exact hrows

/-- The number of rows that `dump` prints at a distance from the end of the section. -/
def lineCount (rest : Int) : Nat :=
  (if rest ≥ 80 then 5 else Int.bmod (rest.tdiv 16 + 1) (2 ^ 32)).toNat

/-- The number of bytes that it is ready to show. -/
def byteCount (rest : Int) : Nat := (Int.bmod rest (2 ^ 32)).toNat

/-- Where `dump` starts. -/
def dumpFrom (s : Debugger ω) (sAddr : String) : Addr := if sAddr ≠ "NO" then addrOf sAddr else s.dumpaddr

/-- The distance from an address to the end of the `.text` section. -/
def restAt (text : Elf.Shdr) (a : Addr) : Int := (textEnd text - a).toInt

/-- **`dump`**: as many rows as are counted, with as many bytes as are counted or fit them. -/
theorem dump_spec (hrun : s.state = .running) (hs : s.AtRest) (sAddr : String) :
    ∃ s' rows, dump H s sAddr = .ok s' ∧
      Dumped { s with dumpaddr := dumpFrom s sAddr } s' (lineCount (restAt s.text (dumpFrom s sAddr)))
        (byteCount (restAt s.text (dumpFrom s sAddr))) rows := by
  -- an address that is given replaces `dumpaddr`, so the loop starts there
  have hfrom : (if sAddr ≠ "NO" then { s with dumpaddr := addrOf sAddr } else s)
      = { s with dumpaddr := dumpFrom s sAddr } := by
    unfold dumpFrom
    split <;> rfl
  have hrest : ({ s with dumpaddr := dumpFrom s sAddr } : Debugger ω).AtRest := hs
  obtain ⟨rows, hrows⟩ := dumpLoop_spec (H := H) hrest
    (Int.bmod (restAt s.text (dumpFrom s sAddr)) (2 ^ 32)) (lineCount (restAt s.text (dumpFrom s sAddr))) 0
  rw [Int.sub_zero] at hrows
  refine ⟨_, rows, ?_, hrows⟩
  unfold dump
  rw [if_neg (fun hne => hne hrun), hfrom]
  rfl

/-! ## One window -/

/-- The bytes of the section from `a` on, eighty at most. -/
def windowSize (text : Elf.Shdr) (a : Addr) : Nat := min 80 ((textEnd text).toNat - a.toNat)

/-- **The rows show `n` bytes of memory** from `a` on, each once and in ascending order. -/
def ShowsMemory (s : Debugger ω) (a : Addr) (n : Nat) (rows : List Row) : Prop :=
  (shown rows).map (fun x => (x.1, some x.2))
    = (List.range n).map fun i => (a + BitVec.ofNat 64 i, s.memory (a + BitVec.ofNat 64 i))

/-- **The rows show the window** at `a`. -/
structure ShowsWindow (s : Debugger ω) (a : Addr) (rows : List Row) : Prop where
  bytes : ShowsMemory s a (windowSize s.text a) rows
  labels : rows.map (·.1)
    = (List.range ((windowSize s.text a + 15) / 16)).map fun i => a + BitVec.ofNat 64 (16 * i)
  five : rows.length ≤ 5
  inside : ∀ x ∈ shown rows, x.1.toNat < (textEnd s.text).toNat

/-- `dump` prints the window at the address it is given, and nothing else. -/
def DumpsWindow (H : Host ω) (s : Debugger ω) (sAddr : String) : Prop :=
  ∃ s' rows, exec H s (.dump sAddr) = .ok s' ∧ s'.out = s.out ++ rows.map Row.out ∧
    ShowsWindow s (addrOf sAddr) rows

/-- **The distances that `dump` measures right**: those of 80 and more that are so as an `int` too, shorter
    ones that are no multiple of 16, and those past the end for which the row count is no positive `int`. -/
def Measured (rest : Int) : Prop :=
  (80 ≤ rest ∧ 80 ≤ rest % 2 ^ 32 ∧ rest % 2 ^ 32 < 2 ^ 31) ∨
    (0 < rest ∧ rest < 80 ∧ ¬ 16 ∣ rest) ∨
    (rest ≤ -16 ∧ (-rest / 16 - 1) % 2 ^ 32 ≤ 2 ^ 31)

/-- The `n` bytes at `a` can be read, word by word, or are what a failed read shows. -/
def Readable (s : Debugger ω) (a : Addr) (n : Nat) : Prop :=
  ∀ i < n, (s.wordAt (a + BitVec.ofNat 64 (8 * (i / 8)))).isSome ∨
    s.memory (a + BitVec.ofNat 64 i) = some 0xff

theorem bmod_int (x : Int) :
    Int.bmod x (2 ^ 32) = if x % 2 ^ 32 < 2 ^ 31 then x % 2 ^ 32 else x % 2 ^ 32 - 2 ^ 32 :=
  Int.bmod_def x (2 ^ 32)

theorem lineCount_far {rest : Int} (h : 80 ≤ rest) : lineCount rest = 5 := by
  unfold lineCount
  rw [if_pos h]
  rfl

/-- Short of the end, one row more than the full ones. -/
theorem lineCount_inside {rest : Int} (h : 0 ≤ rest) (h' : rest < 80) : (lineCount rest : Int) = rest / 16 + 1 := by
  have hdiv : rest.tdiv 16 = rest / 16 := Int.tdiv_eq_ediv_of_nonneg h
  have hsmall : Int.bmod (rest / 16 + 1) (2 ^ 32) = rest / 16 + 1 :=
    Int.bmod_eq_of_le (by omega) (by omega)
  unfold lineCount
  rw [if_neg (by omega), hdiv, hsmall]
  omega

/-- Past the end, the division rounds towards it. -/
theorem lineCount_past {rest : Int} (h : rest ≤ 0) :
    lineCount rest = (Int.bmod (1 - -rest / 16) (2 ^ 32)).toNat := by
  have hdiv : rest.tdiv 16 = -(-rest / 16) := by
    rw [← Int.tdiv_eq_ediv_of_nonneg (by omega), Int.neg_tdiv, Int.neg_neg]
  unfold lineCount
  rw [if_neg (by omega), hdiv, Int.add_comm, ← Int.sub_eq_add_neg]

/-- A distance that is an `int` is counted as it is, and one past the end as no bytes. -/
theorem byteCount_int {rest : Int} (h : -2 ^ 31 ≤ rest) (h' : rest < 2 ^ 31) : byteCount rest = rest.toNat := by
  have hsmall : Int.bmod rest (2 ^ 32) = rest := Int.bmod_eq_of_le (by omega) (by omega)
  unfold byteCount
  rw [hsmall]

/-- The rows and the bytes of the window are the ones that `dump` counts, at these distances only. -/
theorem measured_iff {rest : Int} :
    lineCount rest = (min 80 rest.toNat + 15) / 16 ∧
      min (16 * lineCount rest) (byteCount rest) = min 80 rest.toNat ↔ Measured rest := by
  unfold Measured
  by_cases hfar : 80 ≤ rest
  · rw [lineCount_far hfar]
    unfold byteCount
    rw [bmod_int]
    split <;> omega
  · by_cases hin : 0 < rest
    · -- a row too many is counted where the last one is full
      have hrows := lineCount_inside (by omega : 0 ≤ rest) (by omega)
      rw [byteCount_int (by omega) (by omega)]
      omega
    · have hnone : rest.toNat = 0 := by omega
      rw [hnone]
      have hrows := lineCount_past (by omega : rest ≤ 0)
      rw [bmod_int] at hrows
      split at hrows <;> omega

/-- Two enumerations agree where they agree at every index. -/
theorem range_map_eq {β : Type} {m n : Nat} {f g : Nat → β} :
    (List.range m).map f = (List.range n).map g ↔ m = n ∧ ∀ i < n, f i = g i := by
  constructor
  · intro h
    obtain rfl : m = n := by simpa using congrArg List.length h
    refine ⟨rfl, ?_⟩
    intro i hi
    exact List.map_inj_left.mp h i (List.mem_range.mpr hi)
  · rintro ⟨rfl, h⟩
    apply List.map_congr_left
    intro i hi
    exact h i (List.mem_range.mp hi)

/-- **The bytes printed are the memory** if there are enough of them and they can be read. -/
theorem Dumped.showsMemory_iff {n len size : Nat} {rows : List Row} (h : Dumped s s' n len rows) :
    ShowsMemory s s.dumpaddr size rows ↔
      min (16 * n) len = size ∧ Readable s s.dumpaddr size := by
  have hlength : ((s.seen s.dumpaddr (2 * n)).take len).length = min (16 * n) len := by
    rw [List.length_take, seen_length]
    omega
  unfold ShowsMemory
  rw [h.bytes, bytesFrom_map, range_map_eq, hlength]
  constructor
  · rintro ⟨rfl, hcells⟩
    refine ⟨rfl, ?_⟩
    intro i hi
    have hcell := (Prod.mk.inj (hcells i hi)).2
    rw [List.getElem?_take_of_lt (by omega)] at hcell
    exact (seen_memory (by omega)).mp hcell
  · rintro ⟨rfl, hread⟩
    refine ⟨rfl, ?_⟩
    intro i hi
    rw [List.getElem?_take_of_lt (by omega), (seen_memory (by omega)).mpr (hread i hi)]

/-- The distance to the end of the section, for addresses that are no negative `long long`. -/
theorem restAt_eq {text : Elf.Shdr} {a : Addr} (ha : a.toNat < 2 ^ 63) (hend : (textEnd text).toNat < 2 ^ 63) :
    restAt text a = (textEnd text).toNat - a.toNat := by
  unfold restAt
  rw [BitVec.toInt_eq_toNat_bmod, BitVec.toNat_sub, Int.bmod_def]
  omega

/-- The rows that a `dump` has added to the output are determined. -/
theorem rows_unique {out : List Out} {rows rows' : List Row}
    (h : out ++ rows.map Row.out = out ++ rows'.map Row.out) : rows = rows' := by
  have hout := List.append_cancel_left h
  refine List.map_injective_iff.mpr ?_ hout
  rintro ⟨a, cells⟩ ⟨a', cells'⟩ heq
  cases heq
  rfl

/-- **The window is exact** at the distances that are measured right, where it can be read. -/
theorem dumpsWindow_iff (hrun : s.state = .running) (hs : s.AtRest) {sAddr : String} (hno : sAddr ≠ "NO")
    (ha : (addrOf sAddr).toNat < 2 ^ 63) (hend : (textEnd s.text).toNat < 2 ^ 63) :
    DumpsWindow H s sAddr ↔
      Measured ((textEnd s.text).toNat - (addrOf sAddr).toNat) ∧
        Readable s (addrOf sAddr) (windowSize s.text (addrOf sAddr)) := by
  obtain ⟨s', rows, hdump, hdumped⟩ := dump_spec (H := H) hrun hs sAddr
  have hfrom : dumpFrom s sAddr = addrOf sAddr := if_pos hno
  rw [hfrom, restAt_eq ha hend] at hdumped
  have hsize : windowSize s.text (addrOf sAddr)
      = min 80 ((textEnd s.text).toNat - (addrOf sAddr).toNat : Int).toNat := by
    unfold windowSize
    omega
  have hbytes : ShowsMemory s (addrOf sAddr) (windowSize s.text (addrOf sAddr)) rows ↔ _ :=
    hdumped.showsMemory_iff
  constructor
  · rintro ⟨s'', rows', hdump', hout, hwindow⟩
    obtain rfl : s' = s'' := Except.ok.inj (hdump.symm.trans hdump')
    obtain rfl : rows = rows' := rows_unique (hdumped.out.symm.trans hout)
    obtain ⟨hcount, hread⟩ := hbytes.mp hwindow.bytes
    have hlines := (range_map_eq.mp (hdumped.labels.symm.trans hwindow.labels)).1
    rw [hsize] at hlines hcount
    exact ⟨measured_iff.mp ⟨hlines, hcount⟩, hread⟩
  · rintro ⟨hmeasured, hread⟩
    obtain ⟨hlines, hcount⟩ := measured_iff.mpr hmeasured
    rw [← hsize] at hlines hcount
    refine ⟨s', rows, hdump, hdumped.out, ?_⟩
    have hshows := hbytes.mpr ⟨hcount, hread⟩
    constructor
    · exact hshows
    · rw [hdumped.labels, hlines]
    · have hlen := congrArg List.length hdumped.labels
      rw [List.length_map, List.length_map, List.length_range, hlines, hsize] at hlen
      omega
    · intro x hx
      have hmem : (x.1, some x.2) ∈ (shown rows).map fun x => (x.1, some x.2) := List.mem_map_of_mem hx
      rw [hshows] at hmem
      obtain ⟨i, hi, heq⟩ := List.mem_map.mp hmem
      have hlt : i < windowSize s.text (addrOf sAddr) := List.mem_range.mp hi
      rw [← (Prod.mk.inj heq).1, BitVec.toNat_add, BitVec.toNat_ofNat]
      unfold windowSize at hlt
      omega

/-- **Every `dump` of a session**, at the prompt of a running program. -/
theorem dump_window {cmds : List Command} (h : execAll H (Debugger.init : Debugger ω) cmds = .ok s)
    (hrun : s.state = .running) {sAddr : String} (hno : sAddr ≠ "NO") (ha : (addrOf sAddr).toNat < 2 ^ 63)
    (hend : (textEnd s.text).toNat < 2 ^ 63) :
    DumpsWindow H s sAddr ↔
      Measured ((textEnd s.text).toNat - (addrOf sAddr).toNat) ∧
        Readable s (addrOf sAddr) (windowSize s.text (addrOf sAddr)) :=
  dumpsWindow_iff hrun (session_atRest h hrun) hno ha hend

/-! ## A section of 32 bytes -/

/-- A file whose `.text` is mapped at `0x400000` and 32 bytes long. -/
def textElf : Elf.Image where
  bytes := Elf.sampleEhdr 3 2 ++ Elf.sampleShdr 0 0 0 0 ++
    (leBytes 4 1 ++ leBytes 4 1 ++ leBytes 8 0 ++ leBytes 8 0x400000 ++ leBytes 8 0x1000 ++ leBytes 8 32 ++
      List.replicate 24 0) ++
    Elf.sampleShdr 2 3 256 7 ++ [0, 0x2e, 0x74, 0x65, 0x78, 0x74, 0]
  length_lt := by decide +kernel

/-- The site where every path is that file, with a program of `nop`s. -/
def textHost : Host (List Bool) :=
  { sampleHost (List.replicate 40 0x90) 9 with content := fun _ => textElf, memory := Elf.sampleMemory }

/-- The program at its first prompt. -/
theorem textHost_started : ∃ s, execAll textHost Debugger.init [.load "./a", .start] = .ok s ∧
    s.state = .running ∧ (textEnd s.text).toNat = 0x400020 ∧
      ∀ i < 4, (s.wordAt (0x400000 + BitVec.ofNat 64 (8 * i))).isSome := by
  have hlook : (execAll textHost Debugger.init [.load "./a", .start]).map (fun s =>
      (s.state, (textEnd s.text).toNat,
        (List.range 4).all fun i => (s.wordAt (0x400000 + BitVec.ofNat 64 (8 * i))).isSome))
      = .ok (.running, 0x400020, true) := by
    decide +kernel
  obtain ⟨s, hs, hseen⟩ := ok_of_seen hlook
  obtain ⟨hrun, hrest⟩ := Prod.mk.inj hseen
  obtain ⟨hend, hwords⟩ := Prod.mk.inj hrest
  refine ⟨s, hs, hrun, hend, ?_⟩
  intro i hi
  exact List.all_eq_true.mp hwords i (List.mem_range.mpr hi)

/-- Eight bytes before the end there is one row, half of it blank. -/
theorem dump_window_sample : ∃ s, execAll textHost Debugger.init [.load "./a", .start] = .ok s ∧
    DumpsWindow textHost s "400018" := by
  obtain ⟨s, hs, hrun, hend, hwords⟩ := textHost_started
  have haddr : (addrOf "400018").toNat = 0x400018 := by decide
  refine ⟨s, hs, (dump_window hs hrun (by decide) (by rw [haddr]; decide) (by rw [hend]; decide)).mpr ?_⟩
  constructor
  · rw [hend, haddr]
    exact Or.inr (Or.inl (by decide))
  · intro i hi
    unfold windowSize at hi
    rw [hend, haddr] at hi
    refine Or.inl ?_
    rw [show i / 8 = 0 by omega]
    exact hwords 3 (by decide)

/-- Sixteen bytes before the end there is a blank row behind the full one. -/
theorem dump_blank_row : ¬ ∀ (s : Debugger (List Bool)) (cmds : List Command) (sAddr : String),
    execAll textHost Debugger.init cmds = .ok s → s.state = .running → sAddr ≠ "NO" →
      (addrOf sAddr).toNat < 2 ^ 63 → (textEnd s.text).toNat < 2 ^ 63 → DumpsWindow textHost s sAddr := by
  intro h
  obtain ⟨s, hs, hrun, hend, -⟩ := textHost_started
  have haddr : (addrOf "400010").toNat = 0x400010 := by decide
  have hwindow := h s _ "400010" hs hrun (by decide) (by rw [haddr]; decide) (by rw [hend]; decide)
  have hexact := (dumpsWindow_iff hrun (session_atRest hs hrun) (by decide) (by rw [haddr]; decide)
    (by rw [hend]; decide)).mp hwindow
  rw [hend, haddr] at hexact
  rcases hexact.1 with ⟨hfar, -⟩ | ⟨-, -, hwhole⟩ | ⟨hpast, -⟩
  · exact absurd hfar (by decide)
  · exact absurd hwhole (by decide)
  · exact absurd hpast (by decide)

/-! ## One window after the other -/

theorem execLines_cons {tokens : List String} {lines : List (List String)} (h : execLine H s tokens = .ok s') :
    execLines H s (tokens :: lines) = execLines H s' lines := by
  unfold execLines
  rw [List.foldlM_cons, h]
  rfl

variable {A : Addr} {size d j k : Nat}

/-- The distance from an address inside the section, or a little past it, to its end. -/
theorem restAt_near {text : Elf.Shdr} (hsize : A.toNat + size = (textEnd text).toNat) (hnear : size < 2 ^ 31)
    (hd : d ≤ size + 31) : restAt text (A + BitVec.ofNat 64 d) = (size : Int) - d := by
  have hlt := (textEnd text).isLt
  unfold restAt
  rw [BitVec.toInt_eq_toNat_bmod, BitVec.toNat_sub, BitVec.toNat_add, BitVec.toNat_ofNat, Int.bmod_def]
  omega

/-- **After `j` dumps from `A` on**, `size` bytes before the end of the section: the bytes so far have been
    shown, and `dumpaddr` stands behind them or, once they have all been shown, a little past the end. -/
structure Continued (s s' : Debugger ω) (A : Addr) (size j : Nat) (rows : List Row) : Prop where
  kept : Kept s s'
  out : s'.out = s.out ++ rows.map Row.out
  bytes : ShowsMemory s A (min (80 * j) size) rows
  next : ∃ d, s'.dumpaddr = A + BitVec.ofNat 64 d ∧
    (80 * j ≤ size ∧ d = 80 * j ∨ size < 80 * j ∧ size < d ∧ d ≤ size + 31)

/-- The bytes of some rows and those that follow them. -/
theorem ShowsMemory.append {m n : Nat} {rows rows' : List Row} (h : ShowsMemory s A m rows)
    (h' : ShowsMemory s (A + BitVec.ofNat 64 m) n rows') : ShowsMemory s A (m + n) (rows ++ rows') := by
  unfold ShowsMemory at h h' ⊢
  have hall : shown (rows ++ rows') = shown rows ++ shown rows' := List.flatMap_append
  rw [hall, List.map_append, h, h', List.range_add, List.map_append, List.map_map]
  congr 1
  apply List.map_congr_left
  intro i _
  rw [Function.comp_apply, addr_add]

/-- What one more `dump` counts: the rest of the section or eighty bytes of it, and nothing once the end has
    been reached. -/
theorem counts_next (hnear : size < 2 ^ 31)
    (hd : 80 * j ≤ size ∧ d = 80 * j ∨ size < 80 * j ∧ size < d ∧ d ≤ size + 31) :
    min (16 * lineCount ((size : Int) - d)) (byteCount ((size : Int) - d))
        = min (80 * (j + 1)) size - min (80 * j) size ∧
      (80 * (j + 1) ≤ size ∧ d + 16 * lineCount ((size : Int) - d) = 80 * (j + 1) ∨
        size < 80 * (j + 1) ∧ size < d + 16 * lineCount ((size : Int) - d) ∧
          d + 16 * lineCount ((size : Int) - d) ≤ size + 31) := by
  rw [byteCount_int (by omega) (by omega)]
  by_cases hfar : 80 ≤ (size : Int) - d
  · rw [lineCount_far hfar]
    omega
  · by_cases hin : 0 ≤ (size : Int) - d
    · have hrows := lineCount_inside hin (by omega)
      omega
    · have hrows := lineCount_past (by omega : (size : Int) - d ≤ 0)
      rw [Int.bmod_eq_of_le (by omega) (by omega)] at hrows
      omega

/-- **One more `dump`** where the last one has stopped. -/
theorem Continued.step {rows : List Row} (h : Continued s s' A size j rows) (hrun : s.state = .running)
    (hs : s.AtRest) (hsize : A.toNat + size = (textEnd s.text).toNat) (hnear : size < 2 ^ 31)
    (hread : ∀ i, 8 * i < size → (s.wordAt (A + BitVec.ofNat 64 (8 * i))).isSome) (sAddr : String)
    (hfrom : dumpFrom s' sAddr = s'.dumpaddr) :
    ∃ s'' rows', dump H s' sAddr = .ok s'' ∧ Continued s s'' A size (j + 1) (rows ++ rows') := by
  obtain ⟨s'', rows', hdump, hdumped⟩ := dump_spec (H := H) (h.kept.state.trans hrun) (h.kept.atRest hs) sAddr
  obtain ⟨d, hd, hcase⟩ := h.next
  have hrest : restAt s'.text s'.dumpaddr = (size : Int) - d := by
    rw [h.kept.text, hd]
    exact restAt_near hsize hnear (by omega)
  rw [hfrom, hrest] at hdumped
  obtain ⟨hcount, hnext⟩ := counts_next hnear hcase
  refine ⟨s'', rows', hdump, ?_⟩
  constructor
  · exact h.kept.trans hdumped.kept
  · rw [hdumped.out, h.out, List.map_append, List.append_assoc]
  · have hsum : min (80 * (j + 1)) size
        = min (80 * j) size + (min (80 * (j + 1)) size - min (80 * j) size) := by omega
    have hmore := hdumped.showsMemory_iff.mpr ⟨hcount, ?_⟩
    · have hbytes : ShowsMemory s s'.dumpaddr (min (80 * (j + 1)) size - min (80 * j) size) rows' := by
        unfold ShowsMemory at hmore ⊢
        rw [hmore]
        apply List.map_congr_left
        intro i _
        exact congrArg _ (h.kept.memory _)
      rw [hsum]
      refine h.bytes.append ?_
      rcases hcase with ⟨hle, rfl⟩ | ⟨hgt, -, -⟩
      · have hfollows : A + BitVec.ofNat 64 (min (80 * j) size) = s'.dumpaddr := by
          rw [Nat.min_eq_left hle, hd]
        rw [hfollows]
        exact hbytes
      · -- nothing is shown past the end, wherever it would be
        have hnone : min (80 * (j + 1)) size - min (80 * j) size = 0 := by omega
        rw [hnone] at hbytes ⊢
        exact hbytes
    · intro i hi
      refine Or.inl ?_
      obtain rfl : d = 80 * j := by omega
      have hword : s'.dumpaddr + BitVec.ofNat 64 (8 * (i / 8))
          = A + BitVec.ofNat 64 (8 * (10 * j + i / 8)) := by
        rw [hd, addr_add]
        congr 2
        omega
      show (s'.wordAt (s'.dumpaddr + BitVec.ofNat 64 (8 * (i / 8)))).isSome
      rw [hword, h.kept.wordAt]
      exact hread _ (by omega)
  · refine ⟨d + 16 * lineCount ((size : Int) - d), ?_, hnext⟩
    rw [hdumped.dumpaddr, ← addr_add, ← hd]

/-- `dumpaddr` has been set, so `dump` alone goes on from it. -/
theorem Continued.execLine {rows : List Row} (h : Continued s s' A size j rows)
    (hsize : A.toNat + size = (textEnd s.text).toNat) (hend : (textEnd s.text).toNat < 2 ^ 63) :
    execLine H s' ["dump"] = dump H s' "NO" := by
  obtain ⟨d, hd, hcase⟩ := h.next
  have hset : s'.dumpaddr ≠ -1 := by
    intro hunset
    have hnat := congrArg BitVec.toNat (hd.symm.trans hunset)
    rw [BitVec.toNat_add, BitVec.toNat_ofNat, show (-1 : Word).toNat = 2 ^ 64 - 1 from rfl] at hnat
    omega
  have hcommand : Command.ofTokens s'.dumpaddr ["dump"] = .dump "NO" := by
    unfold Command.ofTokens
    exact if_pos hset
  rw [Sdb.execLine, hcommand, exec]

/-- **`k` more dumps.** -/
theorem Continued.run {rows : List Row} (h : Continued s s' A size j rows) (hrun : s.state = .running)
    (hs : s.AtRest) (hsize : A.toNat + size = (textEnd s.text).toNat) (hend : (textEnd s.text).toNat < 2 ^ 63)
    (hnear : size < 2 ^ 31)
    (hread : ∀ i, 8 * i < size → (s.wordAt (A + BitVec.ofNat 64 (8 * i))).isSome) (k : Nat) :
    ∃ s'' rows', execLines H s' (List.replicate k ["dump"]) = .ok s'' ∧
      Continued s s'' A size (j + k) (rows ++ rows') := by
  induction k generalizing s' j rows with
  | zero => exact ⟨s', [], rfl, by rw [List.append_nil]; exact h⟩
  | succ k ih =>
      obtain ⟨s₁, rows₁, hdump, hone⟩ := h.step (H := H) hrun hs hsize hnear hread "NO" rfl
      obtain ⟨s₂, rows₂, hlines, hmore⟩ := ih hone
      refine ⟨s₂, rows₁ ++ rows₂, ?_, ?_⟩
      · rw [List.replicate_succ, execLines_cons ((h.execLine hsize hend).trans hdump), hlines]
      · rw [← List.append_assoc, Nat.add_comm k 1, ← Nat.add_assoc]
        exact hmore

/-- **Dumps that continue each other** show the bytes from `A` on, each once, and stop at the end of the
    section. -/
theorem dump_continues {cmds : List Command} (h : execAll H (Debugger.init : Debugger ω) cmds = .ok s)
    (hrun : s.state = .running) {sAddr : String} (hno : sAddr ≠ "NO")
    (hbelow : (addrOf sAddr).toNat < (textEnd s.text).toNat) (hend : (textEnd s.text).toNat < 2 ^ 63)
    (hnear : (textEnd s.text).toNat - (addrOf sAddr).toNat < 2 ^ 31)
    (hread : ∀ i, 8 * i < (textEnd s.text).toNat - (addrOf sAddr).toNat →
      (s.wordAt (addrOf sAddr + BitVec.ofNat 64 (8 * i))).isSome) (k : Nat) :
    ∃ s' rows, execLines H s (["dump", sAddr] :: List.replicate k ["dump"]) = .ok s' ∧
      s'.out = s.out ++ rows.map Row.out ∧
      ShowsMemory s (addrOf sAddr) (min (80 * (k + 1)) ((textEnd s.text).toNat - (addrOf sAddr).toNat)) rows := by
  have hs : s.AtRest := session_atRest h hrun
  have hsize : (addrOf sAddr).toNat + ((textEnd s.text).toNat - (addrOf sAddr).toNat) = (textEnd s.text).toNat := by
    omega
  -- the first `dump` sets `dumpaddr` and starts there
  have hset : dump H s sAddr = dump H { s with dumpaddr := addrOf sAddr } sAddr := by
    have hprompt : ¬ s.state ≠ .running := fun hne => hne hrun
    have hprompt' : ¬ ({ s with dumpaddr := addrOf sAddr } : Debugger ω).state ≠ .running := hprompt
    unfold dump
    rw [if_neg hprompt, if_neg hprompt']
    simp only [if_pos hno]
  have hstarted : Continued s { s with dumpaddr := addrOf sAddr } (addrOf sAddr)
      ((textEnd s.text).toNat - (addrOf sAddr).toNat) 0 [] := by
    constructor
    · exact ⟨rfl, rfl, rfl, rfl⟩
    · rw [List.map_nil, List.append_nil]
    · rw [Nat.mul_zero, Nat.zero_min]
      rfl
    · exact ⟨0, (BitVec.add_zero _).symm, Or.inl ⟨Nat.zero_le _, rfl⟩⟩
  obtain ⟨s₁, rows₁, hdump, hone⟩ := hstarted.step (H := H) hrun hs hsize hnear hread sAddr (if_pos hno)
  obtain ⟨s₂, rows₂, hlines, hall⟩ := hone.run (H := H) hrun hs hsize hend hnear hread k
  refine ⟨s₂, rows₁ ++ rows₂, ?_, hall.out, ?_⟩
  · have hfirst : execLine H s ["dump", sAddr] = .ok s₁ := hset.trans hdump
    rw [execLines_cons hfirst, hlines]
  · have hbytes := hall.bytes
    rw [Nat.zero_add, Nat.add_comm 1 k] at hbytes
    exact hbytes

/-- The whole section, from its start, with two `dump`s that have nothing left to show. -/
theorem dump_continues_sample : ∃ s, execAll textHost Debugger.init [.load "./a", .start] = .ok s ∧
    ∃ s' rows, execLines textHost s (["dump", "400000"] :: List.replicate 2 ["dump"]) = .ok s' ∧
      s'.out = s.out ++ rows.map Row.out ∧ ShowsMemory s 0x400000 32 rows := by
  obtain ⟨s, hs, hrun, hend, hwords⟩ := textHost_started
  have haddr : addrOf "400000" = 0x400000 := by decide
  have hnat : (addrOf "400000").toNat = 0x400000 := by decide
  have hread : ∀ i, 8 * i < (textEnd s.text).toNat - (addrOf "400000").toNat →
      (s.wordAt (addrOf "400000" + BitVec.ofNat 64 (8 * i))).isSome := by
    intro i hi
    rw [hend, hnat] at hi
    rw [haddr]
    exact hwords i (by omega)
  obtain ⟨s', rows, hlines, hout, hshows⟩ := dump_continues hs hrun (by decide) (by rw [hend, hnat]; decide)
    (by rw [hend]; decide) (by rw [hend, hnat]; decide) hread 2
  rw [hend, hnat, haddr] at hshows
  exact ⟨s, hs, s', rows, hlines, hout, hshows⟩

end AdvUnix.Sdb
