import Mathlib.Data.BitVec
import Mathlib.Data.List.GetD
import Mathlib.Data.List.TakeWhile
import Mathlib.Data.Set.Function
import Mathlib.Data.Set.Lattice
import Mathlib.Logic.Function.Basic
import Mathlib.Order.CompletePartialOrder

/-!
# `Lib.Bytes` — little-endian numbers and byte stores

A **number** is read from and written to a list of bytes, least significant byte first (`leNat` /
`leBytes`, inverse to each other at a fixed length). A **store** maps addresses of a fixed width to
cells; a block of cells is read and written at an address, wrapping around at the top of the address
space. Cells are left abstract, so the same laws serve a total memory and one with unmapped holes.
-/

namespace ByteStore

/-! ## Numbers as byte lists -/

/-- The number whose little-endian bytes are `bs`. -/
def leNat : List (BitVec 8) → Nat
  | [] => 0
  | b :: bs => b.toNat + 256 * leNat bs

/-- The `n` low bytes of `v`, least significant first. -/
def leBytes : Nat → Nat → List (BitVec 8)
  | 0, _ => []
  | n + 1, v => BitVec.ofNat 8 v :: leBytes n (v / 256)

@[simp] theorem leBytes_length (n v : Nat) : (leBytes n v).length = n := by
  induction n generalizing v with
  | zero => rfl
  | succ n ih => simp [leBytes, ih]

theorem leNat_lt (bs : List (BitVec 8)) : leNat bs < 256 ^ bs.length := by
  induction bs with
  | nil => simp [leNat]
  | cons b bs ih =>
      have hb : b.toNat < 256 := b.isLt
      simp only [leNat, List.length_cons, Nat.pow_succ]
      omega

/-- Reading back what was written gives the number modulo the block's size. -/
theorem leNat_leBytes (n v : Nat) : leNat (leBytes n v) = v % 256 ^ n := by
  induction n generalizing v with
  | zero => simp [leBytes, leNat, Nat.mod_one]
  | succ n ih =>
      have hmod : (BitVec.ofNat 8 v).toNat = v % 256 := BitVec.toNat_ofNat v 8
      rw [leBytes, leNat, ih, hmod, Nat.pow_succ, Nat.mul_comm (256 ^ n) 256, Nat.mod_mul]

/-- Writing what was read gives the bytes back. -/
theorem leBytes_leNat (bs : List (BitVec 8)) : leBytes bs.length (leNat bs) = bs := by
  induction bs with
  | nil => rfl
  | cons b bs ih =>
      have hb : b.toNat < 256 := b.isLt
      have hhead : BitVec.ofNat 8 (b.toNat + 256 * leNat bs) = b := by
        apply BitVec.eq_of_toNat_eq
        rw [BitVec.toNat_ofNat]
        omega
      have htail : (b.toNat + 256 * leNat bs) / 256 = leNat bs := by omega
      simp only [List.length_cons, leBytes, leNat, hhead, htail, ih]

/-! ## Words -/

/-- The 64-bit word stored in eight bytes. -/
def word (bs : List (BitVec 8)) : BitVec 64 := BitVec.ofNat 64 (leNat bs)

/-- The eight bytes of a word. -/
def wordBytes (w : BitVec 64) : List (BitVec 8) := leBytes 8 w.toNat

@[simp] theorem wordBytes_length (w : BitVec 64) : (wordBytes w).length = 8 := leBytes_length 8 _

theorem word_toNat {bs : List (BitVec 8)} (h : bs.length = 8) : (word bs).toNat = leNat bs := by
  have hlt := leNat_lt bs
  rw [h] at hlt
  rw [word, BitVec.toNat_ofNat]
  exact Nat.mod_eq_of_lt hlt

theorem wordBytes_word {bs : List (BitVec 8)} (h : bs.length = 8) : wordBytes (word bs) = bs := by
  have := leBytes_leNat bs
  rwa [h, ← word_toNat h] at this

theorem word_wordBytes (w : BitVec 64) : word (wordBytes w) = w := by
  apply BitVec.eq_of_toNat_eq
  rw [word_toNat (wordBytes_length w), wordBytes, leNat_leBytes]
  exact Nat.mod_eq_of_lt w.isLt

/-- The mask `0xff` selects the low eight bits. -/
theorem getLsbD_mask {i : Nat} (hi : i < 64) : (0xff#64).getLsbD i = decide (i < 8) := by
  rw [show (0xff#64) = (BitVec.allOnes 8).setWidth 64 from rfl, BitVec.getLsbD_setWidth,
    BitVec.getLsbD_allOnes]
  simp [hi]

/-- A word with its low byte replaced. -/
def setLow (w : BitVec 64) (b : BitVec 8) : BitVec 64 := (w &&& ~~~(0xff#64)) ||| b.setWidth 64

theorem getLsbD_setLow {w : BitVec 64} {b : BitVec 8} {i : Nat} (hi : i < 64) :
    (setLow w b).getLsbD i = if i < 8 then b.getLsbD i else w.getLsbD i := by
  unfold setLow
  rw [BitVec.getLsbD_or, BitVec.getLsbD_and, BitVec.getLsbD_not, getLsbD_mask hi,
    BitVec.getLsbD_setWidth]
  by_cases h8 : i < 8
  · simp [hi, h8]
  · simp [hi, h8, BitVec.getLsbD_of_ge b i (by omega)]

theorem setLow_mod (w : BitVec 64) (b : BitVec 8) : (setLow w b).toNat % 256 = b.toNat := by
  have h8 : (setLow w b).setWidth 8 = b := by
    apply BitVec.eq_of_getLsbD_eq
    intro i hi
    rw [BitVec.getLsbD_setWidth, getLsbD_setLow (by omega), if_pos hi]
    simp [hi]
  calc (setLow w b).toNat % 256 = ((setLow w b).setWidth 8).toNat := by
        rw [BitVec.toNat_setWidth]
    _ = b.toNat := by rw [h8]

theorem setLow_div (w : BitVec 64) (b : BitVec 8) :
    (setLow w b).toNat / 256 = w.toNat / 256 := by
  have h8 : setLow w b >>> 8 = w >>> 8 := by
    apply BitVec.eq_of_getLsbD_eq
    intro i hi
    rw [BitVec.getLsbD_ushiftRight, BitVec.getLsbD_ushiftRight]
    by_cases h64 : 8 + i < 64
    · rw [getLsbD_setLow h64, if_neg (by omega)]
    · rw [BitVec.getLsbD_of_ge _ _ (by omega), BitVec.getLsbD_of_ge _ _ (by omega)]
  have hdiv : ∀ v : BitVec 64, v.toNat / 256 = (v >>> 8).toNat := by
    intro v
    rw [BitVec.toNat_ushiftRight, Nat.shiftRight_eq_div_pow]
  rw [hdiv, h8, ← hdiv]

/-- **Replacing the low byte** changes the first stored byte and no other. -/
theorem wordBytes_setLow (w : BitVec 64) (b : BitVec 8) :
    wordBytes (setLow w b) = b :: (wordBytes w).tail := by
  have hfirst : BitVec.ofNat 8 (setLow w b).toNat = b := by
    apply BitVec.eq_of_toNat_eq
    rw [BitVec.toNat_ofNat]
    exact setLow_mod w b
  simp only [wordBytes, leBytes, hfirst, setLow_div, List.tail_cons]

/-- The low byte of a stored word is its first byte. -/
theorem word_low {b : BitVec 8} {bs : List (BitVec 8)} (h : bs.length = 7) :
    (word (b :: bs)).setWidth 8 = b := by
  have hb : b.toNat < 256 := b.isLt
  apply BitVec.eq_of_toNat_eq
  rw [BitVec.toNat_setWidth, word_toNat (by simp [h]), leNat]
  omega

/-! ## Stores -/

variable {w : Nat} {β : Type}

/-- A store: a cell at every address. -/
abbrev Store (w : Nat) (β : Type) := BitVec w → β

/-- The `n` cells from `a` on. -/
def read (m : Store w β) (a : BitVec w) (n : Nat) : List β :=
  (List.range n).map fun i => m (a + BitVec.ofNat w i)

/-- The store with `cells` written from `a` on. -/
def write (m : Store w β) (a : BitVec w) (cells : List β) : Store w β :=
  fun x => cells.getD (x - a).toNat (m x)

@[simp] theorem read_length (m : Store w β) (a : BitVec w) (n : Nat) : (read m a n).length = n := by
  simp [read]

theorem read_getElem {m : Store w β} {a : BitVec w} {n i : Nat} (h : i < (read m a n).length) :
    (read m a n)[i] = m (a + BitVec.ofNat w i) := by
  simp [read]

/-- The distance from `a` to the `i`-th cell after it, while `i` fits the address width. -/
theorem offset_toNat {a : BitVec w} {i : Nat} (h : i < 2 ^ w) :
    (a + BitVec.ofNat w i - a).toNat = i := by
  rw [BitVec.add_comm, BitVec.add_sub_cancel, BitVec.toNat_ofNat]
  exact Nat.mod_eq_of_lt h

/-- **Frame.** A cell outside the written block is unchanged. -/
theorem write_frame {m : Store w β} {a x : BitVec w} {cells : List β}
    (h : cells.length ≤ (x - a).toNat) : write m a cells x = m x := by
  unfold write
  exact List.getD_eq_default _ _ h

/-- A cell inside the written block. -/
theorem write_cell {m : Store w β} {a : BitVec w} {cells : List β} {i : Nat}
    (hi : i < cells.length) (hw : i < 2 ^ w) :
    write m a cells (a + BitVec.ofNat w i) = cells[i] := by
  unfold write
  rw [offset_toNat hw]
  exact List.getD_eq_getElem _ _ hi

/-- **Read after write** at the same address. -/
theorem read_write (m : Store w β) (a : BitVec w) {cells : List β} (h : cells.length ≤ 2 ^ w) :
    read (write m a cells) a cells.length = cells := by
  apply List.ext_getElem
  · simp
  · intro i hi hi'
    rw [read_getElem hi]
    exact write_cell hi' (Nat.lt_of_lt_of_le hi' h)

/-- Every address is some distance after `a`. -/
theorem eq_add_offset (a x : BitVec w) : x = a + BitVec.ofNat w (x - a).toNat := by
  rw [BitVec.ofNat_toNat, BitVec.setWidth_eq, BitVec.add_comm, BitVec.sub_add_cancel]

/-- **Writing back** what was read changes nothing. -/
theorem write_read (m : Store w β) (a : BitVec w) (n : Nat) : write m a (read m a n) = m := by
  funext x
  by_cases hlt : (x - a).toNat < (read m a n).length
  · unfold write
    rw [List.getD_eq_getElem _ _ hlt, read_getElem hlt, ← eq_add_offset]
  · exact write_frame (Nat.le_of_not_lt hlt)

/-- A block rewritten with its own cells, the first one replaced, changes one cell. -/
theorem write_cons_tail (m : Store w β) (a : BitVec w) (n : Nat) (c : β) :
    write m a (c :: (read m a n).tail) = Function.update m a c := by
  funext x
  by_cases hx : x = a
  · subst hx
    simp [write]
  · have hpos : (x - a).toNat ≠ 0 := by
      intro h0
      have := eq_add_offset a x
      rw [h0] at this
      exact hx (by simpa using this)
    obtain ⟨j, hj⟩ := Nat.exists_eq_succ_of_ne_zero hpos
    have hback : (read m a n).getD (x - a).toNat (m x) = m x := congrFun (write_read m a n) x
    rw [Function.update_of_ne hx]
    show (c :: (read m a n).tail).getD (x - a).toNat (m x) = m x
    refine Eq.trans ?_ hback
    rw [hj]
    cases read m a n with
    | nil => rfl
    | cons d ds => rfl

/-! ## Blocks -/

/-- The addresses of a block of `n` cells. -/
def block (a : BitVec w) (n : Nat) : Set (BitVec w) := {x | (x - a).toNat < n}

theorem mem_block {a x : BitVec w} {n : Nat} : x ∈ block a n ↔ (x - a).toNat < n := Iff.rfl

theorem block_mono {a : BitVec w} {n k : Nat} (h : n ≤ k) : block a n ⊆ block a k :=
  fun _ hx => Nat.lt_of_lt_of_le hx h

/-- A block that starts inside another. -/
theorem block_add_subset (a : BitVec w) (k n : Nat) :
    block (a + BitVec.ofNat w k) n ⊆ block a (k + n) := by
  intro x hx
  rw [mem_block] at hx ⊢
  have hsplit : x - a = (x - (a + BitVec.ofNat w k)) + BitVec.ofNat w k := by
    rw [← BitVec.sub_sub, BitVec.sub_add_cancel]
  calc (x - a).toNat
      = ((x - (a + BitVec.ofNat w k)).toNat + (BitVec.ofNat w k).toNat) % 2 ^ w := by
        rw [hsplit, BitVec.toNat_add]
    _ ≤ (x - (a + BitVec.ofNat w k)).toNat + k := by
        refine Nat.le_trans (Nat.mod_le _ _) (Nat.add_le_add_left ?_ _)
        rw [BitVec.toNat_ofNat]
        exact Nat.mod_le _ _
    _ < k + n := by omega

/-- Two blocks one after the other. -/
theorem block_disjoint_next (a : BitVec w) {k n : Nat} (h : k + n ≤ 2 ^ w) :
    Disjoint (block a k) (block (a + BitVec.ofNat w k) n) := by
  rw [Set.disjoint_left]
  intro x hx hx'
  rw [mem_block] at hx hx'
  have hsplit : x - (a + BitVec.ofNat w k) = (x - a) - BitVec.ofNat w k := (BitVec.sub_sub _ _ _).symm
  have hlt := (x - a).isLt
  rw [hsplit, BitVec.toNat_sub, BitVec.toNat_ofNat] at hx'
  have hk : k % 2 ^ w = k := Nat.mod_eq_of_lt (by omega)
  rw [hk] at hx'
  have hbig : 2 ^ w - k + (x - a).toNat < 2 ^ w := by omega
  rw [Nat.mod_eq_of_lt hbig] at hx'
  omega

/-- A write changes its block only. -/
theorem write_eqOn (m : Store w β) (a : BitVec w) (cells : List β) :
    Set.EqOn (write m a cells) m (block a cells.length)ᶜ :=
  fun _ hx => write_frame (Nat.le_of_not_lt hx)

/-- A read looks at its block only. -/
theorem read_congr {m m' : Store w β} {a : BitVec w} {n : Nat} (hn : n ≤ 2 ^ w)
    (h : Set.EqOn m m' (block a n)) : read m a n = read m' a n := by
  apply List.map_congr_left
  intro i hi
  have hi' : i < n := List.mem_range.mp hi
  apply h
  rw [mem_block, offset_toNat (by omega)]
  exact hi'

/-- A read inside a longer one. -/
theorem read_drop_take (m : Store w β) (a : BitVec w) {k n N : Nat} (h : k + n ≤ N) :
    ((read m a N).drop k).take n = read m (a + BitVec.ofNat w k) n := by
  apply List.ext_getElem
  · simp only [List.length_take, List.length_drop, read_length]
    omega
  · intro i hi hi'
    rw [List.getElem_take, List.getElem_drop, read_getElem, read_getElem, BitVec.add_assoc,
      ← BitVec.ofNat_add]

/-- The first cells of a read. -/
theorem read_take (m : Store w β) (a : BitVec w) {n N : Nat} (h : n ≤ N) : (read m a N).take n = read m a n := by
  have hread := read_drop_take m a (k := 0) (n := n) (N := N) (by omega)
  rw [List.drop_zero] at hread
  rw [hread]
  exact congrArg (fun b => read m b n) (BitVec.add_zero a)

/-- Two reads one after the other are one. -/
theorem read_append (m : Store w β) (a : BitVec w) (n k : Nat) :
    read m a (n + k) = read m a n ++ read m (a + BitVec.ofNat w n) k := by
  rw [← read_drop_take m a (Nat.le_refl (n + k)), List.take_of_length_le (by simp),
    ← read_take m a (Nat.le_add_right n k), List.take_append_drop]

/-- Two writes one after the other are one. -/
theorem write_append (m : Store w β) (a : BitVec w) (xs ys : List β)
    (h : xs.length + ys.length ≤ 2 ^ w) :
    write (write m a xs) (a + BitVec.ofNat w xs.length) ys = write m a (xs ++ ys) := by
  funext x
  by_cases hxs : x ∈ block a xs.length
  · have hnext : x ∉ block (a + BitVec.ofNat w xs.length) ys.length :=
      Set.disjoint_left.mp (block_disjoint_next a h) hxs
    rw [write_eqOn _ _ _ hnext]
    unfold write
    rw [List.getD_append _ _ _ _ hxs]
  · have hge : xs.length ≤ (x - a).toNat := Nat.le_of_not_lt hxs
    have hpast : (x - (a + BitVec.ofNat w xs.length)).toNat = (x - a).toNat - xs.length := by
      have hlt := (x - a).isLt
      have hlen : xs.length % 2 ^ w = xs.length := Nat.mod_eq_of_lt (by omega)
      rw [← BitVec.sub_sub, BitVec.toNat_sub, BitVec.toNat_ofNat, hlen,
        show 2 ^ w - xs.length + (x - a).toNat = (x - a).toNat - xs.length + 2 ^ w by omega,
        Nat.add_mod_right, Nat.mod_eq_of_lt (by omega)]
    unfold write
    rw [hpast, List.getD_append_right _ _ _ _ hge, List.getD_eq_default _ _ hge]

/-! ## Cells that may be missing -/

/-- The contents of a block, when no cell of it is missing. -/
def allSome : List (Option β) → Option (List β)
  | [] => some []
  | c :: cs => c.bind fun b => (allSome cs).map (b :: ·)

theorem allSome_eq_some {cells : List (Option β)} {bs : List β} :
    allSome cells = some bs ↔ cells = bs.map some := by
  induction cells generalizing bs with
  | nil => cases bs <;> simp [allSome]
  | cons c cs ih =>
      cases c with
      | none => cases bs <;> simp [allSome]
      | some b =>
          cases bs with
          | nil => simp [allSome]
          | cons d ds =>
              simp only [allSome, Option.bind_some, Option.map_eq_some_iff, List.map_cons,
                List.cons.injEq, Option.some.injEq, ih]
              constructor
              · rintro ⟨as, has, rfl, rfl⟩
                exact ⟨rfl, has⟩
              · rintro ⟨rfl, h⟩
                exact ⟨ds, h, rfl, rfl⟩

/-- The number of cells before the first missing one. -/
def present (cells : List (Option β)) : Nat := (cells.takeWhile Option.isSome).length

theorem present_le (cells : List (Option β)) : present cells ≤ cells.length :=
  (List.takeWhile_sublist _).length_le

/-- A cell is among the first ones that are there when no cell up to it is missing. -/
theorem lt_present {cells : List (Option β)} {i : Nat} (h : i < cells.length) :
    i < present cells ↔ ∀ j ≤ i, (cells[j]?.join).isSome := by
  induction cells generalizing i with
  | nil => cases h
  | cons c cells ih =>
      cases c with
      | none =>
          refine iff_of_false (by simp [present]) ?_
          intro hall
          simpa using hall 0 (Nat.zero_le i)
      | some c =>
          have hpresent : present (some c :: cells) = present cells + 1 := by simp [present]
          rw [hpresent]
          cases i with
          | zero =>
              refine iff_of_true (Nat.succ_pos _) ?_
              intro j hj
              rw [Nat.le_zero.mp hj]
              rfl
          | succ i =>
              rw [Nat.add_lt_add_iff_right, ih (Nat.lt_of_succ_lt_succ h)]
              constructor
              · intro hall j hj
                cases j with
                | zero => rfl
                | succ j => simpa using hall j (Nat.le_of_succ_le_succ hj)
              · intro hall j hj
                simpa using hall (j + 1) (Nat.succ_le_succ hj)

/-- A cell of a read that has none missing up to it. -/
theorem lt_present_read {m : Store w (Option β)} {a : BitVec w} {i n : Nat} (h : i < n) :
    i < present (read m a n) ↔ ∀ j ≤ i, (m (a + BitVec.ofNat w j)).isSome := by
  rw [lt_present (by rw [read_length]; exact h)]
  refine forall₂_congr fun j hj => ?_
  have hlt : j < (read m a n).length := by
    rw [read_length]
    omega
  rw [List.getElem?_eq_getElem hlt, read_getElem]
  rfl

end ByteStore
