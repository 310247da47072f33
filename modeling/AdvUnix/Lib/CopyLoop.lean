import AdvUnix.Lib.Bytes

/-!
# `Lib.CopyLoop` — filling and copying a store cell by cell

The two loops that go up through a store: one that stores the same cell everywhere (`fillUp`), one that copies
from a second place (`copyUp`). Filling is one write (`fillUp_eq`). Copying reads cells that it may have written
before: from a source that begins `d` cells below its target it repeats the first `d` of them (`copyUp_cell`), so
it moves the source as it was exactly when it never comes to what it has written (`copyUp_moves_iff`).
-/

namespace ByteStore

variable {w : Nat} {β : Type}

/-- The same cell stored `n` times, from `a` up. -/
def fillUp (v : β) : Nat → Store w β → BitVec w → Store w β
  | 0, m, _ => m
  | n + 1, m, a => fillUp v n (Function.update m a v) (a + 1#w)

/-- `n` cells copied one after the other, from `t` up to `s` up. -/
def copyUp : Nat → Store w β → BitVec w → BitVec w → Store w β
  | 0, m, _, _ => m
  | n + 1, m, s, t => copyUp n (Function.update m s (m t)) (s + 1#w) (t + 1#w)

variable {m : Store w β} {s t a x : BitVec w} {n i : Nat}

theorem add_ofNat_succ (a : BitVec w) (n : Nat) :
    a + 1#w + BitVec.ofNat w n = a + BitVec.ofNat w (n + 1) := by
  rw [BitVec.add_assoc, ← BitVec.ofNat_add, Nat.add_comm 1 n]

/-! ## The last round -/

theorem fillUp_succ (v : β) (n : Nat) (m : Store w β) (a : BitVec w) :
    fillUp v (n + 1) m a = Function.update (fillUp v n m a) (a + BitVec.ofNat w n) v := by
  induction n generalizing m a with
  | zero =>
      rw [fillUp, fillUp, fillUp, show a + BitVec.ofNat w 0 = a from BitVec.add_zero a]
  | succ n ih =>
      rw [fillUp, ih, add_ofNat_succ]
      rfl

theorem copyUp_succ (n : Nat) (m : Store w β) (s t : BitVec w) :
    copyUp (n + 1) m s t =
      Function.update (copyUp n m s t) (s + BitVec.ofNat w n) (copyUp n m s t (t + BitVec.ofNat w n)) := by
  induction n generalizing m s t with
  | zero =>
      rw [copyUp, copyUp, copyUp, show s + BitVec.ofNat w 0 = s from BitVec.add_zero s,
        show t + BitVec.ofNat w 0 = t from BitVec.add_zero t]
  | succ n ih =>
      rw [copyUp, ih, add_ofNat_succ, add_ofNat_succ]
      rfl

/-! ## Filling -/

/-- A write grows by one cell at its end. -/
theorem write_snoc (m : Store w β) (a : BitVec w) (cells : List β) (c : β) (h : cells.length < 2 ^ w) :
    Function.update (write m a cells) (a + BitVec.ofNat w cells.length) c = write m a (cells ++ [c]) := by
  rw [← write_append m a cells [c] (Nat.succ_le_of_lt h)]
  exact (write_cons_tail (write m a cells) _ 1 c).symm

/-- **Filling** is one write. -/
theorem fillUp_eq (v : β) (hn : n ≤ 2 ^ w) (m : Store w β) (a : BitVec w) :
    fillUp v n m a = write m a (List.replicate n v) := by
  induction n with
  | zero => exact (write_read m a 0).symm
  | succ n ih =>
      have hsnoc := write_snoc m a (List.replicate n v) v (by rw [List.length_replicate]; omega)
      rw [List.length_replicate, ← List.replicate_succ'] at hsnoc
      rw [fillUp_succ, ih (by omega), hsnoc]

/-! ## Copying -/

/-- **Frame.** Copying changes its target only. -/
theorem copyUp_frame (hn : n ≤ 2 ^ w) (hx : x ∉ block s n) : copyUp n m s t x = m x := by
  induction n with
  | zero => rfl
  | succ n ih =>
      have hne : x ≠ s + BitVec.ofNat w n := by
        intro he
        subst he
        rw [mem_block, offset_toNat (by omega)] at hx
        exact hx (Nat.lt_succ_self n)
      rw [copyUp_succ, Function.update_of_ne hne]
      exact ih (by omega) (fun h => hx (block_mono (Nat.le_succ n) h))

/-- A cell of the source, before or behind the place where the target begins. -/
theorem source_offset (s t : BitVec w) (h : (s - t).toNat ≤ i) :
    t + BitVec.ofNat w i = s + BitVec.ofNat w (i - (s - t).toNat) := by
  obtain ⟨k, rfl⟩ := Nat.exists_eq_add_of_le h
  rw [Nat.add_sub_cancel_left, BitVec.ofNat_add, ← BitVec.add_assoc, ← eq_add_offset]

/-- A cell of the source below the target is not in it. -/
theorem source_below (s t : BitVec w) (hi : i < (s - t).toNat) (hn : n ≤ i) :
    t + BitVec.ofNat w i ∉ block s n := by
  have hlt := (s - t).isLt
  have hback : t + BitVec.ofNat w i - s = BitVec.ofNat w i - (s - t) := by
    conv_lhs => rw [eq_add_offset t s, BitVec.ofNat_toNat, BitVec.setWidth_eq]
    rw [← BitVec.sub_sub, BitVec.add_comm t, BitVec.add_sub_cancel]
  have hsmall : i % 2 ^ w = i := Nat.mod_eq_of_lt (by omega)
  rw [mem_block, hback, BitVec.toNat_sub, BitVec.toNat_ofNat, hsmall, Nat.mod_eq_of_lt (by omega)]
  omega

theorem sub_pos_of_ne (hst : s ≠ t) : 0 < (s - t).toNat := by
  refine Nat.pos_of_ne_zero fun hzero => hst ?_
  have hs := eq_add_offset t s
  rw [hzero] at hs
  exact hs.trans (BitVec.add_zero t)

/-- **The cells of a copy**: a source that begins `d` cells below the target is repeated with the period `d`. -/
theorem copyUp_cell (hst : s ≠ t) (hn : n ≤ 2 ^ w) (hi : i < n) :
    copyUp n m s t (s + BitVec.ofNat w i) = m (t + BitVec.ofNat w (i % (s - t).toNat)) := by
  have hd : 0 < (s - t).toNat := sub_pos_of_ne hst
  induction n generalizing i with
  | zero => exact absurd hi (Nat.not_lt_zero i)
  | succ n ih =>
      rw [copyUp_succ]
      -- the last cell is new, and reads what the cells before have left
      by_cases hlast : i = n
      · subst hlast
        rw [Function.update_self]
        by_cases hbelow : i < (s - t).toNat
        · rw [copyUp_frame (by omega) (source_below s t hbelow (Nat.le_refl i)), Nat.mod_eq_of_lt hbelow]
        · -- this cell of the source has been written, a period before
          have hge : (s - t).toNat ≤ i := Nat.le_of_not_lt hbelow
          rw [source_offset s t hge, ih (by omega) (by omega), Nat.mod_eq_sub_mod hge]
      · have hne : s + BitVec.ofNat w i ≠ s + BitVec.ofNat w n := by
          intro he
          have hoff := congrArg (fun x => (x - s).toNat) he
          rw [offset_toNat (by omega), offset_toNat (by omega)] at hoff
          exact hlast hoff
        rw [Function.update_of_ne hne]
        exact ih (by omega) (by omega)

/-- A copy in place. -/
theorem copyUp_self (n : Nat) (m : Store w β) (s : BitVec w) : copyUp n m s s = m := by
  induction n with
  | zero => rfl
  | succ n ih => rw [copyUp_succ, ih, Function.update_eq_self]

/-- **Nothing is written before it is read**: the target does not begin inside the source, or it is the source. -/
def Clear (s t : BitVec w) (n : Nat) : Prop := s = t ∨ n ≤ (s - t).toNat

instance (s t : BitVec w) (n : Nat) : Decidable (Clear s t n) := inferInstanceAs (Decidable (_ ∨ _))

/-- **A clear copy** moves its source as it was. -/
theorem copyUp_clear (h : Clear s t n) (hn : n ≤ 2 ^ w) (m : Store w β) :
    copyUp n m s t = write m s (read m t n) := by
  by_cases hst : s = t
  · subst hst
    rw [copyUp_self, write_read]
  have hd : n ≤ (s - t).toNat := h.resolve_left hst
  funext x
  by_cases hx : x ∈ block s n
  · have hoff : (x - s).toNat < (read m t n).length := by rwa [read_length]
    conv_lhs => rw [eq_add_offset s x]
    rw [copyUp_cell hst hn hx, Nat.mod_eq_of_lt (Nat.lt_of_lt_of_le hx hd), write,
      List.getD_eq_getElem _ _ hoff, read_getElem hoff]
  · have hout : x ∈ (block s (read m t n).length)ᶜ := by rwa [read_length]
    rw [copyUp_frame hn hx, write_eqOn m s _ hout]

/-- **No other copy** does, whatever the store. -/
theorem copyUp_moves_iff [Nontrivial β] (hn : n ≤ 2 ^ w) :
    (∀ m : Store w β, read (copyUp n m s t) s n = read m t n) ↔ Clear s t n := by
  constructor
  · intro h
    by_contra hclear
    obtain ⟨hst, hd⟩ := not_or.mp hclear
    obtain ⟨b, c, hbc⟩ := exists_pair_ne β
    have hlt : (s - t).toNat < n := Nat.lt_of_not_le hd
    -- the first cell of the source comes back where the target begins to be read
    have hcells := congrArg (fun cells => cells[(s - t).toNat]?) (h (Function.update (fun _ => b) t c))
    simp only [read, List.getElem?_map, List.getElem?_range hlt, Option.map_some, Option.some.injEq] at hcells
    rw [copyUp_cell hst hn hlt, Nat.mod_self, show t + BitVec.ofNat w 0 = t from BitVec.add_zero t,
      ← eq_add_offset, Function.update_self, Function.update_of_ne hst] at hcells
    exact hbc hcells.symm
  · intro h m
    have hback : read (write m s (read m t n)) s (read m t n).length = read m t n :=
      read_write m s (by rwa [read_length])
    rw [read_length] at hback
    rw [copyUp_clear h hn]
    exact hback

end ByteStore
