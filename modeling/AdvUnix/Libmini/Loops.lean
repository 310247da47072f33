import AdvUnix.Lib.CopyLoop
import AdvUnix.Lib.X86
import AdvUnix.Libmini.Signal

/-!
# `Libmini.Loops` — the loops over memory

`_memcpy`, `_memset`, `bzero` and `strlen` of `libmini.c`, on the memory of the process. `_memcpy` goes up byte by
byte, so a source that overlaps the target from below comes out repeated (`memcpy_overlap`), and a string copied
with its end is a string again exactly when its target is clear of it (`string_copy_iff`). On objects apart from
each other the loops do what their versions on lists do (`memset_list`, `memcpy_list`).
-/

namespace AdvUnix.Libmini.Loops

open X86 ByteStore

/-! ## The functions -/

/-- How often `while(size-- > 0)` goes round. `size_t` is a `long long` in this library. -/
def rounds (size : BitVec 64) : Nat := size.toInt.toNat

def memset (m : Memory) (s : Word) (size : BitVec 64) (val : BitVec 32) : Memory :=
  fillUp (val.setWidth 8) (rounds size) m s

def bzero (m : Memory) (s : Word) (size : BitVec 64) : Memory := fillUp 0 (rounds size) m s

def memcpy (m : Memory) (s t : Word) (size : BitVec 64) : Memory := copyUp (rounds size) m s t

/-- `while(*s++) count++;`, as long as `count` is in its range. -/
def strlenLoop (m : Memory) : Nat → Word → Nat → Option Nat
  | 0, _, _ => none
  | fuel + 1, s, count => if m s = 0 then some count else strlenLoop m fuel (s + 1#64) (count + 1)

def strlen (m : Memory) (s : Word) : Option Nat := strlenLoop m (2 ^ 63) s 0

theorem bzero_memset (m : Memory) (s : Word) (size : BitVec 64) : bzero m s size = memset m s size 0 := rfl

/-! ## `rounds` -/

variable {m : Memory} {s t a : Word} {size : BitVec 64} {n : Nat}

theorem rounds_lt (size : BitVec 64) : rounds size < 2 ^ 63 := by
  have hlt := BitVec.toInt_lt (x := size)
  unfold rounds
  omega

theorem rounds_le (size : BitVec 64) : rounds size ≤ 2 ^ 64 := by
  have hlt := rounds_lt size
  omega

theorem rounds_ofNat (h : n < 2 ^ 63) : rounds (BitVec.ofNat 64 n) = n := by
  have hn : n % 2 ^ 64 = n := Nat.mod_eq_of_lt (by omega)
  unfold rounds
  rw [BitVec.toInt_eq_toNat_of_lt (by rw [BitVec.toNat_ofNat, hn]; omega), BitVec.toNat_ofNat, hn, Int.toNat_natCast]

/-! ## Overlapping copies -/

theorem byte_nontrivial : Nontrivial (BitVec 8) := ⟨0, 1, by decide⟩

/-- **`_memcpy` on any two places**: what lies outside the target stays; a source that begins `d` bytes below the
    target, modulo the size of the address space, is repeated with the period `d`; and the target gets the source as
    it was, whatever memory holds, exactly when nothing of it is written before it is read. -/
theorem memcpy_overlap (s t : Word) (size : BitVec 64) :
    (∀ m, Set.EqOn (memcpy m s t size) m (block s (rounds size))ᶜ) ∧
      (s ≠ t → ∀ m i, i < rounds size →
        memcpy m s t size (s + BitVec.ofNat 64 i) = m (t + BitVec.ofNat 64 (i % (s - t).toNat))) ∧
      ((∀ m, read (memcpy m s t size) s (rounds size) = read m t (rounds size)) ↔ Clear s t (rounds size)) := by
  refine ⟨?_, ?_, ?_⟩
  · intro m x hx
    exact copyUp_frame (rounds_le size) hx
  · intro hst m i hi
    exact copyUp_cell hst (rounds_le size) hi
  · have hbytes := byte_nontrivial
    exact copyUp_moves_iff (rounds_le size)

/-! ## Strings -/

theorem strlenLoop_eq_some {fuel count : Nat} :
    strlenLoop m fuel s count = some n ↔
      ∃ k, n = count + k ∧ k < fuel ∧ m (s + BitVec.ofNat 64 k) = 0 ∧ ∀ i < k, m (s + BitVec.ofNat 64 i) ≠ 0 := by
  induction fuel generalizing s count with
  | zero => simp [strlenLoop]
  | succ fuel ih =>
      have hzero : s + BitVec.ofNat 64 0 = s := BitVec.add_zero s
      rw [strlenLoop]
      by_cases hs : m s = 0
      · -- the string ends here
        rw [if_pos hs]
        constructor
        · intro h
          cases h
          refine ⟨0, rfl, Nat.succ_pos fuel, ?_, fun i hi => absurd hi (Nat.not_lt_zero i)⟩
          rwa [hzero]
        · rintro ⟨k, rfl, -, -, hbefore⟩
          cases k with
          | zero => rfl
          | succ k =>
              have hfirst := hbefore 0 (Nat.succ_pos k)
              rw [hzero] at hfirst
              exact absurd hs hfirst
      · -- it goes on, and its end is one byte nearer
        rw [if_neg hs, ih]
        constructor
        · rintro ⟨k, rfl, hk, hend, hbefore⟩
          refine ⟨k + 1, by omega, by omega, ?_, ?_⟩
          · rwa [← add_ofNat_succ]
          · intro i hi
            cases i with
            | zero => rwa [hzero]
            | succ i =>
                rw [← add_ofNat_succ]
                exact hbefore i (by omega)
        · rintro ⟨k, rfl, hk, hend, hbefore⟩
          cases k with
          | zero =>
              rw [hzero] at hend
              exact absurd hend hs
          | succ k =>
              refine ⟨k, by omega, by omega, ?_, ?_⟩
              · rwa [add_ofNat_succ]
              · intro i hi
                rw [add_ofNat_succ]
                exact hbefore (i + 1) (by omega)

/-- **`strlen`** finds the first zero byte. -/
theorem strlen_eq_some :
    strlen m s = some n ↔
      n < 2 ^ 63 ∧ m (s + BitVec.ofNat 64 n) = 0 ∧ ∀ i < n, m (s + BitVec.ofNat 64 i) ≠ 0 := by
  unfold strlen
  rw [strlenLoop_eq_some]
  constructor
  · rintro ⟨k, rfl, h⟩
    rwa [Nat.zero_add]
  · intro h
    exact ⟨n, (Nat.zero_add n).symm, h⟩

/-- A cell of a target that holds what the source held. -/
theorem cell_of_read {m' : Memory} {k : Nat} (h : ByteStore.read m' s n = ByteStore.read m t n) (hk : k < n) :
    m' (s + BitVec.ofNat 64 k) = m (t + BitVec.ofNat 64 k) := by
  have hcells := congrArg (fun cells => cells[k]?) h
  simpa [ByteStore.read, hk] using hcells

/-- A copy of so many bytes as the string has with its end. -/
theorem memcpy_ofNat (h : n < 2 ^ 63) (m : Memory) (s t : Word) :
    memcpy m s t (BitVec.ofNat 64 n) = copyUp n m s t := by
  unfold memcpy
  rw [rounds_ofNat h]

/-- **A string copied with its end**: at the target there is the same string exactly when nothing of it is written
    before it is read. Otherwise the end is overwritten, and the string at the target runs on behind the bytes
    copied. -/
theorem string_copy_iff (m : Memory) (s t : Word) (len : Nat) (h : strlen m t = some len)
    (hlen : len + 1 < 2 ^ 63) :
    (strlen (memcpy m s t (BitVec.ofNat 64 (len + 1))) s = some len ↔ Clear s t (len + 1)) ∧
      (Clear s t (len + 1) →
        ByteStore.read (memcpy m s t (BitVec.ofNat 64 (len + 1))) s (len + 1) = ByteStore.read m t (len + 1)) ∧
      (¬ Clear s t (len + 1) →
        ∀ n, strlen (memcpy m s t (BitVec.ofNat 64 (len + 1))) s = some n → len < n) := by
  obtain ⟨hlt, hend, hbefore⟩ := strlen_eq_some.mp h
  rw [memcpy_ofNat hlen]
  have hmoved : Clear s t (len + 1) →
      ByteStore.read (copyUp (len + 1) m s t) s (len + 1) = ByteStore.read m t (len + 1) := by
    intro hclear
    have hbytes := byte_nontrivial
    exact (copyUp_moves_iff (by omega)).mpr hclear m
  -- the bytes that come again are those before the end
  have hruns : ¬ Clear s t (len + 1) →
      ∀ i < len + 1, copyUp (len + 1) m s t (s + BitVec.ofNat 64 i) ≠ 0 := by
    intro hclear i hi
    obtain ⟨hst, hd⟩ := not_or.mp hclear
    have hpos : 0 < (s - t).toNat := sub_pos_of_ne hst
    rw [copyUp_cell hst (by omega) hi]
    exact hbefore _ (Nat.lt_of_lt_of_le (Nat.mod_lt i hpos) (by omega))
  have hlonger : ¬ Clear s t (len + 1) → ∀ n, strlen (copyUp (len + 1) m s t) s = some n → len < n := by
    intro hclear n hn
    by_contra hle
    exact hruns hclear n (by omega) (strlen_eq_some.mp hn).2.1
  refine ⟨⟨?_, ?_⟩, hmoved, hlonger⟩
  · intro hsame
    by_contra hclear
    exact absurd (hlonger hclear len hsame) (Nat.lt_irrefl len)
  · intro hclear
    refine strlen_eq_some.mpr ⟨hlt, ?_, ?_⟩
    · rw [cell_of_read (hmoved hclear) (Nat.lt_succ_self len)]
      exact hend
    · intro i hi
      rw [cell_of_read (hmoved hclear) (by omega)]
      exact hbefore i hi

/-- "AB" at 16 moved one byte down, and one byte up. -/
theorem string_copy_iff_sample :
    (strlen (memcpy (ByteStore.write (fun _ => 0) 16 [65, 66]) 15 16 3) 15 = some 2 ↔ Clear (15 : Word) 16 3) ∧
      (strlen (memcpy (ByteStore.write (fun _ => 0) 16 [65, 66]) 17 16 3) 17 = some 2 ↔ Clear (17 : Word) 16 3) := by
  have hlen : strlen (ByteStore.write (fun _ => 0) 16 [65, 66]) 16 = some 2 := by
    refine strlen_eq_some.mpr ⟨by decide, by decide, by decide⟩
  exact ⟨(string_copy_iff _ 15 16 2 hlen (by decide)).1, (string_copy_iff _ 17 16 2 hlen (by decide)).1⟩

/-! ## On lists -/

/-- A write to the first bytes of an object. -/
theorem read_write_prefix (m : Memory) (a : Word) {cells : List (BitVec 8)} {N : Nat} (h : cells.length ≤ N)
    (hN : N ≤ 2 ^ 64) :
    ByteStore.read (ByteStore.write m a cells) a N = cells ++ (ByteStore.read m a N).drop cells.length := by
  obtain ⟨k, rfl⟩ := Nat.exists_eq_add_of_le h
  have hrest : ByteStore.read (ByteStore.write m a cells) (a + BitVec.ofNat 64 cells.length) k =
      ByteStore.read m (a + BitVec.ofNat 64 cells.length) k :=
    read_congr (by omega) ((write_eqOn m a cells).mono (block_disjoint_next a hN).symm.subset_compl_right)
  rw [read_append, read_append, read_write m a (by omega), hrest, List.drop_left' (read_length m a _)]

theorem memset_ok {val : BitVec 8} {cells cells' : List (BitVec 8)} (h : Libmini.memset val n cells = .ok cells') :
    n ≤ cells.length ∧ cells' = List.replicate n val ++ cells.drop n := by
  induction n generalizing cells cells' with
  | zero =>
      cases h
      exact ⟨Nat.zero_le _, rfl⟩
  | succ n ih =>
      cases cells with
      | nil => cases h
      | cons c cells =>
          rw [Libmini.memset] at h
          cases hrest : Libmini.memset val n cells with
          | error e =>
              rw [hrest] at h
              cases h
          | ok filled =>
              rw [hrest] at h
              cases h
              obtain ⟨hle, rfl⟩ := ih hrest
              exact ⟨Nat.succ_le_succ hle, rfl⟩

theorem memcpy_ok {dst src cells' : List (BitVec 8)} (h : Libmini.memcpy n dst src = .ok cells') :
    n ≤ dst.length ∧ n ≤ src.length ∧ cells' = src.take n ++ dst.drop n := by
  induction n generalizing dst src cells' with
  | zero =>
      cases h
      exact ⟨Nat.zero_le _, Nat.zero_le _, rfl⟩
  | succ n ih =>
      cases dst with
      | nil => cases h
      | cons d dst =>
          cases src with
          | nil => cases h
          | cons c src =>
              rw [Libmini.memcpy] at h
              cases hrest : Libmini.memcpy n dst src with
              | error e =>
                  rw [hrest] at h
                  cases h
              | ok copied =>
                  rw [hrest] at h
                  cases h
                  obtain ⟨hdst, hsrc, rfl⟩ := ih hrest
                  exact ⟨Nat.succ_le_succ hdst, Nat.succ_le_succ hsrc, rfl⟩

/-- **`_memset`** on an object in memory is the one on its bytes. -/
theorem memset_list (m : Memory) (s : Word) (val : BitVec 32) {N : Nat} {cells : List (BitVec 8)} (hN : N ≤ 2 ^ 64)
    (h : Libmini.memset (val.setWidth 8) (rounds size) (ByteStore.read m s N) = .ok cells) :
    ByteStore.read (memset m s size val) s N = cells := by
  obtain ⟨hle, rfl⟩ := memset_ok h
  rw [read_length] at hle
  unfold memset
  rw [fillUp_eq _ (rounds_le size), read_write_prefix m s (by rwa [List.length_replicate]) hN, List.length_replicate]

/-- **`_memcpy`** of one object in memory to another is the one on their bytes. -/
theorem memcpy_list (m : Memory) (s t : Word) {N K : Nat} {cells : List (BitVec 8)} (hN : N ≤ 2 ^ 64)
    (hclear : Clear s t (rounds size))
    (h : Libmini.memcpy (rounds size) (ByteStore.read m s N) (ByteStore.read m t K) = .ok cells) :
    ByteStore.read (memcpy m s t size) s N = cells := by
  obtain ⟨hdst, hsrc, rfl⟩ := memcpy_ok h
  rw [read_length] at hdst hsrc
  have hfirst : (ByteStore.read m t K).take (rounds size) = ByteStore.read m t (rounds size) := by
    obtain ⟨k, rfl⟩ := Nat.exists_eq_add_of_le hsrc
    rw [read_append, List.take_left' (read_length m t _)]
  unfold memcpy
  rw [copyUp_clear hclear (rounds_le size), read_write_prefix m s (by rwa [read_length]) hN, read_length, hfirst]

end AdvUnix.Libmini.Loops
