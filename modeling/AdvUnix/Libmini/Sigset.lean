import AdvUnix.Lib.Bytes
import AdvUnix.Lib.WordSet

/-!
# `Libmini.Sigset` — sets of signals

The five operations of `libmini.c` on a `sigset_t`, a word whose bit `n - 1` stands for the signal `n`. Each
is a set operation on the members (`sigemptyset_members`, `sigfillset_members`, `sigaddset_members`,
`sigdelset_members`, `sigismember_members`), so any sequence of them keeps in step with the same sequence
on sets (`sigset_refines`).
-/

namespace AdvUnix.Libmini

open ByteStore WordSet

/-- `sigset_t` -/
abbrev SigSet := BitVec 64

def NSIG : Int := 64

def EINVAL : Int := 22

/-- What C leaves undefined in these functions. -/
inductive Undefined
  /-- A shift by a negative count, or by the width of the word or more. -/
  | shift
  /-- A store past the end of an object. -/
  | outOfBounds
  deriving DecidableEq, Repr

/-- A function of the library; the state is `errno`. -/
abbrev Lib (α : Type) := StateT Int (Except Undefined) α

/-- `SET_ERRNO(EINVAL); return ret;` -/
def invalid {α : Type} (ret : α) : Lib α := do
  set EINVAL
  pure ret

/-- `_memset`, on the bytes of an object from its first one on. -/
def memset (val : BitVec 8) : Nat → List (BitVec 8) → Except Undefined (List (BitVec 8))
  | 0, cells => .ok cells
  | _ + 1, [] => .error .outOfBounds
  | n + 1, _ :: cells => (memset val n cells).map (val :: ·)

/-- `sizeof(set)`, the size of a pointer. -/
def sizeofPtr : Nat := 8

/-- `i << (signum - 1)` for `i = 0x1` -/
def shifted (signum : Int) : Lib SigSet :=
  if 0 ≤ signum - 1 ∧ signum - 1 < 64 then pure (1#64 <<< (signum - 1).toNat) else throw .shift

/-- `_memset(set, sizeof(set), val)`, unless the pointer is null; the result and the set behind the
    pointer. -/
def fill (set : Option SigSet) (val : BitVec 8) : Lib (Int × Option SigSet) :=
  match set with
  | none => invalid (-1, none)
  | some s => do
      let cells ← liftM (memset val sizeofPtr (wordBytes s))
      pure (0, some (word cells))

def sigemptyset (set : Option SigSet) : Lib (Int × Option SigSet) := fill set 0x0

def sigfillset (set : Option SigSet) : Lib (Int × Option SigSet) := fill set 0xff

def sigaddset (set : Option SigSet) (signum : Int) : Lib (Int × Option SigSet) :=
  match set with
  | none => invalid (-1, none)
  | some s =>
      if signum ≥ NSIG then invalid (-1, some s)
      else do
        let i ← shifted signum
        pure (0, some (s ||| i))

def sigdelset (set : Option SigSet) (signum : Int) : Lib (Int × Option SigSet) :=
  match set with
  | none => invalid (-1, none)
  | some s =>
      if signum ≥ NSIG then invalid (-1, some s)
      else do
        let i ← shifted signum
        pure (0, some (s &&& ~~~i))

def sigismember (set : Option SigSet) (signum : Int) : Lib Int :=
  match set with
  | none => invalid (-1)
  | some s =>
      if signum ≥ NSIG then invalid (-1)
      else do
        let i ← shifted signum
        pure (if s &&& i ≠ 0 then 1 else 0)

/-! ## Signals and their sets -/

/-- **A signal number.** -/
structure Signum where
  val : Int
  pos : 1 ≤ val
  lt : val < NSIG
  deriving DecidableEq

/-- The position of a signal in a set. -/
def Signum.bit (n : Signum) : Fin 64 := ⟨(n.val - 1).toNat, by
  have hpos := n.pos
  have hlt : n.val < 64 := n.lt
  omega⟩

theorem Signum.bit_injective : Function.Injective Signum.bit := by
  intro n m h
  have hval : (n.val - 1).toNat = (m.val - 1).toNat := congrArg Fin.val h
  have hn := n.pos
  have hm := m.pos
  have heq : n.val = m.val := by omega
  cases n
  cases m
  cases heq
  rfl

/-- **The members of a `sigset_t`.** -/
def members (s : SigSet) : Set Signum := {m | m.bit ∈ ones s}

@[simp] theorem mem_members {s : SigSet} {m : Signum} : m ∈ members s ↔ m.bit ∈ ones s := Iff.rfl

theorem shifted_signum (n : Signum) : shifted n.val = pure (single n.bit) := by
  have hpos := n.pos
  have hlt : n.val < 64 := n.lt
  unfold shifted
  rw [if_pos (by omega)]
  rfl

theorem Signum.not_ge (n : Signum) : ¬ n.val ≥ NSIG := Int.not_le.mpr n.lt

/-! ## Each operation on the members -/

/-- A whole object filled. -/
theorem memset_all (val : BitVec 8) (cells : List (BitVec 8)) :
    memset val cells.length cells = .ok (List.replicate cells.length val) := by
  induction cells with
  | nil => rfl
  | cons c cells ih =>
      rw [List.length_cons, memset, ih]
      rfl

/-- The pointer is as wide as the set, so the whole set is filled. -/
theorem fill_some (s : SigSet) (val : BitVec 8) (errno : Int) :
    fill (some s) val errno = .ok ((0, some (word (List.replicate 8 val))), errno) := by
  have hcells : memset val sizeofPtr (wordBytes s) = .ok (List.replicate 8 val) := by
    have h := memset_all val (wordBytes s)
    rwa [wordBytes_length] at h
  show (liftM (memset val sizeofPtr (wordBytes s)) >>= fun cells =>
    pure ((0 : Int), some (word cells)) : Lib (Int × Option SigSet)) errno = _
  rw [hcells]
  rfl

theorem sigemptyset_members (s : SigSet) (errno : Int) :
    ∃ t, sigemptyset (some s) errno = .ok ((0, some t), errno) ∧ members t = ∅ := by
  refine ⟨_, fill_some s 0x0 errno, ?_⟩
  ext m
  rw [mem_members, show word (List.replicate 8 0x0) = 0#64 by decide, ones_zero]
  exact Iff.rfl

theorem sigfillset_members (s : SigSet) (errno : Int) :
    ∃ t, sigfillset (some s) errno = .ok ((0, some t), errno) ∧ members t = Set.univ := by
  refine ⟨_, fill_some s 0xff errno, ?_⟩
  ext m
  rw [mem_members, show word (List.replicate 8 0xff) = BitVec.allOnes 64 by decide, ones_allOnes]
  exact Iff.rfl

theorem sigaddset_members (s : SigSet) (n : Signum) (errno : Int) :
    ∃ t, sigaddset (some s) n.val errno = .ok ((0, some t), errno) ∧
      members t = insert n (members s) := by
  refine ⟨s ||| single n.bit, ?_, ?_⟩
  · simp only [sigaddset, if_neg n.not_ge, shifted_signum]
    rfl
  · ext m
    rw [mem_members, ones_insert, Set.mem_insert_iff, Set.mem_insert_iff, mem_members,
      Signum.bit_injective.eq_iff]

theorem sigdelset_members (s : SigSet) (n : Signum) (errno : Int) :
    ∃ t, sigdelset (some s) n.val errno = .ok ((0, some t), errno) ∧
      members t = members s \ {n} := by
  refine ⟨s &&& ~~~(single n.bit), ?_, ?_⟩
  · simp only [sigdelset, if_neg n.not_ge, shifted_signum]
    rfl
  · ext m
    rw [mem_members, ones_remove, Set.mem_sdiff, Set.mem_sdiff, Set.mem_singleton_iff,
      Set.mem_singleton_iff, mem_members, Signum.bit_injective.eq_iff]

open Classical in
/-- **Membership** is what `sigismember` tells. -/
theorem sigismember_members (s : SigSet) (m : Signum) (errno : Int) :
    sigismember (some s) m.val errno = .ok (if m ∈ members s then 1 else 0, errno) := by
  have hbit := and_single (x := s) (i := m.bit)
  simp only [sigismember, if_neg m.not_ge, shifted_signum]
  show Except.ok ((if s &&& single m.bit ≠ 0 then (1 : Int) else 0), errno) = _
  by_cases hm : m ∈ members s
  · rw [if_pos hm, if_pos (hbit.mpr hm)]
  · rw [if_neg hm, if_neg (fun h => hm (hbit.mp h))]

/-! ## Sequences of operations -/

/-- An operation that changes a set. -/
inductive SetOp
  | empty
  | fill
  | add (n : Signum)
  | del (n : Signum)
  deriving DecidableEq

/-- The call in C. -/
def SetOp.run (set : Option SigSet) : SetOp → Lib (Int × Option SigSet)
  | .empty => sigemptyset set
  | .fill => sigfillset set
  | .add n => sigaddset set n.val
  | .del n => sigdelset set n.val

/-- The operation on sets. -/
def SetOp.apply (S : Set Signum) : SetOp → Set Signum
  | .empty => ∅
  | .fill => Set.univ
  | .add n => insert n S
  | .del n => S \ {n}

/-- The signal that an operation is about; the first two are about all of them. -/
def SetOp.About (m : Signum) : SetOp → Prop
  | .empty => True
  | .fill => True
  | .add n => m = n
  | .del n => m = n

/-- The calls one after the other, on the same object; their results are not looked at. -/
def runOps : Option SigSet → List SetOp → Lib (Option SigSet)
  | set, [] => pure set
  | set, op :: ops => do
      let r ← op.run set
      runOps r.2 ops

/-- **One operation.** -/
theorem SetOp.run_apply (op : SetOp) (s : SigSet) (errno : Int) :
    ∃ t, op.run (some s) errno = .ok ((0, some t), errno) ∧ members t = op.apply (members s) := by
  cases op with
  | empty => exact sigemptyset_members s errno
  | fill => exact sigfillset_members s errno
  | add n => exact sigaddset_members s n errno
  | del n => exact sigdelset_members s n errno

/-- An operation about other signals leaves `m` where it was. -/
theorem SetOp.apply_other {op : SetOp} {m : Signum} (h : ¬ op.About m) (S : Set Signum) :
    m ∈ op.apply S ↔ m ∈ S := by
  cases op with
  | empty => exact absurd trivial h
  | fill => exact absurd trivial h
  | add n => exact Set.mem_insert_iff.trans (or_iff_right h)
  | del n => exact and_iff_left h

/-- **A run of operations.** -/
theorem runOps_apply (ops : List SetOp) (s : SigSet) (errno : Int) :
    ∃ t, runOps (some s) ops errno = .ok (some t, errno) ∧
      members t = ops.foldl SetOp.apply (members s) := by
  induction ops generalizing s with
  | nil => exact ⟨s, rfl, rfl⟩
  | cons op ops ih =>
      obtain ⟨u, hrun, hu⟩ := op.run_apply s errno
      obtain ⟨t, hrest, ht⟩ := ih u
      refine ⟨t, ?_, ?_⟩
      · rw [← hrest]
        show (op.run (some s) errno).bind (fun r => runOps r.1.2 ops r.2) = _
        rw [hrun]
        rfl
      · rw [ht, hu, List.foldl_cons]

open Classical in
/-- **The operations on `sigset_t` refine those on sets.** After every part of a sequence, `sigismember`
    tells the members of the set that the same operations make of the starting value's members, and an
    operation about one signal leaves what it tells of every other one. -/
theorem sigset_refines (start : SigSet) (ops : List SetOp) (errno : Int) (i : Nat) :
    ∃ s, runOps (some start) (ops.take i) errno = .ok (some s, errno) ∧
      (∀ m : Signum, sigismember (some s) m.val errno
        = .ok (if m ∈ (ops.take i).foldl SetOp.apply (members start) then 1 else 0, errno)) ∧
      ∀ op, ops[i]? = some op → ∃ t, op.run (some s) errno = .ok ((0, some t), errno) ∧
        ∀ m : Signum, ¬ op.About m →
          sigismember (some t) m.val errno = sigismember (some s) m.val errno := by
  obtain ⟨s, hrun, hs⟩ := runOps_apply (ops.take i) start errno
  refine ⟨s, hrun, ?_, ?_⟩
  · intro m
    rw [sigismember_members, hs]
  · intro op _
    obtain ⟨t, hop, ht⟩ := op.run_apply s errno
    refine ⟨t, hop, ?_⟩
    intro m hm
    rw [sigismember_members, sigismember_members, ht]
    simp only [op.apply_other hm]

end AdvUnix.Libmini
