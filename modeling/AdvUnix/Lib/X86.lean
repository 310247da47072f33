import AdvUnix.Lib.Bytes

/-!
# `Lib.X86` — straight-line x86-64 code

Registers, byte memory and the instructions that a small assembly routine is made of, over a system call
that is a parameter. Code that saves registers on the stack around a body (`bracket`) is proved once: when
the body leaves the stack pointer and the saved block alone, the registers and the stack pointer are back
(`exec_bracket`).
-/

namespace X86

open ByteStore

abbrev Word := BitVec 64
abbrev Memory := Store 64 (BitVec 8)

inductive Reg
  | rax | rbx | rcx | rdx | rsi | rdi | rbp | rsp
  | r8 | r9 | r10 | r11 | r12 | r13 | r14 | r15
  deriving DecidableEq, Repr

/-- A machine state; `κ` is what the kernel keeps of the process. -/
structure State (κ : Type) where
  regs : Reg → Word
  rip : Word
  mem : Memory
  kernel : κ

/-- The quadword at an address. -/
def load (m : Memory) (a : Word) : Word := word (read m a 8)

def store (m : Memory) (a v : Word) : Memory := write m a (wordBytes v)

inductive Instr
  /-- `mov dst, imm` -/
  | imm (dst : Reg) (v : Word)
  /-- `mov dst, src` -/
  | mov (dst src : Reg)
  /-- `mov dst, qword [base + disp]` -/
  | load (dst base : Reg) (disp : Word)
  /-- `mov qword [base + disp], src` -/
  | store (base : Reg) (disp : Word) (src : Reg)
  /-- `lea dst, [base + disp]` -/
  | lea (dst base : Reg) (disp : Word)
  | push (r : Reg)
  | pop (r : Reg)
  | syscall
  | ret
  deriving DecidableEq, Repr

variable {κ : Type}

namespace State

def set (s : State κ) (r : Reg) (v : Word) : State κ := { s with regs := Function.update s.regs r v }

def push (s : State κ) (v : Word) : State κ :=
  { s with
    regs := Function.update s.regs .rsp (s.regs .rsp - 8)
    mem := X86.store s.mem (s.regs .rsp - 8) v }

@[simp] theorem set_same (s : State κ) (r : Reg) (v : Word) : (s.set r v).regs r = v :=
  Function.update_self ..

theorem set_other {s : State κ} {r q : Reg} {v : Word} (h : q ≠ r) : (s.set r v).regs q = s.regs q :=
  Function.update_of_ne h _ _

theorem push_rsp (s : State κ) (v : Word) : (s.push v).regs .rsp = s.regs .rsp - 8 := by
  simp [push]

@[simp] theorem set_mem (s : State κ) (r : Reg) (v : Word) : (s.set r v).mem = s.mem := rfl
@[simp] theorem set_kernel (s : State κ) (r : Reg) (v : Word) : (s.set r v).kernel = s.kernel := rfl
@[simp] theorem set_rip (s : State κ) (r : Reg) (v : Word) : (s.set r v).rip = s.rip := rfl

end State

/-- One instruction. A routine leaves `rip` to its caller until `ret`. -/
def step (sys : State κ → State κ) (s : State κ) : Instr → State κ
  | .imm dst v => s.set dst v
  | .mov dst src => s.set dst (s.regs src)
  | .load dst base disp => s.set dst (load s.mem (s.regs base + disp))
  | .store base disp src => { s with mem := store s.mem (s.regs base + disp) (s.regs src) }
  | .lea dst base disp => s.set dst (s.regs base + disp)
  | .push r => s.push (s.regs r)
  | .pop r => (s.set .rsp (s.regs .rsp + 8)).set r (load s.mem (s.regs .rsp))
  | .syscall => sys s
  | .ret => { s.set .rsp (s.regs .rsp + 8) with rip := load s.mem (s.regs .rsp) }

/-- A routine from its first instruction to its last. -/
def exec (sys : State κ → State κ) (code : List Instr) (s : State κ) : State κ :=
  code.foldl (step sys) s

variable {sys : State κ → State κ}

@[simp] theorem exec_nil (s : State κ) : exec sys [] s = s := rfl

@[simp] theorem exec_cons (i : Instr) (code : List Instr) (s : State κ) :
    exec sys (i :: code) s = exec sys code (step sys s i) := rfl

theorem exec_append (code code' : List Instr) (s : State κ) :
    exec sys (code ++ code') s = exec sys code' (exec sys code s) := List.foldl_append

/-! ## Memory -/

theorem read_store (m : Memory) (a v : Word) : read (store m a v) a 8 = wordBytes v := by
  have h := read_write m a (show (wordBytes v).length ≤ 2 ^ 64 by rw [wordBytes_length]; decide)
  rwa [wordBytes_length] at h

theorem load_store (m : Memory) (a v : Word) : load (store m a v) a = v := by
  unfold load
  rw [read_store, word_wordBytes]

/-- A store changes its eight bytes only. -/
theorem store_eqOn (m : Memory) (a v : Word) : Set.EqOn (store m a v) m (block a 8)ᶜ := by
  have h := write_eqOn m a (wordBytes v)
  rwa [wordBytes_length] at h

/-- The same store into two memories keeps what they agree on. -/
theorem store_congr {m m' : Memory} {S : Set Word} (h : Set.EqOn m m' S) (a v : Word) :
    Set.EqOn (store m a v) (store m' a v) S := by
  intro x hx
  unfold store write
  rw [h hx]

theorem load_congr {m m' : Memory} {a : Word} (h : Set.EqOn m m' (block a 8)) : load m a = load m' a := by
  unfold load
  rw [read_congr (by decide) h]

/-! ## Quadwords in a row -/

/-- The bytes of some quadwords. -/
def words (vs : List Word) : List (BitVec 8) := vs.flatMap wordBytes

theorem words_length (vs : List Word) : (words vs).length = 8 * vs.length := by
  induction vs with
  | nil => rfl
  | cons v vs ih =>
      unfold words at ih ⊢
      rw [List.flatMap_cons, List.length_append, wordBytes_length, ih, List.length_cons]
      omega

theorem words_append (vs us : List Word) : words (vs ++ us) = words vs ++ words us := List.flatMap_append

theorem words_cons (v : Word) (vs : List Word) : words (v :: vs) = wordBytes v ++ words vs := List.flatMap_cons

/-- Quadwords stored at ascending addresses. -/
def storeAll (m : Memory) (a : Word) : List Word → Memory
  | [] => m
  | v :: vs => storeAll (store m a v) (a + 8) vs

theorem storeAll_eq (m : Memory) (a : Word) (us vs : List Word) (h : 8 * (us.length + vs.length) ≤ 2 ^ 64) :
    storeAll (write m a (words us)) (a + BitVec.ofNat 64 (8 * us.length)) vs =
      write m a (words (us ++ vs)) := by
  induction vs generalizing us with
  | nil => rw [List.append_nil, storeAll]
  | cons v vs ih =>
      rw [List.length_cons] at h
      have hstore : store (write m a (words us)) (a + BitVec.ofNat 64 (8 * us.length)) v =
          write m a (words (us ++ [v])) := by
        have happ := write_append m a (words us) (wordBytes v)
          (by rw [words_length, wordBytes_length]; omega)
        rw [words_length] at happ
        rw [store, happ, words_append, words_cons]
        exact congrArg (fun bs => write m a (words us ++ bs)) (List.append_nil _).symm
      have hnext : a + BitVec.ofNat 64 (8 * us.length) + 8 =
          a + BitVec.ofNat 64 (8 * (us ++ [v]).length) := by
        rw [List.length_append, List.length_singleton, Nat.mul_succ, BitVec.ofNat_add, BitVec.add_assoc]
        rfl
      have hlen : 8 * ((us ++ [v]).length + vs.length) ≤ 2 ^ 64 := by
        rw [List.length_append, List.length_singleton]
        omega
      rw [storeAll, hstore, hnext, ih (us ++ [v]) hlen, List.append_assoc, List.singleton_append]

/-- **Stores in a row** are one write. -/
theorem storeAll_write (m : Memory) (a : Word) (vs : List Word) (h : 8 * vs.length ≤ 2 ^ 64) :
    storeAll m a vs = write m a (words vs) := by
  have hrow := storeAll_eq m a [] vs (by simpa using h)
  rwa [List.length_nil, Nat.mul_zero, show a + BitVec.ofNat 64 0 = a from BitVec.add_zero a] at hrow

/-- A quadword of a row that memory holds. -/
theorem load_of_read {m : Memory} {a : Word} {vs : List Word} (h : read m a (8 * vs.length) = words vs)
    {k : Nat} (hk : k < vs.length) : load m (a + BitVec.ofNat 64 (8 * k)) = vs[k] := by
  have hread := read_drop_take m a (k := 8 * k) (n := 8) (N := 8 * vs.length) (by omega)
  have hword : ((words vs).drop (8 * k)).take 8 = wordBytes vs[k] := by
    have hsplit : vs = vs.take k ++ vs[k] :: vs.drop (k + 1) := by
      rw [List.getElem_cons_drop, List.take_append_drop]
    have hlen : (words (vs.take k)).length = 8 * k := by
      rw [words_length, List.length_take, Nat.min_eq_left (Nat.le_of_lt hk)]
    conv_lhs => rw [hsplit]
    rw [words_append, words_cons, ← hlen, List.drop_left]
    exact List.take_left' (wordBytes_length _)
  unfold load
  rw [← hread, h, hword, word_wordBytes]

/-! ## Saving registers around a body -/

/-- The address `n` quadwords below another. -/
def below (a : Word) (n : Nat) : Word := a - BitVec.ofNat 64 (8 * n)

theorem below_succ (a : Word) (n : Nat) : below a (n + 1) = below (a - 8) n := by
  unfold below
  rw [Nat.mul_succ, Nat.add_comm, BitVec.ofNat_add, ← BitVec.sub_sub]
  rfl

theorem below_add (a : Word) (n : Nat) : below a n + BitVec.ofNat 64 (8 * n) = a :=
  BitVec.sub_add_cancel _ _

/-- Registers pushed before a body and popped after it. -/
def bracket : List Reg → List Instr → List Instr
  | [], body => body
  | r :: rs, body => .push r :: (bracket rs body ++ [.pop r])

/-- The state in which the body of a bracket starts. -/
def entered : List Reg → State κ → State κ
  | [], s => s
  | r :: rs, s => entered rs (s.push (s.regs r))

theorem entered_regs {rs : List Reg} {s : State κ} {q : Reg} (hq : q ≠ .rsp) :
    (entered rs s).regs q = s.regs q := by
  induction rs generalizing s with
  | nil => rfl
  | cons r rs ih =>
      rw [entered, ih]
      exact Function.update_of_ne hq _ _

theorem entered_kernel (rs : List Reg) (s : State κ) : (entered rs s).kernel = s.kernel := by
  induction rs generalizing s with
  | nil => rfl
  | cons r rs ih =>
      rw [entered, ih]
      rfl

/-- The part of the stack that the pushes of a bracket write. -/
def saved (rs : List Reg) (s : State κ) : Set Word := block (below (s.regs .rsp) rs.length) (8 * rs.length)

/-- The later pushes write below the first one. -/
theorem saved_cons (r : Reg) (rs : List Reg) (s : State κ) :
    saved rs (s.push (s.regs r)) ⊆ saved (r :: rs) s := by
  have hbase : below (s.regs .rsp) (rs.length + 1) = below ((s.push (s.regs r)).regs .rsp) rs.length :=
    below_succ _ _
  unfold saved
  rw [List.length_cons, hbase]
  exact block_mono (by omega)

/-- The first push writes the top slot. -/
theorem top_subset (r : Reg) (rs : List Reg) (s : State κ) :
    block (s.regs .rsp - 8) 8 ⊆ saved (r :: rs) s := by
  have hsub := block_add_subset (below (s.regs .rsp - 8) rs.length) (8 * rs.length) 8
  rw [below_add, ← below_succ] at hsub
  exact hsub

theorem top_disjoint (r : Reg) (rs : List Reg) (s : State κ) (hlen : 8 * (rs.length + 1) ≤ 2 ^ 64) :
    Disjoint (saved rs (s.push (s.regs r))) (block (s.regs .rsp - 8) 8) := by
  have hdis := block_disjoint_next (below (s.regs .rsp - 8) rs.length)
    (show 8 * rs.length + 8 ≤ 2 ^ 64 by omega)
  rw [below_add] at hdis
  exact hdis

/-- Pushes change the stack only. -/
theorem entered_mem (rs : List Reg) (s : State κ) :
    Set.EqOn (entered rs s).mem s.mem (saved rs s)ᶜ := by
  induction rs generalizing s with
  | nil => exact fun _ _ => rfl
  | cons r rs ih =>
      intro x hx
      calc (entered (r :: rs) s).mem x
          = (s.push (s.regs r)).mem x := ih _ (fun h => hx (saved_cons r rs s h))
        _ = s.mem x := store_eqOn _ _ _ (fun h => hx (top_subset r rs s h))

/-- What a body has to leave alone for the registers around it to come back. -/
structure Balanced (sys : State κ → State κ) (rs : List Reg) (body : List Instr) (s : State κ) :
    Prop where
  rsp : (exec sys body (entered rs s)).regs .rsp = (entered rs s).regs .rsp
  mem : Set.EqOn (exec sys body (entered rs s)).mem (entered rs s).mem (saved rs s)

/-- **A bracket** around a balanced body does what the body does, and brings the saved registers and the
    stack pointer back. -/
theorem exec_bracket {rs : List Reg} {body : List Instr} {s : State κ} (hlen : 8 * rs.length ≤ 2 ^ 64)
    (hrs : .rsp ∉ rs) (h : Balanced sys rs body s) :
    exec sys (bracket rs body) s =
      { exec sys body (entered rs s) with
        regs := fun q => if q = .rsp ∨ q ∈ rs then s.regs q else (exec sys body (entered rs s)).regs q } := by
  induction rs generalizing s with
  | nil =>
      have hregs : (fun q => if q = .rsp ∨ q ∈ ([] : List Reg) then s.regs q
          else (exec sys body s).regs q) = (exec sys body s).regs := by
        funext q
        by_cases hq : q = .rsp
        · subst hq
          simp only [true_or, if_true]
          exact h.rsp.symm
        · simp [hq]
      simp only [bracket, entered, hregs]
  | cons r rs ih =>
      have hr : r ≠ .rsp := fun he => hrs (he ▸ List.mem_cons_self)
      have hrs' : .rsp ∉ rs := fun hm => hrs (List.mem_cons_of_mem r hm)
      rw [List.length_cons] at hlen
      -- the inner bracket runs on the stack below the slot of `r`
      have hinner : Balanced sys rs body (s.push (s.regs r)) :=
        ⟨h.rsp, h.mem.mono (saved_cons r rs s)⟩
      -- the slot of `r` is above everything that is pushed later, and the body keeps it
      have hslot : load (exec sys body (entered rs (s.push (s.regs r)))).mem (s.regs .rsp - 8) =
          s.regs r := by
        have hkept : Set.EqOn (exec sys body (entered rs (s.push (s.regs r)))).mem
            (s.push (s.regs r)).mem (block (s.regs .rsp - 8) 8) :=
          (h.mem.mono (top_subset r rs s)).trans ((entered_mem rs (s.push (s.regs r))).mono
            (top_disjoint r rs s hlen).symm.subset_compl_right)
        rw [load_congr hkept]
        exact load_store _ _ _
      have hback : s.regs .rsp - 8 + 8 = s.regs .rsp := BitVec.sub_add_cancel _ _
      rw [bracket, exec_cons, step, exec_append, ih (by omega) hrs' hinner, exec_cons, exec_nil, step]
      simp only [State.set, true_or, if_true]
      rw [State.push_rsp, hslot, hback]
      simp only [entered, State.mk.injEq, and_true]
      funext q
      by_cases hq : q = r
      · subst hq
        rw [Function.update_self, if_pos (Or.inr List.mem_cons_self)]
      rw [Function.update_of_ne hq]
      by_cases hsp : q = .rsp
      · subst hsp
        rw [Function.update_self, if_pos (Or.inl rfl)]
      rw [Function.update_of_ne hsp]
      by_cases hmem : q ∈ rs
      · rw [if_pos (Or.inr hmem), if_pos (Or.inr (List.mem_cons_of_mem r hmem))]
        exact Function.update_of_ne hsp _ _
      · rw [if_neg (by simp [hsp, hmem]), if_neg (by simp [hsp, hmem, hq])]

end X86
