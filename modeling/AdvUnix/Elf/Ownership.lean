import Mathlib.Tactic.Tauto
import AdvUnix.Elf.Loader
import AdvUnix.Lib.Ledger

/-!
# `Elf.Ownership` — what the handle owns

The pointers of `elfhandle_t`, and the blocks and streams behind them. Each function of `open_elf.cpp` that
allocates is given again with its allocations, and does to the handle what the loader does; `elf_close` gives back
what the handle points to. Loading another program overwrites pointers that nothing else has, and the string tables
are never given back: `elf_close` is safe after any number of loads, and complete after few of them (`close_gives`).
-/

namespace AdvUnix.Elf

open Ledger

/-- What a resource is for. -/
inductive Use
  | handle | stream | ehdr | phdr | shdr | node | data
  deriving DecidableEq, Repr

abbrev Res := Resource Use

/-- The pointers of the handle. A node of the list of string tables comes with its `data`. -/
structure Pointers where
  self : Res
  file : Option Res
  ehdr : Option Res
  phdr : Option Res
  shdr : Option Res
  strtab : List (Res × Option Res)

/-- A handle with its pointers and the books. -/
structure Accounted where
  e : Handle
  p : Pointers
  g : Books Use

/-! ## The functions with their allocations -/

/-- `e = calloc(1, sizeof(elfhandle_t))` -/
def Accounted.init : Accounted where
  e := Handle.init
  p := ⟨(acquire .handle Books.empty).1, none, none, none, none, []⟩
  g := (acquire .handle Books.empty).2

/-- `elf_open` when `fopen` succeeds: the stream and the header are the handle's also when the magic is wrong. -/
def opening (a : Accounted) : Accounted :=
  let (file, g) := acquire .stream a.g
  let (ehdr, g) := acquire .ehdr g
  { a with p := { a.p with file := some file, ehdr := some ehdr }, g := g }

def loadPhdrOwned (mem : Memory) (a : Accounted) (f : Stream) : Except Fault (Accounted × Stream) :=
  if a.e.phCnt = 0 then .ok (a, f)
  else do
    let (phdr, f) ← loadTable mem f a.e.ehdr.phoff a.e.ehdr.phentsize a.e.ehdr.phnum
    let (ptr, g) := granted .phdr phdr.isSome a.g
    .ok (⟨{ a.e with phdr := phdr }, { a.p with phdr := ptr }, g⟩, f)

def loadShdrOwned (mem : Memory) (a : Accounted) (f : Stream) : Except Fault (Accounted × Stream) :=
  if a.e.shCnt = 0 then .ok (a, f)
  else do
    let (shdr, f) ← loadTable mem f a.e.ehdr.shoff a.e.ehdr.shentsize a.e.ehdr.shnum
    let (ptr, g) := granted .shdr shdr.isSome a.g
    .ok (⟨{ a.e with shdr := shdr }, { a.p with shdr := ptr }, g⟩, f)

/-- The string tables made so far with their pointers, the stream and the books. -/
structure Tabs where
  strtab : List Strtab
  ptrs : List (Res × Option Res)
  f : Stream
  g : Books Use

/-- One turn of the loop of `load_strtab`: a node, and its bytes where `calloc` has them. -/
def loadStrtabStepOwned (mem : Memory) (shdr : List Byte) (acc : Tabs) (i : Nat) : Except Fault Tabs := do
  let ty ← shField shdr i 4 4
  if ty ≠ shtStrtab then .ok acc
  else
    let size ← shField shdr i 32 8
    let off ← shField shdr i 24 8
    let (data, f) ← fread mem (acc.f.seek off) (callocBytes mem size) size
    -- the node's own calloc is taken to succeed
    let (node, g) := acquire .node acc.g
    let (ptr, g) := granted .data data.isSome g
    .ok ⟨⟨i, Int.bmod size (2 ^ 32), data⟩ :: acc.strtab, (node, ptr) :: acc.ptrs, f, g⟩

def loadStrtabOwned (mem : Memory) (a : Accounted) (f : Stream) : Except Fault (Accounted × Stream) :=
  match a.e.shdr with
  | none => .ok (⟨{ a.e with strtab := [] }, { a.p with strtab := [] }, a.g⟩, f)
  | some shdr => do
      let tabs ← (List.range a.e.shCnt).foldlM (loadStrtabStepOwned mem shdr) ⟨[], [], f, a.g⟩
      .ok (⟨{ a.e with strtab := tabs.strtab }, { a.p with strtab := tabs.ptrs }, tabs.g⟩, tabs.f)

def elfLoadOwned (mem : Memory) (a : Accounted) : Except Fault Accounted :=
  match a.e.file with
  | none => .ok a
  | some f => do
      let (a, f) ← loadPhdrOwned mem a f
      let (a, f) ← loadShdrOwned mem a f
      let (a, f) ← loadStrtabOwned mem a f
      .ok { a with e := { a.e with file := some f } }

/-- `free` -/
def free (r : Res) (g : Books Use) : Option (Books Use) := if r.label = .stream then none else release r g

/-- `fclose` -/
def fclose (r : Res) (g : Books Use) : Option (Books Use) := if r.label = .stream then release r g else none

/-- A pointer is tested before it is given back. -/
def unlessNull (give : Res → Books Use → Option (Books Use)) : Option Res → Books Use → Option (Books Use)
  | none, g => some g
  | some r, g => give r g

def elfClose (p : Pointers) (g : Books Use) : Option (Books Use) := do
  let g ← unlessNull free p.ehdr g
  let g ← unlessNull free p.phdr g
  let g ← unlessNull free p.shdr g
  let g ← unlessNull fclose p.file g
  free p.self g

/-! ## The handle is the loader's -/

variable {mem : Memory} {a a' : Accounted} {f f' : Stream} {shdr : List Byte}

theorem loadPhdrOwned_handle (a : Accounted) (f : Stream) :
    (loadPhdrOwned mem a f).map (fun r => (r.1.e, r.2)) = loadPhdr mem a.e f := by
  unfold loadPhdrOwned loadPhdr
  split
  · rfl
  · cases loadTable mem f a.e.ehdr.phoff a.e.ehdr.phentsize a.e.ehdr.phnum <;> rfl

theorem loadShdrOwned_handle (a : Accounted) (f : Stream) :
    (loadShdrOwned mem a f).map (fun r => (r.1.e, r.2)) = loadShdr mem a.e f := by
  unfold loadShdrOwned loadShdr
  split
  · rfl
  · cases loadTable mem f a.e.ehdr.shoff a.e.ehdr.shentsize a.e.ehdr.shnum <;> rfl

theorem loadStrtabStepOwned_handle (mem : Memory) (shdr : List Byte) (acc : Tabs) (i : Nat) :
    (loadStrtabStepOwned mem shdr acc i).map (fun t => (t.strtab, t.f)) =
      loadStrtabStep mem shdr (acc.strtab, acc.f) i := by
  unfold loadStrtabStepOwned loadStrtabStep
  cases shField shdr i 4 4 with
  | error e => rfl
  | ok ty =>
      simp only [bind, Except.bind]
      split
      · rfl
      · cases shField shdr i 32 8 with
        | error e => rfl
        | ok size =>
            cases shField shdr i 24 8 with
            | error e => rfl
            | ok off =>
                simp only
                cases fread mem (acc.f.seek off) (callocBytes mem size) size <;> rfl

/-- **A loop with more in its state** does the same to what the loop has. -/
theorem foldlM_map {α β ι ε : Type} {π : α → β} {step : α → ι → Except ε α} {step' : β → ι → Except ε β}
    (h : ∀ x i, (step x i).map π = step' (π x) i) (l : List ι) (x : α) :
    (l.foldlM step x).map π = l.foldlM step' (π x) := by
  induction l generalizing x with
  | nil => rfl
  | cons i l ih =>
      rw [List.foldlM_cons, List.foldlM_cons, ← h]
      cases step x i with
      | error e => rfl
      | ok y => exact ih y

theorem loadStrtabOwned_handle (a : Accounted) (f : Stream) :
    (loadStrtabOwned mem a f).map (fun r => (r.1.e, r.2)) = loadStrtab mem a.e f := by
  obtain ⟨⟨file, phCnt, shCnt, shStridx, entry, ehdr, phdr, shdr, strtab⟩, p, g⟩ := a
  cases shdr with
  | none => rfl
  | some shdr =>
      have hloop := foldlM_map (loadStrtabStepOwned_handle mem shdr) (List.range shCnt) ⟨[], [], f, g⟩
      simp only [loadStrtabOwned, loadStrtab, ← hloop]
      cases (List.range shCnt).foldlM (loadStrtabStepOwned mem shdr) ⟨[], [], f, g⟩ <;> rfl

/-- **The accounts do not disturb the loader.** -/
theorem elfLoadOwned_handle (mem : Memory) (a : Accounted) :
    (elfLoadOwned mem a).map Accounted.e = elfLoad mem a.e := by
  unfold elfLoadOwned elfLoad
  cases hfile : a.e.file with
  | none => rfl
  | some f =>
      simp only [← loadPhdrOwned_handle]
      cases loadPhdrOwned mem a f with
      | error e => rfl
      | ok r =>
          simp only [Except.map, bind, Except.bind, ← loadShdrOwned_handle]
          cases loadShdrOwned mem r.1 r.2 with
          | error e => rfl
          | ok r =>
              simp only [← loadStrtabOwned_handle]
              cases loadStrtabOwned mem r.1 r.2 <;> rfl

/-! ## What each function adds to the books -/

/-- The resources of a list of string tables. -/
def tabRes (ptrs : List (Res × Option Res)) : List Res := ptrs.flatMap fun t => t.2.toList ++ [t.1]

/-- The resources that the handle itself points to, as `elf_close` gives them back. -/
def Pointers.direct (p : Pointers) : List Res :=
  p.ehdr.toList ++ (p.phdr.toList ++ (p.shdr.toList ++ (p.file.toList ++ [p.self])))

/-- **A table has been read** into a field of the handle, or the field has been left alone: what is in it then, and
    what the books have more. -/
def Refilled (use : Use) (old new : Option Res) (added : List Res) : Prop :=
  new = old ∧ added = [] ∨ added = new.toList ∧ ∀ r ∈ new, r.label = use

theorem loadPhdrOwned_adds (h : loadPhdrOwned mem a f = .ok (a', f')) :
    ∃ ptr added, Refilled .phdr a.p.phdr ptr added ∧ a'.p = { a.p with phdr := ptr } ∧
      a'.g.held = added ++ a.g.held ∧ (Sound a.g → Sound a'.g) := by
  unfold loadPhdrOwned at h
  split at h
  · cases h
    exact ⟨_, [], Or.inl ⟨rfl, rfl⟩, rfl, rfl, id⟩
  · cases htable : loadTable mem f a.e.ehdr.phoff a.e.ehdr.phentsize a.e.ehdr.phnum with
    | error e =>
        rw [htable] at h
        cases h
    | ok r =>
        rw [htable] at h
        cases h
        have hgrants := granted_grants Use.phdr r.1.isSome a.g
        exact ⟨_, _, Or.inr ⟨rfl, hgrants.label⟩, rfl, hgrants.held, hgrants.sound⟩

theorem loadShdrOwned_adds (h : loadShdrOwned mem a f = .ok (a', f')) :
    ∃ ptr added, Refilled .shdr a.p.shdr ptr added ∧ a'.p = { a.p with shdr := ptr } ∧
      a'.g.held = added ++ a.g.held ∧ (Sound a.g → Sound a'.g) := by
  unfold loadShdrOwned at h
  split at h
  · cases h
    exact ⟨_, [], Or.inl ⟨rfl, rfl⟩, rfl, rfl, id⟩
  · cases htable : loadTable mem f a.e.ehdr.shoff a.e.ehdr.shentsize a.e.ehdr.shnum with
    | error e =>
        rw [htable] at h
        cases h
    | ok r =>
        rw [htable] at h
        cases h
        have hgrants := granted_grants Use.shdr r.1.isSome a.g
        exact ⟨_, _, Or.inr ⟨rfl, hgrants.label⟩, rfl, hgrants.held, hgrants.sound⟩

/-- String tables, each with its own resources, that are on top of some books. -/
structure Tabled (g : Books Use) (t : Tabs) : Prop where
  held : t.g.held = tabRes t.ptrs ++ g.held
  labels : ∀ r ∈ tabRes t.ptrs, r.label = .node ∨ r.label = .data
  nodes : ∀ ptr ∈ t.ptrs, ptr.1.label = .node
  length : t.ptrs.length = t.strtab.length
  sound : Sound g → Sound t.g

theorem loadStrtabStepOwned_adds {g : Books Use} {acc acc' : Tabs} {i : Nat} (hacc : Tabled g acc)
    (h : loadStrtabStepOwned mem shdr acc i = .ok acc') : Tabled g acc' := by
  unfold loadStrtabStepOwned at h
  cases hty : shField shdr i 4 4 with
  | error e =>
      rw [hty] at h
      cases h
  | ok ty =>
      simp only [hty, bind, Except.bind] at h
      split at h
      · cases h
        exact hacc
      · cases hsize : shField shdr i 32 8 with
        | error e =>
            rw [hsize] at h
            cases h
        | ok size =>
            cases hoff : shField shdr i 24 8 with
            | error e =>
                rw [hsize, hoff] at h
                cases h
            | ok off =>
                cases hread : fread mem (acc.f.seek off) (callocBytes mem size) size with
                | error e =>
                    simp only [hsize, hoff, hread] at h
                    cases h
                | ok r =>
                    simp only [hsize, hoff, hread] at h
                    cases h
                    have hgrants := granted_grants Use.data r.1.isSome (acquire Use.node acc.g).2
                    refine ⟨?_, ?_, ?_, ?_, ?_⟩
                    · rw [hgrants.held, tabRes, List.flatMap_cons, List.append_assoc, List.append_assoc]
                      exact congrArg _ (congrArg _ hacc.held)
                    · intro x hx
                      rw [tabRes, List.flatMap_cons, List.mem_append, List.mem_append, List.mem_singleton] at hx
                      rcases hx with (hx | rfl) | hx
                      · exact Or.inr (hgrants.label x (Option.mem_toList.mp hx))
                      · exact Or.inl rfl
                      · exact hacc.labels x hx
                    · intro ptr hptr
                      rcases List.mem_cons.mp hptr with rfl | hptr
                      · rfl
                      · exact hacc.nodes ptr hptr
                    · simp only [List.length_cons, hacc.length]
                    · exact fun hg => hgrants.sound ((hacc.sound hg).acquire Use.node)

theorem foldlM_adds {g : Books Use} {is : List Nat} {acc acc' : Tabs} (hacc : Tabled g acc)
    (h : is.foldlM (loadStrtabStepOwned mem shdr) acc = .ok acc') : Tabled g acc' := by
  induction is generalizing acc with
  | nil =>
      cases h
      exact hacc
  | cons i is ih =>
      rw [List.foldlM_cons] at h
      cases hstep : loadStrtabStepOwned mem shdr acc i with
      | error e =>
          rw [hstep] at h
          cases h
      | ok t =>
          rw [hstep] at h
          exact ih (loadStrtabStepOwned_adds hacc hstep) h

/-- The list of string tables is made anew. -/
theorem loadStrtabOwned_adds (h : loadStrtabOwned mem a f = .ok (a', f')) :
    ∃ t, Tabled a.g t ∧ a'.p = { a.p with strtab := t.ptrs } ∧ a'.e.strtab = t.strtab ∧ a'.g = t.g := by
  unfold loadStrtabOwned at h
  cases hshdr : a.e.shdr with
  | none =>
      rw [hshdr] at h
      cases h
      exact ⟨⟨[], [], f, a.g⟩, ⟨rfl, by simp [tabRes], by simp, rfl, id⟩, rfl, rfl, rfl⟩
  | some shdr =>
      simp only [hshdr, bind, Except.bind] at h
      cases hloop : (List.range a.e.shCnt).foldlM (loadStrtabStepOwned mem shdr) ⟨[], [], f, a.g⟩ with
      | error e =>
          rw [hloop] at h
          cases h
      | ok t =>
          rw [hloop] at h
          cases h
          have hstart : Tabled a.g ⟨[], [], f, a.g⟩ := ⟨rfl, by simp [tabRes], by simp, rfl, id⟩
          exact ⟨t, foldlM_adds hstart hloop, rfl, rfl, rfl⟩

/-- The parts of a load. -/
theorem elfLoadOwned_cases (h : elfLoadOwned mem a = .ok a') :
    a' = a ∨ ∃ f a₁ f₁ a₂ f₂ a₃ f₃, loadPhdrOwned mem a f = .ok (a₁, f₁) ∧
      loadShdrOwned mem a₁ f₁ = .ok (a₂, f₂) ∧ loadStrtabOwned mem a₂ f₂ = .ok (a₃, f₃) ∧
      a' = { a₃ with e := { a₃.e with file := some f₃ } } := by
  unfold elfLoadOwned at h
  cases hfile : a.e.file with
  | none =>
      rw [hfile] at h
      exact Or.inl (Except.ok.inj h).symm
  | some f =>
      simp only [hfile, bind, Except.bind] at h
      cases hphdr : loadPhdrOwned mem a f with
      | error e =>
          rw [hphdr] at h
          cases h
      | ok r₁ =>
          simp only [hphdr] at h
          cases hshdr : loadShdrOwned mem r₁.1 r₁.2 with
          | error e =>
              rw [hshdr] at h
              cases h
          | ok r₂ =>
              simp only [hshdr] at h
              cases hstrtab : loadStrtabOwned mem r₂.1 r₂.2 with
              | error e =>
                  rw [hstrtab] at h
                  cases h
              | ok r₃ =>
                  simp only [hstrtab] at h
                  exact Or.inr ⟨f, _, _, _, _, _, _, hphdr, hshdr, hstrtab, (Except.ok.inj h).symm⟩

/-! ## Any number of loads -/

/-- **The states of the handle between loads**, with the number of files that have been opened. -/
inductive Loads (mem : Memory) : Nat → Accounted → Prop
  | init : Loads mem 0 Accounted.init
  | load {n : Nat} {a a' : Accounted} {e : Handle} {image : Image} : Loads mem n a →
      elfOpen a.e image = some e → elfLoadOwned mem { opening a with e := e } = .ok a' → Loads mem (n + 1) a'

/-- The states in which `elf_close` is called: between loads, or when a file has turned out to be no ELF file. -/
inductive Closing (mem : Memory) : Nat → Accounted → Prop
  | between {n : Nat} {a : Accounted} : Loads mem n a → Closing mem n a
  | refused {n : Nat} {a : Accounted} {image : Image} : Loads mem n a → elfOpen a.e image = none →
      Closing mem (n + 1) (opening a)

theorem Pointers.mem_direct {p : Pointers} {r : Res} : r ∈ p.direct ↔
    p.ehdr = some r ∨ p.phdr = some r ∨ p.shdr = some r ∨ p.file = some r ∨ r = p.self := by
  simp [Pointers.direct]

/-- The streams among some resources. -/
def streams (rs : List Res) : List Res := rs.filter fun r => r.label = .stream

theorem streams_append (rs rs' : List Res) : streams (rs ++ rs') = streams rs ++ streams rs' := List.filter_append ..

theorem streams_nil {rs : List Res} (h : ∀ r ∈ rs, r.label ≠ .stream) : streams rs = [] := by
  apply List.filter_eq_nil_iff.mpr
  intro r hr
  simp [h r hr]

/-- The pointers of the handle have the labels of their fields. -/
structure Labelled (p : Pointers) : Prop where
  self : p.self.label = .handle
  file : ∀ r ∈ p.file, r.label = .stream
  ehdr : ∀ r ∈ p.ehdr, r.label = .ehdr
  phdr : ∀ r ∈ p.phdr, r.label = .phdr
  shdr : ∀ r ∈ p.shdr, r.label = .shdr
  nodes : ∀ ptr ∈ p.strtab, ptr.1.label = .node

/-- Nothing has been read from a file yet. -/
structure Blank (p : Pointers) : Prop where
  phdr : p.phdr = none
  shdr : p.shdr = none
  strtab : p.strtab = []

/-- **The handle after `n` files**: what it points to is held, every stream is still held, and after one file or none
    nothing else is held than what it points to. -/
structure Owns (n : Nat) (a : Accounted) : Prop where
  sound : Sound a.g
  labelled : Labelled a.p
  direct : ∀ r ∈ a.p.direct, r ∈ a.g.held
  tabs : ∀ r ∈ tabRes a.p.strtab, r ∈ a.g.held
  streams : (streams a.g.held).length = n
  few : n ≤ 1 → ∀ r ∈ a.g.held, r ∈ a.p.direct ∨ r ∈ tabRes a.p.strtab
  first : n = 0 → a.p.file = none ∧ a.p.ehdr = none ∧ Blank a.p

theorem owns_init : Owns 0 Accounted.init where
  sound := sound_empty.acquire Use.handle
  labelled := ⟨rfl, by simp [Accounted.init], by simp [Accounted.init], by simp [Accounted.init],
    by simp [Accounted.init], by simp [Accounted.init]⟩
  direct := by simp [Pointers.direct, Accounted.init, acquire]
  tabs := by simp [tabRes, Accounted.init]
  streams := rfl
  few := by simp [Pointers.direct, Accounted.init, acquire, Books.empty]
  first := fun _ => ⟨rfl, rfl, rfl, rfl, rfl⟩

theorem opening_held (a : Accounted) : ∃ file ehdr : Res, file.label = .stream ∧ ehdr.label = .ehdr ∧
    (opening a).p = { a.p with file := some file, ehdr := some ehdr } ∧
    (opening a).g.held = ehdr :: file :: a.g.held := ⟨_, _, rfl, rfl, rfl, rfl⟩

theorem Owns.opening {n : Nat} (h : Owns n a) : Owns (n + 1) (opening a) := by
  obtain ⟨file, ehdr, hfile, hehdr, hp, hheld⟩ := opening_held a
  have hstreams : Elf.streams (ehdr :: file :: a.g.held) = file :: Elf.streams a.g.held := by
    simp [Elf.streams, hfile, hehdr]
  refine ⟨(h.sound.acquire _).acquire _, ?_, ?_, ?_, ?_, ?_, fun hn => absurd hn (Nat.succ_ne_zero n)⟩
  · rw [hp]
    refine { h.labelled with file := ?_, ehdr := ?_ }
    · simp [hfile]
    · simp [hehdr]
  · intro r hr
    have hold := h.direct r
    rw [Pointers.mem_direct, hp] at hr
    rw [Pointers.mem_direct] at hold
    rw [hheld]
    simp only [List.mem_cons, Option.some.injEq] at hr ⊢
    grind
  · intro r hr
    rw [hp] at hr
    rw [hheld]
    exact List.mem_cons_of_mem _ (List.mem_cons_of_mem _ (h.tabs r hr))
  · rw [hheld, hstreams, List.length_cons, h.streams]
  · -- the first file finds a blank handle, so what is held is in it or new
    intro hn r hr
    obtain ⟨hnofile, hnoehdr, hblank⟩ := h.first (by omega)
    have hold := h.few (by omega) r
    rw [hheld] at hr
    rw [Pointers.mem_direct, hblank.phdr, hblank.shdr, hnofile, hnoehdr, hblank.strtab] at hold
    rw [Pointers.mem_direct, hp]
    simp only [List.mem_cons, Option.some.injEq] at hr ⊢
    simp only [reduceCtorEq, tabRes, List.flatMap_nil, List.not_mem_nil, false_or, or_false] at hold
    grind

theorem Refilled.unstreamed {use : Use} {old new : Option Res} {added : List Res} (h : Refilled use old new added)
    (huse : use ≠ .stream) : Elf.streams added = [] := by
  apply streams_nil
  intro r hr
  rcases h with ⟨-, rfl⟩ | ⟨rfl, hlabel⟩
  · cases hr
  · rw [hlabel r (Option.mem_toList.mp hr)]
    exact huse

theorem Refilled.labels {use : Use} {old new : Option Res} {added : List Res} (h : Refilled use old new added)
    (hold : ∀ r ∈ old, r.label = use) : ∀ r ∈ new, r.label = use := by
  rcases h with ⟨rfl, -⟩ | ⟨-, hlabel⟩
  · exact hold
  · exact hlabel

/-- What is new in the field is new in the books. -/
theorem Refilled.new_mem {use : Use} {old new : Option Res} {added : List Res} (h : Refilled use old new added)
    {r : Res} (hr : new = some r) : old = some r ∨ r ∈ added := by
  rcases h with ⟨rfl, -⟩ | ⟨rfl, -⟩
  · exact Or.inl hr
  · exact Or.inr (Option.mem_toList.mpr hr)

/-- What is new in the books is in the field. -/
theorem Refilled.added_mem {use : Use} {old new : Option Res} {added : List Res} (h : Refilled use old new added)
    {r : Res} (hr : r ∈ added) : new = some r := by
  rcases h with ⟨-, rfl⟩ | ⟨rfl, -⟩
  · cases hr
  · exact Option.mem_toList.mp hr

section Fields

variable {n : Nat} (h : Owns n a) (hn : n ≠ 0)

include h hn

/-- **A field has been refilled**; `rest` is what the other fields point to. -/
theorem Owns.refilled (rest : Res → Prop) {use : Use} {old new : Option Res} {added : List Res}
    (hfill : Refilled use old new added) (huse : use ≠ .stream) (hblank : n ≤ 1 → old = none)
    (hdirect : ∀ r, r ∈ a.p.direct ↔ old = some r ∨ rest r) (hdirect' : ∀ r, r ∈ a'.p.direct ↔ new = some r ∨ rest r)
    (hstrtab : a'.p.strtab = a.p.strtab) (hlabelled : Labelled a'.p) (hheld : a'.g.held = added ++ a.g.held)
    (hsound : Sound a'.g) : Owns n a' := by
  refine ⟨hsound, hlabelled, ?_, ?_, ?_, ?_, fun h0 => absurd h0 hn⟩
  · -- what the field pointed to before is still held, though nothing may point to it now
    intro r hr
    rw [hheld, List.mem_append]
    rcases (hdirect' r).mp hr with hr | hr
    · rcases hfill.new_mem hr with hr | hr
      · exact Or.inr (h.direct r ((hdirect r).mpr (Or.inl hr)))
      · exact Or.inl hr
    · exact Or.inr (h.direct r ((hdirect r).mpr (Or.inr hr)))
  · intro r hr
    rw [hstrtab] at hr
    rw [hheld]
    exact List.mem_append_right _ (h.tabs r hr)
  · rw [hheld, streams_append, hfill.unstreamed huse, List.nil_append, h.streams]
  · intro hle r hr
    rw [hdirect', hstrtab]
    rw [hheld] at hr
    rcases List.mem_append.mp hr with hr | hr
    · exact Or.inl (Or.inl (hfill.added_mem hr))
    · rcases h.few hle r hr with hr | hr
      · rcases (hdirect r).mp hr with hr | hr
        · rw [hblank hle] at hr
          cases hr
        · exact Or.inl (Or.inr hr)
      · exact Or.inr hr

theorem Owns.loadPhdr (hblank : n ≤ 1 → a.p.phdr = none) (hload : loadPhdrOwned mem a f = .ok (a', f')) :
    Owns n a' := by
  obtain ⟨ptr, added, hfill, hp, hheld, hsound⟩ := loadPhdrOwned_adds hload
  refine h.refilled hn (fun r => a.p.ehdr = some r ∨ a.p.shdr = some r ∨ a.p.file = some r ∨ r = a.p.self)
    hfill (by decide) hblank ?_ ?_ ?_ ?_ hheld (hsound h.sound)
  · intro r
    rw [Pointers.mem_direct, or_left_comm]
  · intro r
    rw [Pointers.mem_direct, hp, or_left_comm]
  · rw [hp]
  · rw [hp]
    exact { h.labelled with phdr := hfill.labels h.labelled.phdr }

theorem Owns.loadShdr (hblank : n ≤ 1 → a.p.shdr = none) (hload : loadShdrOwned mem a f = .ok (a', f')) :
    Owns n a' := by
  obtain ⟨ptr, added, hfill, hp, hheld, hsound⟩ := loadShdrOwned_adds hload
  refine h.refilled hn (fun r => a.p.ehdr = some r ∨ a.p.phdr = some r ∨ a.p.file = some r ∨ r = a.p.self)
    hfill (by decide) hblank ?_ ?_ ?_ ?_ hheld (hsound h.sound)
  · intro r
    rw [Pointers.mem_direct]
    tauto
  · intro r
    rw [Pointers.mem_direct, hp]
    tauto
  · rw [hp]
  · rw [hp]
    exact { h.labelled with shdr := hfill.labels h.labelled.shdr }

theorem Owns.loadStrtab (hblank : n ≤ 1 → a.p.strtab = []) (hload : loadStrtabOwned mem a f = .ok (a', f')) :
    Owns n a' := by
  obtain ⟨t, ht, hp, -, hg⟩ := loadStrtabOwned_adds hload
  have hheld : a'.g.held = tabRes t.ptrs ++ a.g.held := by rw [hg, ht.held]
  have hno : Elf.streams (tabRes t.ptrs) = [] := by
    apply streams_nil
    intro r hr
    rcases ht.labels r hr with hlabel | hlabel
    · simp [hlabel]
    · simp [hlabel]
  refine ⟨hg ▸ ht.sound h.sound, ?_, ?_, ?_, ?_, ?_, fun h0 => absurd h0 hn⟩
  · rw [hp]
    exact { h.labelled with nodes := ht.nodes }
  · intro r hr
    rw [hp] at hr
    rw [hheld]
    exact List.mem_append_right _ (h.direct r hr)
  · intro r hr
    rw [hp] at hr
    rw [hheld]
    exact List.mem_append_left _ hr
  · rw [hheld, streams_append, hno, List.nil_append, h.streams]
  · intro hle r hr
    have hold := h.few hle r
    rw [hblank hle] at hold
    rw [hheld] at hr
    rw [hp]
    rcases List.mem_append.mp hr with hr | hr
    · exact Or.inr hr
    · rcases hold hr with hr | hr
      · exact Or.inl hr
      · cases hr

/-- **A file has been read** into a handle that nothing has been read into before, or by itself. -/
theorem Owns.elfLoad (hblank : n ≤ 1 → Blank a.p) (hload : elfLoadOwned mem a = .ok a') : Owns n a' := by
  rcases elfLoadOwned_cases hload with rfl | ⟨f, a₁, f₁, a₂, f₂, a₃, f₃, hphdr, hshdr, hstrtab, rfl⟩
  · exact h
  · obtain ⟨_, _, -, hp₁, -, -⟩ := loadPhdrOwned_adds hphdr
    obtain ⟨_, _, -, hp₂, -, -⟩ := loadShdrOwned_adds hshdr
    have h₁ := h.loadPhdr hn (fun hle => (hblank hle).phdr) hphdr
    have h₂ := h₁.loadShdr hn (fun hle => by rw [hp₁]; exact (hblank hle).shdr) hshdr
    have h₃ := h₂.loadStrtab hn (fun hle => by rw [hp₂, hp₁]; exact (hblank hle).strtab) hstrtab
    exact ⟨h₃.sound, h₃.labelled, h₃.direct, h₃.tabs, h₃.streams, h₃.few, h₃.first⟩

end Fields

theorem loads_owns {n : Nat} (h : Loads mem n a) : Owns n a := by
  induction h with
  | init => exact owns_init
  | @load n a a' e image _ _ hload ih =>
      obtain ⟨hsound, hlabelled, hdirect, htabs, hstreams, hfew, hfirst⟩ := ih.opening
      have hopened : Owns (n + 1) { opening a with e := e } :=
        ⟨hsound, hlabelled, hdirect, htabs, hstreams, hfew, hfirst⟩
      refine hopened.elfLoad (Nat.succ_ne_zero n) (fun hle => ?_) hload
      -- only the first file has to find the handle blank
      obtain ⟨-, -, hblank⟩ := ih.first (by omega)
      exact ⟨hblank.phdr, hblank.shdr, hblank.strtab⟩

theorem closing_owns {n : Nat} (h : Closing mem n a) : Owns n a := by
  cases h with
  | between h => exact loads_owns h
  | refused h _ => exact (loads_owns h).opening

/-- The list of string tables is the list of its pointers. -/
theorem elfLoadOwned_strtab (hload : elfLoadOwned mem a = .ok a') (hold : a.p.strtab.length = a.e.strtab.length) :
    a'.p.strtab.length = a'.e.strtab.length := by
  rcases elfLoadOwned_cases hload with rfl | ⟨f, a₁, f₁, a₂, f₂, a₃, f₃, -, -, hstrtab, rfl⟩
  · exact hold
  · obtain ⟨t, ht, hp, he, -⟩ := loadStrtabOwned_adds hstrtab
    change a₃.p.strtab.length = a₃.e.strtab.length
    rw [hp, he]
    exact ht.length

/-- The tables have been read when the search for `.text` begins. -/
theorem load_elfLoad {e e' : Handle} {text : Option Shdr} (h : load mem e = .ok (e', text)) :
    elfLoad mem e = .ok e' := by
  unfold load at h
  cases hload : elfLoad mem e with
  | error x =>
      rw [hload] at h
      cases h
  | ok e₁ =>
      simp only [hload, bind, Except.bind] at h
      cases htext : searchText e₁ with
      | error x =>
          rw [htext] at h
          cases h
      | ok t =>
          rw [htext] at h
          cases h
          rfl

theorem elfOpen_strtab {e e' : Handle} {image : Image} (h : elfOpen e image = some e') : e'.strtab = e.strtab := by
  unfold elfOpen at h
  split at h
  · cases h
    rfl
  · cases h

theorem loads_strtab {n : Nat} (h : Loads mem n a) : a.p.strtab.length = a.e.strtab.length := by
  induction h with
  | init => rfl
  | @load n a a' e image _ hopen hload ih =>
      refine elfLoadOwned_strtab hload ?_
      change a.p.strtab.length = e.strtab.length
      rw [elfOpen_strtab hopen]
      exact ih

theorem closing_strtab {n : Nat} (h : Closing mem n a) : a.p.strtab.length = a.e.strtab.length := by
  cases h with
  | between h => exact loads_strtab h
  | @refused n a image h _ => exact (loads_strtab h : a.p.strtab.length = a.e.strtab.length)

/-! ## `elf_close` -/

theorem unlessNull_free {o : Option Res} (h : ∀ r ∈ o, r.label ≠ .stream) (g : Books Use) :
    unlessNull free o g = releaseAll o.toList g := by
  cases o with
  | none => rfl
  | some r =>
      change free r g = (release r g).bind some
      rw [free, if_neg (h r rfl), Option.bind_fun_some]

theorem unlessNull_fclose {o : Option Res} (h : ∀ r ∈ o, r.label = .stream) (g : Books Use) :
    unlessNull fclose o g = releaseAll o.toList g := by
  cases o with
  | none => rfl
  | some r =>
      change fclose r g = (release r g).bind some
      rw [fclose, if_pos (h r rfl), Option.bind_fun_some]

/-- **`elf_close` gives back what the handle points to**, each with the function that is for it. -/
theorem elfClose_eq {p : Pointers} (h : Labelled p) (g : Books Use) : elfClose p g = releaseAll p.direct g := by
  have hehdr : ∀ r ∈ p.ehdr, r.label ≠ .stream := fun r hr => by simp [h.ehdr r hr]
  have hphdr : ∀ r ∈ p.phdr, r.label ≠ .stream := fun r hr => by simp [h.phdr r hr]
  have hshdr : ∀ r ∈ p.shdr, r.label ≠ .stream := fun r hr => by simp [h.shdr r hr]
  have hself : ∀ g, free p.self g = releaseAll [p.self] g := fun g =>
    unlessNull_free (o := some p.self) (by simp [h.self]) g
  unfold elfClose Pointers.direct
  simp only [releaseAll_append, unlessNull_free hehdr, unlessNull_free hphdr, unlessNull_free hshdr,
    unlessNull_fclose h.file, hself]
  rfl

theorem labels_sublist {o : Option Res} {use : Use} (h : ∀ r ∈ o, r.label = use) :
    List.Sublist (o.toList.map Resource.label) [use] := by
  cases o with
  | none => exact List.nil_sublist _
  | some r =>
      change List.Sublist [r.label] [use]
      rw [h r rfl]

/-- The fields hold different resources, since they hold different kinds. -/
theorem Labelled.direct_nodup {p : Pointers} (h : Labelled p) : p.direct.Nodup := by
  have hself : List.Sublist ([p.self].map Resource.label) [.handle] :=
    labels_sublist (o := some p.self) (by simp [h.self])
  have hlabels : List.Sublist (p.direct.map Resource.label) [.ehdr, .phdr, .shdr, .stream, .handle] := by
    unfold Pointers.direct
    simp only [List.map_append]
    exact (labels_sublist h.ehdr).append ((labels_sublist h.phdr).append
      ((labels_sublist h.shdr).append ((labels_sublist h.file).append hself)))
  exact List.Nodup.of_map _ (hlabels.nodup (by decide))

/-- A string table is not a field. -/
theorem Labelled.node_not_direct {p : Pointers} (h : Labelled p) {r : Res} (hr : r.label = .node) : r ∉ p.direct := by
  rw [Pointers.mem_direct]
  rintro (hmem | hmem | hmem | hmem | rfl)
  · simp [h.ehdr r hmem] at hr
  · simp [h.phdr r hmem] at hr
  · simp [h.shdr r hmem] at hr
  · simp [h.file r hmem] at hr
  · simp [h.self] at hr

/-- **Giving back**: however many files have been loaded, `elf_close` gives back what the handle points to, nothing
    twice, and nothing is left exactly when one file at most has been opened and no string table has been read. -/
theorem close_gives {n : Nat} (h : Closing mem n a) :
    ∃ g, elfClose a.p a.g = some g ∧ (∀ r, r ∈ g.held ↔ r ∈ a.g.held ∧ r ∉ a.p.direct) ∧
      (g.held = [] ↔ n ≤ 1 ∧ a.e.strtab = []) := by
  have howns := closing_owns h
  have hlength := closing_strtab h
  obtain ⟨g, hg, hheld⟩ := releaseAll_held howns.sound.nodup howns.labelled.direct_nodup howns.direct
  refine ⟨g, (elfClose_eq howns.labelled a.g).trans hg, hheld, ?_⟩
  constructor
  · intro hnil
    have hall : ∀ r ∈ a.g.held, r ∈ a.p.direct := by
      intro r hr
      by_contra hnot
      have hmem := (hheld r).mpr ⟨hr, hnot⟩
      rw [hnil] at hmem
      cases hmem
    constructor
    · -- all streams are the one in the handle
      have hfile : ∀ r ∈ streams a.g.held, r ∈ a.p.file.toList := by
        intro r hr
        obtain ⟨hmem, hstream⟩ := List.mem_filter.mp hr
        have hlabel : r.label = .stream := of_decide_eq_true hstream
        rcases Pointers.mem_direct.mp (hall r hmem) with hmem | hmem | hmem | hmem | rfl
        · simp [howns.labelled.ehdr r hmem] at hlabel
        · simp [howns.labelled.phdr r hmem] at hlabel
        · simp [howns.labelled.shdr r hmem] at hlabel
        · exact Option.mem_toList.mpr hmem
        · simp [howns.labelled.self] at hlabel
      have hle := ((howns.sound.nodup.filter _).subperm hfile).length_le
      have hone : a.p.file.toList.length ≤ 1 := by cases a.p.file <;> simp
      have hcount := howns.streams
      unfold streams at hcount
      omega
    · -- a string table is held by its node, which is no field of the handle
      by_contra hne
      have hptrs : a.p.strtab ≠ [] := fun hnil => hne (List.length_eq_zero_iff.mp (by rw [← hlength, hnil]; rfl))
      obtain ⟨t, ts, heq⟩ := List.exists_cons_of_ne_nil hptrs
      have hnode : t.1 ∈ tabRes a.p.strtab := by simp [tabRes, heq]
      have hlabel := howns.labelled.nodes t (by simp [heq])
      exact howns.labelled.node_not_direct hlabel (hall _ (howns.tabs _ hnode))
  · -- after one file at most, what is held is a field's or a string table's
    rintro ⟨hle, hnil⟩
    have hptrs : a.p.strtab = [] := List.length_eq_zero_iff.mp (by rw [hlength, hnil]; rfl)
    apply List.eq_nil_iff_forall_not_mem.mpr
    intro r hr
    obtain ⟨hmem, hnot⟩ := (hheld r).mp hr
    rcases howns.few hle r hmem with hdirect | htab
    · exact hnot hdirect
    · rw [hptrs] at htab
      cases htab

end AdvUnix.Elf
