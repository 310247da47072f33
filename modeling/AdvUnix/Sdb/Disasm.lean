import AdvUnix.Sdb.Dump
import AdvUnix.Sdb.Loading

/-!
# `Sdb.Disasm` — the bytes that `disasm` hands to the decoder

Each instruction is decoded from a window of 256 bytes in the buffer that holds the file, at the file offset
of its address. The loop looks at the end of `.text` only, so a window may begin before the buffer or end
behind it: `disasm_inside_iff` says for which addresses and counts none does.
-/

namespace AdvUnix.Sdb

open ByteStore Elf

variable {ω : Type} {H : Host ω} {s : Debugger ω} {code : List Byte} {text : Shdr}

/-! ## Windows -/

theorem toNat_add_ofNat {a : Addr} {k : Nat} (h : a.toNat + k < 2 ^ 64) :
    (a + BitVec.ofNat 64 k).toNat = a.toNat + k := by
  rw [BitVec.toNat_add, BitVec.toNat_ofNat, Nat.mod_eq_of_lt (by omega : k < 2 ^ 64), Nat.mod_eq_of_lt h]

/-- `text.sh_offset + addr - text.sh_addr`. -/
def offsetAt (text : Shdr) (a : Addr) : BitVec 64 :=
  BitVec.ofNat 64 text.shOffset + a - BitVec.ofNat 64 text.shAddr

/-- The window that the instruction at an address is decoded from. -/
def windowAt (code : List Byte) (text : Shdr) (a : Addr) : List (Option Byte) :=
  window code (offsetAt text a).toInt

theorem offsetAt_add (text : Shdr) (a d : Addr) : offsetAt text (a + d) = offsetAt text a + d := by
  unfold offsetAt
  rw [← BitVec.add_assoc, BitVec.sub_eq_add_neg, BitVec.sub_eq_add_neg, BitVec.add_assoc, BitVec.add_comm d,
    BitVec.add_assoc, BitVec.add_assoc, BitVec.add_assoc]

theorem window_eq (code : List Byte) (offset : Int) : window code offset =
    (List.range 256).map fun k : Nat => if 0 ≤ offset + k then code[(offset + k).toNat]? else none := by
  unfold window
  simp only [List.bind_eq_flatMap, List.pure_def, ← List.map_eq_flatMap, List.map_map]
  rfl

/-- The byte at position `k` of a window. -/
theorem window_getElem {offset : Int} {k : Nat} (hk : k < 256) :
    (window code offset)[k]? = some (if 0 ≤ offset + k then code[(offset + k).toNat]? else none) := by
  rw [window_eq, List.getElem?_map, List.getElem?_range hk]
  rfl

/-- **A window is inside the buffer** when all its bytes are. -/
theorem window_inside_iff {offset : Int} :
    (∀ b ∈ window code offset, b.isSome) ↔ 0 ≤ offset ∧ offset.toNat + 256 ≤ code.length := by
  constructor
  · intro hall
    have hat : ∀ k : Nat, k < 256 → 0 ≤ offset + k ∧ (offset + k).toNat < code.length := by
      intro k hk
      have hsome := hall _ (List.mem_of_getElem? (window_getElem hk))
      split at hsome
      · rename_i hpos
        exact ⟨hpos, by simpa using hsome⟩
      · cases hsome
    have hfirst := hat 0 (by omega)
    have hlast := hat 255 (by omega)
    omega
  · rintro ⟨hpos, hend⟩ b hb
    rw [window_eq] at hb
    obtain ⟨k, hk, rfl⟩ := List.mem_map.mp hb
    have hk' : k < 256 := List.mem_range.mp hk
    rw [if_pos (by omega), List.getElem?_eq_getElem (by omega)]
    rfl

theorem windowAt_inside_iff (hlen : code.length ≤ 2 ^ 63) {a : Addr} :
    (∀ b ∈ windowAt code text a, b.isSome) ↔ (offsetAt text a).toNat + 256 ≤ code.length := by
  have hlt := (offsetAt text a).isLt
  unfold windowAt
  rw [window_inside_iff, BitVec.toInt_eq_toNat_cond]
  split <;> omega

/-! ## What is decoded -/

/-- What `disassemble` comes to, for a window that can be read. -/
theorem disassemble_eq_ok {a : Addr} {i : Insn} (h : disassemble H code (offsetAt text a).toInt a = .ok i) :
    H.csDisasm (windowAt code text a) a = some i := by
  unfold disassemble at h
  unfold windowAt
  split at h
  · split at h
    · cases h
    · rename_i j hj
      cases h
      exact hj
  · cases h

/-- Behind the end of `.text` the loop prints nothing more. -/
theorem disasmLoop_end {n : Nat} {a : Addr} (hend : textEnd text ≤ a) (acc : List Out) :
    disasmLoop H code text (n + 1) a acc = .ok acc := by
  rw [disasmLoop, if_pos hend]

/-- One round of the loop. -/
theorem disasmLoop_next {n : Nat} {a : Addr} (hin : ¬ textEnd text ≤ a) (acc : List Out) :
    disasmLoop H code text (n + 1) a acc = (disassemble H code (offsetAt text a).toInt a).bind fun i =>
      disasmLoop H code text n (a + BitVec.ofNat 64 i.bytes.length) (acc ++ [.insn a i]) := by
  rw [disasmLoop, if_neg hin, offsetAt]
  simp only
  cases disassemble H code (BitVec.ofNat 64 text.shOffset + a - BitVec.ofNat 64 text.shAddr).toInt a <;> rfl

/-- The addresses at which the loop of `disasm` decodes, the last one perhaps in vain. -/
def visits (H : Host ω) (code : List Byte) (text : Shdr) : Nat → Addr → List Addr
  | 0, _ => []
  | n + 1, a =>
      if textEnd text ≤ a then []
      else match disassemble H code (offsetAt text a).toInt a with
        | .error _ => [a]
        | .ok i => a :: visits H code text n (a + BitVec.ofNat 64 i.bytes.length)

/-- The line for one instruction. -/
def decodeAt (H : Host ω) (code : List Byte) (text : Shdr) (a : Addr) : Except Halt Out :=
  (disassemble H code (offsetAt text a).toInt a).map (.insn a)

/-- **The loop decodes at these addresses**, one after the other, and nowhere else. -/
theorem disasmLoop_visits (H : Host ω) (code : List Byte) (text : Shdr) (n : Nat) (a : Addr) :
    disasmLoop H code text n a [] = (visits H code text n a).mapM (decodeAt H code text) := by
  induction n generalizing a with
  | zero => rfl
  | succ n ih =>
      rw [visits]
      by_cases hend : textEnd text ≤ a
      · rw [disasmLoop_end hend, if_pos hend]
        rfl
      · rw [disasmLoop_next hend, if_neg hend]
        cases hd : disassemble H code (offsetAt text a).toInt a with
        | error e =>
            simp only [List.mapM_cons, decodeAt, hd]
            rfl
        | ok i =>
            simp only [List.mapM_cons, decodeAt, hd]
            rw [Except.bind, disasmLoop_acc, ih]
            simp only [Except.map]
            cases (visits H code text n (a + BitVec.ofNat 64 i.bytes.length)).mapM
              (decodeAt H code text) <;> rfl

/-- **What `disasm` does**: it decodes at these addresses in the bytes it has. -/
theorem disasm_decodes (hrun : s.state = .running) {sAddr : String} (hstr : sAddr ≠ "QQ") (count : Nat) :
    disasm H s sAddr count = (codeOf H s.program s.code).bind fun code =>
      ((visits H code s.text count (addrOf sAddr)).mapM (decodeAt H code s.text)).map fun lines =>
        { s with code := some code, out := s.out ++ lines } := by
  rw [disasm_running hrun hstr]
  unfold listing
  cases codeOf H s.program s.code with
  | error e => rfl
  | ok code =>
      simp only [Except.bind, disasmLoop_visits]
      cases (visits H code s.text count (addrOf sAddr)).mapM (decodeAt H code s.text) <;> rfl

/-- **The windows that `disasm` hands to the decoder.** -/
def handed (H : Host ω) (s : Debugger ω) (sAddr : String) (count : Nat) : List (List (Option Byte)) :=
  if s.state = .running ∧ sAddr ≠ "QQ" then
    match codeOf H s.program s.code with
    | .error _ => []
    | .ok code => (visits H code s.text count (addrOf sAddr)).map (windowAt code s.text)
  else []

/-- **`disasm` stays inside the buffer.** -/
def StaysInside (H : Host ω) (s : Debugger ω) (sAddr : String) (count : Nat) : Prop :=
  ∀ w ∈ handed H s sAddr count, ∀ b ∈ w, b.isSome

/-! ## How far the loop comes -/

/-- An instruction of x86 has one to fifteen bytes. -/
def X86Lengths (decoder : List (Option Byte) → Addr → Option Insn) : Prop :=
  ∀ w a i, decoder w a = some i → 1 ≤ i.bytes.length ∧ i.bytes.length ≤ 15

/-- The bytes of the instructions before the last address at which the loop decodes. -/
def swept (H : Host ω) (code : List Byte) (text : Shdr) : Nat → Addr → Nat
  | 0, _ => 0
  | n + 1, a =>
      match disassemble H code (offsetAt text a).toInt a with
      | .error _ => 0
      | .ok i =>
          let next := a + BitVec.ofNat 64 i.bytes.length
          if textEnd text ≤ next then 0 else i.bytes.length + swept H code text n next

theorem offsetAt_toNat {a : Addr} {k : Nat} (h : (offsetAt text a).toNat + k < 2 ^ 64) :
    (offsetAt text (a + BitVec.ofNat 64 k)).toNat = (offsetAt text a).toNat + k := by
  rw [offsetAt_add, toNat_add_ofNat h]

/-- **The last window ends furthest**: `n + 1` of them, from an address in `.text` on, are inside the buffer
    when it is. -/
theorem visits_inside_iff (hdec : X86Lengths H.csDisasm) (hlen : code.length ≤ 2 ^ 63) (n : Nat) {a : Addr}
    (ha : a < textEnd text) :
    (∀ x ∈ visits H code text (n + 1) a, (offsetAt text x).toNat + 256 ≤ code.length) ↔
      (offsetAt text a).toNat + swept H code text n a + 256 ≤ code.length := by
  induction n generalizing a with
  | zero =>
      have hone : visits H code text 1 a = [a] := by
        rw [visits, if_neg (BitVec.not_le.mpr ha)]
        split <;> rfl
      rw [hone, List.forall_mem_singleton]
      exact Iff.rfl
  | succ n ih =>
      rw [visits, if_neg (BitVec.not_le.mpr ha), swept]
      cases hd : disassemble H code (offsetAt text a).toInt a with
      | error e => exact List.forall_mem_singleton
      | ok i =>
          obtain ⟨-, hfifteen⟩ := hdec _ _ _ (disassemble_eq_ok hd)
          simp only
          rw [List.forall_mem_cons]
          by_cases hend : textEnd text ≤ a + BitVec.ofNat 64 i.bytes.length
          · -- this was the last one
            rw [if_pos hend, visits, if_pos hend]
            exact and_iff_left fun x hx => absurd hx List.not_mem_nil
          · rw [if_neg hend, ih (BitVec.not_le.mp hend)]
            constructor
            · rintro ⟨hfirst, hrest⟩
              rw [offsetAt_toNat (by omega)] at hrest
              omega
            · intro h
              have hnext := @offsetAt_toNat text a i.bytes.length (by omega)
              exact ⟨by omega, by omega⟩

/-! ## Inside the buffer -/

/-- The buffer when nothing has been read before. -/
theorem codeOf_none_iff {path : String} {i : Inode} (hopen : H.openFile path = some i) :
    codeOf H path none = .ok code ↔
      (H.content i).bytes.length + 1 < 2 ^ 31 ∧ code = (H.content i).bytes ++ [0] := by
  simp only [codeOf, hopen]
  by_cases hsmall : (H.content i).bytes.length + 1 < 2 ^ 31
  · rw [if_pos hsmall, Except.ok.injEq]
    exact ⟨fun h => ⟨hsmall, h.symm⟩, fun h => h.2.symm⟩
  · rw [if_neg hsmall]
    exact iff_of_false (by simp) fun h => hsmall h.1

/-- The windows are inside when those at the visited addresses end in the buffer. -/
theorem staysInside_iff {image : Image} (hcode : codeOf H s.program s.code = .ok (image.bytes ++ [0]))
    (hrun : s.state = .running) {sAddr : String} (hstr : sAddr ≠ "QQ") (count : Nat) :
    StaysInside H s sAddr count ↔ ∀ x ∈ visits H (image.bytes ++ [0]) s.text count (addrOf sAddr),
      (offsetAt s.text x).toNat + 256 ≤ (image.bytes ++ [0]).length := by
  have hlen : (image.bytes ++ [0]).length ≤ 2 ^ 63 := by
    have hlt := image.length_lt
    rw [List.length_append, List.length_singleton]
    omega
  unfold StaysInside handed
  rw [if_pos ⟨hrun, hstr⟩, hcode, List.forall_mem_map]
  exact forall₂_congr fun x _ => windowAt_inside_iff hlen

/-- **When `disasm` stays inside the file.** Nothing is decoded, or the window at the last address at which it
    decodes, behind the instructions before it, is inside. -/
theorem disasm_inside_iff {image : Image} (hdec : X86Lengths H.csDisasm)
    (hcode : codeOf H s.program s.code = .ok (image.bytes ++ [0])) (sAddr : String) (count : Nat) :
    StaysInside H s sAddr count ↔ s.state ≠ .running ∨ sAddr = "QQ" ∨ count = 0 ∨
      textEnd s.text ≤ addrOf sAddr ∨
      (offsetAt s.text (addrOf sAddr)).toNat
          + swept H (image.bytes ++ [0]) s.text (count - 1) (addrOf sAddr) + 256
        ≤ image.bytes.length + 1 := by
  have hlength : (image.bytes ++ [0]).length = image.bytes.length + 1 := by
    rw [List.length_append, List.length_singleton]
  have hlt := image.length_lt
  by_cases hrun : s.state = .running
  · by_cases hstr : sAddr = "QQ"
    · refine iff_of_true ?_ (Or.inr (Or.inl hstr))
      intro w hw
      rw [handed, if_neg fun h => h.2 hstr] at hw
      cases hw
    · rw [staysInside_iff hcode hrun hstr]
      cases count with
      | zero => exact iff_of_true (fun x hx => absurd hx List.not_mem_nil) (Or.inr (Or.inr (Or.inl rfl)))
      | succ n =>
          by_cases hend : textEnd s.text ≤ addrOf sAddr
          · refine iff_of_true ?_ (Or.inr (Or.inr (Or.inr (Or.inl hend))))
            intro x hx
            rw [visits, if_pos hend] at hx
            cases hx
          · rw [visits_inside_iff hdec (by omega) n (BitVec.not_le.mp hend), hlength]
            constructor
            · intro hroom
              exact Or.inr (Or.inr (Or.inr (Or.inr hroom)))
            · rintro (hnot | hQQ | hzero | hend' | hroom)
              · exact absurd hrun hnot
              · exact absurd hQQ hstr
              · cases hzero
              · exact absurd hend' hend
              · exact hroom
  · refine iff_of_true ?_ (Or.inl hrun)
    intro w hw
    rw [handed, if_neg fun h => hrun h.1] at hw
    cases hw

/-! ## A file -/

/-- A file whose `.text`, mapped at `0x400000`, is 32 times one byte, with 263 bytes of the file after it. -/
def filledElf (b : Byte) : Image where
  bytes := sampleEhdr 3 2 ++ sampleShdr 0 0 0 0 ++
    (leBytes 4 1 ++ leBytes 4 1 ++ leBytes 8 0 ++ leBytes 8 0x400000 ++ leBytes 8 256 ++ leBytes 8 32 ++
      List.replicate 24 0) ++
    sampleShdr 2 3 288 7 ++ List.replicate 32 b ++ [0, 0x2e, 0x74, 0x65, 0x78, 0x74, 0] ++
    List.replicate 256 0
  length_lt := by
    simp only [sampleEhdr, sampleShdr, elfmag, List.length_append, List.length_replicate, leBytes_length,
      List.length_cons, List.length_nil]
    decide

theorem filledElf_wellFormed : WellFormed (filledElf 0x90) where
  magic := by decide +kernel
  whole := by decide +kernel
  phSmall := by decide +kernel
  shentsize := by decide +kernel
  tableInside := by decide +kernel
  strtabsInside := by decide +kernel
  shstrndx := by decide +kernel
  shstrtab := by decide +kernel
  named := by decide +kernel

/-- A decoder that knows one instruction. -/
def nopDecoder : List (Option Byte) → Addr → Option Insn
  | some 0x90 :: _, _ => some ⟨[0x90], "nop", ""⟩
  | _, _ => none

theorem nopDecoder_lengths : X86Lengths nopDecoder := by
  intro w a i hi
  unfold nopDecoder at hi
  split at hi
  · cases hi
    exact ⟨le_rfl, by decide⟩
  · cases hi

/-- The site where every path is a file of `nop`s. -/
def filledHost : Host (List Bool) :=
  { sampleHost (List.replicate 40 0x90) 9 with
    content := fun _ => filledElf 0x90
    memory := sampleMemory
    csDisasm := nopDecoder }

/-- The program at its first prompt. -/
theorem filledHost_started : ∃ s, execAll filledHost Debugger.init [.load "./a", .start] = .ok s ∧
    s.state = .running ∧ s.text = shdrAt (filledElf 0x90) 1 ∧
      codeOf filledHost s.program s.code = .ok ((filledElf 0x90).bytes ++ [0]) := by
  have hlook : (execAll filledHost Debugger.init [.load "./a", .start]).map
      (fun s => (s.state, s.text, s.code)) = .ok (.running, shdrAt (filledElf 0x90) 1, none) := by
    decide +kernel
  obtain ⟨s, hs, hseen⟩ := ok_of_seen hlook
  obtain ⟨hrun, hrest⟩ := Prod.mk.inj hseen
  obtain ⟨htext, hcode⟩ := Prod.mk.inj hrest
  refine ⟨s, hs, hrun, htext, ?_⟩
  rw [hcode]
  exact (codeOf_none_iff (show filledHost.openFile s.program = some 0 from rfl)).mpr ⟨by decide +kernel, rfl⟩

/-- Ten `nop`s from the start of `.text`, whose end is 263 bytes before the end of the file. -/
theorem disasm_inside_sample : ∃ s, execAll filledHost Debugger.init [.load "./a", .start] = .ok s ∧
    StaysInside filledHost s "400000" 10 := by
  obtain ⟨s, hs, hrun, htext, hcode⟩ := filledHost_started
  refine ⟨s, hs, (disasm_inside_iff nopDecoder_lengths hcode "400000" 10).mpr ?_⟩
  rw [htext]
  exact Or.inr (Or.inr (Or.inr (Or.inr (by decide +kernel))))

/-- Address zero is before the end of `.text`, and before the start of the file. -/
theorem disasm_before_file : ¬ ∀ (H : Host (List Bool)) (cmds : List Command) (s : Debugger (List Bool))
    (image : Image) (text : Shdr) (sAddr : String) (count : Nat),
    X86Lengths H.csDisasm → WellFormed image → textSection image = some text →
      text.shOffset + text.shSize ≤ image.bytes.length → execAll H Debugger.init cmds = .ok s → s.text = text →
        codeOf H s.program s.code = .ok (image.bytes ++ [0]) → StaysInside H s sAddr count := by
  intro h
  obtain ⟨s, hs, hrun, htext, hcode⟩ := filledHost_started
  have hstays := h filledHost _ s (filledElf 0x90) _ "0" 1 nopDecoder_lengths filledElf_wellFormed (by decide +kernel)
    (by decide +kernel) hs htext hcode
  rw [staysInside_iff hcode hrun (by decide)] at hstays
  have hroom := hstays (addrOf "0") (by
    rw [htext, visits, if_neg (by decide +kernel)]
    split <;> exact List.mem_cons_self)
  rw [htext] at hroom
  exact absurd hroom (by decide +kernel)

end AdvUnix.Sdb
