import AdvUnix.Sdb.Cache

/-!
# `Sdb.Listing` — what a listing shows

A listing of `disasm` is a stretch of the bytes kept in `code` cut into instructions: each begins where the one before
it ends, and their bytes are bytes of the buffer in a row (`Listed.chain`, `Listed.bytes`). A listing from an address of
another one is the rest of that one, as far as both go (`disasm_listing`).
-/

namespace AdvUnix.Sdb

open ByteStore Elf

variable {ω : Type} {H : Host ω} {s s₁ s₂ : Debugger ω} {code : List Byte} {text : Shdr}
variable {decoder : List (Option Byte) → Addr → Option Insn} {n m : Nat} {a : Addr}
variable {items items' : List (Addr × Insn)}

/-! ## Listings -/

/-- **A listing** of at most `n` instructions from an address on. -/
inductive Listed (decoder : List (Option Byte) → Addr → Option Insn) (code : List Byte) (text : Shdr) :
    Nat → Addr → List (Addr × Insn) → Prop
  | count (a : Addr) : Listed decoder code text 0 a []
  | stop {n : Nat} {a : Addr} (hend : textEnd text ≤ a) : Listed decoder code text (n + 1) a []
  | insn {n : Nat} {a : Addr} {i : Insn} {rest : List (Addr × Insn)} (hin : ¬ textEnd text ≤ a)
      (hdec : decoder (windowAt code text a) a = some i)
      (hrest : Listed decoder code text n (a + BitVec.ofNat 64 i.bytes.length) rest) :
      Listed decoder code text (n + 1) a ((a, i) :: rest)

/-- The line of an instruction. -/
def insnLine (x : Addr × Insn) : Out := .insn x.1 x.2

/-- The address behind some instructions. -/
def behindAll : Addr → List (Addr × Insn) → Addr
  | a, [] => a
  | a, x :: xs => behindAll (a + BitVec.ofNat 64 x.2.bytes.length) xs

/-- Each instruction begins where the one before it ends. -/
def Chain : Addr → List (Addr × Insn) → Prop
  | _, [] => True
  | a, x :: xs => x.1 = a ∧ Chain (a + BitVec.ofNat 64 x.2.bytes.length) xs

/-- **The loop prints a listing.** -/
theorem disasmLoop_listed {lines : List Out} (h : disasmLoop H code text n a [] = .ok lines) :
    ∃ items, Listed H.csDisasm code text n a items ∧ lines = items.map insnLine := by
  induction n generalizing a lines with
  | zero =>
      cases h
      exact ⟨[], .count a, rfl⟩
  | succ n ih =>
      by_cases hend : textEnd text ≤ a
      · rw [disasmLoop_end hend] at h
        cases h
        exact ⟨[], .stop hend, rfl⟩
      · rw [disasmLoop_next hend] at h
        cases hdec : disassemble H code (offsetAt text a).toInt a with
        | error e =>
            rw [hdec] at h
            cases h
        | ok i =>
            rw [hdec, Except.bind, disasmLoop_acc] at h
            cases hloop : disasmLoop H code text n (a + BitVec.ofNat 64 i.bytes.length) [] with
            | error e =>
                rw [hloop] at h
                cases h
            | ok rest =>
                rw [hloop] at h
                obtain ⟨items, hitems, rfl⟩ := ih hloop
                cases h
                exact ⟨(a, i) :: items, .insn hend (disassemble_eq_ok hdec) hitems, rfl⟩

namespace Listed

theorem length_le (h : Listed decoder code text n a items) : items.length ≤ n := by
  induction h with
  | count => exact Nat.le_refl 0
  | stop => exact Nat.zero_le _
  | insn _ _ _ ih => exact Nat.succ_le_succ ih

theorem chain (h : Listed decoder code text n a items) : Chain a items := by
  induction h with
  | count => trivial
  | stop => trivial
  | insn _ _ _ ih => exact ⟨rfl, ih⟩

theorem before_end (h : Listed decoder code text n a items) : ∀ x ∈ items, x.1 < textEnd text := by
  induction h with
  | count => exact fun x hx => absurd hx List.not_mem_nil
  | stop => exact fun x hx => absurd hx List.not_mem_nil
  | insn hin _ _ ih =>
      intro x hx
      rcases List.mem_cons.mp hx with rfl | hx
      · exact BitVec.not_le.mp hin
      · exact ih x hx

/-- A listing that is shorter than it may be has come to the end of the section. -/
theorem short (h : Listed decoder code text n a items) (hlt : items.length < n) :
    textEnd text ≤ behindAll a items := by
  induction h with
  | count => exact absurd hlt (Nat.lt_irrefl 0)
  | stop hend => exact hend
  | insn _ _ _ ih => exact ih (Nat.lt_of_succ_lt_succ hlt)

/-- The rest of a listing is one. -/
theorem drop (h : Listed decoder code text n a items) (k : Nat) (hk : k ≤ items.length) :
    Listed decoder code text (n - k) (behindAll a (items.take k)) (items.drop k) := by
  induction k generalizing n a items with
  | zero => exact h
  | succ k ih =>
      cases h with
      | count => exact absurd hk (Nat.not_succ_le_zero k)
      | stop => exact absurd hk (Nat.not_succ_le_zero k)
      | @insn n a i rest hin hdec hrest =>
          rw [Nat.add_sub_add_right]
          exact ih hrest (Nat.le_of_succ_le_succ hk)

/-- **Two listings from one address** agree as far as both go. -/
theorem agree (h : Listed decoder code text n a items) (h' : Listed decoder code text m a items') :
    items <+: items' ∨ items' <+: items := by
  induction h generalizing m items' with
  | count => exact Or.inl (List.nil_prefix)
  | stop => exact Or.inl (List.nil_prefix)
  | @insn n a i rest hin hdec hrest ih =>
      cases h' with
      | count => exact Or.inr (List.nil_prefix)
      | stop hend => exact absurd hend hin
      | @insn m _ i' rest' hin' hdec' hrest' =>
          rw [hdec] at hdec'
          cases hdec'
          exact (ih hrest').imp (List.prefix_cons_inj _).mpr (List.prefix_cons_inj _).mpr

end Listed

/-! ## Bytes -/

/-- **A decoder** reads an instruction off the beginning of a window. -/
def Decodes (decoder : List (Option Byte) → Addr → Option Insn) : Prop :=
  ∀ w a i, decoder w a = some i → i.bytes.map some <+: w

/-- The bytes of some instructions. -/
def bytesOf (items : List (Addr × Insn)) : List Byte := items.flatMap (·.2.bytes)

/-- What is at the beginning of a window is in the buffer, at the offset of the window. -/
theorem prefix_window {bs : List Byte} {offset : BitVec 64} (hne : bs ≠ [])
    (h : bs.map some <+: window code offset.toInt) : bs <+: code.drop offset.toNat := by
  have hat : ∀ j, (hj : j < bs.length) → 0 ≤ offset.toInt + j ∧ code[(offset.toInt + j).toNat]? = some bs[j] := by
    intro j hj
    have hcell := List.prefix_iff_getElem?.mp h j (by simpa using hj)
    have hwide : j < 256 := by
      have hlong := h.length_le
      rw [window_eq, List.length_map, List.length_map, List.length_range] at hlong
      omega
    rw [window_getElem hwide] at hcell
    split at hcell
    · rename_i hpos
      exact ⟨hpos, by simpa using hcell⟩
    · simp at hcell
  have hpos : 0 ≤ offset.toInt := by
    have hfirst := (hat 0 (List.length_pos_iff.mpr hne)).1
    omega
  have hint : offset.toInt = offset.toNat := by
    have hlt := offset.isLt
    rw [BitVec.toInt_eq_toNat_cond] at hpos ⊢
    split at hpos <;> omega
  refine List.prefix_iff_getElem?.mpr fun j hj => ?_
  have hcell := (hat j hj).2
  rw [hint] at hcell
  rw [List.getElem?_drop]
  exact hcell

/-- **The bytes of a listing** are bytes of the buffer in a row. -/
theorem Listed.bytes (hdecodes : Decodes decoder) (hlen : code.length < 2 ^ 63)
    (h : Listed decoder code text n a items) : bytesOf items <+: code.drop (offsetAt text a).toNat := by
  induction h with
  | count => exact List.nil_prefix
  | stop => exact List.nil_prefix
  | @insn n a i rest hin hdec hrest ih =>
      have hall : bytesOf ((a, i) :: rest) = i.bytes ++ bytesOf rest := rfl
      rw [offsetAt_add] at ih
      rw [hall]
      by_cases hne : i.bytes = []
      · rw [hne, List.length_nil, show BitVec.ofNat 64 0 = 0#64 from rfl, BitVec.add_zero] at ih
        rw [hne]
        exact ih
      · have hfirst : i.bytes <+: code.drop (offsetAt text a).toNat := prefix_window hne (hdecodes _ _ _ hdec)
        obtain ⟨tail, htail⟩ := hfirst
        have hroom := congrArg List.length htail
        rw [List.length_append, List.length_drop] at hroom
        have hpos := List.length_pos_iff.mpr hne
        -- the instruction is in the buffer, so the offset behind it does not wrap around
        rw [toNat_add_ofNat (by omega), ← List.drop_drop, ← htail, List.drop_left] at ih
        rw [← htail]
        exact (List.prefix_append_right_inj _).mpr ih

/-! ## The command -/

/-- `disasm` keeps the code that it has read, and prints a listing of it. -/
theorem disasm_listed (hrun : s.state = .running) {str : String} (hstr : str ≠ "QQ")
    (h : disasm H s str n = .ok s₁) :
    ∃ code items, codeOf H s.program s.code = .ok code ∧ Listed H.csDisasm code s.text n (addrOf str) items ∧
      s₁.code = some code ∧ s₁.out = s.out ++ items.map insnLine ∧ s₁.state = s.state ∧ s₁.text = s.text := by
  rw [disasm_running hrun hstr] at h
  unfold listing at h
  cases hcode : codeOf H s.program s.code with
  | error e =>
      rw [hcode] at h
      cases h
  | ok code =>
      rw [hcode, Except.bind] at h
      cases hloop : disasmLoop H code s.text n (addrOf str) [] with
      | error e =>
          rw [hloop] at h
          cases h
      | ok lines =>
          rw [hloop] at h
          obtain ⟨items, hitems, rfl⟩ := disasmLoop_listed hloop
          cases h
          exact ⟨code, items, rfl, hitems, rfl, rfl, rfl, rfl⟩

theorem codeOf_length (hkept : (s.code.getD []).length < 2 ^ 63) (hcode : codeOf H s.program s.code = .ok code) :
    code.length < 2 ^ 63 := by
  unfold codeOf at hcode
  cases hs : s.code with
  | some kept =>
      rw [hs] at hcode hkept
      cases hcode
      exact hkept
  | none =>
      simp only [hs] at hcode
      split at hcode
      · cases hcode
      · split at hcode
        · cases hcode
          rw [List.length_append, List.length_singleton]
          omega
        · cases hcode

/-- **What `disasm` prints** of a running program: a listing from the address, with bytes of the buffer in a row, that
    ends with the count or with the section. A `disasm` later in the session, with no `load` in between, from the
    address of one of its lines, or from the one behind the last of them, goes on with the lines that follow, as far as
    both listings go. -/
theorem disasm_listing (H : Host ω) (s s₁ : Debugger ω) (str : String) (n : Nat) (hrun : s.state = .running)
    (hstr : str ≠ "QQ") (hdecodes : Decodes H.csDisasm) (hkept : (s.code.getD []).length < 2 ^ 63)
    (h : disasm H s str n = .ok s₁) :
    ∃ code items, codeOf H s.program s.code = .ok code ∧ s₁.code = some code ∧ s₁.out = s.out ++ items.map insnLine ∧
      Chain (addrOf str) items ∧ bytesOf items <+: code.drop (offsetAt s.text (addrOf str)).toNat ∧
      items.length ≤ n ∧ (∀ x ∈ items, x.1 < textEnd s.text) ∧
      (items.length < n → textEnd s.text ≤ behindAll (addrOf str) items) ∧
      ∀ (cmds : List Command) (s' : Debugger ω), (∀ f, .load f ∉ cmds) → execAll H s₁ cmds = .ok s' →
        s'.state = .running → ∀ k ≤ items.length, ∀ (str' : String) (m : Nat) (s₂ : Debugger ω), str' ≠ "QQ" →
          addrOf str' = behindAll (addrOf str) (items.take k) → disasm H s' str' m = .ok s₂ →
            ∃ items', s₂.out = s'.out ++ items'.map insnLine ∧
              (items.drop k <+: items' ∨ items' <+: items.drop k) := by
  obtain ⟨code, items, hcode, hitems, hkept₁, hout, hstate, htext⟩ := disasm_listed hrun hstr h
  refine ⟨code, items, hcode, hkept₁, hout, hitems.chain, hitems.bytes hdecodes (codeOf_length hkept hcode),
    hitems.length_le, hitems.before_end, hitems.short, ?_⟩
  intro cmds s' hload hcmds hrun' k hk str' m s₂ hstr' haddr h'
  have hview := execAll_view hload hcmds
  obtain ⟨code', items', hcode', hitems', -, hout', -, -⟩ := disasm_listed hrun' hstr' h'
  -- the code that is looked at is the same
  rw [hview.code, hkept₁] at hcode'
  cases hcode'
  rw [hview.text, htext, haddr] at hitems'
  exact ⟨items', hout', (hitems.drop k hk).agree hitems'⟩

/-- Ten lines, and three lines from the same address. -/
theorem disasm_listing_sample : ∃ s s₁ s₂, ∃ items items' : List (Addr × Insn),
    execAll twoFilesHost Debugger.init [.load "./a", .start] = .ok s ∧
    disasm twoFilesHost s "400000" 10 = .ok s₁ ∧ disasm twoFilesHost s₁ "400000" 3 = .ok s₂ ∧
    s₁.out = s.out ++ items.map insnLine ∧ s₂.out = s₁.out ++ items'.map insnLine ∧
    (items <+: items' ∨ items' <+: items) := by
  have hdecodes : Decodes twoFilesHost.csDisasm := by
    intro w a i h
    match w with
    | some b :: w =>
        cases h
        exact (List.prefix_cons_inj _).mpr List.nil_prefix
    | none :: _ => cases h
    | [] => cases h
  have hlook : (execAll twoFilesHost Debugger.init [.load "./a", .start]).map (fun s => (s.state, s.code,
      (disasm twoFilesHost s "400000" 10).bind fun s₁ =>
        (disasm twoFilesHost s₁ "400000" 3).map (·.state))) = .ok (.running, none, .ok .running) := by
    decide +kernel
  obtain ⟨s, hs, hseen⟩ := ok_of_seen hlook
  obtain ⟨hrun, hrest⟩ := Prod.mk.inj hseen
  obtain ⟨hcode, hboth⟩ := Prod.mk.inj hrest
  cases h₁ : disasm twoFilesHost s "400000" 10 with
  | error e =>
      rw [h₁] at hboth
      cases hboth
  | ok s₁ =>
      rw [h₁, Except.bind] at hboth
      obtain ⟨s₂, h₂, -⟩ := ok_of_seen hboth
      obtain ⟨code, items, -, -, hout, -, -, -, -, -, hagain⟩ := disasm_listing twoFilesHost s s₁ "400000" 10 hrun
        (by decide) hdecodes (by rw [hcode]; decide) h₁
      have hrun₁ := (disasm_listed hrun (by decide) h₁).choose_spec.choose_spec.2.2.2.2.1.trans hrun
      obtain ⟨items', hout', hagree⟩ :=
        hagain [] s₁ (fun _ => List.not_mem_nil) rfl hrun₁ 0 (Nat.zero_le _) "400000" 3 s₂ (by decide) rfl h₂
      exact ⟨s, s₁, s₂, items, items', hs, h₁, h₂, hout, hout', hagree⟩

end AdvUnix.Sdb
