import AdvUnix.Sdb.Disasm

/-!
# `Sdb.Cache` — whose bytes `disasm` shows

`disasm` and the report of a breakpoint read the file of the program once and keep the bytes in `code`; no
command ever drops them. So no command but `load` changes what they look at (`exec_view`), patches in the
memory of the tracee included, and what they look at is the file that was loaded last in every session whose
`load`s find no bytes of another file kept (`disasm_shows_program`).
-/

namespace AdvUnix.Sdb

open Elf

variable {ω : Type} {H : Host ω} {s s' s'' : Debugger ω} {code bytes : List Byte} {text : Shdr}

/-! ## What is looked at -/

/-- **The same program to look at**, and the same bytes of it, whether they have been read yet or not. -/
structure SameView (H : Host ω) (s s' : Debugger ω) : Prop where
  program : s'.program = s.program
  text : s'.text = s.text
  code : codeOf H s'.program s'.code = codeOf H s.program s.code

namespace SameView

theorem trans (h : SameView H s s') (h' : SameView H s' s'') : SameView H s s'' where
  program := h'.program.trans h.program
  text := h'.text.trans h.text
  code := h'.code.trans h.code

/-- A step that leaves the globals of a view alone. -/
theorem quiet (hprogram : s'.program = s.program) (htext : s'.text = s.text) (hcode : s'.code = s.code) :
    SameView H s s' := ⟨hprogram, htext, by rw [hprogram, hcode]⟩

/-- **Reading the file** does not change what it holds. -/
theorem disasm {str : String} {len : Nat} (h : Sdb.disasm H s str len = .ok s') : SameView H s s' := by
  rcases disasm_cases h with ⟨o, rfl⟩ | ⟨-, code, lines, hlist, rfl⟩
  · exact quiet rfl rfl rfl
  · refine ⟨rfl, rfl, ?_⟩
    unfold listing at hlist
    cases hcode : codeOf H s.program s.code with
    | error e =>
        rw [hcode] at hlist
        cases hlist
    | ok kept =>
        rw [hcode, Except.bind] at hlist
        cases hlines : disasmLoop H kept s.text len (addrOf str) [] with
        | error e =>
            rw [hlines] at hlist
            cases hlist
        | ok printed =>
            rw [hlines] at hlist
            cases hlist
            rfl

theorem getregs {flag : Bool} {ret : Int} (h : Sdb.getregs H s flag = .ok (ret, s')) : SameView H s s' := by
  rcases getregs_cases h with ⟨-, -, rfl⟩ | ⟨-, -, r, w, -, rfl⟩
  · exact quiet rfl rfl rfl
  · exact quiet rfl rfl rfl

theorem classifyStop {ret : Int} (h : Sdb.classifyStop H s = .ok (ret, s')) : SameView H s s' := by
  obtain ⟨r, s₁, hg, hcase⟩ := classifyStop_cases h
  have hgot : SameView H s s₁ := getregs hg
  rcases hcase with ⟨-, -, rfl⟩ | ⟨b, -, ⟨-, -, rfl⟩ | ⟨-, -, s₂, hs₂, rfl⟩⟩
  · exact hgot
  · exact hgot.trans (quiet rfl rfl rfl)
  · -- the report reads the file
    have hshown := disasm hs₂
    exact hgot.trans ⟨hshown.program, hshown.text, hshown.code⟩

theorem checkStop {ret : Int} (h : Sdb.checkStop H s = .ok (ret, s')) : SameView H s s' := by
  rcases checkStop_cases h with ⟨sig, w, -, hstop⟩ | ⟨code, w, -, -, rfl⟩ | ⟨sig, w, -, -, rfl⟩
  · have hview := @classifyStop ω H { s with world := w } _ _ hstop
    exact ⟨hview.program, hview.text, hview.code⟩
  · exact quiet rfl rfl rfl
  · exact quiet rfl rfl rfl

theorem replaceByte (s : Debugger ω) (a : Addr) (b : Byte) : SameView H s (Sdb.replaceByte H s a b).2 :=
  quiet rfl rfl rfl

theorem resume (s : Debugger ω) (how : Resume) : SameView H s (Sdb.resume s how) := quiet rfl rfl rfl

theorem onPath (s : Debugger ω) (how : Resume) : SameView H s (Sdb.onPath H s how) := by
  have hresumed := (replaceByte (H := H) s s.bpaddrNow s.restore).trans (resume _ how)
  cases how with
  | cont =>
      have hpatched := hresumed.trans (replaceByte _ s.bpaddrNow int3)
      exact ⟨hpatched.program, hpatched.text, hpatched.code⟩
  | step => exact ⟨hresumed.program, hresumed.text, hresumed.code⟩

theorem resumeAndWait {how : Resume} (h : Sdb.resumeAndWait H s how = .ok s') : SameView H s s' := by
  obtain ⟨ret, s₁, hc, ⟨-, rfl⟩ | ⟨-, r, s₂, hc', rfl⟩⟩ := resumeAndWait_cases h
  · exact (resume s how).trans (checkStop hc)
  · have hfirst := (resume s how).trans (checkStop hc)
    have hsecond := (onPath s₁ how).trans (checkStop hc')
    exact (hfirst.trans hsecond).trans (replaceByte s₂ _ _)

theorem cont (h : Sdb.cont H s = .ok s') : SameView H s s' := by
  rcases cont_cases h with ⟨-, rfl⟩ | ⟨-, hcont⟩
  · exact quiet rfl rfl rfl
  · exact resumeAndWait hcont

theorem si (h : Sdb.si H s = .ok s') : SameView H s s' := by
  rcases si_cases h with ⟨-, rfl⟩ | ⟨-, hsi⟩
  · exact quiet rfl rfl rfl
  · exact resumeAndWait hsi

theorem start (h : Sdb.start H s = .ok s') : SameView H s s' := by
  by_cases hothers : s.state = .others
  · rw [show Sdb.start H s = .ok (s.say (.line "** not in loaded state.")) from if_pos hothers] at h
    cases h
    exact quiet rfl rfl rfl
  · have hstarted := start_started hothers h
    exact quiet hstarted.program hstarted.text hstarted.code

theorem run (h : Sdb.run H s = .ok s') : SameView H s s' := by
  rcases run_cases h with ⟨-, hcont⟩ | ⟨-, s₁, hstart, hcont⟩ | ⟨-, rfl⟩
  · have hsaid : SameView H s (s.say (.alreadyRunning s.program)) := quiet rfl rfl rfl
    exact hsaid.trans (cont hcont)
  · exact (start hstart).trans (cont hcont)
  · exact quiet rfl rfl rfl

theorem dumpLoop (length : Int) (rows : Nat) (cnt : Int) (s : Debugger ω) :
    SameView H s (Sdb.dumpLoop H length rows cnt s) := by
  induction rows generalizing s cnt with
  | zero => exact quiet rfl rfl rfl
  | succ rows ih =>
      rw [dumpLoop_succ]
      have hrow : SameView H s (dumpRow H length cnt s).1 := quiet rfl rfl rfl
      exact hrow.trans (ih _ _)

end SameView

/-- **The report of a breakpoint** is one line more of what `disasm` would show when the wait begins. -/
theorem checkStop_report (hrun : s.state = .running) (h : checkStop H s = .ok (0, s')) :
    ∃ addr kept lines, listing H s.program s.text s.code addr 1 = .ok (kept, lines) ∧
      s'.out = s.out ++ .reached :: lines := by
  rcases checkStop_cases h with ⟨sig, w, -, hstop⟩ | ⟨c, w, -, hret, -⟩ | ⟨sig, w, -, hret, -⟩
  · obtain ⟨r, s₁, hg, ⟨-, hret, -⟩ | ⟨b, -, ⟨-, hret, -⟩ | ⟨-, -, s₂, hs₂, rfl⟩⟩⟩ := classifyStop_cases hstop
    · cases hret
    · cases hret
    · rcases getregs_cases hg with ⟨hnot, -, -⟩ | ⟨-, -, regs, w', -, rfl⟩
      · exact absurd hrun hnot
      · rw [disasm_running (by exact hrun) (hexString_ne_missing _)] at hs₂
        cases hlist : listing H s.program s.text s.code (addrOf (hexString b.addr)) 1 with
        | error e =>
            simp only [Debugger.say, hlist] at hs₂
            cases hs₂
        | ok shown =>
            simp only [Debugger.say, hlist] at hs₂
            cases hs₂
            refine ⟨_, _, _, hlist, ?_⟩
            show s.out ++ [.reached] ++ shown.2 = _
            rw [List.append_assoc]
            rfl
  · cases hret
  · cases hret

/-- **Only `load` changes what is looked at.** -/
theorem exec_view {cmd : Command} (hload : ∀ f, cmd ≠ .load f) (h : exec H s cmd = .ok s') :
    SameView H s s' := by
  cases cmd with
  | load f => exact absurd rfl (hload f)
  | start => exact SameView.start h
  | run => exact SameView.run h
  | cont => exact SameView.cont h
  | si => exact SameView.si h
  | disasm a => exact SameView.disasm h
  | exit => cases h
  | help =>
      cases h
      exact .quiet rfl rfl rfl
  | list =>
      cases h
      exact .quiet rfl rfl rfl
  | ignored =>
      cases h
      exact .quiet rfl rfl rfl
  | vmmap =>
      rcases vmmap_cases h with ⟨-, rfl⟩ | ⟨-, rows, rfl⟩
      · exact .quiet rfl rfl rfl
      · exact .quiet rfl rfl rfl
  | delete sId =>
      rcases del_cases h with ⟨-, rfl⟩ | ⟨-, ⟨-, rfl⟩ | ⟨id, -, ⟨-, rfl⟩ | ⟨q, -, rfl⟩⟩⟩
      · exact .quiet rfl rfl rfl
      · exact .quiet rfl rfl rfl
      · exact .quiet rfl rfl rfl
      · exact .quiet rfl rfl rfl
  | «break» a =>
      rcases breakpoint_cases h with ⟨-, rfl⟩ | ⟨-, ⟨-, rfl⟩ | ⟨-, rfl⟩⟩
      · exact .quiet rfl rfl rfl
      · exact SameView.replaceByte s _ _
      · exact .quiet rfl rfl rfl
  | get r =>
      obtain ⟨ret, s₁, hgot, rfl | ⟨-, o, rfl⟩⟩ := getreg_cases h
      · exact SameView.getregs hgot
      · exact (SameView.getregs hgot).trans (.quiet rfl rfl rfl)
  | set r v =>
      rcases set_cases h with ⟨-, rfl⟩ | ⟨-, rfl | ⟨ret, s₁, hgot, rfl | ⟨-, r, -, rfl⟩⟩⟩
      · exact .quiet rfl rfl rfl
      · exact .quiet rfl rfl rfl
      · exact SameView.getregs hgot
      · exact (SameView.getregs hgot).trans (.quiet rfl rfl rfl)
  | dump a =>
      rcases dump_cases h with ⟨-, rfl⟩ | ⟨-, a, length, rows, rfl⟩
      · exact .quiet rfl rfl rfl
      · have hset : SameView H s { s with dumpaddr := a } := .quiet rfl rfl rfl
        exact hset.trans (SameView.dumpLoop length rows 0 _)
  | getregs =>
      obtain ⟨ret, hgot⟩ := exec_getregs h
      exact SameView.getregs hgot

/-- Nor does a session without one. -/
theorem execAll_view {cmds : List Command} (hload : ∀ f, .load f ∉ cmds) (h : execAll H s cmds = .ok s') :
    SameView H s s' := by
  induction cmds generalizing s with
  | nil =>
      cases h
      exact .quiet rfl rfl rfl
  | cons cmd cmds ih =>
      cases hcmd : exec H s cmd with
      | error e =>
          rw [execAll, List.foldlM_cons, hcmd] at h
          cases h
      | ok s₁ =>
          rw [execAll_cons hcmd] at h
          have hstep := exec_view (fun f hf => hload f (hf ▸ List.mem_cons_self)) hcmd
          exact hstep.trans (ih (fun f hf => hload f (List.mem_cons_of_mem _ hf)) h)

/-! ## The bytes of the file -/

/-- The bytes that a file has of a section are in the buffer. -/
def Agrees (code bytes : List Byte) (text : Shdr) : Prop :=
  ∀ j b, j < text.shSize → bytes[text.shOffset + j]? = some b → code[text.shOffset + j]? = some b

theorem agrees_file (bytes : List Byte) (text : Shdr) : Agrees (bytes ++ [0]) bytes text := by
  intro j b _ hb
  rw [List.getElem?_append_left (List.getElem?_eq_some_iff.mp hb).1]
  exact hb

/-- **The debugger shows its program**: from each address in `text`, a window on what is looked at has the
    bytes that the file of the program has there, up to the end of the section. What `disasm` and the report
    of a breakpoint print is a listing of these windows (`disasm_decodes`, `checkStop_report`). -/
def ShowsProgram (H : Host ω) (s : Debugger ω) : Prop :=
  ∀ i code (a : Addr) (k : Nat) (b : Byte), H.openFile s.program = some i →
    codeOf H s.program s.code = .ok code → s.text.shAddr ≤ a.toNat →
      a.toNat + k < s.text.shAddr + s.text.shSize → k < 256 →
        (H.content i).bytes[s.text.shOffset + (a.toNat - s.text.shAddr) + k]? = some b →
          (windowAt code s.text a)[k]? = some (some b)

/-- The invariant behind it. -/
def Coherent (H : Host ω) (s : Debugger ω) : Prop :=
  ∀ i code, H.openFile s.program = some i → codeOf H s.program s.code = .ok code →
    Agrees code (H.content i).bytes s.text

theorem windowAt_getElem {a : Addr} {k : Nat} (ha : text.shAddr ≤ a.toNat) (hk : k < 256)
    (hoff : text.shOffset + (a.toNat - text.shAddr) < 2 ^ 63) :
    (windowAt code text a)[k]? = some code[text.shOffset + (a.toNat - text.shAddr) + k]? := by
  have hlt := a.isLt
  have hnat : (offsetAt text a).toNat = text.shOffset + (a.toNat - text.shAddr) := by
    unfold offsetAt
    rw [BitVec.toNat_sub, BitVec.toNat_add, BitVec.toNat_ofNat, BitVec.toNat_ofNat]
    omega
  have hint : (offsetAt text a).toInt = (text.shOffset + (a.toNat - text.shAddr) : Nat) := by
    rw [BitVec.toInt_eq_toNat_cond, hnat, if_pos (by omega)]
  unfold windowAt
  rw [window_getElem hk, hint, if_pos (by omega)]
  rfl

theorem Coherent.shows (h : Coherent H s) : ShowsProgram H s := by
  intro i code a k b hopen hcode ha hend hk hb
  have hinside := (List.getElem?_eq_some_iff.mp hb).1
  have hlt := (H.content i).length_lt
  rw [windowAt_getElem ha hk (by omega)]
  rw [Nat.add_assoc] at hb ⊢
  exact congrArg some (h i code hopen hcode _ b (by omega) hb)

/-! ## Sessions -/

/-- **What a `load` must find** where it is accepted: no bytes kept, or the file's own in the section that
    it is about to make the current one. -/
def FindsNoOther (H : Host ω) (s : Debugger ω) : Command → Prop
  | .load f => s.state ≠ .loaded → ∀ code i e e' text, s.code = some code → H.openFile f = some i →
      elfOpen s.e (H.content i) = some e → Elf.load H.memory e = .ok (e', text) →
        Agrees code (H.content i).bytes (text.getD s.text)
  | _ => True

theorem coherent_init : Coherent H (Debugger.init : Debugger ω) := by
  intro i code hopen hcode
  rw [((codeOf_none_iff hopen).mp hcode).2]
  exact agrees_file _ _

theorem SameView.coherent (h : SameView H s s') (hs : Coherent H s) : Coherent H s' := by
  intro i code hopen hcode
  rw [h.program] at hopen
  rw [h.code] at hcode
  rw [h.text]
  exact hs i code hopen hcode

/-- **One command.** -/
theorem exec_coherent (hs : Coherent H s) {cmd : Command} (hfinds : FindsNoOther H s cmd)
    (h : exec H s cmd = .ok s') : Coherent H s' := by
  by_cases hload : ∃ f, cmd = .load f
  · obtain ⟨f, rfl⟩ := hload
    by_cases hstate : s.state = .loaded
    · rw [show exec H s (.load f) = _ from if_pos hstate] at h
      cases h
      have hsaid : SameView H s (s.say (.line "** program has already been loaded.")) := .quiet rfl rfl rfl
      exact hsaid.coherent hs
    · obtain ⟨i, e, e', text, hopen, he, htext, rfl⟩ := load_accepted hstate h
      intro j code hopen' hcode
      cases hopen.symm.trans hopen'
      cases hkept : s.code with
      | none =>
          -- the file is still to be read
          change codeOf H f s.code = .ok code at hcode
          rw [hkept] at hcode
          rw [((codeOf_none_iff hopen).mp hcode).2]
          exact agrees_file _ _
      | some kept =>
          change codeOf H f s.code = .ok code at hcode
          rw [hkept] at hcode
          cases hcode
          exact hfinds hstate _ _ _ _ _ hkept hopen he htext
  · exact (exec_view (fun f hf => hload ⟨f, hf⟩) h).coherent hs

/-- **`disasm` shows the program that was loaded last**, at every prompt of a session whose `load`s find no
    bytes of another file kept. -/
theorem disasm_shows_program {cmds : List Command} (hfinds : Along H (FindsNoOther H) Debugger.init cmds)
    {i : Nat} (hs : execAll H Debugger.init (cmds.take i) = .ok s) : ShowsProgram H s :=
  (hfinds.run (fun _ _ _ hI hP hexec => exec_coherent hI hP hexec) coherent_init hs).1.shows

/-- A site with two files, one of `nop`s and one of `stc`s, and a decoder that knows these two. -/
def twoFilesHost : Host (List Bool) :=
  { sampleHost (List.replicate 40 0x90) 9 with
    openFile := fun path => if path = "./a" then some 0 else some 1
    content := fun i => filledElf (if i = 0 then 0x90 else 0xf9)
    memory := sampleMemory
    csDisasm := fun w _ => match w with
      | some b :: _ => some ⟨[b], if b = 0x90 then "nop" else "stc", ""⟩
      | _ => none }

/-- The same program is loaded once more after it has been disassembled. -/
theorem disasm_shows_program_sample : ∃ s,
    execAll twoFilesHost Debugger.init [.load "./a", .start, .disasm "400000", .load "./a", .start] = .ok s ∧
      ShowsProgram twoFilesHost s := by
  have hread : (execAll twoFilesHost Debugger.init [.load "./a", .start, .disasm "400000"]).map (·.code)
      = .ok (some ((filledElf 0x90).bytes ++ [0])) := by
    decide +kernel
  have hend : (execAll twoFilesHost Debugger.init
      [.load "./a", .start, .disasm "400000", .load "./a", .start]).map (·.state) = .ok .running := by
    decide +kernel
  obtain ⟨s, hs, -⟩ := ok_of_seen hend
  have hfinds : Along twoFilesHost (FindsNoOther twoFilesHost) Debugger.init
      [.load "./a", .start, .disasm "400000", .load "./a", .start] := by
    refine ⟨?_, fun s₁ h₁ => ⟨trivial, fun s₂ h₂ => ⟨trivial, fun s₃ h₃ => ⟨?_, fun _ _ => ⟨trivial,
      fun _ _ => trivial⟩⟩⟩⟩⟩
    · -- nothing has been read yet
      intro _ code _ _ _ _ hkept
      cases hkept
    · intro _ code i _ _ _ hkept hopen _ _
      obtain ⟨t, ht, hcode⟩ := ok_of_seen hread
      rw [execAll_cons h₁, execAll_cons h₂, execAll_cons h₃] at ht
      cases ht
      have hsame : code = (filledElf 0x90).bytes ++ [0] := Option.some.inj (hkept.symm.trans hcode)
      have hfile : i = 0 := (Option.some.inj hopen).symm
      rw [hsame, hfile]
      exact agrees_file _ _
  exact ⟨s, hs, disasm_shows_program (i := 5) hfinds hs⟩

/-- After another program has been loaded and started, the bytes of the first one are shown. -/
theorem disasm_shows_old_program : ¬ ∀ (H : Host (List Bool)) (cmds : List Command) (s : Debugger (List Bool)),
    execAll H Debugger.init cmds = .ok s → ShowsProgram H s := by
  intro h
  have hseen : (execAll twoFilesHost Debugger.init
      [.load "./a", .start, .disasm "400000", .load "./b", .start]).map
        (fun s => (s.program, s.text, s.code))
      = .ok ("./b", shdrAt (filledElf 0xf9) 1, some ((filledElf 0x90).bytes ++ [0])) := by
    decide +kernel
  obtain ⟨s, hs, hglobals⟩ := ok_of_seen hseen
  obtain ⟨hprogram, hrest⟩ := Prod.mk.inj hglobals
  obtain ⟨htext, hcode⟩ := Prod.mk.inj hrest
  have hopen : twoFilesHost.openFile s.program = some 1 := by
    rw [hprogram]
    decide
  have hkept : codeOf twoFilesHost s.program s.code = .ok ((filledElf 0x90).bytes ++ [0]) := by
    rw [hcode]
    rfl
  have hfirst := h twoFilesHost _ s hs 1 _ 0x400000 0 0xf9 hopen hkept
  rw [htext] at hfirst
  have hbyte := hfirst (by decide +kernel) (by decide +kernel) (by decide) (by decide +kernel)
  exact absurd hbyte (by decide +kernel)

end AdvUnix.Sdb
