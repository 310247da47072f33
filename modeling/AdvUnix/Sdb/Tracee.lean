import AdvUnix.Sdb.Debugger

/-!
# `Sdb.Tracee` — requests to the tracee

The laws of the kernel's side that every later file uses: what a request does to a process in ptrace-stop and
to any other, and that `replaceByte` changes one byte although it reads and writes eight. At the end, what each
command can have done.
-/

namespace AdvUnix.Sdb

open ByteStore

variable {ω : Type} {H : Host ω}

/-! ## Words of memory -/

namespace Mem

variable {writable : Addr → Bool} {m : Mem} {a : Addr} {v : Word}

theorem peek_eq_some (h : Mem.peek m a = some v) :
    ∃ bs : List Byte, bs.length = 8 ∧ ByteStore.read m a 8 = bs.map some ∧ v = word bs := by
  obtain ⟨bs, hbs, rfl⟩ := Option.map_eq_some_iff.mp h
  have hread := allSome_eq_some.mp hbs
  refine ⟨bs, ?_, hread, rfl⟩
  have := congrArg List.length hread
  simpa using this.symm

theorem read_head : (ByteStore.read m a 8).head? = some (m a) := by
  simp [ByteStore.read, List.range_succ_eq_map]

/-- The low byte of a mapped word is the byte at its address. -/
theorem byte_of_peek (h : Mem.peek m a = some v) : m a = some (v.setWidth 8) := by
  obtain ⟨bs, hlen, hread, rfl⟩ := peek_eq_some h
  cases bs with
  | nil => simp at hlen
  | cons b bs =>
      have hhead := read_head (m := m) (a := a)
      rw [hread] at hhead
      rw [word_low (by simpa using hlen)]
      exact (Option.some.inj hhead).symm

/-- **Replacing a byte.** Storing a mapped word with its low byte replaced changes that byte only, whatever the
    other seven are, and however many of them are stored. -/
theorem poke_setLow (h : Mem.peek m a = some v) (hw : writable a = true) (b : Byte) :
    Mem.poke writable m a (setLow v b) = Function.update m a (some b) := by
  obtain ⟨bs, hlen, hread, rfl⟩ := peek_eq_some h
  have hfirst : 0 < present (ByteStore.read (m.storable writable) a 8) := by
    refine (lt_present_read (by decide)).mpr fun j hj => ?_
    rw [Nat.le_zero.mp hj, show BitVec.ofNat 64 0 = 0#64 from rfl, BitVec.add_zero, storable, if_pos hw,
      byte_of_peek h]
    rfl
  obtain ⟨k, hk⟩ := Nat.exists_eq_succ_of_ne_zero (Nat.ne_of_gt hfirst)
  have hle : k + 1 ≤ 8 := by
    have hpresent := present_le (ByteStore.read (m.storable writable) a 8)
    rwa [hk, read_length] at hpresent
  -- what is stored is the stored part of the word as it was, but for its first byte
  have hcells : ((wordBytes (setLow (word bs) b)).take (k + 1)).map some
      = some b :: (ByteStore.read m a (k + 1)).tail := by
    rw [wordBytes_setLow, wordBytes_word hlen, ← read_take m a hle, hread]
    cases bs with
    | nil => cases hlen
    | cons c cs => simp
  rw [Mem.poke, hk, hcells, write_cons_tail]

/-- Nothing is stored from an address on that is unmapped or not writable. -/
theorem poke_nowhere (h : m.storable writable a = none) : Mem.poke writable m a v = m := by
  have hpresent : present (ByteStore.read (m.storable writable) a 8) = 0 := by
    have hhead := read_head (m := m.storable writable) (a := a)
    cases hr : read (m.storable writable) a 8 with
    | nil => rfl
    | cons c cs =>
        rw [hr, h] at hhead
        cases Option.some.inj hhead
        rfl
  rw [Mem.poke, hpresent]
  funext x
  exact write_frame (Nat.zero_le _)

theorem storable_unmapped (h : m a = none) : m.storable writable a = none := by
  unfold storable
  split
  · exact h
  · rfl

/-- Whether a word is mapped depends on which bytes are. -/
theorem peek_isSome_congr {m' : Mem} (h : ∀ x, (m' x).isSome = (m x).isSome) :
    (Mem.peek m' a).isSome = (Mem.peek m a).isSome := by
  have hall : ∀ l : List Addr, (allSome (l.map m')).isSome = (allSome (l.map m)).isSome := by
    intro l
    induction l with
    | nil => rfl
    | cons x l ih =>
        have hx := h x
        cases h1 : m' x <;> cases h2 : m x <;> rw [h1, h2] at hx <;> simp_all [allSome]
  have := hall ((List.range 8).map fun i => a + BitVec.ofNat 64 i)
  simpa [Mem.peek, ByteStore.read, Function.comp_def] using this

end Mem

/-! ## Requests to a stopped process -/

/-- The process with another memory, or other registers. -/
def Proc.withMem (p : Proc ω) (m : Mem) : Proc ω := { p with cpu := ⟨p.cpu.regs, m⟩ }
def Proc.withRegs (p : Proc ω) (r : Regs) : Proc ω := { p with cpu := ⟨r, p.cpu.mem⟩ }

@[simp] theorem Proc.withMem_phase (p : Proc ω) (m : Mem) : (p.withMem m).phase = p.phase := rfl
@[simp] theorem Proc.withRegs_phase (p : Proc ω) (r : Regs) : (p.withRegs r).phase = p.phase := rfl

namespace World

variable {w : World ω} {pid : Pid} {p : Proc ω}

@[simp] theorem logged_procs (ev : Event) : (w.logged ev).procs = w.procs := rfl
@[simp] theorem logged_nextPid (ev : Event) : (w.logged ev).nextPid = w.nextPid := rfl
@[simp] theorem setProc_nextPid (q : Option (Proc ω)) : (w.setProc pid q).nextPid = w.nextPid := rfl
@[simp] theorem setProc_procs_self (q : Option (Proc ω)) : (w.setProc pid q).procs pid = q :=
  Function.update_self ..

theorem setProc_procs_ne {pid' : Pid} (h : pid' ≠ pid) (q : Option (Proc ω)) :
    (w.setProc pid q).procs pid' = w.procs pid' := Function.update_of_ne h ..

theorem request_stopped (h : w.procs pid = some p) (hp : p.phase = .stopped) :
    w.request H pid = (some p, w.logged (.request pid true)) := by
  simp only [request, h, hp]

theorem peektext_served {w' : World ω} (h : w.request H pid = (some p, w')) (a : Addr) :
    w.peektext H pid a = ((Mem.peek p.cpu.mem a).getD (-1), w') := by
  simp only [peektext, h]

theorem peektext_failed {w' : World ω} (h : w.request H pid = (none, w')) (a : Addr) :
    w.peektext H pid a = (-1, w') := by
  simp only [peektext, h]

theorem poketext_served {w' : World ω} (h : w.request H pid = (some p, w')) (a : Addr) (v : Word) :
    w.poketext H pid a v = w'.setProc pid (some (p.withMem (Mem.poke (H.writable p.hidden) p.cpu.mem a v))) := by
  simp only [poketext, h]
  rfl

theorem poketext_failed {w' : World ω} (h : w.request H pid = (none, w')) (a : Addr) (v : Word) :
    w.poketext H pid a v = w' := by
  simp only [poketext, h]

theorem peektext_stopped (h : w.procs pid = some p) (hp : p.phase = .stopped) (a : Addr) :
    w.peektext H pid a
      = ((Mem.peek p.cpu.mem a).getD (-1), w.logged (.request pid true)) := by
  simp only [peektext, request_stopped h hp]

theorem poketext_stopped (h : w.procs pid = some p) (hp : p.phase = .stopped) (a : Addr) (v : Word) :
    w.poketext H pid a v = (w.logged (.request pid true)).setProc pid
      (some (p.withMem (Mem.poke (H.writable p.hidden) p.cpu.mem a v))) :=
  poketext_served (request_stopped h hp) a v

theorem getregs_stopped (h : w.procs pid = some p) (hp : p.phase = .stopped) :
    w.getregs H pid = (some p.cpu.regs, w.logged (.request pid true)) := by
  simp only [getregs, request_stopped h hp]

theorem setregs_stopped (h : w.procs pid = some p) (hp : p.phase = .stopped) (r : Regs) :
    w.setregs H pid r = (w.logged (.request pid true)).setProc pid (some (p.withRegs r)) := by
  simp only [setregs, request_stopped h hp]
  rfl

theorem resume_stopped (h : w.procs pid = some p) (hp : p.phase = .stopped) (how : Resume) :
    w.resume pid how = w.setProc pid (some { p with phase := .resumed how }) := by
  simp only [resume, h, hp]

end World

/-! ## Requests to any process -/

/-- A process after a request has looked at it: a resumed one may have come to its report. -/
def Proc.looked (H : Host ω) (p : Proc ω) : Proc ω :=
  match p.phase with
  | .resumed how =>
      match (H.arrived p.hidden).1, H.run how p.cpu (H.arrived p.hidden).2 with
      | true, some (st, cpu, hidden) => { p with cpu := cpu, hidden := hidden, phase := .arrived st }
      | _, _ => { p with hidden := (H.arrived p.hidden).2 }
  | _ => p

/-- Whether a process is served: in ptrace-stop, or in a stop that has not been collected yet. -/
def Proc.serves (p : Proc ω) : Bool :=
  match p.phase with
  | .stopped | .arrived (.stopped _) => true
  | _ => false

section Requests

variable {w : World ω} {pid : Pid} {p : Proc ω}

theorem Proc.looked_file (p : Proc ω) : (p.looked H).file = p.file := by
  unfold Proc.looked
  split
  · split <;> rfl
  · rfl

theorem Proc.not_resumed (h : p.serves = true) (how : Resume) : p.phase ≠ .resumed how := by
  intro hphase
  simp only [Proc.serves, hphase] at h
  cases h

theorem World.setProc_self (h : w.procs pid = some p) : w.setProc pid (some p) = w := by
  unfold World.setProc
  rw [← h, Function.update_eq_self]

theorem World.request_gone (h : w.procs pid = none) :
    w.request H pid = (none, w.logged (.request pid false)) := by
  simp only [World.request, h]

/-- **What a request does**: it looks at the process, logs whether it is in ptrace-stop, and finds it as it is
    by now if it is in a stop. -/
theorem World.request_spec (h : w.procs pid = some p) :
    w.request H pid = (if (p.looked H).serves then some (p.looked H) else none,
      (w.logged (.request pid (p.phase = .stopped))).setProc pid (some (p.looked H))) := by
  have hsame : ∀ ev, (w.logged ev).setProc pid (some p) = w.logged ev := fun _ => World.setProc_self h
  rcases hphase : p.phase with _ | how | st
  · have hlooked : p.looked H = p := by simp only [Proc.looked, hphase]
    rw [hlooked]
    simp [World.request, Proc.serves, h, hphase, hsame]
  · -- a resumed process may have come to its report by now
    rcases harr : H.arrived p.hidden with ⟨here, hidden⟩
    rcases hrun : H.run how p.cpu hidden with _ | ⟨st, cpu, hid⟩
    · cases here <;> simp [World.request, Proc.looked, Proc.serves, h, hphase, harr, hrun]
    · cases here with
      | false => simp [World.request, Proc.looked, Proc.serves, h, hphase, harr, hrun]
      | true => cases st <;> simp [World.request, Proc.looked, Proc.serves, h, hphase, harr, hrun]
  · have hlooked : p.looked H = p := by simp only [Proc.looked, hphase]
    rw [hlooked]
    cases st <;> simp [World.request, Proc.serves, h, hphase, hsame]

end Requests

/-! ## The tracee of the debugger -/

namespace Debugger

variable {s s' s'' : Debugger ω} {p q : Proc ω}

/-- The process the debugger holds as its child. -/
def tracee (s : Debugger ω) : Option (Proc ω) := s.world.procs s.child

/-- The tracee is there, in ptrace-stop, as `p`. -/
structure Holds (s : Debugger ω) (p : Proc ω) : Prop where
  tracee : s.tracee = some p
  stopped : p.phase = .stopped

theorem Holds.unique (h : s.Holds p) (h' : s.Holds q) : p = q :=
  Option.some.inj (h.tracee.symm.trans h'.tracee)

/-- **Only the tracee has moved**: `s'` is `s` with `q` as its child's table entry. -/
structure Moved (s s' : Debugger ω) (q : Option (Proc ω)) : Prop where
  same : s' = { s with world := s'.world }
  procs : s'.world.procs = Function.update s.world.procs s.child q
  nextPid : s'.world.nextPid = s.world.nextPid

theorem Moved.child {q : Option (Proc ω)} (h : Moved s s' q) : s'.child = s.child := by
  have hsame := congrArg Debugger.child h.same
  exact hsame

theorem Moved.tracee {q : Option (Proc ω)} (h : Moved s s' q) : s'.tracee = q := by
  unfold Debugger.tracee
  rw [h.procs, h.child]
  exact Function.update_self ..

theorem Moved.holds (h : Moved s s' (some q)) (hq : q.phase = .stopped) : s'.Holds q :=
  ⟨h.tracee, hq⟩

theorem Moved.trans {q r : Option (Proc ω)} (h : Moved s s' q) (h' : Moved s' s'' r) :
    Moved s s'' r where
  same := by
    have h1 := h.same
    have h2 := h'.same
    rw [h1] at h2
    exact h2
  procs := by
    rw [h'.procs, h.procs, h.child, Function.update_idem]
  nextPid := h'.nextPid.trans h.nextPid

end Debugger

open Debugger

variable {s : Debugger ω} {p : Proc ω} {a : Addr} {b : Byte}

/-- `replaceByte` touches the kernel's side only. -/
theorem replaceByte_same (s : Debugger ω) (a : Addr) (b : Byte) :
    (replaceByte H s a b).2 = { s with world := (replaceByte H s a b).2.world } := rfl

@[simp] theorem replaceByte_points : (replaceByte H s a b).2.points = s.points := rfl
@[simp] theorem replaceByte_bpid : (replaceByte H s a b).2.bpid = s.bpid := rfl
@[simp] theorem replaceByte_state : (replaceByte H s a b).2.state = s.state := rfl
@[simp] theorem replaceByte_child : (replaceByte H s a b).2.child = s.child := rfl
@[simp] theorem replaceByte_program : (replaceByte H s a b).2.program = s.program := rfl
@[simp] theorem replaceByte_ripNow : (replaceByte H s a b).2.ripNow = s.ripNow := rfl
@[simp] theorem replaceByte_bpaddrNow : (replaceByte H s a b).2.bpaddrNow = s.bpaddrNow := rfl
@[simp] theorem replaceByte_text : (replaceByte H s a b).2.text = s.text := rfl
@[simp] theorem replaceByte_code : (replaceByte H s a b).2.code = s.code := rfl
@[simp] theorem replaceByte_out : (replaceByte H s a b).2.out = s.out := rfl

/-- `replaceByte` is two requests: what the second one leaves is what it leaves. -/
theorem replaceByte_of_requests {word : Word} {w : World ω} {q : Option (Proc ω)}
    (hpeek : s.world.peektext H s.child a = (word, w))
    (hprocs : (w.poketext H s.child a (setLow word b)).procs = Function.update s.world.procs s.child q)
    (hpid : (w.poketext H s.child a (setLow word b)).nextPid = s.world.nextPid) :
    Moved s (replaceByte H s a b).2 q := by
  simp only [replaceByte, hpeek]
  exact ⟨rfl, hprocs, hpid⟩

/-- The memory after `replace_byte`. -/
def replaced (writable : Addr → Bool) (m : Mem) (a : Addr) (b : Byte) : Mem :=
  Mem.poke writable m a (setLow ((Mem.peek m a).getD (-1)) b)

theorem replaced_mapped {writable : Addr → Bool} {m : Mem} (h : (Mem.peek m a).isSome) (hw : writable a = true)
    (b : Byte) : replaced writable m a b = Function.update m a (some b) := by
  obtain ⟨v, hv⟩ := Option.isSome_iff_exists.mp h
  unfold replaced
  rw [hv, Option.getD_some, Mem.poke_setLow hv hw]

theorem replaced_unmapped {writable : Addr → Bool} {m : Mem} (h : m a = none) (b : Byte) :
    replaced writable m a b = m := Mem.poke_nowhere (Mem.storable_unmapped h)

/-- **What `replaceByte` does to a stopped tracee**: the word is read and written back with one byte
    changed; nothing of the debugger's own state moves. -/
theorem replaceByte_moved (h : s.Holds p) (a : Addr) (b : Byte) :
    Moved s (replaceByte H s a b).2 (some (p.withMem (replaced (H.writable p.hidden) p.cpu.mem a b))) := by
  obtain ⟨ht, hp⟩ := h
  have h1 := World.peektext_stopped (H := H) ht hp a
  have h2 : (s.world.logged (.request s.child true)).procs s.child = some p := ht
  simp only [replaceByte, h1, World.poketext_stopped h2 hp]
  exact ⟨rfl, rfl, rfl⟩

theorem replaceByte_fst (h : s.Holds p) (a : Addr) (b : Byte) :
    (replaceByte H s a b).1 = ((Mem.peek p.cpu.mem a).getD (-1)).setWidth 8 := by
  simp only [replaceByte, World.peektext_stopped h.tracee h.stopped]

/-- On a word that can be read, `replaceByte` returns the byte at its address. -/
theorem replaceByte_returns (h : s.Holds p) (hm : (Mem.peek p.cpu.mem a).isSome) (b : Byte) :
    p.cpu.mem a = some (replaceByte H s a b).1 := by
  obtain ⟨v, hv⟩ := Option.isSome_iff_exists.mp hm
  rw [replaceByte_fst h, hv, Option.getD_some]
  exact Mem.byte_of_peek hv

/-- On a word that can be read and written, it changes that byte. -/
theorem replaceByte_mapped (h : s.Holds p) (hm : (Mem.peek p.cpu.mem a).isSome)
    (hw : H.writable p.hidden a = true) (b : Byte) :
    Moved s (replaceByte H s a b).2 (some (p.withMem (Function.update p.cpu.mem a (some b)))) := by
  have hmoved := replaceByte_moved (H := H) h a b
  rwa [replaced_mapped hm hw] at hmoved

/-- A request to a process that is not there changes nothing. -/
theorem replaceByte_gone (h : s.tracee = none) (a : Addr) (b : Byte) :
    Moved s (replaceByte H s a b).2 none := by
  have hreq : ∀ w : World ω, w.procs s.child = none →
      w.request H s.child = (none, w.logged (.request s.child false)) := by
    intro w hw
    simp only [World.request, hw]
  have h0 : s.world.procs s.child = none := h
  have h1 : (s.world.logged (.request s.child false)).procs s.child = none := h
  simp only [replaceByte, World.peektext, World.poketext, hreq _ h0, hreq _ h1]
  refine ⟨rfl, ?_, rfl⟩
  show s.world.procs = _
  rw [← h0, Function.update_eq_self]

/-- **Resuming** a stopped tracee. -/
theorem resume_moved (h : s.Holds p) (how : Resume) :
    Moved s (resume s how) (some { p with phase := .resumed how }) := by
  simp only [resume, World.resume_stopped h.tracee h.stopped]
  exact ⟨rfl, rfl, rfl⟩

/-! ## What a command can have done

One lemma per command that has succeeded, with the guards it has passed. -/

variable {s' : Debugger ω}

theorem getregs_cases {flag : Bool} {ret : Int} (h : getregs H s flag = .ok (ret, s')) :
    (s.state ≠ .running ∧ ret = -1 ∧ s' = s.notRunning) ∨
      (s.state = .running ∧ ret = 0 ∧ ∃ r w, s.world.getregs H s.child = (some r, w) ∧
        s' = { s with regs := r, world := w, out := if flag then s.out ++ [.regs r] else s.out }) := by
  unfold getregs at h
  by_cases hrun : s.state = .running
  · rw [if_neg (fun hne => hne hrun)] at h
    rcases hregs : s.world.getregs H s.child with ⟨_ | r, w⟩
    · rw [hregs] at h
      cases h
    · rw [hregs] at h
      cases flag with
      | false =>
          cases h
          exact Or.inr ⟨hrun, rfl, r, w, rfl, rfl⟩
      | true =>
          cases h
          exact Or.inr ⟨hrun, rfl, r, w, rfl, rfl⟩
  · rw [if_pos hrun] at h
    cases h
    exact Or.inl ⟨hrun, rfl, rfl⟩

theorem exec_getregs (h : exec H s .getregs = .ok s') : ∃ ret, getregs H s true = .ok (ret, s') := by
  simp only [exec, bind, Except.bind] at h
  cases hg : getregs H s true with
  | error e =>
      rw [hg] at h
      cases h
  | ok r =>
      rw [hg] at h
      cases h
      exact ⟨r.1, rfl⟩

theorem classifyStop_cases {ret : Int} (h : classifyStop H s = .ok (ret, s')) :
    ∃ r s₁, getregs H s false = .ok (r, s₁) ∧
      ((s₁.points.find? fun x => x.addr = s₁.regs .rip - 1) = none ∧ ret = -1 ∧ s' = s₁ ∨
        ∃ q, (s₁.points.find? fun x => x.addr = s₁.regs .rip - 1) = some q ∧
          (s₁.ripNow = q.addr ∧ ret = 1 ∧ s' = { setRip H s₁ (s₁.regs .rip - 1) with restore := q.ori } ∨
            s₁.ripNow ≠ q.addr ∧ ret = 0 ∧ ∃ s₂,
              disasm H ({ s₁ with bpaddrNow := q.addr }.say .reached) (hexString q.addr) 1 = .ok s₂ ∧
                s' = setRip H { s₂ with ripNow := s₁.regs .rip - 1 } (s₁.regs .rip - 1))) := by
  unfold classifyStop at h
  cases hg : getregs H s false with
  | error e =>
      rw [hg] at h
      cases h
  | ok x =>
      obtain ⟨r, s₁⟩ := x
      refine ⟨r, s₁, rfl, ?_⟩
      simp only [hg, bind, Except.bind] at h
      cases hfind : s₁.points.find? fun x => x.addr = s₁.regs .rip - 1 with
      | none =>
          rw [hfind] at h
          cases h
          exact Or.inl ⟨rfl, rfl, rfl⟩
      | some q =>
          simp only [hfind] at h
          refine Or.inr ⟨q, rfl, ?_⟩
          by_cases hnow : s₁.ripNow = q.addr
          · rw [if_pos hnow] at h
            cases h
            exact Or.inl ⟨hnow, rfl, rfl⟩
          · simp only [if_neg hnow] at h
            split at h
            · cases h
            · rename_i s₂ hs₂
              cases h
              exact Or.inr ⟨hnow, rfl, s₂, hs₂, rfl⟩

theorem checkStop_cases {ret : Int} (h : checkStop H s = .ok (ret, s')) :
    (∃ sig w, s.world.waitpid H s.child = .report (.stopped sig) w ∧
        classifyStop H { s with world := w } = .ok (ret, s')) ∨
      (∃ code w, s.world.waitpid H s.child = .report (.exited code) w ∧ ret = -1 ∧
        s' = { s.say (.terminated s.child (256 * code)) with state := .loaded, world := w }) ∨
      ∃ sig w, s.world.waitpid H s.child = .report (.signaled sig) w ∧ ret = -1 ∧
        s' = { s with world := w } := by
  unfold checkStop at h
  cases hw : s.world.waitpid H s.child with
  | error =>
      rw [hw] at h
      cases h
  | blocked =>
      rw [hw] at h
      cases h
  | report st w =>
      rw [hw] at h
      cases st with
      | stopped sig => exact Or.inl ⟨sig, w, rfl, h⟩
      | exited code =>
          cases h
          exact Or.inr (Or.inl ⟨code, w, rfl, rfl, rfl⟩)
      | signaled sig =>
          cases h
          exact Or.inr (Or.inr ⟨sig, w, rfl, rfl, rfl⟩)

theorem del_cases {sId : String} (h : del H s sId = .ok s') :
    (s.state ≠ .running ∧ s' = s.notRunning) ∨
      (s.state = .running ∧
        (sId = "QQ" ∧ s' = s ∨
          ∃ id, stoi sId = .ok id ∧
            (s.points.find? (fun x => x.id = id) = none ∧ s' = s.say (.line "** no such breakpoint.") ∨
              ∃ q, s.points.find? (fun x => x.id = id) = some q ∧
                s' = { (replaceByte H s q.addr q.ori).2 with
                  points := s.points.eraseP fun x => x.id = id }.say (.deleted sId)))) := by
  by_cases hrun : s.state = .running
  · refine Or.inr ⟨hrun, ?_⟩
    simp only [del, hrun, ne_eq, not_true_eq_false, if_false] at h
    by_cases hqq : sId = "QQ"
    · rw [if_pos hqq] at h
      exact Or.inl ⟨hqq, (Except.ok.inj h).symm⟩
    · rw [if_neg hqq] at h
      cases hid : stoi sId with
      | error ex =>
          rw [hid] at h
          cases h
      | ok id =>
          simp only [hid] at h
          cases hfind : s.points.find? fun x => x.id = id with
          | none =>
              rw [hfind] at h
              exact Or.inr ⟨id, rfl, Or.inl ⟨hfind, (Except.ok.inj h).symm⟩⟩
          | some q =>
              rw [hfind] at h
              exact Or.inr ⟨id, rfl, Or.inr ⟨q, hfind, (Except.ok.inj h).symm⟩⟩
  · exact Or.inl ⟨hrun, (Except.ok.inj ((if_pos hrun).symm.trans h)).symm⟩

theorem getreg_cases {reg : String} (h : getreg H s reg = .ok s') :
    ∃ ret s₁, getregs H s false = .ok (ret, s₁) ∧ (s' = s₁ ∨ ret = 0 ∧ ∃ o, s' = s₁.say o) := by
  simp only [getreg, bind, Except.bind] at h
  cases hg : getregs H s false with
  | error e =>
      rw [hg] at h
      cases h
  | ok x =>
      obtain ⟨ret, s₁⟩ := x
      refine ⟨ret, s₁, rfl, ?_⟩
      simp only [hg] at h
      by_cases hret : ret = 0
      · rw [if_neg (fun hne => hne hret)] at h
        by_cases hqq : reg = "QQ"
        · rw [if_pos hqq] at h
          exact Or.inl (Except.ok.inj h).symm
        · rw [if_neg hqq] at h
          cases hreg : regsMap reg with
          | none =>
              rw [hreg] at h
              exact Or.inr ⟨hret, _, (Except.ok.inj h).symm⟩
          | some r =>
              rw [hreg] at h
              exact Or.inr ⟨hret, _, (Except.ok.inj h).symm⟩
      · rw [if_pos hret] at h
        exact Or.inl (Except.ok.inj h).symm

theorem set_cases {reg sVal : String} (h : set H s reg sVal = .ok s') :
    (s.state ≠ .running ∧ s' = s.notRunning) ∨
      (s.state = .running ∧
        (s' = s ∨ ∃ ret s₁, getregs H s false = .ok (ret, s₁) ∧
          (s' = s₁ ∨ ret = 0 ∧ ∃ r, regsMap reg = some r ∧
            s' = { s₁ with
              regs := Function.update s₁.regs r (addrOf sVal)
              ripNow := if reg = "rip" then addrOf sVal else s₁.ripNow
              world := s₁.world.setregs H s₁.child (Function.update s₁.regs r (addrOf sVal)) }))) := by
  by_cases hrun : s.state = .running
  · refine Or.inr ⟨hrun, ?_⟩
    unfold set at h
    rw [if_neg (fun hne => hne hrun)] at h
    by_cases hqq : sVal = "QQ"
    · rw [if_pos hqq] at h
      exact Or.inl (Except.ok.inj h).symm
    · rw [if_neg hqq] at h
      simp only [bind, Except.bind] at h
      cases hg : getregs H s false with
      | error e =>
          rw [hg] at h
          cases h
      | ok x =>
          obtain ⟨ret, s₁⟩ := x
          refine Or.inr ⟨ret, s₁, rfl, ?_⟩
          simp only [hg] at h
          by_cases hret : ret = 0
          · rw [if_neg (fun hne => hne hret)] at h
            cases hreg : regsMap reg with
            | none =>
                -- the null pointer is written through
                rw [hreg] at h
                cases h
            | some r =>
                rw [hreg] at h
                exact Or.inr ⟨hret, r, rfl, (Except.ok.inj h).symm⟩
          · rw [if_pos hret] at h
            exact Or.inl (Except.ok.inj h).symm
  · exact Or.inl ⟨hrun, (Except.ok.inj ((if_pos hrun).symm.trans h)).symm⟩

theorem vmmap_cases (h : vmmap H s = .ok s') :
    (s.state ≠ .running ∧ s' = s.notRunning) ∨
      (s.state = .running ∧ ∃ rows, s' = { s with out := s.out ++ rows }) := by
  by_cases hrun : s.state = .running
  · refine Or.inr ⟨hrun, ?_⟩
    simp only [vmmap, hrun, ne_eq, not_true_eq_false, if_false, bind, Except.bind] at h
    split at h
    · cases h
    · rename_i rows _
      exact ⟨rows, by rw [← Except.ok.inj h, ← hrun]⟩
  · exact Or.inl ⟨hrun, (Except.ok.inj ((if_pos hrun).symm.trans h)).symm⟩

theorem dump_cases {sAddr : String} (h : dump H s sAddr = .ok s') :
    (s.state ≠ .running ∧ s' = s.notRunning) ∨
      (s.state = .running ∧ ∃ a length rows, s' = dumpLoop H length rows 0 { s with dumpaddr := a }) := by
  by_cases hrun : s.state = .running
  · refine Or.inr ⟨hrun, ?_⟩
    unfold dump at h
    rw [if_neg (fun hne => hne hrun)] at h
    by_cases hno : sAddr ≠ "NO"
    · simp only [if_pos hno] at h
      exact ⟨_, _, _, (Except.ok.inj h).symm⟩
    · simp only [if_neg hno] at h
      exact ⟨s.dumpaddr, _, _, (Except.ok.inj h).symm⟩
  · exact Or.inl ⟨hrun, (Except.ok.inj ((if_pos hrun).symm.trans h)).symm⟩

/-- A file that is loaded has been opened, accepted and read. -/
theorem load_accepted {elfFile : String} (hstate : s.state ≠ .loaded) (h : load H s elfFile = .ok s') :
    ∃ i e e' text, H.openFile elfFile = some i ∧ Elf.elfOpen s.e (H.content i) = some e ∧
      Elf.load H.memory e = .ok (e', text) ∧
      s' = { s with e := e', state := .loaded, program := elfFile, text := text.getD s.text }.say
        (.loaded elfFile e'.entry) := by
  unfold load at h
  rw [if_neg hstate] at h
  cases hopen : (H.openFile elfFile).bind fun i => Elf.elfOpen s.e (H.content i) with
  | none =>
      rw [hopen] at h
      cases h
  | some e =>
      obtain ⟨i, hi, he⟩ := Option.bind_eq_some_iff.mp hopen
      cases hload : Elf.load H.memory e with
      | error f =>
          simp only [hopen, hload] at h
          cases h
      | ok r =>
          simp only [hopen, hload] at h
          exact ⟨i, e, r.1, r.2, hi, he, hload, (Except.ok.inj h).symm⟩

theorem load_cases {elfFile : String} (h : load H s elfFile = .ok s') :
    (s.state = .loaded ∧ s' = s.say (.line "** program has already been loaded.")) ∨
      (s.state ≠ .loaded ∧ ∃ e text o,
        s' = { s with e := e, state := .loaded, program := elfFile, text := text }.say o) := by
  by_cases hloaded : s.state = .loaded
  · rw [show load H s elfFile = _ from if_pos hloaded] at h
    exact Or.inl ⟨hloaded, (Except.ok.inj h).symm⟩
  · obtain ⟨i, e, e', text, -, -, -, hs'⟩ := load_accepted hloaded h
    exact Or.inr ⟨hloaded, e', _, _, hs'⟩

theorem run_cases (h : run H s = .ok s') :
    (s.state = .running ∧ cont H (s.say (.alreadyRunning s.program)) = .ok s') ∨
      (s.state = .loaded ∧ ∃ s₁, start H s = .ok s₁ ∧ cont H s₁ = .ok s') ∨
      (s.state = .others ∧ s' = s.say (.line "** not in loaded or running state.")) := by
  unfold run at h
  cases hstate : s.state with
  | running =>
      rw [hstate] at h
      exact Or.inl ⟨rfl, h⟩
  | loaded =>
      simp only [hstate, bind, Except.bind] at h
      cases hstart : start H s with
      | error e =>
          rw [hstart] at h
          cases h
      | ok s₁ =>
          rw [hstart] at h
          exact Or.inr (Or.inl ⟨rfl, s₁, rfl, h⟩)
  | others =>
      rw [hstate] at h
      exact Or.inr (Or.inr ⟨rfl, (Except.ok.inj h).symm⟩)

end AdvUnix.Sdb
