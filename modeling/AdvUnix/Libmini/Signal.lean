import AdvUnix.Lib.LastWrite
import AdvUnix.Libmini.Jmp
import AdvUnix.Libmini.Sigset

/-!
# `Libmini.Signal` — `signal` and `sigaction`

The two functions of `libmini.c` over the kernel's table of dispositions. Either of them replaces the
disposition of one signal and reports the one it has replaced, or fails and changes nothing
(`SigCall.run_accepted`, `SigCall.run_refused`); so a report is what was last installed for its signal, by
whichever of the two (`disposition_store`).
-/

namespace AdvUnix.Libmini

open ByteStore LastWrite

/-! ## The kernel -/

/-- `sighandler_t` -/
abbrev Handler := BitVec 64

def SIG_ERR : Handler := -1

def SIGKILL : Int := 9
def SIGSTOP : Int := 19

def SA_RESTORER : BitVec 32 := 0x04000000#32
def SA_RESTART : BitVec 32 := 0x10000000#32

/-- `struct kernel_sigaction` -/
structure KernelSigaction where
  kSaHandler : Handler
  saFlags : BitVec 64
  saRestorer : BitVec 64
  saMask : SigSet

/-- `struct sigaction` -/
structure Sigaction where
  saHandler : Handler
  saMask : SigSet
  saFlags : BitVec 32
  saRestorer : BitVec 64

/-- `errno`, and what the kernel keeps of the process. -/
structure Process where
  errno : Int
  table : Int → KernelSigaction

/-- A function that makes system calls. -/
abbrev Sig (α : Type) := StateT Process (Except Undefined) α

/-- `rt_sigaction(sig, act, oact, sigsetsize)`: the result, and the record stored at `oact`. -/
def rtSigaction (sig : Int) (act : KernelSigaction) (sigsetsize : Nat) :
    Sig (Int × Option KernelSigaction) := fun p =>
  if sigsetsize ≠ 8 ∨ sig < 1 ∨ 64 < sig ∨ sig = SIGKILL ∨ sig = SIGSTOP then .ok ((-EINVAL, none), p)
  else .ok ((0, some (p.table sig)),
    { p with table := Function.update p.table sig { act with saMask := act.saMask &&& ~~~unblockable } })

/-! ## The functions -/

/-- A function that only sets `errno`. -/
def onErrno {α : Type} (f : Lib α) : Sig α := fun p =>
  (f p.errno).map fun r => (r.1, { p with errno := r.2 })

/-- `WRAPPER_RETval(int)` -/
def wrapperRetval (ret : Int) : Sig Int := fun p =>
  if ret < 0 then .ok (-1, { p with errno := -ret }) else .ok (ret, { p with errno := 0 })

/-- `_memcpy`, on the bytes of two objects from their first ones on. -/
def memcpy : Nat → List (BitVec 8) → List (BitVec 8) → Except Undefined (List (BitVec 8))
  | 0, dst, _ => .ok dst
  | n + 1, _ :: dst, c :: src => (memcpy n dst src).map (c :: ·)
  | _ + 1, _, _ => .error .outOfBounds

/-- `_memcpy(&dst, &src, sizeof(sigset_t))` -/
def copySet (dst src : SigSet) : Lib SigSet := do
  let cells ← liftM (memcpy 8 (wordBytes dst) (wordBytes src))
  pure (word cells)

/-- What the local variables of the two functions hold before they are assigned. -/
structure Stack where
  kact : KernelSigaction
  koact : KernelSigaction
  act : Sigaction
  oldact : Sigaction

-- the address of the assembly routine `sys_rt_sigreturn`
variable (sysRtSigreturn : BitVec 64)

/-- `sigaction`: the result, and what is stored at `oldact`. -/
def sigaction (stack : Stack) (signum : Int) (act oldact : Option Sigaction) :
    Sig (Int × Option Sigaction) :=
  if signum ≤ 0 ∨ signum ≥ NSIG then onErrno (invalid (-1, oldact))
  else do
    let kact ← match act with
      | none => pure stack.kact
      | some a => do
          let mask ← onErrno (copySet stack.kact.saMask a.saMask)
          pure {
            kSaHandler := a.saHandler
            saFlags := (a.saFlags ||| SA_RESTORER).setWidth 64
            saRestorer := sysRtSigreturn
            saMask := mask }
    let (ret, stored) ← rtSigaction signum kact 8
    let koact := stored.getD stack.koact
    let oldact ← match oldact with
      | none => pure none
      | some o =>
          if ret ≥ 0 then do
            let mask ← onErrno (copySet o.saMask koact.saMask)
            pure (some {
              saHandler := koact.kSaHandler
              saMask := mask
              saFlags := koact.saFlags.setWidth 32
              saRestorer := koact.saRestorer })
          else pure (some o)
    let ret ← wrapperRetval ret
    pure (ret, oldact)

def signal (stack : Stack) (signum : Int) (handler : Handler) : Sig Handler :=
  if handler = SIG_ERR ∨ signum ≤ 0 ∨ signum ≥ NSIG then onErrno (invalid SIG_ERR)
  else do
    let emptied ← onErrno (sigemptyset (some stack.act.saMask))
    let added ← onErrno (sigaddset emptied.2 signum)
    let act : Sigaction := {
      saHandler := handler
      saMask := added.2.getD 0
      saFlags := 0 ||| SA_RESTART
      saRestorer := stack.act.saRestorer }
    let (ret, oldact) ← sigaction sysRtSigreturn stack signum (some act) (some stack.oldact)
    if ret < 0 then pure SIG_ERR else pure (oldact.getD stack.oldact).saHandler

/-! ## Dispositions -/

/-- **The disposition of a signal**: its handler, its mask without `SIGKILL` and `SIGSTOP`, and its flags
    without `SA_RESTORER`. -/
@[ext] structure Disposition where
  handler : Handler
  mask : SigSet
  flags : BitVec 32
  deriving DecidableEq

/-- The mask and the flags as they are compared. -/
def Disposition.of (handler : Handler) (mask : SigSet) (flags : BitVec 32) : Disposition where
  handler := handler
  mask := mask &&& ~~~unblockable
  flags := flags &&& ~~~SA_RESTORER

def Sigaction.disposition (a : Sigaction) : Disposition := .of a.saHandler a.saMask a.saFlags

def KernelSigaction.disposition (k : KernelSigaction) : Disposition :=
  .of k.kSaHandler k.saMask (k.saFlags.setWidth 32)

def Process.dispositions (p : Process) (signum : Int) : Disposition := (p.table signum).disposition

/-- A call of one of the two functions, with non-null pointers. -/
inductive SigCall
  | signal (stack : Stack) (signum : Int) (handler : Handler)
  | sigaction (stack : Stack) (signum : Int) (act oldact : Sigaction)

namespace SigCall

def signum : SigCall → Int
  | .signal _ n _ => n
  | .sigaction _ n _ _ => n

/-- **What a call installs** if it succeeds: for `signal`, the handler with its own signal in the mask, and
    `SA_RESTART`. -/
def installs : SigCall → Disposition
  | .signal _ n h => .of h (1#64 <<< (n - 1).toNat) SA_RESTART
  | .sigaction _ _ act _ => act.disposition

/-- What the program gets back: the result of `signal`, or that of `sigaction` and the record at
    `oldact`. -/
inductive Reply
  | handler (h : Handler)
  | action (ret : Int) (oldact : Sigaction)

def run : SigCall → Sig Reply
  | .signal stack n h => do
      let r ← Libmini.signal sysRtSigreturn stack n h
      pure (.handler r)
  | .sigaction stack n act oldact => do
      let (ret, old) ← Libmini.sigaction sysRtSigreturn stack n (some act) (some oldact)
      pure (.action ret (old.getD oldact))

/-- The calls one after the other, and a log of what the successful ones installed: those that leave
    `errno` at zero. -/
def runAll : List SigCall → Sig (List (Int × Disposition))
  | [] => pure []
  | c :: cs => do
      let _ ← c.run sysRtSigreturn
      let p ← get
      let log ← runAll cs
      pure (if p.errno = 0 then (c.signum, c.installs) :: log else log)

/-- The reply reports `D` as the old disposition; `signal` reports its handler only. -/
def Reply.Reports (D : Disposition) : Reply → Prop
  | .handler h => h = D.handler
  | .action ret oldact => ret = 0 ∧ oldact.disposition = D

/-- The reply is that of a failed call, which has left `*oldact` alone. -/
def Reply.Failed (r : Reply) : SigCall → Prop
  | .signal _ _ _ => r = .handler SIG_ERR
  | .sigaction _ _ _ oldact => r = .action (-1) oldact

/-- **A call that the library or the kernel refuses.** -/
def Refused : SigCall → Prop
  | .signal _ n h => h = SIG_ERR ∨ n ≤ 0 ∨ n ≥ NSIG ∨ n = SIGKILL ∨ n = SIGSTOP
  | .sigaction _ n _ _ => n ≤ 0 ∨ n ≥ NSIG ∨ n = SIGKILL ∨ n = SIGSTOP

end SigCall

/-! ## One call -/

variable {sysRtSigreturn : BitVec 64} {stack : Stack} {signum : Int} {act oldact : Sigaction}
variable {handler : Handler} {p : Process}

/-- `_memcpy` of a whole object. -/
theorem memcpy_all {dst src : List (BitVec 8)} (h : dst.length = src.length) :
    memcpy src.length dst src = .ok src := by
  induction src generalizing dst with
  | nil =>
      rw [List.eq_nil_of_length_eq_zero h]
      rfl
  | cons c src ih =>
      cases dst with
      | nil => cases h
      | cons d dst =>
          rw [List.length_cons, memcpy, ih (Nat.succ.inj h)]
          rfl

theorem copySet_eq (dst src : SigSet) : copySet dst src = pure src := by
  have hcells : memcpy 8 (wordBytes dst) (wordBytes src) = .ok (wordBytes src) := by
    have h := @memcpy_all (wordBytes dst) (wordBytes src) (by simp)
    rwa [wordBytes_length] at h
  unfold copySet
  rw [hcells]
  show (pure (word (wordBytes src)) : Lib SigSet) = _
  rw [word_wordBytes]

theorem onErrno_pure {α : Type} (a : α) : onErrno (pure a) = pure a := rfl

/-- What the library makes of the record that the program passes. -/
def installed (sysRtSigreturn : BitVec 64) (act : Sigaction) : KernelSigaction where
  kSaHandler := act.saHandler
  saFlags := (act.saFlags ||| SA_RESTORER).setWidth 64
  saRestorer := sysRtSigreturn
  saMask := act.saMask &&& ~~~unblockable

/-- What it makes of the record that the kernel returns. -/
def reported (k : KernelSigaction) : Sigaction where
  saHandler := k.kSaHandler
  saMask := k.saMask
  saFlags := k.saFlags.setWidth 32
  saRestorer := k.saRestorer

/-- A mask cut down once is cut down. -/
theorem diff_diff {w : Nat} (x y : BitVec w) : x &&& ~~~y &&& ~~~y = x &&& ~~~y := by
  rw [BitVec.and_assoc, BitVec.and_self]

theorem installed_disposition (act : Sigaction) :
    (installed sysRtSigreturn act).disposition = act.disposition := by
  have hflags : (((act.saFlags ||| SA_RESTORER).setWidth 64).setWidth 32 : BitVec 32)
      = act.saFlags ||| SA_RESTORER := BitVec.setWidth_setWidth_of_le _ (by decide)
  have hcut : (act.saFlags ||| SA_RESTORER) &&& ~~~SA_RESTORER = act.saFlags &&& ~~~SA_RESTORER := by
    apply BitVec.eq_of_getLsbD_eq
    intro i hi
    simp only [BitVec.getLsbD_and, BitVec.getLsbD_or, BitVec.getLsbD_not, hi, decide_true,
      Bool.true_and]
    cases act.saFlags.getLsbD i <;> cases SA_RESTORER.getLsbD i <;> rfl
  unfold KernelSigaction.disposition Sigaction.disposition Disposition.of installed
  rw [hflags, hcut, diff_diff]

theorem reported_disposition (k : KernelSigaction) : (reported k).disposition = k.disposition := rfl

/-- What the kernel keeps of a record. -/
def kept (k : KernelSigaction) : KernelSigaction := { k with saMask := k.saMask &&& ~~~unblockable }

theorem rtSigaction_served (hpos : 1 ≤ signum) (hlt : signum < NSIG) (hkill : signum ≠ SIGKILL)
    (hstop : signum ≠ SIGSTOP) (k : KernelSigaction) :
    rtSigaction signum k 8 p
      = .ok ((0, some (p.table signum)), { p with table := Function.update p.table signum (kept k) }) := by
  have hlt' : signum < 64 := hlt
  refine if_neg ?_
  rintro (h | h | h | h | h)
  · exact h rfl
  · omega
  · omega
  · exact hkill h
  · exact hstop h

theorem rtSigaction_unchangeable (h : signum = SIGKILL ∨ signum = SIGSTOP) (k : KernelSigaction) :
    rtSigaction signum k 8 p = .ok ((-EINVAL, none), p) := by
  refine if_pos ?_
  exact Or.inr (Or.inr (Or.inr h))

/-- The record whose address the kernel gets. It is a local variable, filled only when there is an `act`. -/
def passed (sysRtSigreturn : BitVec 64) (stack : Stack) : Option Sigaction → KernelSigaction
  | none => stack.kact
  | some act => {
      kSaHandler := act.saHandler
      saFlags := (act.saFlags ||| SA_RESTORER).setWidth 64
      saRestorer := sysRtSigreturn
      saMask := act.saMask }

/-- A number in range gets to the kernel. -/
theorem sigaction_called (hpos : 1 ≤ signum) (hlt : signum < NSIG) (act : Option Sigaction) :
    sigaction sysRtSigreturn stack signum act (some oldact)
      = rtSigaction signum (passed sysRtSigreturn stack act) 8 >>= fun r =>
          if r.1 ≥ 0 then wrapperRetval r.1 >>= fun ret => pure (ret, some (reported (r.2.getD stack.koact)))
          else wrapperRetval r.1 >>= fun ret => pure (ret, some oldact) := by
  unfold sigaction
  rw [if_neg (by omega)]
  cases act with
  | none =>
      simp only [copySet_eq, onErrno_pure, pure_bind]
      rfl
  | some act =>
      simp only [copySet_eq, onErrno_pure, pure_bind]
      rfl

/-- **`sigaction` on a signal that may be changed.** -/
theorem sigaction_accepted (hpos : 1 ≤ signum) (hlt : signum < NSIG) (hkill : signum ≠ SIGKILL)
    (hstop : signum ≠ SIGSTOP) (act : Option Sigaction) :
    sigaction sysRtSigreturn stack signum act (some oldact) p
      = .ok ((0, some (reported (p.table signum))),
          ⟨0, Function.update p.table signum (kept (passed sysRtSigreturn stack act))⟩) := by
  rw [sigaction_called hpos hlt]
  show Except.bind (rtSigaction signum _ 8 p) _ = _
  rw [rtSigaction_served hpos hlt hkill hstop]
  rfl

/-- **`sigaction` on any other number.** -/
theorem sigaction_refused (h : signum ≤ 0 ∨ signum ≥ NSIG ∨ signum = SIGKILL ∨ signum = SIGSTOP)
    (act : Option Sigaction) :
    sigaction sysRtSigreturn stack signum act (some oldact) p
      = .ok ((-1, some oldact), { p with errno := EINVAL }) := by
  by_cases hrange : signum ≤ 0 ∨ signum ≥ NSIG
  · unfold sigaction
    rw [if_pos hrange]
    rfl
  · have hwhich : signum = SIGKILL ∨ signum = SIGSTOP := by
      rcases h with h | h | h
      · exact absurd (Or.inl h) hrange
      · exact absurd (Or.inr h) hrange
      · exact h
    rw [sigaction_called (by omega) (by omega)]
    show Except.bind (rtSigaction signum _ 8 p) _ = _
    rw [rtSigaction_unchangeable hwhich]
    rfl

/-- **`signal` is a `sigaction`** with the handler, its own signal as the mask, and `SA_RESTART`. -/
theorem signal_sigaction (herr : handler ≠ SIG_ERR) (hpos : 1 ≤ signum) (hlt : signum < NSIG) :
    signal sysRtSigreturn stack signum handler p
      = (sigaction sysRtSigreturn stack signum
          (some ⟨handler, 1#64 <<< (signum - 1).toNat, SA_RESTART, stack.act.saRestorer⟩)
          (some stack.oldact) p).map fun r =>
            (if r.1.1 < 0 then SIG_ERR else (r.1.2.getD stack.oldact).saHandler, r.2) := by
  have hlt' : signum < 64 := hlt
  -- the mask is emptied before the signal goes into it, so what was on the stack does not matter
  have hempty : sigemptyset (some stack.act.saMask) = pure (0, some 0#64) := by
    funext errno
    rw [sigemptyset, fill_some, show word (List.replicate 8 0x0) = 0#64 by decide]
    rfl
  have hadd : sigaddset (some 0#64) signum = pure (0, some (1#64 <<< (signum - 1).toNat)) := by
    simp only [sigaddset, if_neg (show ¬ signum ≥ NSIG by omega), shifted,
      if_pos (show 0 ≤ signum - 1 ∧ signum - 1 < 64 by omega), pure_bind, BitVec.zero_or]
  have hflags : 0 ||| SA_RESTART = SA_RESTART := by decide
  unfold signal
  rw [if_neg (by
    rintro (h | h | h)
    · exact herr h
    · omega
    · omega)]
  simp only [hempty, hadd, hflags, onErrno_pure, pure_bind, Option.getD_some]
  show Except.bind (sigaction _ _ _ _ _ p) _ = Except.map _ _
  cases sigaction sysRtSigreturn stack signum
      (some ⟨handler, 1#64 <<< (signum - 1).toNat, SA_RESTART, stack.act.saRestorer⟩)
      (some stack.oldact) p with
  | error e => rfl
  | ok r =>
      by_cases hret : r.1.1 < 0
      · simp only [Except.bind, Except.map, if_pos hret]
        rfl
      · simp only [Except.bind, Except.map, if_neg hret]
        rfl

namespace SigCall

/-- **A successful call** replaces one disposition and reports the one it has replaced. -/
theorem run_accepted {c : SigCall} (h : ¬ c.Refused) (p : Process) :
    ∃ r k, c.run sysRtSigreturn p = .ok (r, ⟨0, Function.update p.table c.signum k⟩) ∧
      k.disposition = c.installs ∧ r.Reports (p.dispositions c.signum) := by
  cases c with
  | signal stack n handler =>
      simp only [Refused, not_or] at h
      obtain ⟨herr, hpos, hlt, hkill, hstop⟩ := h
      have hpos' : 1 ≤ n := by omega
      have hlt' : n < NSIG := by omega
      refine ⟨.handler (p.table n).kSaHandler, installed sysRtSigreturn
        ⟨handler, 1#64 <<< (n - 1).toNat, SA_RESTART, stack.act.saRestorer⟩, ?_, ?_, rfl⟩
      · show Except.bind (Libmini.signal sysRtSigreturn stack n handler p) _ = _
        rw [signal_sigaction herr hpos' hlt', sigaction_accepted hpos' hlt' hkill hstop]
        rfl
      · rw [installed_disposition]
        rfl
  | sigaction stack n act oldact =>
      simp only [Refused, not_or] at h
      obtain ⟨hpos, hlt, hkill, hstop⟩ := h
      refine ⟨.action 0 (reported (p.table n)), installed sysRtSigreturn act, ?_, ?_, rfl, ?_⟩
      · show Except.bind (Libmini.sigaction sysRtSigreturn stack n (some act) (some oldact) p) _ = _
        rw [sigaction_accepted (by omega) (by omega) hkill hstop]
        rfl
      · exact installed_disposition act
      · exact reported_disposition (p.table n)

/-- **A failing call** sets `errno` and does nothing else. -/
theorem run_refused {c : SigCall} (h : c.Refused) (p : Process) :
    ∃ r, c.run sysRtSigreturn p = .ok (r, { p with errno := EINVAL }) ∧ r.Failed c := by
  cases c with
  | signal stack n handler =>
      refine ⟨.handler SIG_ERR, ?_, rfl⟩
      show Except.bind (Libmini.signal sysRtSigreturn stack n handler p) _ = _
      by_cases hearly : handler = SIG_ERR ∨ n ≤ 0 ∨ n ≥ NSIG
      · rw [Libmini.signal, if_pos hearly]
        rfl
      · -- only the kernel is left to refuse it
        simp only [not_or] at hearly
        obtain ⟨herr, hpos, hlt⟩ := hearly
        rw [signal_sigaction herr (by omega) (by omega)]
        rw [sigaction_refused (h.resolve_left herr)]
        rfl
  | sigaction stack n act oldact =>
      refine ⟨.action (-1) oldact, ?_, rfl⟩
      show Except.bind (Libmini.sigaction sysRtSigreturn stack n (some act) (some oldact) p) _ = _
      rw [sigaction_refused h]
      rfl

end SigCall

/-! ## Runs -/

theorem dispositions_update (errno : Int) (n : Int) (k : KernelSigaction) :
    Process.dispositions ⟨errno, Function.update p.table n k⟩
      = Function.update p.dispositions n k.disposition := by
  funext m
  show (Function.update p.table n k m).disposition = _
  by_cases hm : m = n
  · subst hm
    rw [Function.update_self, Function.update_self]
  · rw [Function.update_of_ne hm, Function.update_of_ne hm]
    rfl

/-- **A run of calls** leaves what the successful ones have written. -/
theorem runAll_dispositions (cs : List SigCall) (p : Process) :
    ∃ log q, SigCall.runAll sysRtSigreturn cs p = .ok (log, q) ∧
      q.dispositions = applyAll p.dispositions log := by
  induction cs generalizing p with
  | nil => exact ⟨[], p, rfl, rfl⟩
  | cons c cs ih =>
      by_cases hrefused : c.Refused
      · obtain ⟨r, hrun, -⟩ := SigCall.run_refused hrefused p
        obtain ⟨log, q, hrest, hq⟩ := ih { p with errno := EINVAL }
        refine ⟨log, q, ?_, hq⟩
        show Except.bind (c.run sysRtSigreturn p) _ = _
        rw [hrun]
        show Except.bind (SigCall.runAll sysRtSigreturn cs _) _ = _
        rw [hrest]
        rfl
      · obtain ⟨r, k, hrun, hk, -⟩ := SigCall.run_accepted hrefused p
        obtain ⟨log, q, hrest, hq⟩ := ih ⟨0, Function.update p.table c.signum k⟩
        refine ⟨(c.signum, c.installs) :: log, q, ?_, ?_⟩
        · show Except.bind (c.run sysRtSigreturn p) _ = _
          rw [hrun]
          show Except.bind (SigCall.runAll sysRtSigreturn cs _) _ = _
          rw [hrest]
          rfl
        · rw [hq, dispositions_update, hk]
          rfl

/-- **The disposition store.** After any calls of `signal` and `sigaction` a successful call reports what the
    last successful one on its signal has installed, or the initial disposition, and installs its own without
    touching those of other signals; a `sigaction` given the record it reports, whenever that is, installs
    that disposition again; and a failing call changes nothing but `errno`. -/
theorem disposition_store (sysRtSigreturn : BitVec 64) (p₀ : Process) (cs : List SigCall) (c : SigCall) :
    ∃ log p r p', SigCall.runAll sysRtSigreturn cs p₀ = .ok (log, p) ∧
      c.run sysRtSigreturn p = .ok (r, p') ∧
      (p'.errno = 0 → r.Reports (lastWrite p₀.dispositions log c.signum) ∧
        p'.dispositions = Function.update p.dispositions c.signum c.installs) ∧
      (p'.errno = 0 → ∀ reported, r = .action 0 reported → ∀ (q : Process) (stack : Stack) (oldact : Sigaction),
        ∃ r' q', (SigCall.sigaction stack c.signum reported oldact).run sysRtSigreturn q = .ok (r', q') ∧
          q'.errno = 0 ∧ q'.dispositions c.signum = p.dispositions c.signum) ∧
      (p'.errno ≠ 0 → r.Failed c ∧ p'.table = p.table) := by
  obtain ⟨log, p, hrun, hp⟩ := runAll_dispositions cs p₀
  have hlast : p.dispositions = lastWrite p₀.dispositions log := hp.trans applyAll_eq
  by_cases hrefused : c.Refused
  · obtain ⟨r, hc, hfailed⟩ := SigCall.run_refused hrefused p
    have hset : EINVAL ≠ 0 := by decide
    refine ⟨log, p, r, _, hrun, hc, ?_, ?_, fun _ => ⟨hfailed, rfl⟩⟩
    · intro herrno
      exact absurd herrno hset
    · intro herrno
      exact absurd herrno hset
  · obtain ⟨r, k, hc, hk, hreports⟩ :=
      SigCall.run_accepted hrefused p
    refine ⟨log, p, r, _, hrun, hc, ?_, ?_, fun herrno => absurd rfl herrno⟩
    · intro _
      rw [← hlast, dispositions_update, hk]
      exact ⟨hreports, rfl⟩
    · intro _ reported hr q stack oldact
      subst hr
      -- a signal that could be changed once can be changed again
      have hagain : ¬ (SigCall.sigaction stack c.signum reported oldact).Refused := by
        cases c with
        | signal stack' n handler => exact fun h => hrefused (Or.inr h)
        | sigaction stack' n act old => exact hrefused
      obtain ⟨r', k', hrun', hk', -⟩ :=
        SigCall.run_accepted hagain q
      refine ⟨r', _, hrun', rfl, ?_⟩
      rw [dispositions_update, hk']
      show Function.update q.dispositions c.signum reported.disposition c.signum = _
      rw [Function.update_self]
      exact hreports.2

end AdvUnix.Libmini
