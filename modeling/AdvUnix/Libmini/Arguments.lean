import AdvUnix.Libmini.Signal

/-!
# `Libmini.Arguments` — a null `act`, and numbers that are no signals

`sigaction` gives the kernel the address of its local record also when there is no `act` to copy into it, so a
query installs what happens to be there (`sigaction_null_queries`). The set functions test a signal number from
above only, `sigaction` and `signal` from both sides (`signum_checked_iff`).
-/

namespace AdvUnix.Libmini

open ByteStore WordSet

variable (sysRtSigreturn : BitVec 64)

/-! ## `sigaction` with a null `act` -/

def Sigaction.zero : Sigaction := ⟨0, 0, 0, 0⟩
def KernelSigaction.zero : KernelSigaction := ⟨0, 0, 0, 0⟩

/-- A cleared stack, and a process all of whose dispositions are the default one. -/
def Stack.zero : Stack := ⟨.zero, .zero, .zero, .zero⟩
def Process.zero : Process := ⟨0, fun _ => .zero⟩

/-- **A query**: the call succeeds, the kernel's table is as before, and `*oldact` has the handler, the mask and
    the flags of the signal. -/
def Queries (stack : Stack) (signum : Int) (oldact : Sigaction) (p : Process) : Prop :=
  ∃ o q, sigaction sysRtSigreturn stack signum none (some oldact) p = .ok ((0, some o), q) ∧
    q.table = p.table ∧ o.saHandler = (p.table signum).kSaHandler ∧ o.saMask = (p.table signum).saMask ∧
    o.saFlags = (p.table signum).saFlags.setWidth 32

/-- **When a null `act` only queries**: for a signal that may be changed, when what the stack holds is, but for
    `SIGKILL` and `SIGSTOP` in the mask, the record that the kernel has. -/
theorem sigaction_null_queries (stack : Stack) (n : Signum) (oldact : Sigaction) (p : Process) :
    Queries sysRtSigreturn stack n.val oldact p ↔
      n.val ≠ SIGKILL ∧ n.val ≠ SIGSTOP ∧ kept stack.kact = p.table n.val := by
  by_cases hunchangeable : n.val = SIGKILL ∨ n.val = SIGSTOP
  · -- the kernel sees a record, so it does not take the call for a query
    have hrefused := @sigaction_refused sysRtSigreturn stack n.val oldact p (Or.inr (Or.inr hunchangeable)) none
    constructor
    · rintro ⟨o, q, hcall, -⟩
      rw [hrefused] at hcall
      cases hcall
    · rintro ⟨hkill, hstop, -⟩
      exact absurd hunchangeable (not_or.mpr ⟨hkill, hstop⟩)
  · obtain ⟨hkill, hstop⟩ := not_or.mp hunchangeable
    have haccepted := @sigaction_accepted sysRtSigreturn stack n.val oldact p n.pos n.lt hkill hstop none
    constructor
    · rintro ⟨o, q, hcall, htable, -⟩
      rw [haccepted] at hcall
      cases hcall
      exact ⟨hkill, hstop, Function.update_eq_self_iff.mp htable⟩
    · rintro ⟨-, -, hsame⟩
      exact ⟨_, _, haccepted, Function.update_eq_self_iff.mpr hsame, rfl, rfl, rfl⟩

/-- Another handler on the stack than the kernel has. -/
theorem sigaction_null_installs : ¬ ∀ (stack : Stack) (n : Signum) (oldact : Sigaction) (p : Process),
    Queries 0 stack n.val oldact p := by
  intro h
  obtain ⟨o, q, hcall, htable, -⟩ := h { Stack.zero with kact := { KernelSigaction.zero with kSaHandler := 0x1234 } }
    ⟨2, by decide, by decide⟩ .zero .zero
  cases hcall
  have hhandler := congrArg KernelSigaction.kSaHandler (congrFun htable 2)
  exact absurd hhandler (by decide)

/-! ## Numbers that are no signals -/

/-- The set functions reject a number: `-1` with `EINVAL`, and the set as it was. -/
def Rejected (signum : Int) : Prop :=
  ∀ (s : SigSet) (errno : Int),
    sigaddset (some s) signum errno = .ok ((-1, some s), EINVAL) ∧
    sigdelset (some s) signum errno = .ok ((-1, some s), EINVAL) ∧
    sigismember (some s) signum errno = .ok (-1, EINVAL)

/-- They accept it. -/
def Accepted (signum : Int) : Prop :=
  ∀ (s : SigSet) (errno : Int),
    (∃ t, sigaddset (some s) signum errno = .ok ((0, some t), errno)) ∧
    (∃ t, sigdelset (some s) signum errno = .ok ((0, some t), errno)) ∧
    ∃ r, sigismember (some s) signum errno = .ok (r, errno) ∧ (r = 0 ∨ r = 1)

/-- They do not shift by a negative count, or by the width of the set or more. -/
def ShiftsDefined (signum : Int) : Prop :=
  ∀ (s : SigSet) (errno : Int),
    sigaddset (some s) signum errno ≠ .error .shift ∧
    sigdelset (some s) signum errno ≠ .error .shift ∧
    sigismember (some s) signum errno ≠ .error .shift

/-- `sigaction` accepts the number: its calls succeed. -/
def SigactionAccepts (signum : Int) : Prop :=
  ∀ (stack : Stack) (act oldact : Sigaction) (p : Process), ∃ o q,
    sigaction sysRtSigreturn stack signum (some act) (some oldact) p = .ok ((0, some o), q)

/-- `signal` accepts the number: its calls with a handler leave no error. -/
def SignalAccepts (signum : Int) : Prop :=
  ∀ (stack : Stack) (handler : Handler) (p : Process), handler ≠ SIG_ERR → ∃ h q,
    signal sysRtSigreturn stack signum handler p = .ok (h, q) ∧ q.errno = 0

/-- **A number that is checked everywhere.** No set function shifts by it when it must not; they reject it when it
    is no signal; and they accept it exactly when `sigaction` and `signal` do. The library lets two more signals
    pass, whose disposition the kernel itself does not let anyone change. -/
structure SignumChecked (signum : Int) : Prop where
  shifts : ShiftsDefined signum
  outside : ¬ (1 ≤ signum ∧ signum < NSIG) → Rejected signum
  sigaction : signum ≠ SIGKILL → signum ≠ SIGSTOP →
    (Accepted signum ↔ SigactionAccepts sysRtSigreturn signum)
  signal : signum ≠ SIGKILL → signum ≠ SIGSTOP →
    (Accepted signum ↔ SignalAccepts sysRtSigreturn signum)
  unchangeable : signum = SIGKILL ∨ signum = SIGSTOP → Accepted signum ∧
    ∀ (k : KernelSigaction) (p : Process), rtSigaction signum k 8 p = .ok ((-EINVAL, none), p)

variable {sysRtSigreturn : BitVec 64} {signum : Int}

theorem rejected_above (h : signum ≥ NSIG) : Rejected signum := by
  intro s errno
  simp only [sigaddset, sigdelset, sigismember, if_pos h]
  exact ⟨rfl, rfl, rfl⟩

theorem accepted_inside (n : Signum) : Accepted n.val := by
  intro s errno
  obtain ⟨t, hadd, -⟩ := sigaddset_members s n errno
  obtain ⟨u, hdel, -⟩ := sigdelset_members s n errno
  refine ⟨⟨t, hadd⟩, ⟨u, hdel⟩, _, sigismember_members s n errno, ?_⟩
  split
  · exact Or.inr rfl
  · exact Or.inl rfl

/-- A number below the signals gets to the shift. -/
theorem shift_below (h : signum ≤ 0) (s : SigSet) (errno : Int) :
    sigaddset (some s) signum errno = .error .shift := by
  have hnot : ¬ signum ≥ NSIG := by
    unfold NSIG
    omega
  have hshift : ¬ (0 ≤ signum - 1 ∧ signum - 1 < 64) := by omega
  simp only [sigaddset, if_neg hnot, shifted, if_neg hshift]
  rfl

theorem Rejected.not_accepted (h : Rejected signum) : ¬ Accepted signum := by
  intro haccepted
  obtain ⟨⟨t, hadd⟩, -⟩ := haccepted 0 0
  rw [(h 0 0).1] at hadd
  cases hadd

theorem sigaction_accepts (n : Signum) (hkill : n.val ≠ SIGKILL) (hstop : n.val ≠ SIGSTOP) :
    SigactionAccepts sysRtSigreturn n.val := by
  intro stack act oldact p
  exact ⟨_, _, sigaction_accepted n.pos n.lt hkill hstop _⟩

theorem signal_accepts (n : Signum) (hkill : n.val ≠ SIGKILL) (hstop : n.val ≠ SIGSTOP) :
    SignalAccepts sysRtSigreturn n.val := by
  intro stack handler p herr
  rw [signal_sigaction herr n.pos n.lt, sigaction_accepted n.pos n.lt hkill hstop]
  exact ⟨_, _, rfl, rfl⟩

theorem not_sigactionAccepts (h : signum ≥ NSIG) : ¬ SigactionAccepts sysRtSigreturn signum := by
  intro haccepts
  obtain ⟨o, q, hcall⟩ := haccepts .zero .zero .zero .zero
  rw [sigaction_refused (Or.inr (Or.inl h))] at hcall
  cases hcall

theorem not_signalAccepts (h : signum ≥ NSIG) : ¬ SignalAccepts sysRtSigreturn signum := by
  intro haccepts
  obtain ⟨r, q, hcall, herrno⟩ := haccepts .zero 0 .zero (by decide)
  rw [signal, if_pos (Or.inr (Or.inr h))] at hcall
  cases hcall
  exact absurd herrno (by decide)

/-- **Which numbers are checked everywhere**: those from one on. -/
theorem signum_checked_iff (sysRtSigreturn : BitVec 64) (signum : Int) :
    SignumChecked sysRtSigreturn signum ↔ 1 ≤ signum := by
  constructor
  · intro h
    by_contra hbelow
    have hrejected := h.outside fun hrange => hbelow hrange.1
    have hadd := (hrejected 0 0).1
    rw [shift_below (by omega)] at hadd
    cases hadd
  · intro hpos
    by_cases hlt : signum < NSIG
    · let n : Signum := ⟨signum, hpos, hlt⟩
      have haccepted : Accepted signum := accepted_inside n
      refine ⟨?_, fun hout => absurd ⟨hpos, hlt⟩ hout, fun hkill hstop => ?_, fun hkill hstop => ?_,
        fun hwhich => ⟨haccepted, fun k p => rtSigaction_unchangeable hwhich k⟩⟩
      · intro s errno
        obtain ⟨⟨t, hadd⟩, ⟨u, hdel⟩, r, hmem, -⟩ := haccepted s errno
        simp [hadd, hdel, hmem]
      · exact iff_of_true haccepted (sigaction_accepts n hkill hstop)
      · exact iff_of_true haccepted (signal_accepts n hkill hstop)
    · have habove : signum ≥ NSIG := Int.not_lt.mp hlt
      have hrejected := rejected_above habove
      refine ⟨?_, fun _ => hrejected, fun _ _ => ?_, fun _ _ => ?_, ?_⟩
      · intro s errno
        obtain ⟨hadd, hdel, hmem⟩ := hrejected s errno
        simp [hadd, hdel, hmem]
      · exact iff_of_false hrejected.not_accepted (not_sigactionAccepts habove)
      · exact iff_of_false hrejected.not_accepted (not_signalAccepts habove)
      · rintro (rfl | rfl)
        · exact absurd habove (by decide)
        · exact absurd habove (by decide)

/-- Zero is shifted by. -/
theorem signum_zero_unchecked : ¬ ∀ signum : Int, SignumChecked 0 signum := by
  intro h
  have hadd := ((h 0).shifts 0 0).1
  exact hadd rfl

end AdvUnix.Libmini
