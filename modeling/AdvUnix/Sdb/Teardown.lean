import AdvUnix.Elf.Ownership
import AdvUnix.Sdb.Ids
import AdvUnix.Sdb.Sample

/-!
# `Sdb.Teardown` — what a session leaves behind

`quit_exit` and `error_quit` both call `elf_close`, at the end of `main`'s loop or in the middle of a command. The
handle they close has been through the `load`s of the session, so the accounts of `Elf.Ownership` are the session's:
whatever has been loaded, and however the session ends, nothing is given back twice, and the session leaves nothing
behind exactly when it has opened one file at most and read no string table (`teardown`).
-/

namespace AdvUnix.Sdb

open Debugger Elf

variable {ω : Type} {H : Host ω} {s s' : Debugger ω} {a : Accounted}

/-- A command opens a file when it is a `load` that finds one. -/
def opens (H : Host ω) (s : Debugger ω) : Command → Bool
  | .load f => s.state ≠ .loaded && (H.openFile f).isSome
  | _ => false

/-- How many files a session opens, the last command's included. -/
def opened (H : Host ω) : Debugger ω → List Command → Nat
  | _, [] => 0
  | s, c :: cs =>
      (opens H s c).toNat +
        match exec H s c with
        | .ok s' => opened H s' cs
        | .error _ => 0

/-- **A command on the accounts.** -/
theorem exec_accounted {n : Nat} {cmd : Command} (ha : Loads H.memory n a) (he : a.e = s.e)
    (h : exec H s cmd = .ok s') : ∃ a', Loads H.memory (n + (opens H s cmd).toNat) a' ∧ a'.e = s'.e := by
  by_cases hload : ∃ f, cmd = .load f
  · obtain ⟨f, rfl⟩ := hload
    by_cases hstate : s.state = .loaded
    · rw [show exec H s (.load f) = _ from if_pos hstate] at h
      cases h
      refine ⟨a, ?_, he⟩
      simpa [opens, hstate] using ha
    · obtain ⟨i, e, e', text, hi, hopen, hread, rfl⟩ := load_accepted hstate h
      have hcount : opens H s (.load f) = true := by simp [opens, hstate, hi]
      -- a `load` that succeeds is one of the accounts, whose handle is the loader's
      have haccount := elfLoadOwned_handle H.memory { opening a with e := e }
      rw [show ({ opening a with e := e } : Accounted).e = e from rfl, load_elfLoad hread] at haccount
      cases howned : elfLoadOwned H.memory { opening a with e := e } with
      | error x =>
          rw [howned] at haccount
          cases haccount
      | ok a' =>
          rw [howned] at haccount
          refine ⟨a', ?_, Except.ok.inj haccount⟩
          rw [hcount]
          exact .load ha (he ▸ hopen) howned
  · have hnot : ∀ f, cmd ≠ .load f := fun f hf => hload ⟨f, hf⟩
    have hnone : opens H s cmd = false := by
      cases cmd with
      | load f => exact absurd rfl (hnot f)
      | _ => rfl
    refine ⟨a, ?_, he.trans (exec_handle hnot h).symm⟩
    rw [hnone]
    exact ha

/-- **A session on the accounts.** -/
theorem session_accounted {n : Nat} {cmds : List Command} (ha : Loads H.memory n a) (he : a.e = s.e)
    (h : execAll H s cmds = .ok s') : ∃ a', Loads H.memory (n + opened H s cmds) a' ∧ a'.e = s'.e := by
  induction cmds generalizing s n a with
  | nil =>
      cases h
      exact ⟨a, ha, he⟩
  | cons c cmds ih =>
      cases hc : exec H s c with
      | error e =>
          simp only [execAll, List.foldlM_cons, hc] at h
          cases h
      | ok s₁ =>
          rw [execAll_cons hc] at h
          obtain ⟨a₁, ha₁, he₁⟩ := exec_accounted ha he hc
          obtain ⟨a', ha', he'⟩ := ih ha₁ he₁ h
          refine ⟨a', ?_, he'⟩
          simp only [opened, hc]
          rwa [← Nat.add_assoc]

theorem opened_snoc {cmds : List Command} {c : Command} {msg : Halt} (h : execAll H s cmds = .ok s')
    (hc : exec H s' c = .error msg) : opened H s (cmds ++ [c]) = opened H s cmds + (opens H s' c).toNat := by
  induction cmds generalizing s with
  | nil =>
      cases h
      simp [opened, hc]
  | cons c₁ cmds ih =>
      cases hc₁ : exec H s c₁ with
      | error e =>
          simp only [execAll, List.foldlM_cons, hc₁] at h
          cases h
      | ok s₁ =>
          rw [execAll_cons hc₁] at h
          simp only [List.cons_append, opened, hc₁, ih h, Nat.add_assoc]

/-- **The command that ends a session** leaves the accounts alone, or has opened a file that is no ELF file. -/
theorem exec_closing {n : Nat} {cmd : Command} (ha : Loads H.memory n a) (he : a.e = s.e)
    (hend : exec H s cmd = .error .exit ∨ ∃ msg, exec H s cmd = .error (.quit msg)) :
    ∃ a', Closing H.memory (n + (opens H s cmd).toNat) a' ∧ a'.e = s.e := by
  cases hopens : opens H s cmd with
  | false => exact ⟨a, .between ha, he⟩
  | true =>
      cases cmd with
      | load f =>
          simp only [opens, Bool.and_eq_true, decide_eq_true_eq] at hopens
          obtain ⟨hstate, hfound⟩ := hopens
          obtain ⟨i, hi⟩ := Option.isSome_iff_exists.mp hfound
          have hrefused : elfOpen a.e (H.content i) = none := by
            rw [he]
            -- an ELF file would have been loaded, or its tables would have ended the program otherwise
            by_contra hsome
            obtain ⟨e, hopen⟩ := Option.ne_none_iff_exists'.mp hsome
            have hload : exec H s (.load f) = _ := if_neg hstate
            simp only [hi, Option.bind_some, hopen] at hload
            rw [hload] at hend
            cases hread : Elf.load H.memory e with
            | error x => simp [hread] at hend
            | ok r => simp [hread] at hend
          exact ⟨opening a, .refused ha hrefused, he⟩
      | _ => cases hopens

/-- **What a session leaves behind.** Whatever it has loaded, and however it ends, by `exit`, at the end of the input or
    by an error, `elf_close` gives back what the handle points to, nothing twice and nothing that it does not have;
    nothing is left exactly when the session has opened one file at most and read no string table. -/
theorem teardown (H : Host ω) (cmds : List Command) (c : Command) (s : Debugger ω)
    (hs : execAll H Debugger.init cmds = .ok s)
    (hend : exec H s c = .error .exit ∨ ∃ msg, exec H s c = .error (.quit msg)) :
    ∃ a g, Closing H.memory (opened H Debugger.init (cmds ++ [c])) a ∧ a.e = s.e ∧ elfClose a.p a.g = some g ∧
      (∀ r, r ∈ g.held ↔ r ∈ a.g.held ∧ r ∉ a.p.direct) ∧
      (g.held = [] ↔ opened H Debugger.init (cmds ++ [c]) ≤ 1 ∧ s.e.strtab = []) := by
  obtain ⟨a, ha, he⟩ := session_accounted .init rfl hs
  obtain ⟨a', ha', he'⟩ := exec_closing ha he hend
  have hcount : opened H Debugger.init (cmds ++ [c]) = opened H Debugger.init cmds + (opens H s c).toNat := by
    rcases hend with hexit | ⟨msg, hquit⟩
    · exact opened_snoc hs hexit
    · exact opened_snoc hs hquit
  rw [Nat.zero_add, ← hcount] at ha'
  obtain ⟨g, hclose, hheld, hnil⟩ := close_gives ha'
  exact ⟨a', g, ha', he', hclose, hheld, he' ▸ hnil⟩

/-- A program that is loaded again: the first stream and header are left. -/
theorem teardown_sample :
    ∃ a g, Closing (sampleHost nopText 9).memory 2 a ∧ elfClose a.p a.g = some g ∧ g.held ≠ [] := by
  obtain ⟨s, hs, -⟩ := ok_of_seen (f := fun s => s.points.length) (v := 0)
    (r := execAll (sampleHost nopText 9) Debugger.init [.load "./a", .start, .load "./a"]) rfl
  obtain ⟨a, g, ha, -, hclose, -, hnil⟩ := teardown (sampleHost nopText 9) _ .exit s hs (Or.inl rfl)
  refine ⟨a, g, ha, hclose, fun hheld => ?_⟩
  have hle : opened (sampleHost nopText 9) Debugger.init [.load "./a", .start, .load "./a", .exit] ≤ 1 :=
    (hnil.mp hheld).1
  exact absurd hle (by decide)

end AdvUnix.Sdb
