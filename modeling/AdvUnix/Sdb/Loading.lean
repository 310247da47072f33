import AdvUnix.Elf.Correct
import AdvUnix.Elf.Safety
import AdvUnix.Sdb.Sample

/-!
# `Sdb.Loading` — loading a program into the debugger

What the first `load` of a session leaves of a well-formed file.
-/

namespace AdvUnix.Sdb

open Elf

variable {ω : Type} {H : Host ω}

/-- **Loader correctness.** On a well-formed file the first `load` leaves the string tables of the file,
    last section first, finds the section names where the file header says they are, and leaves `text` at
    the first section named `.text`, or unset. -/
theorem load_correct {path : String} {i : Inode} (hopen : H.openFile path = some i)
    (hwf : WellFormed (H.content i)) (hcalloc : ∀ n < 2 ^ 31, H.memory.calloc n = true) :
    ∃ s, load H Debugger.init path = .ok s ∧ s.state = .loaded ∧
      s.e.strtab = stringTables (H.content i) ∧
      findTab s.e = some (node (H.content i) (ehdrOf (H.content i)).shstrndx) ∧
      s.text = (textSection (H.content i)).getD Shdr.zero := by
  obtain ⟨e, helf⟩ := hwf.elfOpen_eq Handle.init
  obtain ⟨e', hload, htabs, hfind⟩ := hwf.load_eq hcalloc (elfOpen_opened helf)
  refine ⟨({ Debugger.init with
    e := e'
    state := .loaded
    program := path
    text := (textSection (H.content i)).getD Shdr.zero }).say (.loaded path e'.entry), ?_, rfl, htabs, hfind, rfl⟩
  unfold load
  rw [if_neg (show (Debugger.init : Debugger ω).state ≠ .loaded from State.noConfusion), hopen, Option.bind_some,
    show (Debugger.init : Debugger ω).e = Handle.init from rfl, helf]
  simp only [hload]
  rfl

/-- A site where every path is a file of three sections. -/
def sectionsHost : Host (List Bool) :=
  { sampleHost [] 0 with content := fun _ => sampleElf, memory := sampleMemory }

/-- The section after the null one is `.text`; the name table, whose own name is the end of that name, is
    the only string table. -/
theorem load_correct_sample : ∃ s, load sectionsHost Debugger.init "./a" = .ok s ∧
    s.e.strtab = [node sampleElf 2] ∧ s.text = shdrAt sampleElf 1 := by
  have hwf : WellFormed sampleElf :=
    { magic := by decide +kernel
      whole := by decide +kernel
      phSmall := by decide +kernel
      shentsize := by decide +kernel
      tableInside := by decide +kernel
      strtabsInside := by decide +kernel
      shstrndx := by decide +kernel
      shstrtab := by decide +kernel
      named := by decide +kernel }
  have hcalloc : ∀ n < 2 ^ 31, sampleMemory.calloc n = true := fun n hn => decide_eq_true hn
  obtain ⟨s, hload, -, htabs, -, htext⟩ :=
    load_correct (show sectionsHost.openFile "./a" = some 0 from rfl) hwf hcalloc
  refine ⟨s, hload, htabs.trans ?_, htext.trans ?_⟩
  · change stringTables sampleElf = [node sampleElf 2]
    decide +kernel
  · change (textSection sampleElf).getD Shdr.zero = shdrAt sampleElf 1
    decide +kernel

end AdvUnix.Sdb
