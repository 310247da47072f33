import AdvUnix.Logger.Transparent

/-!
# `Logger.Previews` — the data in the log

`read`, `fread`, `fwrite` and `write` log the first bytes of the data. Each has its own expression for the
number of bytes that it copies; here that number is compared with what the call transferred, and the logged
text with the bytes (`previews_iff`). `read` copies `-1` bytes after a failure, which is why it fails there.
-/

namespace AdvUnix.Logger

open Triple

variable {σ : Type} {L : Libc σ} {s : St σ}

/-- A call that logs data. -/
inductive DataCall
  | read (fd : Int) (count : Nat)
  | fread (size nmemb : Nat) (stream : Ptr)
  | fwrite (data : List Byte) (size nmemb : Nat) (stream : Ptr) (full : nmemb * size ≤ data.length)
  | write (fd : Int) (data : List Byte) (count : Nat)

def DataCall.call : DataCall → Call
  | .read fd count => .read fd count
  | .fread size nmemb stream => .fread size nmemb stream
  | .fwrite data size nmemb stream full => .fwrite data size nmemb stream full
  | .write fd data count => .write fd data count

/-- What a call transfers: the bytes at its pointer, and how many of them, none after a failure. What `write`
    transfers is what it is asked to. -/
structure Transfer where
  data : List Byte
  count : Nat

namespace DataCall

variable (L s)

/-- The result of the real `read`. -/
def readResult (fd : Int) (count : Nat) : Option (List Byte) :=
  (L.read fd count (looked L fd (afterInit L s)).world).1

def freadResult (size nmemb : Nat) (stream : Ptr) : Items size :=
  (L.fread size nmemb stream (streamed L stream s).world).1

def fwriteResult (data : List Byte) (size nmemb : Nat) (stream : Ptr) : Nat :=
  (L.fwrite data size nmemb stream (streamed L stream s).world).1.val

def writeResult (fd : Int) (data : List Byte) (count : Nat) : Int :=
  (L.write fd data count (looked L fd (afterInit L s)).world).1

def transfer : DataCall → Transfer
  | .read fd count => ⟨(readResult L s fd count).getD [], ((readResult L s fd count).getD []).length⟩
  | .fread size nmemb stream =>
      ⟨(freadResult L s size nmemb stream).data, (freadResult L s size nmemb stream).count * size⟩
  | .fwrite data size nmemb stream _ => ⟨data, fwriteResult L s data size nmemb stream * size⟩
  | .write _ data count => ⟨data, count⟩

/-- The length that the hook gives `memcpy`. -/
def copied : DataCall → Int
  | .read fd count => if readRet (readResult L s fd count) < 32 then readRet (readResult L s fd count) else 32
  | .fread size nmemb stream => itemBytes (freadResult L s size nmemb stream).count size
  | .fwrite data size nmemb stream _ => itemBytes (fwriteResult L s data size nmemb stream) size
  | .write _ _ count => (if count < 32 then count else 32 : Nat)

/-- The text of the preview. -/
def text (c : DataCall) : String := previewed (c.transfer L s).data (c.copied L s)

/-- The line with the preview, up to its end. -/
def line (text : String) : DataCall → String
  | .read fd count => readLine (pathOf L fd (afterInit L s)) text count (readRet (readResult L s fd count))
  | .fread size nmemb stream => itemsLine "[logger] fread(\"" text size nmemb (streamPath L stream s)
      (freadResult L s size nmemb stream).count
  | .fwrite data size nmemb stream _ => itemsLine "[logger] fwrite(\"" text size nmemb (streamPath L stream s)
      (fwriteResult L s data size nmemb stream)
  | .write fd data count =>
      writeLine (pathOf L fd (afterInit L s)) text count (writeResult L s fd data count)

end DataCall

/-! ## What a preview is to show -/

/-- `isprint`, in the locale that the logger runs in. -/
def Printable (b : Byte) : Prop := 0x20 ≤ b.toNat ∧ b.toNat ≤ 0x7e

instance (b : Byte) : Decidable (Printable b) := inferInstanceAs (Decidable (_ ∧ _))

/-- The first 32 bytes that were transferred, each at its position. -/
structure Shows (tr : Transfer) (text : String) : Prop where
  length : text.toList.length = min 32 tr.count
  bytes : ∀ i < min 32 tr.count, ∃ b, tr.data[i]? = some b ∧
    text.toList[i]? = some (if Printable b then Char.ofNat b.toNat else '.')

/-- **The preview of a call is right**: `min(32, k)` bytes are copied, the hook returns with the line that has
    the preview in it, and the preview shows the data. -/
structure Previews (L : Libc σ) (s : St σ) (c : DataCall) : Prop where
  copies : c.copied L s = (min 32 (c.transfer L s).count : Nat)
  returns : ∃ v, c.call.run L s =
    .ok (v, printed L (c.call.before L s) (c.line L s (c.text L s) ++ "\n"))
  shows : Shows (c.transfer L s) (c.text L s)

theorem shown_eq (b : Byte) : shown b = if Printable b then Char.ofNat b.toNat else '.' := by
  unfold shown Printable
  exact if_congr (and_congr_right fun _ => Nat.lt_succ_iff) rfl rfl

theorem previewed_shows {tr : Transfer} {size : Int} (hcopies : Copies tr.data size)
    (hsize : size = (min 32 tr.count : Nat)) : Shows tr (previewed tr.data size) := by
  obtain ⟨-, -, havail⟩ := hcopies
  have hn : size.toNat = min 32 tr.count := by omega
  have hle : min 32 tr.count ≤ tr.data.length := by omega
  unfold previewed
  rw [hn]
  constructor
  case length =>
    rw [String.toList_ofList, List.length_map, List.length_take]
    exact Nat.min_eq_left hle
  case bytes =>
    intro i hi
    have hdata : i < tr.data.length := Nat.lt_of_lt_of_le hi hle
    refine ⟨tr.data[i], List.getElem?_eq_getElem hdata, ?_⟩
    rw [String.toList_ofList, List.getElem?_map, List.getElem?_take_of_lt hi, List.getElem?_eq_getElem hdata,
      Option.map_some, shown_eq]

/-! ## The four hooks -/

/-- A product of `size_t` that is as good as the number itself: it does not overflow, as no buffer is as large as
    memory, or leaves 32 anyway. -/
def Whole (k : Nat) : Prop := k < 2 ^ 64 ∨ 32 ≤ k % 2 ^ 64

theorem itemBytes_eq_iff (count size : Nat) :
    (itemBytes count size : Int) = (min 32 (count * size) : Nat) ↔ Whole (count * size) := by
  unfold itemBytes Whole
  split
  · omega
  · omega

theorem readRet_eq_iff (r : Option (List Byte)) :
    (if readRet r < 32 then readRet r else 32) = (min 32 (r.getD []).length : Nat) ↔ r.isSome = true := by
  unfold readRet
  cases r with
  | none => simp
  | some data =>
      simp only [Option.map_some, Option.getD_some, Option.isSome_some, iff_true]
      split
      · omega
      · omega

/-- When the preview of a call is right. -/
def Sound (L : Libc σ) (s : St σ) : DataCall → Prop
  | .read fd count => Inits L s ∧ (DataCall.readResult L s fd count).isSome = true
  | .fread size nmemb stream =>
      Inits L s ∧ Whole ((DataCall.freadResult L s size nmemb stream).count * size)
  | .fwrite data size nmemb stream _ =>
      Inits L s ∧ Whole (DataCall.fwriteResult L s data size nmemb stream * size)
  | .write _ data count => Inits L s ∧ Readable data count

/-- A hook that returns under `C` with its line has the right preview when it copies the right number. -/
theorem previews_iff_of {α : Type} {m : Hook σ α} {ret : α → Ret} {a : α} {C D : Prop} {c : DataCall}
    (hcall : c.call.run L = ret <$> m)
    (hm : Exactly m s C (Said L (c.line L s (c.text L s)) a (c.call.before L s)))
    (hcopies : C → Copies (c.transfer L s).data (c.copied L s))
    (hsize : c.copied L s = (min 32 (c.transfer L s).count : Nat) ↔ D) : Previews L s c ↔ C ∧ D := by
  constructor
  · intro h
    obtain ⟨v, hrun⟩ := h.returns
    rw [hcall] at hrun
    exact ⟨(hm.map.of_ok hrun).1, hsize.mp h.copies⟩
  · rintro ⟨hc, hd⟩
    have hcount := hsize.mpr hd
    obtain ⟨v, t, hrun, b, -, -, ht⟩ := hm.map.succeeds hc
    subst ht
    rw [← hcall] at hrun
    exact ⟨hcount, ⟨v, hrun⟩, previewed_shows (hcopies hc) hcount⟩

/-- **The data in the log.** For every call, the preview is right exactly when its condition holds. -/
theorem previews_iff (L : Libc σ) (s : St σ) (c : DataCall) : Previews L s c ↔ Sound L s c := by
  cases c with
  | read fd count =>
      refine (previews_iff_of (c := .read fd count) rfl (read_said L fd count s)
        (fun h => (copies_read _).mpr h.2) (readRet_eq_iff _)).trans ?_
      exact ⟨And.left, fun h => ⟨h, h.2⟩⟩
  | fread size nmemb stream =>
      exact previews_iff_of rfl (fread_said L size nmemb stream s)
        (fun _ => copies_items (Items.full _)) (itemBytes_eq_iff _ _)
  | fwrite data size nmemb stream full =>
      have hle : DataCall.fwriteResult L s data size nmemb stream * size ≤ data.length :=
        Nat.le_trans (Nat.mul_le_mul_right size (Nat.le_of_lt_succ (Fin.isLt _))) full
      exact previews_iff_of rfl (fwrite_said L stream full s) (fun _ => copies_items hle) (itemBytes_eq_iff _ _)
  | write fd data count =>
      have hsize : (((if count < 32 then count else 32 : Nat) : Nat) : Int) = (min 32 count : Nat) ↔ True := by
        split
        · simp
          omega
        · simp
          omega
      refine (previews_iff_of (c := .write fd data count) rfl (write_said L fd data count s)
        (fun h => (copies_write data count).mpr h.2) hsize).trans ?_
      exact iff_of_eq (and_true _)

/-! ## A failed read -/

/-- `sampleLibc`, where every `read` fails with `EBADF`. -/
def closedLibc : Libc Int := { sampleLibc with read := fun _ _ _ => (none, 9) }

/-- **`read` on a closed descriptor** has no preview: the hook copies `-1` bytes. -/
theorem failed_read_copies : ¬ ∀ (L : Libc Int) (s : St Int) (c : DataCall), Previews L s c := by
  intro h
  have hcopies := (h closedLibc sampleSt (.read 7 10)).copies
  exact absurd hcopies (by decide)

end AdvUnix.Logger
