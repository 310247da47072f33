import AdvUnix.Lib.Firsts
import AdvUnix.Lsof.MapsFormat

/-!
# `Lsof.Maps` — the files that a process has mapped

`get_mem_info` reads `/proc/PID/maps` in four passes: the words of each line with an inode become an entry, later
entries with an inode that was there before go, and two passes mark what is left. Two results come first, one for
each pass that can go wrong: what the loop over the words of a path does (`collect_eq`), and which entries stay
(`removeDup_eq`).
-/

namespace AdvUnix.Lsof

open Words Firsts Sdb

/-! ## `get_mem_info` -/

abbrev Token := List Char

/-- `fd_info`, which is also `mem_info`. -/
structure FdInfo where
  fd : List Char
  type : List Char
  inode : List Char
  name : List Char
  append : List Char
  deriving DecidableEq, Repr

/-- `mem_line[k]` behind the end. -/
inductive BadIndex
  | mk
  deriving DecidableEq, Repr

/-- `mem_line[k]` -/
def memWord (memLine : List Token) (k : Nat) : Except BadIndex Token :=
  match memLine[k]? with
  | some w => .ok w
  | none => .error .mk

/-- The loop that collects the path, with `n` the distance of `idx` to the number of words: the name, the
    index at which the loop ends, and `deleted`. -/
def collect (memLine : List Token) : Nat → Nat → List Char → Except BadIndex (List Char × Nat × Bool)
  | 0, idx, name => .ok (name, idx, false)
  | n + 1, idx, name => do
    let word ← memWord memLine (idx + 1)
    if word ≠ deletedMark then collect memLine n (idx + 1) (name ++ ' ' :: word)
    else .ok (name, idx + 1, true)

/-- The first pass, for one line. -/
def memEntry (memLine : List Token) : Except BadIndex (Option FdInfo) := do
  let inode ← memWord memLine 4
  if inode ≠ ['0'] then
    let name ← memWord memLine 5
    if 6 < memLine.length then
      let (name, idx, deleted) ← collect memLine (memLine.length - 5) 5 name
      let append ← if deleted then memWord memLine idx else .ok []
      .ok (some ⟨[], [], inode, name, append⟩)
    else .ok (some ⟨[], [], inode, name, []⟩)
  else .ok none

/-- The first pass. -/
def memEntries : List (List Token) → Except BadIndex (List FdInfo)
  | [] => .ok []
  | memLine :: rest => do
    let entry ← memEntry memLine
    let mi ← memEntries rest
    .ok (entry.toList ++ mi)

/-- The second pass, from the entries `before` on, with the flag `dup_flag`. -/
def removeDup (before : List FdInfo) (dupFlag : Bool) : List FdInfo → List FdInfo
  | [] => []
  | e :: rest =>
    let dupFlag := if before.any fun e' => e'.inode = e.inode then true else dupFlag
    if !dupFlag then e :: removeDup (before ++ [e]) dupFlag rest
    else removeDup (before ++ [e]) false rest

/-- The third pass. -/
def markDeleted (e : FdInfo) : FdInfo :=
  if e.append = deletedMark then { e with fd := "del".toList, type := "unknown".toList }
  else { e with fd := "mem".toList, type := "REG".toList }

/-- `anon_inode:` -/
def anonMark : List Char := "anon_inode:".toList

/-- The fourth pass, which `get_rwu_info` makes as well. -/
def anonName (e : FdInfo) : FdInfo :=
  if (find anonMark e.name).isSome then { e with name := "anon_inode:[".toList ++ e.inode ++ [']'] } else e

/-- The words of each line. -/
def memLines (maps : List Char) : List (List Token) := (lines '\n' maps).map (words isSpace)

/-- **`get_mem_info`**, of the contents of `/proc/PID/maps`. -/
def getMemInfo (maps : List Char) : Except BadIndex (List FdInfo) := do
  let mi ← memEntries (memLines maps)
  .ok (((removeDup [] false mi).map markDeleted).map anonName)

/-! ## The first pass -/

/-- Words joined by single blanks. -/
def spaced (ws : List Token) : List Char := [' '].intercalate ws

theorem spaced_singleton (w : Token) : spaced [w] = w := List.intercalate_singleton

theorem spaced_cons_cons (v w : Token) (ws : List Token) : spaced (v :: w :: ws) = spaced ((v ++ ' ' :: w) :: ws) := by
  unfold spaced
  cases ws with
  | nil => simp
  | cons w' ws => simp [List.intercalate_cons_cons]

/-- The words before the mark. -/
def unmarked (ws : List Token) : List Token := ws.takeWhile (· ≠ deletedMark)

theorem unmarked_cons {w : Token} (hw : w ≠ deletedMark) (ws : List Token) :
    unmarked (w :: ws) = w :: unmarked ws := List.takeWhile_cons_of_pos (by simpa using hw)

theorem unmarked_mark (ws : List Token) : unmarked (deletedMark :: ws) = [] :=
  List.takeWhile_cons_of_neg (by simp)

/-- Behind them is the mark. -/
theorem getElem?_unmarked {ws : List Token} (h : deletedMark ∈ ws) :
    ws[(unmarked ws).length]? = some deletedMark := by
  induction ws with
  | nil => cases h
  | cons w ws ih =>
      by_cases hw : w = deletedMark
      · subst hw
        rw [unmarked_mark]
        rfl
      · rw [unmarked_cons hw]
        exact ih ((List.mem_cons.mp h).resolve_left (Ne.symm hw))

/-- **The loop** stops at the first mark behind `idx`. Without one it runs over the end. -/
theorem collect_eq (us ws : List Token) {idx : Nat} (hidx : us.length = idx + 1) (name : List Char) :
    collect (us ++ ws) (ws.length + 1) idx name =
      if deletedMark ∈ ws then .ok (spaced (name :: unmarked ws), idx + 1 + (unmarked ws).length, true)
      else .error .mk := by
  induction ws generalizing us idx name with
  | nil =>
      have hend : memWord (us ++ []) (idx + 1) = .error .mk := by
        simp [memWord, hidx]
      simp only [List.length_nil, collect, hend]
      rfl
  | cons w ws ih =>
      have hword : memWord (us ++ w :: ws) (idx + 1) = .ok w := by
        simp [memWord, ← hidx]
      have hnext := ih (us ++ [w]) (show (us ++ [w]).length = idx + 1 + 1 by simp [hidx]) (name ++ ' ' :: w)
      rw [List.append_assoc, List.singleton_append] at hnext
      rw [List.length_cons, collect, hword]
      change (if w ≠ deletedMark then _ else _) = _
      by_cases hw : w = deletedMark
      · -- the loop ends here, before `idx` is compared again
        subst hw
        rw [if_neg (fun h => h rfl), if_pos List.mem_cons_self, unmarked_mark, spaced_singleton]
        rfl
      · have hmem : deletedMark ∈ w :: ws ↔ deletedMark ∈ ws := by
          rw [List.mem_cons, or_iff_right (Ne.symm hw)]
        have hlen : idx + 1 + (w :: unmarked ws).length = idx + 1 + 1 + (unmarked ws).length := by
          rw [List.length_cons]
          omega
        rw [if_pos hw, hnext, unmarked_cons hw, spaced_cons_cons, hlen]
        exact if_congr hmem.symm rfl rfl

/-! ## What the first pass makes of a line -/

/-- The inode of a line. -/
def inodeOf (memLine : List Token) : Token := memLine.getD 4 []

/-- A line with an inode. -/
def Mapped (memLine : List Token) : Prop := inodeOf memLine ≠ ['0']

/-- A mark behind the sixth word. -/
def Marked (memLine : List Token) : Prop := deletedMark ∈ memLine.drop 6

instance (memLine : List Token) : Decidable (Mapped memLine) := inferInstanceAs (Decidable (_ ≠ _))
instance (memLine : List Token) : Decidable (Marked memLine) := inferInstanceAs (Decidable (_ ∈ _))

/-- The path of a line: its sixth word and those up to the mark. -/
def lineName (memLine : List Token) : List Char :=
  spaced ((memLine.drop 5).take 1 ++ unmarked (memLine.drop 6))

def rawEntry (memLine : List Token) : FdInfo :=
  ⟨[], [], inodeOf memLine, lineName memLine, if Marked memLine then deletedMark else []⟩

/-- A line whose words are all there when they are read. -/
def InRange (memLine : List Token) : Prop :=
  5 ≤ memLine.length ∧ (Mapped memLine → memLine.length = 6 ∨ Marked memLine)

instance (memLine : List Token) : Decidable (InRange memLine) := inferInstanceAs (Decidable (_ ∧ _))

theorem ok_bind {α β : Type} (a : α) (f : α → Except BadIndex β) : (Except.ok a >>= f) = f a := rfl

/-- The sixth word alone. -/
theorem memEntry_six {a b c d inode : Token} (hinode : inode ≠ ['0']) (w : Token) :
    memEntry [a, b, c, d, inode, w] = .ok (some (rawEntry [a, b, c, d, inode, w])) := by
  have hname : lineName [a, b, c, d, inode, w] = w := spaced_singleton w
  have hraw : rawEntry [a, b, c, d, inode, w] = ⟨[], [], inode, w, []⟩ := by
    rw [rawEntry, hname]
    rfl
  rw [hraw]
  change (if inode ≠ ['0'] then _ else _) = _
  rw [if_pos hinode]
  rfl

/-- More words than the sixth. -/
theorem memEntry_long {a b c d inode : Token} (hinode : inode ≠ ['0']) (w w' : Token) (ws : List Token) :
    memEntry (a :: b :: c :: d :: inode :: w :: w' :: ws) =
      if deletedMark ∈ w' :: ws then .ok (some (rawEntry (a :: b :: c :: d :: inode :: w :: w' :: ws)))
      else .error .mk := by
  have hcollect := collect_eq [a, b, c, d, inode, w] (w' :: ws) (show _ = 5 + 1 from rfl) w
  have hlen : (a :: b :: c :: d :: inode :: w :: w' :: ws).length - 5 = (w' :: ws).length + 1 := by
    simp
  have hlong : 6 < (a :: b :: c :: d :: inode :: w :: w' :: ws).length := by simp
  have hinodeWord : memWord (a :: b :: c :: d :: inode :: w :: w' :: ws) 4 = .ok inode := rfl
  have hpathWord : memWord (a :: b :: c :: d :: inode :: w :: w' :: ws) 5 = .ok w := rfl
  change collect (a :: b :: c :: d :: inode :: w :: w' :: ws) ((w' :: ws).length + 1) 5 w = _ at hcollect
  rw [memEntry, hinodeWord, ok_bind, if_pos hinode, hpathWord, ok_bind, if_pos hlong, hlen, hcollect]
  by_cases hmark : deletedMark ∈ w' :: ws
  · have hat : memWord (a :: b :: c :: d :: inode :: w :: w' :: ws) (5 + 1 + (unmarked (w' :: ws)).length) =
        .ok deletedMark := by
      have hbehind : (a :: b :: c :: d :: inode :: w :: w' :: ws)[5 + 1 + (unmarked (w' :: ws)).length]? =
          (w' :: ws)[(unmarked (w' :: ws)).length]? :=
        getElem?_append_add [a, b, c, d, inode, w] (w' :: ws) _
      rw [memWord, hbehind, getElem?_unmarked hmark]
    have hraw : rawEntry (a :: b :: c :: d :: inode :: w :: w' :: ws) =
        ⟨[], [], inode, spaced (w :: unmarked (w' :: ws)), deletedMark⟩ := by
      have hmarked : Marked (a :: b :: c :: d :: inode :: w :: w' :: ws) := hmark
      rw [rawEntry, if_pos hmarked]
      rfl
    rw [if_pos hmark, if_pos hmark, hraw, ok_bind]
    dsimp only
    rw [if_pos rfl, hat]
    rfl
  · rw [if_neg hmark, if_neg hmark]
    rfl

theorem memEntry_eq (memLine : List Token) :
    memEntry memLine =
      if InRange memLine then .ok (if Mapped memLine then some (rawEntry memLine) else none)
      else .error .mk := by
  match memLine with
  | a :: b :: c :: d :: inode :: path =>
      have hlen : 5 ≤ (a :: b :: c :: d :: inode :: path).length := by simp
      by_cases hinode : inode = ['0']
      · -- the line is passed over
        have hmapped : ¬ Mapped (a :: b :: c :: d :: inode :: path) := fun h => h hinode
        rw [if_pos ⟨hlen, fun h => absurd h hmapped⟩, if_neg hmapped]
        change (if inode ≠ ['0'] then _ else _) = _
        exact if_neg (fun h => h hinode)
      · have hmapped : Mapped (a :: b :: c :: d :: inode :: path) := hinode
        rw [if_pos hmapped]
        match path with
        | [] =>
            have hshort : ¬ InRange [a, b, c, d, inode] := by
              rintro ⟨-, h⟩
              rcases h hmapped with h | h
              · cases h
              · cases h
            rw [if_neg hshort]
            change (if inode ≠ ['0'] then _ else _) = _
            rw [if_pos hinode]
            rfl
        | [w] =>
            rw [if_pos ⟨hlen, fun _ => Or.inl rfl⟩]
            exact memEntry_six hinode w
        | w :: w' :: ws =>
            rw [memEntry_long hinode]
            refine if_congr ?_ rfl rfl
            constructor
            · intro hmark
              exact ⟨hlen, fun _ => Or.inr hmark⟩
            · rintro ⟨-, h⟩
              refine (h hmapped).resolve_left ?_
              simp
  | [] => rfl
  | [_] => rfl
  | [_, _] => rfl
  | [_, _, _] => rfl
  | [_, _, _, _] => rfl

/-- Lines in range give an entry for each line with an inode. -/
theorem memEntries_ok {ts : List (List Token)} (h : ∀ t ∈ ts, InRange t) :
    memEntries ts = .ok ((ts.filter fun t => Mapped t).map rawEntry) := by
  induction ts with
  | nil => rfl
  | cons t ts ih =>
      rw [memEntries, memEntry_eq, if_pos (h t List.mem_cons_self), ok_bind,
        ih fun t' ht' => h t' (List.mem_cons_of_mem t ht'), ok_bind]
      by_cases hmapped : Mapped t
      · simp [hmapped]
      · simp [hmapped]

/-- A line out of range is the end of the program. -/
theorem memEntries_error {ts : List (List Token)} (h : ¬ ∀ t ∈ ts, InRange t) :
    memEntries ts = .error .mk := by
  induction ts with
  | nil => exact absurd (fun _ ht => nomatch ht) h
  | cons t ts ih =>
      rw [memEntries, memEntry_eq]
      by_cases ht : InRange t
      · have hrest : ¬ ∀ t' ∈ ts, InRange t' := by
          intro hall
          exact h fun t' ht' => (List.mem_cons.mp ht').elim (fun he => he ▸ ht) (hall t')
        rw [if_pos ht, ih hrest]
        rfl
      · rw [if_neg ht]
        rfl

/-! ## The second pass -/

/-- **The second pass** keeps the first entry with each inode: the flag is down again at every entry. -/
theorem removeDup_eq (before es : List FdInfo) :
    removeDup before false es = firsts FdInfo.inode (before.map FdInfo.inode) es := by
  induction es generalizing before with
  | nil => rfl
  | cons e es ih =>
      have hseen : (before.any fun e' => e'.inode = e.inode) = true ↔ e.inode ∈ before.map FdInfo.inode := by
        simp
      have hnext : (before ++ [e]).map FdInfo.inode = before.map FdInfo.inode ++ [e.inode] := by simp
      rw [removeDup]
      by_cases hmem : e.inode ∈ before.map FdInfo.inode
      · rw [if_pos (hseen.mpr hmem), firsts_cons_mem es hmem, ← firsts_append_mem es hmem, ← hnext, ← ih]
        rfl
      · rw [if_neg (fun h => hmem (hseen.mp h)), firsts_cons_not_mem es hmem, ← hnext, ← ih]
        rfl

/-! ## The result -/

/-- The row of a line with an inode. -/
def rowOf (memLine : List Token) : FdInfo where
  fd := if Marked memLine then "del".toList else "mem".toList
  type := if Marked memLine then "unknown".toList else "REG".toList
  inode := inodeOf memLine
  name :=
    if anonMark <:+: lineName memLine then "anon_inode:[".toList ++ inodeOf memLine ++ [']']
    else lineName memLine
  append := if Marked memLine then deletedMark else []

theorem map_inode_rowOf (ts : List (List Token)) : (ts.map rowOf).map FdInfo.inode = ts.map inodeOf := by
  rw [List.map_map]
  rfl

/-- What stays of the lines with an inode has one. -/
theorem mapped_of_mem_firsts {ts : List (List Token)} {t : List Token}
    (h : t ∈ firsts inodeOf [] (ts.filter fun t => Mapped t)) : Mapped t := by
  have hfilter := mem_of_mem_firsts _ h
  simpa using (List.mem_filter.mp hfilter).2

theorem anonName_eq (e : FdInfo) :
    anonName e =
      { e with
        name := if anonMark <:+: e.name then "anon_inode:[".toList ++ e.inode ++ [']'] else e.name } := by
  unfold anonName
  by_cases hanon : anonMark <:+: e.name
  · rw [if_pos (find_isSome_iff.mpr hanon), if_pos hanon]
  · rw [if_neg (fun h => hanon (find_isSome_iff.mp h)), if_neg hanon]

theorem markDeleted_rawEntry (memLine : List Token) :
    markDeleted (rawEntry memLine) =
      { rawEntry memLine with
        fd := if Marked memLine then "del".toList else "mem".toList
        type := if Marked memLine then "unknown".toList else "REG".toList } := by
  by_cases hmarked : Marked memLine
  · have happend : (rawEntry memLine).append = deletedMark := if_pos hmarked
    rw [markDeleted, if_pos happend, if_pos hmarked, if_pos hmarked]
  · have happend : (rawEntry memLine).append = [] := if_neg hmarked
    have hmark : ([] : List Char) ≠ deletedMark := by decide
    have hnone : (rawEntry memLine).append ≠ deletedMark := by
      rw [happend]
      exact hmark
    rw [markDeleted, if_neg hnone, if_neg hmarked, if_neg hmarked]

/-- The last two passes make the row of a line from its entry. -/
theorem anonName_markDeleted (memLine : List Token) : anonName (markDeleted (rawEntry memLine)) = rowOf memLine := by
  rw [anonName_eq, markDeleted_rawEntry]
  rfl

theorem getMemInfo_eq (maps : List Char) (h : ∀ t ∈ memLines maps, InRange t) :
    getMemInfo maps = .ok ((firsts inodeOf [] ((memLines maps).filter fun t => Mapped t)).map rowOf) := by
  have hpasses : (anonName ∘ markDeleted) ∘ rawEntry = rowOf := funext anonName_markDeleted
  rw [getMemInfo, memEntries_ok h, ok_bind, removeDup_eq, List.map_nil, firsts_map, List.map_map, List.map_map,
    hpasses]
  rfl

/-- **The result of `get_mem_info`**: one row for each inode but 0, in the order of the first lines with them, and
    made of those lines. -/
theorem get_mem_info_rows (maps : List Char) (h : ∀ t ∈ memLines maps, InRange t) :
    ∃ mi, getMemInfo maps = .ok mi ∧
      mi.map FdInfo.inode = (((memLines maps).filter fun t => Mapped t).map inodeOf).eraseDups ∧
      ∀ e ∈ mi, ∃ t, (memLines maps).find? (fun t => inodeOf t == e.inode) = some t ∧ e = rowOf t := by
  refine ⟨_, getMemInfo_eq maps h, ?_, ?_⟩
  · rw [map_inode_rowOf, map_key_firsts]
  · intro e he
    obtain ⟨t, ht, rfl⟩ := List.mem_map.mp he
    have hfind := (mem_firsts _).mp ht
    have hmapped := mapped_of_mem_firsts ht
    refine ⟨t, ?_, rfl⟩
    -- a line with this inode has an inode, so the filter changes nothing
    have hsame : (fun a => decide (decide (Mapped a) = true ∧ (inodeOf a == inodeOf t) = true)) =
        fun a => inodeOf a == inodeOf t := by
      funext a
      by_cases heq : inodeOf a = inodeOf t
      · have hmappedA : Mapped a := by
          unfold Mapped
          rw [heq]
          exact hmapped
        simp [heq, hmappedA]
      · simp [heq]
    rw [List.find?_filter] at hfind
    exact hsame ▸ hfind

/-- A file, a deleted one with a blank in its name, and the file again. -/
def sampleMaps : List Char :=
  "0-1 r-xp 0 08:01 42 /a\n1-2 r--p 0 08:01 7 /b c (deleted)\n2-3 rw-p 1 08:01 42 /a\n".toList

theorem get_mem_info_sample :
    (∀ t ∈ memLines sampleMaps, InRange t) ∧
      ∃ mi, getMemInfo sampleMaps = .ok mi ∧
        mi.map FdInfo.inode = (((memLines sampleMaps).filter fun t => Mapped t).map inodeOf).eraseDups ∧
        ∀ e ∈ mi, ∃ t, (memLines sampleMaps).find? (fun t => inodeOf t == e.inode) = some t ∧ e = rowOf t :=
  have hrange : ∀ t ∈ memLines sampleMaps, InRange t := by decide
  ⟨hrange, get_mem_info_rows sampleMaps hrange⟩

end AdvUnix.Lsof
