import AdvUnix.Lib.Words
import AdvUnix.Sdb.Text

/-!
# `Lsof.Passwd` — the user that owns a process

`get_user` looks a user number up in `/etc/passwd`: it makes blanks of the colons of a line and takes the first
and the third word of what it gets. The third word is the uid field if the password field is one word and the
uid field is not empty (`straight_taken`); otherwise a field before it is lost or counted twice.
`get_user_iff` says which contents are read right all the same.
-/

namespace AdvUnix.Lsof

open Words Sdb

/-! ## `get_user` -/

/-- The loop that replaces the colons of a line, one after the other. -/
def replaceColons : Nat → List Char → List Char
  | 0, content => content
  | n + 1, content =>
    match content.idxOf? ':' with
    | none => content
    | some pos => replaceColons n (content.set pos ' ')

/-- The loop over the lines. A string that nothing is extracted into stays empty. -/
def scanUsers (uid : List Char) : List (List Char) → Option (List Char)
  | [] => none
  | content :: rest =>
    let tt := words isSpace (replaceColons content.length content)
    let tmpName := tt.getD 0 []
    let tmpUid := tt.getD 2 []
    if tmpUid = uid then some tmpName else scanUsers uid rest

/-- `to_string` of a `uid_t` -/
def numeral (UID : BitVec 32) : List Char := Nat.toDigits 10 UID.toNat

/-- **`get_user`**, of the contents of `/etc/passwd` and the owner of the process; `none` leaves `USER` as it
    is. -/
def getUser (passwd : List Char) (UID : BitVec 32) : Option (List Char) :=
  scanUsers (numeral UID) (lines '\n' passwd)

/-! ## The colons of a line -/

def uncolon (c : Char) : Char := if c = ':' then ' ' else c

theorem map_uncolon {f : List Char} (h : ':' ∉ f) : f.map uncolon = f := by
  have hid : ∀ c ∈ f, uncolon c = id c := by
    intro c hc
    have hne : c ≠ ':' := fun he => h (he ▸ hc)
    exact if_neg hne
  rw [List.map_congr_left hid, List.map_id]

theorem replaceColons_eq {n : Nat} {content : List Char} (h : content.count ':' ≤ n) :
    replaceColons n content = content.map uncolon := by
  induction n generalizing content with
  | zero =>
      have hnone : ':' ∉ content := List.count_eq_zero.mp (Nat.le_zero.mp h)
      rw [replaceColons, map_uncolon hnone]
  | succ n ih =>
      rw [replaceColons]
      cases hpos : content.idxOf? ':' with
      | none => exact (map_uncolon (List.idxOf?_eq_none_iff.mp hpos)).symm
      | some pos =>
          obtain ⟨hlt, hcolon, -⟩ := List.idxOf?_eq_some_iff.mp hpos
          have hcount : (content.set pos ' ').count ':' ≤ n := by
            rw [List.count_set hlt, hcolon]
            simp
            omega
          have hmap : (content.set pos ' ').map uncolon = content.map uncolon := by
            have hself : uncolon ' ' = (content.map uncolon).get ⟨pos, by simpa using hlt⟩ := by
              simp [hcolon, uncolon]
            rw [List.map_set, hself, List.get_eq_getElem, List.set_getElem_self]
          dsimp only
          rw [ih hcount, hmap]

/-! ## Lines with seven fields -/

/-- **A user**: a line of seven fields. Any field but the name may be empty, and any but the name and the uid may
    have blanks in it. -/
structure Entry where
  name : List Char
  passwd : List Char
  uid : List Char
  gid : List Char
  gecos : List Char
  home : List Char
  shell : List Char
  named : name ≠ []
  name_solid : Solid isSpace name
  uid_solid : Solid isSpace uid
  colonless : ∀ f ∈ [name, passwd, uid, gid, gecos, home, shell], ':' ∉ f

namespace Entry

variable (e : Entry)

def fields : List (List Char) := [e.name, e.passwd, e.uid, e.gid, e.gecos, e.home, e.shell]

def line : List Char := [':'].intercalate e.fields

/-- The words of the fields after the uid. -/
def rest : List (List Char) := [e.gid, e.gecos, e.home, e.shell].flatMap (words isSpace)

/-- The word that is taken for the uid. -/
def taken : Option (List Char) :=
  match words isSpace e.passwd with
  | [] => if e.uid = [] then e.rest[1]? else e.rest[0]?
  | [_] => if e.uid = [] then e.rest[0]? else some e.uid
  | _ :: second :: _ => some second

/-- The line as the words that `get_user` sees. -/
theorem words_line : words isSpace (replaceColons e.line.length e.line) =
    e.name :: (words isSpace e.passwd ++ (words isSpace e.uid ++ e.rest)) := by
  have hfields : e.fields.map (List.map uncolon) = e.fields := by
    have hid : ∀ f ∈ e.fields, f.map uncolon = id f := fun f hf => map_uncolon (e.colonless f hf)
    rw [List.map_congr_left hid, List.map_id]
  rw [replaceColons_eq (List.count_le_length ..), line, map_intercalate, hfields]
  change words isSpace ([' '].intercalate e.fields) = _
  rw [words_intercalate (by decide), fields, List.flatMap_cons, words_word e.named e.name_solid]
  rfl

/-- The third word is the one taken. -/
theorem third_word : (words isSpace (replaceColons e.line.length e.line))[2]? = e.taken := by
  rw [words_line, words_of_solid e.uid_solid]
  unfold taken
  cases hwords : words isSpace e.passwd with
  | nil =>
      by_cases huid : e.uid = []
      · simp [huid]
      · simp [huid]
  | cons w ws =>
      cases ws with
      | nil =>
          by_cases huid : e.uid = []
          · simp [huid]
          · simp [huid]
      | cons w' ws => simp

/-- A password field of one word and a uid. -/
def Straight : Prop := (words isSpace e.passwd).length = 1 ∧ e.uid ≠ []

/-- **From a straight line** the uid is taken. -/
theorem Straight.taken {e : Entry} (h : e.Straight) : e.taken = some e.uid := by
  obtain ⟨hlen, huid⟩ := h
  obtain ⟨w, hw⟩ := List.length_eq_one_iff.mp hlen
  unfold Entry.taken
  rw [hw]
  exact if_neg huid

end Entry

/-! ## What `get_user` is to return -/

/-- The name on the first line with that uid. -/
def userOf (es : List Entry) (uid : List Char) : Option (List Char) :=
  (es.find? fun e => e.uid = uid).map Entry.name

/-- The name on the first line from which that uid is taken. -/
def takenFrom (es : List Entry) (uid : List Char) : Option (List Char) :=
  (es.find? fun e => e.taken = some uid).map Entry.name

theorem userOf_cons (e : Entry) (es : List Entry) (uid : List Char) :
    userOf (e :: es) uid = if e.uid = uid then some e.name else userOf es uid := by
  unfold userOf
  by_cases h : e.uid = uid
  · simp [h]
  · simp [h]

theorem takenFrom_cons (e : Entry) (es : List Entry) (uid : List Char) :
    takenFrom (e :: es) uid = if e.taken = some uid then some e.name else takenFrom es uid := by
  unfold takenFrom
  by_cases h : e.taken = some uid
  · simp [h]
  · simp [h]

theorem scanUsers_eq {uid : List Char} (huid : uid ≠ []) (es : List Entry) :
    scanUsers uid (es.map Entry.line) = takenFrom es uid := by
  induction es with
  | nil => rfl
  | cons e es ih =>
      have hthird : (words isSpace (replaceColons e.line.length e.line)).getD 2 [] = uid ↔
          e.taken = some uid := by
        rw [List.getD_eq_getElem?_getD, e.third_word]
        cases e.taken with
        | none => simp [huid.symm]
        | some w => simp
      have hname : (words isSpace (replaceColons e.line.length e.line)).getD 0 [] = e.name := by
        rw [e.words_line]
        rfl
      rw [List.map_cons, scanUsers, hname, takenFrom_cons, ih]
      exact if_congr hthird rfl rfl

/-- **A content that is read right.** Up to the first line whose uid field or taken word is `uid`, nothing
    matters. On that line both are; or one is, and the first later line on which the other one is has the same
    name. -/
def ReadsRight (uid : List Char) : List Entry → Prop
  | [] => True
  | e :: es =>
    if e.uid = uid then
      if e.taken = some uid then True else takenFrom es uid = some e.name
    else if e.taken = some uid then userOf es uid = some e.name
    else ReadsRight uid es

/-- A content of straight lines is read right. -/
theorem readsRight_of_straight (uid : List Char) (es : List Entry) (h : ∀ e ∈ es, e.Straight) :
    ReadsRight uid es := by
  induction es with
  | nil => trivial
  | cons e es ih =>
      have htaken := (h e List.mem_cons_self).taken
      rw [ReadsRight, htaken]
      by_cases huid : e.uid = uid
      · simp [huid]
      · simp [huid, ih fun e' he' => h e' (List.mem_cons_of_mem e he')]

theorem readsRight_iff (uid : List Char) (es : List Entry) :
    takenFrom es uid = userOf es uid ↔ ReadsRight uid es := by
  induction es with
  | nil => simp [takenFrom, userOf, ReadsRight]
  | cons e es ih =>
      rw [ReadsRight, takenFrom_cons, userOf_cons]
      by_cases huid : e.uid = uid
      · by_cases htaken : e.taken = some uid
        · simp [huid, htaken]
        · simp [huid, htaken]
      · by_cases htaken : e.taken = some uid
        · rw [if_pos htaken, if_neg huid, if_neg huid, if_pos htaken]
          exact eq_comm
        · rw [if_neg htaken, if_neg huid, if_neg huid, if_neg htaken]
          exact ih

/-- **`get_user`** returns the name on the first line with the uid exactly when the content is read right. -/
theorem get_user_iff (passwd : List Char) (es : List Entry) (UID : BitVec 32)
    (hlines : lines '\n' passwd = es.map Entry.line) :
    getUser passwd UID = userOf es (numeral UID) ↔ ReadsRight (numeral UID) es := by
  have huid : numeral UID ≠ [] := Nat.toDigits_ne_nil
  rw [getUser, hlines, scanUsers_eq huid, readsRight_iff]

/-! ## Two users -/

/-- `root:x:0:0:root:/root:/bin/sh` -/
def rootEntry : Entry where
  name := "root".toList
  passwd := "x".toList
  uid := "0".toList
  gid := "0".toList
  gecos := "root".toList
  home := "/root".toList
  shell := "/bin/sh".toList
  named := by decide
  name_solid := by decide
  uid_solid := by decide
  colonless := by decide

/-- `ann::1000:100::/home/ann:/bin/sh`, an account without a password. -/
def annEntry : Entry where
  name := "ann".toList
  passwd := []
  uid := "1000".toList
  gid := "100".toList
  gecos := []
  home := "/home/ann".toList
  shell := "/bin/sh".toList
  named := by decide
  name_solid := by decide
  uid_solid := by decide
  colonless := by decide

/-- `/etc/passwd` with the two users. -/
def samplePasswd : List Char :=
  "root:x:0:0:root:/root:/bin/sh\nann::1000:100::/home/ann:/bin/sh\n".toList

theorem get_user_root : getUser samplePasswd 0 = some "root".toList := by
  have hlines : lines '\n' samplePasswd = [rootEntry, annEntry].map Entry.line := by decide
  have hright : ReadsRight (numeral 0) [rootEntry, annEntry] := (readsRight_iff _ _).mp (by decide)
  exact (get_user_iff samplePasswd [rootEntry, annEntry] 0 hlines).mpr hright

/-- **Without a password** a user is not found by the uid, but by the gid. -/
theorem get_user_ann : ¬ ∀ (passwd : List Char) (es : List Entry) (UID : BitVec 32),
    lines '\n' passwd = es.map Entry.line → getUser passwd UID = userOf es (numeral UID) := by
  intro h
  have hann := h samplePasswd [rootEntry, annEntry] 1000 (by decide)
  exact absurd hann (by decide)

end AdvUnix.Lsof
