import Mathlib.Data.List.Basic

/-!
# `Lib.Getopt` — what `getopt` returns

`getopt` of the GNU library, called until it has nothing left: it looks at all words, operands among them,
up to a word `--`. An option is a word of a `-` and at least one more character; it is a cluster of flags, of
which the last may take an argument, the rest of the word or else the next word, whatever that looks like.
-/

namespace Getopt

/-- One return of `getopt`: an option with its argument, or `?` for an unknown one or one whose argument is
    missing. -/
inductive Ret
  | opt (c : Char) (optarg : Option String)
  | unknown
  deriving DecidableEq, Repr

/-- The options there are, and whether each takes an argument. -/
abbrev Spec := Char → Option Bool

variable {spec : Spec} {c : Char} {w v : String} {ws : List String}

/-- An option, by its looks. -/
def optionLike (w : String) : Bool :=
  match w.toList with
  | '-' :: _ :: _ => true
  | _ => false

/-- The returns for the characters of one word, and the option that takes the next word. -/
def cluster (spec : Spec) : List Char → List Ret × Option Char
  | [] => ([], none)
  | c :: cs =>
      match spec c with
      | none =>
          let (rets, wants) := cluster spec cs
          (.unknown :: rets, wants)
      | some false =>
          let (rets, wants) := cluster spec cs
          (.opt c none :: rets, wants)
      | some true => if cs = [] then ([], some c) else ([.opt c (some (String.ofList cs))], none)

/-- **The returns of `getopt`** over some words, the first of which is the argument of an option that wants
    one. -/
def scan (spec : Spec) : Option Char → List String → List Ret
  | none, [] => []
  | some _, [] => [.unknown]
  | some c, w :: ws => .opt c (some w) :: scan spec none ws
  | none, w :: ws =>
      if w = "--" then []
      else if optionLike w then (cluster spec w.toList.tail).1 ++ scan spec (cluster spec w.toList.tail).2 ws
      else scan spec none ws

/-- An operand is passed over. -/
theorem scan_operand (h : optionLike w = false) : scan spec none (w :: ws) = scan spec none ws := by
  have hdash : w ≠ "--" := by
    rintro rfl
    cases h
  rw [scan, if_neg hdash, h]
  rfl

theorem scan_operands (h : ∀ w ∈ ws, optionLike w = false) : scan spec none ws = [] := by
  induction ws with
  | nil => rfl
  | cons w ws ih =>
      rw [scan_operand (h w List.mem_cons_self)]
      exact ih fun v hv => h v (List.mem_cons_of_mem w hv)

/-- The word of an option with its argument attached. -/
def attach (c : Char) (v : String) : String := String.ofList ('-' :: c :: v.toList)

@[simp] theorem attach_toList : (attach c v).toList = '-' :: c :: v.toList := String.toList_ofList

theorem attach_optionLike : optionLike (attach c v) = true := by
  unfold optionLike
  rw [attach_toList]
  rfl

theorem attach_ne_dashes (h : c ≠ '-') : attach c v ≠ "--" := by
  intro heq
  have hlist := congrArg String.toList heq
  rw [attach_toList, show "--".toList = ['-', '-'] from rfl] at hlist
  exact h (List.cons.inj (List.cons.inj hlist).2).1

/-- **An attached argument.** -/
theorem scan_attached (hc : c ≠ '-') (hspec : spec c = some true) (hv : v ≠ "") :
    scan spec none (attach c v :: ws) = .opt c (some v) :: scan spec none ws := by
  have hcluster : cluster spec (attach c v).toList.tail = ([.opt c (some v)], none) := by
    have hne : v.toList ≠ [] := by
      intro hnil
      exact hv (String.toList_injective hnil)
    rw [attach_toList, List.tail_cons, cluster, hspec]
    simp only [if_neg hne, String.ofList_toList]
  rw [scan, if_neg (attach_ne_dashes hc), if_pos attach_optionLike, hcluster]
  rfl

/-- **An argument of its own word**, whatever it looks like. -/
theorem scan_separate (hc : c ≠ '-') (hspec : spec c = some true) :
    scan spec none (attach c "" :: v :: ws) = .opt c (some v) :: scan spec none ws := by
  have hcluster : cluster spec (attach c "").toList.tail = ([], some c) := by
    rw [attach_toList, List.tail_cons, cluster, hspec]
    rfl
  rw [scan, if_neg (attach_ne_dashes hc), if_pos attach_optionLike, hcluster]
  rfl

/-- An option whose argument is cut off. -/
theorem scan_missing (hc : c ≠ '-') (hspec : spec c = some true) :
    scan spec none [attach c ""] = [.unknown] := by
  have hcluster : cluster spec (attach c "").toList.tail = ([], some c) := by
    rw [attach_toList, List.tail_cons, cluster, hspec]
    rfl
  rw [scan, if_neg (attach_ne_dashes hc), if_pos attach_optionLike, hcluster]
  rfl

/-- A cluster returns something, or wants the next word. -/
theorem cluster_answers (c : Char) (cs : List Char) :
    (cluster spec (c :: cs)).1 ≠ [] ∨ (cluster spec (c :: cs)).2 = some c := by
  rw [cluster]
  cases spec c with
  | none => exact Or.inl (List.cons_ne_nil _ _)
  | some takes =>
      cases takes with
      | false => exact Or.inl (List.cons_ne_nil _ _)
      | true =>
          by_cases hcs : cs = []
          · simp only [if_pos hcs]
            exact Or.inr trivial
          · simp only [if_neg hcs]
            exact Or.inl (List.cons_ne_nil _ _)

theorem scan_wants (c : Char) (ws : List String) : scan spec (some c) ws ≠ [] := by
  cases ws with
  | nil => exact List.cons_ne_nil _ _
  | cons w ws => exact List.cons_ne_nil _ _

/-- **An option among the operands is not passed over.** -/
theorem scan_nonempty (hno : "--" ∉ ws) (h : ∃ w ∈ ws, optionLike w = true) : scan spec none ws ≠ [] := by
  induction ws with
  | nil =>
      obtain ⟨w, hw, -⟩ := h
      cases hw
  | cons w ws ih =>
      by_cases hw : optionLike w = true
      · -- the first word is one: it is answered, or it wants the next word, and that is answered
        have hdash : w ≠ "--" := fun heq => hno (heq ▸ List.mem_cons_self)
        have hchars : ∃ c cs, w.toList.tail = c :: cs := by
          unfold optionLike at hw
          split at hw
          · rename_i c cs heq
            exact ⟨c, cs, by rw [heq, List.tail_cons]⟩
          · cases hw
        obtain ⟨c, cs, htail⟩ := hchars
        rw [scan, if_neg hdash, if_pos hw, htail]
        intro hnil
        obtain ⟨hrets, hrest⟩ := List.append_eq_nil_iff.mp hnil
        rcases cluster_answers c cs with hanswer | hwants
        · exact hanswer hrets
        · rw [hwants] at hrest
          exact scan_wants c ws hrest
      · rw [scan_operand (Bool.eq_false_iff.mpr hw)]
        obtain ⟨v, hv, hlike⟩ := h
        refine ih (fun hmem => hno (List.mem_cons_of_mem w hmem)) ⟨v, ?_, hlike⟩
        rcases List.mem_cons.mp hv with rfl | hv
        · exact absurd hlike hw
        · exact hv

end Getopt
