import AdvUnix.Lib.Interleaving
import AdvUnix.Logger.Record

/-!
# `Logger.Shared` — several processes write one log

The log is opened to append, so each text that `write` is given is added whole, and the processes' texts come in
any order. A line that is one text stays a line. The line of a pointer is three, and a line of another process may
come between them; then the log says that the one call has returned what the other did (`interrupted_reads`). So
the processes' records come out in every order exactly when no call returns a pointer, or one process makes all
the calls (`shared_log_iff`).
-/

namespace AdvUnix.Logger

open Descriptors

variable {σ δ : Type} {L : Libc σ} {P : Process σ δ} {log : δ} {s t : St σ}
variable {calls : List (Call × Ret)} {pieces pieces' : List (List Byte)}
variable {records records' : List (List Byte × List Byte)}

/-! ## Pieces -/

/-- **What pieces say**, one behind the other, when they end with a line. -/
structure Reads (pieces : List (List Byte)) (records : List (List Byte × List Byte)) : Prop where
  whole : EndsLine pieces.flatten
  found : history pieces.flatten = records

theorem Reads.nil : Reads [] [] := ⟨Or.inl rfl, by simp [history, Words.lines]⟩

theorem Reads.append (h : Reads pieces records) (h' : Reads pieces' records') :
    Reads (pieces ++ pieces') (records ++ records') := by
  constructor
  · rw [List.flatten_append]
    exact h.whole.append h'.whole
  · rw [List.flatten_append, history_append h.whole, h.found, h'.found]

/-- Only their bytes matter. -/
theorem Reads.of_flatten (h : Reads pieces records) (hsame : pieces'.flatten = pieces.flatten) :
    Reads pieces' records := by
  constructor
  · rw [hsame]
    exact h.whole
  · rw [hsame]
    exact h.found

/-- Pieces of several, one after the other. -/
theorem Reads.flatMap {ι : Type} {f : ι → List (List Byte)} {g : ι → List (List Byte × List Byte)}
    (h : ∀ i, Reads (f i) (g i)) (is : List ι) : Reads (is.flatMap f) (is.flatMap g) := by
  induction is with
  | nil => exact .nil
  | cons i is ih => exact (h i).append ih

/-- A piece that is a line. -/
theorem reads_line {args : String} (hargs : OneLine args) (c : Call) (v : Ret) :
    Reads [bytesOf (lineOf c.name args v) ++ [newline]] [record (c, v)] := by
  constructor
  · rw [List.flatten_singleton]
    exact whole_line _
  · rw [List.flatten_singleton]
    exact history_line hargs c v

/-- Pieces that are whole lines can be read each for itself. -/
theorem history_flatten (h : ∀ piece ∈ pieces, EndsLine piece) :
    history pieces.flatten = pieces.flatMap history := by
  induction pieces with
  | nil => exact Reads.nil.found
  | cons piece pieces ih =>
      rw [List.flatten_cons, List.flatMap_cons, history_append (h piece List.mem_cons_self),
        ih fun piece' hmem => h piece' (List.mem_cons_of_mem _ hmem)]

/-- The pieces that a call sends to the log. -/
def Sends (call : Call × Ret) (pieces : List (List Byte)) : Prop :=
  ∃ args, OneLine args ∧ pieces = (piecesOf call.1.name args call.2).map bytesOf

theorem Sends.flatten {call : Call × Ret} (h : Sends call pieces) :
    ∃ args, OneLine args ∧ pieces.flatten = [bytesOf (lineOf call.1.name args call.2) ++ [newline]].flatten := by
  obtain ⟨args, hargs, rfl⟩ := h
  refine ⟨args, hargs, ?_⟩
  rw [← List.flatMap_def, piecesOf_bytes, List.flatten_singleton]

theorem Sends.reads {call : Call × Ret} (h : Sends call pieces) : Reads pieces [record call] := by
  obtain ⟨args, hargs, hline⟩ := h.flatten
  exact (reads_line hargs call.1 call.2).of_flatten hline

/-- What is no pointer is one piece. -/
theorem Sends.whole {call : Call × Ret} (h : Sends call pieces) (hv : ∀ p, call.2 ≠ .ptr p) :
    ∀ piece ∈ pieces, EndsLine piece := by
  obtain ⟨args, -, rfl⟩ := h
  intro piece hmem
  have hpiece : piece = bytesOf (lineOf call.1.name args call.2 ++ "\n") := by
    cases hret : call.2 with
    | ptr p => exact absurd hret (hv p)
    | int n =>
        rw [hret] at hmem
        exact List.mem_singleton.mp hmem
    | size n =>
        rw [hret] at hmem
        exact List.mem_singleton.mp hmem
  rw [hpiece, bytesOf_append]
  exact whole_line _

/-- The pieces of all the calls of a process. -/
theorem reads_all {groups : List (List (List Byte))} (h : List.Forall₂ Sends calls groups) :
    Reads groups.flatten (calls.map record) := by
  induction h with
  | nil => exact .nil
  | cons hcall _ ih => exact hcall.reads.append ih

theorem whole_all {groups : List (List (List Byte))} (h : List.Forall₂ Sends calls groups)
    (hv : ∀ call ∈ calls, ∀ p, call.2 ≠ .ptr p) : ∀ piece ∈ groups.flatten, EndsLine piece := by
  induction h with
  | nil => simp
  | @cons call pieces calls groups hcall _ ih =>
      intro piece hmem
      rcases List.mem_append.mp hmem with hmem | hmem
      · exact hcall.whole (hv call List.mem_cons_self) piece hmem
      · exact ih (fun call' hcall' => hv call' (List.mem_cons_of_mem _ hcall')) piece hmem

/-- The pieces before one call, of it and behind it. -/
theorem sends_split {before after : List (Call × Ret)} {call : Call × Ret} {groups : List (List (List Byte))}
    (h : List.Forall₂ Sends (before ++ call :: after) groups) :
    ∃ first pieces last, groups = first ++ pieces :: last ∧ List.Forall₂ Sends before first ∧ Sends call pieces ∧
      List.Forall₂ Sends after last := by
  induction before generalizing groups with
  | nil =>
      obtain ⟨pieces, last, hcall, hafter, rfl⟩ := List.forall₂_cons_left_iff.mp h
      exact ⟨[], pieces, last, rfl, .nil, hcall, hafter⟩
  | cons call' before ih =>
      obtain ⟨pieces', groups', hcall', hrest, rfl⟩ := List.forall₂_cons_left_iff.mp h
      obtain ⟨first, pieces, last, rfl, hbefore, hcall, hafter⟩ := ih hrest
      exact ⟨pieces' :: first, pieces, last, rfl, .cons hcall' hbefore, hcall, hafter⟩

/-! ## A line between the pieces of another -/

/-- A pointer alone is no record. -/
theorem reads_pointer (p : Ptr) : Reads [bytesOf (ptrText p), [newline]] [] := by
  have hline : [bytesOf (ptrText p), [newline]].flatten = bytesOf (ptrText p) ++ [newline] := by simp
  have hbare : newline ∉ bytesOf (ptrText p) := Ret.text_oneLine (.ptr p)
  have hnone : readRecord (bytesOf (ptrText p)) = none := by
    unfold readRecord
    rw [if_neg]
    rintro ⟨rest, hrest⟩
    unfold ptrText at hrest
    split at hrest
    · exact absurd (List.cons.inj hrest).1 (by decide)
    · rw [bytesOf_append] at hrest
      exact absurd (List.cons.inj hrest).1 (by decide)
  constructor
  · rw [hline]
    exact whole_line _
  · rw [hline]
    unfold history
    rw [Words.lines_cons hbare]
    simp [hnone, Words.lines]

/-- **A line of another process comes before the pointer**: the call seems to have returned what the other one
    has, and neither the pointer nor the other call is to be found. -/
theorem interrupted_reads {c d : Call} {p : Ptr} {v : Ret} (hc : Sends (c, .ptr p) pieces)
    (hd : Sends (d, v) pieces') :
    ∃ head rest, pieces = head :: rest ∧ Reads (head :: pieces') [record (c, v)] ∧ Reads rest [] := by
  obtain ⟨args, hargs, rfl⟩ := hc
  obtain ⟨args', hargs', hline'⟩ := hd.flatten
  refine ⟨bytesOf ("[logger] " ++ c.name ++ "(" ++ args ++ ") = "), _, rfl, ?_, reads_pointer p⟩
  -- all of the other line up to its result is taken for arguments
  have hall : OneLine (args ++ ") = [logger] " ++ d.name ++ "(" ++ args') :=
    (((hargs.append (by decide)).append d.name_oneLine).append (by decide)).append hargs'
  have hline : bytesOf ("[logger] " ++ c.name ++ "(" ++ args ++ ") = ") ++ bytesOf (lineOf d.name args' v) =
      bytesOf (lineOf c.name (args ++ ") = [logger] " ++ d.name ++ "(" ++ args') v) := by
    rw [← bytesOf_append]
    unfold lineOf
    have hjoin : ") = [logger] " = ") = " ++ "[logger] " := rfl
    simp only [hjoin, String.append_assoc]
  have hflat : (bytesOf ("[logger] " ++ c.name ++ "(" ++ args ++ ") = ") :: pieces').flatten =
      [bytesOf (lineOf c.name (args ++ ") = [logger] " ++ d.name ++ "(" ++ args') v) ++ [newline]].flatten := by
    rw [List.flatten_cons, hline', List.flatten_singleton, ← List.append_assoc, hline, List.flatten_singleton]
  exact (reads_line hall c v).of_flatten hflat

/-! ## A process -/

variable [DecidableEq δ]

/-- **A run of a process that leaves the log to the logger**, with its calls. No name that it passes has a line end
    in it, and nothing of its own goes to the log. -/
inductive Alone (L : Libc σ) (P : Process σ δ) (log : δ) (s₀ : St σ) : List (Call × Ret) → St σ → Prop
  | start : Alone L P log s₀ [] s₀
  | call {calls : List (Call × Ret)} {s t : St σ} {c : Call} {v : Ret} : Alone L P log s₀ calls s →
      (∀ text ∈ c.texts, OneLine text) → sentTo log (own P (afterInit L s) c) = [] →
      c.run L s = .ok (v, t) → Alone L P log s₀ (calls ++ [(c, v)]) t
  | elsewhere {calls : List (Call × Ret)} {s : St σ} {w : σ} : Alone L P log s₀ calls s →
      s.fdFlag = true → P.table w = P.table s.world → sentTo log (P.asked w) = sentTo log (P.asked s.world) →
      Alone L P log s₀ calls { s with world := w }

theorem Alone.reach (h : Alone L P log s calls t) : Reach L P s t := by
  induction h with
  | start => exact .start
  | call _ _ _ hrun ih => exact .call ih hrun
  | elsewhere _ hflag htable _ ih => exact .elsewhere ih hflag htable

/-- The process sends the pieces of its calls to the log, and nothing else. -/
theorem Alone.sends (hL : L.Describes P) (hnames : L.Names) (hinit : LogOpen P log (afterInit L s))
    (h : Alone L P log s calls t) : ∃ groups, List.Forall₂ Sends calls groups ∧
      sentTo log (P.asked t.world) = sentTo log (P.asked s.world) ++ groups.flatten := by
  induction h with
  | start => exact ⟨[], .nil, (List.append_nil _).symm⟩
  | @call calls u t c v halone htexts hown hrun ih =>
      obtain ⟨groups, hgroups, hsent⟩ := ih
      obtain ⟨args, hargs, hcall⟩ := call_sends hL hnames (reach_open hL hinit halone.reach) htexts hrun
      refine ⟨groups ++ [(piecesOf c.name args v).map bytesOf], ?_, ?_⟩
      · exact List.rel_append hgroups (.cons ⟨args, hargs, rfl⟩ .nil)
      · rw [hcall, hown, hsent, List.append_nil, List.flatten_append, List.flatten_singleton, List.append_assoc]
  | elsewhere _ _ _ hsame ih =>
      obtain ⟨groups, hgroups, hsent⟩ := ih
      exact ⟨groups, hgroups, hsame.trans hsent⟩

/-- What a process has sent to the log from one state to another. -/
def sentSince (P : Process σ δ) (log : δ) (s t : St σ) : List (List Byte) :=
  (sentTo log (P.asked t.world)).drop (sentTo log (P.asked s.world)).length

theorem Alone.sent (hL : L.Describes P) (hnames : L.Names) (hinit : LogOpen P log (afterInit L s))
    (h : Alone L P log s calls t) :
    ∃ groups, List.Forall₂ Sends calls groups ∧ sentSince P log s t = groups.flatten := by
  obtain ⟨groups, hgroups, hsent⟩ := h.sends hL hnames hinit
  refine ⟨groups, hgroups, ?_⟩
  rw [sentSince, hsent, List.drop_left]

/-! ## Several -/

section Several

variable {ι : Type} [DecidableEq ι] {called : ι → List (Call × Ret)} {groups : ι → List (List (List Byte))}
variable (hsends : ∀ i, List.Forall₂ Sends (called i) (groups i))

include hsends

/-- Lines in one piece are records in whatever order they come. -/
theorem whole_lines_read {ws : List (List Byte)} (hv : ∀ i, ∀ call ∈ called i, ∀ p, call.2 ≠ .ptr p)
    (h : Interleaving (fun i => (groups i).flatten) ws) :
    Interleaving (fun i => (called i).map record) (history ws.flatten) := by
  have hwhole : ∀ i, ∀ piece ∈ (groups i).flatten, EndsLine piece := fun i => whole_all (hsends i) (hv i)
  have hall : ∀ piece ∈ ws, EndsLine piece := by
    intro piece hmem
    obtain ⟨i, hi⟩ := h.exists_mem hmem
    exact hwhole i piece hi
  have hrecords : ∀ i, (groups i).flatten.flatMap history = (called i).map record := by
    intro i
    rw [← history_flatten (hwhole i), (reads_all (hsends i)).found]
  rw [history_flatten hall]
  have hlines := h.flatMap history
  simp only [hrecords] at hlines
  exact hlines

/-- The lines of one process come in its order. -/
theorem one_process_reads {ws : List (List Byte)} (hone : ∀ i j, called i ≠ [] → called j ≠ [] → i = j)
    (h : Interleaving (fun i => (groups i).flatten) ws) :
    Interleaving (fun i => (called i).map record) (history ws.flatten) := by
  have hnone : ∀ i, called i = [] → (groups i).flatten = [] := by
    intro i hi
    have hnil := hsends i
    rw [hi, List.forall₂_nil_left_iff] at hnil
    rw [hnil, List.flatten_nil]
  by_cases hcalls : ∀ i, called i = []
  · rw [h.eq_nil fun i => hnone i (hcalls i), List.flatten_nil]
    refine Reads.nil.found ▸ .nil fun i => ?_
    rw [hcalls i, List.map_nil]
  · obtain ⟨i, hi⟩ := not_forall.mp hcalls
    have hothers : ∀ k, k ≠ i → called k = [] := fun k hk => by_contra fun hcalled => hk (hone k i hcalled hi)
    have hws := (Interleaving.single fun k hk => hnone k (hothers k hk)).mp h
    rw [hws, (reads_all (hsends i)).found]
    exact (Interleaving.single fun k hk => by rw [hothers k hk, List.map_nil]).mpr rfl

/-- **An order in which the log is misread**, as soon as one process gets a pointer and another makes a call. -/
theorem pointer_misread [Fintype ι] {i j : ι} (hij : j ≠ i) {c : Call} {p : Ptr} (hc : (c, .ptr p) ∈ called i)
    (hd : called j ≠ []) : ∃ ws, Interleaving (fun k => (groups k).flatten) ws ∧
      ¬ Interleaving (fun k => (called k).map record) (history ws.flatten) := by
  obtain ⟨before, after, hi⟩ := List.append_of_mem hc
  obtain ⟨⟨d, v⟩, later, hj⟩ := List.exists_cons_of_ne_nil hd
  have hsendsI := hsends i
  have hsendsJ := hsends j
  rw [hi] at hsendsI
  rw [hj] at hsendsJ
  obtain ⟨first, pieces, last, hgroupsI, hbefore, hsent, hafter⟩ := sends_split hsendsI
  obtain ⟨pieces', groups', hsent', hlater, hgroupsJ⟩ := List.forall₂_cons_left_iff.mp hsendsJ
  obtain ⟨head, rest, rfl, hhead, hrest⟩ := interrupted_reads hsent hsent'
  -- the pieces in the bad order, and the records in that order had the line not been interrupted
  have hpiecesI : (groups i).flatten = (first.flatten ++ [head]) ++ (rest ++ last.flatten) := by simp [hgroupsI]
  have hpiecesJ : (groups j).flatten = pieces' ++ groups'.flatten := by rw [hgroupsJ, List.flatten_cons]
  have hpieces : Interleaving (fun k => (groups k).flatten) _ := Interleaving.interrupt hij hpiecesI hpiecesJ
  have hrecordsI : (called i).map record = (before.map record ++ [record (c, .ptr p)]) ++ ([] ++ after.map record) := by
    simp [hi]
  have hrecordsJ : (called j).map record = [record (d, v)] ++ later.map record := by rw [hj]; rfl
  have hrecords : Interleaving (fun k => (called k).map record) _ := Interleaving.interrupt hij hrecordsI hrecordsJ
  have hothers : ∀ k, Reads
      (Function.update (Function.update (fun k => (groups k).flatten) i last.flatten) j groups'.flatten k)
      (Function.update (Function.update (fun k => (called k).map record) i (after.map record)) j
        (later.map record) k) := by
    intro k
    by_cases hkj : k = j
    · subst hkj
      rw [Function.update_self, Function.update_self]
      exact reads_all hlater
    · rw [Function.update_of_ne hkj, Function.update_of_ne hkj]
      by_cases hki : k = i
      · subst hki
        rw [Function.update_self, Function.update_self]
        exact reads_all hafter
      · rw [Function.update_of_ne hki, Function.update_of_ne hki]
        exact reads_all (hsends k)
  have hreads := ((reads_all hbefore).append hhead).append
    (hrest.append (Reads.flatMap hothers Finset.univ.toList))
  refine ⟨_, hpieces, fun hread => ?_⟩
  -- one record is missing
  have hlength := hread.length_eq.trans hrecords.length_eq.symm
  have hfound := hreads.found
  simp only [List.append_assoc, List.cons_append, List.nil_append] at hfound hlength
  rw [hfound] at hlength
  simp at hlength

end Several

/-- **A log that several processes write.** Whatever the order of their writes, the log gives the calls of all of
    them back, those of each process in its order, exactly when no call has returned a pointer or no two processes
    have made calls. -/
theorem shared_log_iff {ι : Type} [Fintype ι] [DecidableEq ι] {log : ι → δ} {s t : ι → St σ}
    {calls : ι → List (Call × Ret)} (hL : L.Describes P) (hnames : L.Names)
    (hinit : ∀ i, LogOpen P (log i) (afterInit L (s i))) (h : ∀ i, Alone L P (log i) (s i) (calls i) (t i)) :
    (∀ ws, Interleaving (fun i => sentSince P (log i) (s i) (t i)) ws →
      Interleaving (fun i => (calls i).map record) (history ws.flatten)) ↔
    (∀ i, ∀ call ∈ calls i, ∀ p, call.2 ≠ .ptr p) ∨ ∀ i j, calls i ≠ [] → calls j ≠ [] → i = j := by
  choose groups hsends hsent using fun i => (h i).sent hL hnames (hinit i)
  simp only [hsent]
  constructor
  · intro hread
    by_contra hbad
    push Not at hbad
    obtain ⟨⟨i, ⟨c, _⟩, hc, p, rfl⟩, j, k, hj, hk, hjk⟩ := hbad
    -- one of the two is not the process with the pointer
    have hother : ∃ m, m ≠ i ∧ calls m ≠ [] := by
      by_cases hji : j = i
      · exact ⟨k, fun hki => hjk (hji.trans hki.symm), hk⟩
      · exact ⟨j, hji, hj⟩
    obtain ⟨m, hmi, hm⟩ := hother
    obtain ⟨ws, hws, hmisread⟩ := pointer_misread hsends hmi hc hm
    exact hmisread (hread ws hws)
  · rintro (hv | hone) ws hws
    · exact whole_lines_read hsends hv hws
    · exact one_process_reads hsends hone hws

/-- Two processes, one of which opens a stream while the other closes a descriptor. -/
theorem shared_log_iff_sample :
    let calls : Bool → Call := fun b => bif b then .fopen (some "a") (some "w") else .close 0
    let rets : Bool → Ret := fun b => bif b then .ptr 0x1004 else .int 0
    ¬ ∀ ws, Interleaving (fun b => sentSince procView 3 procSt (Proc.after procSt (calls b))) ws →
      Interleaving (fun b => [(calls b, rets b)].map record) (history ws.flatten) := by
  intro calls rets
  have hruns : ∀ b, Alone procLibc procView 3 procSt [(calls b, rets b)] (Proc.after procSt (calls b)) := by
    intro b
    have hstart : Alone procLibc procView 3 procSt [] procSt := .start
    cases b with
    | true => exact hstart.call (by decide) rfl rfl
    | false => exact hstart.call (by decide) rfl rfl
  rw [shared_log_iff procLibc_describes procLibc_names (fun _ => ⟨rfl, rfl⟩) hruns]
  rintro (hv | hone)
  · exact hv true _ List.mem_cons_self _ rfl
  · exact absurd (hone true false (List.cons_ne_nil _ _) (List.cons_ne_nil _ _)) (by decide)

end AdvUnix.Logger
