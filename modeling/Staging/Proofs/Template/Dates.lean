import Staging.Proofs.Calendar.Stamps
import Staging.Proofs.Script.CallDepth
import Staging.Proofs.Script.ScopeNames
import Staging.Proofs.Template.ReadBack
import Staging.Template.Context

/-!
The code of a date.

A date is made of a number or of a text (`Instant.Made`). Its code is `new Date("..")` with the text of the instant. A
program of this code finds the builtin, which every script has (`Heap.knows_date`), and this reads the text again.

Main statement: `date_reads_back`. In a year with four digits the program gives a date of the same millisecond. In any
other year the text is one that nothing reads, and the program fails (`far_date_unreadable`).
-/

namespace Staging

/-- The instants that dates can be of: those that a number of milliseconds denotes, and those that a text denotes. -/
inductive Instant.Made : Instant → Prop where
  | number {x : Float} {t : Instant} : ofNumber? x = some t → Made t
  | text {text : String} {t : Instant} : read? text = some t → Made t

theorem Instant.Made.wellFormed {t : Instant} : t.Made → t.WellFormed
  | .number made => wellFormed_of_ofNumber? made
  | .text made => wellFormed_of_read? made

namespace Script

/-- A date that a script makes has such an instant, unless it is a copy of another one. -/
theorem made_of_makeDate {v w : Value} {s s' : State} (run : makeDate v s = .ok w s')
    (given : ∀ t, v = .date t → t.Made) : ∃ t, w = .date t ∧ t.Made := by
  cases v with
  | string text =>
    simp only [makeDate] at run
    cases made : Instant.read? text with
    | some t =>
      rw [made] at run
      obtain ⟨rfl, -⟩ := pure_eq_ok.1 run
      exact ⟨t, rfl, .text made⟩
    | none =>
      rw [made] at run
      cases run
  | date t =>
    obtain ⟨rfl, -⟩ := pure_eq_ok.1 run
    exact ⟨t, rfl, given t rfl⟩
  | _ =>
    simp only [makeDate] at run
    obtain ⟨x, s'', -, run⟩ := bind_eq_ok.1 run
    cases made : Instant.ofNumber? x with
    | some t =>
      rw [made] at run
      obtain ⟨rfl, -⟩ := pure_eq_ok.1 run
      exact ⟨t, rfl, .number made⟩
    | none =>
      rw [made] at run
      cases run

/-! ### The builtin -/

namespace Heap

/-- A builtin stands under its name. -/
def Knows (h : Heap) (env : Env) (b : Builtin) : Prop :=
  ∃ ref, h.lookup? env b.name = some (.function ref) ∧ h.function? ref = some (.builtin b)

/-- Declares a builtin under its name. -/
def add (h : Heap) (env : Env) (b : Builtin) : Heap := (h.builtin b).2.declare env b.name (h.builtin b).1 false

theorem functions_declare (h : Heap) (env : Env) (name : String) (v : Value) (mutable : Bool) :
    (h.declare env name v mutable).functions = h.functions := by
  cases env <;> rfl

theorem knows_add {h : Heap} {index : Nat} (inside : index < h.frames.size) (b : Builtin) :
    (h.add [index] b).Knows [index] b := by
  refine ⟨h.functions.size, lookup?_declare_self inside, ?_⟩
  simp [add, function?, functions_declare, builtin, newFunction]

theorem Knows.add {h : Heap} {index : Nat} {b : Builtin} (knows : h.Knows [index] b) (inside : index < h.frames.size)
    {other : Builtin} (named : b.name ≠ other.name) : (h.add [index] other).Knows [index] b := by
  obtain ⟨ref, found, is⟩ := knows
  refine ⟨ref, (lookup?_declare_of_ne inside (by simp) named).trans found, ?_⟩
  have old : ref < h.functions.size := (Array.getElem?_eq_some_iff.1 is).1
  have kept : (h.functions.push (.builtin other))[ref]? = h.functions[ref]? := by
    rw [Array.getElem?_push, if_neg (by omega)]
  simpa [Heap.add, function?, functions_declare, builtin, newFunction, kept] using is

theorem knows_date (h : Heap) : h.globals.2.Knows h.globals.1 .date := by
  obtain ⟨before, inside, is⟩ : ∃ before : Heap, h.frames.size < before.frames.size ∧
      h.globals = ([h.frames.size], (before.add [h.frames.size] .date).add [h.frames.size] .error) := by
    refine ⟨_, ?_, rfl⟩
    simp [builtin, newFunction]
  rw [is]
  have declared := knows_add inside .date
  refine declared.add ?_ (by decide)
  simpa [add, builtin, newFunction] using inside

/-- A new scope hides nothing. -/
theorem lookup?_child (h : Heap) (env : Env) (name : String) :
    (h.child env).2.lookup? (h.child env).1 name = h.lookup? env name := by
  have outer (env' : Env) : (h.child env).2.resolve? env' name = h.resolve? env' name := by
    induction env' with
    | nil => rfl
    | cons i rest ih => simp only [resolve?, frame_child, ih]
  have empty : (h.child env).2.frame h.frames.size = [] := by rw [frame_child, frame_size]
  show ((h.child env).2.resolve? (h.frames.size :: env) name).map (·.2.value) = _
  simp only [resolve?, empty, outer]
  rfl

theorem Knows.child {h : Heap} {env : Env} {b : Builtin} (knows : h.Knows env b) :
    (h.child env).2.Knows (h.child env).1 b := by
  obtain ⟨ref, found, is⟩ := knows
  exact ⟨ref, (h.lookup?_child env _).trans found, is⟩

end Heap

theorem run_date (now : Instant) (text : String) (s : State) :
    Builtin.date.run now [.string text] s = match Instant.read? text with
      | some t => .ok (.date t) s
      | none => .error (.error (.native (.invalidDate text))) s := by
  show (match Instant.read? text with
    | some t => return .date t
    | none => raise (.native (.invalidDate text)) : Eval Value) s = _
  cases Instant.read? text <;> rfl

/-- Where the builtin is known under its name, applying `new` to the name and a text reads the text. -/
theorem evalExpr_newDate {env : Env} {s : State} (knows : s.toHeap.Knows env .date) (shallow : s.depth < maxCallDepth)
    (span span' span'' : Span) (text : String) (host : Host) (fuel : Nat) :
    evalExpr host (fuel + 2) env (.new span (.ident span' "Date") [.literal span'' (.string text)]) s =
      match Instant.read? text with
      | some t => .ok (.date t) s
      | none => .error (.error (.native (.invalidDate text))) s := by
  obtain ⟨ref, found, is⟩ := knows
  have named : evalExpr host (fuel + 1) env (.ident span' "Date") s = .ok (.function ref) s := by
    refine bind_eq_ok.2 ⟨s.toHeap, s, rfl, ?_⟩
    simp only [show s.toHeap.lookup? env "Date" = some (.function ref) from found]
    rfl
  have called : callValue host (fuel + 1) (.function ref) [.string text] s =
      nested (Builtin.date.run host.now [.string text]) s := by
    rw [callValue_eq (Nat.le_of_lt shallow) is, if_neg (Nat.ne_of_lt shallow)]
    rfl
  have evaluated : evalExpr host (fuel + 2) env (.new span (.ident span' "Date") [.literal span'' (.string text)]) s =
      callValue host (fuel + 1) (.function ref) [.string text] s := by
    refine (bind_of_ok named).trans ?_
    rfl
  rw [evaluated, called]
  simp only [nested, run_date]
  cases Instant.read? text <;> rfl

/-- The scope of a program in an interpreter of its own, and the state it starts in. -/
def freshScope (s : State) : Env := (s.toHeap.globals.2.child s.toHeap.globals.1).1

def freshState (s : State) : State := { (s.toHeap.globals.2.child s.toHeap.globals.1).2 with depth := 0 }

theorem knows_date_fresh (s : State) : (freshState s).toHeap.Knows (freshScope s) .date :=
  s.toHeap.knows_date.child

section

variable {host : Host} {fuel : Nat} {span : Span} {e : Expr} {s t : State}

/-- The program of an expression gives what the expression gives. -/
theorem runFresh_expr {v : Value} (run : evalExpr host fuel (freshScope s) e (freshState s) = .ok v t) :
    runFresh host (fuel + 1) [.expr span e] s = .ok v { t with depth := s.depth } := by
  have stated : execStmt host (fuel + 1) (freshScope s) (.expr span e) (freshState s) = .ok (.normal (some v)) t :=
    bind_eq_ok.2 ⟨v, t, run, rfl⟩
  have program : (freshGlobals >>= fun globals => runProgram host (fuel + 1) globals [.expr span e])
      { s with depth := 0 } = .ok v t := by
    refine bind_eq_ok.2 ⟨s.toHeap.globals.1, { s.toHeap.globals.2 with depth := 0 }, rfl, ?_⟩
    refine bind_eq_ok.2 ⟨freshScope s, freshState s, rfl, ?_⟩
    refine bind_eq_ok.2 ⟨.normal (some v), t, ?_, rfl⟩
    refine bind_eq_ok.2 ⟨(), freshState s, rfl, ?_⟩
    exact bind_eq_ok.2 ⟨.normal (some v), t, stated, rfl⟩
  simp only [runFresh, program]

theorem runFresh_expr_error {fault : Fault}
    (run : evalExpr host fuel (freshScope s) e (freshState s) = .error fault t) :
    runFresh host (fuel + 1) [.expr span e] s = .error fault { t with depth := s.depth } := by
  have stated : execStmt host (fuel + 1) (freshScope s) (.expr span e) (freshState s) = .error fault t :=
    bind_eq_error.2 (.inl run)
  have program : (freshGlobals >>= fun globals => runProgram host (fuel + 1) globals [.expr span e])
      { s with depth := 0 } = .error fault t := by
    refine bind_eq_error.2 (.inr ⟨s.toHeap.globals.1, { s.toHeap.globals.2 with depth := 0 }, rfl, ?_⟩)
    refine bind_eq_error.2 (.inr ⟨freshScope s, freshState s, rfl, ?_⟩)
    refine bind_eq_error.2 (.inl ?_)
    refine bind_eq_error.2 (.inr ⟨(), freshState s, rfl, ?_⟩)
    exact bind_eq_error.2 (.inl stated)
  simp only [runFresh, program]

end

end Script

namespace Template

open Script

/-! ### The code -/

theorem written_date (h : Heap) (t : Instant) :
    written h (.date t) = .ok ("new Date(" ++ Text.Quoted.encode t.text ++ ")") := by
  unfold written codeOf
  rfl

theorem eq_string_of_bare {l : Literal} {text : String} (h : l.bare = Literal.bare (.string text)) :
    l = .string text := by
  cases l with
  | number x => exact nomatch h
  | _ => exact h

theorem eq_date_of_bare {read : List Stmt} {t : Instant}
    (h : read.map Stmt.bare = [Stmt.expr nowhere (dateTree t)].map Stmt.bare) :
    ∃ s₁ s₂ s₃ s₄, read = [.expr s₁ (.new s₂ (.ident s₃ "Date") [.literal s₄ (.string t.text)])] := by
  obtain ⟨first, rfl, same⟩ := List.map_eq_singleton_iff.1 h
  cases first with
  | expr s₁ e =>
    have same : e.bare = .new nowhere (.ident nowhere "Date") [.literal nowhere (.string t.text)] := by
      simpa [Stmt.bare, dateTree, Expr.bare, Literal.bare] using same
    cases e with
    | new s₂ callee args =>
      obtain ⟨sameCallee, sameArgs⟩ : callee.bare = .ident nowhere "Date"
          ∧ args.map Expr.bare = [.literal nowhere (.string t.text)] := by simpa [Expr.bare] using same
      obtain ⟨arg, rfl, sameArg⟩ := List.map_eq_singleton_iff.1 sameArgs
      cases callee with
      | ident s₃ n =>
        obtain rfl : n = "Date" := by simpa [Expr.bare] using sameCallee
        obtain ⟨s₄, l, rfl, sameText⟩ := eq_literal_of_bare (v := .string t.text) sameArg
        obtain rfl := eq_string_of_bare sameText
        exact ⟨s₁, s₂, s₃, s₄, rfl⟩
      | _ => simp [Expr.bare] at sameCallee
    | _ => simp [Expr.bare] at same
  | _ => simp [Stmt.bare] at same

/-- A statement may begin with the code of a date. -/
theorem starts_date (t : Instant) :
    Writes (StartPhrase (dateTree t)) ("new Date(" ++ Text.Quoted.encode t.text ++ ")").toList := by
  obtain ⟨ts, spelled, phrase⟩ := (Spelled.date (v := .date t) t).phrase
  refine ⟨ts, spelled, phrase.weaken (Precedence.lowest_le _), ?_⟩
  obtain ⟨object, function⟩ := Phrase.leftmost _ phrase
  unfold beginsStatement
  split
  · exact nomatch object ‹_›
  · obtain ⟨_, _, begins, -⟩ := function ‹_›
    exact nomatch begins
  · rfl

theorem parses_date (t : Instant) :
    ∃ s₁ s₂ s₃ s₄, parseProgram ("new Date(" ++ Text.Quoted.encode t.text ++ ")" ++ ";") =
      .ok [.expr s₁ (.new s₂ (.ident s₃ "Date") [.literal s₄ (.string t.text)])] := by
  have sentence : Writes (Sequence Sentence [.expr nowhere (dateTree t)])
      ("new Date(" ++ Text.Quoted.encode t.text ++ ")" ++ ";").toList := by
    rw [String.toList_append]
    exact (starts_date t).exprStmt.oneStatement
  obtain ⟨read, parses, same⟩ := parseProgram_of_writes sentence
  obtain ⟨s₁, s₂, s₃, s₄, rfl⟩ := eq_date_of_bare same
  exact ⟨s₁, s₂, s₃, s₄, parses⟩

/-- A program of the code of a date reads the text of the instant. -/
theorem run_dateCode (t : Instant) :
    ∃ body, parseProgram ("new Date(" ++ Text.Quoted.encode t.text ++ ")" ++ ";") = .ok body ∧
      ∀ (host : Host) (fuel : Nat) (s : State), 3 ≤ fuel → ∃ s', runFresh host fuel body s =
        match Instant.read? t.text with
        | some u => .ok (.date u) s'
        | none => .error (.error (.native (.invalidDate t.text))) s' := by
  obtain ⟨s₁, s₂, s₃, s₄, parses⟩ := parses_date t
  refine ⟨_, parses, fun host fuel s enough => ?_⟩
  obtain ⟨fuel, rfl⟩ : ∃ n, fuel = n + 3 := ⟨fuel - 3, by omega⟩
  have evaluated := evalExpr_newDate (knows_date_fresh s) (show 0 < maxCallDepth by decide) s₂ s₃ s₄ t.text host fuel
  cases read : Instant.read? t.text with
  | some u =>
    rw [read] at evaluated
    exact ⟨_, runFresh_expr evaluated⟩
  | none =>
    rw [read] at evaluated
    exact ⟨_, runFresh_expr_error evaluated⟩

/-- The dates of a context are made of texts. -/
theorem made_of_loadDate {text : String} {v : Value} {h h' : Heap} (loaded : loadDate text h = .ok (v, h')) :
    ∃ t, v = .date t ∧ t.Made := by
  unfold loadDate at loaded
  cases made : Instant.read? text with
  | some t =>
    rw [made] at loaded
    cases loaded
    exact ⟨t, rfl, .text made⟩
  | none =>
    rw [made] at loaded
    exact nomatch loaded

/--
**The code of a date denotes the same instant.** The code of every date that can be made is a program. Where the year
has four digits, the program gives a date with the same time in milliseconds. In any other year it fails, because the
text in it denotes nothing.
-/
theorem date_reads_back {t : Instant} (made : t.Made) (h : Heap) :
    ∃ code body, written h (.date t) = .ok code ∧ parseProgram (code ++ ";") = .ok body ∧
      ∀ (host : Host) (fuel : Nat) (s : State), 3 ≤ fuel →
        (t.FourDigits → ∃ u s', runFresh host fuel body s = .ok (.date u) s' ∧
          u.millis = t.millis ∧ dateMethod u "getTime" = dateMethod t "getTime") ∧
        (¬ t.FourDigits → ∃ s', runFresh host fuel body s = .error (.error (.native (.invalidDate t.text))) s') := by
  obtain ⟨body, parses, runs⟩ := run_dateCode t
  refine ⟨_, body, written_date h t, parses, fun host fuel s enough => ?_⟩
  obtain ⟨s', run⟩ := runs host fuel s enough
  constructor
  · intro year
    rw [Instant.read?_text made.wellFormed year] at run
    refine ⟨t.cut, s', run, t.millis_cut, ?_⟩
    show (return .number (Float.ofInt t.cut.millis) : Eval Value) = return .number (Float.ofInt t.millis)
    rw [t.millis_cut]
  · intro year
    rw [Instant.read?_text_eq_none made.wellFormed year] at run
    exact ⟨s', run⟩

/-- Half a millisecond after the start of a leap second. -/
def leapSecond : Instant := ⟨1483228799, 1000500000⟩

/-- The fraction is cut to milliseconds, and the leap second stays one. -/
theorem date_reads_back_leap : Instant.read? "2016-12-31T23:59:60.0005Z" = some leapSecond ∧
    ∃ body, parseProgram "new Date(\"2016-12-31T23:59:60.000Z\");" = .ok body ∧
      ∃ u s', runFresh Host.none 3 body {} = .ok (.date u) s' ∧ u.millis = leapSecond.millis := by
  have read : Instant.read? "2016-12-31T23:59:60.0005Z" = some leapSecond := by decide +kernel
  obtain ⟨code, body, writes, parses, runs⟩ := date_reads_back (.text read) {}
  have text : written {} (.date leapSecond) = .ok "new Date(\"2016-12-31T23:59:60.000Z\")" := by
    rw [written_date]
    decide +kernel
  obtain rfl := Except.ok.inj (writes.symm.trans text)
  obtain ⟨u, s', run, same, -⟩ := (runs Host.none 3 {} le_rfl).1 (by decide +kernel)
  exact ⟨read, body, parses, u, s', run, same⟩

/-- The start of the year after the last one with four digits. -/
def farYear : Instant := ⟨253402300800, 0⟩

/-- A context has such a date, and the program of its code fails. -/
theorem far_date_unreadable : Instant.read? "+10000-01-01" = some farYear ∧
    ∃ code body, written {} (.date farYear) = .ok code ∧ parseProgram (code ++ ";") = .ok body ∧
      ∃ s', runFresh Host.none 3 body {} =
        .error (.error (.native (.invalidDate "+10000-01-01T00:00:00.000Z"))) s' := by
  have read : Instant.read? "+10000-01-01" = some farYear := by decide +kernel
  have text : farYear.text = "+10000-01-01T00:00:00.000Z" := by decide +kernel
  obtain ⟨body, parses, runs⟩ := run_dateCode farYear
  obtain ⟨s', run⟩ := runs Host.none 3 {} le_rfl
  have unread : Instant.read? farYear.text = none := by decide +kernel
  rw [unread, text] at run
  exact ⟨read, _, body, written_date {} farYear, parses, s', run⟩

end Template

end Staging
