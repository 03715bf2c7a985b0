import Staging.Proofs.Grammar.Numerals
import Staging.Proofs.Template.Inlining
import Staging.Proofs.Template.Refinement

/-!
Templates of one expression.

Main statement: `inlining_keeps_meaning`. The code that is generated from the template of a pure expression comes to what
the expression comes to with the staged names bound: to a value with the same contents, or to the same failure. This is
put together from what writing the values leaves (`specializes_expr`), from the text that is read as what is left
(`execute_refines`), and from the meanings that runs come to (`runProgram_comesTo`).

The expression has to be intact for the values. Of a chain with a method behind it, the receiver is written on its own if
the arguments are not staged; where the chain has stopped in the receiver, the code for the method goes on all the same
(`cut_chain_fails`).
-/

namespace Staging.Template

open Script

variable {σ : String → Option Datum} {known : String → Bool} {r : Registry} {context : Context} {s : State}

/-! ### The values of the parameters -/

/-- The context has plain data for the staged names, and nothing else is given. -/
structure Supplies (context : Context) (s : State) (r : Registry) (σ : String → Option Datum) : Prop where
  given : ∀ n ∈ r.staged, ∃ v d, context.get? n = some v ∧ σ n = some d ∧ s.toHeap.Carries v d ∧ d.Plain
  only : ∀ n, isGiven σ n = true → n ∈ r.staged

/-- Where every staged parameter is inlined and none is raw, nothing is declared in the generated code. -/
theorem Registry.ofParams_all {params : List Param} (registry : Registry.ofParams params { inline := .all } = .ok r) :
    r.inlined = r.staged ∧ r.declared = [] ∧ ∀ n ∈ r.staged, isStageName n = true := by
  obtain ⟨-, all, names, staged⟩ := Registry.ofParams_ok registry
  have same : r.inlined = r.staged := by
    rw [Registry.ofParams, names] at registry
    cases registry
    rfl
  refine ⟨same, ?_, fun n there => ?_⟩
  · rw [Registry.declared, same]
    exact List.filter_eq_nil_iff.2 fun n there => by simpa using there
  · rw [staged, Names.ofList, Names.mem_addAll] at there
    rcases there with none | given
    · cases none
    · exact (List.mem_filter.1 given).2

theorem Supplies.supplied {params : List Param} (registry : Registry.ofParams params { inline := .all } = .ok r)
    (supplies : Supplies context s r σ) : Supplied r σ := by
  obtain ⟨inlined, -, staged⟩ := Registry.ofParams_all registry
  refine ⟨fun n given => ?_, fun n d is => ?_⟩
  · have there := supplies.only n given
    rw [staged n there, inlined]
    simpa using there
  · obtain ⟨v, d', -, same, -, plain⟩ := supplies.given n (supplies.only n (Option.isSome_iff_exists.2 ⟨d, is⟩))
    obtain rfl : d = d' := Option.some.inj (is.symm.trans same)
    exact plain

/-- Declaring parameters that all have a value. -/
theorem bindParams_eq {index : Nat} {outer : Env} (fresh : index ∉ outer) {names : List String}
    (bound : ∀ n ∈ names, (context.get? n).isSome) (inside : index < s.frames.size) :
    ∃ t : State, bindParams context (index :: outer) names s = .ok () t ∧ s.toHeap.Extends t.toHeap ∧
      ∀ n, t.toHeap.lookup? (index :: outer) n
        = if n ∈ names then context.get? n else s.toHeap.lookup? (index :: outer) n := by
  induction names generalizing s with
  | nil => exact ⟨s, rfl, .of_eq rfl rfl, by simp⟩
  | cons n rest ih =>
    obtain ⟨v, there⟩ := Option.isSome_iff_exists.1 (bound n List.mem_cons_self)
    let declared : State := { s.toHeap.declare (index :: outer) n v false with depth := s.depth }
    obtain ⟨t, run, more, look⟩ := ih (s := declared) (fun m among => bound m (List.mem_cons_of_mem _ among))
      (by simpa [declared] using inside)
    have ran : bindParams context (index :: outer) (n :: rest) s = .ok () t := by
      rw [bindParams, there]
      exact run
    refine ⟨t, ran, (s.toHeap.extends_declare (index :: outer) n v false).trans more, fun m => ?_⟩
    rw [look]
    by_cases later : m ∈ rest
    · simp [later]
    · by_cases here : m = n
      · subst here
        simp [later, there, declared, Heap.lookup?_declare_self inside]
      · simp [later, here, declared, Heap.lookup?_declare_of_ne inside fresh here]

/-! ### What is left of the template -/

theorem residualStmts_expr {ev : Evaluator} {env : Env} {span : Span} {e : Expr} :
    residualStmts ev r env [.expr span e] = residualExpr ev r env e >>= fun e' => return ([.expr span e'], .normal) := by
  have steps : residualStmts ev r env [.expr span e] = residualStmt ev r env (.expr span e) >>= _ := rfl
  rw [steps, residualStmt_expr, bind_assoc]
  rfl

/-- Specialising the template of an expression comes to the expression with the staged data at hand. -/
theorem residualProgram_expr (supplies : Supplies context s r σ) (undeclared : r.declared = []) (ev : Evaluator)
    (span : Span) (e : Expr) : ∃ (env : Env) (t : State), t.toHeap.Binds env σ (isGiven σ) ∧
      residualProgram ev r [.expr span e] context s =
        (residualExpr ev r env e >>= fun e' => return [.expr span e']) t := by
  have bound : ∀ n ∈ r.staged, (context.get? n).isSome := fun n there => by
    obtain ⟨v, d, found, -⟩ := supplies.given n there
    rw [found]
    rfl
  let globals : Env := s.toHeap.globals.1
  let env : Env := s.toHeap.globals.2.frames.size :: globals
  let start : State := { (s.toHeap.globals.2.child globals).2 with depth := s.depth }
  have fresh : s.toHeap.globals.2.frames.size ∉ globals := by
    have outer : globals = [s.frames.size] := rfl
    simp [outer]
  have opened : s.toHeap.Extends start.toHeap :=
    s.toHeap.extends_globals.trans (Heap.extends_child s.toHeap.globals.2 globals)
  obtain ⟨t, declared, more, look⟩ := bindParams_eq (s := start) fresh bound (by simp [start, Heap.child])
  refine ⟨env, t, fun n given => ?_, ?_⟩
  · have there := supplies.only n given
    obtain ⟨v, d, found, is, carried, -⟩ := supplies.given n there
    rw [look n, if_pos there, found, is]
    exact .some (carried.extend (opened.trans more))
  · calc residualProgram ev r [.expr span e] context s
      _ = (bindParams context env r.staged >>= fun _ =>
            residualDeclarations .const (fun name => ev.expr env (.ident nowhere name)) r.declared >>= fun ds =>
              residualStmts ev r env [.expr span e] >>= fun rest => return ds ++ rest.1) start := rfl
      _ = (residualStmts ev r env [.expr span e] >>= fun rest => return rest.1) t := by
        rw [bind_of_ok declared, undeclared]
        rfl
      _ = (residualExpr ev r env e >>= fun e' => return [.expr span e']) t := by
        rw [residualStmts_expr, bind_assoc]
        rfl

/-- Of the template of an intact expression an expression is left that means the same, unless evaluating fails. -/
theorem residual_expr {params : List Param} (registry : Registry.ofParams params { inline := .all } = .ok r)
    (supplies : Supplies context s r σ) {e : Expr} (pure : e.isPure known = true) (signless : e.isSignless = true)
    (intact : Intact r σ e) (span : Span) (host : Host) (fuel : Nat) :
    (∃ e' t, residual host fuel r [.expr span e] context s = .ok [.expr span e'] t ∧ Faithful r σ known e e') ∨
      ∃ f t, residual host fuel r [.expr span e] context s = .error (.fault f) t := by
  obtain ⟨-, undeclared, -⟩ := Registry.ofParams_all registry
  have supplies' : Supplies context { s with depth := 0 } r σ := ⟨supplies.given, supplies.only⟩
  obtain ⟨env, t, binds, program⟩ := residualProgram_expr supplies' undeclared (evaluator host fuel) span e
  have left : Specializes t (residualExpr (evaluator host fuel) r env e >>= fun e' => return [Stmt.expr span e'])
      fun tree => ∃ e', tree = [.expr span e'] ∧ Faithful r σ known e e' :=
    (specializes_expr (supplies.supplied registry) e pure signless intact t binds).bind
      fun e' _ _ faithful => .pure ⟨e', rfl, faithful⟩
  rw [Specializes, ← program] at left
  simp only [residual]
  generalize residualProgram (evaluator host fuel) r [.expr span e] context { s with depth := 0 } = res at left
  cases left with
  | left _ is =>
    obtain ⟨e', rfl, faithful⟩ := is
    exact .inl ⟨e', _, rfl, faithful⟩
  | fault => exact .inr ⟨_, _, rfl⟩

/-! ### Runs -/

/-- Two runs end alike: with values that are the same datum, or with the same failure. -/
inductive EndAlike : EStateM.Result Fault State Value → EStateM.Result Fault State Value → Prop
  | value {v v' : Value} {t t' : State} {d : Datum} : t.toHeap.Carries v d → t'.toHeap.Carries v' d →
      EndAlike (.ok v t) (.ok v' t')
  | failure {e : RuntimeError} {t t' : State} : EndAlike (.error (.error e) t) (.error (.error e) t')

theorem ComesTo.endAlike {run run' : EStateM.Result Fault State Value} {m : Except Stop Datum} (comes : ComesTo run m)
    (comes' : ComesTo run' m) (contents : m ≠ .error .beyond) : EndAlike run run' := by
  match m with
  | .ok d =>
    obtain ⟨v, t, rfl, carried⟩ := comes
    obtain ⟨v', t', rfl, carried'⟩ := comes'
    exact .value carried carried'
  | .error (.failure e) =>
    obtain ⟨t, rfl⟩ := comes
    obtain ⟨t', rfl⟩ := comes'
    exact .failure
  | .error .beyond => exact absurd rfl contents

/-- A program that is an expression up to spans is an expression. -/
theorem exists_expr_of_bare {read : List Stmt} {span : Span} {e : Expr}
    (same : read.map Stmt.bare = [.expr span e].map Stmt.bare) :
    ∃ span' e', read = [.expr span' e'] ∧ e'.bare = e.bare := by
  obtain ⟨stmt, rfl, same⟩ := List.map_eq_singleton_iff.1 same
  cases stmt with
  | expr span' e' => exact ⟨span', e', rfl, by simpa [Stmt.bare] using same⟩
  | _ => simp [Stmt.bare] at same

/--
**Specialising a pure expression keeps its value.** All parameters are inlined, and they have plain data for values. Where
building the template of a pure expression that is intact for them gives a text, this is read as a program which, in any
scope, ends as the expression does in a scope where the same data stand for its names and the values for the staged ones.

A template that is read is printable and its numbers have no signs (`signless_of_parseProgram`). Nothing is said where an
array is searched for a container: what is found is then not a matter of contents.
-/
theorem inlining_keeps_meaning {params : List Param} (registry : Registry.ofParams params { inline := .all } = .ok r)
    {span : Span} {e : Expr} {p : Program} (compiles : compile r [.expr span e] = .ok p)
    (printable : e.isPrintable = true) (signless : e.isSignless = true) (pure : e.isPure known = true)
    (supplies : Supplies context s r σ) (intact : Intact r σ e) {host : Host} {fuel : Nat} {text : String} {s' : State}
    (built : execute host fuel p context s = .ok (.ok text) s') :
    ∃ read enough, parseProgram text = .ok read ∧
      ∀ (host : Host) (fuel : Nat) (env env' : Env) (data : String → Option Datum) (t t' : State), enough ≤ fuel →
        t.toHeap.Binds env data (isLeft σ known) → t'.toHeap.Binds env' (overlay σ data) known →
        meaning (overlay σ data) e ≠ .error .beyond →
        EndAlike (runProgram host fuel env read t) (runProgram host fuel env' [.expr span e] t') := by
  obtain ⟨-, undeclared, -⟩ := Registry.ofParams_all registry
  have names : ∀ n ∈ r.declared, isName n = true := by simp [undeclared]
  have refines := execute_refines compiles (by simpa [Stmt.allPrintable, Stmt.isPrintable] using printable) names host
    fuel context s
  obtain ⟨e', t, left, faithful⟩ | ⟨f, t, left⟩ :=
    residual_expr registry supplies pure signless intact span host fuel
  · -- the text is read as what is left of the expression, up to spans, and this means the same
    obtain ⟨text', read, runs, parses, sameTrees⟩ := refines.1 _ _ left
    rw [built] at runs
    cases runs
    obtain ⟨span', e'', rfl, same⟩ := exists_expr_of_bare sameTrees
    have signless' : e''.isSignless = true := signless_of_parseProgram parses List.mem_cons_self
    have pure' : e''.isPure (isLeft σ known) = true := by
      rw [← isPure_bare, same, isPure_bare]
      exact faithful.pure
    refine ⟨_, max (sizeOf e'') (sizeOf e) + 1, parses,
      fun host fuel env env' data t t' enough binds binds' contents => ?_⟩
    have meant : meaning data e'' = meaning (overlay σ data) e := by
      rw [meaning_of_bare_eq faithful.signless signless' same, faithful.meaning (fate_ne_call pure)]
    have comes : ComesTo (runProgram host fuel env [.expr span' e''] t) (meaning data e'') :=
      runProgram_comesTo pure' (by omega) span' binds
    rw [meant] at comes
    exact ComesTo.endAlike comes (runProgram_comesTo pure (by omega) span binds') contents
  · -- where specialising fails, building does not give a text
    cases f with
    | error e =>
      have fails := (refines.2 _ _ left).1 _ rfl
      rw [built] at fails
      cases fails
    | outOfFuel =>
      have fails := (refines.2 _ _ left).2 rfl
      rw [built] at fails
      cases fails

/-- The parameter `$o`. -/
def objectParams : List Param := [⟨nowhere, .name "$o", none, false⟩]

/-- One name whose value is written. -/
def objectInlined : Registry := ⟨["$o"], ["$o"], [], true⟩

/-- The datum of the object `{a: null}`. -/
def emptyAtA (n : String) : Option Datum := if n = "$o" then some (.object [("a", .null)]) else none

/-- The chain `$o.a?.b`, which stops at its second link where `a` is absent. -/
def stoppingChain : Expr :=
  .member nowhere (.member nowhere (.ident nowhere "$o") (.named "a") false) (.named "b") true

/-- The template `$o.a?.b.c ?? x;`. -/
def stoppingOr : Expr :=
  .binary nowhere .nullish (.member nowhere stoppingChain (.named "c") false) (.ident nowhere "x")

/-- What is compiled from `stoppingOr`. -/
def stoppingOrProgram : Program :=
  ⟨["$o"], [.inline (.member nowhere stoppingChain (.named "c") false) .nullish true, .literal " ?? x;"]⟩

theorem objectInlined_ofParams : Registry.ofParams objectParams { inline := .all } = .ok objectInlined := by cbv

theorem compile_stoppingOr : compile objectInlined [.expr nowhere stoppingOr] = .ok stoppingOrProgram := by
  have chain : planExpr objectInlined (.member nowhere stoppingChain (.named "c") false) .nullish = .inline := by cbv
  have other : planExpr objectInlined (.ident nowhere "x") .logicalOr = .keep [.text "x"] := by cbv
  have stmt : (Place.top objectInlined).plan (.expr nowhere stoppingOr) = .keep := rfl
  have inner : Emits ((Place.top objectInlined).inside (.expr nowhere stoppingOr)).aside true
      (stoppingOr.layout .lowest) _ _ :=
    .inline chain (.text (.keepExpr other (.text .nil) .nil))
  exact compile_ok_iff.2 ⟨_, _, .keepStmt stmt (.keepExpr rfl inner (.text .nil)) .nil, by rfl⟩

theorem supplies_emptyAtA : Supplies [("$o", .object 0)] { objects := #[[("a", .null)]] } objectInlined emptyAtA := by
  refine ⟨fun n there => ?_, fun n given => ?_⟩
  · obtain rfl := List.mem_singleton.1 there
    refine ⟨_, _, rfl, rfl, .object (by decide) (by decide) (.cons ⟨rfl, .atom .null rfl⟩ .nil), ?_⟩
    exact .object (by decide) (List.forall_mem_singleton.2 .null)
  · by_contra other
    rw [isGiven, emptyAtA, if_neg fun same => other (List.mem_singleton.2 same)] at given
    cases given

theorem intact_stoppingOr : Intact objectInlined emptyAtA stoppingOr := by
  have inlined : fate objectInlined (.member nowhere stoppingChain (.named "c") false) = .inline := by cbv
  have left : fate objectInlined (.ident nowhere "x") = .keep := by cbv
  have stops : outcome emptyAtA (.member nowhere stoppingChain (.named "c") false) = .ok none := rfl
  rw [stoppingOr, Intact]
  show Intact _ _ _ ∧ Intact _ _ _
  constructor
  · rw [Intact, inlined]
    refine ⟨by decide, ?_, fun _ _ _ _ same => ?_⟩
    · rw [stops]
      rintro ⟨⟩
    · cases same
  · unfold Intact
    simp only [left]

/-- The datum of the number under `x`. -/
def zeroAtX (n : String) : Option Datum := if n = "x" then some (.number 0.0) else none

/-- A scope with a number. -/
def numberScope : State := { frames := #[[("x", ⟨.number 0.0, true⟩)]] }

/-- A scope with an object as well. -/
def objectScope : State :=
  { objects := #[[("a", .null)]], frames := #[[("$o", ⟨.object 0, true⟩), ("x", ⟨.number 0.0, true⟩)]] }

theorem binds_numberScope : numberScope.toHeap.Binds [0] zeroAtX (isLeft emptyAtA (["$o", "x"].contains ·)) := by
  intro n there
  obtain rfl | rfl : n = "$o" ∨ n = "x" := by simpa using (Bool.and_eq_true_iff.1 there).1
  · simp [isLeft, isGiven, emptyAtA] at there
  · exact .some (.number 0.0)

theorem binds_objectScope : objectScope.toHeap.Binds [0] (overlay emptyAtA zeroAtX) (["$o", "x"].contains ·) := by
  intro n there
  obtain rfl | rfl : n = "$o" ∨ n = "x" := by simpa using there
  · exact .some (.object (by decide) (by decide) (.cons ⟨rfl, .atom .null rfl⟩ .nil))
  · exact .some (.number 0.0)

/-- A chain that stops is worked out as a whole, and the operator behind it goes on with nothing. -/
theorem inlining_keeps_meaning_stopping :
    Registry.ofParams objectParams { inline := .all } = .ok objectInlined
    ∧ compile objectInlined [.expr nowhere stoppingOr] = .ok stoppingOrProgram
    ∧ stoppingOr.isPrintable = true ∧ stoppingOr.isSignless = true
    ∧ stoppingOr.isPure (["$o", "x"].contains ·) = true
    ∧ Supplies [("$o", .object 0)] { objects := #[[("a", .null)]] } objectInlined emptyAtA
    ∧ Intact objectInlined emptyAtA stoppingOr
    ∧ ∃ s' read enough,
      execute Host.none 8 stoppingOrProgram [("$o", .object 0)] { objects := #[[("a", .null)]] }
        = .ok (.ok "undefined ?? x;") s'
      ∧ parseProgram "undefined ?? x;" = .ok read
      ∧ ∀ fuel, enough ≤ fuel → EndAlike (runProgram Host.none fuel [0] read numberScope)
          (runProgram Host.none fuel [0] [.expr nowhere stoppingOr] objectScope) := by
  have printable : stoppingOr.isPrintable = true := by decide
  have signless : stoppingOr.isSignless = true := by decide
  have pure : stoppingOr.isPure (["$o", "x"].contains ·) = true := by decide
  refine ⟨objectInlined_ofParams, compile_stoppingOr, printable, signless, pure, supplies_emptyAtA, intact_stoppingOr, ?_⟩
  have text : textOf? (execute Host.none 8 stoppingOrProgram [("$o", .object 0)] { objects := #[[("a", .null)]] })
      = some "undefined ?? x;" := by decide +kernel
  obtain ⟨s', written⟩ := exists_of_textOf? text
  obtain ⟨read, enough, parses, alike⟩ := inlining_keeps_meaning objectInlined_ofParams compile_stoppingOr printable
    signless pure supplies_emptyAtA intact_stoppingOr written
  have means : meaning (overlay emptyAtA zeroAtX) stoppingOr = .ok (.number 0.0) := rfl
  refine ⟨s', read, enough, written, parses, fun fuel more => ?_⟩
  exact alike Host.none fuel [0] [0] zeroAtX numberScope objectScope more binds_numberScope binds_objectScope
    (by rw [means]; rintro ⟨⟩)

/-! ### A chain that is cut -/

/-- The template `$o.a?.b.slice(x);`. -/
def stoppingCall : Expr :=
  .call nowhere (.member nowhere stoppingChain (.named "slice") false) [.ident nowhere "x"] false

/-- What is compiled from `stoppingCall`. -/
def stoppingCallProgram : Program := ⟨["$o"], [.inline stoppingChain .call true, .literal ".slice(x);"]⟩

theorem compile_stoppingCall : compile objectInlined [.expr nowhere stoppingCall] = .ok stoppingCallProgram := by
  have stmt : (Place.top objectInlined).plan (.expr nowhere stoppingCall) = .keep := rfl
  have call : planExpr objectInlined stoppingCall .lowest = .keep (methodLayout stoppingChain (.named "slice") false
      [.ident nowhere "x"] false .lowest) := by cbv
  have chain : planExpr objectInlined stoppingChain .call = .inline := by cbv
  have other : planExpr objectInlined (.ident nowhere "x") .assignment = .keep [.text "x"] := by cbv
  have inner : Emits ((Place.top objectInlined).inside (.expr nowhere stoppingCall)).aside true
      (methodLayout stoppingChain (.named "slice") false [.ident nowhere "x"] false .lowest) _ _ :=
    .text (.inline chain (.text (.text (.text (.keepExpr other (.text .nil) (.text (.text .nil)))))))
  exact compile_ok_iff.2 ⟨_, _, .keepStmt stmt (.keepExpr call inner (.text .nil)) .nil, by rfl⟩

/-- What a run fails with, if a value was used as what it is not. -/
def typeFault? : EStateM.Result Fault State Value → Option TypeFault
  | .error (.error (.type fault)) _ => some fault
  | _ => none

theorem exists_of_typeFault? {run : EStateM.Result Fault State Value} {fault : TypeFault}
    (h : typeFault? run = some fault) : ∃ t, run = .error (.error (.type fault)) t := by
  unfold typeFault? at h
  split at h
  · cases h
    exact ⟨_, rfl⟩
  · cases h

/--
Between the value that is written for its receiver and its method a chain does not stop any more, so the method is called
on nothing. Where the data that are inlined are in scope the chain is `undefined`.
-/
theorem cut_chain_fails :
    Registry.ofParams objectParams { inline := .all } = .ok objectInlined
    ∧ compile objectInlined [.expr nowhere stoppingCall] = .ok stoppingCallProgram
    ∧ stoppingCall.isPrintable = true ∧ stoppingCall.isSignless = true
    ∧ stoppingCall.isPure (["$o", "x"].contains ·) = true
    ∧ Supplies [("$o", .object 0)] { objects := #[[("a", .null)]] } objectInlined emptyAtA
    ∧ numberScope.toHeap.Binds [0] zeroAtX (isLeft emptyAtA (["$o", "x"].contains ·))
    ∧ objectScope.toHeap.Binds [0] (overlay emptyAtA zeroAtX) (["$o", "x"].contains ·)
    ∧ ∃ s' read t t',
      execute Host.none 8 stoppingCallProgram [("$o", .object 0)] { objects := #[[("a", .null)]] }
        = .ok (.ok "undefined.slice(x);") s'
      ∧ parseProgram "undefined.slice(x);" = .ok read
      ∧ runProgram Host.none 8 [0] read numberScope = .error (.error (.type (.cannotRead "undefined" "slice"))) t
      ∧ runProgram Host.none 8 [0] [.expr nowhere stoppingCall] objectScope = .ok .undefined t' := by
  have text : textOf? (execute Host.none 8 stoppingCallProgram [("$o", .object 0)] { objects := #[[("a", .null)]] })
      = some "undefined.slice(x);" := by decide +kernel
  obtain ⟨s', written⟩ := exists_of_textOf? text
  have fails : (parseProgram "undefined.slice(x);").toOption.map
      (fun read => typeFault? (runProgram Host.none 8 [0] read numberScope))
      = some (some (.cannotRead "undefined" "slice")) := by decide +kernel
  obtain ⟨t', stops⟩ : ∃ t', runProgram Host.none 8 [0] [.expr nowhere stoppingCall] objectScope
      = .ok .undefined t' := ⟨_, rfl⟩
  refine ⟨objectInlined_ofParams, compile_stoppingCall, by decide, by decide, by decide,
    supplies_emptyAtA, binds_numberScope, binds_objectScope, ?_⟩
  cases parses : parseProgram "undefined.slice(x);" with
  | ok read =>
    rw [parses] at fails
    obtain ⟨t, failed⟩ := exists_of_typeFault? (Option.some.inj fails)
    exact ⟨s', read, t, t', written, rfl, failed, stops⟩
  | error e =>
    rw [parses] at fails
    cases fails

end Staging.Template
