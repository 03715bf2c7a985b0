import Staging.Proofs.Outcome
import Staging.Script.Run
import Staging.Source.Grammar.Expr

/-!
Optional links.

An expression is a chain of links on a root (`Expr.eq_chain`). An optional link tests a value before anything in it is
evaluated: an access tests the value it is made on, and a call the value that is called, which for a method is what
stands under its key.

An access or a call goes on from the chain before it (`goOn`). The call of an access is an exception: it takes the value
the access is made on, so that a method knows what it is called on, and reads the property itself (`evalChain_link`).
Either way an optional link stops the chain where what it tests is absent, and a chain that has stopped stays so;
`optional_chain_stops` puts this together for any number of links.
-/

namespace Staging

open Grammar (Link)

/-! ### Chains -/

/-- An optional link ends the chain where what it tests is absent. -/
def Grammar.Link.optional : Link → Bool
  | .member _ optional | .call _ optional => optional

namespace Expr

/-- Extends a chain by a link. -/
def link (e : Expr) (l : Span × Link) : Expr :=
  match l.2 with
  | .member key optional => .member l.1 e key optional
  | .call args optional => .call l.1 e args optional

/-- The chain with the given links on a root. -/
def chain (root : Expr) (links : List (Span × Link)) : Expr := links.foldl link root

/-- The expression ends in a link. -/
def isLinked : Expr → Bool
  | .member _ _ _ _ | .call _ _ _ _ => true
  | _ => false

theorem chain_append {root : Expr} {before after : List (Span × Link)} :
    root.chain (before ++ after) = (root.chain before).chain after := List.foldl_append

theorem chain_cons {root : Expr} {l : Span × Link} {links : List (Span × Link)} :
    root.chain (l :: links) = (root.link l).chain links := rfl

theorem isLinked_link {e : Expr} {l : Span × Link} : (e.link l).isLinked = true := by
  obtain ⟨span, l⟩ := l
  cases l <;> rfl

theorem isLinked_chain {links : List (Span × Link)} : ∀ {e : Expr}, e.isLinked = true →
    (e.chain links).isLinked = true := by
  induction links with
  | nil => exact id
  | cons l links ih => exact fun _ => ih isLinked_link

/-- An expression is a chain of links on something that is none. -/
theorem eq_chain : ∀ e : Expr, ∃ root links, e = chain root links ∧ root.isLinked = false
  | .member span target key optional => by
    obtain ⟨root, links, rfl, first⟩ := eq_chain target
    exact ⟨root, links ++ [(span, .member key optional)], by rw [chain_append]; rfl, first⟩
  | .call span callee args optional => by
    obtain ⟨root, links, rfl, first⟩ := eq_chain callee
    exact ⟨root, links ++ [(span, .call args optional)], by rw [chain_append]; rfl, first⟩
  | .literal _ _ | .ident _ _ | .array _ _ | .object _ _ | .function _ _ | .unary _ _ _ | .update _ _ _ _
  | .binary _ _ _ _ | .assign _ _ _ _ | .cond _ _ _ _ | .new _ _ _ => ⟨_, [], rfl, rfl⟩

end Expr

namespace Script

/-! ### What a link tests -/

section

variable {x : Eval (Option Value)} {optional : Bool} {next : Value → Eval (Option Value)} {s t : State} {v : Value}

/-- Goes on from what a chain has given so far, unless it has stopped or stops here. -/
def goOn (optional : Bool) (next : Value → Eval (Option Value)) : Option Value → Eval (Option Value)
  | none => return none
  | some v => if optional && v.isNullish then return none else next v

/-- The chain has stopped, or it stops at this link. -/
def Stops (x : Eval (Option Value)) (optional : Bool) (s t : State) : Prop :=
  x s = .ok none t ∨ ∃ v, x s = .ok (some v) t ∧ (optional && v.isNullish) = true

theorem goOn_of_present (present : (optional && v.isNullish) = false) : goOn optional next (some v) = next v :=
  if_neg (Bool.eq_false_iff.1 present)

theorem bind_goOn_of_stops (stops : Stops x optional s t) : (x >>= goOn optional next) s = .ok none t := by
  obtain stopped | ⟨v, run, absent⟩ := stops
  · rw [bind_of_ok stopped]
    rfl
  · rw [bind_of_ok run, goOn, if_pos absent]
    rfl

theorem stops_of_bind_goOn (gives : ∀ v u w, next v u ≠ .ok none w) (run : (x >>= goOn optional next) s = .ok none t) :
    Stops x optional s t := by
  obtain ⟨found, u, before, rest⟩ := bind_eq_ok.1 run
  cases found with
  | none =>
    obtain ⟨-, rfl⟩ := pure_eq_ok.1 rest
    exact .inl before
  | some v =>
    by_cases absent : (optional && v.isNullish) = true
    · rw [goOn, if_pos absent] at rest
      obtain ⟨-, rfl⟩ := pure_eq_ok.1 rest
      exact .inr ⟨v, before, absent⟩
    · rw [goOn_of_present (Bool.eq_false_iff.2 absent)] at rest
      exact absurd rest (gives v u t)

theorem bind_goOn_eq_some : (x >>= goOn optional next) s = .ok (some v) t ↔
    ∃ target u, x s = .ok (some target) u ∧ (optional && target.isNullish) = false ∧
      next target u = .ok (some v) t := by
  rw [bind_eq_ok]
  constructor
  · rintro ⟨_ | target, u, before, rest⟩
    · cases (pure_eq_ok.1 rest).1
    · by_cases absent : (optional && target.isNullish) = true
      · rw [goOn, if_pos absent] at rest
        cases (pure_eq_ok.1 rest).1
      · rw [goOn_of_present (Bool.eq_false_iff.2 absent)] at rest
        exact ⟨target, u, before, Bool.eq_false_iff.2 absent, rest⟩
  · rintro ⟨target, u, before, present, rest⟩
    exact ⟨some target, u, before, by rw [goOn_of_present present, rest]⟩

end

/-! ### One link -/

section

variable (ev : Evaluator) (env : Env)

/-- Reads what stands under a key. -/
def readUnder (key : Key) (target : Value) : Eval (Option Value) := do
  let k ← evalKey ev env key
  return some (← getProperty target k)

/-- Calls a value. -/
def callOn (args : List Expr) (func : Value) : Eval (Option Value) := do
  let values ← evalArgs ev env args
  return some (← ev.call func values)

/-- Calls what stands under a key. An optional call does nothing if nothing stands there. -/
def callUnder (args : List Expr) (optional : Bool) (target : Value) (k : String) : Eval (Option Value) := do
  let absent ← if optional then Value.isNullish <$> getProperty target k else pure false
  if absent then return none
  else
    let values ← evalArgs ev env args
    return some (← callMethod ev target k values)

/-- Calls a method. -/
def callNamed (key : Key) (args : List Expr) (optional : Bool) (target : Value) : Eval (Option Value) := do
  callUnder ev env args optional target (← evalKey ev env key)

variable {ev env} {s t : State} {span span' : Span} {object callee : Expr} {key : Key} {args : List Expr}
  {optional optionalMember : Bool}

theorem evalChain_member :
    evalChain ev env (.member span object key optional) =
      evalChain ev env object >>= goOn optional (readUnder ev env key) := by
  rw [evalChain.eq_1]
  refine bind_congr fun found => ?_
  cases found <;> rfl

theorem evalChain_method :
    evalChain ev env (.call span (.member span' object key optionalMember) args optional) =
      evalChain ev env object >>= goOn optionalMember (callNamed ev env key args optional) := by
  rw [evalChain.eq_2]
  refine bind_congr fun found => ?_
  cases found <;> rfl

theorem evalChain_call (other : ∀ span object key optional, callee = .member span object key optional → False) :
    evalChain ev env (.call span callee args optional) =
      evalChain ev env callee >>= goOn optional (callOn ev env args) := by
  rw [evalChain.eq_3 _ _ _ _ _ _ other]
  refine bind_congr fun found => ?_
  cases found <;> rfl

theorem getProperty_eq_ok {target v : Value} {k : String} :
    getProperty target k s = .ok v t ↔ target.isNullish = false ∧ s.property target k = v ∧ s = t := by
  have read : getProperty target k s =
      if target.isNullish then .error (.error (.type (.cannotRead (s.display target) k))) s
      else .ok (s.property target k) s := by
    unfold getProperty
    by_cases absent : target.isNullish = true
    · simp only [absent]
      rfl
    · simp only [absent]
      rfl
  rw [read]
  by_cases absent : target.isNullish = true
  · simp [absent]
  · simp [absent]

theorem readUnder_eq_some {target v : Value} (run : readUnder ev env key target s = .ok (some v) t) :
    ∃ k, evalKey ev env key s = .ok k t ∧ target.isNullish = false ∧ t.property target k = v := by
  obtain ⟨k, u, named, run⟩ := bind_eq_ok.1 run
  obtain ⟨w, u', read, run⟩ := bind_eq_ok.1 run
  obtain ⟨present, rfl, rfl⟩ := getProperty_eq_ok.1 read
  obtain ⟨⟨⟩, rfl⟩ := pure_eq_ok.1 run
  exact ⟨k, named, present, rfl⟩

/-- What is read is there, even if it is `undefined`. -/
theorem readUnder_ne_none {target : Value} : readUnder ev env key target s ≠ .ok none t := by
  intro run
  obtain ⟨k, u, _, run⟩ := bind_eq_ok.1 run
  obtain ⟨v, w, _, run⟩ := bind_eq_ok.1 run
  cases (pure_eq_ok.1 run).1

/-- An optional call looks a method up before its arguments are evaluated. -/
theorem callUnder_optional {target : Value} {k : String} (present : target.isNullish = false) :
    callUnder ev env args true target k s =
      if (s.property target k).isNullish then .ok none s else callUnder ev env args false target k s := by
  have read : getProperty target k s = .ok (s.property target k) s := getProperty_eq_ok.2 ⟨present, rfl, rfl⟩
  have tested : (Value.isNullish <$> getProperty target k : Eval Bool) s =
      .ok (s.property target k).isNullish s := by
    rw [map_eq_pure_bind, bind_of_ok read]
    rfl
  have found : callUnder ev env args true target k s =
      (if (s.property target k).isNullish = true then pure none else callUnder ev env args false target k) s :=
    bind_of_ok tested
  rw [found]
  by_cases absent : (s.property target k).isNullish = true
  · rw [if_pos absent, if_pos absent]
    rfl
  · rw [if_neg absent, if_neg absent]

/-! ### Whole chains -/

variable (ev env) in
/--
A link goes on from the chain before it. Only a call of an access is made in one go: it takes the value the access is
made on, and not what the access reads.
-/
theorem evalChain_link (e : Expr) (l : Span × Link) :
    (∃ next, evalChain ev env (e.link l) = evalChain ev env e >>= goOn l.2.optional next) ∨
    ∃ span span' object key optionalMember args optional,
      e = .member span' object key optionalMember ∧ l = (span, .call args optional) := by
  obtain ⟨span, link⟩ := l
  cases link with
  | member key optional => exact .inl ⟨_, evalChain_member⟩
  | call args optional =>
    by_cases method : ∃ span object key optional, e = .member span object key optional
    · obtain ⟨span', object, key, optionalMember, rfl⟩ := method
      exact .inr ⟨_, _, _, _, _, _, _, rfl, rfl⟩
    · refine .inl ⟨_, evalChain_call ?_⟩
      intro span' object key optional same
      exact method ⟨span', object, key, optional, same⟩

/-- A chain that has stopped stays so. -/
theorem evalChain_link_of_stopped {e : Expr} (l : Span × Link) (stopped : evalChain ev env e s = .ok none t) :
    evalChain ev env (e.link l) s = .ok none t := by
  obtain ⟨next, same⟩ | ⟨_, _, object, key, optionalMember, args, optional, rfl, rfl⟩ :=
    evalChain_link ev env e l
  · rw [same]
    exact bind_goOn_of_stops (.inl stopped)
  · rw [evalChain_member] at stopped
    refine (congrFun evalChain_method s).trans ?_
    exact bind_goOn_of_stops (stops_of_bind_goOn (fun _ _ _ => readUnder_ne_none) stopped)

theorem evalChain_chain_of_stopped (links : List (Span × Link)) : ∀ {e : Expr}, evalChain ev env e s = .ok none t →
    evalChain ev env (e.chain links) s = .ok none t := by
  induction links with
  | nil => exact id
  | cons l links ih => exact fun stopped => ih (evalChain_link_of_stopped l stopped)

/-- An optional link stops the chain where what it tests is absent. -/
theorem evalChain_link_of_absent {e : Expr} {l : Span × Link} {v : Value} (marked : l.2.optional = true)
    (before : evalChain ev env e s = .ok (some v) t) (absent : v.isNullish = true) :
    evalChain ev env (e.link l) s = .ok none t := by
  obtain ⟨next, same⟩ | ⟨_, _, object, key, optionalMember, args, optional, rfl, rfl⟩ :=
    evalChain_link ev env e l
  · rw [same, marked]
    exact bind_goOn_of_stops (.inr ⟨v, before, absent⟩)
  · -- what is tested is what the access before would have read
    obtain rfl : optional = true := marked
    rw [evalChain_member, bind_goOn_eq_some] at before
    obtain ⟨target, u, before, present, read⟩ := before
    obtain ⟨k, named, there, rfl⟩ := readUnder_eq_some read
    refine (congrFun evalChain_method s).trans ?_
    rw [bind_of_ok before, goOn_of_present present, callNamed, bind_of_ok named, callUnder_optional there,
      if_pos absent]

/-- A chain that has stopped is `undefined`. -/
theorem evalRule_of_stopped {e : Expr} (linked : e.isLinked = true) (stopped : evalChain ev env e s = .ok none t) :
    evalRule ev env e s = .ok .undefined t := by
  cases e with
  | member span object key optional => exact bind_of_ok stopped
  | call span callee args optional => exact bind_of_ok stopped
  | _ => cases linked

end

/--
**An absent value ends the chain.** Wherever in a chain an optional link stands: if what comes before it has a value,
and the value is `null` or `undefined`, then the chain is `undefined`, and the state is the one in which that value was
found. This does not depend on how anything else is evaluated, so no key, argument or callee after it is.
-/
theorem optional_chain_stops {host : Host} {fuel : Nat} {env : Env} {root : Expr} {before after : List (Span × Link)}
    {l : Span × Link} {s t : State} {v : Value} (marked : l.2.optional = true) (absent : v.isNullish = true) :
    (evalChain (evaluator host fuel) env (root.chain before) s = .ok (some v) t →
      evalExpr host (fuel + 1) env (root.chain (before ++ l :: after)) s = .ok .undefined t) ∧
    ∀ ev : Evaluator, evalChain ev env (root.chain before) s = .ok (some v) t →
      evalRule ev env (root.chain (before ++ l :: after)) s = .ok .undefined t := by
  have stops : ∀ ev : Evaluator, evalChain ev env (root.chain before) s = .ok (some v) t →
      evalRule ev env (root.chain (before ++ l :: after)) s = .ok .undefined t := by
    intro ev tested
    rw [Expr.chain_append, Expr.chain_cons]
    apply evalRule_of_stopped
    · exact Expr.isLinked_chain Expr.isLinked_link
    · apply evalChain_chain_of_stopped
      exact evalChain_link_of_absent marked tested absent
  exact ⟨stops _, stops⟩

/-- An object without fields, and a variable. -/
def bare (x : Value) : State where
  objects := #[[]]
  frames := #[[("o", ⟨.object 0, false⟩), ("x", ⟨x, true⟩)]]

/-- In `o[x = "m"]?.(f()).k` nothing is known of `f`, and it is not called. -/
theorem optional_chain_stops_unknown :
    let o : Expr := .ident ⟨0, 0⟩ "o"
    let assigned : Expr := .assign ⟨0, 0⟩ .plain (.ident ⟨0, 0⟩ "x") (.literal ⟨0, 0⟩ (.string "m"))
    let f : Expr := .call ⟨0, 0⟩ (.ident ⟨0, 0⟩ "f") [] false
    let before : List (Span × Link) := [(⟨0, 0⟩, .member (.computed assigned) false)]
    let after : List (Span × Link) := [(⟨0, 0⟩, .member (.named "k") false)]
    evalChain (evaluator Host.none 8) [0] (o.chain before) (bare .null) = .ok (some .undefined) (bare (.string "m")) ∧
    evalExpr Host.none 9 [0] (o.chain (before ++ (⟨0, 0⟩, .call [f] true) :: after)) (bare .null) =
      .ok .undefined (bare (.string "m")) := by
  intro o assigned f before after
  have tested : evalChain (evaluator Host.none 8) [0] (o.chain before) (bare .null) =
      .ok (some .undefined) (bare (.string "m")) := rfl
  have marked : (Link.call [f] true).optional = true := rfl
  exact ⟨tested, (optional_chain_stops (l := (⟨0, 0⟩, .call [f] true)) marked rfl).1 tested⟩

end Script

end Staging
