import Staging.Proofs.Outcome
import Staging.Proofs.Template.Origin
import Staging.Template.Execute

/-!
What a running program comes to.

A program runs an instruction in some scopes and in some state. `Arrives` says which ones it comes to on the way, and
inside of which constructs; a `Moment` is an instruction that is run there, or a name that is looked up because it gets
a declaration in a round. Moments are where a run fails: what fails at a moment fails the run (`Arrives.error`), and a
run that fails does so by what is done at one of its moments (`failsAtMoment_of_all`). Everything that a run comes to
stands in the program (`Arrives.standsIn`).
-/

namespace Staging.Template

open Script

/-! ### Parts of a run -/

/-- The scope of a round, with the names of the item bound in it. -/
def openRound (env : Env) (pattern : Pattern) (item : Value) : Generate Env := do
  let scope ← interpret (newScope env)
  interpret (bindPattern scope (.declare false) pattern item)
  append "\x7b"
  return scope

/-- A round in its scope. -/
def playRound (declare : List String) (body : Env → Generate Flow) (scope : Env) : Generate Flow := do
  declare.forM (writeDeclaration scope)
  let flow ← body scope
  append "\x7d"
  return flow

theorem runRound_eq (env : Env) (pattern : Pattern) (declare : List String) (body : Env → Generate Flow)
    (item : Value) : runRound env pattern declare body item = openRound env pattern item >>= playRound declare body := by
  simp only [runRound, openRound, playRound, bind_assoc, pure_bind]

/-- Whether a loop goes on after a round that ended in this way. -/
def goesOn (label : Option String) : Flow → Bool
  | .normal => true
  | .jump .continue_ target => label = some target
  | .jump .break_ _ => false

/-- How a loop ends that does not go on after a round that ended in this way. -/
def leftWith (label : Option String) : Flow → Flow
  | .jump .break_ target => if label = some target then .normal else .jump .break_ target
  | flow => flow

theorem runRounds_cons {label : Option String} {round : Value → Generate Flow} {item : Value} {flow : Flow}
    {s t : GenerateState} (run : round item s = .ok flow t) (rest : List Value) :
    runRounds label round (item :: rest) s
      = (if goesOn label flow = true then runRounds label round rest else pure (leftWith label flow)) t := by
  rw [runRounds, bind_of_ok run]
  cases flow with
  | normal => rfl
  | jump j target =>
    by_cases own : label = some target
    · cases j <;> simp [goesOn, leftWith, own]
    · cases j <;> simp [goesOn, leftWith, own]

theorem runAll_cons_error {ev : Evaluator} {i : Instruction} {rest : List Instruction} {env : Env} {s u : GenerateState}
    {halt : Halt} :
    runAll ev (i :: rest) env s = .error halt u ↔
      runStep ev i env s = .error halt u
        ∨ ∃ t, runStep ev i env s = .ok .normal t ∧ runAll ev rest env t = .error halt u := by
  rw [runAll, bind_eq_error]
  refine or_congr_right ?_
  constructor
  · rintro ⟨flow, t, run, fails⟩
    cases flow with
    | normal => exact ⟨t, run, fails⟩
    | jump => cases fails
  · rintro ⟨t, run, fails⟩
    exact ⟨.normal, t, run, fails⟩

/-! ### Moments -/

/-- What a run comes to. -/
inductive Moment where
  /-- An instruction is run. -/
  | run (i : Instruction)
  /-- A name is looked up that gets a declaration in a round. -/
  | lookup (name : String)

/-- `Begins label round items s item t`: running the rounds from the state `s`, the one for the item begins in `t`. -/
inductive Begins (label : Option String) (round : Value → Generate Flow) :
    List Value → GenerateState → Value → GenerateState → Prop
  | now {item : Value} {rest : List Value} {s : GenerateState} : Begins label round (item :: rest) s item s
  | later {item item' : Value} {rest : List Value} {flow : Flow} {s t u : GenerateState}
      (run : round item s = .ok flow t) (goes : goesOn label flow = true) (h : Begins label round rest t item' u) :
      Begins label round (item :: rest) s item' u

/-- `Turns ev env s i item t`: running the loop `i` from the state `s`, its round for the item begins in `t`. -/
inductive Turns (ev : Evaluator) (env : Env) (s : GenerateState) : Instruction → Value → GenerateState → Prop
  | round {label : Option String} {kind : IterKind} {pattern : Pattern} {source : Expr} {declare : List String}
      {body : List Instruction} {collection item : Value} {items : List Value} {t u v : GenerateState}
      (evaluated : interpret (ev.expr env source) s = .ok collection t)
      (iterated : interpret (iterate kind collection) t = .ok items u)
      (begins : Begins label (runRound env pattern declare fun scope => runAll ev body scope) items u item v) :
      Turns ev env s (.each label kind pattern source declare body) item v

/--
`Arrives ev code env s around m env' t`: running the code in `env` from the state `s`, the program comes to `m` in
`env'` and in the state `t`. The moment is inside of the instructions `around`, outermost first.
-/
inductive Arrives (ev : Evaluator) :
    List Instruction → Env → GenerateState → List Instruction → Moment → Env → GenerateState → Prop
  | here {i : Instruction} {rest : List Instruction} {env : Env} {s : GenerateState} :
      Arrives ev (i :: rest) env s [] (.run i) env s
  | after {i : Instruction} {rest around : List Instruction} {m : Moment} {env env' : Env} {s t u : GenerateState}
      (run : runStep ev i env s = .ok .normal t) (h : Arrives ev rest env t around m env' u) :
      Arrives ev (i :: rest) env s around m env' u
  | yes {test : Expr} {yes rest around : List Instruction} {no : Option (List Instruction)} {m : Moment}
      {env scope env' : Env} {v : Value} {s t u w : GenerateState}
      (evaluated : interpret (ev.expr env test) s = .ok v t) (holds : v.truthy = true)
      (opened : interpret (newScope env) t = .ok scope u) (h : Arrives ev yes scope u around m env' w) :
      Arrives ev (.if_ test yes no :: rest) env s (.if_ test yes no :: around) m env' w
  | no {test : Expr} {yes no rest around : List Instruction} {m : Moment} {env scope env' : Env} {v : Value}
      {s t u w : GenerateState} (evaluated : interpret (ev.expr env test) s = .ok v t) (fails : v.truthy = false)
      (opened : interpret (newScope env) t = .ok scope u) (h : Arrives ev no scope u around m env' w) :
      Arrives ev (.if_ test yes (some no) :: rest) env s (.if_ test yes (some no) :: around) m env' w
  | block {body rest around : List Instruction} {m : Moment} {env env' : Env} {s t u : GenerateState}
      (brace : append "\x7b" s = .ok () t) (h : Arrives ev body env t around m env' u) :
      Arrives ev (.block body :: rest) env s (.block body :: around) m env' u
  | lookup {label : Option String} {kind : IterKind} {pattern : Pattern} {source : Expr} {done more : List String}
      {name : String} {body rest : List Instruction} {item : Value} {env scope : Env} {s t u w : GenerateState}
      (turns : Turns ev env s (.each label kind pattern source (done ++ name :: more) body) item t)
      (opened : openRound env pattern item t = .ok scope u)
      (declared : done.forM (writeDeclaration scope) u = .ok () w) :
      Arrives ev (.each label kind pattern source (done ++ name :: more) body :: rest) env s
        [.each label kind pattern source (done ++ name :: more) body] (.lookup name) scope w
  | round {label : Option String} {kind : IterKind} {pattern : Pattern} {source : Expr} {declare : List String}
      {body rest around : List Instruction} {m : Moment} {item : Value} {env scope env' : Env}
      {s t u w x : GenerateState} (turns : Turns ev env s (.each label kind pattern source declare body) item t)
      (opened : openRound env pattern item t = .ok scope u)
      (declared : declare.forM (writeDeclaration scope) u = .ok () w) (h : Arrives ev body scope w around m env' x) :
      Arrives ev (.each label kind pattern source declare body :: rest) env s
        (.each label kind pattern source declare body :: around) m env' x

/-! ### What fails at a moment -/

/-- What is done at a moment. -/
def Moment.act (ev : Evaluator) (env : Env) : Moment → Generate Unit
  | .run i => do let _ ← runStep ev i env
  | .lookup name => writeDeclaration env name

theorem Begins.error {label : Option String} {round : Value → Generate Flow} {items : List Value} {item : Value}
    {s t u : GenerateState} {halt : Halt} (begins : Begins label round items s item t)
    (fails : round item t = .error halt u) : runRounds label round items s = .error halt u := by
  induction begins with
  | now => exact bind_eq_error.2 (.inl fails)
  | later run goes _ ih =>
    rw [runRounds_cons run, if_pos goes]
    exact ih fails

theorem Turns.error {ev : Evaluator} {env scope : Env} {label : Option String} {kind : IterKind} {pattern : Pattern}
    {source : Expr} {declare : List String} {body : List Instruction} {item : Value} {s t u w : GenerateState}
    {halt : Halt} (turns : Turns ev env s (.each label kind pattern source declare body) item t)
    (opened : openRound env pattern item t = .ok scope u)
    (fails : playRound declare (fun scope => runAll ev body scope) scope u = .error halt w) :
    runStep ev (.each label kind pattern source declare body) env s = .error halt w := by
  cases turns with
  | round evaluated iterated begins =>
    rw [runStep, bind_of_ok evaluated, bind_of_ok iterated]
    refine begins.error ?_
    rw [runRound_eq, bind_of_ok opened]
    exact fails

/-- **What fails at a moment fails the run.** -/
theorem Arrives.error {ev : Evaluator} {code around : List Instruction} {m : Moment} {env env' : Env}
    {s t u : GenerateState} {halt : Halt} (arrives : Arrives ev code env s around m env' t)
    (fails : m.act ev env' t = .error halt u) : runAll ev code env s = .error halt u := by
  induction arrives with
  | here =>
    refine runAll_cons_error.2 (.inl ?_)
    rcases bind_eq_error.1 fails with fails | ⟨_, _, _, fails⟩
    · exact fails
    · cases fails
  | after run _ ih => exact runAll_cons_error.2 (.inr ⟨_, run, ih fails⟩)
  | yes evaluated holds opened _ ih =>
    refine runAll_cons_error.2 (.inl ?_)
    rw [runStep, bind_of_ok evaluated, if_pos holds, bind_of_ok opened]
    exact ih fails
  | no evaluated otherwise opened _ ih =>
    refine runAll_cons_error.2 (.inl ?_)
    rw [runStep, bind_of_ok evaluated, otherwise, if_neg Bool.false_ne_true, runElse, bind_of_ok opened]
    exact ih fails
  | block brace _ ih =>
    refine runAll_cons_error.2 (.inl ?_)
    rw [runStep, bind_of_ok brace]
    exact bind_eq_error.2 (.inl (ih fails))
  | lookup turns opened declared =>
    refine runAll_cons_error.2 (.inl (turns.error opened (bind_eq_error.2 (.inl ?_))))
    exact forM_eq_error.2 ⟨_, _, _, _, rfl, declared, fails⟩
  | round turns opened declared _ ih =>
    refine runAll_cons_error.2 (.inl (turns.error opened ?_))
    rw [playRound, bind_of_ok declared]
    exact bind_eq_error.2 (.inl (ih fails))

/-- What is done at a moment fails, apart from what is inside of its instruction. -/
inductive Moment.Fails (ev : Evaluator) (env : Env) (s : GenerateState) (halt : Halt) (u : GenerateState) :
    Moment → Prop
  | leaf {i : Instruction} (leaf : i.isLeaf = true) (h : runStep ev i env s = .error halt u) :
      Fails ev env s halt u (.run i)
  | test {test : Expr} {yes : List Instruction} {no : Option (List Instruction)}
      (h : interpret (ev.expr env test) s = .error halt u) : Fails ev env s halt u (.run (.if_ test yes no))
  | source {label : Option String} {kind : IterKind} {pattern : Pattern} {source : Expr} {declare : List String}
      {body : List Instruction} (h : interpret (ev.expr env source) s = .error halt u) :
      Fails ev env s halt u (.run (.each label kind pattern source declare body))
  | items {label : Option String} {kind : IterKind} {pattern : Pattern} {source : Expr} {declare : List String}
      {body : List Instruction} {collection : Value} {t : GenerateState}
      (evaluated : interpret (ev.expr env source) s = .ok collection t)
      (h : interpret (iterate kind collection) t = .error halt u) :
      Fails ev env s halt u (.run (.each label kind pattern source declare body))
  | item {label : Option String} {kind : IterKind} {pattern : Pattern} {source : Expr} {declare : List String}
      {body : List Instruction} {item : Value} {t : GenerateState}
      (turns : Turns ev env s (.each label kind pattern source declare body) item t)
      (h : openRound env pattern item t = .error halt u) :
      Fails ev env s halt u (.run (.each label kind pattern source declare body))
  | lookup {name : String} (h : writeDeclaration env name s = .error halt u) : Fails ev env s halt u (.lookup name)

theorem Arrives.head {ev : Evaluator} {i : Instruction} {around : List Instruction} {m : Moment} {env env' : Env}
    {s t : GenerateState} (h : Arrives ev [i] env s around m env' t) (rest : List Instruction) :
    Arrives ev (i :: rest) env s around m env' t := by
  cases h with
  | here => exact .here
  | after _ h => cases h
  | yes evaluated holds opened h => exact .yes evaluated holds opened h
  | no evaluated fails opened h => exact .no evaluated fails opened h
  | block brace h => exact .block brace h
  | lookup turns opened declared => exact .lookup turns opened declared
  | round turns opened declared h => exact .round turns opened declared h

theorem exists_begins_of_error {label : Option String} {round : Value → Generate Flow} {halt : Halt}
    {u : GenerateState} : ∀ {items : List Value} {s : GenerateState}, runRounds label round items s = .error halt u →
    ∃ item t, Begins label round items s item t ∧ round item t = .error halt u
  | [], _, fails => by cases fails
  | item :: rest, s, fails => by
    rcases bind_eq_error.1 fails with first | ⟨flow, t, run, _⟩
    · exact ⟨item, s, .now, first⟩
    · rw [runRounds_cons run] at fails
      split at fails
      · obtain ⟨item', t', begins, fails⟩ := exists_begins_of_error fails
        exact ⟨item', t', .later run ‹_› begins, fails⟩
      · cases fails

/-- The code fails by what is done at one of its moments. -/
def FailsAtMoment (ev : Evaluator) (code : List Instruction) (env : Env) (s : GenerateState) (halt : Halt)
    (u : GenerateState) : Prop :=
  ∃ around m env' t, Arrives ev code env s around m env' t ∧ m.Fails ev env' t halt u

theorem FailsAtMoment.here {ev : Evaluator} {i : Instruction} {env : Env} {s u : GenerateState} {halt : Halt}
    (h : (Moment.run i).Fails ev env s halt u) : FailsAtMoment ev [i] env s halt u := ⟨_, _, _, _, .here, h⟩

theorem FailsAtMoment.lift {ev : Evaluator} {code code' : List Instruction} {env env' : Env}
    {s t u : GenerateState} {halt : Halt} {within : List Instruction → List Instruction}
    (h : FailsAtMoment ev code env s halt u) (into : ∀ around m env'' w, Arrives ev code env s around m env'' w →
      Arrives ev code' env' t (within around) m env'' w) : FailsAtMoment ev code' env' t halt u := by
  obtain ⟨around, m, env'', w, arrives, fails⟩ := h
  exact ⟨_, m, env'', w, into _ _ _ _ arrives, fails⟩

/-- A round that fails does so when it is opened, by a declaration, or inside of the body. -/
theorem failsAtMoment_of_round {ev : Evaluator} {label : Option String} {kind : IterKind} {pattern : Pattern}
    {source : Expr} {declare : List String} {body : List Instruction} {item : Value} {env : Env}
    {s t u : GenerateState} {halt : Halt} (turns : Turns ev env s (.each label kind pattern source declare body) item t)
    (fails : runRound env pattern declare (fun scope => runAll ev body scope) item t = .error halt u)
    (inner : ∀ scope w, runAll ev body scope w = .error halt u → FailsAtMoment ev body scope w halt u) :
    FailsAtMoment ev [.each label kind pattern source declare body] env s halt u := by
  rw [runRound_eq] at fails
  rcases bind_eq_error.1 fails with fails | ⟨scope, v, opened, fails⟩
  · exact .here (.item turns fails)
  rcases bind_eq_error.1 fails with fails | ⟨_, w, declared, fails⟩
  · obtain ⟨done, name, more, w, rfl, declared, fails⟩ := forM_eq_error.1 fails
    exact ⟨_, _, _, _, .lookup turns opened declared, .lookup fails⟩
  rcases bind_eq_error.1 fails with fails | ⟨_, _, _, fails⟩
  · exact (inner scope w fails).lift fun _ _ _ _ => .round turns opened declared
  · cases fails

mutual

theorem failsAtMoment_of_step {ev : Evaluator} {halt : Halt} {u : GenerateState} : ∀ (i : Instruction) {env : Env}
    {s : GenerateState}, runStep ev i env s = .error halt u → FailsAtMoment ev [i] env s halt u
  | .literal _, _, _, fails | .inline _ _ _, _, _, fails | .call _, _, _, fails | .jump _ _, _, _, fails =>
    .here (.leaf rfl fails)
  | .if_ test yes no, env, s, fails => by
    rw [runStep] at fails
    rcases bind_eq_error.1 fails with fails | ⟨v, t, evaluated, fails⟩
    · exact .here (.test fails)
    split at fails
    · rcases bind_eq_error.1 fails with fails | ⟨scope, w, opened, fails⟩
      · cases fails
      · exact (failsAtMoment_of_all yes fails).lift fun _ _ _ _ => .yes evaluated ‹_› opened
    · exact failsAtMoment_of_else no evaluated (Bool.not_eq_true _ ▸ ‹¬ v.truthy = true›) fails
  | .each label kind pattern source declare body, env, s, fails => by
    rw [runStep] at fails
    rcases bind_eq_error.1 fails with fails | ⟨collection, t, evaluated, fails⟩
    · exact .here (.source fails)
    rcases bind_eq_error.1 fails with fails | ⟨items, w, iterated, fails⟩
    · exact .here (.items evaluated fails)
    obtain ⟨item, v, begins, fails⟩ := exists_begins_of_error fails
    exact failsAtMoment_of_round (.round evaluated iterated begins) fails fun scope w => failsAtMoment_of_all body
  | .block body, env, s, fails => by
    rw [runStep] at fails
    rcases bind_eq_error.1 fails with fails | ⟨_, t, brace, fails⟩
    · cases fails
    rcases bind_eq_error.1 fails with fails | ⟨_, _, _, fails⟩
    · exact (failsAtMoment_of_all body fails).lift fun _ _ _ _ => .block brace
    · cases fails

/-- **A run that fails does so by what is done at one of its moments.** -/
theorem failsAtMoment_of_all {ev : Evaluator} {halt : Halt} {u : GenerateState} : ∀ (code : List Instruction)
    {env : Env} {s : GenerateState}, runAll ev code env s = .error halt u → FailsAtMoment ev code env s halt u
  | [], _, _, fails => by
    rw [runAll] at fails
    cases fails
  | i :: rest, env, s, fails => by
    rcases runAll_cons_error.1 fails with fails | ⟨t, run, fails⟩
    · exact (failsAtMoment_of_step i fails).lift fun _ _ _ _ h => h.head rest
    · exact (failsAtMoment_of_all rest fails).lift fun _ _ _ _ => .after run

theorem failsAtMoment_of_else {ev : Evaluator} {halt : Halt} {u : GenerateState} {test : Expr}
    {yes : List Instruction} : ∀ (no : Option (List Instruction)) {env : Env} {v : Value} {s t : GenerateState},
    interpret (ev.expr env test) s = .ok v t → v.truthy = false → runElse ev no env t = .error halt u →
    FailsAtMoment ev [.if_ test yes no] env s halt u
  | none, _, _, _, _, _, _, fails => by
    rw [runElse] at fails
    cases fails
  | some no, env, v, s, t, evaluated, otherwise, fails => by
    rw [runElse] at fails
    rcases bind_eq_error.1 fails with fails | ⟨scope, w, opened, fails⟩
    · cases fails
    · exact (failsAtMoment_of_all no fails).lift fun _ _ _ _ => .no evaluated otherwise opened

end

/-! ### Where a moment stands -/

/-- What the moment is about stands in the code, nested in the instructions. -/
def Moment.StandsIn (code around : List Instruction) : Moment → Prop
  | .run i => Occurs code around i
  | .lookup name => ∃ outer label kind pattern source declare body, name ∈ declare
      ∧ around = outer ++ [.each label kind pattern source declare body]
      ∧ Occurs code outer (.each label kind pattern source declare body)

theorem Moment.StandsIn.lift {code code' around : List Instruction} {m : Moment} (h : m.StandsIn code around)
    (more : List Instruction) (into : ∀ around i, Occurs code around i → Occurs code' (more ++ around) i) :
    m.StandsIn code' (more ++ around) := by
  cases m with
  | run i => exact into _ _ h
  | lookup name =>
    obtain ⟨outer, label, kind, pattern, source, declare, body, mem, rfl, occurs⟩ := h
    exact ⟨more ++ outer, label, kind, pattern, source, declare, body, mem, (List.append_assoc ..).symm,
      into _ _ occurs⟩

/-- A run comes only to what stands in the program. -/
theorem Arrives.standsIn {ev : Evaluator} {code around : List Instruction} {m : Moment} {env env' : Env}
    {s t : GenerateState} (h : Arrives ev code env s around m env' t) : m.StandsIn code around := by
  induction h with
  | here => exact Occurs.here List.mem_cons_self
  | after _ _ ih => exact ih.lift [] fun _ _ occurs => occurs.mono fun _ => List.mem_cons_of_mem _
  | yes _ _ _ _ ih => exact ih.lift [_] fun _ _ => .yes List.mem_cons_self
  | no _ _ _ _ ih => exact ih.lift [_] fun _ _ => .no List.mem_cons_self
  | block _ _ ih => exact ih.lift [_] fun _ _ => .block List.mem_cons_self
  | lookup =>
    refine ⟨[], _, _, _, _, _, _, ?_, rfl, .here List.mem_cons_self⟩
    exact List.mem_append_right _ List.mem_cons_self
  | round _ _ _ _ ih => exact ih.lift [_] fun _ _ => .each List.mem_cons_self

end Staging.Template
