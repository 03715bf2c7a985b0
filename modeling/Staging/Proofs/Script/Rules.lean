import Staging.Proofs.Script.Discipline

/-!
The rules of evaluation under a discipline.

Each rule for expressions, statements and calls takes what stands inside as a parameter. If two evaluators end alike
under a lawful discipline (`Evaluator.Like`), so does every rule with the one and with the other (`Lawful.evalRule`,
`Lawful.execRule`). Where the code is known to have only jumps with targets, a statement ends normally, with a result for
the function around it, or in a jump to something around it (`JumpScope.Permits`).
-/

namespace Staging

open Script

/-! ### How statements may end -/

/-- A statement with the given surroundings may end so. -/
def JumpScope.Permits (sc : JumpScope) : Completion → Prop
  | .normal _ | .return_ _ => True
  | .break_ label => sc.canBreak label = true
  | .continue_ label => sc.canContinue label = true

namespace JumpScope

variable {sc : JumpScope} {own : List String}

theorem not_permits_break {label : Option String} : ¬ JumpScope.Permits {} (.break_ label) := by
  cases label <;> simp [Permits, canBreak]

theorem not_permits_continue {label : Option String} : ¬ JumpScope.Permits {} (.continue_ label) := by
  cases label <;> simp [Permits, canContinue]

/-- A loop ends in no jump that concerns it. -/
theorem permits_of_loopControl {c done : Completion} (ended : loopControl own c = some done)
    (permits : (sc.loop own).Permits c) : sc.Permits done := by
  cases c with
  | normal v => cases ended
  | return_ v =>
    cases ended
    trivial
  | break_ label =>
    simp only [loopControl] at ended
    split at ended
    · cases ended
      trivial
    · cases ended
      cases label with
      | none => exact absurd rfl ‹¬ isOwn own none = true›
      | some label =>
        have outer : label ∉ own := by simpa [isOwn] using ‹¬ isOwn own (some label) = true›
        simpa [Permits, canBreak, loop, outer] using permits
  | continue_ label =>
    simp only [loopControl] at ended
    split at ended
    · cases ended
    · cases ended
      cases label with
      | none => exact absurd rfl ‹¬ isOwn own none = true›
      | some label =>
        have outer : label ∉ own := by simpa [isOwn] using ‹¬ isOwn own (some label) = true›
        simpa [Permits, canContinue, loop, outer] using permits

/-- A labeled statement that is no loop ends in no `break` to its labels. -/
theorem permits_of_labeled {c : Completion} (permits : (sc.labeled own).Permits c)
    (other : ∀ label ∈ own, c ≠ .break_ (some label)) : sc.Permits c := by
  cases c with
  | normal v => trivial
  | return_ v => trivial
  | continue_ label =>
    cases label with
    | none => exact permits
    | some label => exact permits
  | break_ label =>
    cases label with
    | none => exact permits
    | some label =>
      have outer : label ∉ own := fun inside => other label inside rfl
      simpa [Permits, canBreak, labeled, outer] using permits

end JumpScope

/-- The labels before a statement that is no loop are labels around what is inside. -/
theorem Stmt.jumpsScoped_labeled {sc : JumpScope} {own : List String} {s : Stmt}
    (noLabel : ∀ span label body, s = .labeled span label body → False)
    (noWhile : ∀ span test body, s = .while_ span test body → False)
    (noFor : ∀ span init test update body, s = .for_ span init test update body → False)
    (noEach : ∀ span kind decl pattern source body, s = .forEach span kind decl pattern source body → False) :
    s.jumpsScoped (sc.labeled own) [] = s.jumpsScoped sc own := by
  cases s with
  | labeled span label body => exact (noLabel _ _ _ rfl).elim
  | while_ span test body => exact (noWhile _ _ _ rfl).elim
  | for_ span init test update body => exact (noFor _ _ _ _ _ rfl).elim
  | forEach span kind decl pattern source body => exact (noEach _ _ _ _ _ _ rfl).elim
  | _ => simp only [Stmt.jumpsScoped, JumpScope.labeled, List.nil_append]

namespace Script

/-! ### Evaluators -/

/-- How a statement may end, as far as this is known of the code. -/
abbrev Discipline.Fits (d : Discipline) (sc : JumpScope) (c : Completion) : Prop := d.vetted → sc.Permits c

variable {d : Discipline}

/-- What stands inside ends alike with the one evaluator and with the other. -/
structure Evaluator.Like (d : Discipline) (ev ev' : Evaluator) : Prop where
  expr : ∀ env e, (d.vetted → e.jumpsScoped = true) → d.Keeps none (ev.expr env e) (ev'.expr env e)
  stmt : ∀ env s sc, (d.vetted → s.jumpsScoped sc [] = true) →
    d.Ends env.head? (d.Fits sc) (ev.stmt env s) (ev'.stmt env s)
  call : ∀ f args, d.Keeps none (ev.call f args) (ev'.call f args)
  rounds : ev.rounds = ev'.rounds

namespace Discipline.Lawful

variable (l : d.Lawful)
include l

/-! ### Methods that call functions -/

section Callbacks

variable {call call' : Value → List Value → Eval Value} (alike : ∀ f args, d.Keeps none (call f args) (call' f args))
include alike

theorem callEach (f : Value) : ∀ (n : Nat) (vs : List Value), d.Keeps none (callEach call f n vs) (callEach call' f n vs)
  | _, [] => l.pure _
  | n, _ :: rest => l.bind (alike f _) fun _ => l.bind (callEach f (n + 1) rest) fun _ => l.pure _

theorem callFold (f : Value) : ∀ (n : Nat) (acc : Value) (vs : List Value),
    d.Keeps none (callFold call f n acc vs) (callFold call' f n acc vs)
  | _, _, [] => l.pure _
  | n, _, _ :: rest => l.bind (alike f _) fun acc => callFold f (n + 1) acc rest

theorem arrayQuery (ref : Nat) (key : String) (args : List Value) :
    d.Keeps none (arrayQuery call ref key args) (arrayQuery call' ref key args) := by
  refine l.bind l.getHeap fun h => ?_
  simp only
  split
  · exact l.pure _
  · exact l.pure _
  · exact l.pure _
  · exact l.newArray _
  · exact l.newArray _
  · exact l.bind (l.callEach alike _ 0 _) fun _ => l.newArray _
  · exact l.bind (l.callEach alike _ 0 _) fun _ => l.newArray _
  · exact l.bind (l.callEach alike _ 0 _) fun _ => l.pure _
  · split
    · exact l.callFold alike _ 0 _ _
    · exact l.callFold alike _ 1 _ _
    · exact l.raise nofun
  · exact l.noMethod _ _

theorem arrayMethod (ref : Nat) (key : String) (args : List Value) :
    d.Keeps none (arrayMethod call ref key args) (arrayMethod call' ref key args) := by
  unfold Script.arrayMethod
  split
  · exact l.bind (l.modifyHeap fun _ => ⟨rfl, rfl⟩) fun _ => l.bind l.getHeap fun _ => l.pure _
  · exact l.bind l.getHeap fun _ => l.bind (l.modifyHeap fun _ => ⟨rfl, rfl⟩) fun _ => l.pure _
  · exact l.arrayQuery alike ref key args

end Callbacks

/-! ### Expressions -/

section Rules

variable {ev ev' : Evaluator} (inner : ev.Like d ev') {env : Env} {i : Option Nat}
include inner

theorem evalKey (k : Key) (h : d.vetted → k.jumpsScoped = true) :
    d.Keeps none (evalKey ev env k) (evalKey ev' env k) := by
  cases k with
  | named n => exact l.pure n
  | computed e =>
    simp only [Key.jumpsScoped] at h
    exact l.bind (inner.expr env e h) fun v => l.displayOf v

theorem evalArgs : ∀ (args : List Expr), (d.vetted → Expr.allJumpsScoped args = true) →
    d.Keeps none (evalArgs ev env args) (evalArgs ev' env args)
  | [], _ => l.pure _
  | e :: rest, h => by
    simp only [Expr.allJumpsScoped, Bool.and_eq_true] at h
    unfold Script.evalArgs
    rw [List.mapM_cons, List.mapM_cons]
    refine l.bind (inner.expr env e fun k => (h k).1) fun _ => ?_
    exact l.bind (evalArgs rest fun k => (h k).2) fun _ => l.pure _

theorem evalProps : ∀ (ps : List Property) (fields : Record Value), (d.vetted → Property.allJumpsScoped ps = true) →
    d.Keeps none (evalProps ev env fields ps) (evalProps ev' env fields ps)
  | [], _, _ => l.pure _
  | ⟨key, value⟩ :: rest, _, h => by
    simp only [Property.allJumpsScoped, Bool.and_eq_true] at h
    refine l.bind (l.evalKey inner key fun k => (h k).1.1) fun _ => ?_
    exact l.bind (inner.expr env value fun k => (h k).1.2) fun _ => evalProps rest _ fun k => (h k).2

theorem callMethod (target : Value) (key : String) (args : List Value) :
    d.Keeps none (callMethod ev target key args) (callMethod ev' target key args) := by
  unfold Script.callMethod
  split
  · exact l.arrayMethod inner.call _ key args
  · exact l.stringMethod _ key args
  · exact l.dateMethod _ key
  · exact l.numberMethod _ key args
  · refine l.bind (l.getProperty target key) fun method => ?_
    split
    · exact inner.call method args
    · exact l.raise nofun

theorem evalChain (e : Expr) : (d.vetted → e.jumpsScoped = true) →
    d.Keeps none (evalChain ev env e) (evalChain ev' env e) := by
  induction e using Script.evalChain.induct with
  | case1 span object key optional ih =>
    intro h
    simp only [Expr.jumpsScoped, Bool.and_eq_true] at h
    rw [Script.evalChain.eq_1, Script.evalChain.eq_1]
    refine l.bind (ih fun k => (h k).1) fun found => ?_
    cases found with
    | none => exact l.pure none
    | some target =>
      simp only
      split
      · exact l.pure none
      · refine l.bind (l.evalKey inner key fun k => (h k).2) fun k => ?_
        exact l.bind (l.getProperty target k) fun _ => l.pure _
  | case2 span s object key optionalMember args optional ih =>
    intro h
    simp only [Expr.jumpsScoped, Bool.and_eq_true] at h
    rw [Script.evalChain.eq_2, Script.evalChain.eq_2]
    refine l.bind (ih fun k => (h k).1.1) fun found => ?_
    cases found with
    | none => exact l.pure none
    | some target =>
      simp only
      split
      · exact l.pure none
      · refine l.bind (l.evalKey inner key fun k => (h k).1.2) fun k => ?_
        have called : d.Keeps none
            (Script.evalArgs ev env args >>= fun vs => Script.callMethod ev target k vs >>= fun v => return some v)
            (Script.evalArgs ev' env args >>= fun vs => Script.callMethod ev' target k vs >>= fun v => return some v) := by
          refine l.bind (l.evalArgs inner args fun k => (h k).2) fun vs => ?_
          exact l.bind (l.callMethod inner target k vs) fun _ => l.pure _
        split
        · refine l.bind (l.map _ (l.getProperty target k)) fun absent => ?_
          split
          · exact l.pure none
          · exact called
        · exact called
  | case3 span callee args optional other ih =>
    intro h
    simp only [Expr.jumpsScoped, Bool.and_eq_true] at h
    rw [Script.evalChain.eq_3 _ _ _ _ _ _ other, Script.evalChain.eq_3 _ _ _ _ _ _ other]
    refine l.bind (ih fun k => (h k).1) fun found => ?_
    cases found with
    | none => exact l.pure none
    | some func =>
      simp only
      split
      · exact l.pure none
      · refine l.bind (l.evalArgs inner args fun k => (h k).2) fun vs => ?_
        exact l.bind (inner.call func vs) fun _ => l.pure _
  | case4 e noMember noMethod noCall =>
    intro h
    rw [Script.evalChain.eq_4 _ _ _ noMember noMethod noCall, Script.evalChain.eq_4 _ _ _ noMember noMethod noCall]
    exact l.bind (inner.expr env e h) fun _ => l.pure _

theorem resolvePlace (e : Expr) (h : d.vetted → e.jumpsScoped = true) :
    d.Keeps none (resolvePlace ev env e) (resolvePlace ev' env e) := by
  unfold Script.resolvePlace
  split
  · exact l.pure _
  · simp only [Expr.jumpsScoped, Bool.and_eq_true] at h
    refine l.bind (inner.expr env _ fun k => (h k).1) fun _ => ?_
    exact l.bind (l.evalKey inner _ fun k => (h k).2) fun _ => l.pure _
  · exact l.raise nofun

omit inner in
theorem readPlace (p : Place) : d.Keeps i (readPlace env p) (readPlace env p) := by
  cases p with
  | var name => exact l.getVar name
  | property object key => exact l.getProperty object key

omit inner in
theorem writePlace (p : Place) (v : Value) : d.Keeps i (writePlace env p v) (writePlace env p v) := by
  cases p with
  | var name => exact l.setVar name v
  | property object key => exact l.setProperty object key v

theorem evalBinary (op : BinaryOp) (left right : Expr) (hl : d.vetted → left.jumpsScoped = true)
    (hr : d.vetted → right.jumpsScoped = true) :
    d.Keeps none (evalBinary ev env op left right) (evalBinary ev' env op left right) := by
  refine l.bind (inner.expr env left hl) fun a => ?_
  split
  · exact l.pure a
  · refine l.bind (inner.expr env right hr) fun b => ?_
    split
    · exact l.pure b
    · exact l.bind l.getHeap fun _ => l.pure _

theorem evalUpdate (op : UpdateOp) (before : Bool) (target : Expr) (h : d.vetted → target.jumpsScoped = true) :
    d.Keeps none (evalUpdate ev env op before target) (evalUpdate ev' env op before target) := by
  refine l.bind (l.resolvePlace inner target h) fun place => ?_
  refine l.bind (l.readPlace place) fun old => l.bind (l.numberOf old) fun _ => ?_
  exact l.bind (l.writePlace place _) fun _ => l.pure _

theorem evalAssign (op : AssignOp) (target value : Expr) (ht : d.vetted → target.jumpsScoped = true)
    (hv : d.vetted → value.jumpsScoped = true) :
    d.Keeps none (evalAssign ev env op target value) (evalAssign ev' env op target value) := by
  refine l.bind (l.resolvePlace inner target ht) fun place => ?_
  have assigned : ∀ result, d.Keeps none (do Script.writePlace env place result; return result)
      (do Script.writePlace env place result; return result) :=
    fun result => l.bind (l.writePlace place result) fun _ => l.pure result
  split
  · exact l.bind (inner.expr env value hv) assigned
  · refine l.bind (l.readPlace place) fun current => l.bind (inner.expr env value hv) fun operand => ?_
    exact l.bind l.getHeap fun _ => l.bind (l.pure _) assigned

theorem evalUnary (op : UnaryOp) (operand : Expr) (h : d.vetted → operand.jumpsScoped = true) :
    d.Keeps none (evalUnary ev env op operand) (evalUnary ev' env op operand) := by
  have known : ∀ undeclared : Bool, d.Keeps none (do
      if undeclared then return .string "undefined"
      else
        let v ← ev.expr env operand
        return unaryOp (← Script.getHeap) op v) (do
      if undeclared then return .string "undefined"
      else
        let v ← ev'.expr env operand
        return unaryOp (← Script.getHeap) op v) := by
    intro undeclared
    split
    · exact l.pure _
    · exact l.bind (inner.expr env operand h) fun _ => l.bind l.getHeap fun _ => l.pure _
  unfold Script.evalUnary
  split
  · exact l.bind l.getHeap fun _ => l.bind (l.pure _) known
  · exact l.bind (l.pure _) known

theorem evalNew (callee : Expr) (args : List Expr) (hc : d.vetted → callee.jumpsScoped = true)
    (ha : d.vetted → Expr.allJumpsScoped args = true) :
    d.Keeps none (evalNew ev env callee args) (evalNew ev' env callee args) := by
  refine l.bind (inner.expr env callee hc) fun constructor => l.bind (l.evalArgs inner args ha) fun vs => ?_
  split
  · exact inner.call constructor vs
  · exact l.raise nofun

/-- An expression declares nothing in the scopes that are there. -/
theorem evalRule (e : Expr) (h : d.vetted → e.jumpsScoped = true) :
    d.Keeps none (evalRule ev env e) (evalRule ev' env e) := by
  cases e with
  | literal span v => exact l.pure _
  | ident span name => exact l.getVar name
  | array span items =>
    simp only [Expr.jumpsScoped] at h
    exact l.bind (l.evalArgs inner items h) fun vs => l.newArray vs
  | object span props =>
    simp only [Expr.jumpsScoped] at h
    exact l.bind (l.evalProps inner props [] h) fun fields => l.newObject fields
  | function span func =>
    simp only [Expr.jumpsScoped] at h
    exact l.newFunction h
  | unary span op operand =>
    simp only [Expr.jumpsScoped] at h
    exact l.evalUnary inner op operand h
  | update span op before target =>
    simp only [Expr.jumpsScoped] at h
    exact l.evalUpdate inner op before target h
  | binary span op left right =>
    simp only [Expr.jumpsScoped, Bool.and_eq_true] at h
    exact l.evalBinary inner op left right (fun k => (h k).1) fun k => (h k).2
  | assign span op target value =>
    simp only [Expr.jumpsScoped, Bool.and_eq_true] at h
    exact l.evalAssign inner op target value (fun k => (h k).1) fun k => (h k).2
  | cond span test yes no =>
    simp only [Expr.jumpsScoped, Bool.and_eq_true] at h
    refine l.bind (inner.expr env test fun k => (h k).1.1) fun v => ?_
    split
    · exact inner.expr env yes fun k => (h k).1.2
    · exact inner.expr env no fun k => (h k).2
  | member span object key optional => exact l.bind (l.evalChain inner _ h) fun _ => l.pure _
  | call span callee args optional => exact l.bind (l.evalChain inner _ h) fun _ => l.pure _
  | new span callee args =>
    simp only [Expr.jumpsScoped, Bool.and_eq_true] at h
    exact l.evalNew inner callee args (fun k => (h k).1) fun k => (h k).2

/-! ### Statements -/

omit inner in
theorem hoist {sc : JumpScope} : ∀ body : List Stmt, (d.vetted → Stmt.allJumpsScoped sc body = true) →
    d.Keeps env.head? (hoist env body) (hoist env body)
  | [], _ => l.pure ()
  | s :: rest, h => by
    simp only [Stmt.allJumpsScoped, Bool.and_eq_true] at h
    have others := hoist rest fun k => (h k).2
    unfold Script.hoist
    split
    · cases ‹_ :: _ = _›
    · rename_i span func more same
      cases same
      simp only [Stmt.jumpsScoped] at h
      split
      · refine l.bind (l.newFunction fun k => (h k).1) fun f => ?_
        exact l.bind (l.declareVar _ f true) fun _ => others
      · exact l.bind (l.pure ()) fun _ => others
    · rename_i other more _ same
      cases same
      exact others

theorem execList {sc : JumpScope} : ∀ (body : List Stmt) (last : Option Value),
    (d.vetted → Stmt.allJumpsScoped sc body = true) →
    d.Ends env.head? (d.Fits sc) (execList ev env last body) (execList ev' env last body)
  | [], _, _ => l.pureOf fun _ => trivial
  | s :: rest, last, h => by
    simp only [Stmt.allJumpsScoped, Bool.and_eq_true] at h
    refine l.bindOf (inner.stmt env s sc fun k => (h k).1) fun done permits => ?_
    split
    · exact execList rest _ fun k => (h k).2
    · exact execList rest last fun k => (h k).2
    · exact l.pureOf permits

theorem execBlock {sc : JumpScope} (body : List Stmt) (h : d.vetted → Stmt.allJumpsScoped sc body = true) :
    d.Ends env.head? (d.Fits sc) (execBlock ev env body) (execBlock ev' env body) :=
  l.bind (l.hoist body h) fun _ => l.execList inner body none h

theorem execDeclarators (kind : DeclKind) : ∀ ds : List Declarator, (d.vetted → Declarator.allJumpsScoped ds = true) →
    d.Keeps env.head? (execDeclarators ev env kind ds) (execDeclarators ev' env kind ds)
  | [], _ => l.pure ()
  | ⟨pattern, init⟩ :: rest, h => by
    simp only [Declarator.allJumpsScoped, Bool.and_eq_true] at h
    have bound : ∀ v, d.Keeps env.head?
        (Script.bindPattern env (declMode kind) pattern v >>= fun _ => Script.execDeclarators ev env kind rest)
        (Script.bindPattern env (declMode kind) pattern v >>= fun _ => Script.execDeclarators ev' env kind rest) :=
      fun v => l.bind (l.bindPattern _ pattern v) fun _ => execDeclarators kind rest fun k => (h k).2
    cases init with
    | none => exact l.bind (l.pure _) bound
    | some e =>
      simp only [Expr.optionJumpsScoped] at h
      exact l.bind (l.anywhere (inner.expr env e fun k => (h k).1)) bound

theorem evalTest (test : Option Expr) (h : d.vetted → Expr.optionJumpsScoped test = true) :
    d.Keeps i (evalTest ev env test) (evalTest ev' env test) := by
  cases test with
  | none => exact l.pure true
  | some e =>
    simp only [Expr.optionJumpsScoped] at h
    exact l.bind (l.anywhere (inner.expr env e h)) fun _ => l.pure _

theorem evalOptional (e : Option Expr) (h : d.vetted → Expr.optionJumpsScoped e = true) :
    d.Keeps i (evalOptional ev env e) (evalOptional ev' env e) := by
  cases e with
  | none => exact l.pure ()
  | some e =>
    simp only [Expr.optionJumpsScoped] at h
    exact l.bind (l.anywhere (inner.expr env e h)) fun _ => l.pure ()

/-! ### Loops -/

section Loops

variable {sc : JumpScope} (own : List String)

theorem execRounds (test update : Option Expr) (body : Stmt) (ht : d.vetted → Expr.optionJumpsScoped test = true)
    (hu : d.vetted → Expr.optionJumpsScoped update = true) (hb : d.vetted → body.jumpsScoped (sc.loop own) [] = true) :
    ∀ n : Nat, d.Ends env.head? (d.Fits sc) (execRounds ev env own test update body n)
      (execRounds ev' env own test update body n) := by
  intro n
  induction n with
  | zero => exact l.outOfFuel
  | succ n ih =>
    refine l.bind (l.evalTest inner test ht) fun holds => ?_
    split
    · refine l.bindOf (inner.stmt env body (sc.loop own) hb) fun c permits => ?_
      cases ended : loopControl own c with
      | some done => exact l.pureOf fun k => JumpScope.permits_of_loopControl ended (permits k)
      | none => exact l.bind (l.evalOptional inner update hu) fun _ => ih
    · exact l.pureOf fun _ => trivial

/-- Each item has a scope of its own. -/
theorem execItems (mode : BindMode) (pattern : Pattern) (body : Stmt)
    (hb : d.vetted → body.jumpsScoped (sc.loop own) [] = true) : ∀ vs : List Value,
    d.Ends none (d.Fits sc) (execItems ev env own mode pattern body vs)
      (execItems ev' env own mode pattern body vs)
  | [] => l.pureOf fun _ => trivial
  | v :: rest => by
    refine l.newScope fun j => l.bind (l.bindPattern mode pattern v) fun _ => ?_
    refine l.bindOf (inner.stmt (j :: env) body (sc.loop own) hb) fun c permits => ?_
    cases ended : loopControl own c with
    | some done => exact l.pureOf fun k => JumpScope.permits_of_loopControl ended (permits k)
    | none => exact l.anywhere (execItems mode pattern body hb rest)

theorem execForInit (init : Option ForInit) (h : d.vetted → ForInit.jumpsScoped init = true) :
    d.Keeps env.head? (execForInit ev env init) (execForInit ev' env init) := by
  match init with
  | none => exact l.pure ()
  | some (.decl ⟨_, kind, ds⟩) =>
    simp only [ForInit.jumpsScoped, VarDecl.jumpsScoped] at h
    exact l.execDeclarators inner kind ds h
  | some (.expr e) =>
    simp only [ForInit.jumpsScoped] at h
    exact l.bind (l.anywhere (inner.expr env e h)) fun _ => l.pure ()

end Loops

theorem execLabeled {sc : JumpScope} (own : List String) (s : Stmt) :
    ∀ env : Env, (d.vetted → s.jumpsScoped sc own = true) →
    d.Ends env.head? (d.Fits sc) (execLabeled ev env own s) (execLabeled ev' env own s) := by
  induction own, s using Script.execLabeled.induct with
  | case1 own span label body ih =>
    intro env h
    simp only [Stmt.jumpsScoped] at h
    rw [Script.execLabeled.eq_1, Script.execLabeled.eq_1]
    exact ih env h
  | case2 own span test body =>
    intro env h
    simp only [Stmt.jumpsScoped, Bool.and_eq_true] at h
    rw [Script.execLabeled.eq_2, Script.execLabeled.eq_2, inner.rounds]
    refine l.execRounds inner own _ _ body ?_ (fun _ => rfl) (fun k => (h k).2) _
    simpa only [Expr.optionJumpsScoped] using fun k => (h k).1
  | case3 own span init test update body =>
    intro env h
    simp only [Stmt.jumpsScoped, Bool.and_eq_true] at h
    rw [Script.execLabeled.eq_3, Script.execLabeled.eq_3, inner.rounds]
    refine l.newScope fun j => l.bind (l.execForInit inner init fun k => (h k).1.1.1) fun _ => ?_
    exact l.execRounds inner own test update body (fun k => (h k).1.1.2) (fun k => (h k).1.2) (fun k => (h k).2) _
  | case4 own span kind decl pattern source body =>
    intro env h
    simp only [Stmt.jumpsScoped, Bool.and_eq_true] at h
    unfold Script.execLabeled
    refine l.bind (l.anywhere (inner.expr env source fun k => (h k).1)) fun collection => ?_
    refine l.bind (l.iterate kind collection) fun items => ?_
    exact l.anywhere (l.execItems inner own _ pattern body (fun k => (h k).2) items)
  | case5 own s noLabel noWhile noFor noEach =>
    intro env h
    rw [Script.execLabeled.eq_6 _ _ _ _ noLabel noWhile noFor noEach,
      Script.execLabeled.eq_6 _ _ _ _ noLabel noWhile noFor noEach]
    rw [← Stmt.jumpsScoped_labeled noLabel noWhile noFor noEach] at h
    refine l.bindOf (inner.stmt env s (sc.labeled own) h) fun c permits => ?_
    split
    · rename_i label
      split
      · exact l.pureOf fun _ => trivial
      · refine l.pureOf fun k => JumpScope.permits_of_labeled (permits k) ?_
        rintro outer inside same
        cases same
        exact ‹¬ own.contains label = true› (List.contains_iff_mem.2 inside)
    · rename_i other
      refine l.pureOf fun k => JumpScope.permits_of_labeled (permits k) ?_
      intro label _ same
      exact other label same

/-! ### Failures -/

/-- A handler ends as its block does, unless its parameter cannot be bound. -/
theorem execHandler {sc : JumpScope} (handler : CatchClause) (e : RuntimeError)
    (h : d.vetted → CatchClause.jumpsScoped sc (some handler) = true) :
    d.Ends none (d.Came (d.Fits sc)) (execHandler ev env handler e)
      (execHandler ev' env handler e) := by
  obtain ⟨param, body⟩ := handler
  simp only [CatchClause.jumpsScoped] at h
  refine l.newScope fun j => ?_
  have handled : d.Ends (j :: env).head? (d.Came (d.Fits sc))
      (Script.attempt (Script.execBlock ev (j :: env) body)) (Script.attempt (Script.execBlock ev' (j :: env) body)) :=
    attempt (l.execBlock inner body h)
  cases param with
  | none => exact handled
  | some p => exact l.bind l.getHeap fun _ => l.bind (l.bindPattern _ p _) fun _ => handled

/-- What came of a statement stands unless its finalizer ends in another way. -/
theorem finish {sc : JumpScope} (finalizer : Option (List Stmt)) {result : Except RuntimeError Completion}
    (came : d.Came (d.Fits sc) result) :
    (d.vetted → Stmt.finalJumpsScoped sc finalizer = true) →
    d.Ends i (d.Fits sc)
      (match finalizer with
      | none => Script.resume result
      | some body => do
        match ← Script.execBlock ev (← Script.newScope env) body with
        | .normal _ => Script.resume result
        | abrupt => return abrupt)
      (match finalizer with
      | none => Script.resume result
      | some body => do
        match ← Script.execBlock ev' (← Script.newScope env) body with
        | .normal _ => Script.resume result
        | abrupt => return abrupt) := by
  intro h
  cases finalizer with
  | none => exact l.resume came
  | some body =>
    simp only [Stmt.finalJumpsScoped] at h
    refine l.newScope fun j => l.bindOf (l.execBlock inner body h) fun done permits => ?_
    split
    · exact l.resume came
    · exact l.pureOf permits

theorem execTry {sc : JumpScope} (block : List Stmt) (handler : Option CatchClause) (finalizer : Option (List Stmt))
    (hb : d.vetted → Stmt.allJumpsScoped sc block = true) (hc : d.vetted → CatchClause.jumpsScoped sc handler = true)
    (hf : d.vetted → Stmt.finalJumpsScoped sc finalizer = true) :
    d.Ends none (d.Fits sc) (execTry ev env block handler finalizer)
      (execTry ev' env block handler finalizer) := by
  refine l.newScope fun j => l.bindOf (attempt (l.execBlock inner block hb)) fun tried came => ?_
  cases tried with
  | ok c => exact l.bindOf (l.pureOf came) fun _ came => l.finish inner finalizer came hf
  | error e =>
    cases handler with
    | none => exact l.bindOf (l.pureOf came) fun _ came => l.finish inner finalizer came hf
    | some handler =>
      refine l.bindOf (l.anywhere (l.execHandler inner handler e hc)) fun _ came => ?_
      exact l.finish inner finalizer came hf

/-! ### Statements -/

/-- A statement declares names in its scope only, and ends in no jump without a target. -/
theorem execRule {sc : JumpScope} (s : Stmt) (h : d.vetted → s.jumpsScoped sc [] = true) :
    d.Ends env.head? (d.Fits sc) (execRule ev env s) (execRule ev' env s) := by
  cases s with
  | expr span e =>
    simp only [Stmt.jumpsScoped] at h
    exact l.bind (l.anywhere (inner.expr env e h)) fun _ => l.pureOf fun _ => trivial
  | decl decl =>
    obtain ⟨span, kind, ds⟩ := decl
    simp only [Stmt.jumpsScoped, VarDecl.jumpsScoped] at h
    exact l.bind (l.execDeclarators inner kind ds h) fun _ => l.pureOf fun _ => trivial
  | function | empty => exact l.pureOf fun _ => trivial
  | return_ span e =>
    simp only [Stmt.jumpsScoped] at h
    cases e with
    | none => exact l.pureOf fun _ => trivial
    | some e =>
      simp only [Expr.optionJumpsScoped] at h
      exact l.bind (l.anywhere (inner.expr env e h)) fun _ => l.pureOf fun _ => trivial
  | if_ span test yes no =>
    simp only [Stmt.jumpsScoped, Bool.and_eq_true] at h
    refine l.bind (l.anywhere (inner.expr env test fun k => (h k).1.1)) fun v => ?_
    split
    · exact inner.stmt env yes sc fun k => (h k).1.2
    · cases no with
      | none => exact l.pureOf fun _ => trivial
      | some s =>
        simp only [Stmt.optionJumpsScoped] at h
        exact inner.stmt env s sc fun k => (h k).2
  | while_ | for_ | forEach | labeled => exact l.execLabeled inner [] _ env h
  | break_ span label =>
    simp only [Stmt.jumpsScoped] at h
    exact l.pureOf h
  | continue_ span label =>
    simp only [Stmt.jumpsScoped] at h
    exact l.pureOf h
  | throw_ span e =>
    simp only [Stmt.jumpsScoped] at h
    exact l.bind (l.anywhere (inner.expr env e h)) fun _ => l.raise nofun
  | try_ span block handler finalizer =>
    simp only [Stmt.jumpsScoped, Bool.and_eq_true] at h
    exact l.anywhere (l.execTry inner block handler finalizer (fun k => (h k).1.1) (fun k => (h k).1.2) fun k => (h k).2)
  | block span body =>
    simp only [Stmt.jumpsScoped] at h
    exact l.newScope fun j => l.execBlock inner body h

/-! ### Calls -/

theorem bindParams : ∀ (ps : List Param) (args : List Value), (d.vetted → Param.allJumpsScoped ps = true) →
    d.Keeps env.head? (bindParams ev env ps args) (bindParams ev' env ps args)
  | [], _, _ => l.pure ()
  | ⟨span, pattern, default, rest⟩ :: others, args, h => by
    simp only [Param.allJumpsScoped, Bool.and_eq_true] at h
    have bound : ∀ v, d.Keeps env.head?
        (Script.bindPattern env (.declare true) pattern v >>= fun _ => Script.bindParams ev env others args.tail)
        (Script.bindPattern env (.declare true) pattern v >>= fun _ => Script.bindParams ev' env others args.tail) :=
      fun v => l.bind (l.bindPattern _ pattern v) fun _ => bindParams others args.tail fun k => (h k).2
    have given : ∀ e, default = some e → d.Keeps env.head? (ev.expr env e) (ev'.expr env e) := by
      rintro e rfl
      simp only [Expr.optionJumpsScoped] at h
      exact l.anywhere (inner.expr env e fun k => (h k).1)
    unfold Script.bindParams
    split
    · exact l.bind (l.newArray args) bound
    · dsimp only
      split
      · exact l.bind (given _ rfl) bound
      · exact l.bind (given _ rfl) bound
      · exact l.bind (l.pure _) bound

end Rules

end Discipline.Lawful

end Script

end Staging
