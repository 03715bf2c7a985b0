import Staging.Proofs.Script.PureRuns
import Staging.Proofs.Template.KeptExpr
import Staging.Proofs.Template.PlainData

/-!
What inlining does to the meaning of an expression.

Where values are written into a pure expression, what is left means what the expression means with the values in place of
the names (`specializes_expr`). This is so if the expression is intact for these values (`Intact`): what is inlined
has no other names in it and a value that is written as it is, and no chain is cut behind a point where it has stopped. A
chain that has stopped is worked out to `undefined`, and from there an access or a call that is kept does not stop again.
-/

namespace Staging.Template

open Script

variable {σ data : String → Option Datum} {known : String → Bool} {r : Registry}

/-! ### Data and more data -/

/-- The staged data, and others for the names that are not staged. -/
def overlay (σ data : String → Option Datum) (n : String) : Option Datum := (σ n).or (data n)

/-- A name that stands for a staged datum. -/
def isGiven (σ : String → Option Datum) (n : String) : Bool := (σ n).isSome

/-- A known name that does not stand for a staged datum. -/
def isLeft (σ : String → Option Datum) (known : String → Bool) (n : String) : Bool := known n && !isGiven σ n

theorem overlay_of_given {n : String} (given : isGiven σ n = true) : σ n = overlay σ data n := by
  obtain ⟨d, there⟩ := Option.isSome_iff_exists.1 given
  rw [overlay, there, Option.some_or]

theorem overlay_of_none {n : String} (none : σ n = none) : overlay σ data n = data n := by
  rw [overlay, none, Option.none_or]

/-! ### Intact expressions -/

/-- All that matters of an inlined expression is foreseen when its value is written. -/
structure Foreseen (σ : String → Option Datum) (e : Expr) : Prop where
  /-- There are only staged names in it, also in the keys of accesses. -/
  pure : e.isPure (isGiven σ) = true
  contents : outcome σ e ≠ .error .beyond
  /-- What a call gives is written as it is. -/
  call : ∀ span callee args optional, e = .call span callee args optional →
    ∀ o, outcome σ e = .ok o → (reached o).Writable

/-- A kept link behind an inlined expression: if this is a chain that has stopped, the link stops it again. -/
def Unbroken (r : Registry) (σ : String → Option Datum) (target : Expr) (optional : Bool) : Prop :=
  fate r target = .inline → optional = false → outcome σ target ≠ .ok none

mutual

/-- Nothing of the expression is lost when values are written into it. -/
def Intact (r : Registry) (σ : String → Option Datum) (e : Expr) : Prop :=
  match fate r e with
  | .inline => Foreseen σ e
  | .call => False
  | .keep =>
    match e with
    | .array _ items => AllIntact r σ items
    | .object _ props => PropsIntact r σ props
    | .unary _ _ e => Intact r σ e
    | .binary _ _ a b => Intact r σ a ∧ Intact r σ b
    | .cond _ a b c => Intact r σ a ∧ Intact r σ b ∧ Intact r σ c
    | .member _ o k optional => Intact r σ o ∧ KeyIntact r σ k ∧ Unbroken r σ o optional
    | .call _ (.member _ o _ optional) args _ => Intact r σ o ∧ AllIntact r σ args ∧ Unbroken r σ o optional
    | _ => True

def KeyIntact (r : Registry) (σ : String → Option Datum) : Key → Prop
  | .named _ => True
  | .computed e => Intact r σ e

def AllIntact (r : Registry) (σ : String → Option Datum) : List Expr → Prop
  | [] => True
  | e :: es => Intact r σ e ∧ AllIntact r σ es

def PropsIntact (r : Registry) (σ : String → Option Datum) : List Property → Prop
  | [] => True
  | ⟨k, v⟩ :: ps => KeyIntact r σ k ∧ Intact r σ v ∧ PropsIntact r σ ps

end

/-! ### Meanings, node by node -/

section Meanings

variable {span : Span} {a b c : Expr}

theorem outcome_array (items : List Expr) :
    outcome data (.array span items) = outcomes data items >>= fun ds => return some (.array ds) := rfl

theorem outcome_unary (op : UnaryOp) : outcome data (.unary span op a) =
    if isUndeclared data op a then .ok (some (.string "undefined"))
    else meaning data a >>= fun d => return some (.unary op d) := by
  rw [outcome, meaning, bind_map_left]

theorem outcome_binary (op : BinaryOp) : outcome data (.binary span op a b) = meaning data a >>= fun x =>
    if BinaryOp.settledBy op x.face then return some x
    else meaning data b >>= fun y => return some (if BinaryOp.isLogical op then y else .binary op x y) := by
  simp only [outcome, meaning, bind_map_left]

theorem outcome_cond : outcome data (.cond span a b c) = meaning data a >>= fun test =>
    (if test.face.truthy then meaning data b else meaning data c) >>= fun d => return some d := by
  simp only [outcome, meaning, bind_map_left]
  refine bind_congr fun test => ?_
  split
  · rw [bind_map_left]
  · rw [bind_map_left]

theorem outcomeKey_computed : outcomeKey data (.computed a) = meaning data a >>= fun d => return d.text := by
  rw [outcomeKey, meaning, bind_map_left]

theorem outcomes_cons (es : List Expr) : outcomes data (a :: es) = meaning data a >>= fun d =>
    outcomes data es >>= fun ds => return d :: ds := by
  rw [outcomes, meaning, bind_map_left]

theorem outcomeFields_cons (fields : Record Datum) (k : Key) (ps : List Property) :
    outcomeFields data fields (⟨k, a⟩ :: ps) = outcomeKey data k >>= fun key =>
      meaning data a >>= fun d => outcomeFields data (fields.put key d) ps := by
  simp only [outcomeFields, meaning, bind_map_left]

end Meanings

/-! ### What is left of an expression -/

/--
An expression in which values have been written means the same, for all data that its names may stand for. If it has been
kept, the chain that it is stops where it would have stopped before.
-/
structure Faithful (r : Registry) (σ : String → Option Datum) (known : String → Bool) (e e' : Expr) : Prop where
  pure : e'.isPure (isLeft σ known) = true
  signless : e'.isSignless = true
  undeclared : ∀ data op, isUndeclared data op e' = isUndeclared (overlay σ data) op e
  inlined : fate r e = .inline → ∃ o, (∀ data, outcome (overlay σ data) e = .ok o) ∧ outcome σ e = .ok o ∧
    ∀ data, outcome data e' = .ok (some (reached o))
  kept : fate r e = .keep → ∀ data, outcome data e' = outcome (overlay σ data) e

namespace Faithful

variable {e e' : Expr}

theorem meaning (faithful : Faithful r σ known e e') (notCalled : fate r e ≠ .call) (data : String → Option Datum) :
    meaning data e' = Script.meaning (overlay σ data) e := by
  rw [Script.meaning, Script.meaning]
  cases becomes : fate r e with
  | inline =>
    obtain ⟨o, there, -, here⟩ := faithful.inlined becomes
    rw [there data, here data]
    rfl
  | keep => rw [faithful.kept becomes data]
  | call => exact absurd becomes notCalled

/-- A kept link goes on, or stops the chain, as it would have done before. -/
theorem goOn (faithful : Faithful r σ known e e') (notCalled : fate r e ≠ .call) {optional : Bool}
    (unbroken : Unbroken r σ e optional) (data : String → Option Datum) (next : Datum → Except Stop (Option Datum)) :
    outcome data e' >>= Datum.goOn optional next = outcome (overlay σ data) e >>= Datum.goOn optional next := by
  cases becomes : fate r e with
  | keep => rw [faithful.kept becomes data]
  | call => exact absurd becomes notCalled
  | inline =>
    obtain ⟨o, there, alone, here⟩ := faithful.inlined becomes
    rw [there data, here data]
    cases o with
    | some d => rfl
    | none =>
      -- the value of a chain that has stopped is absent, so an optional link stops here again
      cases optional with
      | true => rfl
      | false => exact absurd alone (unbroken becomes rfl)

end Faithful

/-- Nothing pure puts in what a function gives. -/
theorem fate_ne_call {e : Expr} (pure : e.isPure known = true) : fate r e ≠ .call := by
  cases e with
  | call span callee args optional =>
    cases callee with
    | member s o k keyOptional =>
      rw [fate, planExpr]
      split
      · rw [planChain]
        split <;> rintro ⟨⟩
      · split <;> rintro ⟨⟩
    | _ => cases pure
  | ident _ n =>
    rw [fate, planExpr]
    split <;> rintro ⟨⟩
  | member _ o k optional =>
    rw [fate, planExpr]
    split
    · rw [planChain]
      split <;> rintro ⟨⟩
    · rintro ⟨⟩
  | _ => rintro ⟨⟩

/-! ### What is inlined -/

/-- What stands under the keys of a chain that starts from plain data is written as it is. -/
theorem writable_of_chain (plain : ∀ n d, σ n = some d → d.Plain) : (e : Expr) → e.chainRoot.name?.isSome = true →
    ∀ o, outcome σ e = .ok o → (reached o).Writable
  | .ident _ n, _, o, is => by
    rw [outcome] at is
    cases there : σ n with
    | none =>
      rw [there] at is
      cases is
    | some d =>
      rw [there] at is
      cases is
      exact .inr (plain n d there)
  | .member _ target k optional, root, o, is => by
    rw [outcome] at is
    obtain ⟨x, before, is⟩ := ok_of_bind is
    cases x with
    | none =>
      cases is
      exact .inl rfl
    | some d =>
      rw [Datum.goOn] at is
      split at is
      · cases is
        exact .inl rfl
      · obtain ⟨key, -, is⟩ := ok_of_bind is
        obtain ⟨d', read, is⟩ := ok_of_bind is
        cases is
        rw [Datum.read] at read
        split at read
        · cases read
        · cases read
          exact (writable_of_chain plain target root _ before).property key
  | .literal _ _, root, _, _ | .array _ _, root, _, _ | .object _ _, root, _, _ | .function _ _, root, _, _
  | .unary _ _ _, root, _, _ | .update _ _ _ _, root, _, _ | .binary _ _ _ _, root, _, _
  | .assign _ _ _ _, root, _, _ | .cond _ _ _ _, root, _, _ | .call _ _ _ _, root, _, _
  | .new _ _ _, root, _, _ => by cases root

/-! ### Specialising -/

/-- What specialising ends with: what is left has the property, or evaluating has failed. The heap only grows. -/
inductive Remains {α : Type} (h : Heap) (Q : α → Prop) : EStateM.Result Obstacle State α → Prop
  | left {a : α} {t : State} : h.Adds t.toHeap → Q a → Remains h Q (.ok a t)
  | fault {f : Fault} {t : State} : Remains h Q (.error (.fault f) t)

/-- From a state, what a step of specialising leaves has the property. -/
def Specializes {α : Type} (s : State) (act : Specialize α) (Q : α → Prop) : Prop := Remains s.toHeap Q (act s)

namespace Specializes

variable {α β : Type} {s : State} {P : α → Prop} {Q : β → Prop}

theorem pure {b : β} (h : Q b) : Specializes s (Pure.pure b) Q := .left (.refl _) h

theorem bind {x : Specialize α} {f : α → Specialize β} (hx : Specializes s x P)
    (hf : ∀ a t, s.toHeap.Adds t.toHeap → P a → Specializes t (f a) Q) : Specializes s (x >>= f) Q := by
  unfold Specializes at *
  simp only [Bind.bind, EStateM.bind]
  generalize x s = res at *
  cases hx with
  | @left a t adds h =>
    have next := hf a t adds h
    dsimp only
    generalize f a t = res at *
    cases next with
    | left more h' => exact .left (adds.trans more) h'
    | fault => exact .fault
  | fault => exact .fault

/-- What is evaluated comes to its meaning, or fails. -/
theorem evaluating {γ δ : Type} {enough : Prop} {act : Eval γ} {m : Except Stop δ} {R : Heap → γ → δ → Prop}
    {f : γ → Specialize β} (runs : Realizes enough s act R m) (contents : m ≠ .error .beyond)
    (next : ∀ a b t, s.toHeap.Adds t.toHeap → R t.toHeap a b → m = .ok b → Specializes t (f a) Q) :
    Specializes s (evaluating act >>= f) Q := by
  unfold Specializes Realizes at *
  simp only [Bind.bind, EStateM.bind, Template.evaluating]
  generalize act s = res at *
  cases runs with
  | failure => exact .fault
  | outOfFuel _ => exact .fault
  | beyond => exact absurd rfl contents
  | @value a b t adds related =>
    have further := next a b t adds related rfl
    dsimp only
    generalize f a t = res at *
    cases further with
    | left more h => exact .left (adds.trans more) h
    | fault => exact .fault

end Specializes

section Expressions

variable {host : Host} {fuel : Nat} {env : Env} {s : State}

/-- What is inlined is written as it is. -/
theorem Foreseen.writable {e : Expr} (foreseen : Foreseen σ e) (becomes : fate r e = .inline)
    (plain : ∀ n d, σ n = some d → d.Plain) {o : Option Datum} (is : outcome σ e = .ok o) : (reached o).Writable := by
  cases e with
  | ident s n => exact writable_of_chain plain _ rfl o is
  | member s target k optional =>
    refine writable_of_chain plain (.member s target k optional) ?_ o is
    rw [fate, planExpr] at becomes
    split at becomes
    · rename_i root
      rw [hasInlinedRoot] at root
      split at root
      · rename_i name there
        rw [there]
        rfl
      · cases root
    · cases becomes
  | call span callee args optional => exact foreseen.call span callee args optional rfl o is
  | _ => cases becomes

/-- A value is not a name that stands for nothing. -/
theorem isUndeclared_tree (op : UnaryOp) (d : Datum) : isUndeclared data op d.tree = false := by
  cases op with
  | typeof =>
    cases d with
    | number x =>
      rw [Datum.tree, numberTree]
      split <;> rfl
    | _ => rfl
  | _ => rfl

theorem isUndeclared_given {e : Expr} (op : UnaryOp) (pure : e.isPure (isGiven σ) = true) :
    isUndeclared (overlay σ data) op e = false := by
  cases op with
  | typeof =>
    cases e with
    | ident _ n =>
      show (overlay σ data n).isNone = false
      rw [← overlay_of_given pure]
      exact Option.isNone_eq_false_iff.2 pure
    | _ => rfl
  | _ => rfl

/-- What is inlined is the tree of a value, and means the value. -/
theorem specializes_inlined {e : Expr} (becomes : fate r e = .inline) (foreseen : Foreseen σ e)
    (plain : ∀ n d, σ n = some d → d.Plain) (binds : s.toHeap.Binds env σ (isGiven σ)) :
    Specializes s (residualExpr (evaluator host fuel) r env e) (Faithful r σ known e) := by
  rw [residualExpr_inline becomes]
  refine .evaluating ((Realized.of_isPure e foreseen.pure).expr fuel s binds) foreseen.contents ?_
  intro v o t _ carried there
  have writable := foreseen.writable becomes plain there
  obtain ⟨tree, found, same⟩ := carried.treeOf_eq writable
  have written : valueTree v t = .ok (reached o).tree t := by
    rw [valueTree, found]
    exact congrArg (EStateM.Result.ok · t) same
  have given : ∀ data, outcome (overlay σ data) e = .ok o := fun data =>
    (outcome_congr (fun n => overlay_of_given) e foreseen.pure).symm.trans there
  rw [Specializes, written]
  refine .left (.refl _)
    ⟨Datum.Plain.isPure_tree _ _, writable.isSignless_tree, fun data op => ?_, fun _ => ?_, fun kept => ?_⟩
  · rw [isUndeclared_tree, isUndeclared_given op foreseen.pure]
  · exact ⟨o, given, there, fun data => writable.outcome_tree⟩
  · rw [becomes] at kept
    cases kept

end Expressions

/-! ### What is kept -/

/-- The staged data, which are plain, stand for names whose values are written. -/
structure Supplied (r : Registry) (σ : String → Option Datum) : Prop where
  inlined : ∀ n, isGiven σ n = true → (isStageName n && r.inlined.contains n) = true
  plain : ∀ n d, σ n = some d → d.Plain

/-- A key in which values have been written means the same. -/
structure FaithfulKey (σ : String → Option Datum) (known : String → Bool) (k k' : Key) : Prop where
  pure : k'.isPure (isLeft σ known) = true
  signless : k'.isSignless = true
  kept : ∀ data, outcomeKey data k' = outcomeKey (overlay σ data) k

structure FaithfulAll (σ : String → Option Datum) (known : String → Bool) (es es' : List Expr) : Prop where
  pure : Expr.allPure (isLeft σ known) es' = true
  signless : Expr.allSignless es' = true
  kept : ∀ data, outcomes data es' = outcomes (overlay σ data) es

structure FaithfulProps (σ : String → Option Datum) (known : String → Bool) (ps ps' : List Property) : Prop where
  pure : Property.allPure (isLeft σ known) ps' = true
  signless : Property.allSignless ps' = true
  kept : ∀ data fields, outcomeFields data fields ps' = outcomeFields (overlay σ data) fields ps

section Expressions

variable {host : Host} {fuel : Nat} {env : Env} {s : State} {e : Expr}

theorem specializes_of_kept (supplied : Supplied r σ) (pure : e.isPure known = true) (intact : Intact r σ e)
    (binds : s.toHeap.Binds env σ (isGiven σ))
    (kept : fate r e = .keep → Specializes s (residualExpr (evaluator host fuel) r env e) (Faithful r σ known e)) :
    Specializes s (residualExpr (evaluator host fuel) r env e) (Faithful r σ known e) := by
  cases becomes : fate r e with
  | keep => exact kept becomes
  | call => exact absurd becomes (fate_ne_call pure)
  | inline =>
    unfold Intact at intact
    simp only [becomes] at intact
    exact specializes_inlined becomes intact supplied.plain binds

theorem Faithful.of_kept {e' : Expr} (kept : fate r e = .keep) (pure : e'.isPure (isLeft σ known) = true)
    (signless : e'.isSignless = true)
    (undeclared : ∀ data op, isUndeclared data op e' = isUndeclared (overlay σ data) op e)
    (same : ∀ data, outcome data e' = outcome (overlay σ data) e) : Faithful r σ known e e' := by
  refine ⟨pure, signless, undeclared, fun inlined => ?_, fun _ => same⟩
  rw [kept] at inlined
  cases inlined

theorem isUndeclared_of_not_ident (data : String → Option Datum) (op : UnaryOp) (h : ∀ s n, e ≠ .ident s n) :
    isUndeclared data op e = false := by
  cases e with
  | ident s n => exact absurd rfl (h s n)
  | _ => cases op <;> rfl

/-- What is no name stays so. -/
theorem Faithful.of_node {e' : Expr} (kept : fate r e = .keep) (before : ∀ s n, e ≠ .ident s n)
    (after : ∀ s n, e' ≠ .ident s n) (pure : e'.isPure (isLeft σ known) = true) (signless : e'.isSignless = true)
    (same : ∀ data, outcome data e' = outcome (overlay σ data) e) : Faithful r σ known e e' :=
  .of_kept kept pure signless (fun data op => by
    rw [isUndeclared_of_not_ident data op after, isUndeclared_of_not_ident _ op before]) same

-- The recursion is that of the tree. A part that is specialised only adds to the heap, so the staged names still stand for
-- their data when the next part is (`Heap.Adds.binds`).

mutual

/-- **Writing values into an intact expression leaves one that means the same.** -/
theorem specializes_expr (supplied : Supplied r σ) : (e : Expr) → e.isPure known = true → e.isSignless = true →
    Intact r σ e → ∀ s : State, s.toHeap.Binds env σ (isGiven σ) →
      Specializes s (residualExpr (evaluator host fuel) r env e) (Faithful r σ known e)
  | .literal span v, pure, signless, intact, s, binds =>
    specializes_of_kept supplied pure intact binds fun kept => by
      unfold residualExpr
      simp only [kept]
      exact .pure (.of_node kept nofun nofun rfl signless fun _ => rfl)
  | .ident span n, pure, signless, intact, s, binds =>
    specializes_of_kept supplied pure intact binds fun kept => by
      have none : σ n = none := by
        by_contra some
        have written := supplied.inlined n (Option.isSome_iff_ne_none.2 some)
        rw [fate, planExpr, if_pos written] at kept
        cases kept
      have same : ∀ data : String → Option Datum, data n = overlay σ data n := fun data => (overlay_of_none none).symm
      have left : isLeft σ known n = true := by
        rw [isLeft, isGiven, none]
        exact Bool.and_eq_true_iff.2 ⟨pure, rfl⟩
      unfold residualExpr
      simp only [kept]
      refine .pure (.of_kept kept left signless (fun data op => ?_) fun data => ?_)
      · cases op with
        | typeof => exact congrArg Option.isNone (same data)
        | _ => rfl
      · rw [outcome, outcome, same data]
  | .array span items, pure, signless, intact, s, binds =>
    specializes_of_kept supplied pure intact binds fun kept => by
      unfold Intact at intact
      simp only [kept] at intact
      unfold residualExpr
      simp only [kept]
      refine .bind (specializes_all supplied items pure signless intact s binds) fun items' t _ faithful => .pure ?_
      refine .of_node kept nofun nofun faithful.pure faithful.signless fun data => ?_
      rw [outcome_array, outcome_array, faithful.kept]
  | .object span props, pure, signless, intact, s, binds =>
    specializes_of_kept supplied pure intact binds fun kept => by
      unfold Intact at intact
      simp only [kept] at intact
      unfold residualExpr
      simp only [kept]
      refine .bind (specializes_props supplied props pure signless intact s binds) fun props' t _ faithful => .pure ?_
      refine .of_node kept nofun nofun faithful.pure faithful.signless fun data => ?_
      rw [outcome, outcome, faithful.kept]
  | .unary span op e, pure, signless, intact, s, binds =>
    specializes_of_kept supplied pure intact binds fun kept => by
      unfold Intact at intact
      simp only [kept] at intact
      unfold residualExpr
      simp only [kept]
      refine .bind (specializes_expr supplied e pure signless intact s binds) fun e' t _ faithful => .pure ?_
      refine .of_node kept nofun nofun faithful.pure faithful.signless fun data => ?_
      rw [outcome_unary, outcome_unary, faithful.undeclared, faithful.meaning (fate_ne_call (e := e) pure)]
  | .binary span op a b, pure, signless, intact, s, binds =>
    specializes_of_kept supplied pure intact binds fun kept => by
      obtain ⟨contents, firstPure, secondPure⟩ := by simpa only [Expr.isPure, Bool.and_eq_true] using pure
      obtain ⟨firstSignless, secondSignless⟩ := Bool.and_eq_true_iff.1 signless
      unfold Intact at intact
      simp only [kept] at intact
      unfold residualExpr
      simp only [kept]
      refine .bind (specializes_expr supplied a firstPure firstSignless intact.1 s binds) fun a' t adds first => ?_
      refine .bind (specializes_expr supplied b secondPure secondSignless intact.2 t (adds.binds binds))
        fun b' u _ second => .pure ?_
      refine .of_node kept nofun nofun ?_ (Bool.and_eq_true_iff.2 ⟨first.signless, second.signless⟩) fun data => ?_
      · simp only [Expr.isPure, contents, first.pure, second.pure, Bool.and_self]
      · rw [outcome_binary, outcome_binary, first.meaning (fate_ne_call firstPure),
          second.meaning (fate_ne_call secondPure)]
  | .cond span a b c, pure, signless, intact, s, binds =>
    specializes_of_kept supplied pure intact binds fun kept => by
      obtain ⟨testPure, yesPure, noPure⟩ := by simpa only [Expr.isPure, Bool.and_eq_true] using pure
      obtain ⟨testSignless, yesSignless, noSignless⟩ := by simpa only [Expr.isSignless, Bool.and_eq_true] using signless
      unfold Intact at intact
      simp only [kept] at intact
      unfold residualExpr
      simp only [kept]
      refine .bind (specializes_expr supplied a testPure testSignless intact.1 s binds) fun a' t adds test => ?_
      have binds := adds.binds binds
      refine .bind (specializes_expr supplied b yesPure yesSignless intact.2.1 t binds) fun b' u adds yes => ?_
      refine .bind (specializes_expr supplied c noPure noSignless intact.2.2 u (adds.binds binds))
        fun c' _ _ no => .pure ?_
      refine .of_node kept nofun nofun ?_ ?_ fun data => ?_
      · simp only [Expr.isPure, test.pure, yes.pure, no.pure, Bool.and_self]
      · simp only [Expr.isSignless, test.signless, yes.signless, no.signless, Bool.and_self]
      · rw [outcome_cond, outcome_cond, test.meaning (fate_ne_call testPure), yes.meaning (fate_ne_call yesPure),
          no.meaning (fate_ne_call noPure)]
  | .member span o k optional, pure, signless, intact, s, binds =>
    specializes_of_kept supplied pure intact binds fun kept => by
      obtain ⟨objectPure, keyPure⟩ := Bool.and_eq_true_iff.1 pure
      obtain ⟨objectSignless, keySignless⟩ := Bool.and_eq_true_iff.1 signless
      unfold Intact at intact
      simp only [kept] at intact
      obtain ⟨intact, keyIntact, unbroken⟩ := intact
      unfold residualExpr
      simp only [kept]
      refine .bind (specializes_expr supplied o objectPure objectSignless intact s binds) fun o' t adds object => ?_
      refine .bind (specializes_key supplied k keyPure keySignless keyIntact t (adds.binds binds))
        fun k' _ _ key => .pure ?_
      refine .of_node kept nofun nofun (Bool.and_eq_true_iff.2 ⟨object.pure, key.pure⟩)
        (Bool.and_eq_true_iff.2 ⟨object.signless, key.signless⟩) fun data => ?_
      rw [outcome, outcome, key.kept, object.goOn (fate_ne_call objectPure) unbroken]
  | .call span (.member span' o (.named m) optional) args false, pure, signless, intact, s, binds =>
    specializes_of_kept supplied pure intact binds fun kept => by
      obtain ⟨method, objectPure, argsPure⟩ := by simpa only [Expr.isPure, Bool.and_eq_true] using pure
      obtain ⟨⟨objectSignless, -⟩, argsSignless⟩ := by simpa only [Expr.isSignless, Bool.and_eq_true] using signless
      unfold Intact at intact
      simp only [kept] at intact
      obtain ⟨intact, argsIntact, unbroken⟩ := intact
      have named : residualKey (evaluator host fuel) r env (.named m) = return .named m := by unfold residualKey; rfl
      unfold residualExpr
      simp only [kept, named, pure_bind]
      refine .bind (specializes_expr supplied o objectPure objectSignless intact s binds) fun o' t adds object => ?_
      refine .bind (specializes_all supplied args argsPure argsSignless argsIntact t (adds.binds binds))
        fun args' _ _ values => .pure ?_
      refine .of_node kept nofun nofun ?_ ?_ fun data => ?_
      · simp only [Expr.isPure, method, object.pure, values.pure, Bool.and_self]
      · simp only [Expr.isSignless, Key.isSignless, object.signless, values.signless, Bool.and_self]
      · rw [outcome, outcome, values.kept, object.goOn (fate_ne_call objectPure) unbroken]
        rfl

theorem specializes_key (supplied : Supplied r σ) : (k : Key) → k.isPure known = true → k.isSignless = true →
    KeyIntact r σ k → ∀ s : State, s.toHeap.Binds env σ (isGiven σ) →
      Specializes s (residualKey (evaluator host fuel) r env k) (FaithfulKey σ known k)
  | .named n, _, _, _, s, _ => .pure ⟨rfl, rfl, fun _ => rfl⟩
  | .computed e, pure, signless, intact, s, binds => by
    unfold residualKey
    refine .bind (specializes_expr supplied e pure signless intact s binds) fun e' t _ faithful => .pure ?_
    refine ⟨faithful.pure, faithful.signless, fun data => ?_⟩
    rw [outcomeKey_computed, outcomeKey_computed, faithful.meaning (fate_ne_call pure)]

theorem specializes_all (supplied : Supplied r σ) : (es : List Expr) → Expr.allPure known es = true →
    Expr.allSignless es = true → AllIntact r σ es → ∀ s : State, s.toHeap.Binds env σ (isGiven σ) →
      Specializes s (residualExprs (evaluator host fuel) r env es) (FaithfulAll σ known es)
  | [], _, _, _, s, _ => .pure ⟨rfl, rfl, fun _ => rfl⟩
  | e :: es, pure, signless, intact, s, binds => by
    obtain ⟨pure, morePure⟩ := Bool.and_eq_true_iff.1 pure
    obtain ⟨signless, moreSignless⟩ := Bool.and_eq_true_iff.1 signless
    obtain ⟨intact, moreIntact⟩ := intact
    unfold residualExprs
    refine .bind (specializes_expr supplied e pure signless intact s binds) fun e' t adds faithful => ?_
    refine .bind (specializes_all supplied es morePure moreSignless moreIntact t (adds.binds binds))
      fun es' u _ more => ?_
    refine .pure ⟨Bool.and_eq_true_iff.2 ⟨faithful.pure, more.pure⟩,
      Bool.and_eq_true_iff.2 ⟨faithful.signless, more.signless⟩, fun data => ?_⟩
    rw [outcomes_cons, outcomes_cons, faithful.meaning (fate_ne_call pure), more.kept]

theorem specializes_props (supplied : Supplied r σ) : (ps : List Property) → Property.allPure known ps = true →
    Property.allSignless ps = true → PropsIntact r σ ps → ∀ s : State, s.toHeap.Binds env σ (isGiven σ) →
      Specializes s (residualProps (evaluator host fuel) r env ps) (FaithfulProps σ known ps)
  | [], _, _, _, s, _ => .pure ⟨rfl, rfl, fun _ _ => rfl⟩
  | ⟨k, v⟩ :: ps, pure, signless, intact, s, binds => by
    obtain ⟨keyPure, pure⟩ := Bool.and_eq_true_iff.1 pure
    obtain ⟨pure, morePure⟩ := Bool.and_eq_true_iff.1 pure
    obtain ⟨keySignless, signless⟩ := Bool.and_eq_true_iff.1 signless
    obtain ⟨signless, moreSignless⟩ := Bool.and_eq_true_iff.1 signless
    obtain ⟨keyIntact, intact, moreIntact⟩ := intact
    unfold residualProps
    refine .bind (specializes_key supplied k keyPure keySignless keyIntact s binds) fun k' t adds key => ?_
    have binds := adds.binds binds
    refine .bind (specializes_expr supplied v pure signless intact t binds) fun v' u adds value => ?_
    refine .bind (specializes_props supplied ps morePure moreSignless moreIntact u (adds.binds binds))
      fun ps' _ _ more => ?_
    refine .pure ⟨?_, ?_, fun data fields => ?_⟩
    · exact Bool.and_eq_true_iff.2 ⟨key.pure, Bool.and_eq_true_iff.2 ⟨value.pure, more.pure⟩⟩
    · exact Bool.and_eq_true_iff.2 ⟨key.signless, Bool.and_eq_true_iff.2 ⟨value.signless, more.signless⟩⟩
    · rw [outcomeFields_cons, outcomeFields_cons, key.kept, value.meaning (fate_ne_call pure)]
      simp only [more.kept]

end

end Expressions

end Staging.Template
