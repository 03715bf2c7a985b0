import Staging.Proofs.Script.Contents
import Staging.Proofs.Script.OptionalChain

/-!
Running pure expressions.

In a heap where the names of a pure expression stand for data, evaluating the expression comes to its meaning: it gives
a value that is the datum, or fails with the failure that the meaning says (`Realized.of_isPure`). It makes arrays and
objects and changes nothing. Less fuel than the expression is large can run out, which is the only other end.
-/

namespace Staging.Script

/-! ### States -/

/-- There are more arrays and objects, and the scopes are the same. -/
structure Heap.Adds (h t : Heap) : Prop extends h.Extends t where
  frames : t.frames = h.frames

/-- The known names stand for the data, or for nothing where there is none. -/
def Heap.Binds (h : Heap) (env : Env) (data : String → Option Datum) (known : String → Bool) : Prop :=
  ∀ n, known n = true → Option.Rel h.Carries (h.lookup? env n) (data n)

namespace Heap

variable {h t : Heap} {env : Env} {data : String → Option Datum} {known : String → Bool}

/-- What names stand for is a matter of the scopes. -/
theorem lookup?_congr (same : ∀ i, t.frame i = h.frame i) (env : Env) (name : String) :
    t.lookup? env name = h.lookup? env name := by
  have resolved : t.resolve? env name = h.resolve? env name := by
    induction env with
    | nil => rfl
    | cons i outer ih => rw [resolve?, resolve?, same, ih]
  rw [Heap.lookup?, resolved, Heap.lookup?]

/-- Names stand for the same data where the scopes are the same and the contents are still there. -/
theorem Binds.extend (binds : h.Binds env data known) (more : h.Extends t) {inner : Env}
    (same : ∀ n, t.lookup? inner n = h.lookup? env n) : t.Binds inner data known := by
  intro n is
  have bound := binds n is
  rw [same]
  generalize h.lookup? env n = v, data n = d at bound ⊢
  cases bound with
  | some carried => exact .some (carried.extend more)
  | none => exact .none

/-- In a new scope names stand for what they stood for. -/
theorem Binds.child (binds : h.Binds env data known) : (h.child env).2.Binds (h.child env).1 data known := by
  refine binds.extend (extends_child h env) fun n => ?_
  have empty : ((h.child env).2.frame h.frames.size).get? n = none := by
    rw [frame_child, frame_size]
    rfl
  calc (h.child env).2.lookup? (h.frames.size :: env) n
    _ = (h.child env).2.lookup? env n := by rw [Heap.lookup?, resolve?, empty, Heap.lookup?]
    _ = h.lookup? env n := lookup?_congr (frame_child h env) env n

end Heap

namespace Heap.Adds

variable {h t u : Heap}

theorem refl (h : Heap) : h.Adds h := ⟨.of_eq rfl rfl, rfl⟩

theorem trans (a : h.Adds t) (b : t.Adds u) : h.Adds u :=
  ⟨a.toExtends.trans b.toExtends, b.frames.trans a.frames⟩

theorem newArray (h : Heap) (items : Array Value) : h.Adds (h.newArray items).2 :=
  ⟨⟨by simp [Heap.newArray], List.prefix_rfl⟩, rfl⟩

theorem newObject (h : Heap) (fields : Record Value) : h.Adds (h.newObject fields).2 :=
  ⟨extends_newObject h fields, rfl⟩

/-- What names stand for stays what it is. -/
theorem binds (adds : h.Adds t) {env : Env} {data : String → Option Datum} {known : String → Bool}
    (binds : h.Binds env data known) : t.Binds env data known :=
  binds.extend adds.toExtends (lookup?_congr (fun i => by rw [frame, adds.frames, frame]) env)

end Heap.Adds

/-! ### Computations and meanings -/

/--
A computation ends as a meaning says, with a result related to it. It may also run out of fuel, if there is not enough;
nothing is said where the meaning is beyond contents.
-/
inductive Ends {α β : Type} (enough : Prop) (h : Heap) (R : Heap → α → β → Prop) :
    EStateM.Result Fault State α → Except Stop β → Prop
  | value {a : α} {b : β} {t : State} : h.Adds t.toHeap → R t.toHeap a b → Ends enough h R (.ok a t) (.ok b)
  | failure {e : RuntimeError} {t : State} : Ends enough h R (.error (.error e) t) (.error (.failure e))
  | outOfFuel {t : State} {m : Except Stop β} : ¬ enough → Ends enough h R (.error .outOfFuel t) m
  | beyond {r : EStateM.Result Fault State α} : Ends enough h R r (.error .beyond)

/-- From a state, a computation comes to a meaning. -/
def Realizes {α β : Type} (enough : Prop) (s : State) (act : Eval α) (R : Heap → α → β → Prop) (m : Except Stop β) : Prop :=
  Ends enough s.toHeap R (act s) m

namespace Realizes

variable {α β γ δ : Type} {enough : Prop} {s : State} {act : Eval α} {m : Except Stop β} {R : Heap → α → β → Prop}
  {Q : Heap → γ → δ → Prop}

theorem pure {a : α} {b : β} (related : R s.toHeap a b) : Realizes enough s (Pure.pure a) R (.ok b) :=
  .value (.refl _) related

theorem raise (e : RuntimeError) : Realizes enough s (raise e : Eval α) R (.error (.failure e)) := .failure

theorem mono {enough' : Prop} {R' : Heap → α → β → Prop} (realizes : Realizes enough' s act R m)
    (less : enough → enough') (imp : ∀ t a b, R t a b → R' t a b) : Realizes enough s act R' m := by
  unfold Realizes at *
  generalize act s = r at *
  cases realizes with
  | value adds related => exact .value adds (imp _ _ _ related)
  | failure => exact .failure
  | outOfFuel few => exact .outOfFuel fun is => few (less is)
  | beyond => exact .beyond

theorem within {enough' : Prop} (realizes : Realizes enough' s act R m) (less : enough → enough') :
    Realizes enough s act R m := realizes.mono less fun _ _ _ => id

theorem bind {f : α → Eval γ} {g : β → Except Stop δ} (first : Realizes enough s act R m)
    (next : ∀ a b t, s.toHeap.Adds t.toHeap → R t.toHeap a b → Realizes enough t (f a) Q (g b)) :
    Realizes enough s (act >>= f) Q (m >>= g) := by
  unfold Realizes at *
  simp only [Bind.bind, EStateM.bind]
  generalize act s = r at *
  cases first with
  | @value a b t adds related =>
    have further := next a b t adds related
    simp only [Except.bind]
    generalize f a t = r, g b = k at *
    cases further with
    | value more related' => exact .value (adds.trans more) related'
    | failure => exact .failure
    | outOfFuel few => exact .outOfFuel few
    | beyond => exact .beyond
  | failure => exact .failure
  | outOfFuel few => exact .outOfFuel few
  | beyond => exact .beyond

/-! ### Steps -/

section Steps

variable {v : Value} {d : Datum} {vs : List Value} {ds : List Datum}

theorem displayOf (c : s.toHeap.Carries v d) : Realizes enough s (displayOf v) (fun _ t u => t = u) (.ok d.text) :=
  .value (.refl _) c.display

theorem inspect {f : Heap → Eval α} (realizes : Realizes enough s (f s.toHeap) R m) :
    Realizes enough s (getHeap >>= f) R m := realizes

theorem newArray (items : List.Forall₂ s.toHeap.Carries vs ds) :
    Realizes enough s (newArray vs) Heap.Carries (.ok (.array ds)) := by
  have adds := Heap.Adds.newArray s.toHeap vs.toArray
  refine .value adds (.array (by simp) ?_)
  simp only [Heap.array, Array.getElem?_push_size, Option.getD_some]
  exact items.imp fun _ _ carried => carried.extend adds.toExtends

theorem newObject {r : Record Value} {fs : List (String × Datum)} (distinct : r.names.Nodup)
    (fields : s.toHeap.CarriesFields r fs) : Realizes enough s (newObject r) Heap.Carries (.ok (.object fs)) := by
  have adds := Heap.Adds.newObject s.toHeap r
  have same : (s.toHeap.newObject r).2.object s.toHeap.objects.size = r := by simp [Heap.newObject, Heap.object]
  refine .value adds (.object (by simp) ?_ ?_)
  · exact same.symm ▸ distinct
  · exact same.symm ▸ fields.extend adds.toExtends

theorem getProperty (c : s.toHeap.Carries v d) (key : String) :
    Realizes enough s (getProperty v key) Heap.Carries (d.read key) := by
  refine .inspect ?_
  rw [Datum.read, c.isNullish, c.display]
  split
  · exact .raise _
  · exact .pure (c.property key)

/-! ### Methods -/

theorem arg (args : List.Forall₂ s.toHeap.Carries vs ds) (i : Nat) : s.toHeap.Carries (arg vs i) (Datum.arg ds i) := by
  obtain ⟨none, none'⟩ | ⟨w, e, some, some', carried⟩ := getElem?_of_forall₂ args i
  · rw [Script.arg, Datum.arg, none, none']
    exact .undefined
  · rw [Script.arg, Datum.arg, some, some']
    exact carried

theorem relativeIndex_eq (c : s.toHeap.Carries v d) (length default : Nat) :
    relativeIndex s.toHeap v length default = relativeIndex {} d.position length default := by
  have number := c.toNumber
  cases d with
  | array ds | object fs =>
    obtain ⟨ref, rfl, _⟩ := c.unfolds
    simp only [relativeIndex, number]
    rfl
  | function _ => cases c.inert
  | _ =>
    obtain rfl := c.of_face rfl
    rfl

theorem forall₂_map {γ : Type} {f : γ → Value} {g : γ → Datum} (xs : List γ) (each : ∀ x, s.toHeap.Carries (f x) (g x)) :
    List.Forall₂ s.toHeap.Carries (xs.map f) (xs.map g) :=
  List.forall₂_map_left_iff.2 (List.forall₂_map_right_iff.2 (List.forall₂_same.2 fun x _ => each x))

/-- The parts of a text, as many as its characters if nothing is between them. -/
theorem split (t needle : String) :
    Realizes enough s (if needle.toList.isEmpty then Script.newArray (charValues t)
        else Script.newArray ((Text.splitOn needle.toList t.toList).map fun part => .string (String.ofList part)))
      Heap.Carries (if needle.toList.isEmpty then .ok (.array (t.toList.map fun c => .string c.toString))
        else .ok (.array ((Text.splitOn needle.toList t.toList).map fun part => .string (String.ofList part)))) := by
  split
  · exact newArray (forall₂_map _ fun _ => .string _)
  · exact newArray (forall₂_map _ fun _ => .string _)

theorem stringMethod (t key : String) (args : List.Forall₂ s.toHeap.Carries vs ds) :
    Realizes enough s (stringMethod t key vs) Heap.Carries (Datum.stringMethod t key ds) := by
  have first := arg args 0
  have second := arg args 1
  unfold Script.stringMethod
  refine .inspect ?_
  simp only [first.display]
  split
  · exact .pure (.string _)
  · exact .pure (.string _)
  · exact .pure (.string _)
  · exact .pure (.string _)
  · exact .pure (.bool _)
  · exact .pure (.bool _)
  · exact .pure (.bool _)
  · exact .pure (.number _)
  · rw [relativeIndex_eq first, relativeIndex_eq second]
    exact .pure (.string _)
  · unfold Datum.stringMethod
    simp only
    generalize Script.arg vs 0 = v, Datum.arg ds 0 = d at first
    cases d with
    | undefined =>
      obtain rfl := first.of_face rfl
      exact newArray (.cons (.string t) .nil)
    | array _ | object _ =>
      obtain ⟨_, rfl, _⟩ := first.unfolds
      exact split ..
    | function _ => cases first.inert
    | _ =>
      obtain rfl := first.of_face rfl
      exact split ..
  · rw [Datum.stringMethod_of_notMem (by simp_all)]
    exact .raise _

/-- A value without contents tells items apart by what they look like from the outside. -/
theorem eq_of_atom {α : Type} (f : Value → Value → α) (c : s.toHeap.Carries v d)
    (array : ∀ ref (e : Datum), e.isContainer = false → f (.array ref) e.face = f (.array 0) e.face)
    (object : ∀ ref (e : Datum), e.isContainer = false → f (.object ref) e.face = f (.object 0) e.face)
    (atomic : d.isContainer = false) {ws : List Value} {es : List Datum}
    (items : List.Forall₂ s.toHeap.Carries ws es) : ws.map (f · v) = es.map fun e => f e.face d.face := by
  obtain rfl := c.of_face atomic
  exact map_eq_of_forall₂ items fun w _ e _ carried =>
    carried.face (f · d.face) (fun ref => array ref d atomic) fun ref => object ref d atomic

/-- The items that are what is looked for. -/
theorem found (c : s.toHeap.Carries v d) (atomic : d.isContainer = false) {ws : List Value} {es : List Datum}
    (items : List.Forall₂ s.toHeap.Carries ws es) :
    ws.any (·.isItem v) = es.any (·.face.isItem d.face) ∧
      ws.findIdx? (·.strictEquals v) = es.findIdx? (·.face.strictEquals d.face) := by
  constructor
  · have same := eq_of_atom Value.isItem c
      (fun _ e atomic => by cases e <;> first | rfl | cases atomic)
      (fun _ e atomic => by cases e <;> first | rfl | cases atomic) atomic items
    simpa only [List.any_map, Function.id_comp] using congrArg (List.any · id) same
  · have same := eq_of_atom Value.strictEquals c
      (fun _ e atomic => by cases e <;> first | rfl | cases atomic)
      (fun _ e atomic => by cases e <;> first | rfl | cases atomic) atomic items
    simpa only [List.findIdx?_map, Function.id_comp] using congrArg (List.findIdx? id) same

theorem join (c : s.toHeap.Carries v d) {ws : List Value} {es : List Datum}
    (items : List.Forall₂ s.toHeap.Carries ws es) :
    Realizes enough s
      (return .string ((match v with | .undefined => "," | v => s.toHeap.display v).intercalate
        (ws.map s.toHeap.itemText)))
      Heap.Carries
      (.ok (.string ((match d with | .undefined => "," | d => d.text).intercalate (Datum.textsOfItems es)))) := by
  have texts : ws.map s.toHeap.itemText = Datum.textsOfItems es := by
    rw [Datum.textsOfItems_eq]
    refine map_eq_of_forall₂ items fun w _ e _ carried => ?_
    rw [Heap.itemText, carried.isNullish, carried.display]
  have display := c.display
  rw [texts]
  cases d with
  | array _ | object _ =>
    obtain ⟨_, rfl, _⟩ := c.unfolds
    show Realizes enough s (return Value.string ((s.toHeap.display _).intercalate _)) _ _
    rw [display]
    exact .pure (.string _)
  | function _ => cases c.inert
  | _ =>
    obtain rfl := c.of_face rfl
    exact .pure (.string _)

theorem sought {w : Value} {e : Datum} (found : d.isContainer = false → s.toHeap.Carries w e) :
    Realizes enough s (return w) Heap.Carries (d.sought e) := by
  cases d with
  | array _ | object _ => exact .beyond
  | _ => exact .pure (found rfl)

theorem arrayQuery (call : Value → List Value → Eval Value) {ref : Nat} {key : String} {es : List Datum}
    (items : List.Forall₂ s.toHeap.Carries (s.toHeap.array ref).toList es) (pure : pureMethods.contains key = true)
    (args : List.Forall₂ s.toHeap.Carries vs ds) :
    Realizes enough s (arrayQuery call ref key vs) Heap.Carries (Datum.arrayMethod es key ds) := by
  have first := arg args 0
  have second := arg args 1
  unfold Script.arrayQuery Datum.arrayMethod
  refine .inspect ?_
  dsimp only
  generalize (s.toHeap.array ref).toList = ws at items
  generalize Script.arg vs 0 = v, Datum.arg ds 0 = d at first
  split
  · refine sought fun atomic => ?_
    rw [(found first atomic items).1]
    exact .bool _
  · refine sought fun atomic => ?_
    rw [(found first atomic items).2]
    exact .number _
  · exact join first items
  · rw [relativeIndex_eq first, relativeIndex_eq second, items.length_eq]
    exact newArray (List.forall₂_take _ (List.forall₂_drop _ items))
  · cases pure
  · cases pure
  · cases pure
  · cases pure
  · cases pure
  · split <;> first | exact .raise _ | contradiction

/-- What stands under a key of a datum is no function. -/
theorem notAFunction (ev : Evaluator) (key : String) (target : s.toHeap.Carries v d) :
    Realizes enough s (do
        let method ← Script.getProperty v key
        if method.isFunction then ev.call method vs
        else Script.raise (.type (.notAFunction (v.typeName ++ "." ++ key))))
      Heap.Carries (do
        let _ ← d.read key
        Datum.noMethod d.face.typeName key) := by
  refine .bind (getProperty target key) fun method _ t _ carried => ?_
  rw [carried.isFunction, target.typeName]
  exact .raise _

theorem numberMethod (x : Float) {key : String} (pure : pureMethods.contains key = true) :
    Realizes enough s (numberMethod x key vs) Heap.Carries (Datum.numberMethod x key) := by
  unfold Script.numberMethod Datum.numberMethod
  split
  · exact .pure (.string _)
  · cases pure
  · split
    · contradiction
    · exact .raise _

theorem callMethod (ev : Evaluator) {key : String} (pure : pureMethods.contains key = true)
    (target : s.toHeap.Carries v d) (args : List.Forall₂ s.toHeap.Carries vs ds) :
    Realizes enough s (callMethod ev v key vs) Heap.Carries (d.call key ds) := by
  cases d with
  | array es =>
    obtain ⟨ref, rfl, -, items⟩ := target.of_array
    have query : arrayMethod ev.call ref key vs = Script.arrayQuery ev.call ref key vs := by
      unfold arrayMethod
      split
      · cases pure
      · cases pure
      · rfl
    rw [Script.callMethod, query]
    exact arrayQuery ev.call items pure args
  | object fs =>
    obtain ⟨ref, rfl, -⟩ := target.of_object
    exact notAFunction ev key target
  | function _ => cases target.inert
  | number x =>
    obtain rfl := target.of_face rfl
    exact numberMethod x pure
  | string t =>
    obtain rfl := target.of_face rfl
    exact stringMethod t key args
  | undefined | null | bool _ =>
    obtain rfl := target.of_face rfl
    exact notAFunction ev key target

end Steps

/-- A chain goes on from a value where it goes on from the datum of the value. -/
theorem goOn {x : Eval (Option Value)} {m : Except Stop (Option Datum)} {optional : Bool}
    {next : Value → Eval (Option Value)} {next' : Datum → Except Stop (Option Datum)}
    (before : Realizes enough s x (fun h => Option.Rel h.Carries) m)
    (step : ∀ v d t, s.toHeap.Adds t.toHeap → t.toHeap.Carries v d →
      Realizes enough t (next v) (fun h => Option.Rel h.Carries) (next' d)) :
    Realizes enough s (x >>= goOn optional next) (fun h => Option.Rel h.Carries) (m >>= Datum.goOn optional next') := by
  refine .bind before fun found found' t adds related => ?_
  cases related with
  | none => exact .pure .none
  | @some v d carried =>
    rw [Script.goOn, Datum.goOn, carried.isNullish]
    split
    · exact .pure .none
    · exact step v d t adds carried

/-- Where a chain has stopped the value is `undefined` all the same. -/
theorem settle {act : Eval Value} {m : Except Stop (Option Datum)}
    (realizes : Realizes enough s act (fun h v o => h.Carries v (reached o)) m) :
    Realizes enough s act (fun h v o => ∃ d, o = some d ∧ h.Carries v d) (m >>= fun o => return some (reached o)) := by
  rw [← bind_pure act]
  exact realizes.bind fun v o t _ carried => .pure ⟨_, rfl, carried⟩

end Realizes

/-! ### Expressions -/

/-- Where its names stand for the data, an expression comes to its meaning, also where a chain begins with it. -/
structure Realized (host : Host) (env : Env) (data : String → Option Datum) (known : String → Bool) (e : Expr) : Prop where
  expr : ∀ (fuel : Nat) (s : State), s.toHeap.Binds env data known →
    Realizes (sizeOf e ≤ fuel) s (evalExpr host fuel env e) (fun h v o => h.Carries v (reached o)) (outcome data e)
  chain : ∀ (fuel : Nat) (s : State), s.toHeap.Binds env data known →
    Realizes (sizeOf e ≤ fuel) s (evalChain (evaluator host fuel) env e) (fun h => Option.Rel h.Carries) (outcome data e)

namespace Realized

variable {host : Host} {env : Env} {data : String → Option Datum} {known : String → Bool}

theorem sizeOf_pos (e : Expr) : 0 < sizeOf e := by
  cases e <;> simp

/-- One level of evaluation is enough. -/
theorem succ {e : Expr} {R : Heap → Value → Option Datum → Prop}
    (rule : ∀ (fuel : Nat) (s : State), s.toHeap.Binds env data known →
      Realizes (sizeOf e ≤ fuel + 1) s (evalRule (evaluator host fuel) env e) R (outcome data e))
    (fuel : Nat) (s : State) (binds : s.toHeap.Binds env data known) :
    Realizes (sizeOf e ≤ fuel) s (evalExpr host fuel env e) R (outcome data e) := by
  cases fuel with
  | zero => exact .outOfFuel (Nat.not_le.2 (sizeOf_pos e))
  | succ fuel => exact rule fuel s binds

/-- What is no link has a value. -/
theorem direct {e : Expr} (root : e.isLinked = false)
    (rule : ∀ (fuel : Nat) (s : State), s.toHeap.Binds env data known →
      Realizes (sizeOf e ≤ fuel + 1) s (evalRule (evaluator host fuel) env e)
        (fun h v o => ∃ d, o = some d ∧ h.Carries v d) (outcome data e)) : Realized host env data known e := by
  have runs := succ rule
  refine ⟨fun fuel s binds => ?_, fun fuel s binds => ?_⟩
  · refine (runs fuel s binds).mono id ?_
    rintro t v _ ⟨d, rfl, carried⟩
    exact carried
  · have first : evalChain (evaluator host fuel) env e = evalExpr host fuel env e >>= fun v => return some v := by
      cases e with
      | member _ _ _ _ | call _ _ _ _ => cases root
      | _ => rfl
    rw [first, ← bind_pure (outcome data e)]
    refine (runs fuel s binds).bind ?_
    rintro v _ t - ⟨d, rfl, carried⟩
    exact .pure (.some carried)

theorem link {e : Expr} (linked : e.isLinked = true)
    (chain : ∀ (fuel : Nat) (s : State), s.toHeap.Binds env data known →
      Realizes (sizeOf e ≤ fuel + 1) s (evalChain (evaluator host fuel) env e) (fun h => Option.Rel h.Carries)
        (outcome data e)) : Realized host env data known e := by
  refine ⟨succ fun fuel s binds => ?_, fun fuel s binds => (chain fuel s binds).within (Nat.le_succ_of_le ·)⟩
  have last : evalRule (evaluator host fuel) env e =
      evalChain (evaluator host fuel) env e >>= fun v? => return v?.getD .undefined := by
    cases e with
    | member _ _ _ _ | call _ _ _ _ => rfl
    | _ => cases linked
  rw [last, ← bind_pure (outcome data e)]
  refine (chain fuel s binds).bind fun v? o t _ related => ?_
  cases related with
  | none => exact .pure .undefined
  | some carried => exact .pure carried

/-! ### One level -/

section Nodes

variable {span : Span} {a b c : Expr}

theorem literal (v : Literal) : Realized host env data known (.literal span v) :=
  .direct rfl fun _ _ _ => .pure ⟨_, rfl, .literal v⟩

theorem ident {n : String} (is : known n = true) : Realized host env data known (.ident span n) := by
  refine .direct rfl fun fuel s binds => .inspect ?_
  have bound := binds n is
  rw [outcome]
  generalize s.toHeap.lookup? env n = v, data n = d at bound
  cases bound with
  | some carried => exact .pure ⟨_, rfl, carried⟩
  | none => exact .raise _

/-- An operand is undeclared where there is no datum for it. -/
theorem undeclared {op : UnaryOp} (pure : a.isPure known = true) {s : State} (binds : s.toHeap.Binds env data known)
    (ev : Evaluator) : evalUnary ev env op a s =
      (if isUndeclared data op a then return .string "undefined"
        else do
          let v ← ev.expr env a
          return unaryOp (← getHeap) op v : Eval Value) s := by
  cases op with
  | typeof =>
    cases a with
    | ident _ n =>
      have same : (s.toHeap.lookup? env n).isNone = (data n).isNone := by
        have bound := binds n pure
        generalize s.toHeap.lookup? env n = v, data n = d at bound
        cases bound <;> rfl
      show (if (s.toHeap.lookup? env n).isNone then _ else _ : Eval Value) s = _
      rw [same]
      rfl
    | _ => rfl
  | _ => rfl

theorem unary (op : UnaryOp) (pure : a.isPure known = true) (operand : Realized host env data known a) :
    Realized host env data known (.unary span op a) := by
  refine .direct rfl fun fuel s binds => ?_
  have rule : evalRule (evaluator host fuel) env (.unary span op a) s = _ :=
    undeclared pure binds (evaluator host fuel)
  rw [Realizes, rule, outcome]
  split
  · exact .value (.refl _) ⟨_, rfl, .string _⟩
  · refine Realizes.bind ((operand.expr fuel s binds).within ?_) fun v o t _ carried => ?_
    · rw [Expr.unary.sizeOf_spec]
      omega
    · exact .inspect (.pure ⟨_, rfl, carried.unaryOp op⟩)

theorem binary {op : BinaryOp} (contents : op.isEquality = false) (first : Realized host env data known a)
    (second : Realized host env data known b) : Realized host env data known (.binary span op a b) := by
  refine .direct rfl fun fuel s binds => ?_
  rw [outcome, evalRule, evalBinary]
  refine .bind ((first.expr fuel s binds).within ?_) fun v o t adds carried => ?_
  · rw [Expr.binary.sizeOf_spec]
    omega
  rw [carried.settledBy]
  split
  · exact .pure ⟨_, rfl, carried⟩
  · refine .bind ((second.expr fuel t (adds.binds binds)).within ?_) fun w p u more carried' => ?_
    · rw [Expr.binary.sizeOf_spec]
      omega
    · cases decided : BinaryOp.isLogical op with
      | true => exact .pure ⟨_, rfl, carried'⟩
      | false => exact .inspect (.pure ⟨_, rfl, (carried.extend more.toExtends).binaryOp carried' contents decided⟩)

theorem cond (test : Realized host env data known a) (yes : Realized host env data known b)
    (no : Realized host env data known c) : Realized host env data known (.cond span a b c) := by
  refine .direct rfl fun fuel s binds => ?_
  rw [outcome, evalRule]
  refine .bind ((test.expr fuel s binds).within ?_) fun v o t adds carried => ?_
  · rw [Expr.cond.sizeOf_spec]
    omega
  rw [carried.truthy]
  have after := adds.binds binds
  split
  · refine .settle ((yes.expr fuel t after).within ?_)
    rw [Expr.cond.sizeOf_spec]
    omega
  · refine .settle ((no.expr fuel t after).within ?_)
    rw [Expr.cond.sizeOf_spec]
    omega

end Nodes

mutual

/-- In every heap, a pure expression with known names comes to its meaning. -/
theorem of_isPure : (e : Expr) → e.isPure known = true → Realized host env data known e
  | .literal _ v, _ => literal v
  | .ident _ _, pure => ident pure
  | .array span items, pure => by
    refine .direct rfl fun fuel s binds => ?_
    rw [outcome, evalRule]
    refine .bind ((arguments items pure fuel s binds).within ?_) fun vs ds t _ carried => ?_
    · rw [Expr.array.sizeOf_spec]
      omega
    · rw [← bind_pure (newArray vs)]
      exact (Realizes.newArray carried).bind fun v d u _ carried => .pure ⟨_, rfl, carried⟩
  | .object span props, pure => by
    refine .direct rfl fun fuel s binds => ?_
    rw [outcome, evalRule]
    refine .bind ((fields props pure fuel s binds [] [] List.nodup_nil .nil).within ?_) fun r fs t _ carried => ?_
    · rw [Expr.object.sizeOf_spec]
      omega
    · rw [← bind_pure (newObject r)]
      exact (Realizes.newObject carried.1 carried.2).bind fun v d u _ carried => .pure ⟨_, rfl, carried⟩
  | .unary _ op e, pure => unary op pure (of_isPure e pure)
  | .binary _ op a b, pure => by
    obtain ⟨contents, first, second⟩ := by simpa only [Expr.isPure, Bool.and_eq_true] using pure
    exact binary (by simpa using contents) (of_isPure a first) (of_isPure b second)
  | .cond _ a b c, pure => by
    obtain ⟨test, yes, no⟩ := by simpa only [Expr.isPure, Bool.and_eq_true] using pure
    exact cond (of_isPure a test) (of_isPure b yes) (of_isPure c no)
  | .member span o k optional, pure => by
    obtain ⟨object, key⟩ := by simpa only [Expr.isPure, Bool.and_eq_true] using pure
    refine .link rfl fun fuel s binds => ?_
    rw [outcome, evalChain_member]
    refine .goOn (((of_isPure o object).chain fuel s binds).within ?_) fun v d t adds carried => ?_
    · rw [Expr.member.sizeOf_spec]
      omega
    -- the key can make arrays and objects too; the object that has been found is still what it was
    refine .bind ((keyed k key fuel t (adds.binds binds)).within ?_) ?_
    · rw [Expr.member.sizeOf_spec]
      omega
    · rintro name _ u more rfl
      exact (Realizes.getProperty (carried.extend more.toExtends) name).bind fun v d u _ carried => .pure (.some carried)
  | .call _ (.member _ o (.named m) optional) args false, pure => by
    obtain ⟨method, object, given⟩ := by simpa only [Expr.isPure, Bool.and_eq_true] using pure
    refine .link rfl fun fuel s binds => ?_
    rw [outcome, evalChain_method]
    refine .goOn (((of_isPure o object).chain fuel s binds).within ?_) fun v d t adds carried => ?_
    · rw [Expr.call.sizeOf_spec, Expr.member.sizeOf_spec]
      omega
    have named : callNamed (evaluator host fuel) env (.named m) args false v = (do
        let values ← evalArgs (evaluator host fuel) env args
        return some (← callMethod (evaluator host fuel) v m values)) := rfl
    have named' : (do
        let key ← outcomeKey data (.named m)
        let ds ← outcomes data args
        return some (← d.call key ds)) = (do
        let ds ← outcomes data args
        return some (← d.call m ds)) := rfl
    rw [named, named']
    refine .bind ((arguments args given fuel t (adds.binds binds)).within ?_) fun vs ds u more items => ?_
    · rw [Expr.call.sizeOf_spec]
      omega
    · exact (Realizes.callMethod _ method (carried.extend more.toExtends) items).bind
        fun v d u _ carried => .pure (.some carried)

theorem keyed : (k : Key) → k.isPure known = true → ∀ (fuel : Nat) (s : State), s.toHeap.Binds env data known →
    Realizes (sizeOf k ≤ fuel) s (evalKey (evaluator host fuel) env k) (fun _ t u => t = u) (outcomeKey data k)
  | .named _, _, _, _, _ => .pure rfl
  | .computed e, pure, fuel, s, binds => by
    rw [outcomeKey]
    refine .bind (((of_isPure e pure).expr fuel s binds).within ?_) fun v o t _ carried => ?_
    · rw [Key.computed.sizeOf_spec]
      omega
    · exact .displayOf carried

theorem arguments : (es : List Expr) → Expr.allPure known es = true → ∀ (fuel : Nat) (s : State),
    s.toHeap.Binds env data known → Realizes (sizeOf es ≤ fuel) s (evalArgs (evaluator host fuel) env es)
      (fun h => List.Forall₂ h.Carries) (outcomes data es)
  | [], _, _, _, _ => .pure .nil
  | e :: es, pure, fuel, s, binds => by
    obtain ⟨first, rest⟩ := by simpa only [Expr.allPure, Bool.and_eq_true] using pure
    have split : evalArgs (evaluator host fuel) env (e :: es) = (do
        let v ← evalExpr host fuel env e
        let vs ← evalArgs (evaluator host fuel) env es
        return v :: vs) := List.mapM_cons
    rw [outcomes, split]
    refine .bind (((of_isPure e first).expr fuel s binds).within ?_) fun v o t adds carried => ?_
    · rw [List.cons.sizeOf_spec]
      omega
    refine .bind ((arguments es rest fuel t (adds.binds binds)).within ?_) fun vs ds u more items => ?_
    · rw [List.cons.sizeOf_spec]
      omega
    exact .pure (.cons (carried.extend more.toExtends) items)

theorem fields : (ps : List Property) → Property.allPure known ps = true → ∀ (fuel : Nat) (s : State),
    s.toHeap.Binds env data known → ∀ (r : Record Value) (fs : Record Datum), r.names.Nodup →
      s.toHeap.CarriesFields r fs → Realizes (sizeOf ps ≤ fuel) s (evalProps (evaluator host fuel) env r ps)
        (fun h r fs => r.names.Nodup ∧ h.CarriesFields r fs) (outcomeFields data fs ps)
  | [], _, _, _, _, _, _, distinct, carried => .pure ⟨distinct, carried⟩
  | ⟨k, v⟩ :: ps, pure, fuel, s, binds, r, fs, distinct, before => by
    obtain ⟨key, value, rest⟩ := by simpa only [Property.allPure, Bool.and_eq_true] using pure
    rw [outcomeFields, evalProps]
    refine .bind ((keyed k key fuel s binds).within ?_) ?_
    · rw [List.cons.sizeOf_spec, Property.mk.sizeOf_spec]
      omega
    rintro name _ t adds rfl
    refine .bind (((of_isPure v value).expr fuel t (adds.binds binds)).within ?_) fun w o u more carried => ?_
    · rw [List.cons.sizeOf_spec, Property.mk.sizeOf_spec]
      omega
    refine (fields ps rest fuel u (more.binds (adds.binds binds)) _ _ (nodup_names_put distinct name w)
      ((before.extend (adds.trans more).toExtends).put carried name)).within ?_
    rw [List.cons.sizeOf_spec]
    omega

end

end Realized

/-! ### Programs -/

/-- A run ends as the meaning of a pure expression says. -/
def ComesTo (run : EStateM.Result Fault State Value) : Except Stop Datum → Prop
  | .ok d => ∃ v t, run = .ok v t ∧ t.toHeap.Carries v d
  | .error (.failure e) => ∃ t, run = .error (.error e) t
  | .error .beyond => True

theorem Realizes.comesTo {enough : Prop} {s : State} {act : Eval Value} {m : Except Stop (Option Datum)}
    (realizes : Realizes enough s act (fun h v o => h.Carries v (reached o)) m) (is : enough) :
    ComesTo (act s) (reached <$> m) := by
  unfold Realizes at realizes
  generalize act s = run at *
  cases realizes with
  | value _ carried => exact ⟨_, _, rfl, carried⟩
  | failure => exact ⟨_, rfl⟩
  | outOfFuel few => exact absurd is few
  | beyond => trivial

/-- The program of an expression is a run of it in a new scope. -/
theorem runProgram_expr (host : Host) (fuel : Nat) (env : Env) (span : Span) (e : Expr) :
    runProgram host (fuel + 1) env [.expr span e] = newScope env >>= fun scope => evalExpr host fuel scope e := by
  refine bind_congr fun scope => ?_
  have block : execBlock (evaluator host (fuel + 1)) scope [.expr span e] =
      evalExpr host fuel scope e >>= fun v => return .normal (some v) := by
    have stmt : execStmt host (fuel + 1) scope (.expr span e) =
        evalExpr host fuel scope e >>= fun v => return .normal (some v) := rfl
    show (execStmt host (fuel + 1) scope (.expr span e) >>= _) = _
    rw [stmt, bind_assoc]
    rfl
  rw [block, bind_assoc]
  exact bind_pure _

/-- **The program of a pure expression comes to its meaning.** -/
theorem runProgram_comesTo {host : Host} {env : Env} {data : String → Option Datum} {known : String → Bool} {e : Expr}
    (pure : e.isPure known = true) {fuel : Nat} (enough : sizeOf e < fuel) (span : Span) {s : State}
    (binds : s.toHeap.Binds env data known) : ComesTo (runProgram host fuel env [.expr span e] s) (meaning data e) := by
  obtain ⟨fuel, rfl⟩ := Nat.exists_eq_add_one_of_ne_zero (Nat.ne_zero_of_lt enough)
  rw [runProgram_expr]
  exact ((Realized.of_isPure e pure).expr fuel _ binds.child).comesTo (Nat.le_of_lt_succ enough)

end Staging.Script
