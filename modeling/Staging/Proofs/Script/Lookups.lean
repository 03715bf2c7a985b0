import Staging.Proofs.Script.ScopeNames
import Staging.Proofs.Source.Free

/-!
Where reference errors come from.

An expression whose names are declared can fail in many ways, but not because one of them is unknown: a reference error
that it ends in is one of a function that was called (`evalExpr_blames`). The names are those that are evaluated with the
expression; what stands in a function is looked up only when that is called.

`Blames later blamed act` is the invariant. From states that come later than a given one the computation leads to such
states, and a reference error is to be blamed on something. It holds of what looks no name up, of the lookup of a
declared name, and of what is put together from such computations; so it holds of each rule, and by induction on the fuel
of every evaluation.
-/

namespace Staging.Script

/-- Leads from later states to later ones. A reference error that it ends in is to be blamed on something. -/
structure Blames (later : State → Prop) (blamed : String → State → Prop) {α : Type} (act : Eval α) : Prop where
  leads : ∀ {s a t}, later s → act s = .ok a t → later t
  blames : ∀ {s name t}, later s → act s = .error (.error (.reference name)) t → blamed name t

namespace Blames

variable {later : State → Prop} {blamed : String → State → Prop} {α β : Type}

/-! ### Computations put together -/

theorem pure (a : α) : Blames later blamed (Pure.pure a : Eval α) where
  leads sure run := by
    cases run
    exact sure
  blames _ run := by cases run

theorem raise {e : RuntimeError} (other : ∀ name, e ≠ .reference name) :
    Blames later blamed (raise e : Eval α) where
  leads _ run := by cases run
  blames _ run := by
    cases run
    exact absurd rfl (other _)

/-- What is done with a result may depend on how that came about. -/
theorem bindOf {x : Eval β} {f : β → Eval α} (hx : Blames later blamed x)
    (hf : ∀ b, (∃ s t, x s = .ok b t) → Blames later blamed (f b)) : Blames later blamed (x >>= f) where
  leads sure run := by
    obtain ⟨b, t, first, run⟩ := bind_eq_ok.1 run
    exact (hf b ⟨_, _, first⟩).leads (hx.leads sure first) run
  blames sure run := by
    rcases bind_eq_error.1 run with run | ⟨b, t, first, run⟩
    · exact hx.blames sure run
    · exact (hf b ⟨_, _, first⟩).blames (hx.leads sure first) run

theorem bind {x : Eval β} {f : β → Eval α} (hx : Blames later blamed x) (hf : ∀ b, Blames later blamed (f b)) :
    Blames later blamed (x >>= f) := hx.bindOf fun b _ => hf b

theorem map {x : Eval β} (f : β → α) (hx : Blames later blamed x) : Blames later blamed (f <$> x) := by
  rw [map_eq_pure_bind]
  exact hx.bind fun b => pure (f b)

theorem mapM {f : β → Eval α} : ∀ bs : List β, (∀ b ∈ bs, Blames later blamed (f b)) →
    Blames later blamed (bs.mapM f)
  | [], _ => pure _
  | b :: bs, h => by
    rw [List.mapM_cons]
    refine (h b List.mem_cons_self).bind fun _ => ?_
    exact (mapM bs fun b' inside => h b' (List.mem_cons_of_mem _ inside)).bind fun _ => pure _

/-- What succeeds and leads to a later state. -/
theorem of_ok {act : Eval α} (ends : ∀ s, later s → ∃ a t, act s = .ok a t ∧ later t) : Blames later blamed act where
  leads sure run := by
    obtain ⟨_, _, same, next⟩ := ends _ sure
    cases same.symm.trans run
    exact next
  blames sure run := by
    obtain ⟨_, _, same, _⟩ := ends _ sure
    cases same.symm.trans run

theorem getHeap : Blames later blamed getHeap := of_ok fun s sure => ⟨s.toHeap, s, rfl, sure⟩

theorem displayOf (v : Value) : Blames later blamed (displayOf v) := getHeap.bind fun _ => pure _

theorem numberOf (v : Value) : Blames later blamed (numberOf v) := getHeap.bind fun _ => pure _

theorem getProperty (target : Value) (key : String) : Blames later blamed (getProperty target key) := by
  refine getHeap.bind fun h => ?_
  split
  · exact raise (by rintro _ ⟨⟩)
  · exact pure _

theorem getVar {env : Env} {name : String} (declared : ∀ s, later s → s.toHeap.Declares env name) :
    Blames later blamed (getVar env name) := by
  refine of_ok fun s sure => ?_
  obtain ⟨v, found⟩ := getVar_of_declared (declared s sure)
  exact ⟨v, s, found, sure⟩

theorem noMethod (kind key : String) : Blames later blamed (noMethod kind key : Eval α) := raise (by rintro _ ⟨⟩)

theorem dateMethod (t : Instant) (key : String) : Blames later blamed (dateMethod t key) := by
  unfold Script.dateMethod
  split <;> first | exact pure _ | exact noMethod _ _

theorem numberMethod (x : Float) (key : String) (args : List Value) :
    Blames later blamed (numberMethod x key args) := by
  unfold Script.numberMethod
  split
  · exact pure _
  · exact (numberOf _).bind fun _ => pure _
  · exact noMethod _ _

end Blames

/-! ### Changes of the state -/

namespace Conserves

variable {R : Option Nat → State → State → Prop} (c : Conserves R) {s₀ : State} {blamed : String → State → Prop}
  {α : Type}
include c

theorem blames_onHeap {f : Heap → α × Heap} (frames : ∀ h, (f h).2.frames = h.frames) :
    Blames (R none s₀) blamed (Script.onHeap f) :=
  .of_ok fun s sure => ⟨_, _, rfl, (c.connected none).trans sure (c.heap s (f s.toHeap).2 (frames _))⟩

theorem blames_modifyHeap {f : Heap → Heap} (frames : ∀ h, (f h).frames = h.frames) :
    Blames (R none s₀) blamed (Script.modifyHeap f) :=
  .of_ok fun s sure => ⟨_, _, rfl, (c.connected none).trans sure (c.heap s (f s.toHeap) (frames _))⟩

theorem blames_newArray (items : List Value) : Blames (R none s₀) blamed (newArray items) :=
  c.blames_onHeap fun _ => rfl

theorem blames_setProperty (target : Value) (key : String) (v : Value) :
    Blames (R none s₀) blamed (setProperty target key v) := by
  unfold setProperty
  split
  · exact c.blames_modifyHeap fun _ => rfl
  · split
    · refine (Blames.numberOf v).bind fun x => ?_
      split
      · exact c.blames_modifyHeap fun _ => rfl
      · exact .raise (by rintro _ ⟨⟩)
    · split
      · exact .raise (by rintro _ ⟨⟩)
      · split
        · exact .raise (by rintro _ ⟨⟩)
        · exact c.blames_modifyHeap fun _ => rfl
  · exact .raise (by rintro _ ⟨⟩)

/-- Assigning to a declared name may fail because it is a constant. -/
theorem blames_setVar {env : Env} {name : String} (declared : ∀ s, R none s₀ s → s.toHeap.Declares env name)
    (v : Value) : Blames (R none s₀) blamed (setVar env name v) where
  leads {s a t} sure run := by
    rw [setVar_eq] at run
    cases found : s.toHeap.target env name with
    | ok i =>
      simp only [found] at run
      cases run
      exact (c.connected none).trans sure (c.write s env name i v found)
    | error e =>
      simp only [found] at run
      cases run
  blames {s name' t} sure run := by
    rw [setVar_eq] at run
    obtain ⟨⟨i, b⟩, found⟩ := Option.isSome_iff_exists.1 ((s.toHeap.isSome_resolve? env name).2 (declared s sure))
    have target : s.toHeap.target env name = if b.mutable then .ok i else .error (.constAssignment name) := by
      simp only [Heap.target, found]
    rw [target] at run
    by_cases mutable : b.mutable = true
    · rw [if_pos mutable] at run
      cases run
    · rw [if_neg mutable] at run
      cases run

theorem blames_stringMethod (s key : String) (args : List Value) :
    Blames (R none s₀) blamed (stringMethod s key args) := by
  refine Blames.getHeap.bind fun h => ?_
  simp only
  split
  case h_10 =>
    split
    · exact c.blames_newArray _
    · split <;> exact c.blames_newArray _
  all_goals first | exact .pure _ | exact .noMethod _ _

section

variable {call : Value → List Value → Eval Value} (called : ∀ f args, Blames (R none s₀) blamed (call f args))
include called

omit c in
theorem blames_callEach (f : Value) : ∀ (n : Nat) (vs : List Value), Blames (R none s₀) blamed (callEach call f n vs)
  | _, [] => .pure _
  | n, _ :: rest => (called f _).bind fun _ => (blames_callEach f (n + 1) rest).bind fun _ => .pure _

omit c in
theorem blames_callFold (f : Value) : ∀ (n : Nat) (acc : Value) (vs : List Value),
    Blames (R none s₀) blamed (callFold call f n acc vs)
  | _, _, [] => .pure _
  | n, _, _ :: rest => (called f _).bind fun acc => blames_callFold f (n + 1) acc rest

theorem blames_arrayMethod (ref : Nat) (key : String) (args : List Value) :
    Blames (R none s₀) blamed (arrayMethod call ref key args) := by
  unfold arrayMethod
  split
  · exact (c.blames_modifyHeap fun _ => by rfl).bind fun _ => Blames.getHeap.bind fun _ => .pure _
  · exact Blames.getHeap.bind fun _ => (c.blames_modifyHeap fun _ => by rfl).bind fun _ => .pure _
  · refine Blames.getHeap.bind fun h => ?_
    simp only
    split
    · exact .pure _
    · exact .pure _
    · exact .pure _
    · exact c.blames_newArray _
    · exact c.blames_newArray _
    · exact (blames_callEach called _ 0 _).bind fun _ => c.blames_newArray _
    · exact (blames_callEach called _ 0 _).bind fun _ => c.blames_newArray _
    · exact (blames_callEach called _ 0 _).bind fun _ => .pure _
    · split
      · exact blames_callFold called _ 0 _ _
      · exact blames_callFold called _ 1 _ _
      · exact .raise (by rintro _ ⟨⟩)
    · exact .noMethod _ _

end

end Conserves

/-! ### Expressions with declared names -/

/-- The names evaluated with an expression are declared in later states, and functions are called on a condition only. -/
structure Known (later : State → Prop) (env : Env) (mayCall : Prop) (e : Expr) : Prop where
  names : ∀ {span name}, (Expr.ident span name).Within e → ∀ s, later s → s.toHeap.Declares env name
  calls : ∀ {x : Expr}, x.Within e → x.isCall = true → mayCall

theorem Known.child {later : State → Prop} {env : Env} {mayCall : Prop} {e part : Expr} (h : Known later env mayCall e)
    (child : part ∈ e.children) : Known later env mayCall part where
  names within := h.names (.inside child within)
  calls within := h.calls (.inside child within)

/-- A function that was called ends in a reference error. -/
def CallFails (later : State → Prop) (host : Host) (name : String) (t : State) : Prop :=
  ∃ fuel f args s, later s ∧ callValue host fuel f args s = .error (.error (.reference name)) t

/-- A variable that is written is declared. -/
def Place.Declared (later : State → Prop) (env : Env) : Place → Prop
  | .var name => ∀ s, later s → s.toHeap.Declares env name
  | .property _ _ => True

namespace Conserves

variable {R : Option Nat → State → State → Prop} (c : Conserves R) {s₀ : State} {blamed : String → State → Prop}
  {env : Env} {mayCall : Prop} {ev : Evaluator}
  (inner : ∀ e, Known (R none s₀) env mayCall e → Blames (R none s₀) blamed (ev.expr env e))
  (called : mayCall → ∀ f args, Blames (R none s₀) blamed (ev.call f args))

section Parts

include inner

omit c in
theorem blames_evalKey (k : Key) (known : ∀ e ∈ k.children, Known (R none s₀) env mayCall e) :
    Blames (R none s₀) blamed (evalKey ev env k) := by
  cases k with
  | named name => exact .pure _
  | computed e => exact (inner e (known e List.mem_cons_self)).bind fun v => .displayOf v

omit c in
theorem blames_evalArgs (args : List Expr) (known : ∀ e ∈ args, Known (R none s₀) env mayCall e) :
    Blames (R none s₀) blamed (evalArgs ev env args) :=
  .mapM args fun e inside => inner e (known e inside)

omit c in
theorem blames_evalProps : ∀ (ps : List Property) (fields : Record Value),
    (∀ p ∈ ps, ∀ e ∈ p.key.children ++ [p.value], Known (R none s₀) env mayCall e) →
    Blames (R none s₀) blamed (evalProps ev env fields ps)
  | [], _, _ => .pure _
  | p :: rest, fields, known => by
    have here := known p List.mem_cons_self
    refine (blames_evalKey inner p.key fun e inside => here e (List.mem_append_left _ inside)).bind fun _ => ?_
    refine (inner p.value (here _ (List.mem_append_right _ List.mem_cons_self))).bind fun _ => ?_
    exact blames_evalProps rest _ fun q inside => known q (List.mem_cons_of_mem _ inside)

omit c in
theorem blames_resolvePlace {target : Expr} (known : Known (R none s₀) env mayCall target) :
    Blames (R none s₀) blamed (resolvePlace ev env target) := by
  unfold resolvePlace
  split
  · exact .pure _
  · refine (inner _ (known.child List.mem_cons_self)).bind fun _ => ?_
    exact (blames_evalKey inner _ fun e inside => known.child (List.mem_cons_of_mem _ inside)).bind fun _ => .pure _
  · exact .raise (by rintro _ ⟨⟩)

omit c inner in
theorem declared_of_resolvePlace {target : Expr} (known : Known (R none s₀) env mayCall target) {place : Place}
    {s t : State} (run : resolvePlace ev env target s = .ok place t) : place.Declared (R none s₀) env := by
  unfold resolvePlace at run
  split at run
  · cases run
    exact known.names .self
  · obtain ⟨_, _, _, run⟩ := bind_eq_ok.1 run
    obtain ⟨_, _, _, run⟩ := bind_eq_ok.1 run
    cases run
    trivial
  · cases run

omit c inner in
theorem blames_readPlace {place : Place} (declared : place.Declared (R none s₀) env) :
    Blames (R none s₀) blamed (readPlace env place) := by
  cases place with
  | var name => exact .getVar declared
  | property object key => exact .getProperty object key

omit inner in
include c in
theorem blames_writePlace {place : Place} (declared : place.Declared (R none s₀) env) (v : Value) :
    Blames (R none s₀) blamed (writePlace env place v) := by
  cases place with
  | var name => exact c.blames_setVar declared v
  | property object key => exact c.blames_setProperty object key v

end Parts

include c in
theorem blames_callMethod (called : ∀ f args, Blames (R none s₀) blamed (ev.call f args)) (target : Value) (key : String)
    (args : List Value) : Blames (R none s₀) blamed (callMethod ev target key args) := by
  unfold callMethod
  split
  · exact c.blames_arrayMethod called _ key args
  · exact c.blames_stringMethod _ key args
  · exact .dateMethod _ key
  · exact .numberMethod _ key args
  · refine (Blames.getProperty target key).bind fun method => ?_
    split
    · exact called method args
    · exact .raise (by rintro _ ⟨⟩)

section Rules

include c inner

include called in
theorem blames_evalChain (e : Expr) (known : Known (R none s₀) env mayCall e) :
    Blames (R none s₀) blamed (evalChain ev env e) := by
  induction e using Script.evalChain.induct with
  | case1 span object key optional ih =>
    rw [Script.evalChain.eq_1]
    refine (ih (known.child List.mem_cons_self)).bind fun found => ?_
    cases found with
    | none => exact .pure none
    | some target =>
      simp only
      split
      · exact .pure none
      · refine (blames_evalKey inner key fun e inside => known.child (List.mem_cons_of_mem _ inside)).bind fun k => ?_
        exact (Blames.getProperty target k).bind fun _ => .pure _
  | case2 span s object key optionalMember args optional ih =>
    have method := known.child List.mem_cons_self
    rw [Script.evalChain.eq_2]
    refine (ih (method.child List.mem_cons_self)).bind fun found => ?_
    cases found with
    | none => exact .pure none
    | some target =>
      simp only
      split
      · exact .pure none
      · refine (blames_evalKey inner key fun e inside => method.child (List.mem_cons_of_mem _ inside)).bind fun k => ?_
        have ran : Blames (R none s₀) blamed (do
            let values ← evalArgs ev env args
            return some (← callMethod ev target k values)) := by
          refine (blames_evalArgs inner args fun e inside => known.child (List.mem_cons_of_mem _ inside)).bind fun vs => ?_
          exact (c.blames_callMethod (called (known.calls .self rfl)) target k vs).bind fun _ => .pure _
        split
        · refine ((Blames.getProperty target k).map _).bind fun absent => ?_
          split
          · exact .pure none
          · exact ran
        · exact ran
  | case3 span callee args optional other ih =>
    rw [Script.evalChain.eq_3 _ _ _ _ _ _ other]
    refine (ih (known.child List.mem_cons_self)).bind fun found => ?_
    cases found with
    | none => exact .pure none
    | some func =>
      simp only
      split
      · exact .pure none
      · refine (blames_evalArgs inner args fun e inside => known.child (List.mem_cons_of_mem _ inside)).bind fun vs => ?_
        exact (called (known.calls .self rfl) func vs).bind fun _ => .pure _
  | case4 e noMember noMethod noCall =>
    rw [Script.evalChain.eq_4 _ _ _ noMember noMethod noCall]
    exact (inner e known).bind fun _ => .pure _

theorem blames_evalUpdate {span : Span} {op : UpdateOp} {before : Bool} {target : Expr}
    (known : Known (R none s₀) env mayCall (.update span op before target)) :
    Blames (R none s₀) blamed (evalUpdate ev env op before target) := by
  have target := known.child List.mem_cons_self
  refine (blames_resolvePlace inner target).bindOf fun place ⟨_, _, resolved⟩ => ?_
  have declared := declared_of_resolvePlace target resolved
  refine (blames_readPlace declared).bind fun old => (Blames.numberOf old).bind fun _ => ?_
  exact (c.blames_writePlace declared _).bind fun _ => .pure _

theorem blames_evalAssign {span : Span} {op : AssignOp} {target value : Expr}
    (known : Known (R none s₀) env mayCall (.assign span op target value)) :
    Blames (R none s₀) blamed (evalAssign ev env op target value) := by
  have target := known.child List.mem_cons_self
  have value := inner _ (known.child (List.mem_cons_of_mem _ List.mem_cons_self))
  refine (blames_resolvePlace inner target).bindOf fun place ⟨_, _, resolved⟩ => ?_
  have declared := declared_of_resolvePlace target resolved
  have assigned : ∀ result, Blames (R none s₀) blamed (do writePlace env place result; return result) :=
    fun result => (c.blames_writePlace declared result).bind fun _ => .pure result
  split
  · exact value.bind assigned
  · refine (blames_readPlace declared).bind fun current => value.bind fun operand => ?_
    exact Blames.getHeap.bind fun _ => (Blames.pure _).bind assigned

omit c in
theorem blames_evalUnary {span : Span} {op : UnaryOp} {operand : Expr}
    (known : Known (R none s₀) env mayCall (.unary span op operand)) :
    Blames (R none s₀) blamed (evalUnary ev env op operand) := by
  have evaluated : ∀ undeclared : Bool, Blames (R none s₀) blamed (do
      if undeclared then return .string "undefined"
      else
        let v ← ev.expr env operand
        return unaryOp (← Script.getHeap) op v) := by
    intro undeclared
    split
    · exact .pure _
    · exact (inner operand (known.child List.mem_cons_self)).bind fun _ => Blames.getHeap.bind fun _ => .pure _
  unfold evalUnary
  split
  · exact Blames.getHeap.bind fun _ => (Blames.pure _).bind evaluated
  · exact (Blames.pure _).bind evaluated

omit c in
include called in
theorem blames_evalNew {span : Span} {callee : Expr} {args : List Expr}
    (known : Known (R none s₀) env mayCall (.new span callee args)) :
    Blames (R none s₀) blamed (evalNew ev env callee args) := by
  refine (inner callee (known.child List.mem_cons_self)).bind fun constructor => ?_
  refine (blames_evalArgs inner args fun e inside => known.child (List.mem_cons_of_mem _ inside)).bind fun vs => ?_
  split
  · exact called (known.calls .self rfl) constructor vs
  · exact .raise (by rintro _ ⟨⟩)

include called in
/-- **One level of evaluation** ends in a reference error only if a part does, or a function that is called. -/
theorem blames_evalRule (e : Expr) (known : Known (R none s₀) env mayCall e) :
    Blames (R none s₀) blamed (evalRule ev env e) := by
  cases e with
  | literal => exact .pure _
  | ident => exact .getVar (known.names .self)
  | array span items =>
    exact (blames_evalArgs inner items fun e inside => known.child inside).bind fun vs => c.blames_newArray vs
  | object span props =>
    refine (blames_evalProps inner props [] fun p there e inside => known.child ?_).bind fun fields => ?_
    · exact List.mem_flatMap.2 ⟨p, there, inside⟩
    · exact c.blames_onHeap fun _ => by rfl
  | function span func =>
    exact c.blames_onHeap (f := (·.newFunction (.closure func env))) fun _ => rfl
  | unary => exact blames_evalUnary inner known
  | update => exact c.blames_evalUpdate inner known
  | binary span op left right =>
    refine (inner left (known.child List.mem_cons_self)).bind fun a => ?_
    split
    · exact .pure a
    · refine (inner right (known.child (List.mem_cons_of_mem _ List.mem_cons_self))).bind fun b => ?_
      split
      · exact .pure b
      · exact Blames.getHeap.bind fun _ => .pure _
  | assign => exact c.blames_evalAssign inner known
  | cond span test yes no =>
    refine (inner test (known.child (by simp [Expr.children]))).bind fun v => ?_
    split
    · exact inner yes (known.child (by simp [Expr.children]))
    · exact inner no (known.child (by simp [Expr.children]))
  | member | call => exact (c.blames_evalChain inner called _ known).bind fun _ => .pure _
  | new => exact blames_evalNew inner called known

end Rules

include c in
/--
**Reference errors come from calls.** Where the names of an expression are declared, its evaluation ends in a reference
error only if it calls functions, and then a function that was called ends in the same way.
-/
theorem evalExpr_blames {host : Host} (hosted : ∀ id args, Along (R none) (host id args)) (fuel : Nat) {e : Expr}
    (known : Known (R none s₀) env mayCall e) :
    Blames (R none s₀) (fun name t => mayCall ∧ CallFails (R none s₀) host name t) (evalExpr host fuel env e) := by
  induction fuel generalizing e with
  | zero =>
    constructor
    · intro s v t _ run
      cases run
    · intro s name t _ run
      cases run
  | succ fuel ih =>
    refine c.blames_evalRule (fun _ => ih) (fun may f args => ?_) e known
    constructor
    · exact fun sure run => (c.connected none).trans sure (((c.evaluator_obeys hosted fuel).call f args).ok run)
    · exact fun sure run => ⟨may, fuel, f, args, _, sure, run⟩

end Conserves

end Staging.Script
