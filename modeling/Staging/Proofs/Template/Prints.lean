import Staging.Proofs.Template.Fragments
import Staging.Proofs.Template.ValueText

/-!
Running a program beside specialising a tree.

`Runs act m Q` says that a run and the specialisation of a tree go hand in hand: where the one ends, the other
does, in the same state of the interpreter, and `Q` relates the tree to the text that was appended. There is a
law for each way to put computations together. `Renders` says it of everything that is compiled from a list
of parts, so what holds of a template is shown along its layout, part by part.
-/

namespace Staging.Template

open Script

/-- The run ended as the specialisation did, with text appended to `out` that `Q` relates to the tree. -/
def Ends {α β : Type} (out : String) (Q : α → β → List Char → Prop) :
    EStateM.Result Obstacle State α → EStateM.Result Halt GenerateState β → Prop
  | .ok a st, y => ∃ b t, y = .ok b ⟨st, out ++ t⟩ ∧ Q a b t.toList
  | .error o st, y => ∀ halt ∈ o.halt?, ∃ out, y = .error halt ⟨st, out⟩

/-- The run does what the specialisation does, and appends a text that `Q` relates to the tree. -/
def Runs {α β : Type} (act : Generate β) (m : Specialize α) (Q : α → β → List Char → Prop) : Prop :=
  ∀ s : GenerateState, Ends s.out Q (m s.toState) (act s)

theorem Ends.imp {α β : Type} {out out' : String} {P Q : α → β → List Char → Prop}
    {x : EStateM.Result Obstacle State α} {y : EStateM.Result Halt GenerateState β} (h : Ends out P x y)
    (hQ : ∀ a b t, P a b t.toList → ∃ u, out ++ t = out' ++ u ∧ Q a b u.toList) : Ends out' Q x y := by
  match x with
  | .ok a st =>
    obtain ⟨b, t, rfl, ht⟩ := h
    obtain ⟨u, same, hu⟩ := hQ a b t ht
    exact ⟨b, u, by rw [same], hu⟩
  | .error _ _ => exact h

namespace Runs

variable {α β γ δ : Type} {act : Generate β} {m : Specialize α} {P Q : α → β → List Char → Prop}

theorem pure {a : α} {b : β} (h : Q a b []) : Runs (pure b) (pure a) Q := by
  intro s
  refine ⟨b, "", ?_, h⟩
  simp [Pure.pure, EStateM.pure]

theorem mono (h : Runs act m P) (hQ : ∀ a b cs, P a b cs → Q a b cs) : Runs act m Q := fun s =>
  (h s).imp fun a b t ht => ⟨t, rfl, hQ a b _ ht⟩

theorem bind {k : β → Generate δ} {n : α → Specialize γ} {R : γ → δ → List Char → Prop} (h : Runs act m P)
    (h' : ∀ a b cs, P a b cs → Runs (k b) (n a) fun c d ds => R c d (cs ++ ds)) :
    Runs (act >>= k) (m >>= n) R := by
  intro s
  have first := h s
  simp only [Bind.bind, EStateM.bind]
  match hm : m s.toState with
  | .ok a st =>
    rw [hm] at first
    obtain ⟨b, t, run, ht⟩ := first
    simp only [run]
    exact (h' a b t.toList ht ⟨st, s.out ++ t⟩).imp fun c d u hu =>
      ⟨t ++ u, by rw [String.append_assoc], by simpa using hu⟩
  | .error o st =>
    rw [hm] at first
    intro halt ho
    obtain ⟨out, run⟩ := first halt ho
    simp only [run]
    exact ⟨out, rfl⟩

/-- A step of the specialisation that has no counterpart in the run. -/
theorem map {f : α → γ} {R : γ → β → List Char → Prop} (h : Runs act m fun a b cs => R (f a) b cs) :
    Runs act (m >>= fun a => Pure.pure (f a)) R := by
  have := h.bind (k := Pure.pure) (n := fun a => Pure.pure (f a)) (R := R)
    fun a b cs hab => pure (by simpa using hab)
  rwa [bind_pure] at this

/-- Text comes first. -/
theorem text (t : String) (h : Runs act m fun a b cs => Q a b (t.toList ++ cs)) :
    Runs (append t >>= fun _ => act) m Q := by
  intro s
  have := h (s.wrote t)
  rw [GenerateState.wrote_toState] at this
  exact this.imp fun a b u hu => ⟨t ++ u, by simp [GenerateState.wrote, String.append_assoc], by simpa using hu⟩

/-- Text comes last. -/
theorem last (t : String) {R : α → Unit → List Char → Prop} (h : Runs act m fun a _ cs => R a () (cs ++ t.toList)) :
    Runs (act >>= fun _ => append t) m R := by
  have := h.bind (k := fun _ => append t) (n := Pure.pure) (R := R) fun a b cs hab => by
    intro s
    exact ⟨(), t, rfl, hab⟩
  rwa [bind_pure] at this

theorem interpret (x : Eval α) : Runs (interpret x) (evaluating x) fun a b cs => b = a ∧ cs = [] := by
  intro s
  simp only [Template.interpret, evaluating]
  cases x s.toState with
  | ok a st => exact ⟨a, "", by simp, rfl, rfl⟩
  | error f st =>
    cases f with
    | error e =>
      rintro _ ⟨⟩
      exact ⟨s.out, rfl⟩
    | outOfFuel =>
      rintro _ ⟨⟩
      exact ⟨s.out, rfl⟩

/-- The interpreter works first. -/
theorem after {x : Eval γ} {k : γ → Generate β} {n : γ → Specialize α} (h : ∀ c, Runs (k c) (n c) Q) :
    Runs (Template.interpret x >>= k) (evaluating x >>= n) Q := by
  refine (interpret x).bind ?_
  rintro _ c _ ⟨rfl, rfl⟩
  exact h c

/-- Nothing is said where the run goes on without a residual tree. -/
theorem obstacle {o : Obstacle} (h : o.halt? = none) : Runs act (throw o) Q := by
  intro s halt ho
  rw [h] at ho
  cases ho

/-- What writing a value comes to is told by its code. -/
theorem interpret_writtenOf (v : Value) (s : GenerateState) :
    (∀ code, codeOf s.toHeap (s.arrays.size + s.objects.size + 2) [] v = .ok code →
      Template.interpret (writtenOf v) s = .ok (code.getD "undefined") s) ∧
    ∀ fault, codeOf s.toHeap (s.arrays.size + s.objects.size + 2) [] v = .error fault →
      Template.interpret (writtenOf v) s = .error (.refused (.runtime (.type fault))) s := by
  simp only [Template.interpret, writtenOf, getHeap, Bind.bind, EStateM.bind, get, getThe, MonadStateOf.get,
    EStateM.get, Pure.pure, EStateM.pure, Template.written]
  cases codeOf s.toHeap (s.arrays.size + s.objects.size + 2) [] v with
  | ok code =>
    constructor
    · rintro _ ⟨⟩
      rfl
    · rintro _ ⟨⟩
  | error fault =>
    constructor
    · rintro _ ⟨⟩
    · rintro _ ⟨⟩
      rfl

/-- The written form of a value, beside its tree. -/
theorem written (v : Value) :
    Runs (Template.interpret (writtenOf v)) (valueTree v) fun e code cs =>
      Spelled v e code ∧ (∀ t, v ≠ .raw t) ∧ cs = [] := by
  intro s
  have agrees := agrees_treeOf s.toHeap (s.arrays.size + s.objects.size + 2) [] v
  obtain ⟨wrote, failed⟩ := interpret_writtenOf v s
  simp only [valueTree]
  cases ht : treeOf s.toHeap (s.arrays.size + s.objects.size + 2) [] v with
  | ok e =>
    rw [ht] at agrees
    obtain ⟨c, hc, spelled⟩ := agrees
    refine ⟨c.getD "undefined", "", by simp [wrote _ hc], ?_, ?_, rfl⟩
    · cases e with
      | none =>
        cases c with
        | none => exact Spelled.undefined
        | some _ => exact spelled.elim
      | some _ =>
        cases c with
        | none => exact spelled.elim
        | some _ => exact spelled
    · rintro t rfl
      simp [treeOf] at ht
  | error o =>
    rw [ht] at agrees
    intro halt ho
    obtain ⟨fault, rfl, fails⟩ := agrees halt ho
    exact ⟨s.out, failed _ fails⟩

end Runs

/-! ### Fragments -/

section Fragments

variable {ev : Evaluator} {env : Env}

/-- Running goes on after what ended normally. -/
def thenRun (next : Generate Flow) : Flow → Generate Flow
  | .normal => next
  | flow => return flow

theorem runFragments_append (fs gs : List Fragment) :
    runFragments ev env (fs ++ gs) = runFragments ev env fs >>= thenRun (runFragments ev env gs) := by
  induction fs with
  | nil => rfl
  | cons f fs ih =>
    rw [List.cons_append, runFragments, runFragments, bind_assoc]
    congr 1
    funext flow
    cases flow with
    | normal => exact ih
    | jump j label => rfl

theorem runFragments_textFragments (t : String) (fs : List Fragment) :
    runFragments ev env (textFragments t ++ fs) = append t >>= fun _ => runFragments ev env fs := by
  unfold textFragments
  split
  · rename_i empty
    funext s
    show _ = runFragments ev env fs (s.wrote t)
    simp [String.isEmpty_iff.1 empty]
  · rfl

/-- The fragments run to their end and append a text that `Q` relates to the tree. -/
def Prints {α : Type} (ev : Evaluator) (env : Env) (fs : List Fragment) (m : Specialize α)
    (Q : α → List Char → Prop) : Prop :=
  Runs (runFragments ev env fs) m fun a flow cs => flow = .normal ∧ Q a cs

end Fragments

/-! ### Parts -/

section Parts

variable {ev : Evaluator} {env : Env} {pl : Place} {start start' mid : Bool} {parts more : List Part}
  {fs : List Fragment}

theorem Emits.cons_inv {p : Part} (h : Emits pl start (p :: more) fs start') :
    ∃ fs₁ mid fs₂, Emits pl start [p] fs₁ mid ∧ Emits pl mid more fs₂ start' ∧ fs = fs₁ ++ fs₂ := by
  cases h with
  | text rest => exact ⟨_, _, _, by simpa using Emits.text .nil, rest, rfl⟩
  | pattern rest => exact ⟨_, _, _, by simpa using Emits.pattern .nil, rest, rfl⟩
  | keepExpr plan inner rest => exact ⟨_, _, _, by simpa using Emits.keepExpr plan inner .nil, rest, rfl⟩
  | inline plan rest => exact ⟨_, _, _, .inline plan .nil, rest, rfl⟩
  | call plan rest => exact ⟨_, _, _, .call plan .nil, rest, rfl⟩
  | keepStmt plan inner rest => exact ⟨_, _, _, by simpa using Emits.keepStmt plan inner .nil, rest, rfl⟩
  | branch plan inner rest => exact ⟨_, _, _, .branch plan inner .nil, rest, rfl⟩
  | branchElse plan inner other rest => exact ⟨_, _, _, .branchElse plan inner other .nil, rest, rfl⟩
  | unroll plan inner rest => exact ⟨_, _, _, .unroll plan inner .nil, rest, rfl⟩
  | jump plan rest => exact ⟨_, _, _, .jump plan .nil, rest, rfl⟩

theorem Emits.append_inv (h : Emits pl start (parts ++ more) fs start') :
    ∃ fs₁ mid fs₂, Emits pl start parts fs₁ mid ∧ Emits pl mid more fs₂ start' ∧ fs = fs₁ ++ fs₂ := by
  induction parts generalizing start fs with
  | nil => exact ⟨[], start, fs, .nil, h, rfl⟩
  | cons p parts ih =>
    obtain ⟨fs₁, mid, fs₂, first, rest, rfl⟩ := h.cons_inv
    obtain ⟨gs₁, mid', gs₂, second, third, rfl⟩ := ih rest
    exact ⟨fs₁ ++ gs₁, mid', gs₂, first.append second, third, by simp⟩

/-- Whatever is compiled from the parts prints what `m` makes of them. -/
def Renders {α : Type} (ev : Evaluator) (env : Env) (pl : Place) (start : Bool) (parts : List Part)
    (m : Specialize α) (Q : α → List Char → Prop) : Prop :=
  ∀ fs start', Emits pl start parts fs start' → Prints ev env fs m Q

namespace Renders

variable {α β : Type} {m : Specialize α} {P Q : α → List Char → Prop}

theorem mono (h : Renders ev env pl start parts m P) (hQ : ∀ a cs, P a cs → Q a cs) :
    Renders ev env pl start parts m Q := fun fs start' emits =>
  (h fs start' emits).mono fun a _ cs ⟨normal, hcs⟩ => ⟨normal, hQ a cs hcs⟩

theorem nil {a : α} (h : Q a []) : Renders ev env pl start [] (pure a) Q := by
  rintro _ _ ⟨⟩
  exact Runs.pure ⟨rfl, h⟩

theorem text {t : String}
    (h : Renders ev env pl (startAfter t start) more m fun a cs => Q a (t.toList ++ cs)) :
    Renders ev env pl start (.text t :: more) m Q := by
  intro fs start' emits
  cases emits with
  | text rest =>
    rw [Prints, runFragments_textFragments]
    exact .text t (h _ _ rest)

theorem pattern {p : Pattern}
    (h : Renders ev env pl (startAfter p.text start) more m fun a cs => Q a (p.text.toList ++ cs)) :
    Renders ev env pl start (.pattern p :: more) m Q := by
  intro fs start' emits
  cases emits with
  | pattern rest =>
    rw [Prints, runFragments_textFragments]
    exact .text p.text (h _ _ rest)

theorem append {n : α → Specialize β} {R : β → List Char → Prop} (h : Renders ev env pl start parts m P)
    (h' : ∀ a cs mid, P a cs → Renders ev env pl mid more (n a) fun b ds => R b (cs ++ ds)) :
    Renders ev env pl start (parts ++ more) (m >>= n) R := by
  intro fs start' emits
  obtain ⟨fs₁, mid, fs₂, first, second, rfl⟩ := emits.append_inv
  rw [Prints, runFragments_append]
  refine (h fs₁ mid first).bind ?_
  rintro a _ cs ⟨rfl, ha⟩
  exact h' a cs mid ha fs₂ start' second

theorem cons {p : Part} {n : α → Specialize β} {R : β → List Char → Prop}
    (h : Renders ev env pl start [p] m P)
    (h' : ∀ a cs mid, P a cs → Renders ev env pl mid more (n a) fun b ds => R b (cs ++ ds)) :
    Renders ev env pl start (p :: more) (m >>= n) R :=
  show Renders ev env pl start ([p] ++ more) (m >>= n) R from append h h'

/-- The last of several parts. -/
theorem map {f : α → β} {R : β → List Char → Prop} (h : Renders ev env pl start parts m fun a cs => R (f a) cs) :
    Renders ev env pl start parts (m >>= fun a => pure (f a)) R := fun fs start' emits =>
  Runs.map (f := f) (R := fun b (flow : Flow) cs => flow = Flow.normal ∧ R b cs) (h fs start' emits)

/-- Nothing is said where the run goes on without a residual tree. -/
theorem obstacle {o : Obstacle} (h : o.halt? = none) : Renders ev env pl start parts (throw o) Q := fun _ _ _ =>
  .obstacle h

end Renders

end Parts

end Staging.Template
