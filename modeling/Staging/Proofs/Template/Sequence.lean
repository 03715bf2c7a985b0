import Staging.Proofs.Template.Independence
import Staging.Proofs.Template.Prints
import Staging.Proofs.Template.Scopes
import Staging.Proofs.Template.StagedJumps

/-!
Templates in sequence.

The program of two lists of statements is the program of the first list, followed by the code of the second one
(`joinCode`: where texts meet, they become one). A run of it is a run of the first program, which goes on with this code
in the scope and in the state that it left: no jump of a compiled program leaves it (`runAll_normal`), and what a run
appends does not depend on the text before it (`framed_runAll`).

Main statement: `compile_append`.
-/

namespace Staging.Template

open Script

/-! ### Code in sequence -/

/-- A text in front of code. -/
def joinText (t : String) : List Instruction → List Instruction
  | .literal u :: code => .literal (t ++ u) :: code
  | code => .literal t :: code

/-- Code in sequence; where texts meet, they become one. -/
def joinCode : List Instruction → List Instruction → List Instruction
  | [], more => more
  | [.literal t], more => joinText t more
  | i :: code, more => i :: joinCode code more

example (e : Expr) : joinCode [.call e, .literal "a;"] [.literal "b;", .call e] = [.call e, .literal "a;b;", .call e] :=
  rfl

/-- Texts are fragments of their own, no code. -/
def Fragment.IsProper : Fragment → Prop
  | .code (.literal _) => False
  | _ => True

theorem joinText_joinText (t u : String) (code : List Instruction) :
    joinText t (joinText u code) = joinText (t ++ u) code := by
  cases code with
  | nil => rfl
  | cons i code => cases i <;> simp [joinText, String.append_assoc]

theorem joinText_of_proper (t : String) {i : Instruction} (proper : (Fragment.code i).IsProper)
    (code : List Instruction) : joinText t (i :: code) = .literal t :: i :: code := by
  cases i <;> first | exact absurd proper id | rfl

theorem joinCode_nil (code : List Instruction) : joinCode code [] = code := by
  induction code with
  | nil => rfl
  | cons i code ih =>
    cases code with
    | nil => cases i <;> rfl
    | cons j code => cases i <;> exact congrArg (_ :: ·) ih

theorem joinCode_cons {i : Instruction} (proper : (Fragment.code i).IsProper) (code more : List Instruction) :
    joinCode (i :: code) more = i :: joinCode code more := by
  cases i <;> first | exact absurd proper id | rfl

theorem joinCode_flush (t : String) (more : List Instruction) :
    joinCode (Buffer.flush t []) more = if t.isEmpty then more else joinText t more := by
  unfold Buffer.flush
  split <;> rfl

/-- A text that is not yet written out is a text in front. -/
theorem coalesce_eq {fs : List Fragment} (proper : ∀ f ∈ fs, f.IsProper) (pending : String) :
    Buffer.coalesce pending fs = joinCode (Buffer.flush pending []) (codeOfFragments fs) := by
  unfold codeOfFragments
  induction fs generalizing pending with
  | nil => exact (joinCode_nil _).symm
  | cons f fs ih =>
    have ih := ih fun g inside => proper g (by simp [inside])
    cases f with
    | text t =>
      simp only [Buffer.coalesce, String.empty_append]
      rw [ih, ih t]
      simp only [joinCode_flush, String.isEmpty_iff, String.append_eq_empty_iff]
      by_cases none : pending = ""
      · simp [none]
      · by_cases none' : t = ""
        · simp [none, none']
        · simp [none, none', joinText_joinText]
    | code i =>
      have first := proper (.code i) (by simp)
      simp only [Buffer.coalesce, joinCode_flush]
      unfold Buffer.flush
      split
      · rfl
      · exact (joinText_of_proper _ first _).symm

theorem coalesce_append {fs gs : List Fragment} (proper : ∀ f ∈ fs ++ gs, f.IsProper) (pending : String) :
    Buffer.coalesce pending (fs ++ gs) = joinCode (Buffer.coalesce pending fs) (codeOfFragments gs) := by
  induction fs generalizing pending with
  | nil => exact coalesce_eq (fun f inside => proper f (by simpa using inside)) pending
  | cons f fs ih =>
    have ih := ih fun g inside => proper g (List.mem_cons_of_mem _ inside)
    cases f with
    | text t => exact ih (pending ++ t)
    | code i =>
      have first := proper (.code i) (by simp)
      rw [List.cons_append, Buffer.coalesce, Buffer.coalesce, ih ""]
      unfold Buffer.flush
      split
      · exact (joinCode_cons first _ _).symm
      · rw [joinCode, joinCode_cons first]
        simp

/-- **The instructions of fragments in sequence are those of the first ones followed by those of the others.** -/
theorem codeOfFragments_append {fs gs : List Fragment} (proper : ∀ f ∈ fs ++ gs, f.IsProper) :
    codeOfFragments (fs ++ gs) = joinCode (codeOfFragments fs) (codeOfFragments gs) :=
  coalesce_append proper ""

theorem isProper_textFragments (t : String) : ∀ f ∈ textFragments t, f.IsProper := by
  intro f inside
  unfold textFragments at inside
  split at inside
  · simp at inside
  · obtain rfl := List.mem_singleton.1 inside
    trivial

/-- What is compiled is proper. -/
theorem Emits.isProper {pl : Place} {start start' : Bool} {parts : List Part} {fs : List Fragment}
    (h : Emits pl start parts fs start') : ∀ f ∈ fs, f.IsProper := by
  have wrap {pl : Place} {i : Instruction} (first : (Fragment.code i).IsProper) :
      (Fragment.code (pl.wrap i)).IsProper := by
    unfold Place.wrap
    split
    · trivial
    · exact first
  induction h with
  | nil => simp
  | text _ ih | pattern _ ih => exact List.forall_mem_append.2 ⟨isProper_textFragments _, ih⟩
  | keepExpr _ _ _ inner ih | keepStmt _ _ _ inner ih => exact List.forall_mem_append.2 ⟨inner, ih⟩
  | inline _ _ ih | call _ _ ih | jump _ _ ih => exact List.forall_mem_cons.2 ⟨trivial, ih⟩
  | branch _ _ _ _ ih | branchElse _ _ _ _ _ _ ih | unroll _ _ _ _ ih =>
    exact List.forall_mem_cons.2 ⟨wrap trivial, ih⟩

theorem isProper_declarations (names : List String) : ∀ f ∈ names.flatMap declarationFragments, f.IsProper := by
  intro f inside
  obtain ⟨name, -, inside⟩ := List.mem_flatMap.1 inside
  simp only [declarationFragments, List.mem_cons, List.not_mem_nil, or_false] at inside
  rcases inside with rfl | rfl | rfl <;> trivial

/-! ### The text before -/

/-- The state with a text before its own. -/
def GenerateState.after (s : GenerateState) (out : String) : GenerateState := { s with out := out ++ s.out }

/-- The end of a run, with a text before its own. -/
def afterText {α : Type} (out : String) : EStateM.Result Halt GenerateState α → EStateM.Result Halt GenerateState α
  | .ok a t => .ok a (t.after out)
  | .error h t => .error h (t.after out)

/-- The computation goes on in the same way, whatever text is before. -/
def Framed {α : Type} (act : Generate α) : Prop :=
  ∀ (out : String) (s : GenerateState), act (s.after out) = afterText out (act s)

namespace Framed

variable {α β : Type}

theorem pure (a : α) : Framed (pure a) := fun _ _ => rfl

theorem throw (h : Halt) : Framed (throw h : Generate α) := fun _ _ => rfl

theorem bind {x : Generate α} {f : α → Generate β} (hx : Framed x) (hf : ∀ a, Framed (f a)) : Framed (x >>= f) := by
  intro out s
  simp only [Bind.bind, EStateM.bind, hx out s]
  cases x s with
  | ok a t => exact hf a out t
  | error h t => rfl

theorem append (text : String) : Framed (append text) := by
  intro out s
  simp [append_eq, afterText, GenerateState.after, GenerateState.wrote, String.append_assoc]

theorem interpret (act : Eval α) : Framed (interpret act) := by
  intro out s
  simp only [Template.interpret, GenerateState.after]
  cases act s.toState with
  | ok _ _ => rfl
  | error f _ => cases f <;> rfl

theorem forM {f : β → Generate Unit} (h : ∀ x, Framed (f x)) : ∀ xs : List β, Framed (xs.forM f)
  | [] => pure ()
  | x :: xs => bind (f := fun _ => xs.forM f) (h x) fun _ => forM h xs

theorem checkCallable (env : Env) (e : Expr) : Framed (checkCallable env e) := by
  unfold Template.checkCallable
  split
  · refine bind (interpret _) fun v => ?_
    split
    · exact pure ()
    · exact throw _
  · exact pure ()

theorem writeDeclaration (scope : Env) (name : String) : Framed (writeDeclaration scope name) :=
  bind (interpret _) fun _ => bind (interpret _) fun _ => append _

theorem runRound (env : Env) (pattern : Pattern) (declare : List String) {body : Env → Generate Flow}
    (h : ∀ scope, Framed (body scope)) (item : Value) : Framed (runRound env pattern declare body item) := by
  refine bind (interpret _) fun scope => bind (interpret _) fun _ => bind (append _) fun _ => ?_
  refine bind (forM (writeDeclaration scope) declare) fun _ => bind (h scope) fun flow => ?_
  exact bind (append _) fun _ => pure flow

theorem runRounds (label : Option String) {round : Value → Generate Flow} (h : ∀ item, Framed (round item)) :
    ∀ items : List Value, Framed (runRounds label round items)
  | [] => pure _
  | item :: rest => by
    refine bind (h item) fun flow => ?_
    cases flow with
    | normal => exact runRounds label h rest
    | jump j target =>
      simp only
      split
      · cases j with
        | continue_ => exact runRounds label h rest
        | break_ => exact pure _
      · exact pure _

end Framed

section

variable (ev : Evaluator)

mutual

theorem framed_runStep : ∀ (i : Instruction) (env : Env), Framed (runStep ev i env)
  | .literal text, _ => by
    unfold runStep
    exact .bind (.append text) fun _ => .pure _
  | .inline e min atStart, env => by
    unfold runStep
    exact .bind (.interpret _) fun _ => .bind (.interpret _) fun _ => .bind (.append _) fun _ => .pure _
  | .call e, env => by
    unfold runStep
    refine .bind (.checkCallable env e) fun _ => .bind (.interpret _) fun _ => ?_
    exact .bind (.interpret _) fun _ => .bind (.append _) fun _ => .pure _
  | .if_ test yes no, env => by
    unfold runStep
    refine .bind (.interpret _) fun v => ?_
    split
    · exact .bind (.interpret _) fun scope => framed_runAll yes scope
    · exact framed_runElse no env
  | .each label kind pattern source declare body, env => by
    unfold runStep
    refine .bind (.interpret _) fun _ => .bind (.interpret _) fun items => ?_
    exact .runRounds label (.runRound env pattern declare fun scope => framed_runAll body scope) items
  | .block body, env => by
    unfold runStep
    refine .bind (.append _) fun _ => .bind (framed_runAll body env) fun flow => ?_
    exact .bind (.append _) fun _ => .pure flow
  | .jump _ _, _ => by
    unfold runStep
    exact .pure _

/-- **What a run appends does not depend on the text before it.** -/
theorem framed_runAll : ∀ (code : List Instruction) (env : Env), Framed (runAll ev code env)
  | [], _ => by
    unfold runAll
    exact .pure _
  | i :: rest, env => by
    unfold runAll
    refine .bind (framed_runStep i env) fun flow => ?_
    split
    · exact framed_runAll rest env
    · exact .pure _

theorem framed_runElse : ∀ (no : Option (List Instruction)) (env : Env), Framed (runElse ev no env)
  | none, _ => by
    unfold runElse
    exact .pure _
  | some no, env => by
    unfold runElse
    exact .bind (.interpret _) fun scope => framed_runAll no scope

end

/-- A run from a state is a run without a text before, with the text of the state put in front. -/
theorem runAll_eq_after (code : List Instruction) (env : Env) (s : GenerateState) :
    runAll ev code env s = afterText s.out (runAll ev code env { s with out := "" }) := by
  have framed := framed_runAll ev code env s.out { s with out := "" }
  simpa [GenerateState.after] using framed

/-- Code of fragments in sequence runs in sequence. -/
theorem runAll_fragments_append (fs gs : List Fragment) (env : Env) :
    runAll ev (codeOfFragments (fs ++ gs)) env =
      runAll ev (codeOfFragments fs) env >>= thenRun (runAll ev (codeOfFragments gs) env) := by
  have fragments (fs : List Fragment) : runAll ev (codeOfFragments fs) env = runFragments ev env fs :=
    funext (runAll_codeOfFragments fs)
  rw [fragments, fragments, fragments, runFragments_append]

end

/-- A run of a compiled program ends with no jump. -/
theorem runAll_normal {r : Registry} {body : List Stmt} {p : Program} (compiled : compile r body = .ok p)
    {ev : Evaluator} {env : Env} {flow : Flow} {s t : GenerateState}
    (run : runAll ev p.instructions env s = .ok flow t) : flow = .normal := by
  cases flow with
  | normal => rfl
  | jump j l =>
    obtain ⟨around, occurs, free⟩ := runAll_jump p.instructions run
    obtain ⟨loop, inside, label⟩ := loop_of_jump compiled occurs
    exact absurd label (free loop inside)

/-! ### Compiling in sequence -/

section

variable {r : Registry} {body : List Stmt}

/-- The instructions of a body alone, without the declarations in front of it. -/
def bodyCode (r : Registry) (body : List Stmt) : Except StagingError (List Instruction) :=
  match emitBody body { registry := r } with
  | .ok _ s => .ok s.buffer.finish
  | .error e _ => .error e

theorem bodyCode_of_emits {fs : List Fragment} {start : Bool} (emits : Emits (.top r) false (body.map .stmt) fs start) :
    bodyCode r body = .ok (codeOfFragments fs) := by
  simp only [bodyCode, emitBody_eq, emits.emitAll { registry := r } rfl rfl]
  simp [CompileState.appended, Buffer.finish, codeOfFragments]

/-- Compiling a template fails where compiling its statements does; the declarations in front are always compiled. -/
theorem compile_error_iff {e : StagingError} :
    compile r body = .error e ↔ ∃ t, emitAll (body.map .stmt) { registry := r } = .error e t := by
  have template : emitTemplate r.declared body { registry := r } = emitAll (body.map .stmt)
      (CompileState.appended { registry := r } (r.declared.flatMap declarationFragments) false) := by
    rw [emitTemplate, bind_of_ok (emitPreamble_eq _ _ rfl), emitBody_eq]
  rw [← (emitAll_alike (body.map .stmt) (CompileState.appended { registry := r } _ false) { registry := r }
    rfl).error_iff e, ← template]
  unfold compile
  cases emitTemplate r.declared body { registry := r } <;> simp

theorem exists_compile_iff :
    (∃ p, compile r body = .ok p) ↔ ∃ t, emitAll (body.map .stmt) { registry := r } = .ok () t := by
  constructor
  · rintro ⟨p, compiled⟩
    obtain ⟨fs, start, emits, -⟩ := compile_ok_iff.1 compiled
    exact ⟨_, emits.emitAll { registry := r } rfl rfl⟩
  · rintro ⟨t, run⟩
    obtain ⟨fs, start, emits, -⟩ := emitAll_ok_iff.1 run
    exact ⟨_, compile_ok_iff.2 ⟨fs, start, emits, rfl⟩⟩

theorem emitAll_append (parts more : List Part) :
    emitAll (parts ++ more) = emitAll parts >>= fun _ => emitAll more := by
  induction parts with
  | nil => rfl
  | cons p parts ih => rw [List.cons_append, emitAll_cons, ih, emitAll_cons, bind_assoc]

/-- Compiling two lists fails as the first one does, or, where this is compiled, as the second one does. -/
theorem compile_append_error {b₁ b₂ : List Stmt} {e : StagingError} :
    compile r (b₁ ++ b₂) = .error e ↔
      compile r b₁ = .error e ∨ (∃ p₁, compile r b₁ = .ok p₁) ∧ compile r b₂ = .error e := by
  have second {t : CompileState} (first : emitAll (b₁.map .stmt) { registry := r } = .ok () t) :
      (∃ u, emitAll (b₂.map .stmt) t = .error e u) ↔ ∃ u, emitAll (b₂.map .stmt) { registry := r } = .error e u := by
    obtain ⟨fs, start, -, rfl⟩ := emitAll_ok_iff.1 first
    exact (emitAll_alike _ (CompileState.appended { registry := r } fs start) { registry := r } rfl).error_iff e
  rw [compile_error_iff, compile_error_iff, compile_error_iff, exists_compile_iff, List.map_append, emitAll_append]
  constructor
  · rintro ⟨u, fails⟩
    rcases bind_eq_error.1 fails with first | ⟨_, t, first, fails⟩
    · exact .inl ⟨u, first⟩
    · exact .inr ⟨⟨t, first⟩, (second first).1 ⟨u, fails⟩⟩
  · rintro (⟨u, first⟩ | ⟨⟨t, first⟩, fails⟩)
    · exact ⟨u, bind_eq_error.2 (.inl first)⟩
    · obtain ⟨u, fails⟩ := (second first).2 fails
      exact ⟨u, bind_eq_error.2 (.inr ⟨(), t, first, fails⟩)⟩

end

/-! ### Running in sequence -/

/-- A run of the program opens the scope and leaves the state in it. -/
def Leaves (ev : Evaluator) (p : Program) (context : Context) (s : GenerateState) (env : Env) (t : GenerateState) :
    Prop :=
  ∃ globals u, opening context p.params s = .ok (globals, env) u ∧ runAll ev p.instructions env u = .ok .normal t

/-- A run of the program `p` is a run of the program `p₁` that goes on with more code. -/
structure GoesOn (host : Host) (fuel : Nat) (context : Context) (s : State) (p₁ : Program) (code : List Instruction)
    (p : Program) : Prop where
  /-- Where the first program gives no text, the run ends as that of the first program does. -/
  ends : (∀ text s', execute host fuel p₁ context s ≠ .ok (.ok text) s') →
    execute host fuel p context s = execute host fuel p₁ context s
  /-- Where it gives a text, the code is run in the scope and the state it left, and the text is in front. -/
  goesOn : ∀ text s', execute host fuel p₁ context s = .ok (.ok text) s' → ∃ env t,
    Leaves (evaluator host fuel) p₁ context { toState := { s with depth := 0 }, out := "" } env t ∧ t.out = text ∧
      match runAll (evaluator host fuel) code env { t with out := "" } with
      | .ok _ u => execute host fuel p context s = .ok (.ok (text ++ u.out)) { u.toState with depth := s.depth }
      | .error (.refused e) u => execute host fuel p context s = .ok (.error e) { u.toState with depth := s.depth }
      | .error .outOfFuel u => execute host fuel p context s = .error .outOfFuel { u.toState with depth := s.depth }

/-- What a run of a program gives. -/
def outcome (depth : Nat) : EStateM.Result Halt GenerateState Unit →
    EStateM.Result Fault State (Except StagingError String)
  | .ok _ s => .ok (.ok s.out) { s.toState with depth }
  | .error (.refused e) s => .ok (.error e) { s.toState with depth }
  | .error .outOfFuel s => .error .outOfFuel { s.toState with depth }

theorem execute_eq (host : Host) (fuel : Nat) (p : Program) (context : Context) (s : State) :
    execute host fuel p context s = outcome s.depth
      (runMain (evaluator host fuel) p context { toState := { s with depth := 0 }, out := "" }) := by
  unfold execute outcome
  split <;> simp_all

section

variable {r : Registry} {b₁ : List Stmt} {p₁ p : Program} (compiled : compile r b₁ = .ok p₁) {fs gs : List Fragment}
  (first : p₁.instructions = codeOfFragments fs) (params : p.params = p₁.params)
  (both : p.instructions = codeOfFragments (fs ++ gs)) {ev : Evaluator} {context : Context} {s t : GenerateState}
include first params both

/-- A failing run of the first program is one of both. -/
theorem runMain_error {h : Halt} (run : runMain ev p₁ context s = .error h t) :
    runMain ev p context s = .error h t := by
  rw [runMain_eq_opening] at run ⊢
  rw [params, both]
  rcases bind_eq_error.1 run with opens | ⟨scopes, u, opens, run⟩
  · exact bind_eq_error.2 (.inl opens)
  · refine bind_eq_error.2 (.inr ⟨scopes, u, opens, ?_⟩)
    rcases bind_eq_error.1 run with fails | ⟨_, _, _, run⟩
    · rw [runAll_fragments_append, ← first]
      exact bind_eq_error.2 (.inl (bind_eq_error.2 (.inl fails)))
    · cases run

include compiled

/-- Where a run of the first program ends, the run of both goes on with the code of the second one. -/
theorem runMain_ok (run : runMain ev p₁ context s = .ok () t) : ∃ env, Leaves ev p₁ context s env t ∧
    runMain ev p context s = (runAll ev (codeOfFragments gs) env >>= fun _ => pure ()) t := by
  rw [runMain_eq_opening] at run ⊢
  rw [params, both]
  obtain ⟨⟨globals, env⟩, u, opens, run⟩ := bind_eq_ok.1 run
  obtain ⟨flow, t', ran, done⟩ := bind_eq_ok.1 run
  obtain ⟨-, rfl⟩ := pure_eq_ok.1 done
  obtain rfl := runAll_normal compiled ran
  refine ⟨env, ⟨globals, u, opens, ran⟩, ?_⟩
  rw [bind_of_ok opens, runAll_fragments_append, ← first, bind_assoc, bind_of_ok ran]
  rfl

end

/-- A run of both programs goes on from a run of the first one. -/
theorem goesOn_of_fragments {r : Registry} {b₁ : List Stmt} {p₁ p : Program} (compiled : compile r b₁ = .ok p₁)
    {fs gs : List Fragment} (first : p₁.instructions = codeOfFragments fs) (params : p.params = p₁.params)
    (both : p.instructions = codeOfFragments (fs ++ gs)) (host : Host) (fuel : Nat) (context : Context) (s : State) :
    GoesOn host fuel context s p₁ (codeOfFragments gs) p := by
  constructor
  · intro noText
    rw [execute_eq, execute_eq]
    cases run : runMain (evaluator host fuel) p₁ context { toState := { s with depth := 0 }, out := "" } with
    | error h t => rw [runMain_error first params both run]
    | ok _ t => exact absurd ((execute_eq ..).trans (congrArg _ run)) (noText _ _)
  · intro text s' gives
    rw [execute_eq] at gives
    cases run : runMain (evaluator host fuel) p₁ context { toState := { s with depth := 0 }, out := "" } with
    | error h t =>
      rw [run] at gives
      cases h <;> cases gives
    | ok _ t =>
      rw [run] at gives
      cases gives
      obtain ⟨env, leaves, goes⟩ := runMain_ok compiled first params both run
      refine ⟨env, t, leaves, rfl, ?_⟩
      rw [execute_eq, goes]
      simp only [bind, EStateM.bind, runAll_eq_after _ _ _ t]
      cases runAll (evaluator host fuel) (codeOfFragments gs) env { t with out := "" } with
      | ok flow u => rfl
      | error h u => cases h <;> rfl

/--
**Compiling goes along the list of statements.** Compiling two lists fails as compiling the first one does, or, where
that succeeds, as compiling the second one does. Otherwise the program is the one of the first list followed by the code
of the second, which is its program without the declarations, those of the empty list. Whatever the context is, a run of
the program goes on from a run of the first one.
-/
theorem compile_append (r : Registry) (b₁ b₂ : List Stmt) :
    (∀ e, compile r (b₁ ++ b₂) = .error e ↔
      compile r b₁ = .error e ∨ (∃ p₁, compile r b₁ = .ok p₁) ∧ compile r b₂ = .error e) ∧
    ∀ p, compile r (b₁ ++ b₂) = .ok p → ∃ p₀ p₁ p₂ code,
      compile r [] = .ok p₀ ∧ compile r b₁ = .ok p₁ ∧ compile r b₂ = .ok p₂ ∧ bodyCode r b₂ = .ok code ∧
      p₂.instructions = joinCode p₀.instructions code ∧
      p.params = p₁.params ∧ p.instructions = joinCode p₁.instructions code ∧
      ∀ host fuel context s, GoesOn host fuel context s p₁ code p := by
  refine ⟨fun e => compile_append_error, fun p compiled => ?_⟩
  obtain ⟨fs, start, emits, rfl⟩ := compile_ok_iff.1 compiled
  rw [List.map_append] at emits
  obtain ⟨fs₁, mid, fs₂, emits₁, emits₂, rfl⟩ := emits.append_inv
  obtain ⟨last, emits₂⟩ := emits₂.anywhere (by simp) false
  have compiled₁ := compile_ok_iff.2 ⟨fs₁, mid, emits₁, rfl⟩
  have compiled₂ := compile_ok_iff.2 ⟨fs₂, last, emits₂, rfl⟩
  have declarations := isProper_declarations r.declared
  refine ⟨_, _, _, _, compile_ok_iff.2 ⟨[], false, .nil, rfl⟩, compiled₁, compiled₂, bodyCode_of_emits emits₂, ?_, rfl,
    ?_, fun host fuel context s => ?_⟩
  · simp only [List.append_nil]
    exact codeOfFragments_append (List.forall_mem_append.2 ⟨declarations, emits₂.isProper⟩)
  · rw [← List.append_assoc]
    refine codeOfFragments_append (List.forall_mem_append.2 ⟨?_, emits₂.isProper⟩)
    exact List.forall_mem_append.2 ⟨declarations, emits₁.isProper⟩
  · have both : codeOfFragments (r.declared.flatMap declarationFragments ++ (fs₁ ++ fs₂)) =
        codeOfFragments (r.declared.flatMap declarationFragments ++ fs₁ ++ fs₂) := by
      rw [List.append_assoc]
    apply goesOn_of_fragments compiled₁ rfl
    · rfl
    · exact both

end Staging.Template
