import Staging.Proofs.Script.Abreast
import Staging.Proofs.Template.Sequence
import Staging.Template.Generator

/-!
Builds that leave no traces.

A program is quiet when what it evaluates during generation is quiet and it has no calls. Running it leaves every
array, object, function and scope that was there as it was. It makes new ones, so the next run starts from a larger
heap; but for a context of grounded values the two runs go abreast and give the same text, or fail with the same error.

Main statement: `builds_repeatable`.
-/

namespace Staging.Template

mutual

/-- What the instruction evaluates is quiet, and it calls nothing. -/
def Instruction.isQuiet : Instruction → Bool
  | .literal _ | .jump _ _ => true
  | .inline e _ _ => e.isQuiet
  | .call _ => false
  | .if_ test yes no => test.isQuiet && Instruction.allQuiet yes && Instruction.elseQuiet no
  | .each _ _ _ source _ body => source.isQuiet && Instruction.allQuiet body
  | .block body => Instruction.allQuiet body

def Instruction.allQuiet : List Instruction → Bool
  | [] => true
  | i :: rest => i.isQuiet && Instruction.allQuiet rest

def Instruction.elseQuiet : Option (List Instruction) → Bool
  | none => true
  | some no => Instruction.allQuiet no

end

/-- Every expression in the program is quiet, and nothing is called. -/
def Program.isQuiet (p : Program) : Bool := Instruction.allQuiet p.instructions

end Staging.Template

namespace Staging.Script.Twin

open Template
open Twinned (twin Made)

variable {w : Twin}

/-! ### Written forms -/

theorem mapM_congr_of_mem {m : Type → Type} [Monad m] [LawfulMonad m] {α β : Type} {f g : α → m β} :
    ∀ {as : List α}, (∀ a ∈ as, f a = g a) → as.mapM f = as.mapM g
  | [], _ => by rw [List.mapM_nil, List.mapM_nil]
  | a :: as, same => by
    obtain ⟨first, others⟩ := List.forall_mem_cons.1 same
    rw [List.mapM_cons, List.mapM_cons, first, mapM_congr_of_mem others]

/-- The twin of a container. -/
def container (w : Twin) : Container → Container
  | .array ref => .array (w.arrayRef ref)
  | .object ref => .object (w.objectRef ref)

theorem container_injective : Function.Injective w.container := by
  intro b c same
  cases b <;> cases c <;> simp [container, arrayRef, objectRef] at same <;> rw [same]

theorem ofValue?_twin (v : Value) : Container.ofValue? (w.value v) = (Container.ofValue? v).map w.container := by
  cases v <;> rfl

section Written

variable {h h' : Heap} (m : w.Mirror h h')
include m

theorem contents_twin {v : Value} (built : w.Built h v) :
    Made w h (h.contents v) ∧ h'.contents (w.value v) = (h.contents v).map w.value := by
  cases v with
  | array ref =>
    obtain ⟨made, same⟩ := m.array_of_built built
    refine ⟨fun x holds => made x (Array.mem_toList_iff.1 holds), ?_⟩
    rw [value, Heap.contents, same, Array.toList_map, Heap.contents]
  | object ref =>
    obtain ⟨made, same⟩ := m.object_of_built built
    constructor
    · intro x holds
      obtain ⟨e, inside, rfl⟩ := List.mem_map.1 holds
      exact made e inside
    · rw [value, Heap.contents, same, twin_list, List.map_map, Heap.contents, List.map_map]
      rfl
  | _ => exact ⟨List.forall_mem_nil _, rfl⟩

theorem codeAround_twin {v : Value} {c : Container} (is : Container.ofValue? v = some c) (built : w.Built h v)
    (codes : List (Option String)) : codeAround h' (w.container c) codes = codeAround h c codes := by
  obtain rfl := Container.ofValue?_eq_some.1 is
  cases c with
  | array ref => rfl
  | object ref => simp only [container, codeAround, (m.object_of_built built).2, names_twin]

theorem codeOf_twin (n : Nat) : ∀ (path : List Container) {v : Value}, w.Built h v →
    codeOf h' n (path.map w.container) (w.value v) = codeOf h n path v := by
  induction n with
  | zero =>
    intro path v _
    cases v <;> rfl
  | succ n ih =>
    intro path v built
    cases is : Container.ofValue? v with
    | none =>
      cases v with
      | array ref | object ref => cases is
      | _ => rfl
    | some c =>
      have is' : Container.ofValue? (w.value v) = some (w.container c) := by rw [ofValue?_twin, is, Option.map_some]
      obtain ⟨made, contents⟩ := contents_twin m built
      have inside : (h'.contents (w.value v)).mapM (codeOf h' n (w.container c :: path.map w.container)) =
          (h.contents v).mapM (codeOf h n (c :: path)) := by
        rw [contents, List.mapM_map]
        exact mapM_congr_of_mem fun x holds => ih (c :: path) (made x holds)
      rw [codeOf_container is', codeOf_container is, inside]
      simp only [List.mem_map_of_injective container_injective, codeAround_twin m is built]

theorem written_twin {v : Value} (built : w.Built h v) : written h' (w.value v) = written h v := by
  have enough : h.arrays.size + h.objects.size < h'.arrays.size + h'.objects.size + 2 := by
    rw [m.arrays, m.objects]
    omega
  rw [codeOf_enough enough v, written, ← codeOf_twin m _ [] built, List.map_nil]

end Written

theorem writtenOf_agree {s s' : State} (both : w.Abreast s s') {v : Value} (built : w.Built s.toHeap v) :
    w.Agree s s' (writtenOf v) (writtenOf (w.value v)) := by
  refine .inspect ?_
  rw [written_twin both.heaps built]
  cases written s.toHeap v with
  | ok code => exact .pure both trivial rfl
  | error fault => exact .throw both _

/-! ### Instructions -/

instance : Running GenerateState := ⟨fun s => s.toHeap, GenerateState.out⟩

instance : Twinned Flow := Twinned.plain Flow

open Running (heap)

section Generating

variable {α : Type} [Twinned α] {s s' : GenerateState}

theorem Abreast.state (both : w.Abreast s s') : w.Abreast s.toState s'.toState := ⟨both.mirror, rfl⟩

theorem Agree.interpret (both : w.Abreast s s') {x x' : Eval α} (h : w.Agree s.toState s'.toState x x') :
    w.Agree s s' (interpret x) (interpret x') := by
  unfold Agree Template.interpret at *
  simp only
  generalize x s.toState = r, x' s'.toState = r' at h
  cases h with
  | ok after grows made => exact .ok ⟨after.mirror, both.text⟩ grows made
  | @error e _ _ after grows =>
    cases e with
    | error e => exact .error ⟨after.mirror, both.text⟩ grows
    | outOfFuel => exact .error ⟨after.mirror, both.text⟩ grows

theorem append_agree (both : w.Abreast s s') (text : String) : w.Agree s s' (append text) (append text) := by
  have same : s'.out ++ text = s.out ++ text := congrArg (· ++ text) both.text
  have wrote : w.Abreast (s.wrote text) (s'.wrote text) := ⟨both.mirror, same⟩
  exact .ok wrote (.refl _) (trivial : Made w (heap s) ())

theorem needsParens_value (v : Value) (code : String) (min : Precedence) (atStart : Bool) :
    needsParens (w.value v) code min atStart = needsParens v code min atStart := by
  cases v <;> rfl

theorem writeDeclaration_agree (both : w.Abreast s s') {scope : Env} (made : Made w s.toHeap scope) (name : String) :
    w.Agree s s' (writeDeclaration scope name) (writeDeclaration (w.env scope) name) := by
  refine .bind (.interpret both (getVar_agree both.state made name)) fun v _ _ both _ built => ?_
  refine .bind (.interpret both (writtenOf_agree both.state built)) fun code _ _ both _ _ => ?_
  exact append_agree both _

/-- Rounds in new scopes end alike when what is done in them does. -/
theorem runRound_agree (both : w.Abreast s s') {env : Env} (scope : Made w s.toHeap env) (pattern : Pattern)
    (declare : List String) {body : Env → Generate Flow}
    (inner : ∀ {t t' : GenerateState} {env : Env}, w.Abreast t t' → Made w t.toHeap env →
      w.Agree t t' (body env) (body (w.env env)))
    {item : Value} (built : w.Built s.toHeap item) :
    w.Agree s s' (runRound env pattern declare body item)
      (runRound (w.env env) pattern declare body (w.value item)) := by
  refine .bind (.interpret both (newScope_agree both.state scope)) fun round _ _ both grows scope => ?_
  have built := grows.built built
  have bound := bindPattern_agree false pattern item both.state scope built
  refine .bind (.interpret both bound) fun _ _ _ both grows _ => ?_
  have scope := grows.scope scope
  refine .bind (append_agree both _) fun _ _ _ both grows _ => ?_
  have scope := grows.scope scope
  refine .bind (α := Unit) (.forM declare both fun name _ _ _ both grows => ?_) fun _ _ _ both grows _ => ?_
  · exact writeDeclaration_agree both (grows.scope scope) name
  refine .bind (inner both (grows.scope scope)) fun flow _ _ both _ _ => ?_
  exact .bind (append_agree both _) fun _ _ _ both _ _ => .pure both trivial rfl

theorem runRounds_agree (label : Option String) {round round' : Value → Generate Flow} :
    ∀ {items : List Value} {s s' : GenerateState}, w.Abreast s s' →
    (∀ {t t' : GenerateState} {item : Value}, w.Abreast t t' → s.toHeap.Grows t.toHeap → w.Built t.toHeap item →
      w.Agree t t' (round item) (round' (w.value item))) → Made w s.toHeap items →
    w.Agree s s' (runRounds label round items) (runRounds label round' (items.map w.value))
  | [], _, _, both, _, _ => .pure both trivial rfl
  | item :: rest, s, s', both, each, made => by
    obtain ⟨first, others⟩ := List.forall_mem_cons.1 made
    have further {t t' : GenerateState} (both : w.Abreast t t') (grows : s.toHeap.Grows t.toHeap) :
        w.Agree t t' (runRounds label round rest) (runRounds label round' (rest.map w.value)) := by
      refine runRounds_agree label both (fun both later built => ?_) fun v inside => ?_
      · exact each both (grows.trans later) built
      · exact grows.built (others v inside)
    refine .bind (each both (.refl _) first) fun flow _ _ both grows _ => ?_
    cases flow with
    | normal => exact further both grows
    | jump j target =>
      simp only [twin]
      split
      · cases j with
        | continue_ => exact further both grows
        | break_ => exact .pure both trivial rfl
      · exact .pure both trivial rfl

end Generating

section Programs

variable {ev : Evaluator}

mutual

/-- Quiet instructions write the same text, and end alike. -/
theorem runStep_agree (inner : w.Follows ev) : ∀ (i : Instruction) {s s' : GenerateState} {env : Env},
    i.isQuiet = true → w.Abreast s s' → Made w s.toHeap env →
    w.Agree s s' (runStep ev i env) (runStep ev i (w.env env))
  | .literal text, _, _, _, _, both, _ => by
    unfold runStep
    exact .bind (append_agree both text) fun _ _ _ both _ _ => .pure both trivial rfl
  | .inline e min atStart, _, _, _, quiet, both, scope => by
    rw [Instruction.isQuiet] at quiet
    unfold runStep
    refine .bind (.interpret both (inner e quiet both.state scope)) fun v _ _ both _ built => ?_
    refine .bind (.interpret both (writtenOf_agree both.state built)) fun code _ _ both _ _ => ?_
    simp only [twin_value, needsParens_value]
    exact .bind (append_agree both _) fun _ _ _ both _ _ => .pure both trivial rfl
  | .call e, _, _, _, quiet, _, _ => by
    cases quiet
  | .if_ test yes no, _, _, _, quiet, both, scope => by
    simp only [Instruction.isQuiet, Bool.and_eq_true] at quiet
    unfold runStep
    refine .bind (.interpret both (inner test quiet.1.1 both.state scope)) fun v _ _ both grows _ => ?_
    have scope := grows.scope scope
    simp only [twin_value, truthy_value]
    split
    · refine .bind (.interpret both (newScope_agree both.state scope)) fun env _ _ both _ scope => ?_
      exact runAll_agree inner yes quiet.1.2 both scope
    · exact runElse_agree inner no quiet.2 both scope
  | .each label kind pattern source declare body, _, _, env, quiet, both, scope => by
    rw [Instruction.isQuiet, Bool.and_eq_true] at quiet
    unfold runStep
    refine .bind (.interpret both (inner source quiet.1 both.state scope)) fun collection _ _ both grows built => ?_
    have scope := grows.scope scope
    refine .bind (.interpret both (iterate_agree both.state kind built)) fun items _ _ both grows made => ?_
    have scope := grows.scope scope
    refine runRounds_agree label both (fun both grows built => ?_) made
    refine runRound_agree both (grows.scope scope) pattern declare (fun both scope => ?_) built
    exact runAll_agree inner body quiet.2 both scope
  | .block body, _, _, _, quiet, both, scope => by
    rw [Instruction.isQuiet] at quiet
    unfold runStep
    refine .bind (append_agree both _) fun _ _ _ both grows _ => ?_
    refine .bind (runAll_agree inner body quiet both (grows.scope scope)) fun flow _ _ both _ _ => ?_
    exact .bind (append_agree both _) fun _ _ _ both _ _ => .pure both trivial rfl
  | .jump j label, _, _, _, _, both, _ => by
    unfold runStep
    exact .pure both trivial rfl

theorem runAll_agree (inner : w.Follows ev) : ∀ (code : List Instruction) {s s' : GenerateState} {env : Env},
    Instruction.allQuiet code = true → w.Abreast s s' → Made w s.toHeap env →
    w.Agree s s' (runAll ev code env) (runAll ev code (w.env env))
  | [], _, _, _, _, both, _ => by
    unfold runAll
    exact .pure both trivial rfl
  | i :: rest, _, _, _, quiet, both, scope => by
    rw [Instruction.allQuiet, Bool.and_eq_true] at quiet
    unfold runAll
    refine .bind (runStep_agree inner i quiet.1 both scope) fun flow _ _ both grows _ => ?_
    cases flow with
    | normal => exact runAll_agree inner rest quiet.2 both (grows.scope scope)
    | jump j label => exact .pure both trivial rfl

theorem runElse_agree (inner : w.Follows ev) : ∀ (no : Option (List Instruction)) {s s' : GenerateState} {env : Env},
    Instruction.elseQuiet no = true → w.Abreast s s' → Made w s.toHeap env →
    w.Agree s s' (runElse ev no env) (runElse ev no (w.env env))
  | none, _, _, _, _, both, _ => by
    unfold runElse
    exact .pure both trivial rfl
  | some no, _, _, _, quiet, both, scope => by
    rw [Instruction.elseQuiet] at quiet
    unfold runElse
    refine .bind (.interpret both (newScope_agree both.state scope)) fun env _ _ both _ scope => ?_
    exact runAll_agree inner no quiet both scope

end

theorem declareParams_agree {context : Context} (known : ∀ e ∈ context, w.base.Grounded e.2) (params : List String)
    {s s' : GenerateState} (both : w.Abreast s s') {env : Env} (scope : Made w s.toHeap env) :
    w.Agree s s' (declareParams context env params) (declareParams context (w.env env) params) := by
  refine .forM params both fun name _ _ _ both grows => ?_
  cases found : context.get? name with
  | none => exact .throw both _
  | some v =>
    have grounded := known (name, v) (Record.mem_of_get? found)
    have declared := declareVar_agree both.state (grows.scope scope) name (.old grounded) false
    rw [value_of_has grounded.has] at declared
    exact .interpret both declared

theorem runMain_agree (inner : w.Follows ev) {p : Program} (quiet : p.isQuiet = true) {context : Context}
    (known : ∀ e ∈ context, w.base.Grounded e.2) {s s' : GenerateState} (both : w.Abreast s s') :
    w.Agree s s' (runMain ev p context) (runMain ev p context) := by
  refine .bind (.interpret both (freshGlobals_agree both.state)) fun globals _ _ both _ scope => ?_
  refine .bind (.interpret both (newScope_agree both.state scope)) fun env _ _ both _ scope => ?_
  refine .bind (α := Unit) (declareParams_agree known p.params both scope) fun _ _ _ both grows _ => ?_
  refine .bind (runAll_agree inner p.instructions quiet both (grows.scope scope)) fun flow _ _ both _ _ => ?_
  exact .pure both trivial rfl

end Programs

end Staging.Script.Twin

namespace Staging.Template

open Script Relation

/-! ### Builds -/

/-- What a computation gives, whatever state it ends in. -/
def resultOf {ε σ α : Type} : EStateM.Result ε σ α → Except ε α
  | .ok a _ => .ok a
  | .error e _ => .error e

/-- **A run from a larger heap is like a run from the heap**, and in both the heap is still there. -/
theorem execute_of_isPartOf (host : Host) (fuel : Nat) {p : Program} (quiet : p.isQuiet = true) {context : Context}
    {s s' : State} (known : ∀ e ∈ context, s.Grounded e.2) (part : s.IsPartOf s'.toHeap) :
    resultOf (execute host fuel p context s') = resultOf (execute host fuel p context s) ∧
      s.IsPartOf (endOf (execute host fuel p context s)).toHeap := by
  let w := Twin.between s.toHeap s'.toHeap
  have start : w.Abreast (σ := GenerateState) { toState := { s with depth := 0 }, out := "" }
      { toState := { s' with depth := 0 }, out := "" } := ⟨Twin.mirror_between part, rfl⟩
  have ends := Twin.runMain_agree (Twin.evaluator_abreast host fuel) quiet known start
  rw [execute_eq, execute_eq]
  unfold Twin.Agree at ends
  revert ends
  generalize runMain _ p context _ = r, runMain _ p context _ = r'
  intro ends
  cases ends with
  | ok both _ _ => exact ⟨congrArg (fun text => Except.ok (Except.ok text)) both.text, both.mirror.part⟩
  | @error e _ _ both _ => cases e <;> exact ⟨rfl, both.mirror.part⟩

/-- The values are in the heap with all that they reach, and they reach no cycle. They may share what they hold. -/
def AcyclicIn (h : Heap) (context : Context) : Prop :=
  ∀ e ∈ context, ¬ h.Circular e.2 ∧ ∀ v, ReflTransGen h.Holds e.2 v → h.Has v

theorem acyclicIn_iff {h : Heap} {context : Context} : AcyclicIn h context ↔ ∀ e ∈ context, h.Grounded e.2 :=
  forall₂_congr fun _ _ => Heap.grounded_iff.symm

/-- A generator, and the values it is to be built with. -/
structure Job where
  generator : Generator
  context : Context

namespace Job

/-- The program of the generator is quiet, if it has one. -/
def IsQuiet (job : Job) : Prop := ∀ p, job.generator.program = .ok p → p.isQuiet = true

def build (host : Host) (fuel : Nat) (job : Job) : Eval (Except StagingError String) :=
  job.generator.build host fuel job.context

/-- The results of builds one after the other, each from the state that the one before it left. -/
def resultsInTurn (host : Host) (fuel : Nat) : List Job → State → List (Except Fault (Except StagingError String))
  | [], _ => []
  | job :: rest, s => resultOf (job.build host fuel s) :: resultsInTurn host fuel rest (endOf (job.build host fuel s))

variable (host : Host) (fuel : Nat) {job : Job} {s s' : State}

/-- A build does not change what is there, and what came before it does not change its result. -/
theorem build_of_isPartOf (quiet : job.IsQuiet) (known : ∀ e ∈ job.context, s.Grounded e.2)
    (part : s.IsPartOf s'.toHeap) : resultOf (job.build host fuel s') = resultOf (job.build host fuel s) ∧
      s.IsPartOf (endOf (job.build host fuel s)).toHeap := by
  unfold build Generator.build
  cases compiled : job.generator.program with
  | error e => exact ⟨rfl, .refl _⟩
  | ok p => exact execute_of_isPartOf host fuel (quiet p compiled) known part

theorem resultsInTurn_eq : ∀ {jobs : List Job} {s' : State},
    (∀ job ∈ jobs, job.IsQuiet ∧ ∀ e ∈ job.context, s.Grounded e.2) → s.IsPartOf s'.toHeap →
    resultsInTurn host fuel jobs s' = jobs.map fun job => resultOf (job.build host fuel s)
  | [], _, _, _ => rfl
  | job :: rest, s', each, part => by
    obtain ⟨⟨quiet, known⟩, others⟩ := List.forall_mem_cons.1 each
    have result := (build_of_isPartOf host fuel quiet known part).1
    have known' : ∀ e ∈ job.context, s'.Grounded e.2 := fun e inside => part.grows.grounded (known e inside)
    have left := (build_of_isPartOf host fuel quiet known' (.refl _)).2
    rw [resultsInTurn, List.map_cons, result, resultsInTurn_eq others (part.trans left)]

end Job

/--
**Building a quiet program leaves the context as it is and can be repeated.** However the run ends, all that was there
is unchanged. Builds in any number and order give the same results as each of them alone, whatever they share.
-/
theorem builds_repeatable (host : Host) (fuel : Nat) (s : State) :
    (∀ (p : Program) (context : Context), p.isQuiet = true → AcyclicIn s.toHeap context →
      s.IsPartOf (endOf (execute host fuel p context s)).toHeap) ∧
    ∀ jobs : List Job, (∀ job ∈ jobs, job.IsQuiet ∧ AcyclicIn s.toHeap job.context) →
      Job.resultsInTurn host fuel jobs s = jobs.map fun job => resultOf (job.build host fuel s) := by
  constructor
  · intro p context quiet acyclic
    exact (execute_of_isPartOf host fuel quiet (acyclicIn_iff.1 acyclic) (.refl _)).2
  · intro jobs each
    apply Job.resultsInTurn_eq host fuel _ (.refl _)
    intro job inside
    exact ⟨(each job inside).1, acyclicIn_iff.1 (each job inside).2⟩

/-- Writes out what stands under a name in each item. -/
def againProgram : Program :=
  ⟨["$xs"], [.each none .of (.name "$x") (.ident ⟨0, 0⟩ "$xs") []
    [.inline (.member ⟨0, 0⟩ (.ident ⟨0, 0⟩ "$x") (.named "again") false) .lowest false]]⟩

/-- Writes out a new array that has a value twice. -/
def twiceProgram : Program :=
  ⟨["$y"], [.inline (.array ⟨0, 0⟩ [.ident ⟨0, 0⟩ "$y", .ident ⟨0, 0⟩ "$y"]) .lowest false]⟩

def againJob : Job := ⟨⟨[], ⟨["$xs"], ["$xs"], [], false⟩, some againProgram⟩, [("$xs", .array 0)]⟩

def twiceJob : Job := ⟨⟨[], ⟨["$y"], ["$y"], [], false⟩, some twiceProgram⟩, [("$y", .object 0)]⟩

def sharingState : State := { toHeap := sharing }

/-- Three builds with two values, one of which holds the other. -/
theorem builds_repeatable_sharing :
    sharingState.IsPartOf (endOf (execute Host.none 10 againProgram againJob.context sharingState)).toHeap ∧
    (Job.resultsInTurn Host.none 10 [againJob, twiceJob, againJob] sharingState).map (·.toOption.bind (·.toOption)) =
      [some "\x7bundefined\x7d\x7b[null]\x7d\x7bundefined\x7d",
        some "[\x7b\"again\":[null]\x7d,\x7b\"again\":[null]\x7d]",
        some "\x7bundefined\x7d\x7b[null]\x7d\x7bundefined\x7d"] := by
  have null : sharing.Grounded .null := .intro trivial nofun
  have inner : sharing.Grounded (.array 1) :=
    .intro Nat.one_lt_two (by simpa [sharing, Heap.contents, Heap.array] using null)
  have object : sharing.Grounded (.object 0) :=
    .intro Nat.one_pos (by simpa [sharing, Heap.contents, Heap.object] using inner)
  have outer : sharing.Grounded (.array 0) :=
    .intro Nat.two_pos (by simpa [sharing, Heap.contents, Heap.array] using ⟨inner, object, inner⟩)
  have again : AcyclicIn sharing againJob.context := acyclicIn_iff.2 (List.forall_mem_singleton.2 outer)
  have twice : AcyclicIn sharing twiceJob.context := acyclicIn_iff.2 (List.forall_mem_singleton.2 object)
  have quiet : againJob.IsQuiet ∧ twiceJob.IsQuiet := by
    constructor
    · rintro _ ⟨⟩
      rfl
    · rintro _ ⟨⟩
      rfl
  obtain ⟨unchanged, same⟩ := builds_repeatable Host.none 10 sharingState
  constructor
  · exact unchanged againProgram againJob.context rfl again
  · rw [same [againJob, twiceJob, againJob] (by simpa using ⟨⟨quiet.1, again⟩, ⟨quiet.2, twice⟩, quiet.1, again⟩)]
    decide +kernel

end Staging.Template
