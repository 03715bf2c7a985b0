import Staging.Proofs.Script.Scope
import Staging.Proofs.Template.Fragments
import Staging.Proofs.Template.References

/-!
Code without staged names passes through unchanged.

Where no identifier, no pattern and no label is a staged name, nothing is planned to happen during
generation, so the walk appends the printed text and nothing else (`passes_of_plain`). What a run adds in
front are the declarations of the staged parameters that are not inlined.
-/

namespace Staging.Template

open Script

/-! ### Plain parts -/

/-- No staged name stands in the parts. -/
def Plain (parts : List Part) : Prop := ∀ p ∈ parts, ∀ n ∈ mentionedIn p, isStageName n = false

theorem Plain.of_mem {parts : List Part} (h : Plain parts) {p : Part} (hp : p ∈ parts) : Plain [p] := by
  intro q hq
  obtain rfl := List.mem_singleton.1 hq
  exact h q hp

theorem Plain.name {p : Part} (h : Plain [p]) {n : String} (hn : n ∈ mentionedIn p) :
    isStageName n = false :=
  h p (List.mem_singleton_self p) n hn

theorem Plain.layout {e : Expr} {min : Precedence} (h : Plain [.expr e min]) : Plain (e.layout min) :=
  fun _ hp _ hn => h.name (mem_gather_of_layout hp hn)

theorem Plain.stmtLayout {s : Stmt} (h : Plain [.stmt s]) : Plain s.layout :=
  fun _ hp _ hn => h.name (mem_gather_of_stmt hp hn)

theorem Plain.label {s : Stmt} (h : Plain [.stmt s]) {l : String} (hl : s.label? = some l) :
    isStageName l = false :=
  h.name (by simp [mentionedIn, gather_stmt, hl])

/-- A plain expression is nothing to evaluate during generation. -/
theorem isDecidable_of_plain {e : Expr} {min : Precedence} (h : Plain [.expr e min]) (r : Registry) :
    isDecidable r e = false := by
  unfold isDecidable
  split
  · rfl
  · rename_i names nonempty
    obtain ⟨n, hn⟩ := List.exists_mem_of_ne_nil _ nonempty
    have inside : n ∈ namesIn (.expr e .lowest) := by
      simpa [references, Names.ofList] using (List.mem_filter.1 hn).1
    have mentioned : n ∈ mentionedIn (.expr e min) := by
      have := mem_mentionedIn_of_namesIn inside
      rwa [mentionedIn, gather_expr] at this ⊢
    exact List.all_eq_false.2 ⟨n, hn, by simp [h.name mentioned]⟩

/-- A plain chain of accesses does not start from a name whose value is written. -/
theorem hasInlinedRoot_of_plain {e : Expr} {min : Precedence} (h : Plain [.expr e min]) (r : Registry) :
    hasInlinedRoot r e = false := by
  unfold hasInlinedRoot
  split
  · rename_i name root
    simp [h.name (mem_mentionedIn_root root)]
  · rfl

theorem Plain.callee {span : Span} {callee : Expr} {args : List Expr} {optional : Bool} {min : Precedence}
    (h : Plain [.expr (.call span callee args optional) min]) : Plain [.expr callee .call] := by
  intro p hp n hn
  obtain rfl := List.mem_singleton.1 hp
  exact h.name (mem_gather_of_inner (p := .expr callee .call) (by simp [Expr.inner]) hn)

/-- A plain expression stays. -/
theorem planExpr_of_plain {e : Expr} {min : Precedence} (h : Plain [.expr e min]) (r : Registry) :
    planExpr r e min = .keep (e.layout min) := by
  have undecided := isDecidable_of_plain h r
  unfold planExpr
  split
  · rename_i span name
    have : isStageName name = false := h.name (by simp [mentionedIn, gather_expr, Expr.name?])
    simp [this]
  · simp [hasInlinedRoot_of_plain h r]
  · rename_i span inner name args optional
    have : isStageName name = false := h.callee.name (by simp [mentionedIn, gather_expr, Expr.name?])
    simp [this, undecided]
  · simp [undecided, hasInlinedRoot_of_plain h.callee r]
  · simp [undecided]
  · rfl

/-- A plain statement stays, outside of unrolled loops. -/
theorem plan_of_plain {s : Stmt} (h : Plain [.stmt s]) {pl : Place} (outside : pl.stagedLoops = []) :
    pl.plan s = .keep := by
  have undecided : ∀ (e : Expr) (min : Precedence), .expr e min ∈ s.layout →
      isDecidable pl.registry e = false := fun _ _ he =>
    isDecidable_of_plain (h.stmtLayout.of_mem he) pl.registry
  cases s with
  | if_ span test yes no =>
    have : isDecidable pl.registry test = false :=
      undecided test .lowest (by cases no <;> simp [Stmt.layout])
    simp [Place.plan, planStmt, planIf, Place.toState, this]
  | forEach span kind decl pattern source body =>
    have : isDecidable pl.registry source = false :=
      undecided source .assignment (by simp [Stmt.layout])
    simp [Place.plan, planStmt, Place.toState, this]
  | labeled span label body =>
    have : isStageName label = false := h.label rfl
    simp [Place.plan, planStmt, planLabeled, this]
  | break_ span label | continue_ span label =>
    cases label with
    | none => simp [Place.plan, planStmt, planJump, Place.toState, outside]
    | some l =>
      have : isStageName l = false := h.label rfl
      simp [Place.plan, planStmt, planJump, this]
  | _ => rfl

/-! ### What is appended -/

/-- Outside of unrolled loops the walk appends the text of the parts and nothing else. -/
def Passes (parts : List Part) : Prop :=
  ∀ (pl : Place) (start : Bool), pl.stagedLoops = [] →
    ∃ ts start', Emits pl start parts (ts.map .text) start' ∧ String.join ts = render parts

theorem Passes.of_forall {parts : List Part} (h : ∀ p ∈ parts, Passes [p]) : Passes parts := by
  induction parts with
  | nil => exact fun pl start _ => ⟨[], start, .nil, rfl⟩
  | cons p rest ih =>
    intro pl start outside
    obtain ⟨ts, mid, hts, text⟩ := h p (by simp) pl start outside
    obtain ⟨ts', start', hts', text'⟩ := ih (fun q hq => h q (by simp [hq])) pl mid outside
    refine ⟨ts ++ ts', start', ?_, ?_⟩
    · simpa using hts.append hts'
    · rw [String.join_append, text, text']
      simp

theorem textFragments_eq (t : String) :
    ∃ ts : List String, textFragments t = ts.map .text ∧ String.join ts = t := by
  unfold textFragments
  split
  · rename_i empty
    exact ⟨[], rfl, (String.isEmpty_iff.1 empty).symm⟩
  · exact ⟨[t], rfl, by simp⟩

/-- Plain parts pass through. -/
theorem passes_of_plain {parts : List Part} (h : Plain parts) : Passes parts := by
  suffices single : ∀ n, ∀ p : Part, p.weight = n → Plain [p] → Passes [p] from
    .of_forall fun p hp => single _ p rfl (h.of_mem hp)
  intro n
  induction n using Nat.strongRecOn with
  | ind n ih =>
    have below : ∀ {parts : List Part}, (∀ p ∈ parts, p.weight < n) → Plain parts → Passes parts :=
      fun small plain => .of_forall fun p hp => ih _ (small p hp) p rfl (plain.of_mem hp)
    rintro (t | q | ⟨e, min⟩ | s) rfl plain pl start outside
    · obtain ⟨ts, fragments, text⟩ := textFragments_eq t
      refine ⟨ts, startAfter t start, ?_, by simpa using text⟩
      simpa [fragments] using Emits.text (t := t) .nil
    · obtain ⟨ts, fragments, text⟩ := textFragments_eq q.text
      refine ⟨ts, startAfter q.text start, ?_, by simpa using text⟩
      simpa [fragments] using Emits.pattern (p := q) .nil
    · obtain ⟨ts, start', hts, text⟩ :=
        below (fun p hp => weight_of_mem_layout hp) plain.layout pl.aside start outside
      refine ⟨ts, start', ?_, by simpa [Part.render_expr] using text⟩
      simpa using Emits.keepExpr (planExpr_of_plain plain pl.registry) hts .nil
    · obtain ⟨ts, start', hts, text⟩ :=
        below (fun p hp => weight_of_mem_stmt hp) plain.stmtLayout (pl.inside s) (isExprStmt s || start) outside
      refine ⟨ts, start', ?_, by simpa [Part.render_stmt] using text⟩
      simpa using Emits.keepStmt (plan_of_plain plain outside) hts .nil

theorem coalesce_texts (pending : String) (ts : List String) :
    Buffer.coalesce pending (ts.map .text) = Buffer.flush (pending ++ String.join ts) [] := by
  induction ts generalizing pending with
  | nil => simp [Buffer.coalesce]
  | cons t rest ih => simp [Buffer.coalesce, ih, String.append_assoc]

/-- The program of a plain body: the declarations, and the printed text. -/
theorem compile_of_plain {body : List Stmt} (h : Plain (body.map .stmt)) (r : Registry) :
    ∃ ts, compile r body
        = .ok ⟨r.staged, codeOfFragments (r.declared.flatMap declarationFragments ++ ts.map .text)⟩
      ∧ String.join ts = programText body := by
  obtain ⟨ts, start, hts, text⟩ := passes_of_plain h (.top r) false rfl
  refine ⟨ts, compile_ok_iff.2 ⟨_, start, hts, rfl⟩, ?_⟩
  rw [text, render, List.map_map]
  rfl

/-! ### What a run adds -/

/-- The declarations of names in front of the generated code, with the written forms of their values. -/
def preambleText (h : Heap) (context : Context) : List String → Except StagingError String
  | [] => .ok ""
  | n :: rest =>
    match written h ((context.get? n).getD .undefined) with
    | .ok code => (preambleText h context rest).map (("const " ++ n ++ " = " ++ code ++ ";") ++ ·)
    | .error fault => .error (.runtime (.type fault))

section Run

variable (host : Host) (fuel : Nat) {env : Env}

theorem getVar_eq {st : State} {n : String} {v : Value} (bound : st.lookup? env n = some v) :
    getVar env n st = .ok v st := by
  simp only [getVar, getHeap, bind, EStateM.bind, get, getThe, MonadStateOf.get, EStateM.get, pure,
    EStateM.pure, bound]

theorem writtenOf_eq (v : Value) (st : State) :
    writtenOf v st = match written st.toHeap v with
      | .ok code => .ok code st
      | .error fault => .error (.error (.type fault)) st := by
  simp only [writtenOf, getHeap, bind, EStateM.bind, get, getThe, MonadStateOf.get, EStateM.get, pure,
    EStateM.pure]
  cases written st.toHeap v <;> rfl

/-- A value is never put in parentheses where the place asks for nothing. -/
theorem needsParens_lowest (v : Value) (code : String) : needsParens v code .lowest false = false := by
  have call : ¬ Precedence.call ≤ .lowest := by decide
  have unary : ¬ Precedence.unary ≤ .lowest := by decide
  cases v <;> simp [needsParens, needsParens.looksOdd, call, unary]

/-- Writing the value of a variable. -/
theorem runStep_inline_ident (span : Span) {s : GenerateState} {n : String} {v : Value}
    (bound : s.lookup? env n = some v) :
    runStep (evaluator host (fuel + 1)) (.inline (.ident span n) .lowest false) env s =
      match written s.toHeap v with
      | .ok code => .ok .normal (s.wrote code)
      | .error fault => .error (.refused (.runtime (.type fault))) s := by
  have value : interpret ((evaluator host (fuel + 1)).expr env (.ident span n)) s = .ok v s := by
    have : evalExpr host (fuel + 1) env (.ident span n) s.toState = .ok v s.toState := getVar_eq bound
    simp only [interpret, evaluator, this]
  have code : interpret (writtenOf v) s = match written s.toHeap v with
      | .ok code => .ok code s
      | .error fault => .error (.refused (.runtime (.type fault))) s := by
    simp only [interpret, writtenOf_eq]
    cases written s.toHeap v <;> rfl
  simp only [runStep, bind, EStateM.bind, value, code]
  cases written s.toHeap v with
  | ok code =>
    simp only [needsParens_lowest, parenthesize]
    rfl
  | error fault => rfl

/-- The declarations of names that stand for their values in the context. -/
theorem runFragments_preamble {context : Context} {names : List String} (rest : List Fragment)
    {s : GenerateState} (bound : ∀ n ∈ names, s.lookup? env n = some ((context.get? n).getD .undefined)) :
    (∀ text, preambleText s.toHeap context names = .ok text →
      runFragments (evaluator host (fuel + 1)) env (names.flatMap declarationFragments ++ rest) s
        = runFragments (evaluator host (fuel + 1)) env rest (s.wrote text))
    ∧ ∀ e, preambleText s.toHeap context names = .error e →
      ∃ out, runFragments (evaluator host (fuel + 1)) env (names.flatMap declarationFragments ++ rest) s
        = .error (.refused e) { s with out } := by
  induction names generalizing s with
  | nil => simp [preambleText]
  | cons n more ih =>
    have first : (s.wrote ("const " ++ n ++ " = ")).lookup? env n = some ((context.get? n).getD .undefined) :=
      bound n (by simp)
    have step := runStep_inline_ident host fuel ⟨0, 0⟩ first
    simp only [List.flatMap_cons, declarationFragments, List.cons_append, List.nil_append, runFragments_text]
    simp only [preambleText]
    cases hw : written s.toHeap ((context.get? n).getD .undefined) with
    | error fault =>
      have fails : written (s.wrote ("const " ++ n ++ " = ")).toHeap ((context.get? n).getD .undefined)
          = .error fault := hw
      rw [fails] at step
      refine ⟨nofun, ?_⟩
      rintro _ ⟨⟩
      exact ⟨_, runFragments_error _ step⟩
    | ok code =>
      have writes : written (s.wrote ("const " ++ n ++ " = ")).toHeap ((context.get? n).getD .undefined)
          = .ok code := hw
      rw [writes] at step
      rw [runFragments_code _ step, runFragments_text]
      simp only [GenerateState.wrote_wrote]
      have later := ih (s := s.wrote ("const " ++ n ++ " = " ++ code ++ ";")) fun m hm => bound m (by simp [hm])
      cases hmore : preambleText s.toHeap context more with
      | ok text =>
        refine ⟨?_, nofun⟩
        rintro _ ⟨⟩
        rw [later.1 text hmore]
        simp
      | error e =>
        refine ⟨nofun, ?_⟩
        rintro _ ⟨⟩
        exact later.2 e hmore

/-- A state with another heap. -/
def GenerateState.withHeap (s : GenerateState) (h : Heap) : GenerateState := ⟨⟨h, s.depth⟩, s.out⟩

/-- Declaring parameters that all have a value. -/
theorem declareParams_eq {context : Context} {index : Nat} {outer : Env} (fresh : index ∉ outer)
    {names : List String} (bound : ∀ n ∈ names, (context.get? n).isSome) {s : GenerateState}
    (hi : index < s.frames.size) :
    ∃ h : Heap, declareParams context (index :: outer) names s = .ok () (s.withHeap h)
      ∧ s.toHeap.Extends h
      ∧ ∀ n, h.lookup? (index :: outer) n
        = if n ∈ names then context.get? n else s.lookup? (index :: outer) n := by
  induction names generalizing s with
  | nil => exact ⟨s.toHeap, rfl, .of_eq rfl rfl, by simp⟩
  | cons n rest ih =>
    obtain ⟨v, hv⟩ := Option.isSome_iff_exists.1 (bound n (by simp))
    obtain ⟨h, run, ext, look⟩ := ih (fun m hm => bound m (by simp [hm]))
      (s := s.withHeap (s.declare (index :: outer) n v false)) (by simpa [GenerateState.withHeap] using hi)
    have ran : declareParams context (index :: outer) (n :: rest) s = .ok () (s.withHeap h) := by
      refine bind_eq_ok.2 ⟨(), s.withHeap (s.declare (index :: outer) n v false), ?_, run⟩
      simp only [hv]
      rfl
    refine ⟨h, ran, (s.toHeap.extends_declare (index :: outer) n v false).trans ext, fun m => ?_⟩
    rw [look]
    by_cases hm : m ∈ rest
    · simp [hm]
    · by_cases hn : m = n
      · subst hn
        simp [hm, hv, GenerateState.withHeap, Heap.lookup?_declare_self hi]
      · simp [hm, hn, GenerateState.withHeap, Heap.lookup?_declare_of_ne hi fresh hn]

theorem interpret_onHeap {α : Type} (f : Heap → α × Heap) (s : GenerateState) :
    interpret (onHeap f) s = .ok (f s.toHeap).1 (s.withHeap (f s.toHeap).2) := rfl

/-- A run comes to the instructions with the values of the parameters at hand. -/
theorem runMain_eq {p : Program} {context : Context} (bound : ∀ n ∈ p.params, (context.get? n).isSome)
    (s : GenerateState) :
    ∃ env h, s.toHeap.Extends h ∧ (∀ n ∈ p.params, h.lookup? env n = context.get? n)
      ∧ ∀ ev, runMain ev p context s = (runAll ev p.instructions env >>= fun _ => pure ()) (s.withHeap h) := by
  have fresh : s.globals.2.frames.size ∉ s.globals.1 := by
    have : s.globals.1 = [s.frames.size] := rfl
    simp [this]
  obtain ⟨h, declared, ext, look⟩ := declareParams_eq fresh bound
    (s := s.withHeap (s.globals.2.child s.globals.1).2) (by simp [GenerateState.withHeap, Heap.child])
  refine ⟨s.globals.2.frames.size :: s.globals.1, h, ?_, fun n hn => by rw [look, if_pos hn], fun ev => ?_⟩
  · exact s.toHeap.extends_globals.trans ((s.globals.2.extends_child s.globals.1).trans ext)
  · have scope : (s.globals.2.child s.globals.1).1 = s.globals.2.frames.size :: s.globals.1 := rfl
    simp only [runMain, bind, EStateM.bind, freshGlobals, newScope, interpret_onHeap]
    simp only [GenerateState.withHeap, scope] at declared ⊢
    rw [declared]

end Run

/--
Code without staged names passes through unchanged. Its template compiles, and a run gives the
declarations of the staged parameters that are not inlined, in the order of the parameters, followed by
the printed code, unless the value of a declaration cannot be written. Without staged parameters the
program is one text, or nothing.
-/
theorem plain_passes_through {params : List Param} {options : Options} {r : Registry} {body : List Stmt}
    (registry : Registry.ofParams params options = .ok r)
    (plain : ∀ s ∈ body, ∀ n ∈ mentionedIn (.stmt s), isStageName n = false) :
    ∃ p, compile r body = .ok p
      ∧ (r.staged = [] → p.instructions = [] ∨ ∃ text, p.instructions = [.literal text])
      ∧ (∃ names, Registry.paramNames params = .ok names
        ∧ r.declared = (Names.ofList (names.filter isStageName)).filter (· ∉ r.inlined))
      ∧ ∀ (host : Host) (fuel : Nat) (context : Context) (s : State),
        (∀ n ∈ r.staged, (context.get? n).isSome) →
        ∃ s', s.toHeap.Extends s'.toHeap ∧ s'.depth = s.depth
          ∧ execute host (fuel + 1) p context s
            = .ok ((preambleText s'.toHeap context r.declared).map (· ++ programText body)) s' := by
  obtain ⟨ts, compiles, text⟩ := compile_of_plain
    (show Plain (body.map .stmt) by simpa [Plain] using plain) r
  refine ⟨_, compiles, fun none => ?_, ?_, fun host fuel context s bound => ?_⟩
  · simp only [Registry.declared, none, List.filter_nil, List.flatMap_nil, List.nil_append,
      codeOfFragments, coalesce_texts, Buffer.flush]
    split
    · exact .inl rfl
    · exact .inr ⟨_, rfl⟩
  · obtain ⟨_, names, given, staged⟩ := Registry.ofParams_ok registry
    exact ⟨names, given, by rw [Registry.declared, staged]⟩
  · obtain ⟨env, h, ext, look, run⟩ := runMain_eq
      (p := ⟨r.staged, codeOfFragments (r.declared.flatMap declarationFragments ++ ts.map .text)⟩) bound
      { toState := { s with depth := 0 }, out := "" }
    have values : ∀ n ∈ r.declared, h.lookup? env n = some ((context.get? n).getD .undefined) := by
      intro n hn
      have staged : n ∈ r.staged := (List.mem_filter.1 hn).1
      obtain ⟨v, hv⟩ := Option.isSome_iff_exists.1 (bound n staged)
      rw [look n staged, hv, Option.getD_some]
    obtain ⟨writes, fails⟩ := runFragments_preamble host fuel (ts.map .text)
      (s := ⟨⟨h, 0⟩, ""⟩) values
    refine ⟨⟨h, s.depth⟩, ext, rfl, ?_⟩
    simp only [execute, run, bind, EStateM.bind, runAll_codeOfFragments, GenerateState.withHeap]
    cases hp : preambleText h context r.declared with
    | ok pre =>
      rw [writes pre hp, runFragments_texts]
      simp [GenerateState.wrote, text, pure, EStateM.pure, Except.map]
    | error e =>
      obtain ⟨out, halts⟩ := fails e hp
      rw [halts]
      rfl

/-- A loop of the generated code: `for (const x of xs) break;`. -/
def plainLoop : Stmt :=
  .forEach ⟨0, 0⟩ .of (some .const) (.name "x") (.ident ⟨0, 0⟩ "xs") (.break_ ⟨0, 0⟩ none)

/-- The loop stands behind the declaration of the parameter `$a`. -/
theorem plain_passes_through_loop :
    Registry.ofParams [⟨⟨0, 0⟩, .name "$a", none, false⟩] {} = .ok ⟨["$a"], [], [], false⟩
      ∧ (∀ s ∈ [plainLoop], ∀ n ∈ mentionedIn (.stmt s), isStageName n = false)
      ∧ ∃ p, compile ⟨["$a"], [], [], false⟩ [plainLoop] = .ok p ∧ ∀ host, ∃ s',
        execute host 1 p [("$a", .bool true)] {} = .ok (.ok "const $a = true;for (const x of xs) break;") s' := by
  have registry : Registry.ofParams [⟨⟨0, 0⟩, .name "$a", none, false⟩] {} = .ok ⟨["$a"], [], [], false⟩ := by
    cbv
  have names : mentionedIn (.stmt plainLoop) = ["x", "xs"] := by cbv
  have plain : ∀ s ∈ [plainLoop], ∀ n ∈ mentionedIn (.stmt s), isStageName n = false := by
    simp only [List.forall_mem_singleton, names]
    exact List.forall_mem_cons.2 ⟨by cbv, List.forall_mem_singleton.2 (by cbv)⟩
  have text : programText [plainLoop] = "for (const x of xs) break;" := by cbv
  obtain ⟨p, compiles, -, -, runs⟩ := plain_passes_through registry plain
  refine ⟨registry, plain, p, compiles, fun host => ?_⟩
  obtain ⟨s', -, -, run⟩ := runs host 0 [("$a", .bool true)] {} (List.forall_mem_singleton.2 rfl)
  have pre : preambleText s'.toHeap [("$a", .bool true)] ["$a"] = .ok "const $a = true;" := by
    simp [preambleText, written, codeOf, Record.get?, Except.map]
  refine ⟨s', run.trans ?_⟩
  rw [show Registry.declared ⟨["$a"], [], [], false⟩ = ["$a"] from rfl, pre, text]
  rfl

end Staging.Template
