import Mathlib
import Staging.Proofs.Outcome
import Staging.Proofs.Template.Registry
import Staging.Template.Compile

/-!
What compiling appends, as a relation.

`emit` is a walk in a state that it changes and changes back. What counts of the state is a `Place`: the
staged names, the loops and labels around, and whether the next statement is the single body of a kept
one. `Emits` says which fragments the walk appends for a list of parts in a place, one rule for each thing
that can become of a part, and whether the text is then at a start.

Main statement: `emitAll_ok_iff`. Compiling parts succeeds exactly when `Emits` holds of some fragments;
these are then at the end of the buffer, and the place is the one before. What holds of every compiled
program is proved by induction on `Emits`.
-/

namespace Staging.Template

/-! ### Places -/

/-- Where a walk is: the state of a compilation without what it has produced. -/
structure Place where
  registry : Registry
  labels : List (String × Nat) := []
  plainDepth : Nat := 0
  plainLoops : Nat := 0
  stagedLoops : List Nat := []
  inBody : Bool := false

def CompileState.place (s : CompileState) : Place :=
  ⟨s.registry, s.labels, s.plainDepth, s.plainLoops, s.stagedLoops, s.inBody⟩

namespace Place

/-- The state in which a walk begins in a place. -/
def toState (pl : Place) : CompileState :=
  ⟨pl.registry, #[], pl.labels, pl.plainDepth, pl.plainLoops, pl.stagedLoops, pl.inBody, false⟩

/-- What becomes of a statement. -/
def plan (pl : Place) (s : Stmt) : StmtPlan := planStmt pl.toState s

/-- Inside an expression or a staged construct: no statement is a single body. -/
def aside (pl : Place) : Place := { pl with inBody := false }

/-- Inside a kept statement. -/
def inside (pl : Place) (s : Stmt) : Place :=
  { pl with
    plainDepth := pl.plainDepth + 1
    plainLoops := pl.plainLoops + if isLoop s then 1 else 0
    inBody := hasBody s }

/-- Inside an unrolled loop that binds the given names. -/
def inRound (pl : Place) (label : Option String) (names : List String) : Place :=
  { pl with
    registry := pl.registry.bindNames names
    labels := (label.map (·, pl.plainDepth)).toList ++ pl.labels
    stagedLoops := pl.plainLoops :: pl.stagedLoops
    inBody := false }

/-- A staged construct as it stands in a place: a single body gets braces. -/
def wrap (pl : Place) (i : Instruction) : Instruction := if pl.inBody then .block [i] else i

end Place

theorem planStmt_place (s : CompileState) (stmt : Stmt) : planStmt s stmt = s.place.plan stmt := by
  cases stmt <;> rfl

/-! ### What is appended -/

/-- The fragments of a text. -/
def textFragments (t : String) : List Fragment := if t.isEmpty then [] else [.text t]

/-- Whether the text is at a start after a text. -/
def startAfter (t : String) (start : Bool) : Bool := if t.isEmpty then start else t == " => "

/-- The instructions of fragments. -/
def codeOfFragments (fs : List Fragment) : List Instruction := Buffer.coalesce "" fs

/-- The names among those a loop binds that are declared in each round. -/
def declaredIn (r : Registry) (names : List String) : List String :=
  names.filter (· ∉ (r.bindNames names).inlined)

/--
`Emits pl start parts fs start'`: in the place `pl`, with the text at a start or not, compiling the parts
appends the fragments `fs`, and then the text is at a start or not.
-/
inductive Emits : Place → Bool → List Part → List Fragment → Bool → Prop
  | nil {pl : Place} {start : Bool} : Emits pl start [] [] start
  | text {pl : Place} {start start' : Bool} {t : String} {more : List Part} {fs : List Fragment}
      (rest : Emits pl (startAfter t start) more fs start') :
      Emits pl start (.text t :: more) (textFragments t ++ fs) start'
  | pattern {pl : Place} {start start' : Bool} {p : Pattern} {more : List Part} {fs : List Fragment}
      (rest : Emits pl (startAfter p.text start) more fs start') :
      Emits pl start (.pattern p :: more) (textFragments p.text ++ fs) start'
  | keepExpr {pl : Place} {start mid start' : Bool} {e : Expr} {min : Precedence} {parts more : List Part}
      {fs fs' : List Fragment} (plan : planExpr pl.registry e min = .keep parts)
      (inner : Emits pl.aside start parts fs mid) (rest : Emits pl mid more fs' start') :
      Emits pl start (.expr e min :: more) (fs ++ fs') start'
  | inline {pl : Place} {start start' : Bool} {e : Expr} {min : Precedence} {more : List Part}
      {fs : List Fragment} (plan : planExpr pl.registry e min = .inline)
      (rest : Emits pl false more fs start') :
      Emits pl start (.expr e min :: more) (.code (.inline e min start) :: fs) start'
  | call {pl : Place} {start start' : Bool} {e : Expr} {min : Precedence} {more : List Part}
      {fs : List Fragment} (plan : planExpr pl.registry e min = .call)
      (rest : Emits pl false more fs start') :
      Emits pl start (.expr e min :: more) (.code (.call e) :: fs) start'
  | keepStmt {pl : Place} {start mid start' : Bool} {s : Stmt} {more : List Part} {fs fs' : List Fragment}
      (plan : pl.plan s = .keep) (inner : Emits (pl.inside s) (isExprStmt s || start) s.layout fs mid)
      (rest : Emits pl mid more fs' start') :
      Emits pl start (.stmt s :: more) (fs ++ fs') start'
  | branch {pl : Place} {start mid start' : Bool} {s yes : Stmt} {test : Expr} {more : List Part}
      {fs fs' : List Fragment} (plan : pl.plan s = .branch test yes none)
      (inner : Emits pl.aside start (bodyParts yes) fs mid) (rest : Emits pl mid more fs' start') :
      Emits pl start (.stmt s :: more)
        (.code (pl.wrap (.if_ test (branchCode yes (codeOfFragments fs)) none)) :: fs') start'
  | branchElse {pl : Place} {start mid mid' start' : Bool} {s yes no : Stmt} {test : Expr} {more : List Part}
      {fs fs' fs'' : List Fragment} (plan : pl.plan s = .branch test yes (some no))
      (inner : Emits pl.aside start (bodyParts yes) fs mid)
      (other : Emits pl.aside mid (bodyParts no) fs' mid') (rest : Emits pl mid' more fs'' start') :
      Emits pl start (.stmt s :: more)
        (.code (pl.wrap (.if_ test (branchCode yes (codeOfFragments fs))
          (some (branchCode no (codeOfFragments fs'))))) :: fs'') start'
  | unroll {pl : Place} {start mid start' : Bool} {s body : Stmt} {label : Option String} {kind : IterKind}
      {pattern : Pattern} {source : Expr} {more : List Part} {fs fs' : List Fragment}
      (plan : pl.plan s = .unroll label kind pattern source body)
      (inner : Emits (pl.inRound label pattern.names) start (bodyParts body) fs mid)
      (rest : Emits pl mid more fs' start') :
      Emits pl start (.stmt s :: more)
        (.code (pl.wrap (.each label kind pattern source (declaredIn pl.registry pattern.names)
          (codeOfFragments fs))) :: fs') start'
  | jump {pl : Place} {start start' : Bool} {s : Stmt} {j : Jump} {label : String} {more : List Part}
      {fs : List Fragment} (plan : pl.plan s = .jump j label) (rest : Emits pl start more fs start') :
      Emits pl start (.stmt s :: more) (.code (.jump j label) :: fs) start'

/-- The state after fragments were appended. -/
def CompileState.appended (s : CompileState) (fs : List Fragment) (start : Bool) : CompileState :=
  { s with buffer := s.buffer ++ fs.toArray, atStart := start }

/-- Compiles parts in order. -/
def emitAll (parts : List Part) : Compile Unit := parts.forM emit

/-! ### One level of the walk -/

/-- What a computation gives, with the state it ends in changed back. -/
def leaving {α : Type} (leave : CompileState → CompileState) :
    EStateM.Result StagingError CompileState α → EStateM.Result StagingError CompileState α
  | .ok a s => .ok a (leave s)
  | .error e s => .error e (leave s)

theorem attach_forM_emit (parts : List Part) :
    (parts.attach.forM fun p => emit p.1) = emitAll parts := by
  have := List.forM_map (m := Compile) (l := parts.attach) (g := Subtype.val) (f := emit)
  simpa [emitAll] using this.symm

theorem write_eq (t : String) (s : CompileState) :
    write t s = .ok () (s.appended (textFragments t) (startAfter t s.atStart)) := by
  by_cases h : t.isEmpty <;>
    simp [write, modify, modifyGet, MonadStateOf.modifyGet, EStateM.modifyGet, CompileState.appended,
      Buffer.pushText, textFragments, startAfter, h]

theorem emit_text (t : String) (s : CompileState) :
    emit (.text t) s = .ok () (s.appended (textFragments t) (startAfter t s.atStart)) := by
  rw [emit, write_eq]

theorem emit_pattern (p : Pattern) (s : CompileState) :
    emit (.pattern p) s = .ok () (s.appended (textFragments p.text) (startAfter p.text s.atStart)) := by
  rw [← emit_text, emit, emit]

theorem emit_expr (e : Expr) (min : Precedence) (s : CompileState) :
    emit (.expr e min) s = match planExpr s.registry e min with
      | .keep parts => leaving ({ · with inBody := s.inBody }) (emitAll parts { s with inBody := false })
      | .inline => .ok () (s.appended [.code (.inline e min s.atStart)] false)
      | .call => .ok () (s.appended [.code (.call e)] false)
      | .refuse err => .error err s := by
  rw [emit]
  simp only [withBody, within, bind, EStateM.bind, get, getThe, MonadStateOf.get, EStateM.get,
    attach_forM_emit]
  cases planExpr s.registry e min with
  | keep parts => rfl
  | inline => simp [pushInline, modify, modifyGet, MonadStateOf.modifyGet, EStateM.modifyGet, CompileState.appended, Buffer.pushCode]
  | call => simp [pushCall, modify, modifyGet, MonadStateOf.modifyGet, EStateM.modifyGet, CompileState.appended, Buffer.pushCode]
  | refuse err => rfl

/-- Compiles a statement along its plan. -/
def followPlan (stmt : Stmt) (inBody : Bool) : StmtPlan → Compile Unit
  | .keep => do
    if isExprStmt stmt then modify ({ · with atStart := true })
    withBody (hasBody stmt) (inPlain (isLoop stmt) (emitAll stmt.layout))
  | .branch test yes none => do
    let thenCode ← capture (emitAll (bodyParts yes))
    pushStaged (.if_ test (branchCode yes thenCode) none) inBody
  | .branch test yes (some no) => do
    let thenCode ← capture (emitAll (bodyParts yes))
    let elseCode ← capture (emitAll (bodyParts no))
    pushStaged (.if_ test (branchCode yes thenCode) (some (branchCode no elseCode))) inBody
  | .unroll label kind pattern source body => do
    let registry := (← get).registry
    let code ← inStagedLoop label pattern.names (capture (emitAll (bodyParts body)))
    pushStaged (.each label kind pattern source (declaredIn registry pattern.names) code) inBody
  | .jump j label => push (.jump j label)
  | .refuse err => throw err

theorem emit_stmt (stmt : Stmt) (s : CompileState) :
    emit (.stmt stmt) s = leaving ({ · with inBody := s.inBody })
      (followPlan stmt s.inBody (s.place.plan stmt) { s with inBody := false }) := by
  have plan : planStmt { s with inBody := false } stmt = s.place.plan stmt := by
    rw [planStmt_place]
    cases stmt <;> rfl
  rw [emit]
  simp only [withBody, within, bind, EStateM.bind, get, getThe, MonadStateOf.get, EStateM.get,
    attach_forM_emit]
  rw [plan]
  rcases s.place.plan stmt with _ | ⟨test, yes, _ | no⟩ | _ | _ | _
  · simp only [followPlan]
    by_cases h : isExprStmt stmt
    · simp only [h, if_true]
      rfl
    · simp only [h]
      rfl
  all_goals rfl

/-! ### Computations that succeed -/

section Success

variable {α β : Type} {s s' : CompileState}

theorem leaving_ok {leave : CompileState → CompileState}
    {r : EStateM.Result StagingError CompileState α} {a : α} :
    leaving leave r = .ok a s' ↔ ∃ t, r = .ok a t ∧ leave t = s' := by
  cases r <;> simp [leaving, and_assoc]

theorem within_eq_leaving (enter leave : CompileState → CompileState) (act : Compile α) :
    within enter leave act s = leaving leave (act (enter s)) := by
  cases h : act (enter s) <;> simp only [within, leaving, h]

theorem inStagedLoop_eq_leaving (label : Option String) (names : List String) (act : Compile α) :
    inStagedLoop label names act s = leaving
      (fun t => { t with
        registry := t.registry.unbind (s.registry.added names)
        labels := t.labels.drop label.toList.length
        stagedLoops := t.stagedLoops.tail })
      (act { s with
        registry := s.registry.bindNames names
        labels := (label.map (·, s.plainDepth)).toList ++ s.labels
        stagedLoops := s.plainLoops :: s.stagedLoops }) := by
  simp only [inStagedLoop, Registry.bind, within_eq_leaving]

theorem capture_ok {act : Compile Unit} {code : List Instruction} :
    capture act s = .ok code s' ↔
      ∃ t, act { s with buffer := #[] } = .ok () t ∧ t.buffer.finish = code
        ∧ { t with buffer := s.buffer } = s' := by
  simp only [capture]
  cases act { s with buffer := #[] } <;> simp

theorem push_eq (i : Instruction) : push i s = .ok () (s.appended [.code i] s.atStart) := by
  simp [push, modify, modifyGet, MonadStateOf.modifyGet, EStateM.modifyGet, CompileState.appended,
    Buffer.pushCode]

end Success

/-! ### Appended fragments -/

section Appended

variable (s : CompileState) (fs fs' : List Fragment) (b b' : Bool)

@[simp] theorem CompileState.appended_place : (s.appended fs b).place = s.place := rfl

@[simp] theorem CompileState.appended_atStart : (s.appended fs b).atStart = b := rfl

@[simp] theorem CompileState.appended_appended :
    (s.appended fs b).appended fs' b' = s.appended (fs ++ fs') b' := by
  simp [CompileState.appended]

@[simp] theorem CompileState.appended_nil : s.appended [] s.atStart = s := by
  simp [CompileState.appended]

end Appended

/-- Appended parts append their fragments. -/
theorem Emits.append {pl : Place} {start mid start' : Bool} {ps qs : List Part} {fs fs' : List Fragment}
    (h : Emits pl start ps fs mid) (h' : Emits pl mid qs fs' start') :
    Emits pl start (ps ++ qs) (fs ++ fs') start' := by
  induction h with
  | nil => exact h'
  | text _ ih => simpa using Emits.text (ih h')
  | pattern _ ih => simpa using Emits.pattern (ih h')
  | keepExpr plan inner _ _ ih => simpa using Emits.keepExpr plan inner (ih h')
  | inline plan _ ih => exact .inline plan (ih h')
  | call plan _ ih => exact .call plan (ih h')
  | keepStmt plan inner _ _ ih => simpa using Emits.keepStmt plan inner (ih h')
  | branch plan inner _ _ ih => exact .branch plan inner (ih h')
  | branchElse plan inner other _ _ _ ih => exact .branchElse plan inner other (ih h')
  | unroll plan inner _ _ ih => exact .unroll plan inner (ih h')
  | jump plan _ ih => exact .jump plan (ih h')

/-! ### The relation holds of what is compiled -/

/-- What compiling a list of parts does, if it succeeds, is as the relation says. -/
def Described (parts : List Part) : Prop :=
  ∀ s s', emitAll parts s = .ok () s' →
    ∃ fs start, Emits s.place s.atStart parts fs start ∧ s' = s.appended fs start

theorem emitAll_singleton (p : Part) : emitAll [p] = emit p := by
  simp [emitAll]

theorem emitAll_cons (p : Part) (rest : List Part) : emitAll (p :: rest) = emit p >>= fun _ => emitAll rest :=
  List.forM_cons

theorem Described.of_forall {parts : List Part} (h : ∀ p ∈ parts, Described [p]) : Described parts := by
  induction parts with
  | nil =>
    intro s s' hs
    obtain rfl : s = s' := by simpa [emitAll, pure, EStateM.pure] using hs
    exact ⟨[], s.atStart, .nil, by simp⟩
  | cons p rest ih =>
    intro s s' hs
    rw [emitAll_cons, bind_eq_ok] at hs
    obtain ⟨_, t, hp, hrest⟩ := hs
    rw [← emitAll_singleton] at hp
    obtain ⟨fs, mid, hfs, rfl⟩ := h p (by simp) s t hp
    obtain ⟨fs', start, hfs', rfl⟩ := ih (fun q hq => h q (by simp [hq])) _ s' hrest
    exact ⟨fs ++ fs', start, hfs.append (by simpa using hfs'), by simp⟩

/-- A nested buffer holds the instructions of what was appended to it. -/
theorem Described.capture {parts : List Part} (h : Described parts) {s s' : CompileState}
    {code : List Instruction} (hs : capture (emitAll parts) s = .ok code s') :
    ∃ fs start, Emits s.place s.atStart parts fs start ∧ code = codeOfFragments fs
      ∧ s' = { s with atStart := start } := by
  obtain ⟨t, ht, rfl, rfl⟩ := capture_ok.1 hs
  obtain ⟨fs, start, hfs, rfl⟩ := h _ _ ht
  exact ⟨fs, start, hfs, by simp [CompileState.appended, Buffer.finish, codeOfFragments], rfl⟩

theorem Described.expr {e : Expr} {min : Precedence}
    (ih : ∀ r parts, planExpr r e min = .keep parts → Described parts) : Described [.expr e min] := by
  intro s s' hs
  rw [emitAll_singleton, emit_expr] at hs
  split at hs
  · rename_i parts plan
    obtain ⟨t, ht, rfl⟩ := leaving_ok.1 hs
    obtain ⟨fs, start, hfs, rfl⟩ := ih _ _ plan _ _ ht
    have inner : Emits s.place.aside s.atStart parts fs start := hfs
    exact ⟨fs, start, by simpa using Emits.keepExpr plan inner .nil, rfl⟩
  · obtain ⟨⟩ := hs
    exact ⟨_, _, .inline ‹_› .nil, rfl⟩
  · obtain ⟨⟩ := hs
    exact ⟨_, _, .call ‹_› .nil, rfl⟩
  · cases hs

theorem Described.stmt {stmt : Stmt} (keep : Described stmt.layout)
    (branch : ∀ s test yes no, planStmt s stmt = .branch test yes no →
      Described (bodyParts yes) ∧ ∀ n, no = some n → Described (bodyParts n))
    (unroll : ∀ s label kind pattern source body, planStmt s stmt = .unroll label kind pattern source body →
      Described (bodyParts body)) : Described [.stmt stmt] := by
  intro s s' hs
  rw [emitAll_singleton, emit_stmt] at hs
  obtain ⟨t, ht, rfl⟩ := leaving_ok.1 hs
  generalize hp : s.place.plan stmt = p at ht
  rcases p with _ | ⟨test, yes, _ | no⟩ | ⟨label, kind, pattern, source, body⟩ | ⟨j, label⟩ | err
  · have entered : withBody (hasBody stmt) (inPlain (isLoop stmt) (emitAll stmt.layout))
        { s with inBody := false, atStart := isExprStmt stmt || s.atStart } = .ok () t := by
      cases hx : isExprStmt stmt
      · simpa [followPlan, hx] using ht
      · simp only [followPlan, hx, if_true] at ht
        exact ht
    rw [withBody, within_eq_leaving] at entered
    obtain ⟨u, hu, rfl⟩ := leaving_ok.1 entered
    rw [inPlain, within_eq_leaving] at hu
    obtain ⟨v, hv, rfl⟩ := leaving_ok.1 hu
    obtain ⟨fs, start, hfs, rfl⟩ := keep _ _ hv
    refine ⟨fs, start, ?_, ?_⟩
    · simpa using Emits.keepStmt hp hfs .nil
    · simp [CompileState.appended]
  · obtain ⟨code, u, hu, ht⟩ := bind_eq_ok.1 ht
    obtain ⟨fs, start, hfs, rfl, rfl⟩ := (branch _ _ _ _ hp).1.capture hu
    rw [pushStaged, push_eq] at ht
    obtain ⟨⟩ := ht
    exact ⟨_, _, .branch hp hfs .nil, rfl⟩
  · obtain ⟨code, u, hu, ht⟩ := bind_eq_ok.1 ht
    obtain ⟨fs, mid, hfs, rfl, rfl⟩ := (branch _ _ _ _ hp).1.capture hu
    obtain ⟨code', v, hv, ht⟩ := bind_eq_ok.1 ht
    obtain ⟨fs', start, hfs', rfl, rfl⟩ := ((branch _ _ _ _ hp).2 _ rfl).capture hv
    rw [pushStaged, push_eq] at ht
    obtain ⟨⟩ := ht
    exact ⟨_, _, .branchElse hp hfs hfs' .nil, rfl⟩
  · obtain ⟨_, _, ⟨⟩, ht⟩ := bind_eq_ok.1 ht
    obtain ⟨code, u, hu, ht⟩ := bind_eq_ok.1 ht
    rw [inStagedLoop_eq_leaving] at hu
    obtain ⟨v, hv, rfl⟩ := leaving_ok.1 hu
    obtain ⟨fs, start, hfs, rfl, rfl⟩ := (unroll _ _ _ _ _ _ hp).capture hv
    rw [pushStaged, push_eq] at ht
    obtain ⟨⟩ := ht
    refine ⟨_, _, .unroll hp hfs .nil, ?_⟩
    have registry : (s.registry.bindNames pattern.names).unbind (s.registry.added pattern.names) = s.registry :=
      s.registry.unbind_bindNames pattern.names
    cases label <;> simp [CompileState.appended, registry] <;> rfl
  · simp only [followPlan] at ht
    rw [push_eq] at ht
    obtain ⟨⟩ := ht
    exact ⟨_, _, .jump hp .nil, rfl⟩
  · cases ht

/-- What compiling parts does, if it succeeds, is as the relation says. -/
theorem described (parts : List Part) : Described parts := by
  suffices h : ∀ n, ∀ p : Part, p.weight = n → Described [p] from
    .of_forall fun p _ => h _ p rfl
  intro n
  induction n using Nat.strongRecOn with
  | ind n ih =>
    have below : ∀ {parts : List Part}, (∀ p ∈ parts, p.weight < n) → Described parts := fun h =>
      .of_forall fun p hp => ih _ (h p hp) p rfl
    rintro (t | q | ⟨e, min⟩ | stmt) rfl
    · intro s s' hs
      rw [emitAll_singleton, emit_text] at hs
      obtain ⟨⟩ := hs
      exact ⟨_, _, by simpa using Emits.text (t := t) .nil, rfl⟩
    · intro s s' hs
      rw [emitAll_singleton, emit_pattern] at hs
      obtain ⟨⟩ := hs
      exact ⟨_, _, by simpa using Emits.pattern (p := q) .nil, rfl⟩
    · exact .expr fun r parts plan => below fun p hp => weight_of_planExpr plan hp
    · refine .stmt (below fun p hp => weight_of_mem_stmt hp) ?_ ?_
      · intro s test yes no plan
        obtain ⟨hyes, hno⟩ := planStmt_branch plan
        exact ⟨below fun p hp => Nat.lt_of_le_of_lt (weight_of_mem_bodyParts hp) hyes,
          fun m hm => below fun p hp => Nat.lt_of_le_of_lt (weight_of_mem_bodyParts hp) (hno m hm)⟩
      · intro s label kind pattern source body plan
        exact below fun p hp => Nat.lt_of_le_of_lt (weight_of_mem_bodyParts hp) (planStmt_unroll plan)

/-! ### What the relation says is compiled -/

theorem capture_of_emitAll {parts : List Part} {s : CompileState} {fs : List Fragment} {start : Bool}
    (h : emitAll parts { s with buffer := #[] } = .ok () ({ s with buffer := #[] }.appended fs start)) :
    capture (emitAll parts) s = .ok (codeOfFragments fs) { s with atStart := start } :=
  capture_ok.2 ⟨_, h, by simp [CompileState.appended, Buffer.finish, codeOfFragments], rfl⟩

theorem emitAll_cons_of {p : Part} {rest : List Part} {s : CompileState} {fs fs' : List Fragment}
    {mid start : Bool} (here : emit p s = .ok () (s.appended fs mid))
    (more : ∀ t : CompileState, t.place = s.place → t.atStart = mid →
      emitAll rest t = .ok () (t.appended fs' start)) :
    emitAll (p :: rest) s = .ok () (s.appended (fs ++ fs') start) := by
  rw [emitAll_cons, bind_eq_ok]
  exact ⟨_, _, here, by simpa using more (s.appended fs mid) rfl rfl⟩

theorem emitAll_cons_code {p : Part} {rest : List Part} {s : CompileState} {i : Instruction}
    {fs : List Fragment} {mid start : Bool} (here : emit p s = .ok () (s.appended [.code i] mid))
    (more : ∀ t : CompileState, t.place = s.place → t.atStart = mid →
      emitAll rest t = .ok () (t.appended fs start)) :
    emitAll (p :: rest) s = .ok () (s.appended (.code i :: fs) start) :=
  emitAll_cons_of here more

theorem emit_stmt_of {stmt : Stmt} {plan : StmtPlan} {s : CompileState} {fs : List Fragment} {start : Bool}
    (hp : s.place.plan stmt = plan)
    (h : followPlan stmt s.inBody plan { s with inBody := false }
      = .ok () ({ s with inBody := false }.appended fs start)) :
    emit (.stmt stmt) s = .ok () (s.appended fs start) := by
  rw [emit_stmt, hp, h]
  rfl

/-- Compiling does what the relation says. -/
theorem Emits.emitAll {pl : Place} {start start' : Bool} {parts : List Part} {fs : List Fragment}
    (h : Emits pl start parts fs start') (s : CompileState) (hpl : s.place = pl) (hs : s.atStart = start) :
    emitAll parts s = .ok () (s.appended fs start') := by
  induction h generalizing s with
  | nil =>
    subst hs
    simp [Template.emitAll, pure, EStateM.pure]
  | text _ ih =>
    subst hpl hs
    exact emitAll_cons_of (emit_text ..) ih
  | pattern _ ih =>
    subst hpl hs
    exact emitAll_cons_of (emit_pattern ..) ih
  | keepExpr plan _ _ inner rest =>
    subst hpl hs
    refine emitAll_cons_of ?_ rest
    rw [emit_expr]
    simp only [show s.registry = s.place.registry from rfl, plan]
    exact leaving_ok.2 ⟨_, inner { s with inBody := false } rfl rfl, rfl⟩
  | inline plan _ rest =>
    subst hpl hs
    refine emitAll_cons_code ?_ rest
    rw [emit_expr]
    simp only [show s.registry = s.place.registry from rfl, plan]
  | call plan _ rest =>
    subst hpl hs
    refine emitAll_cons_code ?_ rest
    rw [emit_expr]
    simp only [show s.registry = s.place.registry from rfl, plan]
  | @keepStmt _ _ _ _ stmt _ _ _ plan _ _ inner rest =>
    subst hpl hs
    refine emitAll_cons_of (emit_stmt_of plan ?_) rest
    have entered : followPlan stmt s.inBody .keep { s with inBody := false }
        = withBody (hasBody stmt) (inPlain (isLoop stmt) (Template.emitAll stmt.layout))
          { s with inBody := false, atStart := isExprStmt stmt || s.atStart } := by
      cases hx : isExprStmt stmt
      · simp [followPlan, hx]
      · simp only [followPlan, hx, if_true]
        rfl
    rw [entered, withBody, within_eq_leaving, inPlain, within_eq_leaving, inner _ rfl rfl]
    simp [leaving, CompileState.appended]
  | branch plan _ _ inner rest =>
    subst hpl hs
    refine emitAll_cons_code (emit_stmt_of plan ?_) rest
    exact bind_eq_ok.2 ⟨_, _, capture_of_emitAll (inner _ rfl rfl), by rw [pushStaged, push_eq]; rfl⟩
  | branchElse plan _ _ _ inner other rest =>
    subst hpl hs
    refine emitAll_cons_code (emit_stmt_of plan ?_) rest
    refine bind_eq_ok.2 ⟨_, _, capture_of_emitAll (inner _ rfl rfl), ?_⟩
    exact bind_eq_ok.2 ⟨_, _, capture_of_emitAll (other _ rfl rfl), by rw [pushStaged, push_eq]; rfl⟩
  | @unroll _ _ mid _ stmt body label kind pattern source _ fs _ plan _ _ inner rest =>
    subst hpl hs
    have round : inStagedLoop label pattern.names (capture (Template.emitAll (bodyParts body)))
        { s with inBody := false } = .ok (codeOfFragments fs) { s with inBody := false, atStart := mid } := by
      rw [inStagedLoop_eq_leaving]
      refine leaving_ok.2 ⟨_, capture_of_emitAll (inner _ ?_ rfl), ?_⟩
      · rfl
      · cases label <;> simp [Registry.unbind_bindNames]
    refine emitAll_cons_code (emit_stmt_of plan ?_) rest
    refine bind_eq_ok.2 ⟨_, _, rfl, ?_⟩
    exact bind_eq_ok.2 ⟨_, _, round, by rw [pushStaged, push_eq]; rfl⟩
  | jump plan _ rest =>
    subst hpl hs
    refine emitAll_cons_code (emit_stmt_of plan ?_) rest
    exact push_eq _

/-- Compiling parts succeeds exactly when the relation holds, and does then what it says. -/
theorem emitAll_ok_iff {parts : List Part} {s s' : CompileState} :
    emitAll parts s = .ok () s' ↔
      ∃ fs start, Emits s.place s.atStart parts fs start ∧ s' = s.appended fs start := by
  constructor
  · exact described parts s s'
  · rintro ⟨fs, start, h, rfl⟩
    exact h.emitAll s rfl rfl

/-! ### Templates -/

/-- The fragments of the declaration of a staged name. -/
def declarationFragments (name : String) : List Fragment :=
  [.text ("const " ++ name ++ " = "), .code (.inline (.ident ⟨0, 0⟩ name) .lowest false), .text ";"]

theorem emitPreamble_eq (names : List String) (s : CompileState) (h : s.atStart = false) :
    emitPreamble names s = .ok () (s.appended (names.flatMap declarationFragments) false) := by
  induction names generalizing s with
  | nil => simp [emitPreamble, pure, EStateM.pure, ← h]
  | cons name rest ih =>
    have begins : textFragments ("const " ++ name ++ " = ") = [.text ("const " ++ name ++ " = ")] := by
      simp [textFragments]
    have ends : textFragments ";" = [.text ";"] := by simp [textFragments]
    have after : emitPreamble rest (s.appended (declarationFragments name) false)
        = .ok () (s.appended ((name :: rest).flatMap declarationFragments) false) := by
      simpa using ih (s.appended (declarationFragments name) false) rfl
    refine bind_eq_ok.2 ⟨(), s.appended (declarationFragments name) false, ?_, after⟩
    refine bind_eq_ok.2 ⟨_, _, write_eq .., ?_⟩
    refine bind_eq_ok.2 ⟨_, _, push_eq .., ?_⟩
    rw [write_eq, begins, ends]
    rfl

/-- The place in which the body of a template is compiled. -/
def Place.top (r : Registry) : Place := { registry := r }

theorem emitBody_eq (body : List Stmt) : emitBody body = emitAll (body.map .stmt) := by
  simp [emitBody, emitAll]

theorem emitTemplate_ok_iff {r : Registry} {body : List Stmt} {s' : CompileState} :
    emitTemplate r.declared body { registry := r } = .ok () s' ↔
      ∃ fs start, Emits (.top r) false (body.map .stmt) fs start
        ∧ s' = CompileState.appended { registry := r }
          (r.declared.flatMap declarationFragments ++ fs) start := by
  rw [emitTemplate, bind_eq_ok, emitBody_eq]
  constructor
  · rintro ⟨_, t, ht, h⟩
    rw [emitPreamble_eq _ _ rfl] at ht
    obtain ⟨⟩ := ht
    obtain ⟨fs, start, hfs, rfl⟩ := emitAll_ok_iff.1 h
    exact ⟨fs, start, hfs, by simp⟩
  · rintro ⟨fs, start, hfs, rfl⟩
    refine ⟨_, _, emitPreamble_eq _ _ rfl, ?_⟩
    rw [emitAll_ok_iff]
    exact ⟨fs, start, hfs, by simp⟩

/-- A template has a program exactly when the relation holds of its body. -/
theorem compile_ok_iff {r : Registry} {body : List Stmt} {p : Program} :
    compile r body = .ok p ↔ ∃ fs start, Emits (.top r) false (body.map .stmt) fs start
      ∧ p = ⟨r.staged, codeOfFragments (r.declared.flatMap declarationFragments ++ fs)⟩ := by
  have finish : ∀ fs start, (CompileState.appended { registry := r } fs start).buffer.finish
      = codeOfFragments fs := by
    intro fs start
    simp [CompileState.appended, Buffer.finish, codeOfFragments]
  have run : compile r body = .ok p ↔ ∃ s', emitTemplate r.declared body { registry := r } = .ok () s'
      ∧ p = ⟨r.staged, s'.buffer.finish⟩ := by
    simp only [compile]
    cases emitTemplate r.declared body { registry := r } <;> simp [eq_comm]
  rw [run]
  constructor
  · rintro ⟨s', h, rfl⟩
    obtain ⟨fs, start, hfs, rfl⟩ := emitTemplate_ok_iff.1 h
    exact ⟨fs, start, hfs, by rw [finish]⟩
  · rintro ⟨fs, start, hfs, rfl⟩
    exact ⟨_, emitTemplate_ok_iff.2 ⟨fs, start, hfs, rfl⟩, by rw [finish]⟩

end Staging.Template
