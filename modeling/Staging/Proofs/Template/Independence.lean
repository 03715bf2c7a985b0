import Staging.Proofs.Template.Walk

/-!
What compiling statements does not depend on.

What was compiled before leaves two traces in the state of the walk: the buffer, and whether the text is at a start.
Neither decides whether compiling succeeds: from two states with the same place, compiling ends alike, with success or
with the same error (`emitAll_alike`). And a list of statements appends the same fragments wherever the text is
(`Emits.anywhere`): an expression statement is at a start by itself, and every other statement begins with a text.
-/

namespace Staging.Template

/-! ### Ends -/

/-- Both computations succeeded, or both failed with the same error, and the places are the same. -/
def SameEnd {α : Type} : EStateM.Result StagingError CompileState α → EStateM.Result StagingError CompileState α → Prop
  | .ok _ t, .ok _ t' => t.place = t'.place
  | .error e t, .error e' t' => e = e' ∧ t.place = t'.place
  | _, _ => False

/-- From states with the same place, the computations end alike. -/
def Alike {α : Type} (act act' : Compile α) : Prop := ∀ s s', s.place = s'.place → SameEnd (act s) (act' s')

theorem SameEnd.leaving {α : Type} {r r' : EStateM.Result StagingError CompileState α} (h : SameEnd r r')
    {leave leave' : CompileState → CompileState}
    (same : ∀ t t', t.place = t'.place → (leave t).place = (leave' t').place) :
    SameEnd (leaving leave r) (leaving leave' r') := by
  match r, r', h with
  | .ok _ t, .ok _ t', places => exact same t t' places
  | .error _ t, .error _ t', ⟨errors, places⟩ => exact ⟨errors, same t t' places⟩

/-- Ends alike are the same failures. -/
theorem SameEnd.error_iff {α : Type} {r r' : EStateM.Result StagingError CompileState α} (h : SameEnd r r')
    (e : StagingError) : (∃ t, r = .error e t) ↔ ∃ t, r' = .error e t := by
  match r, r', h with
  | .ok _ _, .ok _ _, _ => simp
  | .error _ _, .error _ _, ⟨errors, _⟩ => simp [errors]

namespace Alike

variable {α β : Type} {act act' : Compile α}

theorem pure (a a' : α) : Alike (pure a) (pure a') := fun _ _ places => places

theorem throw (e : StagingError) : Alike (throw e : Compile α) (throw e) := fun _ _ places => ⟨rfl, places⟩

theorem bind {f f' : α → Compile β} (h : Alike act act') (h' : ∀ a a', Alike (f a) (f' a')) :
    Alike (act >>= f) (act' >>= f') := by
  intro s s' places
  have first := h s s' places
  simp only [Bind.bind, EStateM.bind]
  match act s, act' s', first with
  | .ok a t, .ok a' t', places => exact h' a a' t t' places
  | .error _ _, .error _ _, same => exact same

theorem modify {f : CompileState → CompileState} (kept : ∀ s, (f s).place = s.place) :
    Alike (modify f) (modify f) := by
  intro s s' places
  show (f s).place = (f s').place
  rw [kept, kept, places]

theorem appended {s s' : CompileState} (places : s.place = s'.place) (fs fs' : List Fragment) (b b' : Bool) :
    SameEnd (.ok () (s.appended fs b)) (.ok () (s'.appended fs' b')) := places

theorem push (i i' : Instruction) : Alike (push i) (push i') := by
  intro s s' places
  rw [push_eq, push_eq]
  exact appended places ..

theorem pushStaged (i i' : Instruction) (inBody inBody' : Bool) : Alike (pushStaged i inBody) (pushStaged i' inBody') :=
  push _ _

/-- A computation in a place with a flag of its own. -/
theorem flagged (h : Alike act act') {s s' : CompileState} (places : s.place = s'.place) (inBody : Bool) :
    SameEnd (leaving ({ · with inBody := s.inBody }) (act { s with inBody }))
      (leaving ({ · with inBody := s'.inBody }) (act' { s' with inBody })) := by
  simp only [CompileState.place, Place.mk.injEq] at places
  obtain ⟨registry, labels, depth, loops, staged, flag⟩ := places
  refine (h { s with inBody } { s' with inBody } ?_).leaving fun t t' same => ?_
  · simp only [CompileState.place, registry, labels, depth, loops, staged]
  · simp only [CompileState.place, Place.mk.injEq] at same ⊢
    obtain ⟨registry, labels, depth, loops, staged, -⟩ := same
    exact ⟨registry, labels, depth, loops, staged, flag⟩

theorem withBody (inBody : Bool) (h : Alike act act') : Alike (withBody inBody act) (withBody inBody act') := by
  intro s s' places
  rw [Template.withBody, Template.withBody, within_eq_leaving, within_eq_leaving]
  exact h.flagged places inBody

theorem inPlain (isLoop : Bool) (h : Alike act act') : Alike (inPlain isLoop act) (inPlain isLoop act') := by
  intro s s' places
  rw [Template.inPlain, Template.inPlain, within_eq_leaving, within_eq_leaving]
  simp only [CompileState.place, Place.mk.injEq] at places
  obtain ⟨registry, labels, depth, loops, staged, flag⟩ := places
  refine SameEnd.leaving (h _ _ ?_) fun t t' same => ?_
  · simp only [CompileState.place, registry, labels, depth, loops, staged, flag]
  · simp only [CompileState.place, Place.mk.injEq] at same ⊢
    obtain ⟨registry, labels, depth, loops, staged, flag⟩ := same
    exact ⟨registry, labels, by rw [depth], by rw [loops], staged, flag⟩

theorem inStagedLoop (label : Option String) (names : List String) (h : Alike act act') :
    Alike (inStagedLoop label names act) (inStagedLoop label names act') := by
  intro s s' places
  rw [inStagedLoop_eq_leaving, inStagedLoop_eq_leaving]
  simp only [CompileState.place, Place.mk.injEq] at places
  obtain ⟨registry, labels, depth, loops, staged, flag⟩ := places
  refine SameEnd.leaving (h _ _ ?_) fun t t' same => ?_
  · simp only [CompileState.place, registry, labels, depth, loops, staged, flag]
  · simp only [CompileState.place, Place.mk.injEq] at same ⊢
    obtain ⟨registries, labels, depth, loops, staged, flag⟩ := same
    exact ⟨by rw [registries, registry], by rw [labels], depth, loops, by rw [staged], flag⟩

theorem capture {act act' : Compile Unit} (h : Alike act act') : Alike (capture act) (capture act') := by
  intro s s' places
  have inner := h { s with buffer := #[] } { s' with buffer := #[] } places
  simp only [Template.capture]
  generalize act { s with buffer := #[] } = r at inner ⊢
  generalize act' { s' with buffer := #[] } = r' at inner ⊢
  cases r with
  | ok _ _ =>
    cases r' with
    | ok _ _ => exact inner
    | error _ _ => exact inner.elim
  | error _ _ =>
    cases r' with
    | ok _ _ => exact inner.elim
    | error _ _ => exact inner

theorem forM {f : β → Compile Unit} : ∀ xs : List β, (∀ x ∈ xs, Alike (f x) (f x)) → Alike (xs.forM f) (xs.forM f)
  | [], _ => pure () ()
  | x :: xs, h => by
    refine Alike.bind (f := fun _ => xs.forM f) (h x (by simp)) fun _ _ => ?_
    exact forM xs fun y inside => h y (by simp [inside])

/-! ### One level of the walk -/

theorem expr {e : Expr} {min : Precedence}
    (keep : ∀ r parts, planExpr r e min = .keep parts → Alike (emitAll parts) (emitAll parts)) :
    Alike (emit (.expr e min)) (emit (.expr e min)) := by
  intro s s' places
  have same : planExpr s'.registry e min = planExpr s.registry e min := by
    rw [show s'.registry = s.registry from (congrArg Place.registry places).symm]
  rw [emit_expr, emit_expr, same]
  split
  · exact (keep _ _ ‹_›).flagged places false
  · exact appended places ..
  · exact appended places ..
  · exact ⟨rfl, places⟩

theorem followPlan {stmt : Stmt} (inBody inBody' : Bool) {plan : StmtPlan}
    (keep : Alike (emitAll stmt.layout) (emitAll stmt.layout))
    (branch : ∀ test yes no, plan = .branch test yes no →
      Alike (emitAll (bodyParts yes)) (emitAll (bodyParts yes)) ∧
        ∀ n, no = some n → Alike (emitAll (bodyParts n)) (emitAll (bodyParts n)))
    (unroll : ∀ label kind pattern source body, plan = .unroll label kind pattern source body →
      Alike (emitAll (bodyParts body)) (emitAll (bodyParts body))) :
    Alike (followPlan stmt inBody plan) (followPlan stmt inBody' plan) := by
  have kept := (keep.inPlain (isLoop stmt)).withBody (hasBody stmt)
  rcases plan with _ | ⟨test, yes, _ | no⟩ | ⟨label, kind, pattern, source, body⟩ | ⟨j, label⟩ | err
  · simp only [Template.followPlan]
    split
    · exact .bind (.modify fun _ => rfl) fun _ _ => kept
    · exact kept
  · exact .bind (branch _ _ _ rfl).1.capture fun _ _ => pushStaged _ _ _ _
  · refine .bind (branch _ _ _ rfl).1.capture fun _ _ => ?_
    exact .bind ((branch _ _ _ rfl).2 _ rfl).capture fun _ _ => pushStaged _ _ _ _
  · refine .bind (fun _ _ places => places) fun _ _ => ?_
    exact .bind ((unroll _ _ _ _ _ rfl).capture.inStagedLoop _ _) fun _ _ => pushStaged _ _ _ _
  · exact push _ _
  · exact .throw err

theorem stmt {stmt : Stmt} (keep : Alike (emitAll stmt.layout) (emitAll stmt.layout))
    (branch : ∀ s test yes no, planStmt s stmt = .branch test yes no →
      Alike (emitAll (bodyParts yes)) (emitAll (bodyParts yes)) ∧
        ∀ n, no = some n → Alike (emitAll (bodyParts n)) (emitAll (bodyParts n)))
    (unroll : ∀ s label kind pattern source body, planStmt s stmt = .unroll label kind pattern source body →
      Alike (emitAll (bodyParts body)) (emitAll (bodyParts body))) : Alike (emit (.stmt stmt)) (emit (.stmt stmt)) := by
  intro s s' places
  rw [emit_stmt, emit_stmt, ← places]
  exact (followPlan s.inBody s'.inBody keep (branch s.place.toState) (unroll s.place.toState)).flagged places false

end Alike

/-- **Whether compiling succeeds, and with what error it fails, depends on the place only.** -/
theorem emitAll_alike (parts : List Part) : Alike (emitAll parts) (emitAll parts) := by
  suffices alike : ∀ n, ∀ p : Part, p.weight = n → Alike (emit p) (emit p) from
    .forM parts fun p _ => alike _ p rfl
  intro n
  -- on the weight of the part: whatever is compiled in turn weighs less
  induction n using Nat.strongRecOn with
  | ind n ih =>
    have below : ∀ {parts : List Part}, (∀ p ∈ parts, p.weight < n) → Alike (emitAll parts) (emitAll parts) := fun h =>
      .forM _ fun p hp => ih _ (h p hp) p rfl
    rintro (t | q | ⟨e, min⟩ | stmt) rfl
    · intro s s' places
      rw [emit_text, emit_text]
      exact Alike.appended places ..
    · intro s s' places
      rw [emit_pattern, emit_pattern]
      exact Alike.appended places ..
    · exact .expr fun r parts plan => below fun p hp => weight_of_planExpr plan hp
    · refine .stmt (below fun p hp => weight_of_mem_stmt hp) ?_ ?_
      · intro s test yes no plan
        obtain ⟨hyes, hno⟩ := planStmt_branch plan
        exact ⟨below fun p hp => Nat.lt_of_le_of_lt (weight_of_mem_bodyParts hp) hyes,
          fun m hm => below fun p hp => Nat.lt_of_le_of_lt (weight_of_mem_bodyParts hp) (hno m hm)⟩
      · intro s label kind pattern source body plan
        exact below fun p hp => Nat.lt_of_le_of_lt (weight_of_mem_bodyParts hp) (planStmt_unroll plan)

/-! ### Where the text is -/

/-- Statements other than expressions begin with a text. -/
theorem layout_begins : ∀ {s : Stmt}, isExprStmt s = false → ∃ t rest, s.layout = .text t :: rest ∧ t.isEmpty = false
  | .decl d, _ => ⟨d.kind.text ++ " ", _, rfl, by simp⟩
  | .function _ ⟨name, params, body, isArrow⟩, _ => by
    cases isArrow with
    | true => exact ⟨"(", _, rfl, rfl⟩
    | false => exact ⟨_, _, rfl, by simp⟩
  | .return_ _ (some _), _ => ⟨"return ", _, rfl, rfl⟩
  | .return_ _ none, _ => ⟨"return;", _, rfl, rfl⟩
  | .if_ _ _ _ none, _ => ⟨"if (", _, rfl, rfl⟩
  | .if_ _ _ _ (some _), _ => ⟨"if (", _, rfl, rfl⟩
  | .for_ _ _ _ _ _, _ => ⟨"for (", _, rfl, rfl⟩
  | .forEach _ _ _ _ _ _, _ => ⟨_, _, rfl, by simp⟩
  | .while_ _ _ _, _ => ⟨"while (", _, rfl, rfl⟩
  | .break_ _ _, _ => ⟨_, _, rfl, by simp [jumpText]⟩
  | .continue_ _ _, _ => ⟨_, _, rfl, by simp [jumpText]⟩
  | .labeled _ label _, _ => ⟨label ++ ": ", _, rfl, by simp⟩
  | .throw_ _ _, _ => ⟨"throw ", _, rfl, rfl⟩
  | .try_ _ _ _ _, _ => ⟨"try ", _, rfl, rfl⟩
  | .block _ _, _ => ⟨"\x7b", _, rfl, rfl⟩
  | .empty _, _ => ⟨";", _, rfl, rfl⟩

theorem bodyParts_stmts (s : Stmt) : ∀ p ∈ bodyParts s, ∃ t, p = .stmt t := by
  intro p inside
  unfold bodyParts at inside
  split at inside
  · obtain ⟨t, -, rfl⟩ := List.mem_map.1 inside
    exact ⟨t, rfl⟩
  · exact ⟨s, List.mem_singleton.1 inside⟩

/-- The parts of a kept statement are compiled alike, whether the text before it is at a start or not. -/
theorem Emits.layout_anywhere {pl : Place} {s : Stmt} {start mid : Bool} {fs : List Fragment}
    (h : Emits pl (isExprStmt s || start) s.layout fs mid) (start' : Bool) :
    Emits pl (isExprStmt s || start') s.layout fs mid := by
  by_cases isExpr : isExprStmt s = true
  · simpa [isExpr] using h
  · obtain ⟨t, rest, begins, some⟩ := layout_begins (Bool.eq_false_iff.2 isExpr)
    rw [begins] at h ⊢
    cases h with
    | text inner =>
      refine .text ?_
      simpa [startAfter, some] using inner

/-- **What statements append does not depend on where the text is.** -/
theorem Emits.anywhere {pl : Place} {start start' : Bool} {parts : List Part} {fs : List Fragment}
    (h : Emits pl start parts fs start') (stmts : ∀ p ∈ parts, ∃ s, p = .stmt s) (from' : Bool) :
    ∃ last, Emits pl from' parts fs last := by
  induction h generalizing from' with
  | nil => exact ⟨from', .nil⟩
  | text | pattern | keepExpr | inline | call => obtain ⟨_, ⟨⟩⟩ := stmts _ List.mem_cons_self
  | keepStmt plan inner rest _ _ => exact ⟨_, .keepStmt plan (inner.layout_anywhere from') rest⟩
  | branch plan _ _ inner more =>
    obtain ⟨mid, inner⟩ := inner (bodyParts_stmts _) from'
    obtain ⟨last, rest⟩ := more (fun p hp => stmts p (by simp [hp])) mid
    exact ⟨last, .branch plan inner rest⟩
  | branchElse plan _ _ _ inner other more =>
    obtain ⟨mid, inner⟩ := inner (bodyParts_stmts _) from'
    obtain ⟨mid', other⟩ := other (bodyParts_stmts _) mid
    obtain ⟨last, rest⟩ := more (fun p hp => stmts p (by simp [hp])) mid'
    exact ⟨last, .branchElse plan inner other rest⟩
  | unroll plan _ _ inner more =>
    obtain ⟨mid, inner⟩ := inner (bodyParts_stmts _) from'
    obtain ⟨last, rest⟩ := more (fun p hp => stmts p (by simp [hp])) mid
    exact ⟨last, .unroll plan inner rest⟩
  | jump plan _ more =>
    obtain ⟨last, rest⟩ := more (fun p hp => stmts p (by simp [hp])) from'
    exact ⟨last, .jump plan rest⟩

end Staging.Template
