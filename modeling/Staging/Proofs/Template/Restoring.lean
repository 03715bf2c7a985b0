import Staging.Proofs.Template.Walk

/-!
Compiling takes its changes back.

The walk changes its place when it enters a kept statement, an unrolled loop or a nested buffer. Each of these
changes is made by one combinator, and each combinator restores the place when the computation in it does,
also when that fails (`Restores`). Main statement: `emit_restores`. However compiling a part ends, in any
state, the place is the one before, and the buffer is the one before with fragments appended.
-/

namespace Staging.Template

/-- The place is the same, and what was in the buffer is still at its beginning. -/
def CompileState.Restored (s t : CompileState) : Prop :=
  t.place = s.place ∧ s.buffer.toList <+: t.buffer.toList

/-- However the computation ends, the place is restored, and the buffer was only appended to. -/
abbrev Restores {α : Type} (act : Compile α) : Prop := Along CompileState.Restored act

theorem connected_restored : Connected CompileState.Restored where
  refl _ := ⟨rfl, List.prefix_rfl⟩
  trans h h' := ⟨h'.1.trans h.1, h.2.trans h'.2⟩

/-! ### Changes that are taken back -/

theorem endOf_leaving {α : Type} (leave : CompileState → CompileState)
    (r : EStateM.Result StagingError CompileState α) : endOf (leaving leave r) = leave (endOf r) := by
  cases r <;> rfl

namespace Restores

variable {α : Type} {act : Compile α}

theorem appended (s : CompileState) (fs : List Fragment) (start : Bool) : s.Restored (s.appended fs start) :=
  ⟨rfl, by simp [CompileState.appended]⟩

theorem write (t : String) : Restores (write t) := by
  intro s
  rw [write_eq]
  exact appended ..

theorem push (i : Instruction) : Restores (push i) := by
  intro s
  rw [push_eq]
  exact appended ..

/-- A computation in a place with a flag of its own. -/
theorem flagged (h : Restores act) (s : CompileState) (inBody : Bool) :
    s.Restored (endOf (leaving ({ · with inBody := s.inBody }) (act { s with inBody }))) := by
  obtain ⟨place, buffer⟩ := h { s with inBody }
  rw [endOf_leaving]
  refine ⟨?_, buffer⟩
  simp only [CompileState.place, Place.mk.injEq] at place ⊢
  obtain ⟨registry, labels, depth, loops, staged, -⟩ := place
  exact ⟨registry, labels, depth, loops, staged, trivial⟩

theorem withBody (inBody : Bool) (h : Restores act) : Restores (withBody inBody act) := by
  intro s
  rw [Template.withBody, within_eq_leaving]
  exact h.flagged s inBody

/-- The depth is counted up, and down again from where the computation left it. -/
theorem inPlain (isLoop : Bool) (h : Restores act) : Restores (inPlain isLoop act) := by
  intro s
  obtain ⟨place, buffer⟩ := h { s with
    plainDepth := s.plainDepth + 1
    plainLoops := s.plainLoops + if isLoop then 1 else 0 }
  rw [Template.inPlain, within_eq_leaving, endOf_leaving]
  refine ⟨?_, buffer⟩
  simp only [CompileState.place, Place.mk.injEq] at place ⊢
  obtain ⟨registry, labels, depth, loops, staged, inBody⟩ := place
  exact ⟨registry, labels, by rw [depth]; omega, by rw [loops]; omega, staged, inBody⟩

/-- The names that a loop binds are taken away from what the computation left, and its label is dropped. -/
theorem inStagedLoop (label : Option String) (names : List String) (h : Restores act) :
    Restores (inStagedLoop label names act) := by
  intro s
  obtain ⟨place, buffer⟩ := h { s with
    registry := s.registry.bindNames names
    labels := (label.map (·, s.plainDepth)).toList ++ s.labels
    stagedLoops := s.plainLoops :: s.stagedLoops }
  rw [inStagedLoop_eq_leaving, endOf_leaving]
  refine ⟨?_, buffer⟩
  simp only [CompileState.place, Place.mk.injEq] at place ⊢
  obtain ⟨registry, labels, depth, loops, staged, inBody⟩ := place
  refine ⟨?_, ?_, depth, loops, ?_, inBody⟩
  · rw [registry, Registry.unbind_bindNames]
  · rw [labels]
    cases label <;> rfl
  · rw [staged, List.tail_cons]

/-- A nested buffer is thrown away, and the one before comes back as it was. -/
theorem capture {act : Compile Unit} (h : Restores act) : Restores (capture act) := by
  intro s
  have place := (h { s with buffer := #[] }).1
  simp only [Template.capture]
  cases hr : act { s with buffer := #[] } with
  | ok _ t =>
    rw [hr] at place
    exact ⟨place, List.prefix_rfl⟩
  | error _ t =>
    rw [hr] at place
    exact ⟨place, List.prefix_rfl⟩

theorem pushStaged (i : Instruction) (inBody : Bool) : Restores (pushStaged i inBody) := push _

/-! ### One level of the walk -/

theorem expr {e : Expr} {min : Precedence}
    (keep : ∀ r parts, planExpr r e min = .keep parts → Restores (emitAll parts)) : Restores (emit (.expr e min)) := by
  intro s
  rw [emit_expr]
  split
  · exact (keep _ _ ‹_›).flagged s false
  · exact appended ..
  · exact appended ..
  · exact connected_restored.refl s

/-- Whatever the plan for a statement is, following it restores the place if compiling its parts does. -/
theorem followPlan {stmt : Stmt} (inBody : Bool) {plan : StmtPlan} (keep : Restores (emitAll stmt.layout))
    (branch : ∀ test yes no, plan = .branch test yes no →
      Restores (emitAll (bodyParts yes)) ∧ ∀ n, no = some n → Restores (emitAll (bodyParts n)))
    (unroll : ∀ label kind pattern source body, plan = .unroll label kind pattern source body →
      Restores (emitAll (bodyParts body))) : Restores (followPlan stmt inBody plan) := by
  have c := connected_restored
  have kept : Restores (Template.withBody (hasBody stmt) (Template.inPlain (isLoop stmt) (emitAll stmt.layout))) :=
    (keep.inPlain _).withBody _
  rcases plan with _ | ⟨test, yes, _ | no⟩ | ⟨label, kind, pattern, source, body⟩ | ⟨j, label⟩ | err
  · simp only [Template.followPlan]
    split
    · exact .bind c (.modify fun _ => ⟨rfl, List.prefix_rfl⟩) fun _ => kept
    · exact kept
  · exact .bind c (branch _ _ _ rfl).1.capture fun _ => pushStaged _ _
  · refine .bind c (branch _ _ _ rfl).1.capture fun _ => ?_
    exact .bind c ((branch _ _ _ rfl).2 _ rfl).capture fun _ => pushStaged _ _
  · refine .bind c (.get c) fun _ => ?_
    exact .bind c ((unroll _ _ _ _ _ rfl).capture.inStagedLoop _ _) fun _ => pushStaged _ _
  · exact push _
  · exact .throw c err

theorem stmt {stmt : Stmt} (keep : Restores (emitAll stmt.layout))
    (branch : ∀ s test yes no, planStmt s stmt = .branch test yes no →
      Restores (emitAll (bodyParts yes)) ∧ ∀ n, no = some n → Restores (emitAll (bodyParts n)))
    (unroll : ∀ s label kind pattern source body, planStmt s stmt = .unroll label kind pattern source body →
      Restores (emitAll (bodyParts body))) : Restores (emit (.stmt stmt)) := by
  intro s
  rw [emit_stmt]
  exact (followPlan s.inBody keep (branch s.place.toState) (unroll s.place.toState)).flagged s false

end Restores

/--
Compiling restores its state. In whatever state the walk is, and however compiling a part of a tree ends, with
success or with a fault found at any depth, the registry, the labels, the depths and the flag for single
bodies are those before, and the buffer begins with all that was in it.
-/
theorem emit_restores (p : Part) (s : CompileState) :
    (endOf (emit p s)).place = s.place ∧ s.buffer.toList <+: (endOf (emit p s)).buffer.toList := by
  suffices restores : ∀ n, ∀ p : Part, p.weight = n → Restores (emit p) from restores _ p rfl s
  intro n
  -- on the weight of the part: whatever is compiled in turn weighs less
  induction n using Nat.strongRecOn with
  | ind n ih =>
    have below : ∀ {parts : List Part}, (∀ p ∈ parts, p.weight < n) → Restores (emitAll parts) := fun h =>
      .forM connected_restored _ fun p hp => ih _ (h p hp) p rfl
    rintro (t | q | ⟨e, min⟩ | stmt) rfl
    · intro s
      rw [emit_text]
      exact Restores.appended ..
    · intro s
      rw [emit_pattern]
      exact Restores.appended ..
    · exact .expr fun r parts plan => below fun p hp => weight_of_planExpr plan hp
    · refine .stmt (below fun p hp => weight_of_mem_stmt hp) ?_ ?_
      · intro s test yes no plan
        obtain ⟨hyes, hno⟩ := planStmt_branch plan
        exact ⟨below fun p hp => Nat.lt_of_le_of_lt (weight_of_mem_bodyParts hp) hyes,
          fun m hm => below fun p hp => Nat.lt_of_le_of_lt (weight_of_mem_bodyParts hp) (hno m hm)⟩
      · intro s label kind pattern source body plan
        exact below fun p hp => Nat.lt_of_le_of_lt (weight_of_mem_bodyParts hp) (planStmt_unroll plan)

end Staging.Template
