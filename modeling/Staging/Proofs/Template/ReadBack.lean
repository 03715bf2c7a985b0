import Staging.Proofs.Template.DatumTree
import Staging.Proofs.Template.Refinement

/-!
Written values read back.

The written form of a value is code, and running this code gives the value again, as far as it can be written. The
text is read as the tree of what is left of the value (`agrees_treeOf`, `treeOf_of_unfolds`), so what has to be
shown is that evaluating this tree builds it: `ReadsBack`, by induction on the contents. `Yields` carries what has
been built so far through the evaluation of the rest.

Main statement: `written_reads_back`.
-/

namespace Staging.Template

open Script

/-! ### Results that last -/

/-- The value has the contents of the datum, up to the sign of zeros. -/
def Shows (h : Heap) (v : Value) (d : Datum) : Prop := ∃ e, h.Unfolds v e ∧ e.same d = true

/--
The computation succeeds, only adds to the heap, and leaves the scopes and the open calls as they were. What is
said of its result holds in every heap that has what there was in the end.
-/
def Yields {α : Type} (s : State) (act : Eval α) (P : Heap → α → Prop) : Prop :=
  ∃ a s', act s = .ok a s' ∧ s.toHeap.Extends s'.toHeap ∧ s'.frames = s.frames ∧ s'.depth = s.depth
    ∧ ∀ h, s'.toHeap.Extends h → P h a

namespace Yields

variable {α β : Type} {s : State} {act : Eval α} {P : Heap → α → Prop}

theorem pure {a : α} (h : ∀ h, P h a) : Yields s (Pure.pure a) P :=
  ⟨a, s, rfl, .of_eq rfl rfl, rfl, rfl, fun h' _ => h h'⟩

/-- What holds of the first result still holds when the second one is there. -/
theorem bind {f : α → Eval β} {Q : Heap → β → Prop} (first : Yields s act P)
    (next : ∀ a t, Yields t (f a) fun h b => P h a → Q h b) : Yields s (act >>= f) Q := by
  obtain ⟨a, t, run, grows, frames, depth, holds⟩ := first
  obtain ⟨b, u, run', grows', frames', depth', holds'⟩ := next a t
  refine ⟨b, u, bind_eq_ok.2 ⟨a, t, run, run'⟩, grows.trans grows', frames'.trans frames, depth'.trans depth, ?_⟩
  exact fun h more => holds' h more (holds h (grows'.trans more))

/-- A new array has its items from then on. -/
theorem newArray (items : List Value) :
    Yields s (newArray items) fun h v => ∃ ref, v = .array ref ∧ (h.array ref).toList = items := by
  refine ⟨_, _, rfl, ⟨?_, List.prefix_rfl⟩, rfl, rfl, ?_⟩
  · simp
  · rintro h ⟨⟨more, rest⟩, -⟩
    refine ⟨s.arrays.size, rfl, ?_⟩
    have here : h.arrays.toList[s.arrays.size]? = some items.toArray := by
      rw [← rest]
      simp
    simp [Heap.array, ← Array.getElem?_toList, here]

theorem newObject (fields : Record Value) :
    Yields s (newObject fields) fun h v => ∃ ref, v = .object ref ∧ h.object ref = fields := by
  refine ⟨_, _, rfl, s.toHeap.extends_newObject fields, rfl, rfl, ?_⟩
  rintro h ⟨-, more, rest⟩
  refine ⟨s.objects.size, rfl, ?_⟩
  have here : h.objects.toList[s.objects.size]? = some fields := by
    rw [← rest]
    simp
  simp [Heap.object, ← Array.getElem?_toList, here]

end Yields

/-! ### Readings of a tree -/

theorem eq_literal_of_bare {e : Expr} {v : Literal} (h : e.bare = (Expr.literal nowhere v).bare) :
    ∃ s w, e = .literal s w ∧ w.bare = v.bare := by
  cases e with
  | literal s w => exact ⟨s, w, rfl, by simpa [Expr.bare] using h⟩
  | _ => simp [Expr.bare] at h

theorem eq_unary_of_bare {e a : Expr} {op : UnaryOp} (h : e.bare = (Expr.unary nowhere op a).bare) :
    ∃ s b, e = .unary s op b ∧ b.bare = a.bare := by
  cases e with
  | unary s _ b =>
    obtain ⟨rfl, same⟩ : _ ∧ _ := by simpa [Expr.bare] using h
    exact ⟨s, b, rfl, same⟩
  | _ => simp [Expr.bare] at h

theorem eq_array_of_bare {e : Expr} {ds : List Datum} (h : e.bare = (Datum.array ds).tree.bare) :
    ∃ s es, e = .array s es ∧ List.Forall₂ (fun e d => e.bare = d.tree.bare) es ds := by
  cases e with
  | array s es =>
    have same : es.map Expr.bare = (ds.map Datum.tree).map Expr.bare := by
      simpa [Expr.bare, Datum.tree, Datum.treesOfItems_eq] using h
    rw [← List.forall₂_eq_eq_eq] at same
    simp only [List.forall₂_map_left_iff, List.forall₂_map_right_iff] at same
    exact ⟨s, es, rfl, same⟩
  | _ => simp [Expr.bare, Datum.tree] at h

theorem eq_object_of_bare {e : Expr} {fs : List (String × Datum)} (h : e.bare = (Datum.object fs).tree.bare) :
    ∃ s ps, e = .object s ps ∧
      List.Forall₂ (fun (p : Property) f => p.key = .named f.1 ∧ p.value.bare = f.2.tree.bare) ps fs := by
  cases e with
  | object s ps =>
    have same : ps.map Property.bare = (fs.map fun f => (⟨.named f.1, f.2.tree⟩ : Property)).map Property.bare := by
      simpa [Expr.bare, Datum.tree, Datum.treesOfFields_eq] using h
    rw [← List.forall₂_eq_eq_eq] at same
    simp only [List.forall₂_map_left_iff, List.forall₂_map_right_iff] at same
    refine ⟨s, ps, rfl, same.imp ?_⟩
    rintro ⟨key, value⟩ f hf
    obtain ⟨hk, hv⟩ : key.bare = .named f.1 ∧ value.bare = f.2.tree.bare := by
      simpa [Property.bare, Key.bare] using hf
    cases key with
    | named n => exact ⟨by simpa [Key.bare] using hk, hv⟩
    | computed e => simp [Key.bare] at hk
  | _ => simp [Expr.bare, Datum.tree] at h

/-! ### Evaluating the tree of a value -/

/-- Evaluating any reading of the tree builds the datum. -/
def ReadsBack (d : Datum) : Prop :=
  ∀ (host : Host) (fuel : Nat) (env : Env) (e : Expr) (s : State), e.bare = d.tree.bare → d.depth + 2 ≤ fuel →
    Yields s (evalExpr host fuel env e) fun h v => Shows h v d

theorem readsBack_literal {d : Datum} {l : Literal} (tree : d.tree = .literal nowhere l)
    (shows : ∀ l' : Literal, l'.bare = l.bare → ∀ h, Shows h (literalValue l') d) : ReadsBack d := by
  intro host fuel env e s read enough
  rw [tree] at read
  obtain ⟨span, l', rfl, same⟩ := eq_literal_of_bare read
  obtain ⟨fuel, rfl⟩ : ∃ n, fuel = n + 1 := ⟨fuel - 1, by omega⟩
  exact Yields.pure (shows l' same)

theorem readsBack_undefined : ReadsBack .undefined := by
  refine readsBack_literal rfl fun l' same h => ?_
  cases l' <;> cases same
  exact ⟨.undefined, rfl, rfl⟩

theorem readsBack_null : ReadsBack .null := by
  refine readsBack_literal rfl fun l' same h => ?_
  cases l' <;> cases same
  exact ⟨.null, rfl, rfl⟩

theorem readsBack_bool (b : Bool) : ReadsBack (.bool b) := by
  refine readsBack_literal rfl fun l' same h => ?_
  cases l' <;> cases same
  exact ⟨.bool b, rfl, by simp [Datum.same]⟩

theorem readsBack_string (t : String) : ReadsBack (.string t) := by
  refine readsBack_literal rfl fun l' same h => ?_
  cases l' <;> cases same
  exact ⟨.string t, rfl, by simp [Datum.same]⟩

/-- Numbers that are written with one literal are equal. -/
theorem beq_of_bare {x y : Float} (finite : x.isFinite = true)
    (same : (Literal.number y).bare = (Literal.number x).bare) : (y == x) = true := by
  obtain ⟨negative, mant, exp, view⟩ := Number.isFinite_iff.1 finite
  simp only [Literal.bare, Literal.number.injEq] at same
  by_cases hx : (x == 0.0) = true
  · have hy : (y == 0.0) = true := by
      by_contra hy
      rw [if_neg hy, if_pos hx] at same
      exact hy (same ▸ Number.zero_beq_zero)
    obtain ⟨_, vx⟩ := Number.view_of_beq_zero hx
    obtain ⟨_, vy⟩ := Number.view_of_beq_zero hy
    exact Number.beq_of_view_zero vy vx
  · have hy : ¬ (y == 0.0) = true := by
      intro hy
      rw [if_pos hy, if_neg hx] at same
      exact hx (same ▸ Number.zero_beq_zero)
    rw [if_neg hx, if_neg hy] at same
    rw [same]
    exact Number.beq_of_view_eq view view

/-- A number below zero is read as the negation of its magnitude. -/
theorem neg_beq_of_bare {x y : Float} (finite : x.isFinite = true) (signed : (Literal.number x).isSigned = true)
    (same : (Literal.number y).bare = (Literal.number (-x)).bare) : (-y == x) = true := by
  obtain ⟨negative, mant, exp, view⟩ := Number.isFinite_iff.1 finite
  have view' := Number.view_neg view
  have nonzero : ¬ (-x == 0.0) = true := by
    intro hx
    obtain ⟨_, vx⟩ := Number.view_of_beq_zero hx
    rw [view'] at vx
    cases vx
    have zero : (x == 0.0) = true := Number.beq_of_view_zero view Number.view_zero
    simp [Literal.isSigned, bne, zero] at signed
  simp only [Literal.bare, Literal.number.injEq, if_neg nonzero] at same
  have hy : ¬ (y == 0.0) = true := by
    intro hy
    rw [if_pos hy] at same
    exact nonzero (same ▸ Number.zero_beq_zero)
  rw [if_neg hy] at same
  have back := Number.view_neg view'
  rw [Bool.not_not] at back
  rw [same]
  exact Number.beq_of_view_eq back view

theorem readsBack_number {x : Float} (finite : x.isFinite = true) : ReadsBack (.number x) := by
  by_cases signed : (Literal.number x).isSigned = true
  · intro host fuel env e s read enough
    obtain ⟨fuel, rfl⟩ : ∃ n, fuel = n + 2 := ⟨fuel - 2, by omega⟩
    rw [Datum.tree, numberTree, if_pos signed] at read
    obtain ⟨span, operand, rfl, inner⟩ := eq_unary_of_bare read
    obtain ⟨span', l, rfl, same⟩ := eq_literal_of_bare inner
    cases l with
    | number y =>
      exact Yields.pure fun h => ⟨.number (-y), rfl, neg_beq_of_bare finite signed same⟩
    | _ => cases same
  · have tree : (Datum.number x).tree = .literal nowhere (.number x) := by rw [Datum.tree, numberTree, if_neg signed]
    refine readsBack_literal tree fun l' same h => ?_
    cases l' with
    | number y => exact ⟨.number y, rfl, beq_of_bare finite same⟩
    | _ => cases same

/-! ### Containers -/

theorem Shows.items {h : Heap} {vs : List Value} {ds : List Datum} (all : List.Forall₂ (Shows h) vs ds) :
    ∃ es, h.UnfoldsItems vs es ∧ Datum.sameItems es ds = true := by
  induction all with
  | nil => exact ⟨[], trivial, rfl⟩
  | cons first _ ih =>
    obtain ⟨e, unfolds, same⟩ := first
    obtain ⟨es, items, sames⟩ := ih
    exact ⟨e :: es, ⟨unfolds, items⟩, by rw [Datum.sameItems, same, sames]; rfl⟩

theorem Shows.fields {h : Heap} {r : Record Value} {fs : List (String × Datum)}
    (all : List.Forall₂ (fun x f => x.1 = f.1 ∧ Shows h x.2 f.2) r fs) :
    ∃ gs, h.UnfoldsFields r gs ∧ Datum.sameFields gs fs = true := by
  induction all with
  | nil => exact ⟨[], trivial, rfl⟩
  | @cons x f r fs first _ ih =>
    obtain ⟨key, v⟩ := x
    obtain ⟨rfl, e, unfolds, same⟩ := first
    obtain ⟨gs, fields, sames⟩ := ih
    exact ⟨(f.1, e) :: gs, ⟨rfl, unfolds, fields⟩, by rw [Datum.sameFields, same, sames]; simp⟩

theorem Yields.args {host : Host} {fuel : Nat} {env : Env} {es : List Expr} {ds : List Datum}
    (read : List.Forall₂ (fun e d => e.bare = d.tree.bare) es ds) (each : ∀ d ∈ ds, ReadsBack d)
    (enough : ∀ d ∈ ds, d.depth + 2 ≤ fuel) (s : State) :
    Yields s (es.mapM (evalExpr host fuel env)) fun h vs => List.Forall₂ (Shows h) vs ds := by
  induction read generalizing s with
  | nil => exact Yields.pure fun _ => .nil
  | cons first _ ih =>
    rw [List.forall_mem_cons] at each enough
    rw [List.mapM_cons]
    refine (each.1 host fuel env _ s first enough.1).bind fun v t => ?_
    refine (ih each.2 enough.2 t).bind fun vs u => ?_
    exact Yields.pure fun h rest shown => .cons shown rest

theorem Yields.props {host : Host} {fuel : Nat} {env : Env} {ps : List Property} {fs : List (String × Datum)}
    (read : List.Forall₂ (fun (p : Property) f => p.key = .named f.1 ∧ p.value.bare = f.2.tree.bare) ps fs)
    (each : ∀ f ∈ fs, ReadsBack f.2) (enough : ∀ f ∈ fs, f.2.depth + 2 ≤ fuel) (fields : Record Value)
    (distinct : (fields.names ++ fs.map (·.1)).Nodup) (s : State) :
    Yields s (evalProps (evaluator host fuel) env fields ps) fun h r =>
      ∃ more, r = fields ++ more ∧ List.Forall₂ (fun x f => x.1 = f.1 ∧ Shows h x.2 f.2) more fs := by
  induction read generalizing fields s with
  | nil => exact Yields.pure fun _ => ⟨[], (List.append_nil fields).symm, .nil⟩
  | @cons p f ps fs first _ ih =>
    obtain ⟨key, value⟩ := p
    obtain ⟨rfl, read⟩ : key = .named f.1 ∧ value.bare = f.2.tree.bare := first
    rw [List.forall_mem_cons] at each enough
    have new : f.1 ∉ fields.names := fun inside =>
      (List.nodup_append.1 distinct).2.2 _ inside _ List.mem_cons_self rfl
    rw [evalProps, evalKey, pure_bind]
    refine (each.1 host fuel env value s read enough.1).bind fun v t => ?_
    rw [Record.put_of_notMem v new]
    have distinct' : (Record.names (fields ++ [(f.1, v)]) ++ fs.map (·.1)).Nodup := by
      simpa [Record.names] using distinct
    obtain ⟨r, u, run, grows, frames, depth, holds⟩ := ih each.2 enough.2 (fields ++ [(f.1, v)]) distinct' t
    refine ⟨r, u, run, grows, frames, depth, fun h more shown => ?_⟩
    obtain ⟨rest, rfl, shows⟩ := holds h more
    exact ⟨(f.1, v) :: rest, by simp, .cons ⟨rfl, shown⟩ shows⟩

theorem readsBack_array {ds : List Datum} (each : ∀ d ∈ ds, ReadsBack d) : ReadsBack (.array ds) := by
  intro host fuel env e s read enough
  obtain ⟨fuel, rfl⟩ : ∃ n, fuel = n + 1 := ⟨fuel - 1, by omega⟩
  obtain ⟨span, es, rfl, items⟩ := eq_array_of_bare read
  have inner : ∀ d ∈ ds, d.depth + 2 ≤ fuel := fun d hd => by
    have := (Datum.depth_array_le ds (n := fuel - 2)).1 (by omega) d hd
    have : 0 < (Datum.array ds).depth := by rw [Datum.depth]; omega
    omega
  refine (Yields.args items each inner s).bind fun vs t => ?_
  obtain ⟨v, u, run, grows, frames, depth, holds⟩ := Yields.newArray vs (s := t)
  refine ⟨v, u, run, grows, frames, depth, fun h more shows => ?_⟩
  obtain ⟨ref, rfl, contents⟩ := holds h more
  obtain ⟨es, unfolds, same⟩ := Shows.items shows
  exact ⟨.array es, ⟨ref, rfl, contents ▸ unfolds⟩, same⟩

theorem readsBack_object {fs : List (String × Datum)} (each : ∀ f ∈ fs, ReadsBack f.2)
    (distinct : (fs.map (·.1)).Nodup) : ReadsBack (.object fs) := by
  intro host fuel env e s read enough
  obtain ⟨fuel, rfl⟩ : ∃ n, fuel = n + 1 := ⟨fuel - 1, by omega⟩
  obtain ⟨span, ps, rfl, fields⟩ := eq_object_of_bare read
  have inner : ∀ f ∈ fs, f.2.depth + 2 ≤ fuel := fun f hf => by
    have := (Datum.depth_object_le fs (n := fuel - 2)).1 (by omega) f hf
    have : 0 < (Datum.object fs).depth := by rw [Datum.depth]; omega
    omega
  refine (Yields.props fields each inner [] (by simpa [Record.names] using distinct) s).bind fun r t => ?_
  obtain ⟨v, u, run, grows, frames, depth, holds⟩ := Yields.newObject r (s := t)
  refine ⟨v, u, run, grows, frames, depth, ?_⟩
  rintro h more ⟨r, rfl, shows⟩
  obtain ⟨ref, rfl, contents⟩ := holds h more
  obtain ⟨gs, unfolds, same⟩ := Shows.fields shows
  have names : Record.names r = fs.map (·.1) := Heap.names_eq_of_forall₂ shows
  refine ⟨.object gs, ⟨ref, rfl, ?_, ?_⟩, same⟩
  · rw [contents]
    exact names ▸ distinct
  · rw [contents]
    exact unfolds

/-- **Evaluating the tree of what is left of a value builds it.** -/
theorem readsBack_normal {h : Heap} (d : Datum) : ∀ v, h.Unfolds v d → ReadsBack d.normal := by
  induction d with
  | undefined | function _ => exact fun _ _ => readsBack_undefined
  | null => exact fun _ _ => readsBack_null
  | bool b => exact fun _ _ => readsBack_bool b
  | string t => exact fun _ _ => readsBack_string t
  | number x =>
    intro _ _
    rw [Datum.normal]
    split
    · exact readsBack_number ‹_›
    · exact readsBack_null
  | array ds ih =>
    rintro _ ⟨ref, rfl, items⟩
    have partner := exists_of_forall₂ (List.Forall₂.flip (Heap.unfoldsItems_iff.1 items))
    rw [Datum.normal, Datum.normalItems_eq]
    refine readsBack_array (List.forall_mem_map.2 fun d hd => ?_)
    split
    · exact readsBack_null
    · obtain ⟨v, -, unfolds⟩ := partner d hd
      exact ih d hd v unfolds
  | object fs ih =>
    rintro _ ⟨ref, rfl, distinct, fields⟩
    have fields := Heap.unfoldsFields_iff.1 fields
    have partner := exists_of_forall₂ (List.Forall₂.flip fields)
    rw [Heap.names_eq_of_forall₂ fields] at distinct
    rw [Datum.normal]
    refine readsBack_object ?_ (distinct.sublist (Datum.names_normalFields fs))
    rw [Datum.normalFields_eq]
    intro g hg
    obtain ⟨f, hf, kept⟩ := List.mem_filterMap.1 hg
    obtain ⟨x, -, -, unfolds⟩ := partner f hf
    split at kept
    · cases kept
    · cases kept
      exact ih f hf x.2 unfolds

/-! ### The code of a value -/

/-- What is left of a value is written as a phrase for its tree. -/
theorem written_of_unfolds {h : Heap} {v : Value} {d : Datum} (unfolds : h.Unfolds v d) (data : h.IsData v)
    (shallow : d.depth ≤ h.arrays.size + h.objects.size + 1) :
    ∃ code, written h v = .ok code ∧ Writes (Phrase .assignment d.normal.tree) code.toList := by
  have agrees := agrees_treeOf h (h.arrays.size + h.objects.size + 2) [] v
  rw [treeOf_of_unfolds d _ [] v unfolds (by omega) data nofun] at agrees
  obtain ⟨code, found, spelled⟩ := agrees
  by_cases omitted : d.isOmitted = true
  · rw [if_pos omitted] at spelled
    have tree : d.normal.tree = .literal nowhere .undefined := by cases d <;> first | rfl | cases omitted
    cases code with
    | none => exact ⟨"undefined", by rw [written, found]; rfl, tree ▸ (Spelled.undefined (v := v)).item⟩
    | some code => cases spelled
  · rw [if_neg omitted] at spelled
    cases code with
    | none => cases spelled
    | some code => exact ⟨code, by rw [written, found]; rfl, spelled.item⟩

/-- The program that gives a name to a value and then has it as its result. -/
def readBackTree (e : Expr) : List Stmt := [declarationTree .const "x" e, .expr nowhere (.ident nowhere "x")]

theorem parses_readBack {e : Expr} {code : String} (h : Writes (Phrase .assignment e) code.toList) :
    ∃ read, parseProgram ("const x = " ++ code ++ "; x;") = .ok read
      ∧ read.map Stmt.bare = (readBackTree e).map Stmt.bare := by
  have name : isName "x" = true := by decide
  have first := (Writes.declaration .const name h).oneStatement
  have start : Writes (StartPhrase (.ident nowhere "x")) "x".toList := ⟨_, .name name, .ident, rfl⟩
  have second := (start.exprStmt (s := nowhere)).space.oneStatement
  apply parseProgram_of_writes
  simpa [readBackTree, DeclKind.text] using first.statements_append second

theorem eq_readBack_of_bare {read : List Stmt} {e : Expr} (h : read.map Stmt.bare = (readBackTree e).map Stmt.bare) :
    ∃ s₁ s₂ s₃ e', read = [.decl ⟨s₁, .const, [⟨.name "x", some e'⟩]⟩, .expr s₂ (.ident s₃ "x")] ∧ e'.bare = e.bare := by
  obtain ⟨first, second, rfl⟩ : ∃ a b, read = [a, b] := by
    simpa [readBackTree] using List.length_eq_two.1 (by simpa [readBackTree] using congrArg List.length h)
  obtain ⟨h₁, h₂⟩ : first.bare = (declarationTree .const "x" e).bare
      ∧ second.bare = (Stmt.expr nowhere (.ident nowhere "x")).bare := by simpa [readBackTree] using h
  cases first with
  | decl d =>
    obtain ⟨s₁, kind, ds⟩ := d
    obtain ⟨rfl, sameDs⟩ : kind = .const ∧ ds.map Declarator.bare = [⟨.name "x", some e.bare⟩] := by
      simpa [Stmt.bare, VarDecl.bare, declarationTree, Declarator.bare] using h₁
    obtain ⟨d, rfl, sameD⟩ := List.map_eq_singleton_iff.1 sameDs
    obtain ⟨pattern, init⟩ := d
    obtain ⟨rfl, sameInit⟩ : pattern = .name "x" ∧ init.map Expr.bare = some e.bare := by
      simpa [Declarator.bare] using sameD
    obtain ⟨e', rfl, same⟩ := Option.map_eq_some_iff.1 sameInit
    cases second with
    | expr s₂ last =>
      have sameLast : last.bare = .ident nowhere "x" := by simpa [Stmt.bare, Expr.bare] using h₂
      cases last with
      | ident s₃ n =>
        obtain rfl : n = "x" := by simpa [Expr.bare] using sameLast
        exact ⟨s₁, s₂, s₃, e', rfl, same⟩
      | _ => simp [Expr.bare] at sameLast
    | _ => simp [Stmt.bare] at h₂
  | _ => simp [Stmt.bare, declarationTree] at h₁

/-- A run of the program gives what evaluating the expression gives. -/
theorem run_readBack {d : Datum} (builds : ReadsBack d) {e : Expr} (read : e.bare = d.tree.bare) {s₁ s₂ s₃ : Span}
    (host : Host) {fuel : Nat} (enough : d.depth + 3 ≤ fuel) (s : State) :
    ∃ w s', runFresh host fuel [.decl ⟨s₁, .const, [⟨.name "x", some e⟩]⟩, .expr s₂ (.ident s₃ "x")] s = .ok w s'
      ∧ s.toHeap.Extends s'.toHeap ∧ ∀ h, s'.toHeap.Extends h → Shows h w d := by
  obtain ⟨fuel, rfl⟩ : ∃ n, fuel = n + 1 := ⟨fuel - 1, by omega⟩
  let h := s.toHeap.globals.2.child s.toHeap.globals.1
  let start : State := { h.2 with depth := 0 }
  obtain ⟨w, t, run, grows, frames, -, shows⟩ := builds host fuel h.1 e start read (by omega)
  let last : State := { t.toHeap.declare h.1 "x" w false with depth := t.depth }
  have kept : t.toHeap.Extends last.toHeap := t.toHeap.extends_declare h.1 "x" w false
  have inside : s.toHeap.globals.2.frames.size < t.frames.size := by
    rw [frames]
    simp [start, h, Heap.child]
  have declared : execStmt host (fuel + 1) h.1 (.decl ⟨s₁, .const, [⟨.name "x", some e⟩]⟩) start
      = .ok (.normal none) last := by
    refine bind_eq_ok.2 ⟨(), last, ?_, rfl⟩
    exact bind_eq_ok.2 ⟨w, t, run, rfl⟩
  have found : last.toHeap.lookup? h.1 "x" = some w := Heap.lookup?_declare_self inside
  have looked : evalExpr host fuel h.1 (.ident s₃ "x") last = .ok w last := by
    obtain ⟨fuel, rfl⟩ : ∃ n, fuel = n + 1 := ⟨fuel - 1, by omega⟩
    refine bind_eq_ok.2 ⟨last.toHeap, last, rfl, ?_⟩
    simp only [found]
    rfl
  have named : execStmt host (fuel + 1) h.1 (.expr s₂ (.ident s₃ "x")) last = .ok (.normal (some w)) last :=
    bind_eq_ok.2 ⟨w, last, looked, rfl⟩
  have runs : (freshGlobals >>= fun globals => runProgram host (fuel + 1) globals
      [.decl ⟨s₁, .const, [⟨.name "x", some e⟩]⟩, .expr s₂ (.ident s₃ "x")]) { s with depth := 0 } = .ok w last := by
    refine bind_eq_ok.2 ⟨s.toHeap.globals.1, { s.toHeap.globals.2 with depth := 0 }, rfl, ?_⟩
    refine bind_eq_ok.2 ⟨h.1, start, rfl, ?_⟩
    refine bind_eq_ok.2 ⟨.normal (some w), last, ?_, rfl⟩
    refine bind_eq_ok.2 ⟨(), start, rfl, ?_⟩
    refine bind_eq_ok.2 ⟨.normal none, last, declared, ?_⟩
    exact bind_eq_ok.2 ⟨.normal (some w), last, named, rfl⟩
  refine ⟨w, { last with depth := s.depth }, by simp only [runFresh, runs], ?_, ?_⟩
  · have opened : s.toHeap.Extends start.toHeap :=
      s.toHeap.extends_globals.trans (Heap.extends_child _ s.toHeap.globals.1)
    exact opened.trans (grows.trans kept)
  · intro h' more
    exact shows h' (kept.trans more)

/-- **Serialised values evaluate back to themselves.** -/
theorem written_reads_back {s : State} {v : Value} (data : s.toHeap.IsData v) :
    ∃ d code body, s.toHeap.Unfolds v d ∧ written s.toHeap v = .ok code
      ∧ parseProgram ("const x = " ++ code ++ "; x;") = .ok body
      ∧ ∀ (host : Host) (fuel : Nat), s.arrays.size + s.objects.size + 4 ≤ fuel →
        ∃ w s', runFresh host fuel body s = .ok w s' ∧ s.toHeap.Extends s'.toHeap ∧ Shows s'.toHeap w d.normal
          ∧ ∀ h u, s'.toHeap.Extends h → h.Unfolds u d.normal → h.same w u = true := by
  obtain ⟨d, unfolds, shallow⟩ := data.unfolds
  obtain ⟨code, writes, phrase⟩ := written_of_unfolds unfolds data shallow
  obtain ⟨body, parses, same⟩ := parses_readBack phrase
  obtain ⟨s₁, s₂, s₃, e, rfl, read⟩ := eq_readBack_of_bare same
  have builds := readsBack_normal d v unfolds
  have shallow : d.normal.depth ≤ s.arrays.size + s.objects.size + 1 := d.depth_normal_le shallow
  refine ⟨d, code, _, unfolds, writes, parses, fun host fuel enough => ?_⟩
  obtain ⟨w, s', run, grows, shows⟩ := run_readBack builds read host (show _ ≤ fuel by omega) s
  refine ⟨w, s', run, grows, shows _ (.of_eq rfl rfl), fun h u more hu => ?_⟩
  obtain ⟨e, he, equal⟩ := shows h more
  have arrays := (grows.trans more).arrays.length_le
  have objects := (grows.trans more).objects.length_le
  simp only [Array.length_toList] at arrays objects
  exact Heap.same_of_unfolds he hu equal (by omega)

/-- An object with an array, a function and an empty object in it. -/
def mixedHeap : Heap where
  arrays := #[#[.number (-2.0), .undefined, .number Number.infinity, .string "\"\n"]]
  objects := #[[("b", .array 0), ("f", .function 0), ("a", .object 1)], []]

/-- The object with all its contents. -/
def mixedDatum : Datum :=
  .object [("b", .array [.number (-2.0), .undefined, .number Number.infinity, .string "\"\n"]),
    ("f", .function 0), ("a", .object [])]

/-- What is left of the object in writing. -/
def mixedNormal : Datum :=
  .object [("b", .array [.number (-2.0), .null, .null, .string "\"\n"]), ("a", .object [])]

/-- The code of the object. -/
def mixedCode : String := "\x7b\"b\":[-2,null,null,\"\\\"\\n\"],\"a\":\x7b\x7d\x7d"

theorem isData_mixed : mixedHeap.IsData (.object 0) := by
  have scalar : ∀ {v : Value}, v.isPlain = true → mixedHeap.contents v = [] → (∀ ref, v = .object ref → ref = 1) →
      mixedHeap.IsData v := by
    intro v plain empty other
    refine .of_contents plain ?_ (by simp [empty])
    rintro ref rfl
    rw [other ref rfl]
    exact .nil
  refine .of_contents rfl ?_ ?_
  · rintro _ ⟨⟩
    decide
  · show ∀ w ∈ [Value.array 0, .function 0, .object 1], mixedHeap.IsData w
    simp only [List.forall_mem_cons, List.not_mem_nil, false_implies, implies_true, and_true]
    refine ⟨.of_contents rfl nofun ?_, scalar rfl rfl nofun, scalar rfl rfl (by rintro _ ⟨⟩; rfl)⟩
    show ∀ w ∈ [Value.number (-2.0), .undefined, .number Number.infinity, .string "\"\n"], mixedHeap.IsData w
    simp only [List.forall_mem_cons, List.not_mem_nil, false_implies, implies_true, and_true]
    exact ⟨scalar rfl rfl nofun, scalar rfl rfl nofun, scalar rfl rfl nofun, scalar rfl rfl nofun⟩

theorem unfolds_mixed : mixedHeap.Unfolds (.object 0) mixedDatum :=
  ⟨0, rfl, by decide, rfl, ⟨0, rfl, rfl, rfl, rfl, rfl, trivial⟩, rfl, rfl, rfl, ⟨1, rfl, .nil, trivial⟩, trivial⟩

theorem normal_mixed : mixedDatum.normal = mixedNormal := by
  have finite : (-2.0 : Float).isFinite = true := by decide
  have infinite : Number.infinity.isFinite = false := by decide
  simp [mixedDatum, mixedNormal, Datum.normal, Datum.normalFields, Datum.normalItems, Datum.isOmitted, finite, infinite]

/-- Items that cannot be written become `null`, and the function is gone. -/
theorem mixed_reads_back : mixedHeap.IsData (.object 0)
    ∧ written mixedHeap (.object 0) = .ok mixedCode
    ∧ ∃ body, parseProgram ("const x = " ++ mixedCode ++ "; x;") = .ok body
      ∧ ∀ (host : Host) (fuel : Nat), 7 ≤ fuel → ∃ w s', runFresh host fuel body { mixedHeap with } = .ok w s'
        ∧ Shows s'.toHeap w mixedNormal
        ∧ ∀ h u, s'.toHeap.Extends h → h.Unfolds u mixedNormal → h.same w u = true := by
  obtain ⟨d, code, body, unfolds, writes, parses, runs⟩ :=
    written_reads_back (s := { mixedHeap with }) (v := .object 0) isData_mixed
  obtain rfl : mixedDatum = d := Heap.unfolds_unique _ _ _ unfolds_mixed unfolds
  have text : (written mixedHeap (.object 0)).toOption = some mixedCode := by decide +kernel
  obtain rfl : code = mixedCode := by simpa [writes, Except.toOption] using text
  refine ⟨isData_mixed, writes, body, parses, fun host fuel enough => ?_⟩
  obtain ⟨w, s', run, -, shows, equal⟩ := runs host fuel enough
  exact ⟨w, s', run, normal_mixed ▸ shows, normal_mixed ▸ equal⟩

end Staging.Template
