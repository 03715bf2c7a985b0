import Staging.Proofs.Number.Model
import Staging.Proofs.Source.StmtText
import Staging.Proofs.Template.Specialize

/-!
The code for a value is a way to write its tree.

`codeOf` and `treeOf` go through a value in the same way. `Spelled v e code` says what the one has to do with
the other: the code is a phrase for the tree, as strong as the tree is, and it begins with a minus sign or a
brace only where the tree has one in front. Main statement: `agrees_treeOf`.
-/

namespace Staging.Template

open Script

/-! ### Two computations side by side -/

/-- What the second computation gives is related to what the first one gives; both fail in the same way. -/
def Agrees {α β : Type} (x : Except Obstacle α) (y : Except TypeFault β) (R : α → β → Prop) : Prop :=
  match x with
  | .ok a => ∃ b, y = .ok b ∧ R a b
  | .error o => ∀ halt ∈ o.halt?, ∃ fault, halt = .refused (.runtime (.type fault)) ∧ y = .error fault

namespace Agrees

variable {α β γ δ : Type} {R : α → β → Prop} {S : γ → δ → Prop}

theorem ok {a : α} {b : β} (h : R a b) : Agrees (.ok a) (.ok b) R := ⟨b, rfl, h⟩

theorem fault (f : TypeFault) : Agrees (.error (.fault (.error (.type f)))) (.error f) R := by
  rintro _ ⟨⟩
  exact ⟨f, rfl, rfl⟩

theorem bind {x : Except Obstacle α} {y : Except TypeFault β} {f : α → Except Obstacle γ}
    {g : β → Except TypeFault δ} (h : Agrees x y R) (h' : ∀ a b, R a b → Agrees (f a) (g b) S) :
    Agrees (x >>= f) (y >>= g) S := by
  match x with
  | .ok a =>
    obtain ⟨b, rfl, hab⟩ := h
    exact h' a b hab
  | .error o =>
    intro halt ho
    obtain ⟨fault, rfl, rfl⟩ := h halt ho
    exact ⟨fault, rfl, rfl⟩

theorem mono {x : Except Obstacle α} {y : Except TypeFault β} {R' : α → β → Prop} (h : Agrees x y R)
    (hR : ∀ a b, R a b → R' a b) : Agrees x y R' := by
  have := h.bind (f := pure) (g := pure) fun a b hab => ok (hR a b hab)
  rwa [bind_pure, bind_pure] at this

theorem mapM {ι : Type} {f : ι → Except Obstacle α} {g : ι → Except TypeFault β}
    (h : ∀ i, Agrees (f i) (g i) R) : ∀ is : List ι, Agrees (is.mapM f) (is.mapM g) (List.Forall₂ R)
  | [] => ok .nil
  | i :: is => by
    simp only [List.mapM_cons]
    exact (h i).bind fun a b hab => (mapM h is).bind fun as bs hs => ok (.cons hab hs)

end Agrees

theorem agrees_entering (path : List Container) (c : Container) :
    Agrees (entering path c) (enter path c) fun p q => p = q := by
  unfold entering enter
  split
  · exact .fault .circular
  · exact .ok rfl

/-! ### Spellings -/

/-- The code is a way to write the tree of the value. -/
structure Spelled (v : Value) (e : Expr) (code : String) : Prop where
  phrase : Writes (Phrase e.precedence e) code.toList
  /-- A tree that binds less tightly than an access has a minus sign in front. -/
  strength : e.precedence = .unary ∧ code.startsWith "-" = true ∨ .call ≤ e.precedence ∧ e.leadingSign? = none
  number : e.isNumber = true → ∃ x, v = .number x
  begins : ∀ c, code.toList.head? = some c → isGap c = false
  leftmost : ∀ s f, e.leftmost ≠ .function s f

namespace Spelled

/-- Values without a minus sign. -/
theorem plain {v : Value} {e : Expr} {code : String} (phrase : Writes (Phrase e.precedence e) code.toList)
    (strong : .call ≤ e.precedence) (unsigned : e.leadingSign? = none) (number : e.isNumber = true → ∃ x, v = .number x)
    (begins : ∀ c, code.toList.head? = some c → isGap c = false) (leftmost : ∀ s f, e.leftmost ≠ .function s f) :
    Spelled v e code :=
  ⟨phrase, .inr ⟨strong, unsigned⟩, number, begins, leftmost⟩

theorem text_begins {x : Float} (h : Number.isUnsigned x = true) :
    ∀ c, (Number.text x).toList.head? = some c → isGap c = false := by
  intro c hc
  obtain ⟨d, ds, hd, digit⟩ := (Number.numeral_text h).head
  rw [hd] at hc
  cases hc
  exact (not_isGap_of_isDigit digit).1

theorem unsignedNumber {v : Value} {x : Float} (h : Number.isUnsigned x = true) (hv : ∃ x, v = .number x) :
    Spelled v (.literal nowhere (.number x)) (Number.text x) := by
  have unsigned := Number.isSigned_eq_false h
  refine .plain (.literal h) ?_ ?_ (fun _ => hv) (text_begins h) nofun
  · simp only [Expr.precedence, unsigned]
    decide
  · simp [Expr.leadingSign?, unsigned]

/-- A number below zero is written with the text of its magnitude after the sign. -/
theorem text_of_negative {x : Float} {mant : Nat} {exp : Int} (h : Number.view x = .finite true mant exp)
    (nonzero : mant ≠ 0) : Number.text x = "-" ++ Number.text (-x) := by
  have view := Number.view_neg h
  rw [Number.text_eq view (by simp)]
  simp [Number.text, Number.render, h, nonzero, Number.scriptSpelling]

theorem finite (x : Float) (h : x.isFinite = true) : Spelled (.number x) (numberTree x) (Number.text x) := by
  obtain ⟨negative, mant, exp, view⟩ := Number.isFinite_iff.1 h
  by_cases unsigned : Number.isUnsigned x = true
  · have tree : numberTree x = .literal nowhere (.number x) := by
      simp [numberTree, Number.isSigned_eq_false unsigned]
    rw [tree]
    exact unsignedNumber unsigned ⟨x, rfl⟩
  · obtain ⟨rfl, nonzero⟩ : negative = true ∧ mant ≠ 0 := by
      simpa [Number.isUnsigned, view] using unsigned
    have magnitude : Number.isUnsigned (-x) = true := by
      simp [Number.isUnsigned, Number.view_neg view]
    have zero : (x == 0.0) = false := by
      by_contra zero
      obtain ⟨_, view'⟩ := Number.view_of_beq_zero (by simpa using zero)
      rw [view] at view'
      cases view'
      exact nonzero rfl
    have tree : numberTree x = .unary nowhere .neg (.literal nowhere (.number (-x))) := by
      have : (x != 0.0) = true := by rw [bne, zero]; rfl
      simp [numberTree, Literal.isSigned, Number.isNegative_eq view, this]
    have text := text_of_negative view nonzero
    have operand : Writes (Phrase .unary (.literal nowhere (.number (-x)))) (Number.text (-x)).toList :=
      .literal magnitude
    have meets : UnaryOp.neg.token.Meets (Number.text (-x)).toList := by
      obtain ⟨ts, hl, hg⟩ := operand
      refine hg.meets hl (by decide) ?_
      simp [needsSpace, Expr.leadingSign?, Number.isSigned_eq_false magnitude]
    rw [tree, text]
    refine ⟨?_, .inl ⟨rfl, by simp⟩, by simp [Expr.isNumber], ?_, by simp [Expr.leftmost]⟩
    · simpa [Expr.precedence, UnaryOp.text] using operand.unary (s := nowhere) (Precedence.le_refl _) meets
    · intro c hc
      simp only [String.toList_append] at hc
      cases hc
      decide

theorem null : Spelled v (.literal nowhere .null) "null" := by
  refine .plain (.literal rfl) (by decide) rfl (by simp [Expr.isNumber]) ?_ nofun
  rintro c ⟨⟩
  decide

theorem undefined : Spelled v (.literal nowhere .undefined) "undefined" := by
  refine .plain (.literal rfl) (by decide) rfl (by simp [Expr.isNumber]) ?_ nofun
  rintro c ⟨⟩
  decide

theorem bool (b : Bool) : Spelled v (.literal nowhere (.bool b)) (if b then "true" else "false") := by
  refine .plain (.literal rfl) (by cases b <;> decide) rfl (by simp [Expr.isNumber]) ?_ nofun
  cases b <;> rintro c ⟨⟩ <;> decide

theorem string (s : String) : Spelled v (.literal nowhere (.string s)) (Text.Quoted.encode s) := by
  refine .plain .quoted (show Precedence.call ≤ .primary by decide) rfl (by simp [Expr.isNumber]) ?_ nofun
  intro c hc
  rw [Text.Quoted.toList_encode] at hc
  cases hc
  decide

theorem date (t : Instant) : Spelled v (dateTree t) ("new Date(" ++ Text.Quoted.encode t.text ++ ")") := by
  have argument : Writes (Items (Phrase .assignment) [.literal nowhere (.string t.text)])
      ([','].intercalate [(Text.Quoted.encode t.text).toList]) :=
    .items (.inl rfl) (.cons .quoted .nil)
  have callee : Writes (CalleePhrase (.ident nowhere "Date")) "Date".toList :=
    (Writes.ident (s := nowhere) (by decide +kernel)).mono fun _ => .root
  refine .plain ?_ (Precedence.le_refl .call) rfl (by simp [dateTree, Expr.isNumber]) ?_ (by simp [dateTree, Expr.leftmost])
  · simpa [dateTree, Expr.precedence, List.intercalate] using
      Writes.new (s := nowhere) (Precedence.le_refl .call) callee argument
  · intro c hc
    simp only [String.toList_append] at hc
    cases hc
    decide

/-- In a list the code is a phrase. -/
theorem item {v : Value} {e : Expr} {code : String} (h : Spelled v e code) :
    Writes (Phrase .assignment e) code.toList := by
  refine h.phrase.weaken ?_
  rcases h.strength with ⟨weak, -⟩ | ⟨strong, -⟩
  · rw [weak]
    decide
  · exact Precedence.le_trans (by decide) strong

end Spelled

/-! ### Containers -/

/-- The code for an item or a property, if there is any. -/
def Written : Option Expr → Option String → Prop
  | none, none => True
  | some e, some code => Writes (Phrase .assignment e) code.toList
  | _, _ => False

theorem Written.getD : ∀ {e : Option Expr} {code : Option String}, Written e code →
    Writes (Phrase .assignment (e.getD (.literal nowhere .null))) (code.getD "null").toList
  | none, none, _ => (Spelled.null (v := .null)).item
  | some _, some _, h => h

theorem Spelled.array {v : Value} {items : List (Option Expr)} {codes : List (Option String)}
    (h : List.Forall₂ Written items codes) : Spelled v (arrayTree items) (arrayCode codes) := by
  have list : Writes (Items (Phrase .assignment) (items.map (·.getD (.literal nowhere .null))))
      ([','].intercalate (codes.map fun code => (code.getD "null").toList)) := by
    refine .items (.inl rfl) ?_
    rw [List.forall₂_map_left_iff, List.forall₂_map_right_iff]
    exact h.imp fun _ _ => Written.getD
  refine .plain ?_ (show Precedence.call ≤ .primary by decide) rfl (by simp [arrayTree, Expr.isNumber]) ?_
    (by simp [arrayTree, Expr.leftmost])
  · have := list.array (s := nowhere) (p := .primary)
    simpa [arrayTree, arrayCode, Expr.precedence, List.map_map, Function.comp_def] using this
  · intro c hc
    simp only [arrayCode, String.toList_append] at hc
    cases hc
    decide

theorem Writes.fields {fields : List (String × Option Expr)} {codes : List (String × Option String)}
    (h : List.Forall₂ (fun f c => f.1 = c.1 ∧ Written f.2 c.2) fields codes) :
    List.Forall₂ (fun p cs => Writes (PropertyPhrase p) cs)
      (fields.filterMap fun (key, e) => e.map fun e => (⟨.named key, e⟩ : Property))
      ((codes.filterMap fun (key, code) => code.map (Text.Quoted.encode key ++ ":" ++ ·)).map String.toList) := by
  induction h with
  | nil => exact .nil
  | @cons f c fields codes hfc _ ih =>
    obtain ⟨key, e⟩ := f
    obtain ⟨key', code⟩ := c
    obtain ⟨rfl, written⟩ : key = key' ∧ Written e code := hfc
    match e, code, written with
    | none, none, _ => simpa using ih
    | some e, some code, written =>
      have first := (Writes.quotedKey (n := key)).property written
      simpa using List.Forall₂.cons (by simpa using first) ih

theorem Spelled.object {v : Value} {fields : List (String × Option Expr)} {codes : List (String × Option String)}
    (h : List.Forall₂ (fun f c => f.1 = c.1 ∧ Written f.2 c.2) fields codes) :
    Spelled v (objectTree fields) (objectCode codes) := by
  have list := Writes.items (.inl rfl) (Writes.fields h)
  refine .plain ?_ (show Precedence.call ≤ .primary by decide) rfl (by simp [objectTree, Expr.isNumber]) ?_
    (by simp [objectTree, Expr.leftmost])
  · have := list.object (s := nowhere) (p := .primary)
    simpa [objectTree, objectCode, Expr.precedence] using this
  · intro c hc
    simp only [objectCode, String.toList_append] at hc
    cases hc
    decide

/-! ### Values -/

/-- The code for a value, if it has any. -/
def SpelledOption (v : Value) : Option Expr → Option String → Prop
  | none, none => True
  | some e, some code => Spelled v e code
  | _, _ => False

theorem SpelledOption.written {v : Value} : ∀ {e : Option Expr} {code : Option String},
    SpelledOption v e code → Written e code
  | none, none, _ => trivial
  | some _, some _, h => h.item

/-- The tree of a value and its code are found in the same way. -/
theorem agrees_treeOf (h : Heap) : ∀ (fuel : Nat) (path : List Container) (v : Value),
    Agrees (treeOf h fuel path v) (codeOf h fuel path v) (SpelledOption v)
  | _, _, .undefined | _, _, .function _ => by
    unfold treeOf codeOf
    exact .ok trivial
  | _, _, .null => by
    unfold treeOf codeOf
    exact .ok Spelled.null
  | _, _, .bool b => by
    unfold treeOf codeOf
    exact .ok (Spelled.bool b)
  | _, _, .number x => by
    unfold treeOf codeOf
    refine .ok ?_
    split
    · exact Spelled.finite x ‹_›
    · exact Spelled.null
  | _, _, .string s => by
    unfold treeOf codeOf
    exact .ok (Spelled.string s)
  | _, _, .raw _ => by
    unfold treeOf
    exact nofun
  | _, _, .date t => by
    unfold treeOf codeOf
    exact .ok (Spelled.date t)
  | 0, _, .array _ | 0, _, .object _ => by
    unfold treeOf codeOf
    exact .fault .circular
  | fuel + 1, path, .array ref => by
    unfold treeOf codeOf
    refine (agrees_entering path (.array ref)).bind ?_
    rintro path _ rfl
    have item := fun v => (agrees_treeOf h fuel path v).mono fun _ _ => SpelledOption.written
    exact (Agrees.mapM item _).bind fun _ _ hs => .ok (Spelled.array hs)
  | fuel + 1, path, .object ref => by
    unfold treeOf codeOf
    refine (agrees_entering path (.object ref)).bind ?_
    rintro path _ rfl
    have field : ∀ f : String × Value, Agrees (do return (f.1, ← treeOf h fuel path f.2))
        (do return (f.1, ← codeOf h fuel path f.2)) fun a b => a.1 = b.1 ∧ Written a.2 b.2 := fun f =>
      (agrees_treeOf h fuel path f.2).bind fun _ _ hs => .ok ⟨rfl, hs.written⟩
    exact (Agrees.mapM field _).bind fun _ _ hs => .ok (Spelled.object hs)

end Staging.Template
