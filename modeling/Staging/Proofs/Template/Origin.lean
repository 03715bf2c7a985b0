import Staging.Proofs.Template.Walk

/-!
Where the instructions of a program come from.

`Occurs` says that an instruction stands in a program, and in which instructions it is nested. `Reaches`
follows the walk of the compiler from one place to another along the same nesting: into the kept text, the
branches and the rounds. Main statement: `origin_of_compile`. Every instruction that occurs in a
compiled program declares a staged name, or was planned in a place that the walk reaches (`Planned`). What
holds of all instructions of a kind is read off their plans.
-/

namespace Staging.Template

/-! ### Instructions in instructions -/

/--
`Occurs code around i`: the instruction `i` stands in `code`, nested in the instructions `around`,
outermost first.
-/
inductive Occurs : List Instruction → List Instruction → Instruction → Prop
  | here {code : List Instruction} {i : Instruction} (h : i ∈ code) : Occurs code [] i
  | yes {code around yes : List Instruction} {test : Expr} {no : Option (List Instruction)} {i : Instruction}
      (h : .if_ test yes no ∈ code) (inner : Occurs yes around i) :
      Occurs code (.if_ test yes no :: around) i
  | no {code around yes no : List Instruction} {test : Expr} {i : Instruction}
      (h : .if_ test yes (some no) ∈ code) (inner : Occurs no around i) :
      Occurs code (.if_ test yes (some no) :: around) i
  | each {code around body : List Instruction} {label : Option String} {kind : IterKind} {pattern : Pattern}
      {source : Expr} {declare : List String} {i : Instruction}
      (h : .each label kind pattern source declare body ∈ code) (inner : Occurs body around i) :
      Occurs code (.each label kind pattern source declare body :: around) i
  | block {code around body : List Instruction} {i : Instruction} (h : .block body ∈ code)
      (inner : Occurs body around i) : Occurs code (.block body :: around) i

/-- What occurs in a part of the code occurs in the code. -/
theorem Occurs.mono {code code' around : List Instruction} {i : Instruction} (h : Occurs code around i)
    (sub : ∀ j ∈ code, j ∈ code') : Occurs code' around i := by
  cases h with
  | here h => exact .here (sub _ h)
  | yes h inner => exact .yes (sub _ h) inner
  | no h inner => exact .no (sub _ h) inner
  | each h inner => exact .each (sub _ h) inner
  | block h inner => exact .block (sub _ h) inner

/-- What occurs in code occurs in one of its instructions. -/
theorem Occurs.exists_mem {code around : List Instruction} {i : Instruction} (h : Occurs code around i) :
    ∃ j ∈ code, Occurs [j] around i := by
  cases h with
  | here h => exact ⟨_, h, .here (by simp)⟩
  | yes h inner => exact ⟨_, h, .yes (by simp) inner⟩
  | no h inner => exact ⟨_, h, .no (by simp) inner⟩
  | each h inner => exact ⟨_, h, .each (by simp) inner⟩
  | block h inner => exact ⟨_, h, .block (by simp) inner⟩

/-- Whether an instruction has no code of its own inside. -/
def Instruction.isLeaf : Instruction → Bool
  | .literal _ | .inline _ _ _ | .call _ | .jump _ _ => true
  | .if_ _ _ _ | .each _ _ _ _ _ _ | .block _ => false

theorem Occurs.of_isLeaf {around : List Instruction} {i j : Instruction} (leaf : i.isLeaf = true)
    (h : Occurs [i] around j) : around = [] ∧ j = i := by
  cases h with
  | here h => exact ⟨rfl, List.mem_singleton.1 h⟩
  | yes h | no h | each h | block h =>
    obtain rfl := List.mem_singleton.1 h
    cases leaf

/-! ### Instructions of fragments -/

theorem mem_flush {pending : String} {rest : List Instruction} {i : Instruction}
    (h : i ∈ Buffer.flush pending rest) : (∃ t, i = .literal t) ∨ i ∈ rest := by
  unfold Buffer.flush at h
  split at h
  · exact .inr h
  · exact (List.mem_cons.1 h).imp_left fun h => ⟨pending, h⟩

theorem mem_coalesce {pending : String} {fs : List Fragment} {i : Instruction}
    (h : i ∈ Buffer.coalesce pending fs) : (∃ t, i = .literal t) ∨ .code i ∈ fs := by
  induction fs generalizing pending with
  | nil => exact (mem_flush h).imp_right fun h => by simp at h
  | cons f rest ih =>
    cases f with
    | text s => exact (ih h).imp_right fun h => List.mem_cons_of_mem _ h
    | code j =>
      rcases mem_flush h with h | h
      · exact .inl h
      · rcases List.mem_cons.1 h with rfl | h
        · exact .inr (by simp)
        · exact (ih h).imp_right fun h => List.mem_cons_of_mem _ h

/-- An instruction of finished code is a text, or one of the fragments. -/
theorem mem_codeOfFragments {fs : List Fragment} {i : Instruction} (h : i ∈ codeOfFragments fs) :
    (∃ t, i = .literal t) ∨ .code i ∈ fs := mem_coalesce h

/-! ### Places in places -/

/--
`Reaches pl around pl'`: from the place `pl` the walk comes to `pl'`, inside the staged constructs `around`,
outermost first.
-/
inductive Reaches : Place → List Instruction → Place → Prop
  | refl {pl : Place} : Reaches pl [] pl
  | aside {pl pl' : Place} {around : List Instruction} (h : Reaches pl.aside around pl') :
      Reaches pl around pl'
  | inside {pl pl' : Place} {around : List Instruction} (s : Stmt) (h : Reaches (pl.inside s) around pl') :
      Reaches pl around pl'
  | branch {pl pl' : Place} {around yes : List Instruction} {test : Expr} {no : Option (List Instruction)}
      (h : Reaches pl around pl') : Reaches pl (.if_ test yes no :: around) pl'
  | round {pl pl' : Place} {around body : List Instruction} {label : Option String} {kind : IterKind}
      {pattern : Pattern} {source : Expr} {declare : List String}
      (h : Reaches (pl.inRound label pattern.names) around pl') :
      Reaches pl (.each label kind pattern source declare body :: around) pl'
  | braces {pl pl' : Place} {around body : List Instruction} (h : Reaches pl around pl') :
      Reaches pl (.block body :: around) pl'

/-- What the plan of a part in a place says of the instruction for it. -/
inductive Planned (pl : Place) : Instruction → Prop
  | literal (text : String) : Planned pl (.literal text)
  | inline {e : Expr} {min : Precedence} {start : Bool} (plan : planExpr pl.registry e min = .inline) :
      Planned pl (.inline e min start)
  | call {e : Expr} {min : Precedence} (plan : planExpr pl.registry e min = .call) : Planned pl (.call e)
  | branch {s y : Stmt} {n : Option Stmt} {test : Expr} {yes : List Instruction}
      {no : Option (List Instruction)} (plan : pl.plan s = .branch test y n) : Planned pl (.if_ test yes no)
  | each {s b : Stmt} {label : Option String} {kind : IterKind} {pattern : Pattern} {source : Expr}
      {body : List Instruction} (plan : pl.plan s = .unroll label kind pattern source b) :
      Planned pl (.each label kind pattern source (declaredIn pl.registry pattern.names) body)
  | block (body : List Instruction) : Planned pl (.block body)
  | jump {s : Stmt} {j : Jump} {label : String} (plan : pl.plan s = .jump j label) :
      Planned pl (.jump j label)

/-- Every instruction in the code was planned in a place that is reached. -/
def Sourced (pl : Place) (code : List Instruction) : Prop :=
  ∀ around i, Occurs code around i → ∃ pl', Reaches pl around pl' ∧ Planned pl' i

theorem Sourced.of_forall {pl : Place} {code : List Instruction} (h : ∀ i ∈ code, Sourced pl [i]) :
    Sourced pl code := by
  intro around i hi
  obtain ⟨j, hj, hi⟩ := hi.exists_mem
  exact h j hj around i hi

theorem Sourced.leaf {pl : Place} {i : Instruction} (planned : Planned pl i) (leaf : i.isLeaf = true) :
    Sourced pl [i] := by
  intro around j hj
  obtain ⟨rfl, rfl⟩ := hj.of_isLeaf leaf
  exact ⟨pl, .refl, planned⟩

theorem Sourced.literal (pl : Place) (t : String) : Sourced pl [.literal t] := .leaf (.literal t) rfl

theorem Sourced.block {pl : Place} {body : List Instruction} (h : Sourced pl body) :
    Sourced pl [.block body] := by
  intro around i hi
  cases hi with
  | here hi =>
    obtain rfl := List.mem_singleton.1 hi
    exact ⟨pl, .refl, .block body⟩
  | yes hi | no hi | each hi => simp at hi
  | block hi inner =>
    obtain ⟨⟩ := List.mem_singleton.1 hi
    obtain ⟨pl', reach, planned⟩ := h _ _ inner
    exact ⟨pl', .braces reach, planned⟩

theorem Sourced.wrap {pl : Place} {i : Instruction} (h : Sourced pl [i]) : Sourced pl [pl.wrap i] := by
  unfold Place.wrap
  split
  · exact .block h
  · exact h

theorem Sourced.branchCode {pl : Place} {s : Stmt} {code : List Instruction} (h : Sourced pl code) :
    Sourced pl (branchCode s code) := by
  unfold Template.branchCode
  split
  · exact .block h
  · exact h

/-- The instructions of fragments are sourced when those among the fragments are. -/
theorem Sourced.ofFragments {pl : Place} {fs : List Fragment} (h : ∀ i, .code i ∈ fs → Sourced pl [i]) :
    Sourced pl (codeOfFragments fs) := by
  refine .of_forall fun i hi => ?_
  rcases mem_codeOfFragments hi with ⟨t, rfl⟩ | hi
  · exact .literal pl t
  · exact h i hi

theorem Sourced.aside {pl : Place} {code : List Instruction} (h : Sourced pl.aside code) : Sourced pl code := by
  intro around i hi
  obtain ⟨pl', reach, planned⟩ := h around i hi
  exact ⟨pl', .aside reach, planned⟩

theorem Sourced.inside {pl : Place} {s : Stmt} {code : List Instruction} (h : Sourced (pl.inside s) code) :
    Sourced pl code := by
  intro around i hi
  obtain ⟨pl', reach, planned⟩ := h around i hi
  exact ⟨pl', .inside s reach, planned⟩

theorem Sourced.branch {pl : Place} {s y : Stmt} {n : Option Stmt} {test : Expr} {yes : List Instruction}
    {no : Option (List Instruction)} (plan : pl.plan s = .branch test y n) (hyes : Sourced pl yes)
    (hno : ∀ code, no = some code → Sourced pl code) : Sourced pl [.if_ test yes no] := by
  intro around i hi
  cases hi with
  | here hi =>
    obtain rfl := List.mem_singleton.1 hi
    exact ⟨pl, .refl, .branch plan⟩
  | yes hi inner =>
    obtain ⟨⟩ := List.mem_singleton.1 hi
    obtain ⟨pl', reach, planned⟩ := hyes _ _ inner
    exact ⟨pl', .branch reach, planned⟩
  | no hi inner =>
    obtain ⟨⟩ := List.mem_singleton.1 hi
    obtain ⟨pl', reach, planned⟩ := hno _ rfl _ _ inner
    exact ⟨pl', .branch reach, planned⟩
  | each hi | block hi => simp at hi

theorem Sourced.each {pl : Place} {s b : Stmt} {label : Option String} {kind : IterKind} {pattern : Pattern}
    {source : Expr} {body : List Instruction} (plan : pl.plan s = .unroll label kind pattern source b)
    (h : Sourced (pl.inRound label pattern.names) body) :
    Sourced pl [.each label kind pattern source (declaredIn pl.registry pattern.names) body] := by
  intro around i hi
  cases hi with
  | here hi =>
    obtain rfl := List.mem_singleton.1 hi
    exact ⟨pl, .refl, .each plan⟩
  | each hi inner =>
    obtain ⟨⟩ := List.mem_singleton.1 hi
    obtain ⟨pl', reach, planned⟩ := h _ _ inner
    exact ⟨pl', .round reach, planned⟩
  | yes hi | no hi | block hi => simp at hi

theorem not_mem_textFragments {t : String} {i : Instruction} : .code i ∉ textFragments t := by
  unfold textFragments
  split <;> simp

/-- Every fragment was planned in a place that is reached. -/
theorem Emits.sourced {pl : Place} {start start' : Bool} {parts : List Part} {fs : List Fragment}
    (h : Emits pl start parts fs start') : ∀ i, .code i ∈ fs → Sourced pl [i] := by
  induction h with
  | nil => simp
  | text _ rest | pattern _ rest =>
    intro i hi
    exact rest i ((List.mem_append.1 hi).resolve_left not_mem_textFragments)
  | keepExpr _ _ _ inner rest =>
    intro i hi
    rcases List.mem_append.1 hi with hi | hi
    · exact (inner i hi).aside
    · exact rest i hi
  | inline plan _ rest =>
    intro i hi
    rcases List.mem_cons.1 hi with hi | hi
    · obtain ⟨⟩ := hi
      exact .leaf (.inline plan) rfl
    · exact rest i hi
  | call plan _ rest =>
    intro i hi
    rcases List.mem_cons.1 hi with hi | hi
    · obtain ⟨⟩ := hi
      exact .leaf (.call plan) rfl
    · exact rest i hi
  | keepStmt _ _ _ inner rest =>
    intro i hi
    rcases List.mem_append.1 hi with hi | hi
    · exact (inner i hi).inside
    · exact rest i hi
  | branch plan _ _ inner rest =>
    intro i hi
    rcases List.mem_cons.1 hi with hi | hi
    · obtain ⟨⟩ := hi
      exact .wrap (.branch plan (.branchCode (Sourced.ofFragments inner).aside) (by simp))
    · exact rest i hi
  | branchElse plan _ _ _ inner other rest =>
    intro i hi
    rcases List.mem_cons.1 hi with hi | hi
    · obtain ⟨⟩ := hi
      refine .wrap (.branch plan (.branchCode (Sourced.ofFragments inner).aside) ?_)
      rintro _ ⟨⟩
      exact .branchCode (Sourced.ofFragments other).aside
    · exact rest i hi
  | unroll plan _ _ inner rest =>
    intro i hi
    rcases List.mem_cons.1 hi with hi | hi
    · obtain ⟨⟩ := hi
      exact .wrap (.each plan (.ofFragments inner))
    · exact rest i hi
  | jump plan _ rest =>
    intro i hi
    rcases List.mem_cons.1 hi with hi | hi
    · obtain ⟨⟩ := hi
      exact .leaf (.jump plan) rfl
    · exact rest i hi

/-- The declaration of a staged name among the fragments of a preamble. -/
theorem mem_declarationFragments {names : List String} {i : Instruction}
    (h : .code i ∈ names.flatMap declarationFragments) :
    ∃ n ∈ names, i = .inline (.ident ⟨0, 0⟩ n) .lowest false := by
  obtain ⟨n, hn, hi⟩ := List.mem_flatMap.1 h
  exact ⟨n, hn, by simpa [declarationFragments] using hi⟩

/--
Every instruction of a compiled program declares a staged name, or was planned in a place that the walk
reaches from the top.
-/
theorem origin_of_compile {r : Registry} {body : List Stmt} {p : Program} (h : compile r body = .ok p)
    {around : List Instruction} {i : Instruction} (hi : Occurs p.instructions around i) :
    (around = [] ∧ ∃ n ∈ r.declared, i = .inline (.ident ⟨0, 0⟩ n) .lowest false)
      ∨ ∃ pl, Reaches (.top r) around pl ∧ Planned pl i := by
  obtain ⟨fs, start, hfs, rfl⟩ := compile_ok_iff.1 h
  obtain ⟨j, hj, occurs⟩ := hi.exists_mem
  rcases mem_codeOfFragments hj with ⟨t, rfl⟩ | hj
  · exact .inr (Sourced.literal _ t around i occurs)
  · rcases List.mem_append.1 hj with hj | hj
    · obtain ⟨n, hn, rfl⟩ := mem_declarationFragments hj
      obtain ⟨rfl, rfl⟩ := occurs.of_isLeaf rfl
      exact .inl ⟨rfl, n, hn, rfl⟩
    · exact .inr (hfs.sourced j hj around i occurs)

end Staging.Template
