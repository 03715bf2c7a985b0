import Staging.Proofs.Source.Bare
import Staging.Proofs.Template.Walk
import Staging.Template.Generator

/-!
Putting generators together.

Generators in a row can be joined pair by pair in many ways: brackets can stand differently, each join can
compile at once or later, and an intermediate generator can be compiled, listed or run before it is joined on.
`Composition` describes such a way, `Composition.parts` the generators in a row. Main statement:
`result_eq_of_parts`. What comes out depends on the row alone, its body, its names with their order, and what
it builds.

The union of names is associative as it stands, with the order of the names (`Registry.union_assoc`). The
program that a generator keeps is the one compiled from its body (`Generator.Sound`), so it does not matter
when that was done.
-/

namespace Staging

namespace Names

theorem addAll_add (names more : Names) (name : String) :
    names.addAll (more.add name) = (names.addAll more).add name := by
  by_cases h : name ∈ more
  · have there : name ∈ names.addAll more := mem_addAll.2 (.inr h)
    simp only [add, h, there, if_true]
  · rw [add, if_neg h, addAll, List.foldl_append]
    rfl

/-- Adding names in two steps. -/
theorem addAll_assoc (a b : Names) (c : List String) : (a.addAll b).addAll c = a.addAll (b.addAll c) := by
  induction c generalizing b with
  | nil => rfl
  | cons x rest ih =>
    calc (a.addAll b).addAll (x :: rest) = ((a.addAll b).add x).addAll rest := rfl
      _ = (a.addAll (b.add x)).addAll rest := by rw [addAll_add]
      _ = a.addAll ((b.add x).addAll rest) := ih _

end Names

namespace Template

open Script

theorem Registry.union_assoc (a b c : Registry) : (a.union b).union c = a.union (b.union c) := by
  simp only [Registry.union, Names.addAll_assoc, Bool.or_assoc]

/-- The names of registries in a row. -/
def Registry.unionAll (first : Registry) (rest : List Registry) : Registry := rest.foldl union first

theorem Registry.union_unionAll (a b : Registry) (rest : List Registry) :
    a.union (b.unionAll rest) = a.unionAll (b :: rest) := by
  induction rest generalizing b with
  | nil => rfl
  | cons r rest ih =>
    calc a.union (b.unionAll (r :: rest)) = a.union ((b.union r).unionAll rest) := rfl
      _ = a.unionAll (b.union r :: rest) := ih _
      _ = (a.union (b.union r)).unionAll rest := rfl
      _ = ((a.union b).union r).unionAll rest := by rw [union_assoc]
      _ = a.unionAll (b :: r :: rest) := rfl

/-! ### Programs that are kept -/

namespace Generator

/-- A program that is kept is the one that is compiled from the body. -/
def Sound (g : Generator) : Prop := ∀ p, g.program? = some p → compile g.registry g.body = .ok p

theorem Sound.program {g : Generator} (h : g.Sound) : g.program = compile g.registry g.body := by
  unfold Generator.program
  split
  · exact (h _ ‹_›).symm
  · rfl

/-- Compiling leaves the template as it is and keeps its program. -/
theorem compiled_ok {g g' : Generator} (sound : g.Sound) (h : g.compiled = .ok g') :
    g'.body = g.body ∧ g'.registry = g.registry ∧ g'.Sound := by
  rw [compiled, sound.program] at h
  cases hp : compile g.registry g.body with
  | error e => simp [hp, Except.map] at h
  | ok p =>
    obtain rfl : { g with program? := some p } = g' := by simpa [hp, Except.map] using h
    refine ⟨rfl, rfl, ?_⟩
    rintro _ ⟨⟩
    exact hp

theorem sound_of_none {g : Generator} (h : g.program? = none) : g.Sound := by
  simp [Sound, h]

/-- Generators that are made from a function are sound. -/
theorem sound_of_ofFunction {f : FuncSource} {options : Options} {g : Generator}
    (h : ofFunction f options = .ok g) : g.Sound := by
  obtain ⟨r, _, h⟩ := ok_of_bind h
  simp only at h
  split at h
  · obtain rfl := Except.ok.inj h
    exact sound_of_none rfl
  · exact (compiled_ok (sound_of_none rfl) h).2.2

/-- Generators that are made from a source are sound. -/
theorem sound_of_ofSource {source : String} {options : Options} {g : Generator}
    (h : ofSource source options = .ok g) : g.Sound := by
  unfold ofSource at h
  split at h
  · exact sound_of_ofFunction h
  · cases h

/-- The generator after its program was asked for, to compile, to list or to build: it is kept if there is one. -/
def asked (g : Generator) : Generator :=
  match g.compiled with
  | .ok g' => g'
  | .error _ => g

theorem asked_eq {g : Generator} (sound : g.Sound) :
    g.asked.body = g.body ∧ g.asked.registry = g.registry ∧ g.asked.Sound := by
  unfold asked
  split
  · exact compiled_ok sound ‹_›
  · exact ⟨rfl, rfl, sound⟩

/-- What a sound generator builds depends on its template only. -/
theorem build_eq {g g' : Generator} (sound : g.Sound) (sound' : g'.Sound) (body : g.body = g'.body)
    (registry : g.registry = g'.registry) (host : Host) (fuel : Nat) (context : Context) :
    g.build host fuel context = g'.build host fuel context := by
  have program : g.program = g'.program := by rw [sound.program, sound'.program, body, registry]
  simp only [build, program]

end Generator

/-! ### Ways of putting generators together -/

/-- A way of putting generators together. -/
inductive Composition where
  | one (g : Generator)
  | join (a b : Composition)
  | joinDeferred (a b : Composition)
  /-- The program of an intermediate generator is asked for. -/
  | asked (a : Composition)

namespace Composition

/-- The generators in a row. -/
def parts : Composition → List Generator
  | one g => [g]
  | join a b | joinDeferred a b => a.parts ++ b.parts
  | asked a => a.parts

/-- What comes out, if every join that compiles succeeds. -/
def result : Composition → Except StagingError Generator
  | one g => .ok g
  | join a b => do (← a.result).join (← b.result)
  | joinDeferred a b => do return (← a.result).joinDeferred (← b.result)
  | asked a => do return (← a.result).asked

/-- The body and the names that a row of generators has together. -/
structure Joins (gs : List Generator) (g : Generator) : Prop where
  body : g.body = gs.flatMap Generator.body
  registry : ∃ first rest, gs.map Generator.registry = first :: rest ∧ g.registry = first.unionAll rest
  sound : g.Sound

theorem Joins.one {g : Generator} (sound : g.Sound) : Joins [g] g :=
  ⟨by simp, ⟨_, _, rfl, rfl⟩, sound⟩

theorem Joins.append {gs hs : List Generator} {g h : Generator} (hg : Joins gs g) (hh : Joins hs h) :
    Joins (gs ++ hs) (g.joinDeferred h) := by
  obtain ⟨first, rest, names, union⟩ := hg.registry
  obtain ⟨first', rest', names', union'⟩ := hh.registry
  refine ⟨?_, ⟨first, rest ++ first' :: rest', ?_, ?_⟩, Generator.sound_of_none rfl⟩
  · simp only [Generator.joinDeferred, hg.body, hh.body, List.flatMap_append]
  · rw [List.map_append, names, names', List.cons_append]
  · simp only [Generator.joinDeferred, union, union', Registry.union_unionAll]
    exact List.foldl_append.symm

theorem Joins.of_eq {gs : List Generator} {g g' : Generator} (h : Joins gs g)
    (same : g'.body = g.body ∧ g'.registry = g.registry ∧ g'.Sound) : Joins gs g' :=
  ⟨same.1.trans h.body, by rw [same.2.1]; exact h.registry, same.2.2⟩

/-- What comes out has the bodies and the names of the row. -/
theorem joins_of_result {t : Composition} (sound : ∀ g ∈ t.parts, g.Sound) {g : Generator}
    (h : t.result = .ok g) : Joins t.parts g := by
  induction t generalizing g with
  | one g' =>
    obtain rfl := Except.ok.inj h
    exact .one (sound _ List.mem_cons_self)
  | join a b iha ihb =>
    obtain ⟨ga, left, h⟩ := ok_of_bind h
    obtain ⟨gb, right, h⟩ := ok_of_bind h
    have first := iha (fun g hg => sound g (List.mem_append_left _ hg)) left
    have second := ihb (fun g hg => sound g (List.mem_append_right _ hg)) right
    have joined := first.append second
    exact joined.of_eq (Generator.compiled_ok joined.sound h)
  | joinDeferred a b iha ihb =>
    obtain ⟨ga, left, h⟩ := ok_of_bind h
    obtain ⟨gb, right, h⟩ := ok_of_bind h
    have first := iha (fun g hg => sound g (List.mem_append_left _ hg)) left
    have second := ihb (fun g hg => sound g (List.mem_append_right _ hg)) right
    obtain rfl := Except.ok.inj h
    exact first.append second
  | asked a ih =>
    obtain ⟨ga, left, h⟩ := ok_of_bind h
    have joined := ih sound left
    obtain rfl := Except.ok.inj h
    exact joined.of_eq (Generator.asked_eq joined.sound)

end Composition

/--
Composition depends on the row of generators only. However the brackets stand, whichever joins compile at once,
and whatever was asked of intermediate generators: where the joins that compile succeed, the results have the
same body, the same names in the same order, and build the same text or fail in the same way for every context.
-/
theorem result_eq_of_parts {t t' : Composition} (row : t.parts = t'.parts) (sound : ∀ g ∈ t.parts, g.Sound)
    {g g' : Generator} (h : t.result = .ok g) (h' : t'.result = .ok g') :
    g.body = g'.body ∧ g.registry = g'.registry
      ∧ ∀ host fuel context, g.build host fuel context = g'.build host fuel context := by
  have joins := Composition.joins_of_result sound h
  have joins' := Composition.joins_of_result (row ▸ sound) h'
  rw [← row] at joins'
  have body : g.body = g'.body := joins.body.trans joins'.body.symm
  have registry : g.registry = g'.registry := by
    obtain ⟨first, rest, names, union⟩ := joins.registry
    obtain ⟨first', rest', names', union'⟩ := joins'.registry
    obtain ⟨rfl, rfl⟩ := List.cons.inj (names.symm.trans names')
    rw [union, union']
  exact ⟨body, registry, Generator.build_eq joins.sound joins'.sound body registry⟩

/-! ### Three generators -/

/-- The statement `$n;`. -/
def nameStmt (n : String) : Stmt := .expr nowhere (.ident nowhere n)

/-- The template `($a, $b) => { $a; }`, of which `$a` is inlined. -/
def firstOfTwo : Generator := { body := [nameStmt "$a"], registry := ⟨["$a", "$b"], ["$a"], [], false⟩ }

/-- The template `($c, $b) => { $b; }`, of which all is inlined. -/
def secondOfTwo : Generator := { body := [nameStmt "$b"], registry := ⟨["$c", "$b"], ["$c", "$b"], [], true⟩ }

/-- The template `($a) => { }`. -/
def emptyOfOne : Generator := { body := [], registry := ⟨["$a"], [], [], false⟩ }

/-- From the left; the last join compiles. -/
def fromLeft : Composition := .join (.joinDeferred (.one firstOfTwo) (.one secondOfTwo)) (.one emptyOfOne)

/-- From the right; what is joined first is compiled before it is joined on. -/
def fromRight : Composition :=
  .joinDeferred (.one firstOfTwo) (.asked (.joinDeferred (.one secondOfTwo) (.one emptyOfOne)))

/-- The same generators, joined from the left and from the right: `$b` keeps its place before `$c`. -/
theorem result_eq_of_parts_three :
    fromLeft.parts = fromRight.parts ∧ (∀ g ∈ fromLeft.parts, g.Sound)
    ∧ ∃ g g', fromLeft.result = .ok g ∧ fromRight.result = .ok g'
      ∧ g.registry = ⟨["$a", "$b", "$c"], ["$a", "$c", "$b"], [], true⟩
      ∧ g.body = g'.body ∧ g.registry = g'.registry
      ∧ ∀ host fuel context, g.build host fuel context = g'.build host fuel context := by
  have sound : ∀ g ∈ fromLeft.parts, g.Sound := by
    intro g hg
    apply Generator.sound_of_none
    simp only [fromLeft, Composition.parts, List.mem_append, List.mem_singleton] at hg
    rcases hg with (rfl | rfl) | rfl <;> rfl
  have first : planExpr ⟨["$a", "$b", "$c"], ["$a", "$c", "$b"], [], true⟩ (.ident nowhere "$a") .lowest
      = .inline := by cbv
  have second : planExpr ⟨["$a", "$b", "$c"], ["$a", "$c", "$b"], [], true⟩ (.ident nowhere "$b") .lowest
      = .inline := by cbv
  have compiles : compile ⟨["$a", "$b", "$c"], ["$a", "$c", "$b"], [], true⟩ [nameStmt "$a", nameStmt "$b"] = .ok _ :=
    compile_ok_iff.2 ⟨_, _, .keepStmt rfl (.inline first (.text .nil))
      (.keepStmt rfl (.inline second (.text .nil)) .nil), rfl⟩
  have left : fromLeft.result = .ok _ := congrArg (Except.map fun p => Generator.mk _ _ (some p)) compiles
  have right : fromRight.result = .ok _ := rfl
  have row : fromLeft.parts = fromRight.parts := rfl
  exact ⟨row, sound, _, _, left, right, rfl, result_eq_of_parts row sound left right⟩

end Template

end Staging
