import Staging.Proofs.Template.Fragments
import Staging.Proofs.Template.Sequence

/-!
The texts of a program.

A buffer takes texts and instructions in any order, and its instructions hold the same characters and the same
instructions in the same order (`flatMap_yield_finish`), so that running them is replaying what was put in
(`runAll_finish`). Where every instruction that was put in is no text itself, they are in normal form: no text is empty,
and no text stands next to another (`Merged`). Compiling puts programs together from buffers, one for each branch and each
round, and from blocks around them; so the normal form holds at every depth (`Coalesced`).

Main statement: `compile_coalesced`.
-/

namespace Staging.Template

open Script

/-! ### What a buffer holds -/

namespace Buffer

/-- Appends a text or an instruction. -/
def pushFragment (b : Buffer) : Fragment → Buffer
  | .text t => b.pushText t
  | .code i => b.pushCode i

/-- The buffer after texts and instructions were appended to an empty one. -/
def ofFragments (fs : List Fragment) : Buffer := fs.foldl pushFragment #[]

/-- An empty text makes no difference to the instructions. -/
theorem coalesce_empty_text (pending : String) (before after : List Fragment) :
    coalesce pending (before ++ .text "" :: after) = coalesce pending (before ++ after) := by
  induction before generalizing pending with
  | nil => rw [List.nil_append, List.nil_append, coalesce, String.append_empty]
  | cons f before ih => cases f <;> simp only [List.cons_append, coalesce, ih]

theorem coalesce_foldl (b : Buffer) (fs : List Fragment) (pending : String) :
    coalesce pending (fs.foldl pushFragment b).toList = coalesce pending (b.toList ++ fs) := by
  induction fs generalizing b with
  | nil => rw [List.foldl_nil, List.append_nil]
  | cons f fs ih =>
    rw [List.foldl_cons, ih]
    cases f with
    | text t =>
      by_cases none : t.isEmpty
      · obtain rfl := String.isEmpty_iff.1 none
        exact (coalesce_empty_text pending b.toList fs).symm
      · simp [pushFragment, pushText, none]
    | code i => simp [pushFragment, pushCode]

/-- Empty texts apart, a buffer holds what was put in. -/
theorem finish_ofFragments (fs : List Fragment) : (ofFragments fs).finish = codeOfFragments fs :=
  coalesce_foldl #[] fs ""

end Buffer

/-! ### Nothing is lost -/

/-- What an instruction comes to: the characters of a text, or the instruction itself. -/
def Instruction.yield : Instruction → List (Char ⊕ Instruction)
  | .literal t => t.toList.map .inl
  | i => [.inr i]

def Fragment.yield : Fragment → List (Char ⊕ Instruction)
  | .text t => t.toList.map .inl
  | .code i => i.yield

theorem flatMap_yield_flush (pending : String) (rest : List Instruction) :
    (Buffer.flush pending rest).flatMap Instruction.yield =
      pending.toList.map .inl ++ rest.flatMap Instruction.yield := by
  unfold Buffer.flush
  split
  · rename_i none
    simp [String.isEmpty_iff.1 none]
  · rfl

theorem flatMap_yield_coalesce (pending : String) (fs : List Fragment) :
    (Buffer.coalesce pending fs).flatMap Instruction.yield =
      pending.toList.map .inl ++ fs.flatMap Fragment.yield := by
  induction fs generalizing pending with
  | nil => exact flatMap_yield_flush pending []
  | cons f fs ih =>
    cases f with
    | text t =>
      simp only [Buffer.coalesce, ih, String.toList_append, List.map_append, List.append_assoc, List.flatMap_cons,
        Fragment.yield]
    | code i => simp [Buffer.coalesce, flatMap_yield_flush, ih, Fragment.yield]

theorem flatMap_yield_finish (fs : List Fragment) :
    (Buffer.ofFragments fs).finish.flatMap Instruction.yield = fs.flatMap Fragment.yield := by
  rw [Buffer.finish_ofFragments, codeOfFragments, flatMap_yield_coalesce]
  rfl

/-- Running the instructions of a buffer is replaying what was put in. -/
theorem runAll_finish (ev : Evaluator) (env : Env) (fs : List Fragment) :
    runAll ev (Buffer.ofFragments fs).finish env = runFragments ev env fs := by
  funext s
  rw [Buffer.finish_ofFragments, runAll_codeOfFragments]

/-! ### Normal form of a list -/

/-- No text is empty, and no text stands next to another. -/
structure Merged (code : List Instruction) : Prop where
  nonempty : .literal "" ∉ code
  apart : ∀ t u, ¬ [.literal t, .literal u] <:+: code

namespace Merged

variable {code : List Instruction}

theorem nil : Merged [] := ⟨by simp, by simp⟩

theorem cons {i : Instruction} (h : Merged code) (solid : i ≠ .literal "")
    (apart : ∀ t u, i = .literal t → code.head? ≠ some (.literal u)) : Merged (i :: code) where
  nonempty inside := by
    rcases List.mem_cons.1 inside with same | inside
    · exact solid same.symm
    · exact h.nonempty inside
  apart t u inside := by
    rcases List.infix_cons_iff.1 inside with front | inside
    · obtain ⟨same, more, rfl⟩ := List.cons_prefix_cons.1 front
      exact apart t u same.symm rfl
    · exact h.apart t u inside

/-- Behind an instruction that is no text there may be any code. -/
theorem behind {i : Instruction} (h : Merged code) (proper : (Fragment.code i).IsProper) : Merged (i :: code) := by
  refine h.cons ?_ ?_
  · rintro rfl
    exact proper
  · rintro t u rfl
    exact absurd proper id

theorem flush {pending : String} (h : Merged code) (apart : ∀ u, code.head? ≠ some (.literal u)) :
    Merged (Buffer.flush pending code) := by
  unfold Buffer.flush
  split
  · exact h
  · rename_i some
    refine h.cons ?_ fun _ u _ => apart u
    rintro ⟨⟩
    exact some rfl

/-- The instructions of fragments are merged, where none of those put in is a text. -/
theorem coalesce {fs : List Fragment} (proper : ∀ f ∈ fs, f.IsProper) (pending : String) :
    Merged (Buffer.coalesce pending fs) := by
  induction fs generalizing pending with
  | nil => exact nil.flush (by simp)
  | cons f fs ih =>
    obtain ⟨first, others⟩ := List.forall_mem_cons.1 proper
    cases f with
    | text t => exact ih others (pending ++ t)
    | code i =>
      refine ((ih others "").behind first).flush fun u head => ?_
      obtain rfl := Option.some.inj head
      exact first

end Merged

/-! ### Normal form at every depth -/

/-- The lists of instructions that an instruction holds. -/
def Instruction.lists : Instruction → List (List Instruction)
  | .if_ _ yes no => yes :: no.toList
  | .each _ _ _ _ _ body | .block body => [body]
  | .literal _ | .inline _ _ _ | .call _ | .jump _ _ => []

/-- `Holds code list`: the list is the code itself, or an instruction in it holds the list at some depth. -/
inductive Holds : List Instruction → List Instruction → Prop
  | self {code : List Instruction} : Holds code code
  | inside {code list inner : List Instruction} {i : Instruction} (mem : i ∈ code) (held : inner ∈ i.lists)
      (deeper : Holds inner list) : Holds code list

/-- Every list of instructions is merged, at every depth. -/
def Coalesced (code : List Instruction) : Prop := ∀ list, Holds code list → Merged list

/-- The lists that an instruction holds are in normal form. -/
def Instruction.Tidy (i : Instruction) : Prop := ∀ inner ∈ i.lists, Coalesced inner

theorem coalesced_iff {code : List Instruction} : Coalesced code ↔ Merged code ∧ ∀ i ∈ code, i.Tidy := by
  constructor
  · exact fun h => ⟨h code .self, fun i mem inner held list deeper => h list (.inside mem held deeper)⟩
  · rintro ⟨merged, tidy⟩ list holds
    cases holds with
    | self => exact merged
    | inside mem held deeper => exact tidy _ mem _ held list deeper

namespace Instruction.Tidy

theorem block {code : List Instruction} (h : Coalesced code) : (Instruction.block code).Tidy := by
  simpa [Tidy, lists] using h

theorem if_ {test : Expr} {yes : List Instruction} {no : Option (List Instruction)} (hyes : Coalesced yes)
    (hno : ∀ code ∈ no, Coalesced code) : (Instruction.if_ test yes no).Tidy := by
  rw [Tidy, lists, List.forall_mem_cons]
  exact ⟨hyes, fun code held => hno code (Option.mem_toList.1 held)⟩

theorem each {label : Option String} {kind : IterKind} {pattern : Pattern} {source : Expr} {declare : List String}
    {body : List Instruction} (h : Coalesced body) :
    (Instruction.each label kind pattern source declare body).Tidy := by
  simpa [Tidy, lists] using h

variable {i : Instruction}

theorem coalesced (h : i.Tidy) (proper : (Fragment.code i).IsProper) : Coalesced [i] :=
  coalesced_iff.2 ⟨Merged.nil.behind proper, by simpa using h⟩

theorem wrap (h : i.Tidy) (proper : (Fragment.code i).IsProper) (pl : Place) : (pl.wrap i).Tidy := by
  unfold Place.wrap
  split
  · exact .block (h.coalesced proper)
  · exact h

end Instruction.Tidy

theorem Coalesced.branchCode {code : List Instruction} (h : Coalesced code) (s : Stmt) :
    Coalesced (branchCode s code) := by
  unfold Template.branchCode
  split
  · exact (Instruction.Tidy.block h).coalesced trivial
  · exact h

/-- What is appended holds code in normal form. -/
def Fragment.Tidy : Fragment → Prop
  | .text _ => True
  | .code i => i.Tidy

theorem Coalesced.ofFragments {fs : List Fragment} (proper : ∀ f ∈ fs, f.IsProper) (tidy : ∀ f ∈ fs, f.Tidy) :
    Coalesced (codeOfFragments fs) := by
  refine coalesced_iff.2 ⟨.coalesce proper "", fun i mem => ?_⟩
  rcases mem_codeOfFragments mem with ⟨t, rfl⟩ | mem
  · exact nofun
  · exact tidy _ mem

theorem tidy_textFragments (t : String) : ∀ f ∈ textFragments t, f.Tidy := by
  intro f mem
  cases f with
  | text => trivial
  | code => exact absurd mem not_mem_textFragments

theorem tidy_declarations (names : List String) : ∀ f ∈ names.flatMap declarationFragments, f.Tidy := by
  intro f mem
  cases f with
  | text => trivial
  | code i =>
    obtain ⟨n, -, rfl⟩ := mem_declarationFragments mem
    exact nofun

/-- Whatever is compiled holds code in normal form. -/
theorem Emits.tidy {pl : Place} {start start' : Bool} {parts : List Part} {fs : List Fragment}
    (h : Emits pl start parts fs start') : ∀ f ∈ fs, f.Tidy := by
  induction h with
  | nil => simp
  | text _ ih | pattern _ ih => exact List.forall_mem_append.2 ⟨tidy_textFragments _, ih⟩
  | keepExpr _ _ _ inner ih | keepStmt _ _ _ inner ih => exact List.forall_mem_append.2 ⟨inner, ih⟩
  | inline _ _ ih | call _ _ ih | jump _ _ ih => exact List.forall_mem_cons.2 ⟨nofun, ih⟩
  | branch _ yes _ inner ih =>
    have code := Coalesced.ofFragments yes.isProper inner
    exact List.forall_mem_cons.2 ⟨(Instruction.Tidy.if_ (code.branchCode _) (by simp)).wrap trivial _, ih⟩
  | branchElse _ yes no _ inner other ih =>
    have code := Coalesced.ofFragments yes.isProper inner
    have elseCode := Coalesced.ofFragments no.isProper other
    refine List.forall_mem_cons.2 ⟨(Instruction.Tidy.if_ (code.branchCode _) ?_).wrap trivial _, ih⟩
    rintro _ ⟨⟩
    exact elseCode.branchCode _
  | unroll _ round _ inner ih =>
    have code := Coalesced.ofFragments round.isProper inner
    exact List.forall_mem_cons.2 ⟨(Instruction.Tidy.each code).wrap trivial _, ih⟩

/-- **A compiled program is in normal form.** -/
theorem coalesced_of_compile {r : Registry} {body : List Stmt} {p : Program} (h : compile r body = .ok p) :
    Coalesced p.instructions := by
  obtain ⟨fs, start, hfs, rfl⟩ := compile_ok_iff.1 h
  exact .ofFragments (List.forall_mem_append.2 ⟨isProper_declarations r.declared, hfs.isProper⟩)
    (List.forall_mem_append.2 ⟨tidy_declarations r.declared, hfs.tidy⟩)

/--
**The instructions of a buffer are coalesced, nothing is lost, and compiled programs are in normal form.**

Whatever texts and instructions were put into a buffer, its instructions hold the same characters and instructions in the
same order, and running them does what replaying one fragment after the other does: it appends the same text, ends in the
same way and leaves the same state. In a compiled program no text is empty and no text stands next to another, in the list at
the top and in every list of a branch, a round or a block.
-/
theorem compile_coalesced :
    (∀ fs : List Fragment,
      (Buffer.ofFragments fs).finish.flatMap Instruction.yield = fs.flatMap Fragment.yield ∧
        ∀ (ev : Evaluator) (env : Env) (s : GenerateState),
          runAll ev (Buffer.ofFragments fs).finish env s = runFragments ev env fs s) ∧
      ∀ (r : Registry) (body : List Stmt) (p : Program), compile r body = .ok p →
        ∀ list, Holds p.instructions list → .literal "" ∉ list ∧ ∀ t u, ¬ [.literal t, .literal u] <:+: list := by
  refine ⟨fun fs => ⟨flatMap_yield_finish fs, fun ev env s => congrFun (runAll_finish ev env fs) s⟩, ?_⟩
  intro r body p compiles list holds
  have merged := coalesced_of_compile compiles list holds
  exact ⟨merged.nonempty, merged.apart⟩

/-- A conditional that is decided: `if ($a) y; else { z; }`. -/
def decidedIf : Stmt :=
  .if_ nowhere (.ident nowhere "$a") (.expr nowhere (.ident nowhere "y"))
    (some (.block nowhere [.expr nowhere (.ident nowhere "z")]))

/-- It is the body of one that stays: `if (x) if ($a) y; else { z; }`. -/
def decidedInKept : Stmt := .if_ nowhere (.ident nowhere "x") decidedIf none

def decidedProgram : Program :=
  ⟨["$a"], [.literal "if (x) ", .block [.if_ (.ident nowhere "$a") [.literal "y;"] (some [.block [.literal "z;"]])],
    .literal "w;"]⟩

/-- A list three instructions deep is in normal form, as is the one at the top with a text behind the block. -/
theorem compile_coalesced_nested :
    compile ⟨["$a"], ["$a"], [], true⟩ [decidedInKept, .expr nowhere (.ident nowhere "w")] = .ok decidedProgram ∧
      Holds decidedProgram.instructions [.literal "z;"] ∧
      ∀ list, Holds decidedProgram.instructions list →
        .literal "" ∉ list ∧ ∀ t u, ¬ [.literal t, .literal u] <:+: list := by
  have name (n : String) (plain : isStageName n = false) (pl : Place) (start : Bool) :
      Emits pl start [.stmt (.expr nowhere (.ident nowhere n))] (textFragments n ++ textFragments ";") false := by
    have kept : planExpr pl.registry (.ident nowhere n) .lowest = .keep [.text n] := by
      simp only [planExpr, plain, Bool.false_and]
      rfl
    have whole : Emits pl start [.stmt (.expr nowhere (.ident nowhere n))] _ _ :=
      .keepStmt rfl (.keepExpr kept (.text .nil) (.text .nil)) .nil
    simpa [startAfter] using whole
  have branch : ((Place.top ⟨["$a"], ["$a"], [], true⟩).inside decidedInKept).plan decidedIf =
      .branch (.ident nowhere "$a") (.expr nowhere (.ident nowhere "y"))
        (some (.block nowhere [.expr nowhere (.ident nowhere "z")])) := by cbv
  have stays : (Place.top ⟨["$a"], ["$a"], [], true⟩).plan decidedInKept = .keep := by cbv
  have test : planExpr ⟨["$a"], ["$a"], [], true⟩ (.ident nowhere "x") .lowest = .keep [.text "x"] := by cbv
  have compiles : compile ⟨["$a"], ["$a"], [], true⟩ [decidedInKept, .expr nowhere (.ident nowhere "w")] =
      .ok decidedProgram :=
    compile_ok_iff.2 ⟨_, _, .keepStmt stays
      (.text (.keepExpr test (.text .nil)
        (.text (.branchElse branch (name "y" (by cbv) _ _) (name "z" (by cbv) _ _) .nil))))
      (name "w" (by cbv) _ _), by cbv⟩
  have deep : Holds decidedProgram.instructions [.literal "z;"] :=
    .inside (.tail _ (.head _)) (.head _) (.inside (.head _) (.tail _ (.head _)) (.inside (.head _) (.head _) .self))
  exact ⟨compiles, deep, compile_coalesced.2 _ _ _ compiles⟩

end Staging.Template
