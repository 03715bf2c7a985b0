import Staging.Proofs.Script.Lookups
import Staging.Proofs.Template.Scopes

/-!
Inlined expressions mention known names only.

Where the value of an expression is written, and nothing in the expression is overlooked (`Legible`), every name that
occurs free in it is staged: the one a chain starts from because it is inlined, those in keys because they were checked,
and those in a call because it was classified. The classification of a call goes by how names look, so for calls it has
to be known that the names which look staged are.

Staged names are declared in the scopes of a run, so they can be looked up whenever the run comes to the instruction, and
by all that is done from there (`NamesFound`). Together this is `inlined_names_staged`. Without legibility a key of a key
can be a name that is not known, and then the build fails (`overlooked_key_compiles`).
-/

namespace Staging.Template

open Script

/--
The names of an expression are found when it is evaluated after the given moment. No free name is unknown in a later
state, neither in these scopes nor in scopes inside of them; and writing the value of the expression ends in a reference
error only if the expression calls a function and a function that was called ends in the same one.
-/
structure NamesFound (host : Host) (fuel g : Nat) (e : Expr) (min : Precedence) (start : Bool) (env : Env)
    (s : GenerateState) : Prop where
  found : ∀ n, e.HasFree n → ∀ (inner : Env) (t : State), KeepsNames g none s.toState t →
    ∃ v, getVar (inner ++ env) n t = .ok v t
  blames : ∀ n u, (Moment.run (.inline e min start)).act (evaluator host fuel) env s
      = .error (.refused (.runtime (.reference n))) u →
    (∃ call : Expr, call.Within e ∧ call.isCall = true) ∧ CallFails (KeepsNames g none s.toState) host n u.toState

/-- Declared names are found. -/
theorem Declaring.namesFound {host : Host} {g : Nat} {scopes : Env} {s : GenerateState} {names : List String}
    (declaring : Declaring g scopes s.toState names) (hosted : ∀ id args, Along (KeepsNames g none) (host id args))
    (fuel : Nat) {e : Expr} (known : ∀ n, e.HasFree n → n ∈ names) (min : Precedence) (start : Bool) :
    NamesFound host fuel g e min start (scopes ++ [g]) s := by
  have declared : ∀ n, e.HasFree n → ∀ (inner : Env) (t : State), KeepsNames g none s.toState t →
      t.toHeap.Declares (inner ++ (scopes ++ [g])) n := by
    intro n free inner t later
    obtain ⟨j, inside, there⟩ := ((declaring.keep later).declares n).2 (known n free)
    exact ⟨j, List.mem_append_right _ (List.mem_append_left _ inside), there⟩
  constructor
  · exact fun n free inner t later => getVar_of_declared (declared n free inner t later)
  · intro n u fails
    have known : Known (KeepsNames g none s.toState) (scopes ++ [g])
        (∃ call : Expr, call.Within e ∧ call.isCall = true) e :=
      ⟨fun within t later => declared _ (within.hasFree .ident) [] t later, fun within call => ⟨_, within, call⟩⟩
    have blamed := (conserves_keepsNames g).evalExpr_blames hosted fuel known
    exact blamed.blames ((connected_keepsNames g none).refl _) (Moment.reference_of_inline fails)

/-! ### The main statement -/

/--
**Inlined expressions mention known names only.** Where an instruction writes the value of an expression in which
nothing is overlooked, every name that occurs free in the expression is staged; of a call, which is inlined because of how
the names in it look, it has to be known that those which look staged are. And whenever a run of the program comes to the
instruction, these names are found: no name of the expression makes the build fail as unknown. Staged parameters have
values, and functions of the host program declare names in globals and in scopes of their own only.
-/
theorem inlined_names_staged {r : Registry} {body : List Stmt} {p : Program} (compiled : compile r body = .ok p)
    (nested : r.Nested) {around : List Instruction} {e : Expr} {min : Precedence} {start : Bool}
    (occurs : Occurs p.instructions around (.inline e min start)) (legible : Legible e)
    (declared : ∀ span callee args optional, e = .call span callee args optional →
      ∀ n ∈ references e, e.HasFree n → isStageName n = true →
        n ∈ (r.bindNames (around.flatMap Instruction.loopNames)).staged) :
    (∀ n, e.HasFree n → n ∈ (r.bindNames (around.flatMap Instruction.loopNames)).staged)
      ∧ ∀ context : Context, (∀ n ∈ r.staged, ∃ v, context.get? n = some v) → ∀ (host : Host) (fuel : Nat) (s : State),
        (∀ id args, Along (KeepsNames s.frames.size none) (host id args)) →
        ∃ globals env s₀,
          opening context p.params { toState := { s with depth := 0 }, out := "" } = .ok (globals, env) s₀
          ∧ runMain (evaluator host fuel) p context { toState := { s with depth := 0 }, out := "" }
            = (runAll (evaluator host fuel) p.instructions env >>= fun _ => pure ()) s₀
          ∧ ∀ env' t, Arrives (evaluator host fuel) p.instructions env s₀ around (.run (.inline e min start)) env' t →
            NamesFound host fuel s.frames.size e min start env' t := by
  have nestedHere := nested.bindNames (around.flatMap Instruction.loopNames)
  have staged : ∀ n, e.HasFree n → n ∈ (r.bindNames (around.flatMap Instruction.loopNames)).staged := by
    intro n free
    have stands : n ∈ identsIn (.expr e min) := Free.mem_identsIn free.place
    rcases origin_of_compile compiled occurs with ⟨rfl, m, hm, same⟩ | ⟨pl, reach, planned⟩
    · obtain ⟨⟩ := same
      obtain rfl : n = m := by simpa [identsIn, gather_expr, Expr.name?, Expr.inner] using stands
      exact Registry.mem_staged_bindNames.2 (.inl (List.mem_filter.1 hm).1)
    cases planned with
    | inline plan =>
      rw [reach.registry] at plan
      rcases inline_of_plan plan with
        ⟨root, inlined, name, keys⟩ | ⟨span, callee, args, optional, rfl, decided, keys⟩
      · rcases (legible.chain name).known keys stands with same | staged
        · obtain rfl : root = n := Option.some.inj (name.symm.trans same)
          exact nestedHere.inlined _ inlined
        · exact staged
      · rcases legible.seen_of_call keys stands with staged | seen
        · exact staged
        · rcases staged_of_isDecidable decided seen with raw | looks
          · exact nestedHere.inlined _ (nestedHere.raw _ raw)
          · exact declared span callee args optional rfl n seen free looks
  refine ⟨staged, fun context bound host fuel s hosted => ?_⟩
  rw [← params_of_compile compiled] at bound
  obtain ⟨env, s₀, opens, runs, moments⟩ := exists_opening bound fuel s hosted
  refine ⟨_, env, s₀, opens, runs, fun env' t arrives => ?_⟩
  obtain ⟨scopes, rfl, declaring⟩ := moments _ _ _ _ arrives
  refine declaring.namesFound hosted fuel (fun n free => ?_) min start
  rw [params_of_compile compiled]
  exact List.mem_append.2 (Registry.mem_staged_bindNames.1 (staged n free))

/-! ### Two accesses -/

/-- The expression `$o[key]`. -/
def access (key : Expr) : Expr := .member ⟨0, 0⟩ (.ident ⟨0, 0⟩ "$o") (.computed key) false

/-- The registry of two inlined parameters. -/
def twoInlined : Registry := ⟨["$o", "$k"], ["$o", "$k"], [], true⟩

/-- The program for the statement `$o[key];`. -/
def accessProgram (key : Expr) : Program := ⟨["$o", "$k"], [.inline (access key) .lowest true, .literal ";"]⟩

theorem compile_access (key : Expr) (keys : (references key).all twoInlined.staged.contains = true) :
    compile twoInlined [.expr ⟨0, 0⟩ (access key)] = .ok (accessProgram key) := by
  have root : hasInlinedRoot twoInlined (access key) = true := by
    have : isStageName "$o" = true := by cbv
    simp [hasInlinedRoot, access, Expr.chainRoot, Expr.name?, this, twoInlined]
  have inlined : planExpr twoInlined (access key) .lowest = .inline := by
    rw [access, planExpr, ← access, if_pos root, planChain, if_pos]
    simpa [access, keysStaged] using keys
  exact compile_ok_iff.2 ⟨_, false, .keepStmt rfl (.inline inlined (.text .nil)) .nil, rfl⟩

/-- Values for both parameters: the object `{x: true}` and the object `{a: "x"}`. -/
def accessState : State where
  objects := #[[("x", .bool true)], [("a", .string "x")]]

def accessContext : Context := [("$o", .object 0), ("$k", .object 1)]

/-- The key `$k.a`. -/
def seenKey : Expr := .member ⟨0, 0⟩ (.ident ⟨0, 0⟩ "$k") (.named "a") false

theorem legible_access_seenKey : Legible (access seenKey) := by
  have keyNames : identsIn (.expr seenKey .lowest) = ["$k"] := by cbv
  have rootNames : identsIn (.expr (.ident ⟨0, 0⟩ "$o") .lowest) = ["$o"] := by cbv
  constructor
  · intro key hk
    obtain rfl : key = seenKey := List.mem_singleton.1 hk
    rw [seenKey, Transparent, ← seenKey, keyNames]
    exact List.forall_mem_singleton.2 rfl
  · simp only [access, Expr.chainRoot, rootNames]
    exact List.forall_mem_singleton.2 rfl

/-- The names in `$o[$k.a]` are staged, and where it is inlined none of them is unknown. -/
theorem inlined_names_staged_access :
    compile twoInlined [.expr ⟨0, 0⟩ (access seenKey)] = .ok (accessProgram seenKey)
    ∧ (∀ n, (access seenKey).HasFree n → n ∈ twoInlined.staged)
    ∧ ∃ globals env s₀, opening accessContext (accessProgram seenKey).params { toState := accessState, out := "" }
        = .ok (globals, env) s₀
      ∧ ∃ env' t, Arrives (evaluator Host.none 3) (accessProgram seenKey).instructions env s₀ []
          (.run (.inline (access seenKey) .lowest true)) env' t
        ∧ (∃ v, getVar env' "$k" t.toState = .ok v t.toState)
        ∧ ∀ n u, (Moment.run (.inline (access seenKey) .lowest true)).act (evaluator Host.none 3) env' t
          ≠ .error (.refused (.runtime (.reference n))) u := by
  have compiles := compile_access seenKey (by cbv)
  have occurs : Occurs (accessProgram seenKey).instructions [] (.inline (access seenKey) .lowest true) :=
    .here List.mem_cons_self
  have nested : twoInlined.Nested := ⟨fun _ inside => inside, fun _ inside => absurd inside List.not_mem_nil⟩
  have bound : ∀ n ∈ twoInlined.staged, ∃ v, accessContext.get? n = some v := by
    intro n inside
    simp only [twoInlined, List.mem_cons, List.not_mem_nil, or_false] at inside
    rcases inside with rfl | rfl
    · exact ⟨.object 0, rfl⟩
    · exact ⟨.object 1, rfl⟩
  have hosted : ∀ id args, Along (KeepsNames accessState.frames.size none) (Host.none id args) :=
    fun _ _ => (conserves_keepsNames _).pure _
  obtain ⟨staged, runs⟩ := inlined_names_staged compiles nested occurs legible_access_seenKey
    (by rintro span callee args optional ⟨⟩)
  obtain ⟨globals, env, s₀, opens, -, moments⟩ := runs accessContext bound Host.none 3 accessState hosted
  have found := moments env s₀ .here
  have key : (access seenKey).HasFree "$k" :=
    Expr.Within.hasFree (.inside (p := seenKey) (by simp [access, Expr.children, Key.children])
      (.inside (p := .ident ⟨0, 0⟩ "$k") List.mem_cons_self .self)) .ident
  have noCall : ∀ call : Expr, call.Within (access seenKey) → call.isCall = false := by
    intro call within
    cases within with
    | self => rfl
    | inside child within =>
      simp only [access, Expr.children, Key.children, List.mem_cons, List.not_mem_nil, or_false] at child
      rcases child with rfl | rfl
      · cases within with
        | self => rfl
        | inside child => exact absurd child List.not_mem_nil
      · cases within with
        | self => rfl
        | inside child within =>
          obtain rfl := List.mem_singleton.1 child
          cases within with
          | self => rfl
          | inside child => exact absurd child List.not_mem_nil
  refine ⟨compiles, staged, globals, env, s₀, opens, env, s₀, .here, ?_, fun n u fails => ?_⟩
  · exact found.found "$k" key [] s₀.toState ((connected_keepsNames _ none).refl _)
  · obtain ⟨⟨call, within, calls⟩, -⟩ := found.blames n u fails
    rw [noCall call within] at calls
    cases calls

/-- The key `$k[plain]`. -/
def overlookedKey : Expr := .member ⟨0, 0⟩ (.ident ⟨0, 0⟩ "$k") (.computed (.ident ⟨0, 0⟩ "plain")) false

/-- A key of a key is overlooked: `$o[$k[plain]]` is inlined, although `plain` is not known, and the build fails. -/
theorem overlooked_key_compiles :
    compile twoInlined [.expr ⟨0, 0⟩ (access overlookedKey)] = .ok (accessProgram overlookedKey)
    ∧ Occurs (accessProgram overlookedKey).instructions [] (.inline (access overlookedKey) .lowest true)
    ∧ (access overlookedKey).HasFree "plain" ∧ "plain" ∉ (twoInlined.bindNames []).staged
    ∧ ∃ s, execute Host.none 4 (accessProgram overlookedKey) accessContext accessState
      = .ok (.error (.runtime (.reference "plain"))) s := by
  have free : (access overlookedKey).HasFree "plain" :=
    Expr.Within.hasFree (.inside (p := overlookedKey) (by simp [access, Expr.children, Key.children])
      (.inside (p := .ident ⟨0, 0⟩ "plain") (by simp [overlookedKey, Expr.children, Key.children]) .self)) .ident
  refine ⟨compile_access overlookedKey (by cbv), .here List.mem_cons_self, free, by decide, ?state, ?fails⟩
  case fails => with_unfolding_all rfl

end Staging.Template
