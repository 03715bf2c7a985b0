import Staging.Proofs.Template.Origin
import Staging.Template.Execute

/-!
Staged jumps stay in their loops.

A jump in a compiled program stands in an unrolled loop with its label, because the walk has met that loop
on the way to it (`Reaches.mem_labels`). A run of code that ends in a jump ends in one that no loop around
it catches (`runAll_jump`). So a program as a whole never ends in a jump: `compile_jumps_caught`.
-/

namespace Staging.Template

open Script

/-- The label of an unrolled loop. -/
def Instruction.loopLabel? : Instruction → Option String
  | .each label _ _ _ _ _ => label
  | _ => none

/-- Instructions stand in instructions that have code of their own. -/
theorem Occurs.isLeaf_of_mem {code around : List Instruction} {i : Instruction} (h : Occurs code around i) :
    ∀ outer ∈ around, outer.isLeaf = false := by
  induction h with
  | here => simp
  | yes _ _ ih | no _ _ ih | each _ _ ih | block _ _ ih =>
    intro outer ho
    rcases List.mem_cons.1 ho with rfl | ho
    · rfl
    · exact ih outer ho

/-! ### Labels on the way -/

/-- A label that is known in a place was known before, or stands at a loop on the way there. -/
theorem Reaches.mem_labels {pl pl' : Place} {around : List Instruction} (h : Reaches pl around pl')
    {l : String} {d : Nat} (hl : (l, d) ∈ pl'.labels) :
    (l, d) ∈ pl.labels ∨ ∃ loop ∈ around, loop.loopLabel? = some l := by
  induction h with
  | refl => exact .inl hl
  | aside _ ih | inside _ _ ih => exact ih hl
  | branch _ ih | braces _ ih =>
    rcases ih hl with h | ⟨loop, mem, label⟩
    · exact .inl h
    · exact .inr ⟨loop, List.mem_cons_of_mem _ mem, label⟩
  | @round pl _ _ _ label _ _ _ _ _ ih =>
    rcases ih hl with h | ⟨loop, mem, label⟩
    · rcases List.mem_append.1 h with h | h
      · have own : label = some l := by
          cases label <;> simp_all
        exact .inr ⟨_, List.mem_cons_self, own⟩
      · exact .inl h
    · exact .inr ⟨loop, List.mem_cons_of_mem _ mem, label⟩

theorem mem_of_lookup {l : String} {d : Nat} {labels : List (String × Nat)}
    (h : labels.lookup l = some d) : (l, d) ∈ labels := by
  induction labels with
  | nil => simp at h
  | cons entry rest ih =>
    obtain ⟨k, n⟩ := entry
    by_cases hk : l = k
    · subst hk
      have : n = d := by simpa [List.lookup] using h
      simp [this]
    · have other : (l == k) = false := by simpa using hk
      have : rest.lookup l = some d := by simpa [List.lookup, other] using h
      exact List.mem_cons_of_mem _ (ih this)

theorem planJump_eq_jump {s : CompileState} {j j' : Jump} {span : Span} {label : Option String} {l : String}
    (h : planJump s j span label = .jump j' l) : ∃ d, (l, d) ∈ s.labels := by
  unfold planJump at h
  repeat' split at h
  all_goals first | (obtain ⟨⟩ := h; exact ⟨_, mem_of_lookup ‹_›⟩) | simp at h

/-- A staged jump goes to a label that is known in its place. -/
theorem Place.mem_labels_of_plan {pl : Place} {s : Stmt} {j : Jump} {l : String}
    (h : pl.plan s = .jump j l) : ∃ d, (l, d) ∈ pl.labels := by
  cases s with
  | break_ | continue_ => exact planJump_eq_jump h
  | if_ =>
    simp only [Place.plan, planStmt, planIf] at h
    repeat' split at h
    all_goals cases h
  | labeled =>
    simp only [Place.plan, planStmt, planLabeled, planLoop] at h
    repeat' split at h
    all_goals cases h
  | forEach =>
    simp only [Place.plan, planStmt, planLoop] at h
    repeat' split at h
    all_goals cases h
  | _ => cases h

/-! ### Runs that end in a jump -/

/-- Code with a jump that no loop around it catches. -/
def Escapes (code : List Instruction) (j : Jump) (l : String) : Prop :=
  ∃ around, Occurs code around (.jump j l) ∧ ∀ outer ∈ around, outer.loopLabel? ≠ some l

section Runs

variable {ev : Evaluator} {j : Jump} {l : String}

theorem Escapes.mono {code code' : List Instruction} (h : Escapes code j l) (sub : ∀ i ∈ code, i ∈ code') :
    Escapes code' j l := by
  obtain ⟨around, occurs, free⟩ := h
  exact ⟨around, occurs.mono sub, free⟩

/-- Rounds end in a jump that a round ended in and that is not to the loop's own label. -/
theorem runRounds_jump {label : Option String} {round : Value → Generate Flow} {items : List Value}
    {s s' : GenerateState} (h : runRounds label round items s = .ok (.jump j l) s') :
    label ≠ some l ∧ ∃ item t t', round item t = .ok (.jump j l) t' := by
  induction items generalizing s with
  | nil => simp [runRounds] at h
  | cons item rest ih =>
    obtain ⟨flow, t, ht, h⟩ := bind_eq_ok.1 h
    cases flow with
    | normal => exact ih h
    | jump k target =>
      dsimp only at h
      split at h
      · cases k with
        | continue_ => exact ih h
        | break_ => simp at h
      · rename_i other
        obtain ⟨⟨⟩, rfl⟩ := pure_eq_ok.1 h
        exact ⟨other, item, _, _, ht⟩

theorem runRound_jump {env : Env} {pattern : Pattern} {declare : List String} {body : Env → Generate Flow}
    {item : Value} {s s' : GenerateState}
    (h : runRound env pattern declare body item s = .ok (.jump j l) s') :
    ∃ scope t t', body scope t = .ok (.jump j l) t' := by
  obtain ⟨scope, _, _, h⟩ := bind_eq_ok.1 h
  obtain ⟨_, _, _, h⟩ := bind_eq_ok.1 h
  obtain ⟨_, _, _, h⟩ := bind_eq_ok.1 h
  obtain ⟨_, _, _, h⟩ := bind_eq_ok.1 h
  obtain ⟨flow, t, ht, h⟩ := bind_eq_ok.1 h
  obtain ⟨_, _, _, h⟩ := bind_eq_ok.1 h
  obtain ⟨rfl, _⟩ := pure_eq_ok.1 h
  exact ⟨scope, _, t, ht⟩

mutual

/-- An instruction ends in a jump that it contains and does not catch. -/
theorem runStep_jump : ∀ (i : Instruction) {env : Env} {s s' : GenerateState},
    runStep ev i env s = .ok (.jump j l) s' → Escapes [i] j l
  | .literal _, _, _, _, h => by
    obtain ⟨_, _, _, h⟩ := bind_eq_ok.1 h
    cases (pure_eq_ok.1 h).1
  | .inline _ _ _, _, _, _, h => by
    obtain ⟨_, _, _, h⟩ := bind_eq_ok.1 h
    obtain ⟨_, _, _, h⟩ := bind_eq_ok.1 h
    obtain ⟨_, _, _, h⟩ := bind_eq_ok.1 h
    cases (pure_eq_ok.1 h).1
  | .call _, _, _, _, h => by
    obtain ⟨_, _, _, h⟩ := bind_eq_ok.1 h
    obtain ⟨_, _, _, h⟩ := bind_eq_ok.1 h
    obtain ⟨_, _, _, h⟩ := bind_eq_ok.1 h
    obtain ⟨_, _, _, h⟩ := bind_eq_ok.1 h
    cases (pure_eq_ok.1 h).1
  | .if_ test yes no, _, _, _, h => by
    obtain ⟨v, _, _, h⟩ := bind_eq_ok.1 h
    split at h
    · obtain ⟨_, _, _, h⟩ := bind_eq_ok.1 h
      obtain ⟨around, occurs, free⟩ := runAll_jump yes h
      exact ⟨_, .yes (List.mem_singleton_self _) occurs, List.forall_mem_cons.2 ⟨nofun, free⟩⟩
    · obtain ⟨code, rfl, around, occurs, free⟩ := runElse_jump no h
      exact ⟨_, .no (List.mem_singleton_self _) occurs, List.forall_mem_cons.2 ⟨nofun, free⟩⟩
  | .each label kind pattern source declare body, _, _, _, h => by
    obtain ⟨_, _, _, h⟩ := bind_eq_ok.1 h
    obtain ⟨items, _, _, h⟩ := bind_eq_ok.1 h
    obtain ⟨other, item, t, t', round⟩ := runRounds_jump h
    obtain ⟨scope, t, t', run⟩ := runRound_jump round
    obtain ⟨around, occurs, free⟩ := runAll_jump body run
    exact ⟨_, .each (List.mem_singleton_self _) occurs, List.forall_mem_cons.2 ⟨other, free⟩⟩
  | .block body, _, _, _, h => by
    obtain ⟨_, _, _, h⟩ := bind_eq_ok.1 h
    obtain ⟨flow, t, run, h⟩ := bind_eq_ok.1 h
    obtain ⟨_, _, _, h⟩ := bind_eq_ok.1 h
    obtain ⟨rfl, _⟩ := pure_eq_ok.1 h
    obtain ⟨around, occurs, free⟩ := runAll_jump body run
    exact ⟨_, .block (List.mem_singleton_self _) occurs, List.forall_mem_cons.2 ⟨nofun, free⟩⟩
  | .jump _ _, _, _, _, h => by
    obtain ⟨⟨⟩, _⟩ := pure_eq_ok.1 h
    exact ⟨[], .here (by simp), by simp⟩

/-- Code ends in a jump that it contains and does not catch. -/
theorem runAll_jump : ∀ (code : List Instruction) {env : Env} {s s' : GenerateState},
    runAll ev code env s = .ok (.jump j l) s' → Escapes code j l
  | [], _, _, _, h => by simp [runAll] at h
  | i :: rest, _, _, _, h => by
    obtain ⟨flow, t, ht, h⟩ := bind_eq_ok.1 h
    cases flow with
    | normal => exact (runAll_jump rest h).mono fun _ => List.mem_cons_of_mem _
    | jump =>
      obtain ⟨⟨⟩, _⟩ := pure_eq_ok.1 h
      exact (runStep_jump i ht).mono (by simp)

theorem runElse_jump : ∀ (no : Option (List Instruction)) {env : Env} {s s' : GenerateState},
    runElse ev no env s = .ok (.jump j l) s' → ∃ code, no = some code ∧ Escapes code j l
  | none, _, _, _, h => by simp [runElse] at h
  | some code, _, _, _, h => by
    obtain ⟨_, _, _, h⟩ := bind_eq_ok.1 h
    exact ⟨code, rfl, runAll_jump code h⟩

end

/-- Code that ends normally runs to its end: each part of it ends normally, and the rest goes on from there. -/
theorem runAll_append {code rest : List Instruction} {env : Env} {s s' : GenerateState}
    (h : runAll ev (code ++ rest) env s = .ok .normal s') :
    ∃ t, runAll ev code env s = .ok .normal t ∧ runAll ev rest env t = .ok .normal s' := by
  induction code generalizing s with
  | nil => exact ⟨s, rfl, h⟩
  | cons i code ih =>
    obtain ⟨flow, t, ht, h⟩ := bind_eq_ok.1 h
    cases flow with
    | normal =>
      obtain ⟨u, hu, hrest⟩ := ih h
      exact ⟨u, bind_eq_ok.2 ⟨.normal, t, ht, hu⟩, hrest⟩
    | jump => cases (pure_eq_ok.1 h).1

end Runs

/-! ### Compiled programs -/

/-- A jump in a compiled program stands in an unrolled loop with its label. -/
theorem loop_of_jump {r : Registry} {body : List Stmt} {p : Program} (h : compile r body = .ok p)
    {around : List Instruction} {j : Jump} {l : String} (hj : Occurs p.instructions around (.jump j l)) :
    ∃ loop ∈ around, loop.loopLabel? = some l := by
  rcases origin_of_compile h hj with ⟨_, n, _, hn⟩ | ⟨pl, reach, planned⟩
  · cases hn
  · cases planned with
    | jump plan =>
      obtain ⟨d, known⟩ := Place.mem_labels_of_plan plan
      exact (reach.mem_labels known).resolve_left (by simp [Place.top])

/--
Jumps of a compiled program are caught. Each stands in an unrolled loop with its label, with only staged
constructs in between. So a run of the program that ends without an error ends normally, and it has run
every instruction to its end.
-/
theorem compile_jumps_caught {r : Registry} {body : List Stmt} {p : Program}
    (h : compile r body = .ok p) :
    (∀ around j l, Occurs p.instructions around (.jump j l) →
      ∃ outer loop inner, around = outer ++ loop :: inner ∧ loop.loopLabel? = some l
        ∧ ∀ i ∈ inner, i.isLeaf = false)
    ∧ ∀ ev env s flow s', runAll ev p.instructions env s = .ok flow s' →
      flow = .normal ∧ ∀ before after, p.instructions = before ++ after →
        ∃ t, runAll ev before env s = .ok .normal t ∧ runAll ev after env t = .ok .normal s' := by
  refine ⟨fun around j l hj => ?_, fun ev env s flow s' run => ?_⟩
  · obtain ⟨loop, mem, label⟩ := loop_of_jump h hj
    obtain ⟨outer, inner, rfl⟩ := List.append_of_mem mem
    exact ⟨outer, loop, inner, rfl, label, fun i hi => hj.isLeaf_of_mem i (by simp [hi])⟩
  · cases flow with
    | normal =>
      refine ⟨rfl, fun before after split => ?_⟩
      rw [split] at run
      exact runAll_append run
    | jump j l =>
      obtain ⟨around, hj, free⟩ := runAll_jump p.instructions run
      obtain ⟨loop, mem, label⟩ := loop_of_jump h hj
      exact absurd label (free loop mem)

/-- A loop that leaves the loop around it: `for (const $j of $i) break $l;`. -/
def leavingLoop : Stmt :=
  .forEach ⟨0, 0⟩ .of (some .const) (.name "$j") (.ident ⟨0, 0⟩ "$i") (.break_ ⟨0, 0⟩ (some "$l"))

/-- The loop around it: `$l: for (const $i of $a)`. -/
def leftLoop : Stmt :=
  .labeled ⟨0, 0⟩ "$l" (.forEach ⟨0, 0⟩ .of (some .const) (.name "$i") (.ident ⟨0, 0⟩ "$a") leavingLoop)

def leavingProgram : Program :=
  ⟨["$a"], [.each (some "$l") .of (.name "$i") (.ident ⟨0, 0⟩ "$a") []
    [.each none .of (.name "$j") (.ident ⟨0, 0⟩ "$i") [] [.jump .break_ "$l"]]]⟩

/-- The jump in a loop that stands in the loop with its label is caught. -/
theorem compile_jumps_caught_across :
    compile ⟨["$a"], ["$a"], [], true⟩ [leftLoop] = .ok leavingProgram
    ∧ (∃ around, Occurs leavingProgram.instructions around (.jump .break_ "$l"))
    ∧ ∀ ev env s flow s', runAll ev leavingProgram.instructions env s = .ok flow s' → flow = .normal := by
  have outer : (Place.top ⟨["$a"], ["$a"], [], true⟩).plan leftLoop
      = .unroll (some "$l") .of (.name "$i") (.ident ⟨0, 0⟩ "$a") leavingLoop := by cbv
  have inner : ((Place.top ⟨["$a"], ["$a"], [], true⟩).inRound (some "$l") ["$i"]).plan leavingLoop
      = .unroll none .of (.name "$j") (.ident ⟨0, 0⟩ "$i") (.break_ ⟨0, 0⟩ (some "$l")) := by cbv
  have jump : (((Place.top ⟨["$a"], ["$a"], [], true⟩).inRound (some "$l") ["$i"]).inRound none ["$j"]).plan
      (.break_ ⟨0, 0⟩ (some "$l")) = .jump .break_ "$l" := by cbv
  have compiles : compile ⟨["$a"], ["$a"], [], true⟩ [leftLoop] = .ok leavingProgram :=
    compile_ok_iff.2 ⟨_, false, .unroll outer (.unroll inner (.jump jump .nil) .nil) .nil, by cbv⟩
  refine ⟨compiles, ?_, fun ev env s flow s' run => ((compile_jumps_caught compiles).2 ev env s flow s' run).1⟩
  exact ⟨_, .each (List.mem_singleton_self _) (.each (List.mem_singleton_self _) (.here (List.mem_singleton_self _)))⟩

end Staging.Template
