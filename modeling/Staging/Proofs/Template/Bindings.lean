import Mathlib
import Staging.Proofs.Outcome
import Staging.Proofs.Template.Registry

/-!
Registries that can be reached.

A registry is made from parameters, as the union of two, or by binding names and releasing them again, in nested order
(`Registry.Reached`). However it was reached, its raw names are inlined, its inlined names are staged and no name is
there twice; and releasing the innermost binding gives the registry that was there before it, with all names in their
order (`Registry.reached_sound`).
-/

namespace Staging.Template

/-- A binding that was not released yet: what it added, and the registry before it. -/
structure Opened where
  scope : BindingScope
  before : Registry

namespace Registry

/-- Registries that can be reached, each with its open bindings, the innermost first. -/
inductive Reached : Registry → List Opened → Prop
  | params {params : List Param} {options : Options} {r : Registry} :
      ofParams params options = .ok r → Reached r []
  | union {a b : Registry} {inA inB : List Opened} : Reached a inA → Reached b inB → Reached (a.union b) []
  | bind {r : Registry} {outer : List Opened} (names : List String) :
      Reached r outer → Reached (r.bind names).2 (⟨(r.bind names).1, r⟩ :: outer)
  | unbind {r : Registry} {inner : Opened} {outer : List Opened} :
      Reached r (inner :: outer) → Reached (r.unbind inner.scope) outer

/-- A nested registry in which no name is there twice. -/
structure Sound (r : Registry) : Prop extends r.Nested where
  staged_nodup : r.staged.Nodup
  inlined_nodup : r.inlined.Nodup
  raw_nodup : r.raw.Nodup

/-! ### Making registries -/

theorem nodup_of_optionNames {staged found : Names} {given : List String}
    (h : optionNames staged given = .ok found) : found.Nodup := by
  unfold optionNames at h
  split at h
  · cases h
  · cases h
    exact Names.nodup_addAll given List.nodup_nil

/-- What a registry made from parameters consists of. -/
theorem exists_of_ofParams {params : List Param} {options : Options} {r : Registry}
    (h : ofParams params options = .ok r) : ∃ all inlined raw, r.staged = Names.ofList all ∧
      optionNames r.staged options.raw = .ok raw ∧
      (inlined = r.staged ∨ ∃ given, optionNames r.staged given = .ok inlined) ∧
      r.inlined = inlined.addAll raw ∧ r.raw = raw := by
  obtain ⟨all, _, h⟩ := ok_of_bind h
  obtain ⟨raw, rawNames, h⟩ := ok_of_bind h
  dsimp only at h
  split at h
  · obtain rfl := Except.ok.inj h
    exact ⟨_, _, raw, rfl, rawNames, .inl rfl, rfl, rfl⟩
  · obtain ⟨inlined, inlinedNames, h⟩ := ok_of_bind h
    obtain rfl := Except.ok.inj h
    exact ⟨_, inlined, raw, rfl, rawNames, .inr ⟨_, inlinedNames⟩, rfl, rfl⟩

theorem sound_of_ofParams {params : List Param} {options : Options} {r : Registry}
    (h : ofParams params options = .ok r) : r.Sound := by
  obtain ⟨all, inlined, raw, staged, rawNames, inlinedNames, joined, same⟩ := exists_of_ofParams h
  have staged_nodup : r.staged.Nodup := staged ▸ Names.nodup_addAll all List.nodup_nil
  have inlined_nodup : inlined.Nodup := by
    rcases inlinedNames with rfl | ⟨given, found⟩
    · exact staged_nodup
    · exact nodup_of_optionNames found
  constructor
  · exact (ofParams_ok h).1
  · exact staged_nodup
  · exact joined ▸ Names.nodup_addAll raw inlined_nodup
  · exact same ▸ nodup_of_optionNames rawNames

theorem Sound.union {a b : Registry} (ha : a.Sound) (hb : b.Sound) : (a.union b).Sound := by
  constructor
  · constructor
    · intro n inlined
      rcases Names.mem_addAll.1 inlined with first | second
      · exact Names.mem_addAll.2 (.inl (ha.inlined n first))
      · exact Names.mem_addAll.2 (.inr (hb.inlined n second))
    · intro n raw
      rcases Names.mem_addAll.1 raw with first | second
      · exact Names.mem_addAll.2 (.inl (ha.raw n first))
      · exact Names.mem_addAll.2 (.inr (hb.raw n second))
  · exact Names.nodup_addAll _ ha.staged_nodup
  · exact Names.nodup_addAll _ ha.inlined_nodup
  · exact Names.nodup_addAll _ ha.raw_nodup

theorem Sound.bindNames {r : Registry} (h : r.Sound) (names : List String) : (r.bindNames names).Sound := by
  refine ⟨h.toNested.bindNames names, ?_, ?_, ?_⟩
  all_goals rw [bindNames_eq]
  · exact Names.nodup_addAll _ h.staged_nodup
  · by_cases inline : r.inlineBinders
    · simpa only [inline, if_true] using Names.nodup_addAll names h.inlined_nodup
    · simpa [inline] using h.inlined_nodup
  · exact h.raw_nodup

/-! ### Releasing bindings -/

/-- Releasing the open bindings one after the other gives the registries before them. -/
def Releases (r : Registry) : List Opened → Prop
  | [] => True
  | inner :: outer => r.unbind inner.scope = inner.before ∧ inner.before.Sound ∧ inner.before.Releases outer

theorem Reached.invariant {r : Registry} {opened : List Opened} (h : r.Reached opened) :
    r.Sound ∧ r.Releases opened := by
  induction h with
  | params made => exact ⟨sound_of_ofParams made, trivial⟩
  | union _ _ first second => exact ⟨first.1.union second.1, trivial⟩
  | bind names _ ih => exact ⟨ih.1.bindNames names, unbind_bindNames _ names, ih⟩
  | unbind _ ih =>
    obtain ⟨restored, before⟩ := ih.2
    rw [restored]
    exact before

/--
**Registries stay sound.** In every registry that can be reached, raw names are inlined, inlined names are staged, and
no name is there twice. Releasing the innermost of its open bindings gives exactly the registry before that binding.
-/
theorem reached_sound {r : Registry} {opened : List Opened} (h : r.Reached opened) :
    (r.raw ⊆ r.inlined ∧ r.inlined ⊆ r.staged ∧ r.raw.Nodup ∧ r.inlined.Nodup ∧ r.staged.Nodup) ∧
    ∀ inner outer, opened = inner :: outer → r.unbind inner.scope = inner.before := by
  obtain ⟨sound, releases⟩ := h.invariant
  constructor
  · exact ⟨sound.raw, sound.inlined, sound.raw_nodup, sound.inlined_nodup, sound.staged_nodup⟩
  · rintro inner outer rfl
    exact releases.1

/-- A loop binds the declared parameter `$b` and a name twice, and a loop inside it one of them again. -/
theorem reached_sound_overlap : ∃ a b, ofParams [⟨⟨0, 2⟩, .name "$a", none, false⟩] { inline := .all } = .ok a ∧
    ofParams [⟨⟨0, 2⟩, .name "$b", none, false⟩] {} = .ok b ∧
    ((((a.union b).bind ["$b", "$i", "$i"]).2.bind ["$i", "$j"]).2.unbind
      (((a.union b).bind ["$b", "$i", "$i"]).2.bind ["$i", "$j"]).1).inlined = ["$a", "$b", "$i"] := by
  have inlined : ofParams [⟨⟨0, 2⟩, .name "$a", none, false⟩] { inline := .all } = .ok ⟨["$a"], ["$a"], [], true⟩ := by
    cbv
  have declared : ofParams [⟨⟨0, 2⟩, .name "$b", none, false⟩] {} = .ok ⟨["$b"], [], [], false⟩ := by
    cbv
  refine ⟨_, _, inlined, declared, ?_⟩
  have reached := ((Reached.params inlined).union (Reached.params declared)).bind ["$b", "$i", "$i"]
  rw [(reached_sound (reached.bind ["$i", "$j"])).2 _ _ rfl]
  decide

end Registry

end Staging.Template
