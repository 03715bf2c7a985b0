import Staging.Template.Registry

/-!
Laws of registries.

Binding the names of an unrolled loop adds them at the end; taking away what a binding added gives the
registry before it, whatever the names are (`Registry.unbind_bindNames`). In every registry that comes
from a function's parameters inlined names are staged and raw names are inlined (`Registry.Nested`), and
binding keeps it so.
-/

namespace Staging

namespace Names

/-- Adding a name to names of which some were left out. -/
theorem append_filter_add (names acc : Names) (m : String) :
    (names ++ acc.filter (· ∉ names)).add m = names ++ (acc.add m).filter (· ∉ names) := by
  by_cases hn : m ∈ names
  · have hm : m ∈ names ++ acc.filter (· ∉ names) := List.mem_append_left _ hn
    by_cases ha : m ∈ acc <;> simp [add, ha, hn]
  · by_cases ha : m ∈ acc <;> simp [add, ha, hn]

/-- What adding names appends: the new ones, each once. -/
theorem addAll_eq_append (names : Names) (more : List String) :
    names.addAll more = names ++ (ofList more).filter (· ∉ names) := by
  suffices h : ∀ acc : Names, (names ++ acc.filter (· ∉ names)).addAll more
      = names ++ (acc.addAll more).filter (· ∉ names) by
    simpa [ofList] using h []
  induction more with
  | nil => intro acc; rfl
  | cons m rest ih =>
    intro acc
    have step : (names ++ acc.filter (· ∉ names)).addAll (m :: rest)
        = (names ++ (acc.add m).filter (· ∉ names)).addAll rest := by
      rw [← append_filter_add]; rfl
    rw [step, ih]
    rfl

/-- Erasing the names that were appended. -/
theorem foldl_erase_append (names : Names) (extra : List String) (h : ∀ x ∈ extra, x ∉ names) :
    extra.foldl List.erase (names ++ extra) = names := by
  induction extra with
  | nil => simp
  | cons x rest ih =>
    have hx : x ∉ names := h x (by simp)
    rw [List.foldl_cons, List.erase_append_right _ hx, List.erase_cons_head]
    exact ih fun y hy => h y (by simp [hy])

/-- Taking away the new names that were added. -/
theorem foldl_erase_addAll (names : Names) (more : List String) :
    ((ofList more).filter (· ∉ names)).foldl List.erase (names.addAll more) = names := by
  rw [addAll_eq_append]
  exact foldl_erase_append _ _ fun x hx => by simpa using (List.mem_filter.1 hx).2

end Names

namespace Template.Registry

variable (r : Registry) (names : List String)

theorem bindNames_eq :
    r.bindNames names =
      { r with
        staged := r.staged.addAll names
        inlined := if r.inlineBinders then r.inlined.addAll names else r.inlined } := by
  induction names generalizing r with
  | nil => simp [bindNames, Names.addAll]
  | cons n rest ih =>
    have step : r.bindNames (n :: rest) = (r.bindOne n).bindNames rest := rfl
    rw [step, ih]
    by_cases h : r.inlineBinders <;> simp [bindOne, Names.addAll, h]

/-- Taking away what a binding added gives the registry before it. -/
theorem unbind_bindNames : (r.bindNames names).unbind (r.added names) = r := by
  obtain ⟨staged, inlined, raw, inlineBinders⟩ := r
  rw [bindNames_eq]
  cases inlineBinders
  · simp only [unbind, added, Bool.false_eq_true, if_false, List.foldl_nil, Names.foldl_erase_addAll]
  · simp only [unbind, added, if_true, Names.foldl_erase_addAll]

variable {r names}

theorem mem_staged_bindNames {x : String} :
    x ∈ (r.bindNames names).staged ↔ x ∈ r.staged ∨ x ∈ names := by
  rw [bindNames_eq, Names.mem_addAll]

/-- Raw names are inlined, and inlined names are staged. -/
structure Nested (r : Registry) : Prop where
  inlined : ∀ n ∈ r.inlined, n ∈ r.staged
  raw : ∀ n ∈ r.raw, n ∈ r.inlined

theorem Nested.bindNames (h : r.Nested) (names : List String) : (r.bindNames names).Nested := by
  rw [bindNames_eq]
  constructor
  · intro n hn
    by_cases hb : r.inlineBinders
    · simp only [hb, if_true, Names.mem_addAll] at hn
      exact Names.mem_addAll.2 (hn.imp_left (h.inlined n))
    · simp only [hb] at hn
      exact Names.mem_addAll.2 (.inl (h.inlined n hn))
  · intro n hn
    by_cases hb : r.inlineBinders
    · simp only [hb, if_true, Names.mem_addAll]
      exact .inl (h.raw n hn)
    · simpa [hb] using h.raw n hn

/-- Options can only name staged parameters. -/
theorem mem_of_optionNames {staged : Names} {given : List String} {found : Names}
    (h : optionNames staged given = .ok found) {n : String} (hn : n ∈ found) : n ∈ staged := by
  unfold optionNames at h
  split at h
  · simp at h
  · rename_i none
    simp only [Except.ok.injEq] at h
    subst h
    have : n ∈ given := by simpa [Names.ofList] using hn
    simpa using List.find?_eq_none.1 none n this

/-- Inlined names together with raw ones, all of them staged, make a nested registry. -/
theorem nested_of_subset {staged inlined raw : Names} {inlineBinders : Bool}
    (hi : ∀ n ∈ inlined, n ∈ staged) (hr : ∀ n ∈ raw, n ∈ staged) :
    (Registry.mk staged (inlined.addAll raw) raw inlineBinders).Nested where
  inlined n hn := (Names.mem_addAll.1 hn).elim (hi n) (hr n)
  raw _ hn := Names.mem_addAll.2 (.inr hn)

/-- A registry made from parameters is nested, and its staged names are those of the parameters. -/
theorem ofParams_ok {params : List Param} {options : Options} (h : ofParams params options = .ok r) :
    r.Nested ∧ ∃ all, paramNames params = .ok all ∧ r.staged = Names.ofList (all.filter isStageName) := by
  simp only [ofParams, Bind.bind, Except.bind, pure, Except.pure] at h
  cases hp : paramNames params with
  | error e => simp [hp] at h
  | ok all =>
    simp only [hp] at h
    cases hraw : optionNames (Names.ofList (all.filter isStageName)) options.raw with
    | error e => simp [hraw] at h
    | ok raw =>
      simp only [hraw] at h
      split at h
      · obtain rfl := Except.ok.inj h
        exact ⟨nested_of_subset (fun _ hn => hn) fun n => mem_of_optionNames hraw, all, rfl, rfl⟩
      · split at h
        · simp at h
        · rename_i hinline
          obtain rfl := Except.ok.inj h
          exact ⟨nested_of_subset (fun n => mem_of_optionNames hinline) fun n => mem_of_optionNames hraw,
            all, rfl, rfl⟩

end Template.Registry

end Staging
