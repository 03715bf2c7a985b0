/-!
Sets of names in the order in which they were first added.
-/

namespace Staging

/-- Distinct names, in order. -/
abbrev Names := List String

namespace Names

/-- Adds a name at the end, unless it is there. -/
def add (names : Names) (name : String) : Names :=
  if name ∈ names then names else names ++ [name]

/-- Adds names one after the other. -/
def addAll (names : Names) (more : List String) : Names := more.foldl add names

/-- The distinct names of a list. -/
def ofList (names : List String) : Names := addAll [] names

@[simp] theorem mem_add {names : Names} {name x : String} :
    x ∈ names.add name ↔ x ∈ names ∨ x = name := by
  unfold add
  split <;> rename_i h
  · exact ⟨.inl, fun h' => h'.elim id fun e => e ▸ h⟩
  · simp

@[simp] theorem mem_addAll {names : Names} {more : List String} {x : String} :
    x ∈ names.addAll more ↔ x ∈ names ∨ x ∈ more := by
  induction more generalizing names with
  | nil => simp [addAll]
  | cons m rest ih =>
    have : x ∈ (names.add m).addAll rest ↔ x ∈ names.add m ∨ x ∈ rest := ih
    simp only [addAll, List.foldl_cons] at this ⊢
    simp [this, or_assoc]

theorem nodup_add {names : Names} (name : String) (h : names.Nodup) : (names.add name).Nodup := by
  unfold add
  split
  · exact h
  · rename_i hn
    exact List.nodup_append.2 ⟨h, by simp, fun a ha b hb => by
      rintro rfl; exact hn (List.mem_singleton.1 hb ▸ ha)⟩

theorem nodup_addAll {names : Names} (more : List String) (h : names.Nodup) :
    (names.addAll more).Nodup := by
  induction more generalizing names with
  | nil => exact h
  | cons m rest ih => exact ih (nodup_add m h)

end Names

end Staging
