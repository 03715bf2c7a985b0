/-!
Records: entries under distinct names, in the order in which the names were first given.

Writing to a name that is there changes the entry in its place; a new name goes to the end.
-/

namespace Staging

/-- Entries under names. -/
abbrev Record (α : Type) := List (String × α)

namespace Record

variable {α : Type}

/-- The entry under a name. -/
def get? (r : Record α) (name : String) : Option α :=
  match r with
  | [] => none
  | (k, v) :: rest => if k = name then some v else get? rest name

/-- Writes an entry. -/
def put (r : Record α) (name : String) (value : α) : Record α :=
  match r with
  | [] => [(name, value)]
  | (k, v) :: rest => if k = name then (k, value) :: rest else (k, v) :: put rest name value

/-- The names in order. -/
def names (r : Record α) : List String := r.map (·.1)

/-- A record from entries, later ones winning over earlier ones of the same name. -/
def ofEntries (entries : List (String × α)) : Record α :=
  entries.foldl (fun r e => put r e.1 e.2) []

theorem get?_cons (k : String) (v : α) (rest : Record α) (name : String) :
    get? ((k, v) :: rest) name = if k = name then some v else get? rest name := rfl

theorem put_cons (k : String) (v : α) (rest : Record α) (name : String) (value : α) :
    put ((k, v) :: rest) name value = if k = name then (k, value) :: rest else (k, v) :: put rest name value := rfl

@[simp] theorem get?_put_self (r : Record α) (name : String) (value : α) :
    get? (put r name value) name = some value := by
  induction r with
  | nil => simp [put, get?_cons]
  | cons e rest ih =>
    obtain ⟨k, v⟩ := e
    by_cases h : k = name <;> simp [put_cons, get?_cons, h, ih]

@[simp] theorem get?_put_of_ne (r : Record α) {name other : String} (value : α)
    (h : other ≠ name) : get? (put r name value) other = get? r other := by
  induction r with
  | nil => simp [put, get?_cons, h.symm]
  | cons e rest ih =>
    obtain ⟨k, v⟩ := e
    by_cases hk : k = name
    · subst hk
      simp [put_cons, get?_cons, h.symm]
    · by_cases ho : k = other
      · subst ho
        simp [put_cons, get?_cons, h]
      · simp [put_cons, get?_cons, hk, ho, ih]

/-- A new name goes to the end. -/
theorem put_of_notMem {r : Record α} {name : String} (value : α) (h : name ∉ names r) :
    put r name value = r ++ [(name, value)] := by
  induction r with
  | nil => rfl
  | cons e rest ih =>
    obtain ⟨k, v⟩ := e
    obtain ⟨other, absent⟩ : name ≠ k ∧ name ∉ names rest := by simpa [names] using h
    simp [put_cons, other.symm, ih absent]

theorem get?_isSome {r : Record α} {name : String} : (get? r name).isSome = true ↔ name ∈ names r := by
  induction r with
  | nil => simp [get?, names]
  | cons e rest ih =>
    obtain ⟨k, v⟩ := e
    by_cases h : k = name
    · simp [get?_cons, names, h]
    · have other : ¬ name = k := fun e => h e.symm
      simpa [get?_cons, names, h, other] using ih

/-- Writing to a name that is there leaves the names as they are. -/
theorem names_put_of_mem {r : Record α} {name : String} (value : α) (h : name ∈ names r) :
    names (put r name value) = names r := by
  induction r with
  | nil => cases h
  | cons e rest ih =>
    obtain ⟨k, v⟩ := e
    by_cases same : k = name
    · simp [put_cons, names, same]
    · have there : name ∈ names rest := by
        rcases List.mem_cons.1 h with here | there
        · exact absurd here.symm same
        · exact there
      simpa [put_cons, names, same] using ih there

theorem mem_names_put {r : Record α} {name other : String} (value : α) :
    other ∈ names (put r name value) ↔ other ∈ names r ∨ other = name := by
  by_cases h : name ∈ names r
  · rw [names_put_of_mem value h]
    constructor
    · exact .inl
    · rintro (there | rfl)
      · exact there
      · exact h
  · simp [put_of_notMem value h, names]

/-- Under distinct names every entry is the one under its name. -/
theorem get?_of_mem {r : Record α} {name : String} {value : α} (distinct : (names r).Nodup)
    (h : (name, value) ∈ r) : get? r name = some value := by
  induction r with
  | nil => cases h
  | cons e rest ih =>
    obtain ⟨k, v⟩ := e
    obtain ⟨first, distinct⟩ : k ∉ names rest ∧ (names rest).Nodup := by simpa [names] using distinct
    rcases List.mem_cons.1 h with here | there
    · cases here
      simp [get?_cons]
    · have other : k ≠ name := by
        rintro rfl
        exact first (List.mem_map_of_mem there)
      simp [get?_cons, other, ih distinct there]

end Record

end Staging
