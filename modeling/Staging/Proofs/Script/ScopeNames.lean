import Staging.Proofs.Script.Effects
import Staging.Proofs.Script.Scope

/-!
The names that scopes declare.

Which names a scope declares changes only by declaring in it: `KeepsNames g i` says that this happens to the globals
`g` and to the scope `i` at most, and new scopes may be made. All that a script does respects it
(`conserves_keepsNames`), if only the functions of the host program do. A name can be looked up where one of the scopes
declares it (`getVar_of_declared`). Binding a pattern declares its names and no others (`bindPattern_names`).
-/

namespace Staging.Script

/-! ### Declared names -/

/-- One of the scopes declares the name. -/
def Heap.Declares (h : Heap) (scopes : Env) (name : String) : Prop := ∃ i ∈ scopes, name ∈ (h.frame i).names

theorem Heap.declares_congr {h h' : Heap} {scopes : Env} (same : ∀ j ∈ scopes, (h'.frame j).names = (h.frame j).names)
    (name : String) : h'.Declares scopes name ↔ h.Declares scopes name := by
  constructor
  · rintro ⟨j, inside, declared⟩
    exact ⟨j, inside, same j inside ▸ declared⟩
  · rintro ⟨j, inside, declared⟩
    exact ⟨j, inside, (same j inside).symm ▸ declared⟩

theorem Heap.declares_cons {h : Heap} {k : Nat} {scopes : Env} {name : String} :
    h.Declares (k :: scopes) name ↔ name ∈ (h.frame k).names ∨ h.Declares scopes name := by
  simp only [Heap.Declares, List.mem_cons, or_and_right, exists_or, exists_eq_left]

theorem Heap.isSome_resolve? (h : Heap) (env : Env) (name : String) :
    (h.resolve? env name).isSome = true ↔ h.Declares env name := by
  induction env with
  | nil => simp [Heap.resolve?, Heap.Declares]
  | cons i outer ih =>
    have here : ((h.frame i).get? name).isSome = true ↔ name ∈ (h.frame i).names := Record.get?_isSome
    cases found : (h.frame i).get? name with
    | some b =>
      rw [found] at here
      simp only [Heap.resolve?, found, Option.isSome_some, true_iff]
      exact Heap.declares_cons.2 (.inl (here.1 rfl))
    | none =>
      rw [found] at here
      have absent : name ∉ (h.frame i).names := fun inside => Bool.false_ne_true (here.2 inside)
      rw [Heap.declares_cons]
      simp only [Heap.resolve?, found, ih, absent, false_or]

/-- A declared name has a value. -/
theorem getVar_of_declared {s : State} {env : Env} {name : String} (h : s.toHeap.Declares env name) :
    ∃ v, getVar env name s = .ok v s := by
  obtain ⟨⟨i, b⟩, found⟩ := Option.isSome_iff_exists.1 ((s.toHeap.isSome_resolve? env name).2 h)
  refine ⟨b.value, bind_eq_ok.2 ⟨s.toHeap, s, rfl, ?_⟩⟩
  simp only [Heap.lookup?, found]
  rfl

/-! ### What keeps the names of scopes -/

/-- The scopes stay and declare the same names, apart from the globals `g` and the scope `i`. -/
structure KeepsNames (g : Nat) (i : Option Nat) (s t : State) : Prop where
  size : s.frames.size ≤ t.frames.size
  names : ∀ j < s.frames.size, j ≠ g → some j ≠ i → (t.toHeap.frame j).names = (s.toHeap.frame j).names

theorem KeepsNames.of_frames {g : Nat} {i : Option Nat} {s t : State} (h : t.frames = s.frames) :
    KeepsNames g i s t := by
  constructor
  · exact Nat.le_of_eq (congrArg Array.size h.symm)
  · intro j _ _ _
    simp only [Heap.frame, h]

theorem connected_keepsNames (g : Nat) (i : Option Nat) : Connected (KeepsNames g i) where
  refl _ := .of_frames rfl
  trans := by
    intro s t u first second
    constructor
    · exact Nat.le_trans first.size second.size
    · intro j inside noGlobal other
      have inside' := Nat.lt_of_lt_of_le inside first.size
      exact (second.names j inside' noGlobal other).trans (first.names j inside noGlobal other)

/-- Changing one scope concerns no other. -/
theorem Heap.frame_modify_of_ne {h : Heap} {i j : Nat} (f : Record Binding → Record Binding) (other : j ≠ i) :
    Heap.frame { h with frames := h.frames.modify i f } j = h.frame j := by
  simp [Heap.frame, Array.getElem?_modify, other.symm]

theorem Heap.frame_modify_self {h : Heap} {i : Nat} (f : Record Binding → Record Binding) (inside : i < h.frames.size) :
    Heap.frame { h with frames := h.frames.modify i f } i = f (h.frame i) := by
  simp [Heap.frame, Array.getElem_modify_self, inside]

/-- An assignment goes to a scope that declares the name. -/
theorem Heap.mem_names_of_target {h : Heap} {env : Env} {name : String} {i : Nat} (target : h.target env name = .ok i) :
    name ∈ (h.frame i).names := by
  induction env with
  | nil => cases target
  | cons k outer ih =>
    cases found : (h.frame k).get? name with
    | some b =>
      have here : k = i := by
        simp only [Heap.target, Heap.resolve?, found] at target
        split at target
        · exact Except.ok.inj target
        · cases target
      subst here
      exact Record.get?_isSome.1 (by rw [found]; rfl)
    | none =>
      refine ih ?_
      simpa only [Heap.target, Heap.resolve?, found] using target

/-- **What a script does keeps the names of scopes, apart from those it declares in.** -/
theorem conserves_keepsNames (g : Nat) : Conserves (KeepsNames g) where
  connected := connected_keepsNames g
  inside kept := ⟨kept.size, fun j inside noGlobal _ => kept.names j inside noGlobal nofun⟩
  heap s h frames := .of_frames frames
  declare s i outer name v mutable := by
    constructor
    · exact Nat.le_of_eq (Heap.size_declare ..).symm
    · intro j _ _ other
      have other : j ≠ i := fun same => other (congrArg some same)
      have kept : (s.toHeap.declare (i :: outer) name v mutable).frame j = s.toHeap.frame j :=
        Heap.frame_declare_of_ne other
      exact congrArg Record.names kept
  write s env name i v target := by
    constructor
    · exact Nat.le_of_eq (Array.size_modify ..).symm
    · intro j inside _ _
      by_cases same : j = i
      · subst same
        have written := Heap.frame_modify_self (h := s.toHeap) (·.put name ⟨v, true⟩) inside
        exact (congrArg Record.names written).trans (Record.names_put_of_mem _ (Heap.mem_names_of_target target))
      · exact congrArg Record.names (Heap.frame_modify_of_ne _ same)
  child s t env kept := by
    have grown : s.frames.size < (s.toHeap.child env).2.frames.size := by simp [Heap.child]
    constructor
    · exact Nat.le_of_lt (Nat.lt_of_lt_of_le grown kept.size)
    · intro j inside noGlobal _
      have old : some j ≠ some s.frames.size := fun same => Nat.ne_of_lt inside (Option.some.inj same)
      have before : (s.toHeap.child env).2.frame j = s.toHeap.frame j := Heap.frame_child ..
      exact (kept.names j (Nat.lt_trans inside grown) noGlobal old).trans (congrArg Record.names before)
  nested s t kept := ⟨kept.size, kept.names⟩

/-! ### The globals -/

theorem Heap.frames_builtinFields (h : Heap) (bs : List Builtin) : (h.builtinFields bs).2.frames = h.frames := by
  induction bs generalizing h with
  | nil => rfl
  | cons b rest ih => exact ih (h.builtin b).2

theorem Heap.frame_declareModule_of_ne {h : Heap} {i j : Nat} {outer : Env} {name : String} {fields : Record Value}
    {bs : List Builtin} (other : j ≠ i) : (h.declareModule (i :: outer) name fields bs).frame j = h.frame j := by
  have declared : ∀ (h' : Heap) (v : Value), (h'.declare (i :: outer) name v false).frame j = h'.frame j :=
    fun _ _ => Heap.frame_declare_of_ne other
  calc (h.declareModule (i :: outer) name fields bs).frame j
    _ = (h.builtinFields bs).2.frame j := declared _ _
    _ = h.frame j := by simp only [Heap.frame, Heap.frames_builtinFields]

/-- New globals are a scope of their own. -/
theorem Heap.frame_globals_of_lt {h : Heap} {j : Nat} (inside : j < h.frames.size) :
    h.globals.2.frame j = h.frame j := by
  have other : j ≠ h.frames.size := Nat.ne_of_lt inside
  have functions : ∀ (bs : List Builtin) (h' : Heap), (bs.foldl (fun h' b =>
      (h'.builtin b).2.declare [h.frames.size] b.name (h'.builtin b).1 false) h').frame j = h'.frame j := by
    intro bs
    induction bs with
    | nil => exact fun _ => rfl
    | cons b rest ih => exact fun h' => (ih _).trans (Heap.frame_declare_of_ne other)
  have root : h.rootScope.2.frame j = h.frame j := by
    simp [Heap.rootScope, Heap.frame, Array.getElem?_push, other]
  refine (functions _ _).trans ?_
  rw [Heap.frame_declareModule_of_ne other, Heap.frame_declareModule_of_ne other,
    Heap.frame_declareModule_of_ne other]
  exact root

theorem along_freshGlobals (g : Nat) (i : Option Nat) : Along (KeepsNames g i) freshGlobals := by
  intro s
  constructor
  · exact Nat.le_of_lt (by rw [show (endOf (freshGlobals s)).frames.size = _ from s.toHeap.size_globals]; omega)
  · intro j inside _ _
    exact congrArg Record.names (Heap.frame_globals_of_lt inside)

/-! ### The names of a pattern -/

theorem elementsOf_ok {v : Value} {vs : List Value} {s t : State} (h : elementsOf v s = .ok vs t) : t = s := by
  unfold elementsOf at h
  split at h
  · obtain ⟨_, _, got, rest⟩ := bind_eq_ok.1 h
    cases got
    cases rest
    rfl
  · cases h
    rfl
  · cases h

theorem getProperty_ok {v w : Value} {key : String} {s t : State} (h : getProperty v key s = .ok w t) : t = s := by
  obtain ⟨_, _, got, rest⟩ := bind_eq_ok.1 h
  cases got
  split at rest
  · cases rest
  · cases rest
    rfl

mutual

/-- **Binding a pattern declares its names and no others.** -/
theorem bindPattern_names {k : Nat} {outer : Env} {mutable : Bool} : ∀ (p : Pattern) {v : Value} {s t : State},
    k < s.frames.size → bindPattern (k :: outer) (.declare mutable) p v s = .ok () t →
    ∀ n, n ∈ (t.toHeap.frame k).names ↔ n ∈ (s.toHeap.frame k).names ∨ n ∈ p.names
  | .name m, v, s, t, inside, run, n => by
    unfold bindPattern at run
    cases run
    have declared : (s.toHeap.declare (k :: outer) m v mutable).frame k = (s.toHeap.frame k).put m ⟨v, mutable⟩ :=
      Heap.frame_declare inside
    show n ∈ ((s.toHeap.declare (k :: outer) m v mutable).frame k).names ↔ _
    rw [declared, Record.mem_names_put, Pattern.names, List.mem_singleton]
  | .array items, v, s, t, inside, run, n => by
    unfold bindPattern at run
    obtain ⟨vs, u, got, run⟩ := bind_eq_ok.1 run
    rw [elementsOf_ok got] at run
    simpa [Pattern.names] using bindItems_names items inside run n
  | .object props, v, s, t, inside, run, n => by
    unfold bindPattern at run
    split at run
    · obtain ⟨_, _, _, run⟩ := bind_eq_ok.1 run
      cases run
    · simpa [Pattern.names] using bindProps_names props inside run n

theorem bindItems_names {k : Nat} {outer : Env} {mutable : Bool} :
    ∀ (ps : List Pattern) {vs : List Value} {s t : State}, k < s.frames.size →
    bindItems (k :: outer) (.declare mutable) ps vs s = .ok () t →
    ∀ n, n ∈ (t.toHeap.frame k).names ↔ n ∈ (s.toHeap.frame k).names ∨ n ∈ Pattern.namesOfItems ps
  | [], vs, s, t, _, run, n => by
    cases run
    simp [Pattern.namesOfItems]
  | p :: rest, vs, s, t, inside, run, n => by
    obtain ⟨_, u, first, run⟩ := bind_eq_ok.1 run
    have grown := (((conserves_keepsNames 0).bindPattern _ p _).ok first).size
    rw [bindItems_names rest (Nat.lt_of_lt_of_le inside grown) run, bindPattern_names p inside first,
      Pattern.namesOfItems, List.mem_append, or_assoc]

theorem bindProps_names {k : Nat} {outer : Env} {mutable : Bool} :
    ∀ (ps : List PatternProperty) {v : Value} {s t : State}, k < s.frames.size →
    bindProps (k :: outer) (.declare mutable) ps v s = .ok () t →
    ∀ n, n ∈ (t.toHeap.frame k).names ↔ n ∈ (s.toHeap.frame k).names ∨ n ∈ Pattern.namesOfProps ps
  | [], v, s, t, _, run, n => by
    cases run
    simp [Pattern.namesOfProps]
  | ⟨key, p⟩ :: rest, v, s, t, inside, run, n => by
    unfold bindProps at run
    obtain ⟨part, u, got, run⟩ := bind_eq_ok.1 run
    rw [getProperty_ok got] at run
    obtain ⟨_, u, first, run⟩ := bind_eq_ok.1 run
    have grown := (((conserves_keepsNames 0).bindPattern _ p _).ok first).size
    rw [bindProps_names rest (Nat.lt_of_lt_of_le inside grown) run, bindPattern_names p inside first,
      Pattern.namesOfProps, List.mem_append, or_assoc]

end

end Staging.Script
