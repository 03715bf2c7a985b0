import Mathlib.Data.List.Nodup
import Staging.Proofs.Template.DatumTree
import Staging.Template.Written

/-!
Circular structures.

A value is circular when it reaches a container that holds, through whatever it holds, itself. Writing out ends for
every value of every heap, and it fails exactly for the circular ones (`written_circular_iff`). What is shared without
a cycle is written out wherever it occurs.

The written form is computed with a bound on the number of containers that may still be entered. `WritesOut` has no
bound: it says by rules how writing out a value ends, in the order in which values are visited. That every value
has a result by these rules means that writing out ends; that the bound is never what ends it is `writesOut_iff`.
-/

namespace Staging.Script

open Relation

/-- Something that the value reaches, the value itself included, holds itself through what it holds. -/
def Heap.Circular (h : Heap) (v : Value) : Prop := ∃ w, ReflTransGen h.Holds v w ∧ TransGen h.Holds w w

end Staging.Script

namespace Staging.Template

open Script Relation

/-! ### Containers -/

/-- The container that a value is. -/
def Container.ofValue? : Value → Option Container
  | .array ref => some (.array ref)
  | .object ref => some (.object ref)
  | _ => none

theorem Container.ofValue?_eq_some {v : Value} {c : Container} : Container.ofValue? v = some c ↔ v = c.value := by
  cases v <;> cases c <;> simp [Container.ofValue?, Container.value]

theorem Container.value_injective : Function.Injective Container.value := by
  intro b c same
  cases b <;> cases c <;> cases same <;> rfl

/-- The code of a container whose contents have the given codes. -/
def codeAround (h : Heap) (c : Container) (codes : List (Option String)) : String :=
  match c with
  | .array _ => arrayCode codes
  | .object ref => objectCode ((h.object ref).names.zip codes)

variable {h : Heap}

/-- The fields of an object are written as their values are. -/
theorem mapM_fields (f : Value → Except TypeFault (Option String)) (r : Record Value) :
    r.mapM (fun x => do return (x.1, ← f x.2)) = ((r.map (·.2)).mapM f).map (r.names.zip ·) := by
  induction r with
  | nil => rfl
  | cons x rest ih =>
    rw [List.mapM_cons, ih, List.map_cons, List.mapM_cons]
    cases f x.2 with
    | error fault => rfl
    | ok code => cases (rest.map (·.2)).mapM f <;> rfl

/-- A container that is not open is written as its contents are, one level further in. -/
theorem codeOf_container {v : Value} {c : Container} (is : Container.ofValue? v = some c) (fuel : Nat)
    (path : List Container) : codeOf h (fuel + 1) path v = if c ∈ path then .error .circular else
      ((h.contents v).mapM (codeOf h fuel (c :: path))).map fun codes => some (codeAround h c codes) := by
  obtain rfl := Container.ofValue?_eq_some.1 is
  by_cases inside : c ∈ path
  · cases c <;> simp only [Container.value, codeOf, enter, if_pos inside] <;> rfl
  · rw [if_neg inside]
    cases c with
    | array ref =>
      calc codeOf h (fuel + 1) path (.array ref)
        _ = (h.array ref).toList.mapM (codeOf h fuel (.array ref :: path)) >>= fun items =>
              pure (some (arrayCode items)) := by rw [codeOf, enter, if_neg inside]; rfl
        _ = _ := by
          rw [Container.value, Heap.contents]
          cases (h.array ref).toList.mapM (codeOf h fuel (.array ref :: path)) <;> rfl
    | object ref =>
      calc codeOf h (fuel + 1) path (.object ref)
        _ = (h.object ref).mapM (fun x => do return (x.1, ← codeOf h fuel (.object ref :: path) x.2)) >>= fun fields =>
              pure (some (objectCode fields)) := by rw [codeOf, enter, if_neg inside]; rfl
        _ = _ := by
          rw [mapM_fields, Container.value, Heap.contents]
          cases ((h.object ref).map (·.2)).mapM (codeOf h fuel (.object ref :: path)) <;> rfl

/-- What is no container is written at once. -/
theorem codeOf_leaf {v : Value} (leaf : Container.ofValue? v = none) :
    ∃ code, ∀ fuel path, codeOf h fuel path v = .ok code := by
  cases v with
  | array ref | object ref => cases leaf
  | _ => exact ⟨_, fun fuel path => by cases fuel <;> rfl⟩

/-! ### Writing out without a bound -/

variable (h) in
mutual

/-- Writing out a value inside open containers ends so. -/
inductive WritesOut : List Container → Value → Except TypeFault (Option String) → Prop
  /-- What is no container is written at once. -/
  | leaf {path : List Container} {v : Value} {code : Option String} :
      Container.ofValue? v = none → codeOf h 0 path v = .ok code → WritesOut path v (.ok code)
  /-- A container that is open already is not entered again. -/
  | again {path : List Container} {v : Value} {c : Container} :
      Container.ofValue? v = some c → c ∈ path → WritesOut path v (.error .circular)
  | whole {path : List Container} {v : Value} {c : Container} {codes : List (Option String)} :
      Container.ofValue? v = some c → c ∉ path → WritesAll (c :: path) (h.contents v) (.ok codes) →
      WritesOut path v (.ok (some (codeAround h c codes)))
  | broken {path : List Container} {v : Value} {c : Container} {fault : TypeFault} :
      Container.ofValue? v = some c → c ∉ path → WritesAll (c :: path) (h.contents v) (.error fault) →
      WritesOut path v (.error fault)

/-- Writing out values one after the other ends so: with all codes, or with the first failure. -/
inductive WritesAll : List Container → List Value → Except TypeFault (List (Option String)) → Prop
  | nil {path : List Container} : WritesAll path [] (.ok [])
  | cons {path : List Container} {v : Value} {rest : List Value} {code : Option String}
      {codes : List (Option String)} :
      WritesOut path v (.ok code) → WritesAll path rest (.ok codes) → WritesAll path (v :: rest) (.ok (code :: codes))
  | first {path : List Container} {v : Value} {rest : List Value} {fault : TypeFault} :
      WritesOut path v (.error fault) → WritesAll path (v :: rest) (.error fault)
  | later {path : List Container} {v : Value} {rest : List Value} {code : Option String} {fault : TypeFault} :
      WritesOut path v (.ok code) → WritesAll path rest (.error fault) → WritesAll path (v :: rest) (.error fault)

end

/-- The open containers are different containers of the heap, and so many may still be entered that they are not all. -/
structure Room (h : Heap) (path : List Container) (fuel : Nat) : Prop where
  distinct : path.Nodup
  inside : ∀ c ∈ path, c.value ∈ h.containers
  enough : h.containers.length < path.length + fuel

namespace Room

variable {path : List Container} {fuel : Nat}

theorem start (h : Heap) : Room h [] (h.arrays.size + h.objects.size + 2) where
  distinct := .nil
  inside := nofun
  enough := by
    rw [Heap.length_containers, List.length_nil]
    omega

/-- There are not more open containers than containers, so one may always be entered. -/
theorem exists_succ (room : Room h path fuel) : ∃ n, fuel = n + 1 := by
  have open_ : path.map Container.value ⊆ h.containers := by
    intro v there
    obtain ⟨c, opened, rfl⟩ := List.mem_map.1 there
    exact room.inside c opened
  have distinct := room.distinct.map Container.value_injective
  have few := (List.subperm_of_subset distinct open_).length_le
  have enough := room.enough
  rw [List.length_map] at few
  exact ⟨fuel - 1, by omega⟩

/-- A container is entered for something that it holds. -/
theorem entered {c : Container} {v w : Value} (room : Room h path (fuel + 1)) (is : Container.ofValue? v = some c)
    (fresh : c ∉ path) (holds : h.Holds v w) : Room h (c :: path) fuel where
  distinct := List.nodup_cons.2 ⟨fresh, room.distinct⟩
  inside := by
    rw [List.forall_mem_cons, ← Container.ofValue?_eq_some.1 is]
    exact ⟨Heap.mem_containers_of_holds holds, room.inside⟩
  enough := by
    have enough := room.enough
    rw [List.length_cons]
    omega

end Room

theorem writesAll_mapM {path : List Container} {fuel : Nat} (vs : List Value)
    (each : ∀ v ∈ vs, WritesOut h path v (codeOf h fuel path v)) :
    WritesAll h path vs (vs.mapM (codeOf h fuel path)) := by
  induction vs with
  | nil => exact .nil
  | cons v rest ih =>
    rw [List.forall_mem_cons] at each
    obtain ⟨first, others⟩ := each
    have later := ih others
    rw [List.mapM_cons]
    cases wrote : codeOf h fuel path v with
    | error fault => exact .first (wrote ▸ first)
    | ok code =>
      cases wroteAll : rest.mapM (codeOf h fuel path) with
      | error fault => exact .later (wrote ▸ first) (wroteAll ▸ later)
      | ok codes => exact .cons (wrote ▸ first) (wroteAll ▸ later)

/-- **Writing out ends.** -/
theorem writesOut_codeOf (fuel : Nat) : ∀ (path : List Container) (v : Value), Room h path fuel →
    WritesOut h path v (codeOf h fuel path v) := by
  induction fuel with
  | zero =>
    intro path v room
    obtain ⟨_, none⟩ := room.exists_succ
    cases none
  | succ fuel ih =>
    intro path v room
    cases is : Container.ofValue? v with
    | none =>
      obtain ⟨code, wrote⟩ := codeOf_leaf is
      rw [wrote]
      exact .leaf is (wrote 0 path)
    | some c =>
      by_cases inside : c ∈ path
      · rw [codeOf_container is, if_pos inside]
        exact .again is inside
      · have all := writesAll_mapM (h.contents v) fun w holds => ih (c :: path) w (room.entered is inside holds)
        rw [codeOf_container is, if_neg inside]
        cases wrote : (h.contents v).mapM (codeOf h fuel (c :: path)) with
        | error fault => exact .broken is inside (wrote ▸ all)
        | ok codes => exact .whole is inside (wrote ▸ all)

mutual

/-- The rules lead to no other result. -/
theorem codeOf_of_writesOut : ∀ {path : List Container} {v : Value} {r : Except TypeFault (Option String)},
    WritesOut h path v r → ∀ {fuel : Nat}, Room h path fuel → codeOf h fuel path v = r
  | _, _, _, .leaf is code, fuel, _ => by
    obtain ⟨_, wrote⟩ := codeOf_leaf is
    rw [wrote, ← wrote 0, code]
  | _, _, _, .again is inside, _, room => by
    obtain ⟨fuel, rfl⟩ := room.exists_succ
    rw [codeOf_container is, if_pos inside]
  | _, v, _, .whole is fresh all, _, room => by
    obtain ⟨fuel, rfl⟩ := room.exists_succ
    rw [codeOf_container is, if_neg fresh, mapM_of_writesAll all fun w holds => room.entered is fresh holds]
    rfl
  | _, v, _, .broken is fresh all, _, room => by
    obtain ⟨fuel, rfl⟩ := room.exists_succ
    rw [codeOf_container is, if_neg fresh, mapM_of_writesAll all fun w holds => room.entered is fresh holds]
    rfl

theorem mapM_of_writesAll : ∀ {path : List Container} {vs : List Value} {r : Except TypeFault (List (Option String))},
    WritesAll h path vs r → ∀ {fuel : Nat}, (∀ v ∈ vs, Room h path fuel) → vs.mapM (codeOf h fuel path) = r
  | _, _, _, .nil, _, _ => rfl
  | _, v :: _, _, .cons first rest, _, room => by
    rw [List.forall_mem_cons] at room
    rw [List.mapM_cons, codeOf_of_writesOut first room.1, mapM_of_writesAll rest room.2]
    rfl
  | _, v :: _, _, .first first, _, room => by
    rw [List.forall_mem_cons] at room
    rw [List.mapM_cons, codeOf_of_writesOut first room.1]
    rfl
  | _, v :: _, _, .later first rest, _, room => by
    rw [List.forall_mem_cons] at room
    rw [List.mapM_cons, codeOf_of_writesOut first room.1, mapM_of_writesAll rest room.2]
    rfl

end

/-- The bound is never what ends writing out. -/
theorem writesOut_iff {path : List Container} {v : Value} {r : Except TypeFault (Option String)} {fuel : Nat}
    (room : Room h path fuel) : WritesOut h path v r ↔ codeOf h fuel path v = r := by
  constructor
  · intro ends
    exact codeOf_of_writesOut ends room
  · rintro rfl
    exact writesOut_codeOf fuel path v room

/-! ### Circular structures -/

/-- What the value reaches is a container that is open, or one that holds itself. -/
def Returns (h : Heap) (path : List Container) (v : Value) : Prop :=
  (∃ c ∈ path, ReflTransGen h.Holds v c.value) ∨ h.Circular v

theorem returns_nil {v : Value} : Returns h [] v ↔ h.Circular v := by
  simp [Returns]

theorem not_returns_leaf {path : List Container} {v : Value} (leaf : Container.ofValue? v = none) :
    ¬ Returns h path v := by
  have holdsNone : ∀ u, ¬ h.Holds v u := by
    intro u holds
    cases v with
    | array ref | object ref => cases leaf
    | _ => cases holds
  have reachesItself : ∀ u, ReflTransGen h.Holds v u → v = u := by
    intro u reach
    rcases reach.cases_head with same | ⟨w, holds, _⟩
    · exact same
    · exact absurd holds (holdsNone w)
  rintro (⟨c, -, reach⟩ | ⟨u, reach, cycle⟩)
  · rw [Container.ofValue?_eq_some.2 (reachesItself _ reach)] at leaf
    cases leaf
  · obtain ⟨w, holds, _⟩ := TransGen.head'_iff.1 cycle
    exact holdsNone w (reachesItself u reach ▸ holds)

theorem not_mem_of_not_returns {path : List Container} {v : Value} {c : Container}
    (is : Container.ofValue? v = some c) (none : ¬ Returns h path v) : c ∉ path := by
  intro opened
  refine none (.inl ⟨c, opened, ?_⟩)
  rw [Container.ofValue?_eq_some.1 is]

/-- One level further in the container counts as open. -/
theorem returns_iff {path : List Container} {v : Value} {c : Container} (is : Container.ofValue? v = some c)
    (fresh : c ∉ path) : Returns h path v ↔ ∃ w ∈ h.contents v, Returns h (c :: path) w := by
  have same := Container.ofValue?_eq_some.1 is
  constructor
  · rintro (⟨b, opened, reach⟩ | ⟨u, reach, cycle⟩)
    · rcases reach.cases_head with here | ⟨w, holds, reach⟩
      · obtain rfl := Container.value_injective (same.symm.trans here)
        exact absurd opened fresh
      · exact ⟨w, holds, .inl ⟨b, List.mem_cons_of_mem _ opened, reach⟩⟩
    · rcases reach.cases_head with rfl | ⟨w, holds, reach⟩
      · obtain ⟨w, holds, back⟩ := TransGen.head'_iff.1 cycle
        exact ⟨w, holds, .inl ⟨c, List.mem_cons_self, same ▸ back⟩⟩
      · exact ⟨w, holds, .inr ⟨u, reach, cycle⟩⟩
  · rintro ⟨w, holds, ⟨b, opened, reach⟩ | ⟨u, reach, cycle⟩⟩
    · rcases List.mem_cons.1 opened with rfl | opened
      · exact .inr ⟨v, .refl, .head' holds (same ▸ reach)⟩
      · exact .inl ⟨b, opened, reach.head holds⟩
    · exact .inr ⟨u, reach.head holds, cycle⟩

theorem not_returns_iff {path : List Container} {v : Value} {c : Container} (is : Container.ofValue? v = some c)
    (fresh : c ∉ path) : ¬ Returns h path v ↔ ∀ w ∈ h.contents v, ¬ Returns h (c :: path) w := by
  rw [returns_iff is fresh, not_exists]
  exact forall_congr' fun w => not_and

mutual

/-- Writing out fails for what returns to an open container or to itself, and only for that. -/
theorem WritesOut.outcome : ∀ {path : List Container} {v : Value} {r : Except TypeFault (Option String)},
    WritesOut h path v r → (r = .error .circular ∧ Returns h path v) ∨ ((∃ code, r = .ok code) ∧ ¬ Returns h path v)
  | _, _, _, .leaf is _ => .inr ⟨⟨_, rfl⟩, not_returns_leaf is⟩
  | _, v, _, .again is opened => by
    refine .inl ⟨rfl, .inl ⟨_, opened, ?_⟩⟩
    rw [← Container.ofValue?_eq_some.1 is]
  | _, _, _, .whole is fresh all => by
    rcases WritesAll.outcome all with ⟨failed, _⟩ | ⟨_, none⟩
    · cases failed
    · exact .inr ⟨⟨_, rfl⟩, (not_returns_iff is fresh).2 none⟩
  | _, _, _, .broken is fresh all => by
    rcases WritesAll.outcome all with ⟨failed, returns⟩ | ⟨⟨_, done⟩, _⟩
    · cases failed
      exact .inl ⟨rfl, (returns_iff is fresh).2 returns⟩
    · cases done

theorem WritesAll.outcome : ∀ {path : List Container} {vs : List Value} {r : Except TypeFault (List (Option String))},
    WritesAll h path vs r →
    (r = .error .circular ∧ ∃ v ∈ vs, Returns h path v) ∨ ((∃ codes, r = .ok codes) ∧ ∀ v ∈ vs, ¬ Returns h path v)
  | _, _, _, .nil => .inr ⟨⟨_, rfl⟩, nofun⟩
  | _, _, _, .cons first rest => by
    rcases WritesOut.outcome first with ⟨failed, _⟩ | ⟨_, notFirst⟩
    · cases failed
    rcases WritesAll.outcome rest with ⟨failed, _⟩ | ⟨_, notRest⟩
    · cases failed
    · exact .inr ⟨⟨_, rfl⟩, List.forall_mem_cons.2 ⟨notFirst, notRest⟩⟩
  | _, _, _, .first first => by
    rcases WritesOut.outcome first with ⟨failed, returns⟩ | ⟨⟨_, done⟩, _⟩
    · cases failed
      exact .inl ⟨rfl, _, List.mem_cons_self, returns⟩
    · cases done
  | _, _, _, .later _ rest => by
    rcases WritesAll.outcome rest with ⟨failed, v, inside, returns⟩ | ⟨⟨_, done⟩, _⟩
    · cases failed
      exact .inl ⟨rfl, v, List.mem_cons_of_mem _ inside, returns⟩
    · cases done

end

mutual

/-- What returns nowhere is written out in the same way wherever it is met. -/
theorem WritesOut.elsewhere : ∀ {path path' : List Container} {v : Value} {r : Except TypeFault (Option String)},
    WritesOut h path v r → ¬ Returns h path v → ¬ Returns h path' v → WritesOut h path' v r
  | _, _, _, _, .leaf is code, _, _ => by
    obtain ⟨_, wrote⟩ := codeOf_leaf is
    rw [wrote] at code
    exact .leaf is ((wrote 0 _).trans code)
  | _, _, _, _, .again is opened, here, _ => by
    refine absurd (.inl ⟨_, opened, ?_⟩) here
    rw [← Container.ofValue?_eq_some.1 is]
  | _, path', v, _, .whole is fresh all, here, there => by
    have fresh' := not_mem_of_not_returns is there
    rw [not_returns_iff is fresh] at here
    rw [not_returns_iff is fresh'] at there
    exact .whole is fresh' (WritesAll.elsewhere all here there)
  | _, path', v, _, .broken is fresh all, here, there => by
    have fresh' := not_mem_of_not_returns is there
    rw [not_returns_iff is fresh] at here
    rw [not_returns_iff is fresh'] at there
    exact .broken is fresh' (WritesAll.elsewhere all here there)

theorem WritesAll.elsewhere : ∀ {path path' : List Container} {vs : List Value}
    {r : Except TypeFault (List (Option String))}, WritesAll h path vs r →
    (∀ v ∈ vs, ¬ Returns h path v) → (∀ v ∈ vs, ¬ Returns h path' v) → WritesAll h path' vs r
  | _, _, _, _, .nil, _, _ => .nil
  | _, _, _, _, .cons first rest, here, there => by
    rw [List.forall_mem_cons] at here there
    exact .cons (WritesOut.elsewhere first here.1 there.1) (WritesAll.elsewhere rest here.2 there.2)
  | _, _, _, _, .first first, here, there => by
    rw [List.forall_mem_cons] at here there
    exact .first (WritesOut.elsewhere first here.1 there.1)
  | _, _, _, _, .later first rest, here, there => by
    rw [List.forall_mem_cons] at here there
    exact .later (WritesOut.elsewhere first here.1 there.1) (WritesAll.elsewhere rest here.2 there.2)

end

theorem forall₂_of_writesAll {path : List Container} : ∀ {vs : List Value} {codes : List (Option String)},
    WritesAll h path vs (.ok codes) → List.Forall₂ (fun v code => WritesOut h path v (.ok code)) vs codes
  | [], _, all => by
    cases all
    exact .nil
  | _ :: _, _, all => by
    cases all with
    | cons first rest => exact .cons first (forall₂_of_writesAll rest)

/-- A container without cycles is written as all that it holds is written on its own. -/
theorem WritesOut.contents {v : Value} {c : Container} {r : Except TypeFault (Option String)}
    (ends : WritesOut h [] v r) (is : Container.ofValue? v = some c) (straight : ¬ h.Circular v) :
    ∃ codes, List.Forall₂ (fun w code => WritesOut h [] w (.ok code)) (h.contents v) codes ∧
      r = .ok (some (codeAround h c codes)) := by
  have inside : ∀ w ∈ h.contents v, ¬ Returns h [c] w := by
    rwa [← not_returns_iff is (by simp), returns_nil]
  have alone : ∀ w ∈ h.contents v, ¬ Returns h [] w := by
    intro w holds returns
    obtain ⟨u, reach, cycle⟩ := returns_nil.1 returns
    exact straight ⟨u, reach.head holds, cycle⟩
  cases ends with
  | leaf leaf => cases leaf.symm.trans is
  | again _ opened => cases opened
  | whole is' _ all =>
    cases is.symm.trans is'
    exact ⟨_, forall₂_of_writesAll (all.elsewhere inside alone), rfl⟩
  | broken is' _ all =>
    cases is.symm.trans is'
    rcases all.outcome with ⟨-, w, holds, returns⟩ | ⟨⟨_, done⟩, -⟩
    · exact absurd returns (inside w holds)
    · cases done

/--
**Writing out a value ends, and it fails exactly where a container that holds itself is reached.** Otherwise it
succeeds, and what a container holds is written out each time it is met, as if it stood alone.
-/
theorem written_circular_iff (h : Heap) (v : Value) :
    (∃! r, WritesOut h [] v r) ∧
    (∀ r, WritesOut h [] v r → written h v = r.map (·.getD "undefined")) ∧
    (written h v = .error .circular ↔ h.Circular v) ∧
    (¬ h.Circular v → ∃ code, written h v = .ok code) ∧
    ∀ c, Container.ofValue? v = some c → ¬ h.Circular v →
      ∃ codes, List.Forall₂ (fun w code => WritesOut h [] w (.ok code)) (h.contents v) codes ∧
        written h v = .ok (codeAround h c codes) := by
  have ends : ∀ r, WritesOut h [] v r ↔ codeOf h (h.arrays.size + h.objects.size + 2) [] v = r :=
    fun _ => writesOut_iff (.start h)
  have result : ∀ r, WritesOut h [] v r → written h v = r.map (·.getD "undefined") := by
    intro r wrote
    rw [written, (ends r).1 wrote]
  obtain ⟨r, wrote⟩ : ∃ r, WritesOut h [] v r := ⟨_, (ends _).2 rfl⟩
  have outcome := wrote.outcome
  rw [returns_nil] at outcome
  refine ⟨⟨r, wrote, fun r' wrote' => ?_⟩, result, ?_, ?_, ?_⟩
  · rw [← (ends r).1 wrote, ← (ends r').1 wrote']
  · rw [result r wrote]
    rcases outcome with ⟨rfl, circular⟩ | ⟨⟨code, rfl⟩, straight⟩
    · exact ⟨fun _ => circular, fun _ => rfl⟩
    · exact ⟨nofun, fun circular => absurd circular straight⟩
  · intro straight
    rcases outcome with ⟨-, circular⟩ | ⟨⟨code, rfl⟩, -⟩
    · exact absurd circular straight
    · exact ⟨_, result _ wrote⟩
  · intro c is straight
    obtain ⟨codes, each, rfl⟩ := wrote.contents is straight
    exact ⟨codes, each, result _ wrote⟩

/-- An array that holds another one twice, and once more in an object. -/
def sharing : Heap where
  arrays := #[#[.array 1, .object 0, .array 1], #[.null]]
  objects := #[[("again", .array 1)]]

/-- An array and an object that hold each other, and an array around them. -/
def looping : Heap where
  arrays := #[#[.null, .object 0], #[.array 0]]
  objects := #[[("back", .array 0)]]

theorem written_circular_iff_looping :
    (written looping (.array 1) = .error .circular ∧ looping.Circular (.array 1)) ∧
    (written sharing (.array 0) = .ok "[[null],\x7b\"again\":[null]\x7d,[null]]" ∧ ¬ sharing.Circular (.array 0)) := by
  have failed : written looping (.array 1) = .error .circular := by decide +kernel
  have wrote : written sharing (.array 0) = .ok "[[null],\x7b\"again\":[null]\x7d,[null]]" := by decide +kernel
  obtain ⟨-, -, circular, -⟩ := written_circular_iff looping (.array 1)
  obtain ⟨-, -, straight, -⟩ := written_circular_iff sharing (.array 0)
  refine ⟨⟨failed, circular.1 failed⟩, wrote, ?_⟩
  intro loops
  rw [straight.2 loops] at wrote
  cases wrote

end Staging.Template
