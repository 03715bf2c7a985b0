import Mathlib.Data.List.Infix
import Staging.Text.Search

/-!
What searching a text finds.

An occurrence of a text in another is told by what the other one begins with after some characters were dropped. The
position found is the first one (`indexOf?_eq_some_iff`), and there is none only where the text does not occur
(`indexOf?_eq_none_iff`, `contains_iff`).

The search itself looks at bytes. The bytes of a text begin with those of another exactly where the text does
(`bytes_prefix_iff`), and they do so nowhere inside of a character, since only the first byte of a character tells how
many there are (`boundary_of_prefix_drop`). So the offset found lies in front of a character, where the text may be cut
(`bytes_takeBytes`), and it is the one of the first position.

`Cut sep text parts` says that the parts are what is left of the text between the occurrences of a separator, each taken
at the first place behind the one before. Splitting gives these parts (`cut_splitOn`). They make up the text when the
separator is put between them (`Cut.intercalate`), and no part has the separator in it (`Cut.separatorFree`).
-/

namespace Staging.Text

/-! ### Occurrences -/

section

variable {α : Type} {needle hay : List α}

/-- What has an occurrence inside has it after some items. -/
theorem infix_iff_prefix_drop : needle <:+: hay ↔ ∃ j, needle <+: hay.drop j := by
  constructor
  · rintro ⟨before, after, rfl⟩
    refine ⟨before.length, ?_⟩
    rw [List.append_assoc, List.drop_left]
    exact List.prefix_append needle after
  · rintro ⟨j, found⟩
    exact found.isInfix.trans (List.drop_suffix j hay).isInfix

/-- The first place at which there is an occurrence. -/
def FirstAt (needle hay : List α) (i : Nat) : Prop :=
  i ≤ hay.length ∧ needle <+: hay.drop i ∧ ∀ j < i, ¬ needle <+: hay.drop j

/-- There is one first place. -/
theorem FirstAt.unique {i k : Nat} (h : FirstAt needle hay i) (h' : FirstAt needle hay k) : i = k := by
  rcases Nat.lt_trichotomy i k with before | rfl | behind
  · exact absurd h.2.1 (h'.2.2 i before)
  · rfl
  · exact absurd h'.2.1 (h.2.2 k behind)

end

/-- **The offset found is the first one at which the bytes occur.** -/
theorem findBytes?_eq_some_iff {needle hay : List UInt8} {i : Nat} :
    findBytes? needle hay = some i ↔ FirstAt needle hay i := by
  unfold FirstAt
  induction hay generalizing i with
  | nil =>
    cases needle with
    | nil =>
      constructor
      · rintro ⟨⟩
        simp
      · rintro ⟨empty, -⟩
        rw [Nat.le_zero.1 empty]
        rfl
    | cons d ds => simp [findBytes?]
  | cons c rest ih =>
    rw [findBytes?]
    by_cases here : needle <+: c :: rest
    · rw [if_pos (List.isPrefixOf_iff_prefix.2 here), Option.some.injEq]
      constructor
      · rintro rfl
        exact ⟨Nat.zero_le _, here, fun j before => absurd before (Nat.not_lt_zero j)⟩
      · rintro ⟨-, -, first⟩
        refine (Nat.eq_zero_of_not_pos fun later => ?_).symm
        exact first 0 later here
    · rw [if_neg (mt List.isPrefixOf_iff_prefix.1 here)]
      cases i with
      | zero => simp [here]
      | succ i =>
        simp only [Option.map_eq_some_iff, Nat.add_right_cancel_iff, exists_eq_right, ih, List.drop_succ_cons,
          List.length_cons, Nat.add_le_add_iff_right]
        refine and_congr_right fun _ => and_congr_right fun _ => ⟨fun first j before => ?_, fun first j before => ?_⟩
        · cases j with
          | zero => exact here
          | succ j => exact first j (by omega)
        · exact first (j + 1) (by omega)

/-- No offset is found only where the bytes do not occur. -/
theorem findBytes?_eq_none_iff {needle hay : List UInt8} : findBytes? needle hay = none ↔ ¬ needle <:+: hay := by
  induction hay with
  | nil => simp [findBytes?]
  | cons c rest ih =>
    rw [findBytes?, List.infix_cons_iff]
    by_cases here : needle <+: c :: rest
    · simp [here]
    · simp [here, ih]

theorem containsBytes_iff {needle hay : List UInt8} : containsBytes needle hay = true ↔ needle <:+: hay := by
  induction hay with
  | nil => simp [containsBytes]
  | cons c rest ih => rw [containsBytes, Bool.or_eq_true, List.isPrefixOf_iff_prefix, ih, List.infix_cons_iff]

/-! ### The bytes of a text -/

theorem bytes_cons (c : Char) (cs : List Char) : bytes (c :: cs) = String.utf8EncodeChar c ++ bytes cs := rfl

theorem bytes_append (cs ds : List Char) : bytes (cs ++ ds) = bytes cs ++ bytes ds := List.flatMap_append

/-- The byte at which the character at a position begins. -/
def offsetOf (hay : List Char) (i : Nat) : Nat := (bytes (hay.take i)).length

theorem drop_offsetOf (hay : List Char) (i : Nat) : (bytes hay).drop (offsetOf hay i) = bytes (hay.drop i) := by
  rw [offsetOf]
  nth_rewrite 2 [← List.take_append_drop i hay]
  rw [bytes_append, List.drop_left]

theorem offsetOf_succ (c : Char) (rest : List Char) (i : Nat) :
    offsetOf (c :: rest) (i + 1) = c.utf8Size + offsetOf rest i := by
  rw [offsetOf, List.take_succ_cons, bytes_cons, List.length_append, String.length_utf8EncodeChar, offsetOf]

/-- A character further on begins at a byte further on. -/
theorem offsetOf_lt {hay : List Char} {j i : Nat} (before : j < i) (inside : i ≤ hay.length) :
    offsetOf hay j < offsetOf hay i := by
  induction hay generalizing j i with
  | nil => exact absurd before (by simp_all)
  | cons c rest ih =>
    obtain ⟨i, rfl⟩ : ∃ k, i = k + 1 := ⟨i - 1, by omega⟩
    rw [offsetOf_succ]
    cases j with
    | zero =>
      have := c.utf8Size_pos
      rw [offsetOf, List.take_zero]
      show 0 < _
      omega
    | succ j =>
      have := ih (j := j) (i := i) (by omega) (by simpa using inside)
      rw [offsetOf_succ]
      omega

/-- **Cutting at the byte at which a character begins** leaves the characters before. -/
theorem takeBytes_offsetOf (hay : List Char) (i : Nat) : takeBytes hay (offsetOf hay i) = hay.take i := by
  induction hay generalizing i with
  | nil => rw [List.take_nil, takeBytes]
  | cons c rest ih =>
    cases i with
    | zero =>
      have := c.utf8Size_pos
      rw [offsetOf, List.take_zero, takeBytes, if_neg]
      show ¬ c.utf8Size ≤ 0
      omega
    | succ i => rw [offsetOf_succ, takeBytes, if_pos (by omega), Nat.add_sub_cancel_left, ih, List.take_succ_cons]

/-- **The first character is told by the bytes**, whatever comes behind. -/
theorem cons_prefix_of_bytes {c d : Char} {cs ds : List Char} (h : bytes (c :: cs) <+: bytes (d :: ds)) :
    c = d ∧ bytes cs <+: bytes ds := by
  obtain ⟨behind, same⟩ := h
  rw [bytes_cons, bytes_cons, List.append_assoc] at same
  obtain rfl : c = d := by
    have read := congrArg (fun all : List UInt8 => all.toByteArray.utf8DecodeChar? 0) same
    simpa [List.toByteArray_append, ByteArray.utf8DecodeChar?_utf8EncodeChar_append] using read
  exact ⟨rfl, behind, List.append_cancel_left same⟩

/-- **The bytes of a text begin with those of another** only where the text itself does. -/
theorem bytes_prefix_iff {needle hay : List Char} : bytes needle <+: bytes hay ↔ needle <+: hay := by
  constructor
  · intro h
    induction needle generalizing hay with
    | nil => exact List.nil_prefix
    | cons c cs ih =>
      cases hay with
      | nil =>
        rw [bytes_cons] at h
        have : String.utf8EncodeChar c ++ bytes cs = [] := List.prefix_nil.1 h
        exact absurd (List.append_eq_nil_iff.1 this).1 String.utf8EncodeChar_ne_nil
      | cons d ds =>
        obtain ⟨rfl, behind⟩ := cons_prefix_of_bytes h
        exact (List.prefix_cons_inj c).2 (ih behind)
  · rintro ⟨behind, rfl⟩
    rw [bytes_append]
    exact List.prefix_append _ _

/-- A byte inside of a character is none with which a text begins. -/
theorem not_prefix_inside {c d : Char} {cs : List Char} {ds : List UInt8} {b : Nat} (pos : 0 < b)
    (inside : b < (String.utf8EncodeChar d).length) : ¬ bytes (c :: cs) <+: (String.utf8EncodeChar d ++ ds).drop b := by
  intro h
  have first : 0 < (String.utf8EncodeChar c).length := List.length_pos_iff.2 String.utf8EncodeChar_ne_nil
  have leads : ((String.utf8EncodeChar c)[0]).IsUTF8FirstByte := UInt8.isUTF8FirstByte_getElem_utf8EncodeChar.2 rfl
  have same : (String.utf8EncodeChar c)[0] = (String.utf8EncodeChar d)[b] := by
    have here := List.prefix_iff_getElem?.1 h 0 (by rw [bytes_cons, List.length_append]; omega)
    rw [List.getElem?_drop, Nat.add_zero, List.getElem?_append_left inside, List.getElem?_eq_getElem inside,
      Option.some.injEq] at here
    exact (here.trans (List.getElem_append_left first)).symm
  rw [same, UInt8.isUTF8FirstByte_getElem_utf8EncodeChar] at leads
  omega

/-- **No text occurs from inside of a character on.** -/
theorem boundary_of_prefix_drop {c : Char} {cs hay : List Char} {b : Nat} (h : bytes (c :: cs) <+: (bytes hay).drop b) :
    ∃ i ≤ hay.length, b = offsetOf hay i := by
  induction hay generalizing b with
  | nil =>
    rw [show bytes [] = [] from rfl, List.drop_nil, bytes_cons] at h
    exact absurd (List.append_eq_nil_iff.1 (List.prefix_nil.1 h)).1 String.utf8EncodeChar_ne_nil
  | cons d rest ih =>
    rw [bytes_cons d] at h
    by_cases start : b = 0
    · exact ⟨0, Nat.zero_le _, by rw [start]; rfl⟩
    by_cases inside : b < (String.utf8EncodeChar d).length
    · exact absurd h (not_prefix_inside (by omega) inside)
    · rw [List.drop_append, List.drop_eq_nil_of_le (by omega), List.nil_append, String.length_utf8EncodeChar] at h
      rw [String.length_utf8EncodeChar] at inside
      obtain ⟨i, within, same⟩ := ih h
      exact ⟨i + 1, by simpa using within, by rw [offsetOf_succ]; omega⟩

/-! ### Finding -/

/-- The first byte at which the bytes of a text occur is that of the first position at which the text does. -/
theorem firstAt_of_bytes {needle hay : List Char} {b : Nat} (found : FirstAt (bytes needle) (bytes hay) b) :
    ∃ i, b = offsetOf hay i ∧ FirstAt needle hay i := by
  obtain ⟨-, there, first⟩ := found
  obtain ⟨i, inside, rfl⟩ : ∃ i ≤ hay.length, b = offsetOf hay i := by
    cases needle with
    | nil =>
      have : b = 0 := Nat.eq_zero_of_not_pos fun later => first 0 later List.nil_prefix
      exact ⟨0, Nat.zero_le _, by rw [this]; rfl⟩
    | cons c cs => exact boundary_of_prefix_drop there
  rw [drop_offsetOf, bytes_prefix_iff] at there
  refine ⟨i, rfl, inside, there, fun j before sooner => ?_⟩
  refine first (offsetOf hay j) (offsetOf_lt before inside) ?_
  rwa [drop_offsetOf, bytes_prefix_iff]

/-- The bytes of a text occur in those of another only where the text itself does. -/
theorem bytes_infix_iff {needle hay : List Char} : bytes needle <:+: bytes hay ↔ needle <:+: hay := by
  constructor
  · intro h
    cases found : findBytes? (bytes needle) (bytes hay) with
    | none => exact absurd h (findBytes?_eq_none_iff.1 found)
    | some b =>
      obtain ⟨i, -, first⟩ := firstAt_of_bytes (findBytes?_eq_some_iff.1 found)
      exact infix_iff_prefix_drop.2 ⟨i, first.2.1⟩
  · rintro ⟨before, after, rfl⟩
    rw [bytes_append, bytes_append]
    exact ⟨bytes before, bytes after, rfl⟩

/-- **The offset found lies in front of a character**: cutting the text there leaves all of the bytes before. -/
theorem bytes_takeBytes {needle hay : List Char} {b : Nat} (found : findBytes? (bytes needle) (bytes hay) = some b) :
    bytes (takeBytes hay b) = (bytes hay).take b := by
  obtain ⟨i, rfl, -⟩ := firstAt_of_bytes (findBytes?_eq_some_iff.1 found)
  rw [takeBytes_offsetOf, offsetOf]
  nth_rewrite 3 [← List.take_append_drop i hay]
  rw [bytes_append, List.take_left]

/-- Nothing is found only where the text does not occur. -/
theorem indexOf?_eq_none_iff {needle hay : List Char} : indexOf? needle hay = none ↔ ¬ needle <:+: hay := by
  rw [indexOf?, Option.map_eq_none_iff, findBytes?_eq_none_iff, bytes_infix_iff]

/-- **The position found is the first one at which the text occurs.** -/
theorem indexOf?_eq_some_iff {needle hay : List Char} {i : Nat} :
    indexOf? needle hay = some i ↔ i ≤ hay.length ∧ needle <+: hay.drop i ∧ ∀ j < i, ¬ needle <+: hay.drop j := by
  -- the characters in front of the offset are those in front of the first occurrence
  have first : ∀ {k}, indexOf? needle hay = some k → FirstAt needle hay k := by
    intro k found
    rw [indexOf?, Option.map_eq_some_iff] at found
    obtain ⟨b, there, rfl⟩ := found
    obtain ⟨i, rfl, here⟩ := firstAt_of_bytes (findBytes?_eq_some_iff.1 there)
    rwa [charIndex, takeBytes_offsetOf, List.length_take, Nat.min_eq_left here.1]
  refine ⟨first, fun here => ?_⟩
  cases found : indexOf? needle hay with
  | none => exact absurd (infix_iff_prefix_drop.2 ⟨i, here.2.1⟩) (indexOf?_eq_none_iff.1 found)
  | some k => rw [(first found).unique here]

theorem contains_iff {needle hay : List Char} : contains needle hay = true ↔ needle <:+: hay := by
  rw [contains, containsBytes_iff, bytes_infix_iff]

/-- **Whether a text occurs** and where are found alike. -/
theorem contains_eq_isSome (needle hay : List Char) : contains needle hay = (indexOf? needle hay).isSome := by
  rw [Bool.eq_iff_iff, contains_iff, Option.isSome_iff_ne_none, Ne, indexOf?_eq_none_iff, not_not]

/-! ### Splitting -/

/-- The parts of a text between the occurrences of a separator. -/
inductive Cut (sep : List Char) : List Char → List (List Char) → Prop
  | last {part : List Char} (free : ¬ sep <:+: part) : Cut sep part [part]
  | next {part rest : List Char} {parts : List (List Char)}
      (first : ∀ j < part.length, ¬ sep <+: (part ++ (sep ++ rest)).drop j) (behind : Cut sep rest parts) :
      Cut sep (part ++ (sep ++ rest)) (part :: parts)

namespace Cut

variable {sep text : List Char} {parts : List (List Char)}

theorem ne_nil (cut : Cut sep text parts) : parts ≠ [] := by
  cases cut <;> simp

/-- **With the separator between them, the parts are the text.** -/
theorem intercalate (cut : Cut sep text parts) : sep.intercalate parts = text := by
  induction cut with
  | last free => simp
  | @next part rest parts first behind ih =>
    obtain ⟨q, qs, rfl⟩ := List.exists_cons_of_ne_nil behind.ne_nil
    rw [List.intercalate_cons_cons, ih, List.append_assoc]

/-- An occurrence inside of a part would lie before the one that ends the part. -/
theorem separatorFree (nonempty : sep ≠ []) (cut : Cut sep text parts) : ∀ part ∈ parts, ¬ sep <:+: part := by
  induction cut with
  | last free => simpa using free
  | @next part rest parts first behind ih =>
    simp only [List.mem_cons, forall_eq_or_imp]
    refine ⟨?_, ih⟩
    rintro ⟨before, after, rfl⟩
    have inside : before.length < (before ++ sep ++ after).length := by
      have := List.length_pos_iff.2 nonempty
      simp only [List.length_append]
      omega
    refine first before.length inside ?_
    simp only [List.append_assoc, List.drop_left]
    exact List.prefix_append sep _

end Cut

/--
Splitting goes on behind the characters it skips. What was read since the last occurrence goes before, and no occurrence
begins in it.
-/
theorem cut_splitFrom {sep : List Char} (nonempty : sep ≠ []) (skip : Nat) (current rest : List Char)
    (none : ∀ j < current.length, ¬ sep <+: (current.reverse ++ rest.drop skip).drop j) :
    Cut sep (current.reverse ++ rest.drop skip) (splitFrom sep skip current rest) := by
  induction rest generalizing skip current with
  | nil =>
    rw [List.drop_nil, List.append_nil] at none ⊢
    refine .last fun inside => ?_
    obtain ⟨j, found⟩ := infix_iff_prefix_drop.1 inside
    by_cases before : j < current.length
    · exact none j before found
    · rw [List.drop_eq_nil_of_le (by simpa using before)] at found
      exact nonempty (List.prefix_nil.1 found)
  | cons c rest ih =>
    cases skip with
    | succ k => exact ih k current none
    | zero =>
      rw [splitFrom, List.drop_zero]
      rw [List.drop_zero] at none
      by_cases found : sep <+: c :: rest
      · rw [if_pos (List.isPrefixOf_iff_prefix.2 found)]
        have after : rest.drop (sep.length - 1) = (c :: rest).drop sep.length := by
          obtain ⟨d, ds, rfl⟩ := List.exists_cons_of_ne_nil nonempty
          rfl
        have behind := ih (sep.length - 1) [] (by simp)
        rw [List.reverse_nil, List.nil_append, after] at behind
        have whole : c :: rest = sep ++ (c :: rest).drop sep.length := List.prefix_iff_eq_append.1 found |>.symm
        rw [whole] at none ⊢
        exact .next (by simpa using none) behind
      · rw [if_neg (mt List.isPrefixOf_iff_prefix.1 found)]
        have read := ih 0 (c :: current)
        simp only [List.drop_zero, List.reverse_cons, List.append_assoc, List.singleton_append, List.length_cons] at read
        refine read fun j before => ?_
        by_cases last : j = current.length
        · rw [last, ← List.length_reverse, List.drop_left]
          exact found
        · exact none j (by omega)

/-- **Splitting gives the parts of a text.** -/
theorem cut_splitOn {sep : List Char} (nonempty : sep ≠ []) (text : List Char) : Cut sep text (splitOn sep text) :=
  cut_splitFrom nonempty 0 [] text (by simp)

end Staging.Text
