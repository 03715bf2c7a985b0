import Mathlib.Data.String.Basic
import Staging.Proofs.Source.Pieces

/-!
The tokens of a source tile it.

`Tiled offset cs ls` lays a text out as words with gaps before, between and behind them, where the gaps are blanks and
complete comments. Every text that is scanned is laid out so (`tiled_of_scanFrom`). On the source this means that the spans
of the tokens are not empty, in order and apart, and that nothing but blanks and comments lies between them
(`Tiled.tiling`). Words with single blanks between them are scanned into the same tokens (`scan_words`).
-/

namespace Staging

/-! ### Bytes -/

theorem byteLength_eq (cs : List Char) : byteLength cs = String.utf8Len cs := by
  induction cs with
  | nil => rfl
  | cons c rest ih => rw [byteLength, ih, String.utf8Len_cons, Nat.add_comm]

theorem byteLength_append (cs ds : List Char) : byteLength (cs ++ ds) = byteLength cs + byteLength ds := by
  simp only [byteLength_eq, String.utf8Len_append]

theorem byteLength_toList (s : String) : byteLength s.toList = s.utf8ByteSize := by
  rw [byteLength_eq, String.utf8Len_toList]

theorem byteLength_pos {cs : List Char} (h : cs ≠ []) : 0 < byteLength cs := by
  rw [byteLength_eq, Nat.pos_iff_ne_zero, Ne, String.utf8Len_eq_zero]
  exact h

namespace Span

/-- The part of a source that a span covers. -/
def slice (span : Span) (source : String) : String := String.Pos.Raw.extract source ⟨span.start⟩ ⟨span.stop⟩

/-- The span lies inside of the source, and whole characters stand before, in and behind it. -/
def Covers (span : Span) (source : String) : Prop :=
  ∃ before after : String, source = before ++ span.slice source ++ after ∧ before.utf8ByteSize = span.start ∧
    (before ++ span.slice source).utf8ByteSize = span.stop

theorem Covers.stop_le {span : Span} {source : String} (h : span.Covers source) : span.stop ≤ source.utf8ByteSize := by
  obtain ⟨before, after, whole, -, stop⟩ := h
  have size := congrArg String.utf8ByteSize whole
  rw [String.utf8ByteSize_append, stop] at size
  omega

end Span

section

variable {source : String} {before text after : List Char}

theorem slice_eq (h : source.toList = before ++ (text ++ after)) :
    (Span.mk (byteLength before) (byteLength before + byteLength text)).slice source = String.ofList text := by
  have same := String.extract_of_valid before text after
  rw [List.append_assoc, ← h, String.ofList_toList, ← byteLength_eq, ← byteLength_eq] at same
  exact same

theorem covers (h : source.toList = before ++ (text ++ after)) :
    (Span.mk (byteLength before) (byteLength before + byteLength text)).Covers source := by
  rw [Span.Covers, slice_eq h]
  refine ⟨String.ofList before, String.ofList after, ?_, ?_, ?_⟩
  · rw [← String.toList_inj, h]
    simp
  · rw [← byteLength_toList, String.toList_ofList]
  · rw [← byteLength_toList, String.toList_append, String.toList_ofList, String.toList_ofList, byteLength_append]

end

/-! ### Layout -/

/-- Characters that leave no token, in front of others. -/
inductive Skipped : List Char → List Char → Prop
  | nil {after : List Char} : Skipped [] after
  | cons {stretch gap after : List Char} (first : Stretch stretch (gap ++ after)) (more : Skipped gap after) :
      Skipped (stretch ++ gap) after

/-- A text that stands at an offset consists of words that are the tokens, and of gaps. -/
inductive Tiled : Nat → List Char → List Lexeme → Prop
  | last {offset : Nat} {gap : List Char} (skipped : Skipped gap []) : Tiled offset gap []
  | token {offset : Nat} {gap word rest : List Char} {t : Token} {ls : List Lexeme} (skipped : Skipped gap (word ++ rest))
      (read : Word t word) (behind : Tiled (offset + byteLength gap + byteLength word) rest ls) :
      Tiled offset (gap ++ (word ++ rest))
        (⟨t, ⟨offset + byteLength gap, offset + byteLength gap + byteLength word⟩⟩ :: ls)

theorem Tiled.skip {offset : Nat} {stretch rest : List Char} {ls : List Lexeme} (first : Stretch stretch rest)
    (h : Tiled (offset + byteLength stretch) rest ls) : Tiled offset (stretch ++ rest) ls := by
  cases h with
  | last skipped =>
    rw [← List.append_nil rest] at first
    exact .last (.cons first skipped)
  | @token _ gap word rest t ls skipped read behind =>
    rw [Nat.add_assoc offset, ← byteLength_append] at behind ⊢
    rw [← List.append_assoc]
    exact .token (.cons first skipped) read behind

/-- **What is scanned is laid out as words and gaps.** -/
theorem tiled_of_scanFrom {fuel offset : Nat} {cs : List Char} {ls : List Lexeme}
    (h : scanFrom fuel offset cs = .ok ls) (enough : cs.length ≤ fuel) : Tiled offset cs ls := by
  induction fuel generalizing offset cs ls with
  | zero =>
    obtain rfl := List.eq_nil_of_length_eq_zero (Nat.le_zero.1 enough)
    cases h
    exact .last .nil
  | succ fuel ih =>
    cases cs with
    | nil =>
      cases h
      exact .last .nil
    | cons c rest =>
      obtain ⟨whole, progress, stretch, word⟩ := piece_sound c rest
      have shorter : (piece c rest).rest.length ≤ fuel := by
        have := congrArg List.length whole
        have := List.length_pos_iff.2 progress
        simp only [List.length_append, List.length_cons] at *
        omega
      rw [← whole]
      simp only [scanFrom] at h
      split at h
      · cases h
      · rename_i found
        exact .skip (stretch found) (ih h shorter)
      · rename_i t found
        cases more : scanFrom fuel (offset + byteLength (piece c rest).taken) (piece c rest).rest with
        | error e => simp [more, Except.map] at h
        | ok ls =>
          rw [more] at h
          cases h
          exact .token .nil (word t found) (ih more shorter)

/-! ### Tiles -/

/-- The spans before, between and behind the tokens. -/
def gaps (size : Nat) : Nat → List Lexeme → List Span
  | start, [] => [⟨start, size⟩]
  | start, l :: ls => ⟨start, l.span.start⟩ :: gaps size l.span.stop ls

/-- The span covers nothing but blanks and complete comments. -/
def Span.Blank (span : Span) (source : String) : Prop :=
  Skipped (span.slice source).toList ((Span.mk span.stop source.utf8ByteSize).slice source).toList

/-- From an offset on, the tokens tile the source. -/
structure Tiling (source : String) (start : Nat) (lexemes : List Lexeme) : Prop where
  behind : ∀ l ∈ lexemes, start ≤ l.span.start
  nonempty : ∀ l ∈ lexemes, l.span.start < l.span.stop
  inside : ∀ l ∈ lexemes, l.span.Covers source
  ordered : lexemes.Pairwise fun a b => a.span.stop ≤ b.span.start
  blank : ∀ gap ∈ gaps source.utf8ByteSize start lexemes, gap.Blank source
  words : ∀ l ∈ lexemes, Word l.token (l.span.slice source).toList

section

variable {source : String} {start : Nat} {l : Lexeme} {ls : List Lexeme}

theorem Tiling.nil (gap : (Span.mk start source.utf8ByteSize).Blank source) : Tiling source start [] where
  behind := nofun
  nonempty := nofun
  inside := nofun
  ordered := .nil
  blank := by simpa [gaps] using gap
  words := nofun

theorem Tiling.cons (gap : (Span.mk start l.span.start).Blank source) (there : start ≤ l.span.start)
    (nonempty : l.span.start < l.span.stop) (inside : l.span.Covers source)
    (word : Word l.token (l.span.slice source).toList) (more : Tiling source l.span.stop ls) :
    Tiling source start (l :: ls) where
  behind := List.forall_mem_cons.2 ⟨there, fun k hk => by have := more.behind k hk; omega⟩
  nonempty := List.forall_mem_cons.2 ⟨nonempty, more.nonempty⟩
  inside := List.forall_mem_cons.2 ⟨inside, more.inside⟩
  ordered := .cons more.behind more.ordered
  blank := List.forall_mem_cons.2 ⟨gap, more.blank⟩
  words := List.forall_mem_cons.2 ⟨word, more.words⟩

end

theorem blank_of_skipped {source : String} {before gap after : List Char} (h : source.toList = before ++ (gap ++ after))
    (skipped : Skipped gap after) : (Span.mk (byteLength before) (byteLength before + byteLength gap)).Blank source := by
  have rest : (Span.mk (byteLength before + byteLength gap) source.utf8ByteSize).slice source = String.ofList after := by
    have whole : source.toList = (before ++ gap) ++ (after ++ []) := by rw [h, List.append_nil, List.append_assoc]
    have same := slice_eq whole
    rwa [← byteLength_append, List.append_assoc before, ← h, byteLength_toList, byteLength_append] at same
  rw [Span.Blank, slice_eq h, rest, String.toList_ofList, String.toList_ofList]
  exact skipped

theorem Word.ne_nil {t : Token} {w : List Char} (h : Word t w) : w ≠ [] := by
  obtain ⟨c, w', rfl, -⟩ := h
  exact List.cons_ne_nil c w'

/-- **The tokens of a text that is laid out tile it.** -/
theorem Tiled.tiling {offset : Nat} {cs : List Char} {ls : List Lexeme} (h : Tiled offset cs ls) {source : String}
    {before : List Char} (whole : source.toList = before ++ cs) (there : byteLength before = offset) :
    Tiling source offset ls := by
  induction h generalizing before with
  | @last offset gap skipped =>
    subst there
    have blank := blank_of_skipped (by rw [whole, List.append_nil]) skipped
    rw [← byteLength_append, ← whole, byteLength_toList] at blank
    exact .nil blank
  | @token offset gap word rest t ls skipped read behind ih =>
    subst there
    have front : source.toList = (before ++ gap) ++ (word ++ rest) := by rw [whole, List.append_assoc]
    have nonempty := byteLength_pos read.ne_nil
    have inside := covers front
    have part := slice_eq front
    rw [byteLength_append] at inside part
    refine .cons (blank_of_skipped whole skipped) (Nat.le_add_right ..) (by simpa using nonempty) inside ?_ ?_
    · rwa [part, String.toList_ofList]
    · exact ih (by rw [front, List.append_assoc (before ++ gap)]) (by simp only [byteLength_append])

theorem tiling_of_scan {source : String} {lexemes : List Lexeme} (h : scan source = .ok lexemes) :
    Tiling source 0 lexemes :=
  (tiled_of_scanFrom h (Nat.le_of_eq String.length_toList)).tiling (List.nil_append _).symm rfl

/-! ### Spacing -/

/-- Texts with single blanks between them. -/
def spaced (ws : List (List Char)) : List Char := [' '].intercalate ws

theorem Word.dropWhile_isGap {t : Token} {w : List Char} (h : Word t w) (rest : List Char) :
    (w ++ rest).dropWhile isGap = w ++ rest := by
  obtain ⟨c, w', rfl, read⟩ := h
  have solid : isGap c = false := by
    have first := read [] nofun
    cases gap : isGap c with
    | false => rfl
    | true =>
      simp only [piece, gap, if_true, Piece.ofToken] at first
      cases first
  rw [List.cons_append, List.dropWhile_cons_of_neg (by simp [solid])]

theorem scanFrom_word {t : Token} {w rest : List Char} (h : Word t w) (apart : Apart rest) (fuel offset : Nat) :
    scanFrom (fuel + 1) offset (w ++ rest) =
      (scanFrom fuel (offset + byteLength w) rest).map (⟨t, ⟨offset, offset + byteLength w⟩⟩ :: ·) := by
  obtain ⟨c, w', rfl, read⟩ := h
  simp only [List.cons_append, scanFrom, read rest apart, Piece.ofToken]

theorem scanFrom_blank (fuel offset : Nat) (rest : List Char) :
    scanFrom (fuel + 1) offset (' ' :: rest) =
      scanFrom fuel (offset + byteLength (' ' :: rest.takeWhile isGap)) (rest.dropWhile isGap) := rfl

theorem scanFrom_nil (fuel offset : Nat) : scanFrom fuel offset [] = .ok [] := by
  cases fuel <;> rfl

/-- **Words with blanks between them are scanned into their tokens.** -/
theorem scanFrom_spaced {words : List (Token × List Char)} (h : ∀ w ∈ words, Word w.1 w.2) (fuel offset : Nat)
    (enough : (spaced (words.map (·.2))).length ≤ fuel) :
    ∃ ls, scanFrom fuel offset (spaced (words.map (·.2))) = .ok ls ∧ ls.map (·.token) = words.map (·.1) := by
  induction words generalizing fuel offset with
  | nil => exact ⟨[], scanFrom_nil fuel offset, rfl⟩
  | cons w words ih =>
    rw [List.forall_mem_cons] at h
    have some := List.length_pos_iff.2 h.1.ne_nil
    cases words with
    | nil =>
      have alone : spaced ([w].map (·.2)) = w.2 ++ [] := by simp [spaced]
      rw [alone] at enough ⊢
      obtain ⟨fuel, rfl⟩ : ∃ k, fuel = k + 1 := ⟨fuel - 1, by simp only [List.length_append] at enough; omega⟩
      rw [scanFrom_word h.1 (by simp [Apart]), scanFrom_nil]
      exact ⟨_, rfl, rfl⟩
    | cons v words =>
      have next : spaced ((w :: v :: words).map (·.2)) = w.2 ++ ' ' :: spaced ((v :: words).map (·.2)) := by
        simp [spaced]
      obtain ⟨more, begins⟩ : ∃ more, spaced ((v :: words).map (·.2)) = v.2 ++ more := by
        cases words <;> simp [spaced]
      rw [next, List.length_append, List.length_cons] at enough
      obtain ⟨fuel, rfl⟩ : ∃ k, fuel = k + 1 + 1 := ⟨fuel - 2, by omega⟩
      have apart : Apart (' ' :: spaced ((v :: words).map (·.2))) := by
        rintro _ ⟨⟩
        rfl
      have solid := (h.2 v List.mem_cons_self).dropWhile_isGap more
      rw [← begins] at solid
      rw [next, scanFrom_word h.1 apart, scanFrom_blank, solid]
      obtain ⟨ls, read, tokens⟩ := ih h.2 fuel
        (offset + byteLength w.2 + byteLength (' ' :: (spaced ((v :: words).map (·.2))).takeWhile isGap)) (by omega)
      rw [read]
      exact ⟨_, rfl, congrArg (w.1 :: ·) tokens⟩

/--
**The tokens of a source tile it, and stay the same with single blanks between them.**

The spans of the tokens are not empty, in order and apart, and lie inside of the source. What is between them, and before and
behind them, consists of blanks and complete comments. The parts of the source that they cover, joined by single blanks,
are scanned into the same tokens.
-/
theorem tokens_tile_source (source : String) (lexemes : List Lexeme) (h : scan source = .ok lexemes) :
    (∀ l ∈ lexemes, l.span.start < l.span.stop ∧ l.span.stop ≤ source.utf8ByteSize ∧ l.span.Covers source) ∧
      lexemes.Pairwise (fun a b => a.span.stop ≤ b.span.start) ∧
      (∀ gap ∈ gaps source.utf8ByteSize 0 lexemes, gap.Blank source) ∧
      ∃ again, scan (" ".intercalate (lexemes.map (·.span.slice source))) = .ok again ∧
        again.map (·.token) = lexemes.map (·.token) := by
  have tiling := tiling_of_scan h
  refine ⟨fun l hl => ⟨tiling.nonempty l hl, (tiling.inside l hl).stop_le, tiling.inside l hl⟩, tiling.ordered,
    tiling.blank, ?_⟩
  let words := lexemes.map fun l => (l.token, (l.span.slice source).toList)
  have text : (" ".intercalate (lexemes.map (·.span.slice source))).toList = spaced (words.map (·.2)) := by
    rw [String.toList_intercalate, List.map_map, List.map_map]
    rfl
  have each : ∀ w ∈ words, Word w.1 w.2 := List.forall_mem_map.2 tiling.words
  obtain ⟨again, read, tokens⟩ := scanFrom_spaced each (" ".intercalate (lexemes.map (·.span.slice source))).length 0
    (by rw [← text, String.length_toList])
  rw [← text] at read
  refine ⟨again, read, tokens.trans ?_⟩
  rw [List.map_map]
  rfl

/-- A comment stands between a name and a mark, and another one behind the last token. -/
theorem tokens_tile_source_commented :
    let source := "a/*é*/+1 // b"
    let lexemes : List Lexeme := [⟨.ident "a", ⟨0, 1⟩⟩, ⟨.mark .plus, ⟨7, 8⟩⟩, ⟨.number "1", ⟨8, 9⟩⟩]
    scan source = .ok lexemes ∧ lexemes.map (·.span.slice source) = ["a", "+", "1"] ∧
      (∀ gap ∈ [⟨0, 0⟩, ⟨1, 7⟩, ⟨8, 8⟩, ⟨9, 14⟩], Span.Blank gap source) ∧
      ∃ again, scan "a + 1" = .ok again ∧ again.map (·.token) = [.ident "a", .mark .plus, .number "1"] := by
  have scanned : scan "a/*é*/+1 // b" =
      .ok [⟨.ident "a", ⟨0, 1⟩⟩, ⟨.mark .plus, ⟨7, 8⟩⟩, ⟨.number "1", ⟨8, 9⟩⟩] := by decide +kernel
  obtain ⟨-, -, blank, again⟩ := tokens_tile_source _ _ scanned
  exact ⟨scanned, by decide +kernel, blank, again⟩

end Staging
