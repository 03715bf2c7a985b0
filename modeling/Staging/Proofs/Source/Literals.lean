import Staging.Json
import Staging.Proofs.Source.Tiling

/-!
The literal of a text, in front of other text.

A literal denotes its text both for the scanner (`scanFrom_literal`) and as a JSON document (`read?_encode`), and it ends at
its own closing quote whatever comes after it. What comes after is scanned as it would be alone: where a text stands only
moves the spans (`scanFrom_moved`).

Main statement: `literal_in_front`.
-/

namespace Staging

open Text.Quoted

/-! ### Other places -/

/-- The same stretch, the given number of bytes later. -/
def Span.moved (span : Span) (bytes : Nat) : Span := ⟨span.start + bytes, span.stop + bytes⟩

def Lexeme.moved (l : Lexeme) (bytes : Nat) : Lexeme := { l with span := l.span.moved bytes }

def ScanError.moved (e : ScanError) (bytes : Nat) : ScanError := { e with span := e.span.moved bytes }

/-- What a scan gives for the same text, the given number of bytes later. -/
def scanMoved (bytes : Nat) : Except ScanError (List Lexeme) → Except ScanError (List Lexeme)
  | .ok ls => .ok (ls.map (·.moved bytes))
  | .error e => .error (e.moved bytes)

theorem scanMoved_map_cons (bytes : Nat) (l : Lexeme) (result : Except ScanError (List Lexeme)) :
    scanMoved bytes (result.map (l :: ·)) = (scanMoved bytes result).map (l.moved bytes :: ·) := by
  cases result <;> rfl

/-- **A text is scanned alike wherever it stands.** -/
theorem scanFrom_moved (fuel offset bytes : Nat) (cs : List Char) :
    scanFrom fuel (offset + bytes) cs = scanMoved bytes (scanFrom fuel offset cs) := by
  induction fuel generalizing offset cs with
  | zero => rfl
  | succ fuel ih =>
    cases cs with
    | nil => rfl
    | cons c rest =>
      have stop : offset + bytes + byteLength (piece c rest).taken = offset + byteLength (piece c rest).taken + bytes :=
        Nat.add_right_comm ..
      simp only [scanFrom]
      split
      · rw [stop]
        rfl
      · rw [stop, ih]
      · rw [stop, ih, scanMoved_map_cons]
        rfl

/-- Fuel for each character is enough. -/
theorem scanFrom_enough {fuel fuel' : Nat} (offset : Nat) {cs : List Char} (enough : cs.length ≤ fuel)
    (enough' : cs.length ≤ fuel') : scanFrom fuel offset cs = scanFrom fuel' offset cs := by
  induction fuel generalizing fuel' offset cs with
  | zero =>
    obtain rfl := List.eq_nil_of_length_eq_zero (Nat.le_zero.1 enough)
    rw [scanFrom_nil, scanFrom_nil]
  | succ fuel ih =>
    cases cs with
    | nil => rw [scanFrom_nil, scanFrom_nil]
    | cons c rest =>
      obtain ⟨fuel', rfl⟩ : ∃ k, fuel' = k + 1 := ⟨fuel' - 1, by simp only [List.length_cons] at enough'; omega⟩
      have sound := piece_sound c rest
      have shorter : (piece c rest).rest.length ≤ rest.length := by
        have whole := congrArg List.length sound.whole
        have some := List.length_pos_iff.2 sound.progress
        simp only [List.length_append, List.length_cons] at whole
        omega
      simp only [List.length_cons] at enough enough'
      have more (stop : Nat) : scanFrom fuel stop (piece c rest).rest = scanFrom fuel' stop (piece c rest).rest :=
        ih stop (by omega) (by omega)
      simp only [scanFrom, more]

/-! ### Scanning -/

theorem scanFrom_literal (s : String) (fuel offset : Nat) (rest : List Char) :
    scanFrom (fuel + 1) offset (encodeChars s.toList ++ rest) =
      (scanFrom fuel (offset + byteLength (encodeChars s.toList)) rest).map
        (⟨.str s, ⟨offset, offset + byteLength (encodeChars s.toList)⟩⟩ :: ·) := by
  have read := piece_quoted s rest
  have whole : encodeChars s.toList = '"' :: (s.toList.flatMap escape ++ ['"']) := rfl
  rw [whole] at read ⊢
  simp only [List.cons_append, scanFrom, read, Piece.ofToken]

/-- The literal in front is a token of its own; the rest is scanned as it would be alone. -/
theorem scan_encode_append (s t : String) :
    scan (encode s ++ t) = (scanMoved (encode s).utf8ByteSize (scan t)).map
      (⟨.str s, ⟨0, (encode s).utf8ByteSize⟩⟩ :: ·) := by
  have size : byteLength (encodeChars s.toList) = (encode s).utf8ByteSize := by
    rw [← toList_encode, byteLength_toList]
  obtain ⟨fuel, more, enough⟩ : ∃ fuel, (encode s ++ t).length = fuel + 1 ∧ t.toList.length ≤ fuel := by
    rw [← String.length_toList, String.toList_append, toList_encode]
    refine ⟨(s.toList.flatMap escape ++ ['"'] ++ t.toList).length, rfl, ?_⟩
    rw [List.length_append]
    exact Nat.le_add_left ..
  rw [scan, more, String.toList_append, toList_encode, scanFrom_literal, size, scanFrom_moved, Nat.zero_add, scan,
    scanFrom_enough 0 enough (Nat.le_of_eq String.length_toList)]

/-! ### Reading as JSON -/

theorem hexValue?_hexDigit : ∀ k < 16, hexValue? (hexDigit k) = some k := by
  decide

theorem readCodePoint?_hexDigits {k : Nat} (low : k < 32) (rest : List Char) :
    Json.readCodePoint? (['0', '0', hexDigit (k / 16), hexDigit (k % 16)] ++ rest) = some (Char.ofNat k, rest) := by
  have zero : hexValue? '0' = some 0 := by decide
  have unit : Json.readUnit? (['0', '0', hexDigit (k / 16), hexDigit (k % 16)] ++ rest) = some (k, rest) := by
    simp [Json.readUnit?, zero, hexValue?_hexDigit (k / 16) (by omega), hexValue?_hexDigit (k % 16) (by omega),
      Nat.div_add_mod]
  simp only [Json.readCodePoint?, unit, Option.bind_eq_bind, Option.bind_some]
  rw [if_neg (by omega), if_neg (by omega)]
  rfl

section

variable (fuel : Nat) (rest : List Char)

theorem readString?_short {c e : Char} (h : Json.simpleEscape? e = some c) :
    Json.readString? (fuel + 1) ('\\' :: e :: rest) =
      (Json.readString? fuel rest).map fun (text, after) => (c :: text, after) := by
  have other : e ≠ 'u' := by
    rintro rfl
    cases h
  simp only [Json.readString?]
  rw [if_neg (by decide), if_neg (by decide), if_pos (by decide)]
  simp only [h]
  cases Json.readString? fuel rest <;> rfl

theorem readString?_unit {digits : List Char} {c : Char} (h : Json.readCodePoint? (digits ++ rest) = some (c, rest)) :
    Json.readString? (fuel + 1) ('\\' :: 'u' :: (digits ++ rest)) =
      (Json.readString? fuel rest).map fun (text, after) => (c :: text, after) := by
  simp only [Json.readString?]
  rw [if_neg (by decide), if_neg (by decide), if_pos (by decide), h, Option.bind_eq_bind, Option.bind_some]
  cases Json.readString? fuel rest <;> rfl

/-- What a character is written as denotes it in a document, too. -/
theorem readString?_append_escape (c : Char) :
    Json.readString? (fuel + 1) (escape c ++ rest) =
      (Json.readString? fuel rest).map fun (text, after) => (c :: text, after) := by
  rcases escape_cases c with ⟨e, short, written⟩ | ⟨low, written⟩ | ⟨quote, slash, high, written⟩
  · have letters : ∀ p ∈ shortEscapes, Json.simpleEscape? p.2 = some p.1 := by decide
    rw [written]
    exact readString?_short fuel rest (letters _ short)
  · have read := readString?_unit fuel rest (readCodePoint?_hexDigits low rest)
    rw [Char.ofNat_toNat] at read
    rw [written]
    exact read
  · rw [written, List.singleton_append]
    simp only [Json.readString?]
    rw [if_neg quote, if_neg (Nat.not_lt.2 high), if_neg slash]

end

/-- A string in a document is read up to its own closing quote. -/
theorem readString?_flatMap_escape (cs rest : List Char) {fuel : Nat} (enough : cs.length < fuel) :
    Json.readString? fuel (cs.flatMap escape ++ '"' :: rest) = some (cs, rest) := by
  induction cs generalizing fuel with
  | nil =>
    obtain ⟨fuel, rfl⟩ := Nat.exists_eq_add_one.2 enough
    rfl
  | cons c cs ih =>
    rw [List.length_cons] at enough
    obtain ⟨fuel, rfl⟩ := Nat.exists_eq_add_one.2 (Nat.zero_lt_of_lt enough)
    rw [List.flatMap_cons, List.append_assoc, readString?_append_escape, ih (Nat.lt_of_succ_lt_succ enough)]
    rfl

theorem length_le_flatMap_escape (cs : List Char) : cs.length ≤ (cs.flatMap escape).length := by
  induction cs with
  | nil => exact Nat.le_refl 0
  | cons c cs ih =>
    have some : 0 < (escape c).length := by
      rcases escape_cases c with ⟨_, -, written⟩ | ⟨-, written⟩ | ⟨-, -, -, written⟩ <;> simp [written]
    rw [List.flatMap_cons, List.length_append, List.length_cons]
    omega

theorem readValue?_literal (s : String) (fuel depth : Nat) :
    Json.readValue? (fuel + 1) depth (encodeChars s.toList) = some (.string s, []) := by
  have enough : s.toList.length < (s.toList.flatMap escape ++ ['"']).length + 1 := by
    have := length_le_flatMap_escape s.toList
    rw [List.length_append]
    omega
  have solid (cs : List Char) : Json.skipSpace ('"' :: cs) = '"' :: cs := rfl
  rw [encodeChars, List.cons_append, Json.readValue?, solid]
  simp only [readString?_flatMap_escape s.toList [] enough, Option.map_some, String.ofList_toList]

/-- **A literal is a document that denotes its text.** -/
theorem read?_encode (s : String) : Json.read? (encode s) = some (.string s) := by
  rw [Json.read?, toList_encode]
  simp only [readValue?_literal s (2 * (encodeChars s.toList).length + 1), Option.bind_eq_bind, Option.bind_some]
  rfl

/--
**A literal is scanned into its text, whatever comes after it.**

Alone it is one token, which covers the whole literal. In front of a text that can be scanned it is the first token, and the
tokens of the text come after it, later by the bytes that the literal takes up. A text that cannot be scanned fails behind the
literal as it does alone. Read as a document, the literal denotes the same text.
-/
theorem literal_in_front (s : String) :
    scan (encode s) = .ok [⟨.str s, ⟨0, (encode s).utf8ByteSize⟩⟩] ∧
      (∀ t ls, scan t = .ok ls → scan (encode s ++ t) =
        .ok (⟨.str s, ⟨0, (encode s).utf8ByteSize⟩⟩ :: ls.map (·.moved (encode s).utf8ByteSize))) ∧
      (∀ t e, scan t = .error e → scan (encode s ++ t) = .error (e.moved (encode s).utf8ByteSize)) ∧
      Json.read? (encode s) = some (.string s) := by
  refine ⟨?_, fun t ls h => ?_, fun t e h => ?_, read?_encode s⟩
  · have alone := scan_encode_append s ""
    rwa [String.append_empty] at alone
  · rw [scan_encode_append, h]
    rfl
  · rw [scan_encode_append, h]
    rfl

/-- The text has a quote, a backslash in front of what looks like an escape, a line end, a control character and an accent. -/
theorem literal_in_front_hostile :
    encode "\"\\u0041\n\x01é" = "\"\\\"\\\\u0041\\n\\u0001é\"" ∧
      scan "'b' + // c" = .ok [⟨.str "b", ⟨0, 3⟩⟩, ⟨.mark .plus, ⟨4, 5⟩⟩] ∧ scan "@" = .error ⟨"@", ⟨0, 1⟩⟩ ∧
      scan (encode "\"\\u0041\n\x01é" ++ "'b' + // c") =
        .ok [⟨.str "\"\\u0041\n\x01é", ⟨0, 21⟩⟩, ⟨.str "b", ⟨21, 24⟩⟩, ⟨.mark .plus, ⟨25, 26⟩⟩] ∧
      scan (encode "\"\\u0041\n\x01é" ++ "@") = .error ⟨"@", ⟨21, 22⟩⟩ := by
  have scanned : scan "'b' + // c" = .ok [⟨.str "b", ⟨0, 3⟩⟩, ⟨.mark .plus, ⟨4, 5⟩⟩] := by decide +kernel
  have refused : scan "@" = .error ⟨"@", ⟨0, 1⟩⟩ := by decide +kernel
  obtain ⟨-, tokens, failure, -⟩ := literal_in_front "\"\\u0041\n\x01é"
  exact ⟨by decide +kernel, scanned, refused, tokens _ _ scanned, failure _ _ refused⟩

end Staging
