import Staging.Source.Scan
import Staging.Text.Quoted

/-!
Texts and the tokens they are scanned into.

`Spelling t w` says that the characters `w` are a way to write the token `t`, and `Token.endsBefore` which
characters may come right after it without becoming a part of it. `Lexes cs ts` puts tokens and blanks
together. `Lexes.scan` says that a text is scanned into the tokens it was put together from, and
`Lexes.append` that texts may be joined where the last token of one ends before the first character of
the other.
-/

namespace Staging

/-! ### Ends of tokens -/

/-- No mark begins with this mark and the character after it. -/
def Mark.endsBefore (m : Mark) (c : Char) : Bool :=
  Mark.all.all (fun k => !(m.text.toList ++ [c]).isPrefixOf k.text.toList)
    && !(m == .slash && (c == '/' || c == '*'))

/-- The token is complete where the character follows it. -/
def Token.endsBefore : Token → Char → Bool
  | .keyword _, c | .ident _, c => !isNamePart c
  | .number _, c => !isNamePart c && c != '.'
  | .str _, _ => true
  | .mark m, c => m.endsBefore c

/-- Every character that a text begins with ends the token before it. -/
def Token.Meets (t : Token) (cs : List Char) : Prop := ∀ c, cs.head? = some c → t.endsBefore c = true

theorem Token.Meets.cons {t : Token} {c : Char} {cs : List Char} (h : t.endsBefore c = true) :
    t.Meets (c :: cs) := by
  intro d hd
  cases hd
  exact h

/-! ### Spellings -/

/-- A numeral: digits, and possibly a point and more digits. -/
inductive Numeral : List Char → Prop
  | whole {ds : List Char} (hne : ds ≠ []) (hd : ds.all Char.isDigit = true) : Numeral ds
  | fraction {ds fs : List Char} (hne : ds ≠ []) (hd : ds.all Char.isDigit = true) (hnf : fs ≠ [])
      (hf : fs.all Char.isDigit = true) : Numeral (ds ++ '.' :: fs)

/-- The characters are a way to write the token. -/
inductive Spelling : Token → List Char → Prop
  | word {n : String} (h : isNameShaped n = true) : Spelling (wordToken n.toList) n.toList
  | number {n : String} (h : Numeral n.toList) : Spelling (.number n) n.toList
  | quoted {s : String} : Spelling (.str s) (Text.Quoted.encodeChars s.toList)
  | mark {m : Mark} : Spelling (.mark m) m.text.toList

/-! ### Marks -/

theorem Mark.mem_all (m : Mark) : m ∈ Mark.all := by
  cases m <;> decide

/-- No mark before this one in the list is a part of it. -/
theorem Mark.not_isPrefixOf_text :
    ∀ m ∈ Mark.all, ∀ k ∈ Mark.all.takeWhile (· != m), k.text.toList.isPrefixOf m.text.toList = false := by
  decide

theorem isPrefixOf_append {α : Type} [BEq α] [LawfulBEq α] {as bs cs : List α}
    (h : as.isPrefixOf (bs ++ cs) = true) :
    as.isPrefixOf bs = true ∨ ∃ c, cs.head? = some c ∧ (bs ++ [c]).isPrefixOf as = true := by
  simp only [List.isPrefixOf_iff_prefix] at h ⊢
  obtain ⟨ts, hts⟩ := h
  rcases List.append_eq_append_iff.1 hts with ⟨ds, rfl, -⟩ | ⟨ds, rfl, rfl⟩
  · exact .inl (List.prefix_append as ds)
  · cases ds with
    | nil => exact .inl (by simp)
    | cons d ds => exact .inr ⟨d, rfl, by simp⟩

/-- A mark is the longest that its text begins with, if it ends there. -/
theorem Mark.longest?_append {m : Mark} {cs : List Char} (h : (Token.mark m).Meets cs) :
    Mark.longest? (m.text.toList ++ cs) = some m := by
  have hm := Mark.mem_all m
  unfold Mark.longest?
  rw [List.find?_eq_some_iff_append]
  refine ⟨by simp, Mark.all.takeWhile (· != m), (Mark.all.dropWhile (· != m)).tail, ?_, ?_⟩
  · have hdrop : Mark.all.dropWhile (· != m) = m :: (Mark.all.dropWhile (· != m)).tail := by
      cases m <;> rfl
    rw [← hdrop, List.takeWhile_append_dropWhile]
  · intro k hk
    cases hp : k.text.toList.isPrefixOf (m.text.toList ++ cs) with
    | false => rfl
    | true =>
      rcases isPrefixOf_append hp with hshort | ⟨c, hc, hlong⟩
      · rw [Mark.not_isPrefixOf_text m hm k hk] at hshort
        cases hshort
      · have hends := h c hc
        simp only [Token.endsBefore, Mark.endsBefore, Bool.and_eq_true, List.all_eq_true] at hends
        have := hends.1 k (Mark.mem_all k)
        simp [hlong] at this

/-- A token taken off the front of a text. -/
def Piece.ofToken (t : Token) (w rest : List Char) : Piece := ⟨.ok (some t), w, rest⟩

/-- What a mark begins with begins nothing else. -/
theorem Mark.text_eq_cons (m : Mark) : ∃ c w, m.text.toList = c :: w ∧ isGap c = false
    ∧ isNameStart c = false ∧ c.isDigit = false ∧ ¬ (c = '"' ∨ c = '\'') := by
  cases m <;> exact ⟨_, _, rfl, by decide, by decide, by decide, by decide⟩

/-- A gap reaches up to the next character that is none. -/
theorem piece_gap {c : Char} (h : isGap c = true) (rest : List Char) :
    piece c rest = ⟨.ok none, c :: rest.takeWhile isGap, rest.dropWhile isGap⟩ := by
  unfold piece
  rw [if_pos h]

theorem markPiece_eq {m : Mark} {c : Char} {w rest : List Char} (hm : m.text.toList = c :: w)
    (h : (Token.mark m).Meets rest) :
    markPiece c (w ++ rest) = Piece.ofToken (.mark m) (c :: w) rest := by
  have hlong := Mark.longest?_append h
  have hdrop : (c :: (w ++ rest)).drop m.text.length = rest := by
    have : m.text.length = (c :: w).length := by rw [← hm, String.length_toList]
    rw [this, ← List.cons_append, List.drop_left]
  rw [hm, List.cons_append] at hlong
  simp only [markPiece, hlong, hdrop, hm, Piece.ofToken]

theorem piece_mark {m : Mark} {c : Char} {w rest : List Char} (hm : m.text.toList = c :: w)
    (h : (Token.mark m).Meets rest) :
    piece c (w ++ rest) = Piece.ofToken (.mark m) (c :: w) rest := by
  obtain ⟨c', w', hm', hgap, hname, hdigit, hquote⟩ := Mark.text_eq_cons m
  obtain ⟨rfl, rfl⟩ := List.cons.inj (hm.symm.trans hm')
  have hpiece := markPiece_eq hm h
  unfold piece
  rw [if_neg (by simp [hgap]), if_neg (by simp [hname]), if_neg (by simp [hdigit]), if_neg hquote]
  by_cases hslash : c = '/'
  · rw [if_pos hslash]
    -- neither of the two marks that begin with a slash opens a comment
    have notComment : ∀ d, (w ++ rest).head? = some d → d ≠ '/' ∧ d ≠ '*' := by
      intro d hd
      subst hslash
      cases m <;> simp only [Mark.text] at hm <;> cases hm
      · have := h d hd
        simp only [Token.endsBefore, Mark.endsBefore, Bool.and_eq_true] at this
        have := this.2
        simp only [BEq.rfl, Bool.true_and, Bool.not_eq_true', Bool.or_eq_false_iff, beq_eq_false_iff_ne] at this
        exact this
      · cases hd
        decide
    cases hrest : w ++ rest with
    | nil => rw [hrest] at hpiece; exact hpiece
    | cons d ds =>
      obtain ⟨h₁, h₂⟩ := notComment d (by rw [hrest]; rfl)
      rw [hrest] at hpiece
      split
      · rename_i heq
        cases heq
        exact absurd rfl h₁
      · rename_i heq
        cases heq
        exact absurd rfl h₂
      · exact hpiece
  · rw [if_neg hslash]
    exact hpiece

/-! ### Words and numerals -/

theorem takeWhile_append_of_all {p : Char → Bool} {w : List Char} (rest : List Char) (hw : w.all p = true)
    (hr : ∀ c, rest.head? = some c → p c = false) :
    (w ++ rest).takeWhile p = w ∧ (w ++ rest).dropWhile p = rest := by
  have hall := List.all_eq_true.1 hw
  have hnil : rest.takeWhile p = [] ∧ rest.dropWhile p = rest := by
    cases rest with
    | nil => exact ⟨rfl, rfl⟩
    | cons c cs => simp [hr c rfl]
  rw [List.takeWhile_append_of_pos hall, List.dropWhile_append_of_pos hall, hnil.1, hnil.2]
  exact ⟨List.append_nil w, rfl⟩

theorem not_isGap_of_isNameStart {c : Char} (h : isNameStart c = true) : isGap c = false := by
  cases hg : isGap c with
  | false => rfl
  | true =>
    simp only [isGap, Bool.or_eq_true, beq_iff_eq] at hg
    rcases hg with (((rfl | rfl) | rfl) | rfl) | rfl <;> exact absurd h (by decide)

/-- A word is a keyword or a name. -/
theorem wordToken_cases (w : List Char) :
    (∃ k, Keyword.ofText? (String.ofList w) = some k ∧ wordToken w = .keyword k)
      ∨ Keyword.ofText? (String.ofList w) = none ∧ wordToken w = .ident (String.ofList w) := by
  simp only [wordToken]
  cases Keyword.ofText? (String.ofList w) with
  | none => exact .inr ⟨rfl, rfl⟩
  | some k => exact .inl ⟨k, rfl, rfl⟩

theorem endsBefore_wordToken {w : List Char} {c : Char} : (wordToken w).endsBefore c = !isNamePart c := by
  rcases wordToken_cases w with ⟨k, -, hw⟩ | ⟨-, hw⟩ <;> rw [hw] <;> rfl

theorem piece_word {n : String} {c : Char} {w rest : List Char} (h : isNameShaped n = true)
    (hn : n.toList = c :: w) (hr : (wordToken n.toList).Meets rest) :
    piece c (w ++ rest) = Piece.ofToken (wordToken n.toList) (c :: w) rest := by
  simp only [isNameShaped, hn, Bool.and_eq_true] at h
  have split := takeWhile_append_of_all (p := isNamePart) (w := w) rest h.2 fun d hd => by
    have := hr d hd
    rw [endsBefore_wordToken] at this
    simpa using this
  unfold piece
  rw [if_neg (by simp [not_isGap_of_isNameStart h.1]), if_pos h.1]
  simp only [split.1, split.2, hn, Piece.ofToken]

theorem isNamePart_of_isDigit {c : Char} (h : c.isDigit = true) : isNamePart c = true := by
  simp [isNamePart, Char.isAlphanum, h]

theorem splitExponent_eq {rest : List Char} (h : ∀ c, rest.head? = some c → isNamePart c = false) :
    splitExponent rest = ([], rest) := by
  cases rest with
  | nil => rfl
  | cons c cs =>
    have hc := h c rfl
    have : ¬ (c = 'e' ∨ c = 'E') := by
      rintro (rfl | rfl) <;> exact absurd hc (by decide)
    simp [splitExponent, this]

theorem splitNumeral_eq {w : List Char} (rest : List Char) (hw : Numeral w)
    (hname : ∀ c, rest.head? = some c → isNamePart c = false) (hdot : rest.head? ≠ some '.') :
    splitNumeral (w ++ rest) = (w, rest) := by
  have notDigit : ∀ c, rest.head? = some c → c.isDigit = false := by
    intro c hc
    cases hd : c.isDigit with
    | false => rfl
    | true => exact absurd ((hname c hc).symm.trans (isNamePart_of_isDigit hd)) (by decide)
  cases hw with
  | whole hne hd =>
    have split := takeWhile_append_of_all rest hd notDigit
    have fraction : splitFraction rest = ([], rest) := by
      cases rest with
      | nil => rfl
      | cons c cs =>
        unfold splitFraction
        split
        · rename_i heq
          cases heq
          exact absurd rfl hdot
        · rfl
    simp [splitNumeral, split.1, split.2, fraction, splitExponent_eq hname]
  | @fraction ds fs hne hd hnf hf =>
    have whole := takeWhile_append_of_all ('.' :: fs ++ rest) hd (by rintro _ ⟨⟩; decide)
    have frac := takeWhile_append_of_all rest hf notDigit
    have digits : digitsAfter ['.'] (fs ++ rest) = ('.' :: fs, rest) := by
      unfold digitsAfter
      split
      · rename_i heq
        rw [frac.1] at heq
        exact absurd heq hnf
      · rename_i heq
        rw [frac.1, frac.2]
        rfl
    rw [List.append_assoc, List.cons_append]
    simp only [List.cons_append] at whole
    simp [splitNumeral, whole.1, whole.2, splitFraction, digits, splitExponent_eq hname]

theorem not_isGap_of_isDigit {c : Char} (h : c.isDigit = true) :
    isGap c = false ∧ isNameStart c = false := by
  have hlow : 48 ≤ c.toNat ∧ c.toNat ≤ 57 := by
    simpa [Char.isDigit, UInt32.le_iff_toNat_le] using h
  constructor
  · cases hg : isGap c with
    | false => rfl
    | true =>
      simp only [isGap, Bool.or_eq_true, beq_iff_eq] at hg
      rcases hg with (((rfl | rfl) | rfl) | rfl) | rfl <;> exact absurd h (by decide)
  · cases hs : isNameStart c with
    | false => rfl
    | true =>
      unfold isNameStart Char.isAlpha Char.isUpper Char.isLower at hs
      simp [UInt32.le_iff_toNat_le] at hs
      rcases hs with ((hu | hl) | rfl) | rfl
      · omega
      · omega
      · exact absurd h (by decide)
      · exact absurd h (by decide)

theorem Numeral.head {w : List Char} (h : Numeral w) : ∃ c cs, w = c :: cs ∧ c.isDigit = true := by
  cases h with
  | whole hne hd =>
    obtain ⟨c, cs, rfl⟩ := List.exists_cons_of_ne_nil hne
    rw [List.all_cons, Bool.and_eq_true] at hd
    exact ⟨c, cs, rfl, hd.1⟩
  | @fraction ds fs hne hd =>
    obtain ⟨c, cs, rfl⟩ := List.exists_cons_of_ne_nil hne
    rw [List.all_cons, Bool.and_eq_true] at hd
    exact ⟨c, cs ++ '.' :: fs, rfl, hd.1⟩

theorem piece_number {n : String} {c : Char} {w rest : List Char} (h : Numeral n.toList)
    (hn : n.toList = c :: w) (hr : (Token.number n).Meets rest) :
    piece c (w ++ rest) = Piece.ofToken (.number n) (c :: w) rest := by
  have hnum := h
  rw [hn] at hnum
  obtain ⟨c', cs, heq, hdigit⟩ := hnum.head
  obtain ⟨rfl, rfl⟩ := List.cons.inj heq
  obtain ⟨hgap, hname⟩ := not_isGap_of_isDigit hdigit
  have ends : ∀ d, rest.head? = some d → isNamePart d = false ∧ d ≠ '.' := by
    intro d hd
    have := hr d hd
    simpa [Token.endsBefore] using this
  have split := splitNumeral_eq rest hnum (fun d hd => (ends d hd).1)
    fun hd => (ends '.' hd).2 rfl
  rw [List.cons_append] at split
  unfold piece
  rw [if_neg (by simp [hgap]), if_neg (by simp [hname]), if_pos hdigit]
  simp only [split, Piece.ofToken]
  rw [← hn, String.ofList_toList]

/-! ### Quoted text -/

theorem closeString?_escape {q c : Char} {cs : List Char} (hc : c ≠ '\n') :
    closeString? q ('\\' :: c :: cs)
      = (closeString? q cs).map fun (body, after) => ('\\' :: c :: body, after) := by
  rw [closeString?]
  · simpa using hc

theorem closeString?_plain {q c : Char} {cs : List Char} (hn : c ≠ '\n') (hb : c ≠ '\\') (hq : c ≠ q) :
    closeString? q (c :: cs) = (closeString? q cs).map fun (body, after) => (c :: body, after) := by
  rw [closeString?.eq_def]
  split
  · rename_i heq
    cases heq
  · rename_i heq
    cases heq
    exact absurd rfl hn
  · rename_i heq
    cases heq
    exact absurd rfl hb
  · rename_i heq
    cases heq
    exact absurd rfl hb
  · rename_i heq
    cases heq
    exact absurd rfl hb
  · rename_i heq
    cases heq
    rw [if_neg hq]

open Text.Quoted in
theorem hexDigit_plain : ∀ k < 16, hexDigit k ≠ '\n' ∧ hexDigit k ≠ '\\' ∧ hexDigit k ≠ '"' := by
  decide

open Text.Quoted in
theorem codePoint?_hexDigits :
    ∀ k < 32, codePoint? ['0', '0', hexDigit (k / 16), hexDigit (k % 16)] = some (Char.ofNat k) := by
  decide

/-- What a character is written as is a whole part of the inside of a string. -/
theorem closeString?_append_escape (c : Char) (rest : List Char) :
    closeString? '"' (Text.Quoted.escape c ++ rest)
      = (closeString? '"' rest).map fun (body, after) => (Text.Quoted.escape c ++ body, after) := by
  rcases Text.Quoted.escape_cases c with ⟨e, short, written⟩ | ⟨low, written⟩ | ⟨quote, slash, high, written⟩
  · have line : ∀ p ∈ Text.Quoted.shortEscapes, p.2 ≠ '\n' := by decide
    rw [written]
    exact closeString?_escape (line _ short)
  · obtain ⟨a₁, a₂, a₃⟩ := hexDigit_plain (c.toNat / 16) (by omega)
    obtain ⟨b₁, b₂, b₃⟩ := hexDigit_plain (c.toNat % 16) (by omega)
    simp only [written, List.cons_append, List.nil_append]
    rw [closeString?_escape (by decide), closeString?_plain (by decide) (by decide) (by decide),
      closeString?_plain (by decide) (by decide) (by decide), closeString?_plain a₁ a₂ a₃,
      closeString?_plain b₁ b₂ b₃]
    simp only [Option.map_map, Function.comp_def]
  · have line : c ≠ '\n' := by
      rintro rfl
      exact absurd high (by decide)
    rw [written]
    exact closeString?_plain line slash quote

theorem unescape_plain {c : Char} {cs : List Char} (h : c ≠ '\\') :
    unescape (c :: cs) = c :: unescape cs := by
  rw [unescape] <;> simp [h]

theorem unescape_short :
    ∀ p ∈ Text.Quoted.shortEscapes, ∀ rest, unescape ('\\' :: p.2 :: rest) = p.1 :: unescape rest := by
  simp [Text.Quoted.shortEscapes, unescape]

/-- What a character is written as denotes it. -/
theorem unescape_append_escape (c : Char) (rest : List Char) :
    unescape (Text.Quoted.escape c ++ rest) = c :: unescape rest := by
  rcases Text.Quoted.escape_cases c with ⟨e, short, written⟩ | ⟨low, written⟩ | ⟨-, slash, -, written⟩
  · rw [written]
    exact unescape_short _ short rest
  · have code := codePoint?_hexDigits c.toNat low
    rw [Char.ofNat_toNat] at code
    simp [written, unescape, code]
  · rw [written]
    exact unescape_plain slash

theorem closeString?_encode (cs rest : List Char) :
    closeString? '"' (cs.flatMap Text.Quoted.escape ++ '"' :: rest)
      = some (cs.flatMap Text.Quoted.escape, rest) := by
  induction cs with
  | nil =>
    rw [List.flatMap_nil, List.nil_append, closeString?] <;> simp
  | cons c cs ih =>
    rw [List.flatMap_cons, List.append_assoc, closeString?_append_escape, ih]
    rfl

/-- Quoting and reading a string are inverse. -/
theorem unescape_encode (cs : List Char) : unescape (cs.flatMap Text.Quoted.escape) = cs := by
  induction cs with
  | nil => simp [unescape]
  | cons c cs ih => rw [List.flatMap_cons, unescape_append_escape, ih]

theorem piece_quoted (s : String) (rest : List Char) :
    piece '"' (s.toList.flatMap Text.Quoted.escape ++ ['"'] ++ rest)
      = Piece.ofToken (.str s) (Text.Quoted.encodeChars s.toList) rest := by
  unfold piece
  rw [if_neg (by decide), if_neg (by decide), if_neg (by decide), if_pos (by decide)]
  rw [List.append_assoc, List.singleton_append, closeString?_encode]
  simp [unescape_encode, Piece.ofToken, Text.Quoted.encodeChars]

/-! ### Scanning -/

/-- A spelled token is taken off the front of a text, if the text goes on with something else. -/
theorem Spelling.piece {t : Token} {w rest : List Char} (h : Spelling t w) (hr : t.Meets rest) :
    ∃ c w', w = c :: w' ∧ piece c (w' ++ rest) = Piece.ofToken t w rest := by
  cases h with
  | @word n hn =>
    cases hw : n.toList with
    | nil => simp [isNameShaped, hw] at hn
    | cons c w =>
      refine ⟨c, w, rfl, ?_⟩
      rw [← hw]
      exact (piece_word hn hw hr).trans (by rw [hw])
  | @number n hn =>
    obtain ⟨c, w, hw, -⟩ := hn.head
    rw [hw]
    exact ⟨c, w, rfl, piece_number hn hw hr⟩
  | quoted => exact ⟨_, _, rfl, piece_quoted _ rest⟩
  | @mark m =>
    obtain ⟨c, w, hw, -⟩ := Mark.text_eq_cons m
    rw [hw]
    exact ⟨c, w, rfl, piece_mark hw hr⟩

theorem Spelling.ne_nil {t : Token} {w : List Char} (h : Spelling t w) : w ≠ [] := by
  have meets : t.Meets [] := by rintro _ ⟨⟩
  obtain ⟨c, w', rfl, -⟩ := h.piece meets
  simp

/-- The characters are the tokens, with blanks between them. -/
inductive Lexes : List Char → List Token → Prop
  | nil : Lexes [] []
  | gap {c : Char} {cs : List Char} {ts : List Token} (hc : isGap c = true) (h : Lexes cs ts) :
      Lexes (c :: cs) ts
  | token {t : Token} {w cs : List Char} {ts : List Token} (hw : Spelling t w) (hm : t.Meets cs)
      (h : Lexes cs ts) : Lexes (w ++ cs) (t :: ts)

theorem Lexes.eq_nil {ts : List Token} (h : Lexes [] ts) : ts = [] := by
  generalize hcs : ([] : List Char) = cs at h
  cases h with
  | nil => rfl
  | gap => cases hcs
  | token hw => exact absurd (List.append_eq_nil_iff.1 hcs.symm).1 hw.ne_nil

theorem Lexes.dropWhile_isGap {cs : List Char} {ts : List Token} (h : Lexes cs ts) :
    Lexes (cs.dropWhile isGap) ts := by
  induction h with
  | nil => exact .nil
  | gap hc _ ih =>
    rw [List.dropWhile_cons_of_pos hc]
    exact ih
  | @token t w cs ts hw hm h _ =>
    obtain ⟨c, w', rfl, hp⟩ := hw.piece hm
    have hgap : isGap c = false := by
      cases hg : isGap c with
      | false => rfl
      | true =>
        rw [piece_gap hg] at hp
        cases hp
    rw [List.cons_append, List.dropWhile_cons_of_neg (by simp [hgap])]
    exact .token hw hm h

/-- A text is scanned into the tokens it consists of. -/
theorem Lexes.scanFrom : ∀ (fuel offset : Nat) {cs : List Char} {ts : List Token}, Lexes cs ts →
    cs.length ≤ fuel → ∃ ls, scanFrom fuel offset cs = .ok ls ∧ ls.map (·.token) = ts
  | 0, offset, cs, ts, h, hf => by
    obtain rfl := List.eq_nil_of_length_eq_zero (Nat.le_zero.1 hf)
    obtain rfl := h.eq_nil
    exact ⟨[], rfl, rfl⟩
  | fuel + 1, offset, cs, ts, h, hf => by
    cases h with
    | nil => exact ⟨[], rfl, rfl⟩
    | @gap c cs ts hc h =>
      have hlen := (List.dropWhile_sublist (l := cs) isGap).length_le
      rw [List.length_cons] at hf
      obtain ⟨ls, hls, hts⟩ := Lexes.scanFrom fuel
        (offset + byteLength (c :: cs.takeWhile isGap)) h.dropWhile_isGap (by omega)
      refine ⟨ls, ?_, hts⟩
      simp only [Staging.scanFrom, piece_gap hc, hls]
    | @token t w cs ts hw hm h =>
      obtain ⟨c, w', rfl, hp⟩ := hw.piece hm
      simp only [List.cons_append, List.length_cons, List.length_append] at hf
      obtain ⟨ls, hls, hts⟩ := Lexes.scanFrom fuel (offset + byteLength (c :: w')) h (by omega)
      refine ⟨⟨t, ⟨offset, offset + byteLength (c :: w')⟩⟩ :: ls, ?_, by simp [hts]⟩
      simp only [List.cons_append, Staging.scanFrom, hp, Piece.ofToken, hls, Except.map]

/-- **A text put together from tokens is scanned into them.** -/
theorem Lexes.scan {s : String} {ts : List Token} (h : Lexes s.toList ts) :
    ∃ ls, scan s = .ok ls ∧ ls.map (·.token) = ts :=
  h.scanFrom s.length 0 (Nat.le_of_eq String.length_toList)

/-- Texts may be joined where the last token of one ends before the other. -/
theorem Lexes.append {cs ds : List Char} {ts us : List Token} (h : Lexes cs ts) (h' : Lexes ds us)
    (hm : ∀ t, ts.getLast? = some t → t.Meets ds) : Lexes (cs ++ ds) (ts ++ us) := by
  induction h with
  | nil => exact h'
  | gap hc _ ih => exact .gap hc (ih hm)
  | @token t w cs ts hw hmeets h ih =>
    rw [List.append_assoc, List.cons_append]
    have hrest := ih fun t' ht' => hm t' (by rw [List.getLast?_cons, ht']; rfl)
    refine .token hw ?_ hrest
    cases cs with
    | cons c cs => exact hmeets
    | nil =>
      -- nothing but the token itself stands before the other text
      obtain rfl := h.eq_nil
      exact hm t rfl

end Staging
