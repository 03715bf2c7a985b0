import Mathlib.Data.List.Forall2
import Staging.Proofs.Grammar.Follow
import Staging.Proofs.Source.Printable
import Staging.Proofs.Source.Spelling

/-!
Texts that are trees.

`Writes G cs` says that the characters `cs` consist of tokens that satisfy `G`; with a phrase or a
sentence for `G` it says that the text is a way to write the tree. There is one lemma for each way to put
a text together. What has to be seen to in each of them is that no token runs into the next: most
characters that stand after a subtext are separators, which end every token (`isSeparator`), most marks
that stand before one are not the beginning of a longer mark (`Mark.isSolo`), and what is left are the
operators that stand right before or after their operand.
-/

namespace Staging

/-! ### Characters between tokens -/

/-- Characters that are no part of any token before them. -/
def isSeparator (c : Char) : Bool :=
  isGap c || c == '(' || c == ')' || c == '[' || c == ']' || c == '\x7b' || c == '\x7d' || c == ','
    || c == ';' || c == ':'

/-- A separator is a mark or a blank, never the inside of a longer mark. -/
theorem Mark.not_isSeparator (k : Mark) : (k.text.toList.tail.all fun c => !isSeparator c) = true := by
  cases k <;> rfl

theorem Mark.endsBefore_of_isSeparator (m : Mark) {c : Char} (hc : isSeparator c = true) :
    m.endsBefore c = true := by
  have slash : (c == '/' || c == '*') = false := by
    cases h : c == '/' || c == '*' with
    | false => rfl
    | true =>
      rw [Bool.or_eq_true, beq_iff_eq, beq_iff_eq] at h
      rcases h with rfl | rfl <;> exact absurd hc (by decide)
  simp only [Mark.endsBefore, slash, Bool.and_false, Bool.not_false, Bool.and_true, List.all_eq_true,
    Bool.not_eq_true']
  intro k _
  cases hp : (m.text.toList ++ [c]).isPrefixOf k.text.toList with
  | false => rfl
  | true =>
    obtain ⟨a, w, hm, -⟩ := Mark.text_eq_cons m
    obtain ⟨ds, hds⟩ := List.isPrefixOf_iff_prefix.1 hp
    have inside : c ∈ k.text.toList.tail := by
      rw [← hds, hm]
      simp
    have := List.all_eq_true.1 (Mark.not_isSeparator k) c inside
    simp [hc] at this

theorem Token.endsBefore_of_isSeparator (t : Token) {c : Char} (hc : isSeparator c = true) :
    t.endsBefore c = true := by
  have other : isNamePart c = false ∧ c ≠ '.' := by
    simp only [isSeparator, isGap, Bool.or_eq_true, beq_iff_eq, or_assoc] at hc
    rcases hc with rfl | rfl | rfl | rfl | rfl | rfl | rfl | rfl | rfl | rfl | rfl | rfl | rfl | rfl <;>
      decide
  cases t with
  | keyword k => simp [Token.endsBefore, other.1]
  | ident n => simp [Token.endsBefore, other.1]
  | number n => simp [Token.endsBefore, other.1, other.2]
  | str s => rfl
  | mark m => exact m.endsBefore_of_isSeparator hc

/-- Marks that are complete whatever follows them. -/
def Mark.isSolo : Mark → Bool
  | leftParen | rightParen | leftBrace | rightBrace | leftBracket | rightBracket | comma | colon
  | semicolon | ellipsis | plusPlus | minusMinus | questionDot => true
  | _ => false

theorem Mark.isSolo_spec : ∀ m ∈ Mark.all, m.isSolo = true →
    (∀ k ∈ Mark.all, k = m ∨ m.text.toList.isPrefixOf k.text.toList = false) ∧ m ≠ .slash := by
  decide

theorem Mark.isSolo.meets {m : Mark} (hm : m.isSolo = true) (cs : List Char) :
    (Token.mark m).Meets cs := by
  intro c _
  have h := Mark.isSolo_spec m (Mark.mem_all m) hm
  have slash : (m == .slash) = false := by simp [h.2]
  simp only [Token.endsBefore, Mark.endsBefore, slash, Bool.false_and, Bool.not_false, Bool.and_true,
    List.all_eq_true, Bool.not_eq_true']
  intro k hk
  -- a mark that begins with `m` and one more character would begin with `m`
  cases hp : (m.text.toList ++ [c]).isPrefixOf k.text.toList with
  | false => rfl
  | true =>
    rw [List.isPrefixOf_iff_prefix] at hp
    rcases h.1 k hk with rfl | hnot
    · have := hp.length_le
      rw [List.length_append, List.length_singleton] at this
      omega
    · have := (List.prefix_append m.text.toList [c]).trans hp
      rw [← List.isPrefixOf_iff_prefix, hnot] at this
      cases this

/-! ### Texts put together -/

section

variable {cs ds : List Char} {ts us : List Token}

/-- A separator may come after any text. -/
theorem Lexes.join {c : Char} (h : Lexes cs ts) (h' : Lexes (c :: ds) us)
    (hc : isSeparator c = true) : Lexes (cs ++ c :: ds) (ts ++ us) :=
  h.append h' fun t _ => Token.Meets.cons (t.endsBefore_of_isSeparator hc)

/-- A text that begins with a separator, if with anything, may come after any text. -/
theorem Lexes.follow (h : Lexes cs ts) (h' : Lexes ds us)
    (hd : ∀ c, ds.head? = some c → isSeparator c = true) : Lexes (cs ++ ds) (ts ++ us) :=
  h.append h' fun t _ c hc => t.endsBefore_of_isSeparator (hd c hc)

theorem Lexes.space (h : Lexes cs ts) : Lexes (' ' :: cs) ts := .gap rfl h

/-- A mark that is complete whatever follows it. -/
theorem Lexes.solo (m : Mark) (hm : m.isSolo = true) (h : Lexes cs ts) :
    Lexes (m.text.toList ++ cs) (.mark m :: ts) :=
  .token .mark (Mark.isSolo.meets hm cs) h

/-- A mark with a space after it. -/
theorem Lexes.spaced (m : Mark) (h : Lexes cs ts) :
    Lexes (m.text.toList ++ ' ' :: cs) (.mark m :: ts) :=
  .token .mark (Token.Meets.cons (Token.endsBefore_of_isSeparator _ rfl)) h.space

theorem Keyword.wordToken_text (k : Keyword) : wordToken k.text.toList = .keyword k := by
  cases k <;> rfl

theorem Keyword.isNameShaped_text (k : Keyword) : isNameShaped k.text = true := by
  cases k <;> rfl

/-- A keyword with a separator after it. -/
theorem Lexes.keyword {c : Char} (k : Keyword) (hc : isSeparator c = true) (h : Lexes (c :: cs) ts) :
    Lexes (k.text.toList ++ c :: cs) (.keyword k :: ts) := by
  have hw := Spelling.word (Keyword.isNameShaped_text k)
  rw [Keyword.wordToken_text] at hw
  exact .token hw (Token.Meets.cons (Token.endsBefore_of_isSeparator _ hc)) h

theorem Lexes.alone {t : Token} {w : List Char} (hw : Spelling t w) : Lexes w [t] := by
  have := Lexes.token hw (by rintro _ ⟨⟩) .nil
  rwa [List.append_nil] at this

/-- What a text begins with is a blank or the beginning of its first token. -/
theorem Lexes.head {t : Token} (h : Lexes cs (t :: ts)) :
    ∃ c cs', cs = c :: cs' ∧ (isGap c = true ∨ ∃ w, Spelling t (c :: w)) := by
  cases h with
  | gap hc h => exact ⟨_, _, rfl, .inl hc⟩
  | @token _ w cs _ hw hm h =>
    obtain ⟨c, w, rfl⟩ := List.exists_cons_of_ne_nil hw.ne_nil
    exact ⟨c, w ++ cs, rfl, .inr ⟨w, hw⟩⟩

theorem Lexes.comma (h : Lexes cs ts) : Lexes (',' :: cs) (.mark .comma :: ts) := h.solo .comma rfl

theorem Lexes.colon (h : Lexes cs ts) : Lexes (':' :: cs) (.mark .colon :: ts) := h.solo .colon rfl

theorem Lexes.semicolon (h : Lexes cs ts) : Lexes (';' :: cs) (.mark .semicolon :: ts) :=
  h.solo .semicolon rfl

/-- Tokens between parentheses, and what comes after. -/
theorem Lexes.parens (h : Lexes cs ts) (h' : Lexes ds us) :
    Lexes ('(' :: (cs ++ ')' :: ds)) (inParens ts ++ us) := by
  have close : Lexes (')' :: ds) (.mark .rightParen :: us) := h'.solo .rightParen rfl
  have whole : Lexes ('(' :: (cs ++ ')' :: ds)) (.mark .leftParen :: (ts ++ .mark .rightParen :: us)) :=
    (h.join close rfl).solo .leftParen rfl
  simpa only [enclosed, List.cons_append, List.append_assoc, List.nil_append] using whole

theorem Lexes.brackets (h : Lexes cs ts) : Lexes ('[' :: (cs ++ [']'])) (inBrackets ts) :=
  (h.join (Lexes.nil.solo .rightBracket rfl) rfl).solo .leftBracket rfl

/-- Tokens between braces, and what comes after. -/
theorem Lexes.braces (h : Lexes cs ts) (h' : Lexes ds us) :
    Lexes ('\x7b' :: (cs ++ '\x7d' :: ds)) (inBraces ts ++ us) := by
  have close : Lexes ('\x7d' :: ds) (.mark .rightBrace :: us) := h'.solo .rightBrace rfl
  have whole : Lexes ('\x7b' :: (cs ++ '\x7d' :: ds))
      (.mark .leftBrace :: (ts ++ .mark .rightBrace :: us)) := (h.join close rfl).solo .leftBrace rfl
  simpa only [enclosed, List.cons_append, List.append_assoc, List.nil_append] using whole

theorem Lexes.inParens (h : Lexes cs ts) : Lexes ('(' :: (cs ++ [')'])) (inParens ts) := by
  simpa only [List.append_nil] using h.parens .nil

theorem Lexes.inBraces (h : Lexes cs ts) : Lexes ('\x7b' :: (cs ++ ['\x7d'])) (inBraces ts) := by
  simpa only [List.append_nil] using h.braces .nil

end

/-- The characters are tokens of the kind described. -/
def Writes (G : List Token → Prop) (cs : List Char) : Prop := ∃ ts, Lexes cs ts ∧ G ts

section

variable {G : List Token → Prop} {cs : List Char}

theorem Writes.mono {G' : List Token → Prop} (h : Writes G cs) (hG : ∀ ts, G ts → G' ts) :
    Writes G' cs := by
  obtain ⟨ts, hl, hg⟩ := h
  exact ⟨ts, hl, hG ts hg⟩

theorem Writes.space (h : Writes G cs) : Writes G (' ' :: cs) := by
  obtain ⟨ts, hl, hg⟩ := h
  exact ⟨ts, hl.space, hg⟩

/-- A text after which every other text may come, because the last token is complete. -/
theorem Writes.alone {t : Token} (hw : Spelling t cs) (hg : G [t]) : Writes G cs :=
  ⟨[t], .alone hw, hg⟩

end

/-! ### Lists -/

section

variable {α : Type} {G : α → List Token → Prop}

theorem Writes.moreItems {sep : List Char} (hsep : sep = [','] ∨ sep = [',', ' ']) {as : List α}
    {css : List (List Char)} (h : List.Forall₂ (fun a cs => Writes (G a) cs) as css) :
    Writes (MoreItems G as) (css.flatMap (sep ++ ·)) := by
  induction h with
  | nil => exact ⟨[], .nil, .nil⟩
  | @cons a cs as css ha _ ih =>
    obtain ⟨ts, hl, hg⟩ := ha
    obtain ⟨us, hl', hgs⟩ := ih
    refine ⟨_, ?_, .cons hg hgs⟩
    -- the next item begins with a comma, if there is one
    have rest : Lexes (cs ++ css.flatMap (sep ++ ·)) (ts ++ us) := by
      refine hl.append hl' fun t _ c hc => ?_
      cases css with
      | nil => cases hc
      | cons ds css =>
        rcases hsep with rfl | rfl <;> cases hc <;> exact t.endsBefore_of_isSeparator rfl
    rw [List.flatMap_cons, List.append_assoc, List.cons_append]
    rcases hsep with rfl | rfl
    · exact rest.comma
    · exact rest.space.comma

theorem intercalate_cons {sep cs : List Char} {css : List (List Char)} :
    sep.intercalate (cs :: css) = cs ++ css.flatMap (sep ++ ·) := by
  induction css generalizing cs with
  | nil => simp [List.intercalate]
  | cons ds css ih => simp only [List.intercalate_cons_cons, ih, List.flatMap_cons, List.append_assoc]

/-- Items with commas between them. -/
theorem Writes.items {sep : List Char} (hsep : sep = [','] ∨ sep = [',', ' ']) {as : List α}
    {css : List (List Char)} (h : List.Forall₂ (fun a cs => Writes (G a) cs) as css) :
    Writes (Items G as) (sep.intercalate css) := by
  cases h with
  | nil => exact ⟨[], .nil, .nil⟩
  | @cons a cs as css ha hs =>
    obtain ⟨ts, hl, hg⟩ := ha
    obtain ⟨us, hl', hgs⟩ := Writes.moreItems hsep hs
    refine ⟨ts ++ us, ?_, .cons hg hgs⟩
    rw [intercalate_cons]
    refine hl.append hl' fun t _ c hc => ?_
    cases css with
    | nil => cases hc
    | cons ds css => rcases hsep with rfl | rfl <;> cases hc <;> exact t.endsBefore_of_isSeparator rfl

end

end Staging
