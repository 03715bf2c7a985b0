import Staging.Proofs.Source.Writes

/-!
What is taken off the front of a text.

A piece and what follows it are the text (`piece_append`). A piece that leaves no token is a run of blanks or a complete
comment (`stretch_of_piece`). A piece that is a token is a word for it: it is read as that token again wherever a blank or
the end of the text comes after it (`word_of_piece`).
-/

namespace Staging

/-! ### Numerals -/

theorem isDigit_of_not_isNamePart {c : Char} (h : isNamePart c = false) : c.isDigit = false := by
  cases digit : c.isDigit with
  | false => rfl
  | true => exact absurd (h.symm.trans (isNamePart_of_isDigit digit)) (by decide)

/-- Whether a part of a numeral, which may be missing, begins with a character. -/
theorem head?_append_cases {as bs : List Char} {c : Char} (h : (as ++ bs).head? = some c) :
    as.head? = some c ∨ as = [] ∧ bs.head? = some c := by
  cases as with
  | nil => exact .inr ⟨rfl, h⟩
  | cons a as => exact .inl h

/-- The fraction of a numeral, if it has one. -/
inductive Fraction : List Char → Prop
  | none : Fraction []
  | digits {ds : List Char} (nonempty : ds ≠ []) (digits : ds.all Char.isDigit = true) : Fraction ('.' :: ds)

/-- The exponent of a numeral, if it has one. -/
inductive Exponent : List Char → Prop
  | none : Exponent []
  | digits {c : Char} {sign ds : List Char} (letter : c = 'e' ∨ c = 'E') (signed : sign ∈ [[], ['+'], ['-']])
      (nonempty : ds ≠ []) (digits : ds.all Char.isDigit = true) : Exponent (c :: (sign ++ ds))

theorem Fraction.head {fraction : List Char} (h : Fraction fraction) {c : Char} (hc : fraction.head? = some c) :
    c.isDigit = false := by
  cases h <;> cases hc
  decide

theorem Exponent.head {exponent : List Char} (h : Exponent exponent) {c : Char} (hc : exponent.head? = some c) :
    c.isDigit = false ∧ c ≠ '.' := by
  cases h with
  | none => cases hc
  | digits letter =>
    cases hc
    rcases letter with rfl | rfl <;> decide

theorem digitsAfter_cases (lead cs : List Char) : digitsAfter lead cs = ([], lead ++ cs) ∨
    ∃ ds, ds ≠ [] ∧ ds.all Char.isDigit = true ∧ digitsAfter lead cs = (lead ++ ds, cs.dropWhile Char.isDigit) := by
  have all := List.all_takeWhile (p := Char.isDigit) (l := cs)
  unfold digitsAfter
  cases seen : cs.takeWhile Char.isDigit with
  | nil => exact .inl rfl
  | cons d ds =>
    rw [seen] at all
    exact .inr ⟨d :: ds, List.cons_ne_nil d ds, all, rfl⟩

theorem digitsAfter_append (lead cs : List Char) : (digitsAfter lead cs).1 ++ (digitsAfter lead cs).2 = lead ++ cs := by
  unfold digitsAfter
  split
  · rfl
  · rw [List.append_assoc, List.takeWhile_append_dropWhile]

theorem digitsAfter_eq {ds rest : List Char} (lead : List Char) (nonempty : ds ≠ []) (digits : ds.all Char.isDigit = true)
    (ends : ∀ c, rest.head? = some c → c.isDigit = false) : digitsAfter lead (ds ++ rest) = (lead ++ ds, rest) := by
  have split := takeWhile_append_of_all rest digits ends
  obtain ⟨d, ds, rfl⟩ := List.exists_cons_of_ne_nil nonempty
  unfold digitsAfter
  rw [split.1, split.2]

theorem fraction_splitFraction (cs : List Char) : Fraction (splitFraction cs).1 := by
  unfold splitFraction
  split
  · rename_i rest
    rcases digitsAfter_cases ['.'] rest with none | ⟨ds, nonempty, digits, eq⟩
    · rw [none]
      exact .none
    · rw [eq]
      exact .digits nonempty digits
  · exact .none

theorem splitFraction_append (cs : List Char) : (splitFraction cs).1 ++ (splitFraction cs).2 = cs := by
  unfold splitFraction
  split
  · exact digitsAfter_append ['.'] _
  · rfl

theorem splitFraction_eq {fraction rest : List Char} (h : Fraction fraction)
    (ends : ∀ c, rest.head? = some c → c.isDigit = false ∧ c ≠ '.') :
    splitFraction (fraction ++ rest) = (fraction, rest) := by
  cases h with
  | none =>
    rw [List.nil_append]
    unfold splitFraction
    split
    · exact absurd rfl (ends '.' rfl).2
    · rfl
  | digits nonempty digits => exact digitsAfter_eq ['.'] nonempty digits fun c hc => (ends c hc).1

theorem exponent_splitExponent (cs : List Char) : Exponent (splitExponent cs).1 := by
  unfold splitExponent
  split
  · exact .none
  · rename_i c rest
    split
    · rename_i letter
      have signed : ∀ sign ∈ [[], ['+'], ['-']], ∀ digits, Exponent (digitsAfter (c :: sign) digits).1 := by
        intro sign hsign digits
        rcases digitsAfter_cases (c :: sign) digits with none | ⟨ds, nonempty, all, eq⟩
        · rw [none]
          exact .none
        · rw [eq]
          exact .digits letter hsign nonempty all
      split
      · exact signed ['+'] (by simp) _
      · exact signed ['-'] (by simp) _
      · exact signed [] (by simp) _
    · exact .none

theorem splitExponent_append (cs : List Char) : (splitExponent cs).1 ++ (splitExponent cs).2 = cs := by
  unfold splitExponent
  split
  · rfl
  · split
    · split <;> exact digitsAfter_append _ _
    · rfl

theorem splitExponent_of_exponent {exponent rest : List Char} (h : Exponent exponent)
    (ends : ∀ c, rest.head? = some c → isNamePart c = false) : splitExponent (exponent ++ rest) = (exponent, rest) := by
  have notDigit : ∀ c, rest.head? = some c → c.isDigit = false := fun c hc => isDigit_of_not_isNamePart (ends c hc)
  cases h with
  | none => exact splitExponent_eq ends
  | @digits c sign ds letter signed nonempty digits =>
    have read := fun lead => digitsAfter_eq lead nonempty digits notDigit
    simp only [List.mem_cons, List.not_mem_nil, or_false] at signed
    rcases signed with rfl | rfl | rfl
    · obtain ⟨d, ds, rfl⟩ := List.exists_cons_of_ne_nil nonempty
      rw [List.all_cons, Bool.and_eq_true] at digits
      simp only [List.nil_append, List.cons_append, splitExponent, if_pos letter]
      -- a digit is no sign
      split
      · rename_i plus
        cases plus
        exact absurd digits.1 (by decide)
      · rename_i minus
        cases minus
        exact absurd digits.1 (by decide)
      · exact read [c]
    · simp only [List.nil_append, List.cons_append, splitExponent, if_pos letter]
      exact read [c, '+']
    · simp only [List.nil_append, List.cons_append, splitExponent, if_pos letter]
      exact read [c, '-']

theorem splitNumeral_append (cs : List Char) : (splitNumeral cs).1 ++ (splitNumeral cs).2 = cs := by
  simp only [splitNumeral, List.append_assoc]
  rw [splitExponent_append, splitFraction_append, List.takeWhile_append_dropWhile]

/-- **The numeral that a text begins with is read again** in front of what continues no name and is no point. -/
theorem splitNumeral_again (cs : List Char) {rest : List Char}
    (ends : ∀ c, rest.head? = some c → isNamePart c = false ∧ c ≠ '.') :
    splitNumeral ((splitNumeral cs).1 ++ rest) = ((splitNumeral cs).1, rest) := by
  have fraction := fraction_splitFraction (cs.dropWhile Char.isDigit)
  have exponent := exponent_splitExponent (splitFraction (cs.dropWhile Char.isDigit)).2
  have whole : (splitNumeral cs).1 = cs.takeWhile Char.isDigit ++ (splitFraction (cs.dropWhile Char.isDigit)).1 ++
    (splitExponent (splitFraction (cs.dropWhile Char.isDigit)).2).1 := rfl
  rw [whole]
  generalize (splitFraction (cs.dropWhile Char.isDigit)).1 = f at fraction
  generalize (splitExponent (splitFraction (cs.dropWhile Char.isDigit)).2).1 = e at exponent
  -- what follows the digits, the fraction and the exponent continues none of them
  have behind : ∀ c, (e ++ rest).head? = some c → c.isDigit = false ∧ c ≠ '.' := fun c hc => by
    rcases head?_append_cases hc with inside | ⟨-, after⟩
    · exact exponent.head inside
    · exact ⟨isDigit_of_not_isNamePart (ends c after).1, (ends c after).2⟩
  have digits : ∀ c, (f ++ (e ++ rest)).head? = some c → c.isDigit = false := fun c hc => by
    rcases head?_append_cases hc with inside | ⟨-, after⟩
    · exact fraction.head inside
    · exact (behind c after).1
  have split := takeWhile_append_of_all (f ++ (e ++ rest)) (List.all_takeWhile (p := Char.isDigit) (l := cs)) digits
  rw [List.append_assoc, List.append_assoc, List.append_assoc]
  simp only [splitNumeral, split.1, split.2, splitFraction_eq fraction behind,
    splitExponent_of_exponent exponent fun c hc => (ends c hc).1, List.append_assoc]

/-! ### Strings and comments -/

/-- What stands between the quotes of a string. -/
inductive Inside (quote : Char) : List Char → Prop
  | nil : Inside quote []
  | escape {c : Char} {body : List Char} (line : c ≠ '\n') (h : Inside quote body) : Inside quote ('\\' :: c :: body)
  | plain {c : Char} {body : List Char} (line : c ≠ '\n') (slash : c ≠ '\\') (open_ : c ≠ quote) (h : Inside quote body) :
      Inside quote (c :: body)

theorem inside_of_closeString? {quote : Char} {cs body after : List Char}
    (h : closeString? quote cs = some (body, after)) : Inside quote body ∧ cs = body ++ quote :: after := by
  induction cs using closeString?.induct quote generalizing body with
  | case1 => simp [closeString?] at h
  | case2 rest => simp [closeString?] at h
  | case3 => simp [closeString?] at h
  | case4 rest => simp [closeString?] at h
  | case5 c rest line ih =>
    rw [closeString?_escape line, Option.map_eq_some_iff] at h
    obtain ⟨⟨body, after⟩, read, ⟨⟩⟩ := h
    obtain ⟨inside, rfl⟩ := ih read
    exact ⟨.escape line inside, rfl⟩
  | case6 rest line none newline escape =>
    rw [closeString?.eq_6 _ _ _ line none newline escape, if_pos rfl] at h
    cases h
    exact ⟨.nil, rfl⟩
  | case7 c rest line none newline escape different ih =>
    have slash : c ≠ '\\' := by
      rintro rfl
      cases rest with
      | nil => exact none rfl rfl
      | cons d rest => exact escape d rest rfl rfl
    rw [closeString?_plain line slash different, Option.map_eq_some_iff] at h
    obtain ⟨⟨body, after⟩, read, ⟨⟩⟩ := h
    obtain ⟨inside, rfl⟩ := ih read
    exact ⟨.plain line slash different inside, rfl⟩

theorem Inside.closeString? {quote : Char} {body : List Char} (h : Inside quote body) (line : quote ≠ '\n')
    (slash : quote ≠ '\\') (after : List Char) : closeString? quote (body ++ quote :: after) = some (body, after) := by
  induction h with
  | nil =>
    rw [List.nil_append, closeString?.eq_6 _ _ _ line (fun h => absurd h slash) (fun _ h => absurd h slash)
      fun _ _ h => absurd h slash, if_pos rfl]
  | escape line h ih =>
    rw [List.cons_append, List.cons_append, closeString?_escape line, ih]
    rfl
  | plain line slash open_ h ih =>
    rw [List.cons_append, closeString?_plain line slash open_, ih]
    rfl

/-- A block comment ends at the first place that it can. -/
theorem closeComment?_eq_some {cs inside after : List Char} (h : closeComment? cs = some (inside, after)) :
    ∃ body, inside = body ++ ['*', '/'] ∧ cs = inside ++ after ∧ ¬ ['*', '/'] <:+: body := by
  induction cs using closeComment?.induct generalizing inside with
  | case1 => simp [closeComment?] at h
  | case2 rest =>
    cases h
    exact ⟨[], rfl, rfl, by simp⟩
  | case3 c rest open_ ih =>
    rw [closeComment?.eq_3 _ _ open_, Option.map_eq_some_iff] at h
    obtain ⟨⟨inside, after⟩, read, ⟨⟩⟩ := h
    obtain ⟨body, rfl, rfl, free⟩ := ih read
    refine ⟨c :: body, rfl, rfl, ?_⟩
    rw [List.infix_cons_iff, not_or]
    refine ⟨fun here => ?_, free⟩
    obtain ⟨more, same⟩ := here
    obtain ⟨rfl, rfl⟩ := List.cons.inj same
    exact open_ (more ++ ['*', '/'] ++ after) rfl (by simp)

/-! ### Pieces -/

/-- Nothing follows, or a blank. -/
def Apart (rest : List Char) : Prop := ∀ c, rest.head? = some c → isGap c = true

/-- The characters are a token by themselves. -/
def Word (t : Token) (w : List Char) : Prop :=
  ∃ c w', w = c :: w' ∧ ∀ rest, Apart rest → piece c (w' ++ rest) = Piece.ofToken t w rest

/-- Characters that leave no token, in front of others: blanks, or a complete comment. -/
inductive Stretch : List Char → List Char → Prop
  | blanks {run rest : List Char} (h : ∀ c ∈ run, isGap c = true) : Stretch run rest
  /-- A line comment goes on to the end of the line. -/
  | line {body rest : List Char} (h : '\n' ∉ body) (ends : ∀ c, rest.head? = some c → c = '\n') :
      Stretch ('/' :: '/' :: body) rest
  /-- A block comment ends at the first mark that closes it. -/
  | block {body rest : List Char} (h : ¬ ['*', '/'] <:+: body) : Stretch ('/' :: '*' :: (body ++ ['*', '/'])) rest

/-- A piece of a text is what it says it is. -/
structure Piece.Sound (p : Piece) (cs : List Char) : Prop where
  whole : p.taken ++ p.rest = cs
  progress : p.taken ≠ []
  stretch : p.found = .ok none → Stretch p.taken p.rest
  word : ∀ t, p.found = .ok (some t) → Word t p.taken

theorem Apart.meets {rest : List Char} (h : Apart rest) (t : Token) : t.Meets rest := fun c hc =>
  t.endsBefore_of_isSeparator (by simp [isSeparator, h c hc])

theorem sound_blanks {c : Char} {rest : List Char} (h : isGap c = true) :
    Piece.Sound ⟨.ok none, c :: rest.takeWhile isGap, rest.dropWhile isGap⟩ (c :: rest) where
  whole := by rw [List.cons_append, List.takeWhile_append_dropWhile]
  progress := List.cons_ne_nil _ _
  stretch _ := .blanks <| by
    rw [List.forall_mem_cons]
    exact ⟨h, fun d hd => List.all_eq_true.1 List.all_takeWhile d hd⟩
  word := nofun

theorem sound_word {c : Char} {rest : List Char} (h : isNameStart c = true) :
    Piece.Sound (.ofToken (wordToken (c :: rest.takeWhile isNamePart)) (c :: rest.takeWhile isNamePart)
      (rest.dropWhile isNamePart)) (c :: rest) where
  whole := by rw [Piece.ofToken, List.cons_append, List.takeWhile_append_dropWhile]
  progress := List.cons_ne_nil _ _
  stretch := nofun
  word := by
    rintro _ ⟨⟩
    refine ⟨c, _, rfl, fun after apart => ?_⟩
    have shaped : isNameShaped (String.ofList (c :: rest.takeWhile isNamePart)) = true := by
      simp [isNameShaped, h, List.all_takeWhile]
    have read := piece_word shaped String.toList_ofList (apart.meets _)
    rwa [String.toList_ofList] at read

/-- What begins with a digit is a numeral. -/
theorem piece_digit {c : Char} (h : c.isDigit = true) (rest : List Char) :
    piece c rest = .ofToken (.number (String.ofList (splitNumeral (c :: rest)).1)) (splitNumeral (c :: rest)).1
      (splitNumeral (c :: rest)).2 := by
  obtain ⟨gap, name⟩ := not_isGap_of_isDigit h
  unfold piece
  rw [if_neg (by simp [gap]), if_neg (by simp [name]), if_pos h]
  rfl

theorem sound_numeral {c : Char} {rest : List Char} (h : c.isDigit = true) :
    Piece.Sound (piece c rest) (c :: rest) := by
  obtain ⟨w, begins⟩ : ∃ w, (splitNumeral (c :: rest)).1 = c :: w := by
    simp only [splitNumeral, List.takeWhile_cons_of_pos h, List.cons_append]
    exact ⟨_, rfl⟩
  rw [piece_digit h]
  refine ⟨splitNumeral_append (c :: rest), by simp [Piece.ofToken, begins], by simp [Piece.ofToken], ?_⟩
  rintro _ ⟨⟩
  refine ⟨c, w, begins, fun after apart => ?_⟩
  have again := splitNumeral_again (c :: rest) fun d hd => by
    simpa [Token.endsBefore] using apart.meets (.number "") d hd
  rw [piece_digit h, ← List.cons_append, ← begins, again]
  rfl

/-- What begins with a quote and has the closing one is a string. -/
theorem piece_string {quote : Char} (h : quote = '"' ∨ quote = '\'') {rest body after : List Char}
    (closed : closeString? quote rest = some (body, after)) :
    piece quote rest = .ofToken (.str (String.ofList (unescape body))) (quote :: body ++ [quote]) after := by
  unfold piece
  rw [if_neg (by rcases h with rfl | rfl <;> decide), if_neg (by rcases h with rfl | rfl <;> decide),
    if_neg (by rcases h with rfl | rfl <;> decide), if_pos h, closed]
  rfl

theorem sound_string {quote : Char} (h : quote = '"' ∨ quote = '\'') {rest body after : List Char}
    (closed : closeString? quote rest = some (body, after)) : Piece.Sound (piece quote rest) (quote :: rest) := by
  obtain ⟨inside, rfl⟩ := inside_of_closeString? closed
  rw [piece_string h closed]
  refine ⟨by simp [Piece.ofToken], by simp [Piece.ofToken], nofun, ?_⟩
  rintro _ ⟨⟩
  refine ⟨quote, body ++ [quote], rfl, fun tail _ => ?_⟩
  rw [List.append_assoc, List.singleton_append]
  exact piece_string h (inside.closeString? (by rcases h with rfl | rfl <;> decide)
    (by rcases h with rfl | rfl <;> decide) tail)

theorem sound_lineComment (body : List Char) :
    Piece.Sound ⟨.ok none, '/' :: '/' :: body.takeWhile (· != '\n'), body.dropWhile (· != '\n')⟩
      ('/' :: '/' :: body) where
  whole := by simp only [List.cons_append, List.takeWhile_append_dropWhile]
  progress := List.cons_ne_nil _ _
  stretch _ := by
    refine .line (fun inside => ?_) fun c hc => ?_
    · simpa using List.all_eq_true.1 List.all_takeWhile _ inside
    · have stops := List.head?_dropWhile_not (· != '\n') body
      rw [hc] at stops
      simpa using stops
  word := nofun

theorem sound_blockComment {body inside after : List Char} (h : closeComment? body = some (inside, after)) :
    Piece.Sound ⟨.ok none, '/' :: '*' :: inside, after⟩ ('/' :: '*' :: body) := by
  obtain ⟨text, rfl, rfl, first⟩ := closeComment?_eq_some h
  exact ⟨rfl, List.cons_ne_nil _ _, fun _ => .block first, nofun⟩

/-- A mark is the longest that a text begins with, and no comment begins where it was found. -/
theorem sound_mark {c : Char} {rest : List Char} : Piece.Sound (markPiece c rest) (c :: rest) := by
  cases found : Mark.longest? (c :: rest) with
  | none =>
    simp only [markPiece, found]
    exact ⟨rfl, List.cons_ne_nil _ _, by simp, by simp⟩
  | some m =>
    have front : m.text.toList <+: c :: rest := List.isPrefixOf_iff_prefix.1 <|
      List.find?_some (p := fun m : Mark => m.text.toList.isPrefixOf (c :: rest)) found
    obtain ⟨after, same⟩ := front
    obtain ⟨d, w, spelled, -⟩ := Mark.text_eq_cons m
    simp only [markPiece, found]
    refine ⟨?_, by simp [spelled], by simp, ?_⟩
    · rw [← same, ← String.length_toList, List.drop_left]
    · rintro _ ⟨⟩
      exact ⟨d, w, spelled, fun tail apart => spelled ▸ piece_mark spelled (apart.meets _)⟩

theorem sound_unclosed (c : Char) (rest : List Char) :
    Piece.Sound ⟨.error (), c :: rest.takeWhile (· != '\n'), rest.dropWhile (· != '\n')⟩ (c :: rest) where
  whole := by rw [List.cons_append, List.takeWhile_append_dropWhile]
  progress := List.cons_ne_nil _ _
  stretch := nofun
  word := nofun

/-- **What is taken off the front of a text is what it says it is.** -/
theorem piece_sound (c : Char) (rest : List Char) : (piece c rest).Sound (c :: rest) := by
  by_cases digit : c.isDigit = true
  · exact sound_numeral digit
  unfold piece
  split
  · exact sound_blanks ‹_›
  split
  · exact sound_word ‹_›
  split
  · rename_i quote
    cases closed : closeString? c rest with
    | none => exact sound_unclosed c rest
    | some inside =>
      have sound := sound_string quote closed
      rwa [piece_string quote closed] at sound
  split
  · rename_i slash
    obtain rfl := slash
    split
    · exact sound_lineComment _
    · rename_i body
      cases closed : closeComment? body with
      | none => exact sound_mark
      | some inside => exact sound_blockComment closed
    · exact sound_mark
  · exact sound_mark

end Staging
