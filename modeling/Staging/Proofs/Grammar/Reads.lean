import Staging.Source.Grammar.Parser

/-!
What parsers read, told by tokens alone.

`Reads p ts rest Q` says that `p` takes exactly the tokens `ts` where `rest` follows them, and that what
it gives satisfies `Q`; `Refuses p ts` says that it fails on `ts`. Positions, spans and the failures a
parser remembers do not show in either. There is one law per combinator:

* `Reads.bind`, `Reads.orElse_left`, `Reads.orElse_right`, `Reads.maybe_some`, `Reads.maybe_none`,
  `Reads.spanned`, `Reads.check`, `Reads.between` for the plain ones, with `Refuses.*` beside them;
* `Strides` for repetition that may still go on, `Reads.many` and `Reads.separatedTrailing` for
  repetition that has come to its end.
-/

namespace Staging

namespace Input

/-- The tokens from a position on. -/
def ahead (input : Input) (pos : Nat) : List Token :=
  (input.lexemes.toList.drop pos).map (·.token)

theorem tokenAt?_eq_head? (input : Input) (pos : Nat) :
    input.tokenAt? pos = (input.ahead pos).head? := by
  simp [tokenAt?, ahead, List.head?_drop]

theorem ahead_add (input : Input) (pos n : Nat) :
    input.ahead (pos + n) = (input.ahead pos).drop n := by
  simp [ahead, List.map_drop, List.drop_drop]

/-- Past what was read stands what follows it. -/
theorem ahead_append {input : Input} {pos : Nat} {ts rest : List Token}
    (h : input.ahead pos = ts ++ rest) : input.ahead (pos + ts.length) = rest := by
  rw [ahead_add, h, List.drop_left]

theorem length_ahead (input : Input) (pos : Nat) :
    (input.ahead pos).length = input.lexemes.size - pos := by
  simp [ahead]

theorem tokenAt?_of_ahead {input : Input} {pos : Nat} {t : Token} {rest : List Token}
    (h : input.ahead pos = t :: rest) : input.tokenAt? pos = some t := by
  rw [tokenAt?_eq_head?, h, List.head?_cons]

end Input

/-- `p` reads exactly `ts` where `rest` follows, and gives something with the property `Q`. -/
def Reads {α : Type} (p : Parser α) (ts rest : List Token) (Q : α → Prop) : Prop :=
  ∀ input pos, input.ahead pos = ts ++ rest →
    ∃ a alt, p input pos = .ok a (pos + ts.length) alt ∧ Q a

/-- `p` fails on the tokens `ts`. -/
def Refuses {α : Type} (p : Parser α) (ts : List Token) : Prop :=
  ∀ input pos, input.ahead pos = ts → ∃ e, p input pos = .fail e

variable {α β : Type} {p q : Parser α} {ts us rest : List Token} {Q : α → Prop}

/-! ### Plain combinators -/

theorem Reads.mono {Q' : α → Prop} (h : Reads p ts rest Q) (hQ : ∀ a, Q a → Q' a) :
    Reads p ts rest Q' := by
  intro input pos hin
  obtain ⟨a, alt, hp, ha⟩ := h input pos hin
  exact ⟨a, alt, hp, hQ a ha⟩

theorem Reads.pure {a : α} (h : Q a) : Reads (Pure.pure a : Parser α) [] rest Q :=
  fun _ _ _ => ⟨a, none, rfl, h⟩

theorem Reads.bind {f : α → Parser β} {R : β → Prop} (hp : Reads p ts (us ++ rest) Q)
    (hf : ∀ a, Q a → Reads (f a) us rest R) : Reads (p >>= f) (ts ++ us) rest R := by
  intro input pos hin
  rw [List.append_assoc] at hin
  obtain ⟨a, alt, hpa, ha⟩ := hp input pos hin
  obtain ⟨b, alt', hfb, hb⟩ := hf a ha input _ (Input.ahead_append hin)
  refine ⟨b, Failure.merge alt alt', ?_, hb⟩
  show Parser.andThen p f input pos = _
  simp only [Parser.andThen, hpa, hfb, List.length_append, Nat.add_assoc]

/-- `Reads.bind` for a first parser that reads one token. -/
theorem Reads.bind_cons {f : α → Parser β} {R : β → Prop} {t : Token}
    (hp : Reads p [t] (us ++ rest) Q) (hf : ∀ a, Q a → Reads (f a) us rest R) :
    Reads (p >>= f) (t :: us) rest R :=
  (Reads.bind hp hf :)

/-- `Reads.bind` for a first parser that reads nothing. -/
theorem Reads.bind_nil {f : α → Parser β} {R : β → Prop} (hp : Reads p [] (us ++ rest) Q)
    (hf : ∀ a, Q a → Reads (f a) us rest R) : Reads (p >>= f) us rest R :=
  (Reads.bind hp hf :)

/-- `Reads.bind` for a continuation that reads nothing. -/
theorem Reads.bind_last {f : α → Parser β} {R : β → Prop} (hp : Reads p ts rest Q)
    (hf : ∀ a, Q a → Reads (f a) [] rest R) : Reads (p >>= f) ts rest R := by
  have h := Reads.bind (R := R) (hp : Reads p ts ([] ++ rest) Q) hf
  rwa [List.append_nil] at h

theorem Reads.map {f : α → β} {R : β → Prop} (hp : Reads p ts rest Q) (hf : ∀ a, Q a → R (f a)) :
    Reads (f <$> p) ts rest R := by
  show Reads (p >>= fun a => Pure.pure (f a)) ts rest R
  exact hp.bind_last fun a ha => Reads.pure (hf a ha)

theorem Refuses.bind {f : α → Parser β} (h : Refuses p ts) : Refuses (p >>= f) ts := by
  intro input pos hin
  obtain ⟨e, he⟩ := h input pos hin
  refine ⟨e, ?_⟩
  show Parser.andThen p f input pos = _
  simp only [Parser.andThen, he]

theorem Refuses.bind_right {f : α → Parser β} (hp : Reads p ts rest Q)
    (hf : ∀ a, Q a → Refuses (f a) rest) : Refuses (p >>= f) (ts ++ rest) := by
  intro input pos hin
  obtain ⟨a, alt, hpa, ha⟩ := hp input pos hin
  obtain ⟨e, he⟩ := hf a ha input _ (Input.ahead_append hin)
  refine ⟨e.after alt, ?_⟩
  show Parser.andThen p f input pos = _
  simp only [Parser.andThen, hpa, he]

/-- `Refuses.bind_right` for a first parser that reads one token. -/
theorem Refuses.bind_cons {f : α → Parser β} {t : Token} (hp : Reads p [t] rest Q)
    (hf : ∀ a, Q a → Refuses (f a) rest) : Refuses (p >>= f) (t :: rest) :=
  Refuses.bind_right hp hf

/-- `Refuses.bind_right` for a first parser that reads nothing. -/
theorem Refuses.bind_nil {f : α → Parser β} (hp : Reads p [] rest Q)
    (hf : ∀ a, Q a → Refuses (f a) rest) : Refuses (p >>= f) rest :=
  Refuses.bind_right hp hf

theorem Refuses.map {f : α → β} (h : Refuses p ts) : Refuses (f <$> p) ts :=
  Refuses.bind (f := fun a => Pure.pure (f a)) h

theorem Reads.accept {f : Token → Option α} {t : Token} {a : α} (ht : f t = some a) (ha : Q a) :
    Reads (Parser.accept f) [t] rest Q := by
  intro input pos hin
  refine ⟨a, none, ?_, ha⟩
  simp only [Parser.accept, Input.tokenAt?_of_ahead hin, Option.bind_some, ht,
    List.length_singleton]

theorem Refuses.accept {f : Token → Option α} (h : ∀ t, ts.head? = some t → f t = none) :
    Refuses (Parser.accept f) ts := by
  intro input pos hin
  refine ⟨input.unexpected pos [], ?_⟩
  have hnone : (input.tokenAt? pos).bind f = none := by
    rw [Input.tokenAt?_eq_head?, hin]
    cases hh : ts.head? with
    | none => rfl
    | some t => exact h t hh
  simp only [Parser.accept, hnone]

theorem Reads.token {t : Token} : Reads (Parser.token t) [t] rest fun _ => True := by
  intro input pos hin
  refine ⟨(), none, ?_, trivial⟩
  simp [Parser.token, Input.tokenAt?_of_ahead hin]

theorem Refuses.token {t : Token} (h : ts.head? ≠ some t) : Refuses (Parser.token t) ts := by
  intro input pos hin
  refine ⟨input.unexpected pos [some t], ?_⟩
  rw [← hin, ← Input.tokenAt?_eq_head?] at h
  simp [Parser.token, h]

theorem Reads.mark {m : Mark} : Reads (Parser.mark m) [.mark m] rest fun _ => True := Reads.token

theorem Reads.keyword {k : Keyword} : Reads (Parser.keyword k) [.keyword k] rest fun _ => True :=
  Reads.token

theorem Refuses.mark {m : Mark} (h : ts.head? ≠ some (.mark m)) : Refuses (Parser.mark m) ts :=
  Refuses.token h

theorem Refuses.keyword {k : Keyword} (h : ts.head? ≠ some (.keyword k)) :
    Refuses (Parser.keyword k) ts :=
  Refuses.token h

theorem Reads.orElse_left (h : Reads p ts rest Q) : Reads (Parser.orElse p q) ts rest Q := by
  intro input pos hin
  obtain ⟨a, alt, hp, ha⟩ := h input pos hin
  exact ⟨a, alt, by simp only [Parser.orElse, hp], ha⟩

theorem Reads.orElse_right (hp : Refuses p (ts ++ rest)) (hq : Reads q ts rest Q) :
    Reads (Parser.orElse p q) ts rest Q := by
  intro input pos hin
  obtain ⟨e, he⟩ := hp input pos hin
  obtain ⟨a, alt, hqa, ha⟩ := hq input pos hin
  exact ⟨a, alt, by simp only [Parser.orElse, he, hqa], ha⟩

theorem Refuses.orElse (hp : Refuses p ts) (hq : Refuses q ts) : Refuses (Parser.orElse p q) ts := by
  intro input pos hin
  obtain ⟨e, he⟩ := hp input pos hin
  obtain ⟨e', he'⟩ := hq input pos hin
  exact ⟨e.furthest e', by simp only [Parser.orElse, he, he']⟩

theorem Reads.firstOf_head {ps : List (Parser α)} {failed : Option Failure} (h : Reads p ts rest Q) :
    Reads (Parser.firstOf failed (p :: ps)) ts rest Q := by
  intro input pos hin
  obtain ⟨a, alt, hp, ha⟩ := h input pos hin
  exact ⟨a, alt, by simp only [Parser.firstOf, hp], ha⟩

theorem Reads.firstOf_tail {ps : List (Parser α)} {failed : Option Failure}
    (hp : Refuses p (ts ++ rest)) (hps : ∀ failed, Reads (Parser.firstOf failed ps) ts rest Q) :
    Reads (Parser.firstOf failed (p :: ps)) ts rest Q := by
  intro input pos hin
  obtain ⟨e, he⟩ := hp input pos hin
  obtain ⟨a, alt, hpsa, ha⟩ := hps (Failure.merge failed (some e)) input pos hin
  exact ⟨a, alt, by simp only [Parser.firstOf, he, hpsa], ha⟩

/-- A choice reads what one of its members reads, if those before it refuse. -/
theorem Reads.choice (before : List (Parser α)) {after : List (Parser α)}
    (hb : ∀ q ∈ before, Refuses q (ts ++ rest))
    (h : Reads p ts rest Q) : Reads (Parser.choice (before ++ p :: after)) ts rest Q := by
  have key : ∀ failed, Reads (Parser.firstOf failed (before ++ p :: after)) ts rest Q := by
    induction before with
    | nil => exact fun _ => h.firstOf_head
    | cons q before ih =>
      intro failed
      exact Reads.firstOf_tail (hb q (by simp)) (ih fun r hr => hb r (by simp [hr]))
  exact key none

theorem Refuses.choice {ps : List (Parser α)} (h : ∀ q ∈ ps, Refuses q ts) :
    Refuses (Parser.choice ps) ts := by
  have key : ∀ failed, Refuses (Parser.firstOf failed ps) ts := by
    induction ps with
    | nil => exact fun failed input pos _ => ⟨failed.getD (input.unexpected pos []), rfl⟩
    | cons q ps ih =>
      intro failed input pos hin
      obtain ⟨e, he⟩ := h q (by simp) input pos hin
      obtain ⟨e', he'⟩ := ih (fun r hr => h r (by simp [hr])) (Failure.merge failed (some e)) input pos hin
      exact ⟨e', by simp only [Parser.firstOf, he, he']⟩
  exact key none

theorem Reads.maybe_some (h : Reads p ts rest Q) :
    Reads (Parser.maybe p) ts rest fun o => ∃ a, o = some a ∧ Q a := by
  intro input pos hin
  obtain ⟨a, alt, hp, ha⟩ := h input pos hin
  exact ⟨some a, alt, by simp only [Parser.maybe, hp], a, rfl, ha⟩

theorem Reads.maybe_none (h : Refuses p rest) : Reads (Parser.maybe p) [] rest fun o => o = none := by
  intro input pos hin
  obtain ⟨e, he⟩ := h input pos hin
  exact ⟨none, some e, by simp [Parser.maybe, he], rfl⟩

theorem Reads.spanned (h : Reads p ts rest Q) :
    Reads (Parser.spanned p) ts rest fun r => Q r.2 := by
  intro input pos hin
  obtain ⟨a, alt, hp, ha⟩ := h input pos hin
  refine ⟨(input.spanOf pos (pos + ts.length), a), alt, ?_, ha⟩
  simp only [Parser.spanned, hp]

/-- `Reads.bind_last` after a span was taken. -/
theorem Reads.spanned_bind {f : Span × α → Parser β} {R : β → Prop} (h : Reads p ts rest Q)
    (hf : ∀ s a, Q a → Reads (f (s, a)) [] rest R) : Reads (Parser.spanned p >>= f) ts rest R :=
  Reads.bind_last h.spanned fun r hr => hf r.1 r.2 hr

theorem Refuses.spanned (h : Refuses p ts) : Refuses (Parser.spanned p) ts := by
  intro input pos hin
  obtain ⟨e, he⟩ := h input pos hin
  exact ⟨e, by simp only [Parser.spanned, he]⟩

theorem Reads.check {f : α → Span → Except (String × Span) β} {R : β → Prop}
    (h : Reads p ts rest Q) (hf : ∀ a span, Q a → ∃ b, f a span = .ok b ∧ R b) :
    Reads (Parser.check p f) ts rest R := by
  intro input pos hin
  obtain ⟨a, alt, hp, ha⟩ := h input pos hin
  obtain ⟨b, hb, hR⟩ := hf a (input.spanOf pos (pos + ts.length)) ha
  exact ⟨b, alt, by simp only [Parser.check, hp, hb], hR⟩

theorem Refuses.check {f : α → Span → Except (String × Span) β} (h : Refuses p ts) :
    Refuses (Parser.check p f) ts := by
  intro input pos hin
  obtain ⟨e, he⟩ := h input pos hin
  exact ⟨e, by simp only [Parser.check, he]⟩

theorem Reads.between {o c : Mark} (h : Reads p ts (.mark c :: rest) Q) :
    Reads (Parser.between o c p) (.mark o :: ts ++ [.mark c]) rest Q :=
  Reads.bind_cons Reads.mark fun _ _ =>
    Reads.bind h fun _ ha => Reads.bind_last Reads.mark fun _ _ => Reads.pure ha

theorem Refuses.between {o c : Mark} (h : ts.head? ≠ some (.mark o)) :
    Refuses (Parser.between o c p) ts :=
  Refuses.bind (Refuses.mark h)

/-! ### Repetition -/

/-- Successive readings of a parser, from one position to another. -/
inductive Steps (p : Parser α) (input : Input) : Nat → List α → Nat → Prop
  | nil {pos : Nat} : Steps p input pos [] pos
  | cons {pos mid stop : Nat} {a : α} {as : List α} {alt : Option Failure}
      (h : p input pos = .ok a mid alt) (rest : Steps p input mid as stop) :
      Steps p input pos (a :: as) stop

theorem Steps.snoc {input : Input} {pos mid stop : Nat} {as : List α} {a : α} {alt : Option Failure}
    (hs : Steps p input pos as mid) (h : p input mid = .ok a stop alt) :
    Steps p input pos (as ++ [a]) stop := by
  induction hs with
  | nil => exact .cons h .nil
  | cons hp _ ih => exact .cons hp (ih h)

/-- Steps that end where the parser fails are what `repeatFrom` finds, given enough fuel. -/
theorem Steps.repeatFrom {input : Input} {pos stop : Nat} {as : List α} {e : Failure}
    (hs : Steps p input pos as stop) (he : p input stop = .fail e) :
    ∀ {fuel : Nat} (found : List α) (alt : Option Failure), as.length ≤ fuel →
      ∃ alt', Parser.repeatFrom p input fuel found pos alt = .ok (found.reverse ++ as) stop alt' := by
  induction hs with
  | nil =>
    intro fuel found alt hfuel
    cases fuel with
    | zero => exact ⟨alt, by simp [Parser.repeatFrom]⟩
    | succ n => exact ⟨Failure.merge alt (some e), by simp [Parser.repeatFrom, he]⟩
  | @cons pos mid stop a as altp hp _ ih =>
    intro fuel found alt hfuel
    obtain ⟨n, rfl⟩ : ∃ n, fuel = n + 1 := ⟨fuel - 1, by simp at hfuel; omega⟩
    have hn : as.length ≤ n := by simp at hfuel; omega
    obtain ⟨alt', h⟩ := ih he (a :: found) (Failure.merge alt altp) hn
    exact ⟨alt', by simp [Parser.repeatFrom, hp, h]⟩

/-- Repeated readings of `p` take up `ts` where `rest` follows; more of them may be possible. -/
def Strides (p : Parser α) (ts rest : List Token) (Q : List α → Prop) : Prop :=
  ∀ input pos, input.ahead pos = ts ++ rest →
    ∃ as, Steps p input pos as (pos + ts.length) ∧ as.length ≤ ts.length ∧ Q as

theorem Strides.nil {Q : List α → Prop} (h : Q []) : Strides p [] rest Q :=
  fun _ _ _ => ⟨[], .nil, by simp, h⟩

theorem Strides.cons {R S : List α → Prop} (hne : ts ≠ []) (hp : Reads p ts (us ++ rest) Q)
    (hs : Strides p us rest R) (hQ : ∀ a as, Q a → R as → S (a :: as)) :
    Strides p (ts ++ us) rest S := by
  intro input pos hin
  rw [List.append_assoc] at hin
  obtain ⟨a, alt, hpa, ha⟩ := hp input pos hin
  obtain ⟨as, hsteps, hlen, has⟩ := hs input _ (Input.ahead_append hin)
  have hpos : 0 < ts.length := List.length_pos_iff.2 hne
  refine ⟨a :: as, ?_, by simp only [List.length_cons, List.length_append]; omega, hQ a as ha has⟩
  rw [List.length_append, ← Nat.add_assoc]
  exact .cons hpa hsteps

theorem Strides.snoc {R S : List α → Prop} (hne : us ≠ []) (hs : Strides p ts (us ++ rest) R)
    (hp : Reads p us rest Q) (hQ : ∀ a as, R as → Q a → S (as ++ [a])) :
    Strides p (ts ++ us) rest S := by
  intro input pos hin
  rw [List.append_assoc] at hin
  obtain ⟨as, hsteps, hlen, has⟩ := hs input pos hin
  obtain ⟨a, alt, hpa, ha⟩ := hp input _ (Input.ahead_append hin)
  have hpos : 0 < us.length := List.length_pos_iff.2 hne
  refine ⟨as ++ [a], ?_, by simp only [List.length_append, List.length_singleton]; omega,
    hQ a as has ha⟩
  rw [List.length_append, ← Nat.add_assoc]
  exact hsteps.snoc hpa

theorem length_le_of_ahead {input : Input} {pos : Nat} (h : input.ahead pos = ts ++ rest) :
    ts.length ≤ input.lexemes.size - pos := by
  rw [← Input.length_ahead, h, List.length_append]
  omega

/-- A repetition ends where its parser fails. -/
theorem Reads.many {Q : List α → Prop} (hs : Strides p ts rest Q) (hr : Refuses p rest) :
    Reads (Parser.many p) ts rest Q := by
  intro input pos hin
  obtain ⟨as, hsteps, hlen, has⟩ := hs input pos hin
  obtain ⟨e, he⟩ := hr input _ (Input.ahead_append hin)
  have hle := length_le_of_ahead hin
  obtain ⟨alt, h⟩ := hsteps.repeatFrom he [] none
    (show as.length ≤ input.lexemes.size + 1 - pos by omega)
  exact ⟨as, alt, h, has⟩

/-- The loop over separators and items is a repetition of one after the other. -/
theorem Steps.separatedFrom {sep : Parser Unit} {input : Input} {pos stop : Nat} {as : List α}
    {e : Failure} (hs : Steps (sep >>= fun _ => p) input pos as stop)
    (he : sep input stop = .fail e) :
    ∀ {fuel : Nat} (found : List α) (alt : Option Failure), as.length ≤ fuel →
      ∃ alt' e', Parser.separatedFrom p sep input fuel found pos alt
        = (as.reverse ++ found, stop, alt', e') := by
  induction hs with
  | @nil pos =>
    intro fuel found alt hfuel
    cases fuel with
    | zero => exact ⟨alt, input.unexpected pos [], by simp [Parser.separatedFrom]⟩
    | succ n => exact ⟨alt, e, by simp [Parser.separatedFrom, he]⟩
  | @cons pos mid stop a as alts hp _ ih =>
    intro fuel found alt hfuel
    obtain ⟨n, rfl⟩ : ∃ n, fuel = n + 1 := ⟨fuel - 1, by simp at hfuel; omega⟩
    have hn : as.length ≤ n := by simp at hfuel; omega
    -- a step of the pair is a step of the separator and one of the item
    change Parser.andThen sep (fun _ => p) input pos = _ at hp
    simp only [Parser.andThen] at hp
    cases hsep : sep input pos with
    | fail f => simp [hsep] at hp
    | ok u mid' sepAlt =>
      rw [hsep] at hp
      cases hitem : p input mid' with
      | fail f => simp [hitem] at hp
      | ok b stop' itemAlt =>
        simp only [hitem, Outcome.ok.injEq] at hp
        obtain ⟨rfl, rfl, -⟩ := hp
        obtain ⟨alt', e', h⟩ := ih he (b :: found) (Failure.merge (Failure.merge alt sepAlt) itemAlt) hn
        exact ⟨alt', e', by simp [Parser.separatedFrom, hsep, hitem, h]⟩

section Separated

variable {sep : Parser Unit} {R S : List α → Prop}

theorem Reads.separated1 (hp : Reads p ts (us ++ rest) Q)
    (hs : Strides (sep >>= fun _ => p) us rest R) (hr : Refuses sep rest)
    (hQ : ∀ a as, Q a → R as → S (a :: as)) : Reads (Parser.separated1 p sep) (ts ++ us) rest S := by
  intro input pos hin
  have hle := length_le_of_ahead hin
  rw [List.append_assoc] at hin
  obtain ⟨a, alt, hpa, ha⟩ := hp input pos hin
  have hmid := Input.ahead_append hin
  obtain ⟨as, hsteps, hlen, has⟩ := hs input _ hmid
  obtain ⟨e, he⟩ := hr input _ (Input.ahead_append hmid)
  rw [List.length_append] at hle
  obtain ⟨alt', e', h⟩ := hsteps.separatedFrom he [a] alt
    (show as.length ≤ input.lexemes.size + 1 - pos by omega)
  refine ⟨a :: as, Failure.merge alt' (some e'), ?_, hQ a as ha has⟩
  simp only [Parser.separated1, hpa, h, List.length_append, ← Nat.add_assoc]
  simp

theorem Reads.separatedTrailing (hp : Reads p ts (us ++ rest) Q)
    (hs : Strides (sep >>= fun _ => p) us rest R) (hr : Refuses sep rest)
    (hQ : ∀ a as, Q a → R as → S (a :: as)) :
    Reads (Parser.separatedTrailing p sep) (ts ++ us) rest S := by
  intro input pos hin
  have hle := length_le_of_ahead hin
  rw [List.append_assoc] at hin
  obtain ⟨a, alt, hpa, ha⟩ := hp input pos hin
  have hmid := Input.ahead_append hin
  obtain ⟨as, hsteps, hlen, has⟩ := hs input _ hmid
  obtain ⟨e, he⟩ := hr input _ (Input.ahead_append hmid)
  rw [List.length_append] at hle
  obtain ⟨alt', e', h⟩ := hsteps.separatedFrom he [a] alt
    (show as.length ≤ input.lexemes.size + 1 - pos by omega)
  refine ⟨a :: as, Failure.merge (Failure.merge alt' (some e)) (some e'), ?_, hQ a as ha has⟩
  simp only [Parser.separatedTrailing, hpa, h, he, List.length_append, ← Nat.add_assoc]
  simp

theorem Reads.separatedTrailing_nil (hr : Refuses p rest) :
    Reads (Parser.separatedTrailing p sep) [] rest fun as => as = [] := by
  intro input pos hin
  obtain ⟨e, he⟩ := hr input pos hin
  exact ⟨[], some e, by simp [Parser.separatedTrailing, he], rfl⟩

end Separated

end Staging
