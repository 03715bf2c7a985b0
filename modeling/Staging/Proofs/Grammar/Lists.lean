import Staging.Proofs.Grammar.Follow

/-!
Readings of lists.

Items between commas, statements in a row and patterns are read as soon as their elements are.
`Items.reads`, `Items.reads1` and `Sequence.reads` say so for the three ways the grammar has to read a
list; elements are compared by a function, so what is read may differ from what stands there in spans.
-/

namespace Staging

/-! ### Balanced readings -/

/-- An input made of the given tokens. -/
def Input.ofTokens (ts : List Token) : Input := ⟨(ts.map fun t => ⟨t, ⟨0, 0⟩⟩).toArray, ⟨0, 0⟩⟩

theorem Input.ahead_ofTokens (ts : List Token) : (Input.ofTokens ts).ahead 0 = ts := by
  simp [Input.ofTokens, Input.ahead, Function.comp_def]

/-- What is read by a parser that takes balanced tokens is balanced. -/
theorem Reads.balanced {α : Type} {p : Parser α} {ts rest : List Token} {Q : α → Prop}
    (h : Reads p ts rest Q) (he : Even p) : Balanced ts := by
  have hin := Input.ahead_ofTokens (ts ++ rest)
  obtain ⟨a, alt, hp, -⟩ := h _ 0 hin
  obtain ⟨us, rest', hin', hlen, hb⟩ := he _ 0 a _ alt (fun _ _ => trivial) hp
  rw [hin] at hin'
  have : ts.length = us.length := by simpa using hlen
  rwa [(List.append_inj hin' this).1]

/-! ### Items and sequences -/

section Items

variable {α β γ : Type} {G : α → List Token → Prop} {p : Parser α} {f : α → γ} {c : Mark} {n : Nat}
  {as : List α} {ts rest : List Token}

/-- The parser reads every item up to a length, before a comma and before the closing mark. -/
def ReadsItems (G : α → List Token → Prop) (p : Parser α) (f : α → γ) (c : Mark) (n : Nat) : Prop :=
  ∀ {a ts m rest}, G a ts → ts.length ≤ n → m = .comma ∨ m = c →
    Reads p ts (.mark m :: rest) fun b => f b = f a

theorem MoreItems.strides (hp : ReadsItems G p f c n) (h : MoreItems G as ts) (hn : ts.length ≤ n) :
    Strides (Grammar.comma >>= fun _ => p) ts (.mark c :: rest) fun bs => bs.map f = as.map f := by
  induction h with
  | nil => exact Strides.nil rfl
  | @cons a as ts us h more ih =>
    rw [List.length_append, List.length_cons] at hn
    have item : ∀ m rest', m = .comma ∨ m = c →
        Reads (Grammar.comma >>= fun _ => p) (.mark .comma :: ts) (.mark m :: rest')
          fun b => f b = f a :=
      fun m rest' hm => Reads.bind_cons Reads.mark fun _ _ => hp h (by omega) hm
    refine Strides.cons (Q := fun b => f b = f a) (List.cons_ne_nil (.mark .comma) ts) ?_
      (ih (by omega)) ?_
    · cases more with
      | nil => exact item c rest (.inr rfl)
      | cons => exact item .comma _ (.inl rfl)
    · intro b bs hb hbs
      simp [hb, hbs]

theorem Items.split (h : Items G as ts) (rest : List Token) (hp : ReadsItems G p f c n) (hn : ts.length ≤ n) :
    as = [] ∧ ts = [] ∨ ∃ a us vs, ts = us ++ vs ∧
      Reads p us (vs ++ .mark c :: rest) (fun b => f b = f a) ∧
      Strides (Grammar.comma >>= fun _ => p) vs (.mark c :: rest) fun bs => f a :: bs.map f = as.map f := by
  cases h with
  | nil => exact .inl ⟨rfl, rfl⟩
  | @cons a as us vs h more =>
    rw [List.length_append] at hn
    refine .inr ⟨a, us, vs, rfl, ?_, ?_⟩
    · cases more with
      | nil => exact hp h (by omega) (.inr rfl)
      | cons => exact hp h (by omega) (.inl rfl)
    · intro input pos hin
      obtain ⟨bs, hsteps, hlen, hbs⟩ := more.strides hp (by omega) input pos hin
      exact ⟨bs, hsteps, hlen, by simp [hbs]⟩

/-- Items before a closing mark are read one after the other. -/
theorem Items.reads (hp : ReadsItems G p f c n) (hc : c ≠ .comma)
    (hr : ∀ rest, Refuses p (.mark c :: rest)) (h : Items G as ts) (hn : ts.length ≤ n) :
    Reads (Parser.separatedTrailing p Grammar.comma) ts (.mark c :: rest)
      fun bs => bs.map f = as.map f := by
  rcases h.split rest hp hn with ⟨rfl, rfl⟩ | ⟨a, us, vs, rfl, hfirst, hmore⟩
  · refine (Reads.separatedTrailing_nil (hr rest)).mono ?_
    rintro _ rfl
    rfl
  · refine Reads.separatedTrailing hfirst hmore (Refuses.mark (by simpa using hc)) ?_
    intro b bs hb hbs
    rw [List.map_cons, hb, hbs]

/-- The same for a list that has at least one item. -/
theorem Items.reads1 (hp : ReadsItems G p f c n) (hc : c ≠ .comma) (h : Items G as ts) (hne : as ≠ [])
    (hn : ts.length ≤ n) :
    Reads (Parser.separated1 p Grammar.comma) ts (.mark c :: rest) fun bs => bs.map f = as.map f := by
  rcases h.split rest hp hn with ⟨rfl, rfl⟩ | ⟨a, us, vs, rfl, hfirst, hmore⟩
  · exact absurd rfl hne
  · refine Reads.separated1 hfirst hmore (Refuses.mark (by simpa using hc)) ?_
    intro b bs hb hbs
    rw [List.map_cons, hb, hbs]

/-- Things in a row are read up to where the next one is refused. -/
theorem Sequence.reads {E : α → List Token → Prop} (hne : ∀ {a ts}, G a ts → ts ≠ [])
    (hp : ∀ {a ts rest}, G a ts → ts.length ≤ n → E a rest → Reads p ts rest fun b => f b = f a)
    (hnext : ∀ {a b ts rest}, G b ts → E a (ts ++ rest)) (hlast : ∀ a, E a rest)
    (hr : Refuses p rest) (h : Sequence G as ts) (hn : ts.length ≤ n) :
    Reads (Parser.many p) ts rest fun bs => bs.map f = as.map f := by
  refine Reads.many ?_ hr
  induction h with
  | nil => exact Strides.nil rfl
  | @cons a as ts us h more ih =>
    rw [List.length_append] at hn
    refine Strides.cons (hne h) (hp h (by omega) ?_) (ih (by omega)) ?_
    · cases more with
      | nil => exact hlast a
      | cons h' => rw [List.append_assoc]; exact hnext h'
    · intro b bs hb hbs
      simp [hb, hbs]

end Items

end Staging
