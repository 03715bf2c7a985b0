import Staging.Proofs.Grammar.Reads

/-!
What follows from a parser's success.

`Gives V p P` says: where all tokens ahead satisfy `V`, whatever `p` gives is related by `P` to the
tokens it took. It is the other direction of `Reads`, with a law for each combinator; a statement about
all parsers of a grammar follows from one small step per rule.
-/

namespace Staging

/-- Where the tokens ahead satisfy `V`, a success of `p` takes tokens that `P` relates to its value. -/
def Gives {α : Type} (V : Token → Prop) (p : Parser α) (P : List Token → α → Prop) : Prop :=
  ∀ input pos a stop alt, (∀ t ∈ input.ahead pos, V t) → p input pos = .ok a stop alt →
    ∃ ts rest, input.ahead pos = ts ++ rest ∧ stop = pos + ts.length ∧ P ts a

namespace Gives

variable {α β : Type} {V : Token → Prop} {p q : Parser α} {P : List Token → α → Prop}

theorem mono {P' : List Token → α → Prop} (h : Gives V p P) (hP : ∀ ts a, P ts a → P' ts a) :
    Gives V p P' := by
  intro input pos a stop alt hV hp
  obtain ⟨ts, rest, hin, hstop, ha⟩ := h input pos a stop alt hV hp
  exact ⟨ts, rest, hin, hstop, hP ts a ha⟩

theorem pure {a : α} (h : P [] a) : Gives V (Pure.pure a : Parser α) P := by
  intro input pos b stop alt _ hp
  change Outcome.ok a pos none = .ok b stop alt at hp
  cases hp
  exact ⟨[], input.ahead pos, rfl, rfl, h⟩

theorem bind {f : α → Parser β} {R : List Token → β → Prop} (hp : Gives V p P)
    (hf : ∀ ts a, P ts a → Gives V (f a) fun us b => R (ts ++ us) b) : Gives V (p >>= f) R := by
  intro input pos b stop alt hV h
  change Parser.andThen p f input pos = _ at h
  simp only [Parser.andThen] at h
  cases hpa : p input pos with
  | fail e => simp [hpa] at h
  | ok a mid alt₁ =>
    rw [hpa] at h
    cases hfb : f a input mid with
    | fail e => simp [hfb] at h
    | ok b' stop' alt₂ =>
      simp only [hfb, Outcome.ok.injEq] at h
      obtain ⟨rfl, rfl, -⟩ := h
      obtain ⟨ts, rest, hin, rfl, ha⟩ := hp input pos a mid alt₁ hV hpa
      have hmid := Input.ahead_append hin
      have hV' : ∀ t ∈ input.ahead (pos + ts.length), V t := by
        intro t ht
        rw [hmid] at ht
        exact hV t (by rw [hin]; exact List.mem_append_right ts ht)
      obtain ⟨us, rest', hin', rfl, hb⟩ := hf ts a ha input _ b' stop' alt₂ hV' hfb
      refine ⟨ts ++ us, rest', ?_, by simp [Nat.add_assoc], hb⟩
      rw [hin, List.append_assoc, ← hin', hmid]

theorem map {f : α → β} {R : List Token → β → Prop} (hp : Gives V p P)
    (hf : ∀ ts a, P ts a → R ts (f a)) : Gives V (f <$> p) R := by
  show Gives V (p >>= fun a => Pure.pure (f a)) R
  exact hp.bind fun ts a ha => pure (by simpa using hf ts a ha)

theorem accept {f : Token → Option α} (h : ∀ t a, V t → f t = some a → P [t] a) :
    Gives V (Parser.accept f) P := by
  intro input pos a stop alt hV hp
  simp only [Parser.accept, Input.tokenAt?_eq_head?] at hp
  cases hin : input.ahead pos with
  | nil => simp [hin] at hp
  | cons t rest =>
    rw [hin, List.head?_cons, Option.bind_some] at hp
    cases hf : f t with
    | none => simp [hf] at hp
    | some b =>
      simp only [hf, Outcome.ok.injEq] at hp
      obtain ⟨rfl, rfl, -⟩ := hp
      exact ⟨[t], rest, rfl, rfl, h t b (hV t (by simp [hin])) hf⟩

theorem token {t : Token} {P : List Token → Unit → Prop} (h : V t → P [t] ()) :
    Gives V (Parser.token t) P := by
  intro input pos a stop alt hV hp
  simp only [Parser.token] at hp
  split at hp
  · rename_i ht
    simp only [Outcome.ok.injEq] at hp
    obtain ⟨-, rfl, -⟩ := hp
    rw [Input.tokenAt?_eq_head?] at ht
    obtain ⟨rest, hrest⟩ := List.head?_eq_some_iff.1 ht
    exact ⟨[t], rest, hrest, rfl, h (hV t (by simp [hrest]))⟩
  · simp at hp

theorem orElse (hp : Gives V p P) (hq : Gives V q P) : Gives V (Parser.orElse p q) P := by
  intro input pos a stop alt hV h
  simp only [Parser.orElse] at h
  cases hpa : p input pos with
  | ok b s al => rw [hpa] at h; exact hp input pos a stop alt hV (hpa.trans h)
  | fail e =>
    rw [hpa] at h
    cases hqa : q input pos with
    | ok b s al => rw [hqa] at h; exact hq input pos a stop alt hV (hqa.trans h)
    | fail e' => simp [hqa] at h

theorem choice {ps : List (Parser α)} (h : ∀ q ∈ ps, Gives V q P) : Gives V (Parser.choice ps) P := by
  have key : ∀ failed, Gives V (Parser.firstOf failed ps) P := by
    induction ps with
    | nil => intro failed input pos a stop alt _ h; simp [Parser.firstOf] at h
    | cons q ps ih =>
      intro failed input pos a stop alt hV hf
      simp only [Parser.firstOf] at hf
      cases hq : q input pos with
      | ok b s al => rw [hq] at hf; exact h q (by simp) input pos a stop alt hV (hq.trans hf)
      | fail e =>
        rw [hq] at hf
        exact ih (fun r hr => h r (by simp [hr])) _ input pos a stop alt hV hf
  exact key none

theorem maybe {R : List Token → Option α → Prop} (hp : Gives V p P)
    (hsome : ∀ ts a, P ts a → R ts (some a)) (hnone : R [] none) : Gives V (Parser.maybe p) R := by
  intro input pos o stop alt hV h
  simp only [Parser.maybe] at h
  cases hpa : p input pos with
  | ok a s al =>
    simp only [hpa, Outcome.ok.injEq] at h
    obtain ⟨rfl, rfl, -⟩ := h
    obtain ⟨ts, rest, hin, hstop, ha⟩ := hp input pos a s al hV hpa
    exact ⟨ts, rest, hin, hstop, hsome ts a ha⟩
  | fail e =>
    simp only [hpa, Outcome.ok.injEq] at h
    obtain ⟨rfl, rfl, -⟩ := h
    exact ⟨[], input.ahead pos, rfl, rfl, hnone⟩

theorem spanned {R : List Token → Span × α → Prop} (hp : Gives V p P)
    (h : ∀ ts s a, P ts a → R ts (s, a)) : Gives V (Parser.spanned p) R := by
  intro input pos r stop alt hV hr
  simp only [Parser.spanned] at hr
  cases hpa : p input pos with
  | fail e => simp [hpa] at hr
  | ok a s al =>
    simp only [hpa, Outcome.ok.injEq] at hr
    obtain ⟨rfl, rfl, -⟩ := hr
    obtain ⟨ts, rest, hin, hstop, ha⟩ := hp input pos a s al hV hpa
    exact ⟨ts, rest, hin, hstop, h ts _ a ha⟩

theorem check {f : α → Span → Except (String × Span) β} {R : List Token → β → Prop}
    (hp : Gives V p P) (h : ∀ ts s a b, P ts a → f a s = .ok b → R ts b) :
    Gives V (Parser.check p f) R := by
  intro input pos b stop alt hV hb
  simp only [Parser.check] at hb
  cases hpa : p input pos with
  | fail e => simp [hpa] at hb
  | ok a s al =>
    rw [hpa] at hb
    cases hfa : f a (input.spanOf pos s) with
    | error e => simp [hfa] at hb
    | ok b' =>
      simp only [hfa, Outcome.ok.injEq] at hb
      obtain ⟨rfl, rfl, -⟩ := hb
      obtain ⟨ts, rest, hin, hstop, ha⟩ := hp input pos a s al hV hpa
      exact ⟨ts, rest, hin, hstop, h ts _ a b' ha hfa⟩

/-! ### Repetition -/

/-- What a repetition has found so far, and the tokens it took, stay related while it goes on. -/
theorem repeatFrom {R : List Token → List α → Prop} (hp : Gives V p P)
    (hstep : ∀ ts as us a, R ts as → P us a → R (ts ++ us) (as ++ [a])) {input : Input} {start : Nat}
    (hV : ∀ t ∈ input.ahead start, V t) :
    ∀ (fuel : Nat) (found : List α) (pos : Nat) (alt : Option Failure) (as : List α) (stop : Nat)
      (alt' : Option Failure) (ts rest : List Token), input.ahead start = ts ++ rest →
      pos = start + ts.length → R ts found.reverse →
      Parser.repeatFrom p input fuel found pos alt = .ok as stop alt' →
      ∃ us rest', input.ahead start = us ++ rest' ∧ stop = start + us.length ∧ R us as
  | 0, found, pos, alt, as, stop, alt', ts, rest, hin, hpos, hR, h => by
    simp only [Parser.repeatFrom, Outcome.ok.injEq] at h
    obtain ⟨rfl, rfl, -⟩ := h
    exact ⟨ts, rest, hin, hpos, hR⟩
  | fuel + 1, found, pos, alt, as, stop, alt', ts, rest, hin, hpos, hR, h => by
    simp only [Parser.repeatFrom] at h
    cases hpa : p input pos with
    | fail e =>
      simp only [hpa, Outcome.ok.injEq] at h
      obtain ⟨rfl, rfl, -⟩ := h
      exact ⟨ts, rest, hin, hpos, hR⟩
    | ok a mid al =>
      simp only [hpa] at h
      subst hpos
      have hmid := Input.ahead_append hin
      have hV' : ∀ t ∈ input.ahead (start + ts.length), V t := by
        intro t ht
        rw [hmid] at ht
        exact hV t (by rw [hin]; exact List.mem_append_right ts ht)
      obtain ⟨us, rest', hin', rfl, ha⟩ := hp input _ a mid al hV' hpa
      refine repeatFrom hp hstep hV fuel (a :: found) _ _ as stop alt' (ts ++ us) rest' ?_ ?_ ?_ h
      · rw [hin, List.append_assoc, ← hin', hmid]
      · simp [Nat.add_assoc]
      · rw [List.reverse_cons]; exact hstep ts _ us a hR ha

theorem many {R : List Token → List α → Prop} (hp : Gives V p P) (hnil : R [] [])
    (hstep : ∀ ts as us a, R ts as → P us a → R (ts ++ us) (as ++ [a])) :
    Gives V (Parser.many p) R := by
  intro input pos as stop alt hV h
  exact repeatFrom hp hstep hV _ [] pos none as stop alt [] (input.ahead pos) rfl rfl hnil h

section Separated

variable {sep : Parser Unit} {R : List Token → List α → Prop} {T : Token}

/-- The same for a repetition with separators, where `T` is the token a separator takes. -/
theorem separatedFrom (hp : Gives V p P) (hsep : Gives V sep fun ts _ => ts = [T])
    (hstep : ∀ ts as us a, R ts as → P us a → R (ts ++ T :: us) (as ++ [a])) {input : Input}
    {start : Nat} (hV : ∀ t ∈ input.ahead start, V t) :
    ∀ (fuel : Nat) (found : List α) (pos : Nat) (alt : Option Failure) (as : List α) (stop : Nat)
      (alt' : Option Failure) (e : Failure) (ts rest : List Token), input.ahead start = ts ++ rest →
      pos = start + ts.length → R ts found.reverse →
      Parser.separatedFrom p sep input fuel found pos alt = (as, stop, alt', e) →
      ∃ us rest', input.ahead start = us ++ rest' ∧ stop = start + us.length ∧ R us as.reverse
  | 0, found, pos, alt, as, stop, alt', e, ts, rest, hin, hpos, hR, h => by
    simp only [Parser.separatedFrom, Prod.mk.injEq] at h
    obtain ⟨rfl, rfl, -, -⟩ := h
    exact ⟨ts, rest, hin, hpos, hR⟩
  | fuel + 1, found, pos, alt, as, stop, alt', e, ts, rest, hin, hpos, hR, h => by
    simp only [Parser.separatedFrom] at h
    cases hsa : sep input pos with
    | fail f =>
      simp only [hsa, Prod.mk.injEq] at h
      obtain ⟨rfl, rfl, -, -⟩ := h
      exact ⟨ts, rest, hin, hpos, hR⟩
    | ok u mid al =>
      simp only [hsa] at h
      cases hpa : p input mid with
      | fail f =>
        simp only [hpa, Prod.mk.injEq] at h
        obtain ⟨rfl, rfl, -, -⟩ := h
        exact ⟨ts, rest, hin, hpos, hR⟩
      | ok a stop₁ al' =>
        simp only [hpa] at h
        subst hpos
        have after : ∀ {ws rest'}, input.ahead start = ws ++ rest' →
            ∀ t ∈ input.ahead (start + ws.length), V t := by
          intro ws rest' hws t ht
          rw [Input.ahead_append hws] at ht
          exact hV t (by rw [hws]; exact List.mem_append_right ws ht)
        obtain ⟨_, rest₁, hin₁, rfl, rfl⟩ := hsep input _ u mid al (after hin) hsa
        have hsep' : input.ahead start = (ts ++ [T]) ++ rest₁ := by
          rw [hin, List.append_assoc, ← hin₁, Input.ahead_append hin]
        have hmid : start + ts.length + [T].length = start + (ts ++ [T]).length := by
          simp [Nat.add_assoc]
        rw [hmid] at hpa
        obtain ⟨us, rest₂, hin₂, rfl, ha⟩ := hp input _ a stop₁ al' (after hsep') hpa
        refine separatedFrom hp hsep hstep hV fuel (a :: found) _ _ as stop alt' e
          (ts ++ T :: us) rest₂ ?_ ?_ ?_ h
        · rw [hsep', ← Input.ahead_append hsep', hin₂]; simp
        · simp; omega
        · rw [List.reverse_cons]; exact hstep ts _ us a hR ha

theorem separated1 (hp : Gives V p P) (hsep : Gives V sep fun ts _ => ts = [T])
    (hone : ∀ ts a, P ts a → R ts [a])
    (hstep : ∀ ts as us a, R ts as → P us a → R (ts ++ T :: us) (as ++ [a])) :
    Gives V (Parser.separated1 p sep) R := by
  intro input pos as stop alt hV h
  simp only [Parser.separated1] at h
  cases hpa : p input pos with
  | fail e => simp [hpa] at h
  | ok a mid al =>
    simp only [hpa] at h
    obtain ⟨ts, rest, hin, hmid, ha⟩ := hp input pos a mid al hV hpa
    cases hs : Parser.separatedFrom p sep input (input.lexemes.size + 1 - pos) [a] mid al with
    | mk found r =>
      obtain ⟨stop', al', e⟩ := r
      simp only [hs, Outcome.ok.injEq] at h
      obtain ⟨rfl, rfl, -⟩ := h
      exact separatedFrom hp hsep hstep hV _ [a] mid al found stop' al' e ts rest hin hmid
        (hone ts a ha) hs

theorem separatedTrailing (hp : Gives V p P) (hsep : Gives V sep fun ts _ => ts = [T])
    (hnil : R [] []) (hone : ∀ ts a, P ts a → R ts [a])
    (hstep : ∀ ts as us a, R ts as → P us a → R (ts ++ T :: us) (as ++ [a]))
    (htrail : ∀ ts as, R ts as → R (ts ++ [T]) as) : Gives V (Parser.separatedTrailing p sep) R := by
  intro input pos as stop alt hV h
  simp only [Parser.separatedTrailing] at h
  cases hpa : p input pos with
  | fail e =>
    simp only [hpa, Outcome.ok.injEq] at h
    obtain ⟨rfl, rfl, -⟩ := h
    exact ⟨[], input.ahead pos, rfl, rfl, hnil⟩
  | ok a mid al =>
    simp only [hpa] at h
    obtain ⟨ts, rest, hin, hmid, ha⟩ := hp input pos a mid al hV hpa
    cases hs : Parser.separatedFrom p sep input (input.lexemes.size + 1 - pos) [a] mid al with
    | mk found r =>
      obtain ⟨stop', al', e⟩ := r
      simp only [hs] at h
      obtain ⟨us, rest', hin', rfl, hR⟩ := separatedFrom hp hsep hstep hV _ [a] mid al found stop' al' e
        ts rest hin hmid (hone ts a ha) hs
      cases hsa : sep input (pos + us.length) with
      | fail f =>
        simp only [hsa, Outcome.ok.injEq] at h
        obtain ⟨rfl, rfl, -⟩ := h
        exact ⟨us, rest', hin', rfl, hR⟩
      | ok u stop'' al'' =>
        simp only [hsa, Outcome.ok.injEq] at h
        obtain ⟨rfl, rfl, -⟩ := h
        have hV' : ∀ t ∈ input.ahead (pos + us.length), V t := by
          intro t ht
          rw [Input.ahead_append hin'] at ht
          exact hV t (by rw [hin']; exact List.mem_append_right us ht)
        obtain ⟨_, rest₁, hin₁, rfl, rfl⟩ := hsep input _ u stop'' al'' hV' hsa
        refine ⟨us ++ [T], rest₁, ?_, by simp [Nat.add_assoc], htrail us _ hR⟩
        rw [hin', List.append_assoc, ← hin₁, Input.ahead_append hin']

end Separated

theorem between {o c : Mark} {R : List Token → α → Prop} (hp : Gives V p P)
    (h : ∀ ts a, P ts a → R (.mark o :: ts ++ [.mark c]) a) :
    Gives V (Parser.between o c p) R := by
  refine bind (P := fun ts _ => ts = [.mark o]) (token fun _ => rfl) fun _ _ hts => ?_
  subst hts
  refine bind hp fun ts a ha => ?_
  refine bind (P := fun ts _ => ts = [.mark c]) (token fun _ => rfl) fun _ _ hts => ?_
  subst hts
  exact pure (by simpa using h ts a ha)

end Gives

end Staging
