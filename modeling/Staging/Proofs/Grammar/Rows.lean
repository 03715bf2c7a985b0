import Staging.Proofs.Source.SpanTree
import Staging.Source.Grammar.Program

/-!
Spans in rows.

`Row input lo hi ts` says that the trees `ts` take up tokens between two positions, one after the other, and that the parts
of each tree are such a row in the tokens that the tree takes up. Rows are put together (`Row.append`), enclosed
(`Row.enclose`) and joined: two neighbours become one tree that reaches from the start of one to the end of the other
(`Row.join`).

`Lays n p P` says that whatever the parser `p` reads is a row between the positions where it began and ended, of at least
`n` tokens, with trees that `P` relates to its value. There is a law for each combinator.
-/

namespace Staging

/-! ### Rows -/

/-- Trees that take up tokens between two positions, one after the other. -/
inductive Row (input : Input) : Nat → Nat → List SpanTree → Prop
  | nil {lo hi : Nat} (ordered : lo ≤ hi) (inside : hi ≤ input.lexemes.size) : Row input lo hi []
  | cons {lo i j hi : Nat} {children rest : List SpanTree} (after : lo ≤ i) (nonempty : i < j)
      (inner : Row input i j children) (behind : Row input j hi rest) :
      Row input lo hi (.node (input.spanOf i j) children :: rest)

theorem Input.spanOf_eq (input : Input) {i j : Nat} (h : i < j) :
    input.spanOf i j = ⟨(input.spanAt i).start, (input.spanAt (j - 1)).stop⟩ := by
  rw [Input.spanOf, Nat.max_eq_left (by omega)]

namespace Row

variable {input : Input} {lo mid hi : Nat} {t u : SpanTree} {ts us children rest : List SpanTree}

theorem le (h : Row input lo hi ts) : lo ≤ hi := by
  induction h with
  | nil ordered => exact ordered
  | cons after nonempty _ _ _ ih => omega

theorem le_size (h : Row input lo hi ts) : hi ≤ input.lexemes.size := by
  induction h with
  | nil _ inside => exact inside
  | cons _ _ _ _ _ ih => exact ih

theorem mono_left {lo' : Nat} (before : lo' ≤ lo) (h : Row input lo hi ts) : Row input lo' hi ts := by
  cases h with
  | nil ordered inside => exact .nil (Nat.le_trans before ordered) inside
  | cons after nonempty inner behind => exact .cons (Nat.le_trans before after) nonempty inner behind

theorem append (h : Row input lo mid ts) (h' : Row input mid hi us) : Row input lo hi (ts ++ us) := by
  induction h with
  | nil ordered => exact h'.mono_left ordered
  | cons after nonempty inner _ _ ih => exact .cons after nonempty inner (ih h')

/-- What takes up some tokens becomes one tree. -/
theorem enclose (h : Row input lo hi ts) (some : lo < hi) : Row input lo hi [.node (input.spanOf lo hi) ts] :=
  .cons (Nat.le_refl lo) some h (.nil (Nat.le_refl hi) h.le_size)

/-- The trees behind the first may be others that lie where they do. -/
theorem tail (h : Row input lo hi (t :: ts)) (f : ∀ {mid : Nat}, Row input mid hi ts → Row input mid hi us) :
    Row input lo hi (t :: us) := by
  cases h with
  | cons after nonempty inner behind => exact .cons after nonempty inner (f behind)

/-- The parts of a tree take its place. -/
theorem unwrap {span : Span} (h : Row input lo hi (.node span children :: rest)) : Row input lo hi (children ++ rest) := by
  cases h with
  | cons after _ inner behind => exact (inner.append behind).mono_left after

/-- The same for the second of two trees. -/
theorem unwrap_second {span : Span} (h : Row input lo hi (t :: .node span children :: rest)) :
    Row input lo hi (t :: (children ++ rest)) :=
  h.tail unwrap

/--
**Two neighbours become one tree**, from where the first begins to where the second ends. Its parts may be anything that
lies where the two do.
-/
theorem join (h : Row input lo hi (t :: u :: rest))
    (inner : ∀ {i j : Nat}, Row input i j [t, u] → Row input i j children) :
    Row input lo hi (.node ⟨t.span.start, u.span.stop⟩ children :: rest) := by
  cases h with
  | @cons _ i j _ _ _ after first left behind =>
    cases behind with
    | @cons _ k l _ _ _ between second right behind =>
      have ends : Row input l l [] := .nil (Nat.le_refl l) (Nat.le_trans behind.le behind.le_size)
      have both := inner (.cons (Nat.le_refl i) first left (.cons between second right ends))
      have whole : i < l := by omega
      rw [SpanTree.span, SpanTree.span, input.spanOf_eq first, input.spanOf_eq second, ← input.spanOf_eq whole]
      exact .cons after whole both behind

end Row

/-- Where the first trees are a row, the others are one. -/
def Makes (ts us : List SpanTree) : Prop := ∀ {input : Input} {lo hi : Nat}, Row input lo hi ts → Row input lo hi us

/-! ### Parsers -/

/--
What a parser reads is a row of trees that are related to its value. It consists of a number of tokens at least, of which
only whether it is zero matters.
-/
def Lays {α : Type} (n : Nat) (p : Parser α) (P : List SpanTree → α → Prop) : Prop :=
  ∀ input pos a stop alt, pos ≤ input.lexemes.size → p input pos = .ok a stop alt →
    pos + n ≤ stop ∧ ∃ ts, Row input pos stop ts ∧ P ts a

theorem Input.tokenAt?_lt {input : Input} {pos : Nat} {t : Token} (h : input.tokenAt? pos = some t) :
    pos < input.lexemes.size := by
  rw [Input.tokenAt?, Option.map_eq_some_iff] at h
  obtain ⟨l, there, -⟩ := h
  exact (Array.getElem?_eq_some_iff.1 there).1

namespace Lays

variable {α β : Type} {m n : Nat} {p q : Parser α} {P : List SpanTree → α → Prop} {R : List SpanTree → β → Prop}

theorem weaken (hp : Lays n p P) (h : m ≤ n) : Lays m p P := by
  intro input pos a stop alt inside read
  obtain ⟨enough, row⟩ := hp input pos a stop alt inside read
  exact ⟨by omega, row⟩

theorem mono {P' : List SpanTree → α → Prop} (hp : Lays n p P) (h : ∀ ts a, P ts a → P' ts a) : Lays n p P' := by
  intro input pos a stop alt inside read
  obtain ⟨enough, ts, row, ha⟩ := hp input pos a stop alt inside read
  exact ⟨enough, ts, row, h ts a ha⟩

theorem pure {a : α} (h : P [] a) : Lays 0 (Pure.pure a) P := by
  rintro input pos b stop alt inside ⟨⟩
  exact ⟨Nat.le_refl pos, [], .nil (Nat.le_refl pos) inside, h⟩

/-- The trees of the first parser stand before those of the second. -/
theorem andThen {f : α → Parser β} (hp : Lays n p P) (hf : ∀ ts a, P ts a → Lays m (f a) fun us b => R (ts ++ us) b) :
    Lays (n + m) (p >>= f) R := by
  intro input pos b stop alt inside h
  change Parser.andThen p f input pos = _ at h
  simp only [Parser.andThen] at h
  cases first : p input pos with
  | fail e => simp [first] at h
  | ok a mid alt₁ =>
    rw [first] at h
    obtain ⟨enough, ts, left, ha⟩ := hp input pos a mid alt₁ inside first
    cases second : f a input mid with
    | fail e => simp [second] at h
    | ok b' stop' alt₂ =>
      simp only [second, Outcome.ok.injEq] at h
      obtain ⟨rfl, rfl, -⟩ := h
      obtain ⟨more, us, right, hb⟩ := hf ts a ha input mid b' stop' alt₂ left.le_size second
      exact ⟨by omega, ts ++ us, left.append right, hb⟩

variable {trees : α → List SpanTree}

theorem remake (hp : Lays n p fun ts a => Makes ts (trees a)) : Lays n p fun ts a => ts = trees a := by
  intro input pos a stop alt inside read
  obtain ⟨enough, ts, row, makes⟩ := hp input pos a stop alt inside read
  exact ⟨enough, trees a, makes row, rfl⟩

/-- The same where the trees are told by the value, and the first parser takes the tokens that matter. -/
theorem bind {f : α → Parser β} (hp : Lays n p fun ts a => ts = trees a)
    (hf : ∀ a, Lays m (f a) fun us b => R (trees a ++ us) b) : Lays n (p >>= f) R :=
  (hp.andThen fun _ a ha => by
    subst ha
    exact hf a).weaken (Nat.le_add_right n m)

/-- The same where the second parser takes the tokens that matter. -/
theorem bind_right {f : α → Parser β} (hp : Lays m p fun ts a => ts = trees a)
    (hf : ∀ a, Lays n (f a) fun us b => R (trees a ++ us) b) : Lays n (p >>= f) R :=
  (hp.andThen fun _ a ha => by
    subst ha
    exact hf a).weaken (Nat.le_add_left n m)

theorem map {f : α → β} (hp : Lays n p fun ts a => ts = trees a) (hf : ∀ a, R (trees a) (f a)) : Lays n (f <$> p) R := by
  show Lays n (p >>= fun a => Pure.pure (f a)) R
  exact hp.bind fun a => pure (by rw [List.append_nil]; exact hf a)

theorem accept {f : Token → Option α} (h : ∀ t a, f t = some a → P [] a) : Lays 1 (Parser.accept f) P := by
  intro input pos a stop alt _ read
  simp only [Parser.accept] at read
  cases there : input.tokenAt? pos with
  | none => simp [there] at read
  | some t =>
    rw [there, Option.bind_some] at read
    cases taken : f t with
    | none => simp [taken] at read
    | some b =>
      simp only [taken, Outcome.ok.injEq] at read
      obtain ⟨rfl, rfl, -⟩ := read
      exact ⟨Nat.le_refl (pos + 1), [], .nil (Nat.le_succ pos) (Input.tokenAt?_lt there), h t b taken⟩

theorem token {t : Token} : Lays 1 (Parser.token t) fun ts _ => ts = [] := by
  intro input pos a stop alt _ read
  simp only [Parser.token] at read
  split at read
  · rename_i there
    cases read
    exact ⟨Nat.le_refl (pos + 1), [], .nil (Nat.le_succ pos) (Input.tokenAt?_lt there), rfl⟩
  · cases read

theorem endOfInput : Lays 0 Parser.endOfInput fun ts _ => ts = [] := by
  intro input pos a stop alt inside read
  simp only [Parser.endOfInput] at read
  split at read
  · cases read
  · cases read
    exact ⟨Nat.le_refl pos, [], .nil (Nat.le_refl pos) inside, rfl⟩

theorem orElse (hp : Lays n p P) (hq : Lays n q P) : Lays n (Parser.orElse p q) P := by
  intro input pos a stop alt inside h
  simp only [Parser.orElse] at h
  cases first : p input pos with
  | ok b s al =>
    rw [first] at h
    exact hp input pos a stop alt inside (first.trans h)
  | fail e =>
    rw [first] at h
    cases second : q input pos with
    | ok b s al =>
      rw [second] at h
      exact hq input pos a stop alt inside (second.trans h)
    | fail e' => simp [second] at h

theorem choice {ps : List (Parser α)} (h : ∀ q ∈ ps, Lays n q P) : Lays n (Parser.choice ps) P := by
  have key : ∀ failed, Lays n (Parser.firstOf failed ps) P := by
    induction ps with
    | nil =>
      intro failed input pos a stop alt _ read
      simp [Parser.firstOf] at read
    | cons q ps ih =>
      rw [List.forall_mem_cons] at h
      intro failed input pos a stop alt inside read
      simp only [Parser.firstOf] at read
      cases first : q input pos with
      | ok b s al =>
        rw [first] at read
        exact h.1 input pos a stop alt inside (first.trans read)
      | fail e =>
        rw [first] at read
        exact ih h.2 _ input pos a stop alt inside read
  exact key none

theorem maybe (hp : Lays n p fun ts a => ts = trees a) :
    Lays 0 (Parser.maybe p) fun ts o => ts = o.toList.flatMap trees := by
  intro input pos o stop alt inside h
  simp only [Parser.maybe] at h
  cases read : p input pos with
  | ok a s al =>
    simp only [read, Outcome.ok.injEq] at h
    obtain ⟨rfl, rfl, -⟩ := h
    obtain ⟨-, _, row, rfl⟩ := hp input pos a s al inside read
    exact ⟨row.le, trees a, row, (List.append_nil _).symm⟩
  | fail e =>
    simp only [read, Outcome.ok.injEq] at h
    obtain ⟨rfl, rfl, -⟩ := h
    exact ⟨Nat.le_refl pos, [], .nil (Nat.le_refl pos) inside, rfl⟩

/-- What was read becomes one tree with its span. -/
theorem spanned (hp : Lays 1 p fun ts a => ts = trees a) :
    Lays 1 (Parser.spanned p) fun ts r => ts = [.node r.1 (trees r.2)] := by
  intro input pos r stop alt inside hr
  simp only [Parser.spanned] at hr
  cases read : p input pos with
  | fail e => simp [read] at hr
  | ok a s al =>
    simp only [read, Outcome.ok.injEq] at hr
    obtain ⟨rfl, rfl, -⟩ := hr
    obtain ⟨enough, _, row, rfl⟩ := hp input pos a s al inside read
    exact ⟨enough, _, row.enclose enough, rfl⟩

/-- What was checked may become one tree with its span. -/
theorem check {f : α → Span → Except (String × Span) β} (hp : Lays 1 p fun ts a => ts = trees a)
    (h : ∀ s a b, f a s = .ok b → R [.node s (trees a)] b ∨ R (trees a) b) : Lays 1 (Parser.check p f) R := by
  intro input pos b stop alt inside hb
  simp only [Parser.check] at hb
  cases read : p input pos with
  | fail e => simp [read] at hb
  | ok a s al =>
    rw [read] at hb
    cases checked : f a (input.spanOf pos s) with
    | error e => simp [checked] at hb
    | ok b' =>
      simp only [checked, Outcome.ok.injEq] at hb
      obtain ⟨rfl, rfl, -⟩ := hb
      obtain ⟨enough, _, row, rfl⟩ := hp input pos a s al inside read
      rcases h _ a b' checked with whole | parts
      · exact ⟨enough, _, row.enclose enough, whole⟩
      · exact ⟨enough, _, row, parts⟩

/-! ### Repetition -/

/-- What a repetition has found so far is a row, and stays one while it goes on. -/
theorem repeatFrom {Q : List SpanTree → List α → Prop} (hp : Lays n p P)
    (step : ∀ ts as us a, Q ts as → P us a → Q (ts ++ us) (as ++ [a])) {input : Input} {start : Nat} (fuel : Nat)
    (found : List α) (pos : Nat) (alt : Option Failure) {as : List α} {stop : Nat} {alt' : Option Failure}
    {ts : List SpanTree} (row : Row input start pos ts) (known : Q ts found.reverse)
    (h : Parser.repeatFrom p input fuel found pos alt = .ok as stop alt') : ∃ us, Row input start stop us ∧ Q us as := by
  induction fuel generalizing found pos alt ts with
  | zero =>
    cases h
    exact ⟨ts, row, known⟩
  | succ fuel ih =>
    simp only [Parser.repeatFrom] at h
    cases read : p input pos with
    | fail e =>
      simp only [read, Outcome.ok.injEq] at h
      obtain ⟨rfl, rfl, -⟩ := h
      exact ⟨ts, row, known⟩
    | ok a mid al =>
      simp only [read] at h
      obtain ⟨-, us, next, ha⟩ := hp input pos a mid al row.le_size read
      refine ih (a :: found) mid _ (row.append next) ?_ h
      rw [List.reverse_cons]
      exact step ts _ us a known ha

theorem many_of {Q : List SpanTree → List α → Prop} (hp : Lays n p P) (nil : Q [] [])
    (step : ∀ ts as us a, Q ts as → P us a → Q (ts ++ us) (as ++ [a])) : Lays 0 (Parser.many p) Q := by
  intro input pos as stop alt inside h
  obtain ⟨us, row, has⟩ := repeatFrom hp step _ [] pos none (.nil (Nat.le_refl pos) inside) nil h
  exact ⟨row.le, us, row, has⟩

theorem many (hp : Lays n p fun ts a => ts = trees a) : Lays 0 (Parser.many p) fun ts as => ts = as.flatMap trees :=
  hp.many_of rfl fun ts as us a hts hus => by simp [hts, hus]

variable {sep : Parser Unit}

/-- The same for a repetition with separators, which leave no trees. -/
theorem separatedFrom (hp : Lays n p fun ts a => ts = trees a) (hsep : Lays m sep fun ts _ => ts = []) {input : Input}
    {start : Nat} (fuel : Nat) (found : List α) (pos : Nat) (alt : Option Failure) {as : List α} {stop : Nat}
    {alt' : Option Failure} {e : Failure} (row : Row input start pos (found.reverse.flatMap trees))
    (h : Parser.separatedFrom p sep input fuel found pos alt = (as, stop, alt', e)) :
    Row input start stop (as.reverse.flatMap trees) := by
  induction fuel generalizing found pos alt with
  | zero =>
    cases h
    exact row
  | succ fuel ih =>
    simp only [Parser.separatedFrom] at h
    cases gap : sep input pos with
    | fail f =>
      simp only [gap, Prod.mk.injEq] at h
      obtain ⟨rfl, rfl, -, -⟩ := h
      exact row
    | ok u mid al =>
      simp only [gap] at h
      obtain ⟨-, _, between, rfl⟩ := hsep input pos u mid al row.le_size gap
      cases read : p input mid with
      | fail f =>
        simp only [read, Prod.mk.injEq] at h
        obtain ⟨rfl, rfl, -, -⟩ := h
        exact row
      | ok a next al' =>
        simp only [read] at h
        obtain ⟨-, _, item, rfl⟩ := hp input mid a next al' between.le_size read
        refine ih (a :: found) next _ ?_ h
        simpa using row.append (between.append item)

theorem separated1 (hp : Lays n p fun ts a => ts = trees a) (hsep : Lays m sep fun ts _ => ts = []) :
    Lays 0 (Parser.separated1 p sep) fun ts as => ts = as.flatMap trees := by
  intro input pos as stop alt inside h
  simp only [Parser.separated1] at h
  cases read : p input pos with
  | fail e => simp [read] at h
  | ok a mid al =>
    simp only [read] at h
    obtain ⟨-, _, row, rfl⟩ := hp input pos a mid al inside read
    cases more : Parser.separatedFrom p sep input (input.lexemes.size + 1 - pos) [a] mid al with
    | mk found r =>
      obtain ⟨stop', al', e⟩ := r
      simp only [more, Outcome.ok.injEq] at h
      obtain ⟨rfl, rfl, -⟩ := h
      have whole := separatedFrom hp hsep _ [a] mid al (by simpa using row) more
      exact ⟨whole.le, _, whole, rfl⟩

theorem separatedTrailing (hp : Lays n p fun ts a => ts = trees a) (hsep : Lays m sep fun ts _ => ts = []) :
    Lays 0 (Parser.separatedTrailing p sep) fun ts as => ts = as.flatMap trees := by
  intro input pos as stop alt inside h
  simp only [Parser.separatedTrailing] at h
  cases read : p input pos with
  | fail e =>
    simp only [read, Outcome.ok.injEq] at h
    obtain ⟨rfl, rfl, -⟩ := h
    exact ⟨Nat.le_refl pos, [], .nil (Nat.le_refl pos) inside, rfl⟩
  | ok a mid al =>
    simp only [read] at h
    obtain ⟨-, _, row, rfl⟩ := hp input pos a mid al inside read
    cases more : Parser.separatedFrom p sep input (input.lexemes.size + 1 - pos) [a] mid al with
    | mk found r =>
      obtain ⟨stop', al', e⟩ := r
      simp only [more] at h
      have whole := separatedFrom hp hsep _ [a] mid al (by simpa using row) more
      cases gap : sep input stop' with
      | fail f =>
        simp only [gap, Outcome.ok.injEq] at h
        obtain ⟨rfl, rfl, -⟩ := h
        exact ⟨whole.le, _, whole, rfl⟩
      | ok u stop'' al'' =>
        simp only [gap, Outcome.ok.injEq] at h
        obtain ⟨rfl, rfl, -⟩ := h
        obtain ⟨-, _, after, rfl⟩ := hsep input stop' u stop'' al'' whole.le_size gap
        have closed := whole.append after
        exact ⟨closed.le, _, closed, List.append_nil _⟩

theorem between {o c : Mark} (hp : Lays n p fun ts a => ts = trees a) :
    Lays 1 (Parser.between o c p) fun ts a => ts = trees a :=
  token.bind fun _ => hp.bind fun _ => token.bind fun _ => pure (List.append_nil _)

end Lays

end Staging
