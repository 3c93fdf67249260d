import RQuery.Sql.ParserCorrect

/-!
# The strata of expressions

`Derives calls n e ts` says that the tokens `ts` are a derivation of `e` in the grammar with one
nonterminal for each kind of operators, every one of them left associative:

  disjunction < conjunction < comparison < sum < product < primary

Over the tokens of such expressions, with no parenthesis directly behind an identifier or another
parenthesis, what the parser reads at a precedence is a derivation from the operators above it
(`parse_derives`), if a `*` in the place of an operand can be called. Without that it is not:
`* ( a )` is read as a call of `*` (`starCall_not_derives`).
-/

namespace RQuery

open TokenStream SqlParser

/-! ## The grammar -/

/-- The nonterminals, from the loosest operators on. -/
inductive Stratum
  | disjunction
  | conjunction
  | comparison
  | sum
  | product
  | primary
  deriving DecidableEq

namespace Stratum

def next : Stratum → Stratum
  | disjunction => conjunction
  | conjunction => comparison
  | comparison => sum
  | sum => product
  | product => primary
  | primary => primary

def rank : Stratum → ℕ
  | disjunction => 0
  | conjunction => 1
  | comparison => 2
  | sum => 3
  | product => 4
  | primary => 5

/-- Strata are told apart by their ranks. -/
theorem rank_injective {m n : Stratum} (h : m.rank = n.rank) : m = n := by
  cases m <;> cases n <;> first | rfl | cases h

/-- The next stratum ranks one higher. -/
theorem rank_next {n : Stratum} (h : n ≠ primary) : n.next.rank = n.rank + 1 := by
  cases n <;> first | rfl | exact absurd rfl h

/-- The loosest operators that bind tighter than a precedence. -/
def above (p : ℕ) : Stratum :=
  if p < 20 then disjunction
  else if p < 30 then conjunction
  else if p < 40 then comparison
  else if p < 50 then sum
  else if p < 60 then product
  else primary

/-- Primary expressions rank highest. -/
theorem rank_le_primary (n : Stratum) : n.rank ≤ primary.rank := by
  cases n <;> decide

/-- What binds tighter is in a higher stratum. -/
theorem rank_above_mono {p q : ℕ} (h : p ≤ q) : (above p).rank ≤ (above q).rank := by
  unfold above
  repeat' split
  all_goals first | decide | omega

end Stratum

/-- The operators of a stratum. -/
def TokenType.stratum : TokenType → Option Stratum
  | .keyword .or => some .disjunction
  | .keyword .and => some .conjunction
  | .symbol s =>
    if s ∈ [.eq, .bangEq, .lt, .ltEq, .gt, .gtEq] then some .comparison
    else if s ∈ [.plus, .sub] then some .sum
    else if s ∈ [.star, .slash] then some .product
    else none
  | _ => none

/-- The tokens that the expressions are made of. -/
def TokenType.isArithmetic (t : TokenType) : Bool :=
  t.stratum.isSome || t ∈ [.literal .identifier, .literal .long, .literal .string,
    .symbol .leftParen, .symbol .rightParen]

/-- The only names among them are the identifiers. -/
theorem TokenType.isIdentifier_of_isName {t : TokenType} (ht : t.isName = true)
    (harith : t.isArithmetic = true) : t = .literal .identifier := by
  cases t with
  | keyword k => cases k <;> first | cases ht; done | exact absurd harith (by decide)
  | symbol s => cases ht
  | literal l => cases l <;> first | rfl | cases ht

/-- An operator takes what binds tighter to its right, and to its left what binds as tight. -/
theorem TokenType.stratum_spec {t : TokenType} (ht : t.isOperator = true) (hpos : 0 < precedence t) :
    ∃ n, t.stratum = some n ∧ Stratum.above (precedence t - 1) = n ∧
      Stratum.above (precedence t) = n.next := by
  cases t with
  | keyword k =>
    cases k <;> first | exact ⟨_, rfl, by decide, by decide⟩ | cases ht
  | symbol s =>
    cases s <;> first
      | exact ⟨_, rfl, by decide, by decide⟩
      | exact absurd ht (by decide)
      | exact absurd hpos (by decide)
  | literal l => cases ht

section

variable [FloatModel]

/-- The tokens derive the expression. With `calls` a `*` can be called, like a function. -/
inductive Derives (calls : Prop) : Stratum → SqlExpr → TokenStream → Prop
  | operator {n : Stratum} {l r : SqlExpr} {t : Token} {ts us : TokenStream}
      (ht : t.tokenType.stratum = some n) (hl : Derives calls n l ts)
      (hr : Derives calls n.next r us) : Derives calls n (.binaryExpr l t.text r) (ts ++ t :: us)
  | tighter {n : Stratum} {e : SqlExpr} {ts : TokenStream} (h : Derives calls n.next e ts) :
    Derives calls n e ts
  | identifier {t : Token} (ht : t.tokenType = .literal .identifier) :
    Derives calls .primary (.identifier t.text) [t]
  | long {t : Token} {v : Int64} (ht : t.tokenType = .literal .long)
      (hv : Text.parseInt64 t.text = some v) : Derives calls .primary (.long v) [t]
  | string {t : Token} (ht : t.tokenType = .literal .string) :
    Derives calls .primary (.string t.text) [t]
  | star {t : Token} (ht : t.tokenType = .symbol .star) :
    Derives calls .primary (.identifier "*") [t]
  | paren {l r : Token} {e : SqlExpr} {ts : TokenStream} (hl : l.tokenType = .symbol .leftParen)
      (he : Derives calls .disjunction e ts) (hr : r.tokenType = .symbol .rightParen) :
    Derives calls .primary e (l :: (ts ++ [r]))
  | call {t l r : Token} {e : SqlExpr} {ts : TokenStream} (hcalls : calls)
      (ht : t.tokenType = .symbol .star) (hl : l.tokenType = .symbol .leftParen)
      (he : Derives calls .disjunction e ts) (hr : r.tokenType = .symbol .rightParen) :
    Derives calls .primary (.function "*" [e]) (t :: l :: (ts ++ [r]))
  | emptyCall {t l r : Token} (hcalls : calls) (ht : t.tokenType = .symbol .star)
      (hl : l.tokenType = .symbol .leftParen) (hr : r.tokenType = .symbol .rightParen) :
    Derives calls .primary (.function "*" []) [t, l, r]

/-- A tighter expression is one of every looser stratum. -/
theorem Derives.of_rank_le {calls : Prop} {m n : Stratum} {e : SqlExpr} {ts : TokenStream}
    (h : Derives calls m e ts) (hrank : n.rank ≤ m.rank) : Derives calls n e ts := by
  induction hd : m.rank - n.rank generalizing n with
  | zero =>
    obtain rfl : n = m := Stratum.rank_injective (by omega)
    exact h
  | succ d ih =>
    have hne : n ≠ .primary := by
      rintro rfl
      cases m <;> simp [Stratum.rank] at hd
    have hnext := Stratum.rank_next hne
    exact .tighter (ih (by omega) (by omega))

/-! ## What is read is derived -/

/-- Tokens of expressions, with no parenthesis directly behind an identifier or another one. -/
structure TokenStream.Arithmetic (ts : TokenStream) : Prop where
  tokens : ∀ t ∈ ts, t.tokenType.isArithmetic = true
  calls : ∀ t u us, t :: u :: us <:+ ts → u.tokenType = .symbol .leftParen →
    t.tokenType ≠ .literal .identifier ∧ t.tokenType ≠ .symbol .rightParen

omit [FloatModel] in
/-- The end of an arithmetic text is arithmetic. -/
theorem TokenStream.Arithmetic.suffix {ts us : TokenStream} (h : Arithmetic ts) (hus : us <:+ ts) :
    Arithmetic us where
  tokens t ht := h.tokens t (hus.subset ht)
  calls t u vs hvs := h.calls t u vs (hvs.trans hus)

/-- A parenthesis that is directly behind an identifier or another one. -/
def TokenStream.opensCall : TokenStream → Bool
  | t :: u :: us =>
    u.tokenType == .symbol .leftParen &&
      (t.tokenType == .literal .identifier || t.tokenType == .symbol .rightParen) ||
      TokenStream.opensCall (u :: us)
  | _ => false

omit [FloatModel] in
/-- A text of arithmetic tokens without a call is arithmetic. -/
theorem TokenStream.Arithmetic.of_all {ts : TokenStream}
    (htokens : ts.all (fun t => t.tokenType.isArithmetic) = true) (hcalls : ts.opensCall = false) :
    Arithmetic ts where
  tokens := List.all_eq_true.mp htokens
  calls t u us hus hu := by
    clear htokens
    induction ts with
    | nil => exact absurd (List.suffix_nil.mp hus) (List.cons_ne_nil _ _)
    | cons v vs ih =>
      rcases List.suffix_cons_iff.mp hus with heq | hus
      · obtain ⟨rfl, rfl⟩ := List.cons_eq_cons.mp heq.symm
        constructor <;> intro ht <;> simp [TokenStream.opensCall, hu, ht] at hcalls
      · refine ih ?_ hus
        cases vs with
        | nil => rfl
        | cons w ws => exact (Bool.or_eq_false_iff.mp hcalls).2

/-- What a phrase derives. An expression ends in front of the operators that are looser than its
own, and so it is of a stratum that the next operator tells. -/
def Phrase.Derived (ts rest : TokenStream) : Phrase → Prop
  | .operand e => ∃ us, ts = us ++ rest ∧ Derives True .primary e us
  | .expr level e => ∃ us, ts = us ++ rest ∧
      Derives True (Stratum.above (max level (precedenceAt rest - 1))) e us
  | .exprs es => ∃ e us, es = [e] ∧ ts = us ++ rest ∧ Derives True .disjunction e us
  | .arguments es => ∃ us r, ts = us ++ r :: rest ∧ r.tokenType = .symbol .rightParen ∧
      (es = [] ∧ us = [] ∨ ∃ e, es = [e] ∧ Derives True .disjunction e us)
  | _ => True

/-- In front of a parenthesis the only name is a `*`. -/
theorem Spells.callee {lax : Prop} {level : ℕ} {id : String} {l : Token} {ts us : TokenStream}
    (h : Spells lax (.expr level (.identifier id)) ts (l :: us)) (hts : ts.Arithmetic)
    (hl : l.tokenType = .symbol .leftParen) :
    ∃ s, s.tokenType = .symbol .star ∧ id = "*" ∧ ts = s :: l :: us := by
  cases h with
  | operand he =>
    cases he with
    | @name t _ ht =>
      have hidentifier := TokenType.isIdentifier_of_isName ht (hts.tokens t List.mem_cons_self)
      exact absurd hidentifier (hts.calls t l us (List.suffix_refl _) hl).1
    | @star t _ ht => exact ⟨t, ht, rfl, rfl⟩
    | @paren p r _ vs _ hp he hr =>
      exact absurd hr (hts.calls r l us (he.suffix.trans (List.suffix_cons p vs)) hl).2

/-- What is read of an arithmetic text is derived by the strata. -/
theorem Spells.derived {φ : Phrase} {ts rest : TokenStream} (h : Spells True φ ts rest)
    (hts : ts.Arithmetic) : φ.Derived ts rest := by
  induction h with
  -- A token of the expression is a derivation of its own.
  | @name t rest ht =>
    have hidentifier := TokenType.isIdentifier_of_isName ht (hts.tokens t List.mem_cons_self)
    exact ⟨[t], rfl, .identifier hidentifier⟩
  | @star t rest ht => exact ⟨[t], rfl, .star ht⟩
  | @string t rest ht => exact ⟨[t], rfl, .string ht⟩
  | @long t v rest ht hv => exact ⟨[t], rfl, .long ht hv⟩
  | double ht _ => exact absurd (hts.tokens _ List.mem_cons_self) (by rw [ht]; decide)
  | date hk _ | interval hk _ | cast hk _ _ _ | subselect hk _ =>
    exact absurd (hts.tokens _ List.mem_cons_self) (by rw [hk]; decide)
  | @paren l r e ts rest hl he hr ih =>
    obtain ⟨us, rfl, hderives⟩ := ih (hts.suffix (List.suffix_cons l ts))
    rw [precedenceAt_cons, hr] at hderives
    exact ⟨l :: (us ++ [r]), by simp, .paren hl hderives hr⟩
  | operand _ ih =>
    obtain ⟨us, hus, hderives⟩ := ih hts
    exact ⟨us, hus, hderives.of_rank_le (Stratum.rank_le_primary _)⟩
  | @binary level l r t ts us rest hl ht hlevel hr hrest ihl ihr =>
    have hus : us <:+ ts := (List.suffix_cons t us).trans hl.suffix
    obtain ⟨ls, rfl, hleft⟩ := ihl hts
    obtain ⟨rs, rfl, hright⟩ := ihr (hts.suffix hus)
    obtain ⟨n, hn, hsame, hnext⟩ := TokenType.stratum_spec ht (Nat.zero_lt_of_lt hlevel)
    -- The left operand was read at the level of the operator or above, the right one strictly
    -- above.
    rw [precedenceAt_cons, Nat.max_eq_right (by omega), hsame] at hleft
    rw [Nat.max_eq_left (by omega), hnext] at hright
    refine ⟨ls ++ t :: rs, by simp, (Derives.operator hn hleft hright).of_rank_le ?_⟩
    rw [← hsame]
    exact Stratum.rank_above_mono (by omega)
  | aliased he ht _ _ _ _ _ =>
    exact absurd (hts.tokens _ (he.suffix.subset List.mem_cons_self)) (by rw [ht]; decide)
  | ascending he ht _ _ | descending he ht _ _ =>
    exact absurd (hts.tokens _ (he.suffix.subset List.mem_cons_self)) (by rw [ht]; decide)
  | @call level id args l ts us rest hid hl hlevel hargs _ ihargs =>
    have hus : us <:+ ts := (List.suffix_cons l us).trans hid.suffix
    -- The only call without a named function is the one of the star.
    obtain ⟨s, hs, rfl, rfl⟩ : ∃ s, s.tokenType = .symbol .star ∧ id = "*" ∧ ts = s :: l :: us :=
      hid.callee hts hl
    obtain ⟨vs, r, rfl, hr, hcase⟩ := ihargs (hts.suffix hus)
    refine ⟨s :: l :: (vs ++ [r]), by simp, Derives.of_rank_le ?_ (Stratum.rank_le_primary _)⟩
    rcases hcase with ⟨rfl, rfl⟩ | ⟨e, rfl, hderives⟩
    · exact .emptyCall trivial hs hl hr
    · exact .call trivial hs hl hderives hr
  | @noArguments r rest hr => exact ⟨[], r, rfl, hr, .inl ⟨rfl, rfl⟩⟩
  | @arguments es r ts rest _ hr ih =>
    obtain ⟨e, us, rfl, rfl, hderives⟩ := ih hts
    exact ⟨us, r, rfl, hr, .inr ⟨e, rfl, hderives⟩⟩
  | @last e ts rest _ hrest _ ih =>
    obtain ⟨us, rfl, hderives⟩ := ih hts
    rw [hrest] at hderives
    exact ⟨e, us, rfl, rfl, hderives⟩
  -- A comma is no arithmetic token, so there is one argument at most.
  | cons he hc _ _ _ | comma _ he hc _ =>
    exact absurd (hts.tokens _ (he.suffix.subset List.mem_cons_self)) (by rw [hc]; decide)
  | _ => trivial

/-- What is read at a precedence is derived from the operators above it, and all that is there of
it is read. -/
theorem parse_derives {p : ℕ} {e : SqlExpr} {ts rest : TokenStream} (hts : ts.Arithmetic)
    (h : parse p ts = .ok (some e, rest)) :
    ∃ consumed, ts = consumed ++ rest ∧ Derives True (Stratum.above p) e consumed ∧
      precedenceAt rest ≤ p := by
  obtain ⟨hspells, hrest⟩ := parse_eq_ok_iff.mp h
  obtain ⟨us, hus, hderives⟩ := hspells.derived hts
  exact ⟨us, hus, hderives.of_rank_le (Stratum.rank_above_mono (Nat.le_max_left _ _)), hrest⟩

/-- Where nothing can be called there are no functions. -/
theorem Derives.not_function {n : Stratum} {e : SqlExpr} {ts : TokenStream}
    (h : Derives False n e ts) (id : String) (args : List SqlExpr) : e ≠ .function id args := by
  induction h with
  | tighter _ ih => exact ih
  | paren _ _ _ ih => exact ih
  | call hcalls _ _ _ _ => exact hcalls.elim
  | emptyCall hcalls _ _ _ => exact hcalls.elim
  | operator _ _ _ _ _ | identifier _ | long _ _ | string _ | star _ => exact nofun

end

section

attribute [local instance] integerFloats

/-- The tokens of `a - 1 - 2 * b`. -/
def chainTokens : TokenStream :=
  [⟨"a", .literal .identifier, 1⟩, ⟨"-", .symbol .sub, 3⟩, ⟨"1", .literal .long, 5⟩,
    ⟨"-", .symbol .sub, 7⟩, ⟨"2", .literal .long, 9⟩, ⟨"*", .symbol .star, 11⟩,
    ⟨"b", .literal .identifier, 13⟩]

/-- The derivation of a chain of operators. -/
theorem parse_derives_chain :
    ∃ consumed, chainTokens = consumed ++ [] ∧
      Derives True .disjunction
        (.binaryExpr (.binaryExpr (.identifier "a") "-" (.long 1)) "-"
          (.binaryExpr (.long 2) "*" (.identifier "b"))) consumed ∧ precedenceAt [] ≤ 0 :=
  parse_derives (p := 0) (Arithmetic.of_all rfl rfl : chainTokens.Arithmetic) rfl

/-- The tokens of `* ( a )`. -/
def starCallTokens : TokenStream :=
  [⟨"*", .symbol .star, 1⟩, ⟨"(", .symbol .leftParen, 3⟩, ⟨"a", .literal .identifier, 5⟩,
    ⟨")", .symbol .rightParen, 7⟩]

/-- A `*` in front of a parenthesis is called, and no operator makes a call. -/
theorem starCall_not_derives :
    ¬ ∀ (p : ℕ) (e : SqlExpr) (ts rest : TokenStream), ts.Arithmetic →
      parse p ts = .ok (some e, rest) → ∃ consumed, ts = consumed ++ rest ∧
        Derives False (Stratum.above p) e consumed ∧ precedenceAt rest ≤ p := by
  intro h
  obtain ⟨us, -, hderives, -⟩ := h 0 (.function "*" [.identifier "a"]) starCallTokens []
    (Arithmetic.of_all rfl rfl) rfl
  exact hderives.not_function _ _ rfl

end

end RQuery
