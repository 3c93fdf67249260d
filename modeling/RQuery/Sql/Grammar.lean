import RQuery.Sql.Parser

/-!
# The grammar of SQL

`Spells φ ts rest` says that the front of the tokens `ts` spells the phrase `φ` and leaves `rest`. It
is an operator-precedence grammar: the operators of an expression bind tighter than its level, the
right operand of an operator takes every tighter one, and what follows an operand binds no tighter.

With `lax` the grammar is what the parser reads: a clause with nothing behind it at the end of the
text counts as absent, and a comma there is passed over.
-/

namespace RQuery

/-! ## Steps of a parser -/

namespace Parser

/-- Parsers in a sequence: the second one works on what the first one has left. -/
theorem bind_apply {α β : Type} (x : Parser α) (f : α → Parser β) (ts : TokenStream) :
    (x >>= f) ts = (x ts >>= fun r => f r.1 r.2) := rfl

/-- A sequence of parsers returns if both do. -/
theorem bind_eq_ok_iff {α β : Type} {x : Parser α} {f : α → Parser β} {ts : TokenStream}
    {r : β × TokenStream} :
    (x >>= f) ts = .ok r ↔ ∃ a us, x ts = .ok (a, us) ∧ f a us = .ok r := by
  rw [bind_apply, Outcome.bind_eq_ok_iff, Prod.exists]

@[simp] theorem pure_apply {α : Type} (a : α) (ts : TokenStream) :
    (pure a : Parser α) ts = .ok (a, ts) := rfl

@[simp] theorem throw_apply {α : Type} (e : Panic) (ts : TokenStream) :
    (throw e : Parser α) ts = .error e := rfl

@[simp] theorem get_apply (ts : TokenStream) : (get : Parser TokenStream) ts = .ok (ts, ts) := rfl

@[simp] theorem set_apply (us ts : TokenStream) : (set us : Parser PUnit) ts = .ok (⟨⟩, us) := rfl

/-- A result is returned in front of the whole text. -/
@[simp] theorem lift_apply {α : Type} (x : Result α) (ts : TokenStream) :
    (liftM x : Parser α) ts = (x >>= fun a => pure (a, ts)) := rfl

/-- A function of the result takes nothing. -/
theorem map_apply {α β : Type} (f : α → β) (x : Parser α) (ts : TokenStream) :
    (f <$> x) ts = (x ts >>= fun r => pure (f r.1, r.2)) := rfl

/-- A function of the result leaves what the parser left. -/
theorem map_eq_ok_iff {α β : Type} {x : Parser α} {f : α → β} {ts rest : TokenStream} {b : β} :
    (f <$> x) ts = .ok (b, rest) ↔ ∃ a, x ts = .ok (a, rest) ∧ f a = b := by
  rw [map_apply, Outcome.bind_eq_ok_iff, Prod.exists]
  constructor
  · rintro ⟨a, us, ha, h⟩
    cases h
    exact ⟨a, ha, rfl⟩
  · rintro ⟨a, ha, rfl⟩
    exact ⟨a, rest, ha, rfl⟩

end Parser

namespace TokenStream

/-- Looking at the next token takes none. -/
@[simp] theorem peekType_apply (ts : TokenStream) :
    peekType ts = .ok (ts.head?.map Token.tokenType, ts) := rfl

/-- The next token is taken, if there is one. -/
@[simp] theorem next_apply (ts : TokenStream) : next ts = .ok (ts.head?, ts.tail) := rfl

/-- The token that is expected is in front, and taken. -/
theorem expectTokenType_eq_ok_iff {t : TokenType} {message : String} {ts rest : TokenStream} :
    expectTokenType t message ts = .ok (⟨⟩, rest) ↔
      ∃ token, token.tokenType = t ∧ ts = token :: rest := by
  obtain _ | ⟨token, ts⟩ := ts
  · exact ⟨fun h => (by cases h), fun ⟨_, _, h⟩ => (by cases h)⟩
  · by_cases ht : token.tokenType = t
    · simp [expectTokenType, consumeTokenType, Parser.bind_apply, Parser.map_apply, ht]
    · simp [expectTokenType, consumeTokenType, Parser.bind_apply, ht]

/-- Whether the token is a keyword with this text. -/
def isKeyword (token : Token) (s : String) : Bool :=
  match token.tokenType with
  | .keyword _ => Text.eqIgnoreAsciiCase token.text s
  | _ => false

/-- The tokens behind a sequence of keywords. -/
def behind : List String → TokenStream → Option TokenStream
  | [], ts => some ts
  | _ :: _, [] => none
  | s :: keywords, token :: ts => if isKeyword token s then behind keywords ts else none

/-- A keyword is taken if it is in front. -/
theorem consumeKeyword_apply (s : String) (ts : TokenStream) :
    consumeKeyword s ts =
      match behind [s] ts with
      | some us => .ok (true, us)
      | none => .ok (false, ts) := by
  obtain _ | ⟨⟨text, tokenType, endOffset⟩, ts⟩ := ts
  · rfl
  · cases tokenType with
    | keyword k =>
      by_cases h : Text.eqIgnoreAsciiCase text s
      · simp [consumeKeyword, Parser.bind_apply, Parser.map_apply, behind, isKeyword, h]
      · simp [consumeKeyword, Parser.bind_apply, behind, isKeyword, h]
    | symbol k => rfl
    | literal k => rfl

/-- Keywords are taken if all of them are in front. -/
theorem consumeKeywords_apply (keywords : List String) (ts : TokenStream) :
    consumeKeywords keywords ts =
      match behind keywords ts with
      | some us => .ok (true, us)
      | none => .ok (false, ts) := by
  have hall : ∀ us : TokenStream, ∃ vs, keywords.allM consumeKeyword us =
      match behind keywords us with
      | some us => .ok (true, us)
      -- A call that stops at a later keyword has already taken the earlier ones.
      | none => .ok (false, vs) := by
    induction keywords with
    | nil => exact fun us => ⟨us, rfl⟩
    | cons s keywords ih =>
      intro us
      rw [List.allM, Parser.bind_apply, consumeKeyword_apply]
      obtain _ | ⟨token, us⟩ := us
      · exact ⟨[], rfl⟩
      · by_cases h : isKeyword token s
        · obtain ⟨vs, hvs⟩ := ih us
          exact ⟨vs, by simpa [behind, h] using hvs⟩
        · exact ⟨token :: us, by simp [behind, h]⟩
  obtain ⟨vs, hvs⟩ := hall ts
  rw [consumeKeywords, Parser.bind_apply, Parser.get_apply, Outcome.ok_bind, Parser.bind_apply, hvs]
  cases behind keywords ts <;> rfl

end TokenStream

/-! ## The grammar -/

open TokenStream

namespace SqlParser

/-- How tight the first token binds as an infix operator. -/
def precedenceAt (ts : TokenStream) : ℕ := (ts.head?.map fun t => precedence t.tokenType).getD 0

@[simp] theorem precedenceAt_nil : precedenceAt [] = 0 := rfl

@[simp] theorem precedenceAt_cons (t : Token) (ts : TokenStream) :
    precedenceAt (t :: ts) = precedence t.tokenType := rfl

/-- Looking at the next operator takes nothing. -/
theorem nextPrecedence_apply (ts : TokenStream) :
    nextPrecedence ts = .ok (precedenceAt ts, ts) := by
  cases ts <;> rfl

end SqlParser

open SqlParser

/-- The tokens that stand for a name: identifiers, and the keywords that the parser reads as one. -/
def TokenType.isName : TokenType → Bool
  | .literal .identifier => true
  | .keyword k => k ∈ [.min, .max, .sum, .avg, .count, .int, .double]
  | _ => false

/-- The two-operand operators. `<>` is one without a precedence. -/
def TokenType.isOperator : TokenType → Bool
  | .symbol s => s ∈ [.plus, .sub, .star, .slash, .eq, .gt, .lt, .gtEq, .ltEq, .bangEq, .ltGt]
  | .keyword k => k ∈ [.and, .or]
  | _ => false

variable [FloatModel]

/-- What a part of a statement can be. -/
inductive Phrase
  /-- An expression that starts the parse of one. -/
  | operand (e : SqlExpr)
  /-- An expression whose operators bind tighter than `level`. -/
  | expr (level : ℕ) (e : SqlExpr)
  /-- The arguments of a function, up to the right parenthesis. -/
  | arguments (es : List SqlExpr)
  /-- Expressions with commas between them, at least one. -/
  | exprs (es : List SqlExpr)
  /-- A clause with an expression, if it is there. -/
  | condition (keywords : List String) (e : Option SqlExpr)
  /-- A clause with a list of expressions, empty if it is not there. -/
  | listing (keywords : List String) (es : List SqlExpr)
  | limit (n : Option Int32)
  /-- A statement, behind `SELECT`. -/
  | select (s : SqlSelect)

/-- The front of the first tokens spells the phrase and leaves the second. -/
inductive Spells (lax : Prop) : Phrase → TokenStream → TokenStream → Prop
  | name {t : Token} {rest : TokenStream} (ht : t.tokenType.isName) :
    Spells lax (.operand (.identifier t.text)) (t :: rest) rest
  | star {t : Token} {rest : TokenStream} (ht : t.tokenType = .symbol .star) :
    Spells lax (.operand (.identifier "*")) (t :: rest) rest
  | string {t : Token} {rest : TokenStream} (ht : t.tokenType = .literal .string) :
    Spells lax (.operand (.string t.text)) (t :: rest) rest
  | long {t : Token} {v : Int64} {rest : TokenStream} (ht : t.tokenType = .literal .long)
      (hv : Text.parseInt64 t.text = some v) : Spells lax (.operand (.long v)) (t :: rest) rest
  | double {t : Token} {v : F64} {rest : TokenStream} (ht : t.tokenType = .literal .double)
      (hv : FloatModel.double.parse t.text = some v) :
    Spells lax (.operand (.double v)) (t :: rest) rest
  | date {k t : Token} {rest : TokenStream} (hk : k.tokenType = .keyword .date)
      (ht : t.tokenType = .literal .string) :
    Spells lax (.operand (.date t.text)) (k :: t :: rest) rest
  | interval {k t : Token} {rest : TokenStream} (hk : k.tokenType = .keyword .interval)
      (ht : t.tokenType = .literal .string) :
    Spells lax (.operand (.interval t.text)) (k :: t :: rest) rest
  | paren {l r : Token} {e : SqlExpr} {ts rest : TokenStream}
      (hl : l.tokenType = .symbol .leftParen) (he : Spells lax (.expr 0 e) ts (r :: rest))
      (hr : r.tokenType = .symbol .rightParen) : Spells lax (.operand e) (l :: ts) rest
  | cast {k l r : Token} {e : SqlExpr} {dataType : String} {ts rest : TokenStream}
      (hk : k.tokenType = .keyword .cast) (hl : l.tokenType = .symbol .leftParen)
      (he : Spells lax (.expr 0 (.aliased e dataType)) ts (r :: rest))
      (hr : r.tokenType = .symbol .rightParen) :
    Spells lax (.operand (.cast e dataType)) (k :: l :: ts) rest
  | subselect {k : Token} {s : SqlSelect} {ts rest : TokenStream}
      (hk : k.tokenType = .keyword .select) (hs : Spells lax (.select s) ts rest) :
    Spells lax (.operand (.select s)) (k :: ts) rest
  | operand {level : ℕ} {e : SqlExpr} {ts rest : TokenStream}
      (he : Spells lax (.operand e) ts rest) : Spells lax (.expr level e) ts rest
  | binary {level : ℕ} {l r : SqlExpr} {t : Token} {ts us rest : TokenStream}
      (hl : Spells lax (.expr level l) ts (t :: us)) (ht : t.tokenType.isOperator)
      (hlevel : level < precedence t.tokenType)
      (hr : Spells lax (.expr (precedence t.tokenType) r) us rest)
      (hrest : precedenceAt rest ≤ precedence t.tokenType) :
    Spells lax (.expr level (.binaryExpr l t.text r)) ts rest
  | aliased {level : ℕ} {e : SqlExpr} {name : String} {t : Token} {ts us rest : TokenStream}
      (he : Spells lax (.expr level e) ts (t :: us)) (ht : t.tokenType = .keyword .as)
      (hlevel : level < 10) (hname : Spells lax (.expr 0 (.identifier name)) us rest)
      (hrest : precedenceAt rest = 0) : Spells lax (.expr level (.aliased e name)) ts rest
  | ascending {level : ℕ} {e : SqlExpr} {t : Token} {ts rest : TokenStream}
      (he : Spells lax (.expr level e) ts (t :: rest)) (ht : t.tokenType = .keyword .asc)
      (hlevel : level < 10) : Spells lax (.expr level (.sort e true)) ts rest
  | descending {level : ℕ} {e : SqlExpr} {t : Token} {ts rest : TokenStream}
      (he : Spells lax (.expr level e) ts (t :: rest)) (ht : t.tokenType = .keyword .desc)
      (hlevel : level < 10) : Spells lax (.expr level (.sort e false)) ts rest
  | call {level : ℕ} {id : String} {args : List SqlExpr} {l : Token} {ts us rest : TokenStream}
      (hid : Spells lax (.expr level (.identifier id)) ts (l :: us))
      (hl : l.tokenType = .symbol .leftParen) (hlevel : level < 70)
      (hargs : Spells lax (.arguments args) us rest) :
    Spells lax (.expr level (.function id args)) ts rest
  | noArguments {r : Token} {rest : TokenStream} (hr : r.tokenType = .symbol .rightParen) :
    Spells lax (.arguments []) (r :: rest) rest
  | arguments {es : List SqlExpr} {r : Token} {ts rest : TokenStream}
      (hes : Spells lax (.exprs es) ts (r :: rest)) (hr : r.tokenType = .symbol .rightParen) :
    Spells lax (.arguments es) ts rest
  | last {e : SqlExpr} {ts rest : TokenStream} (he : Spells lax (.expr 0 e) ts rest)
      (hrest : precedenceAt rest = 0)
      (hcomma : rest.head?.map Token.tokenType ≠ some (.symbol .comma)) :
    Spells lax (.exprs [e]) ts rest
  | cons {e : SqlExpr} {es : List SqlExpr} {c : Token} {ts us rest : TokenStream}
      (he : Spells lax (.expr 0 e) ts (c :: us)) (hc : c.tokenType = .symbol .comma)
      (hes : Spells lax (.exprs es) us rest) : Spells lax (.exprs (e :: es)) ts rest
  | comma {e : SqlExpr} {c : Token} {ts : TokenStream} (hlax : lax)
      (he : Spells lax (.expr 0 e) ts [c]) (hc : c.tokenType = .symbol .comma) :
    Spells lax (.exprs [e]) ts []
  | noCondition {keywords : List String} {ts : TokenStream} (hts : behind keywords ts = none) :
    Spells lax (.condition keywords none) ts ts
  | condition {keywords : List String} {e : SqlExpr} {ts us rest : TokenStream}
      (hts : behind keywords ts = some us) (he : Spells lax (.expr 0 e) us rest)
      (hrest : precedenceAt rest = 0) : Spells lax (.condition keywords (some e)) ts rest
  | bareCondition {keywords : List String} {ts : TokenStream} (hlax : lax)
      (hts : behind keywords ts = some []) : Spells lax (.condition keywords none) ts []
  | noListing {keywords : List String} {ts : TokenStream} (hts : behind keywords ts = none) :
    Spells lax (.listing keywords []) ts ts
  | listing {keywords : List String} {es : List SqlExpr} {ts us rest : TokenStream}
      (hts : behind keywords ts = some us) (hes : Spells lax (.exprs es) us rest) :
    Spells lax (.listing keywords es) ts rest
  | bareListing {keywords : List String} {ts : TokenStream} (hlax : lax)
      (hts : behind keywords ts = some []) : Spells lax (.listing keywords []) ts []
  | noLimit {ts : TokenStream} (hts : behind ["LIMIT"] ts = none) :
    Spells lax (.limit none) ts ts
  | limit {v : Int64} {ts us rest : TokenStream} (hts : behind ["LIMIT"] ts = some us)
      (hv : Spells lax (.expr 0 (.long v)) us rest) (hrest : precedenceAt rest = 0) :
    Spells lax (.limit (some v.toInt32)) ts rest
  | select {s : SqlSelect} {keys : List SqlExpr} {ts ts₁ ts₂ ts₃ ts₄ ts₅ ts₆ ts₇ rest : TokenStream}
      (hprojection : Spells lax (.exprs s.projection) ts ts₁)
      (hfrom : behind ["FROM"] ts₁ = some ts₂)
      (htable : Spells lax (.expr 0 (.identifier s.tableName)) ts₂ ts₃)
      (hprecedence : precedenceAt ts₃ = 0)
      (hwhere : Spells lax (.condition ["WHERE"] s.selection) ts₃ ts₄)
      (hgroup : Spells lax (.listing ["GROUP", "BY"] s.groupBy) ts₄ ts₅)
      (hhaving : Spells lax (.condition ["HAVING"] s.having) ts₅ ts₆)
      (horder : Spells lax (.listing ["ORDER", "BY"] keys) ts₆ ts₇)
      (hkeys : keys.mapM normalizeSort = .ok s.orderBy)
      (hlimit : Spells lax (.limit s.limit) ts₇ rest) : Spells lax (.select s) ts rest

/-- Passing over more. -/
theorem Spells.mono {lax lax' : Prop} (hlax : lax → lax') {φ : Phrase} {ts rest : TokenStream}
    (h : Spells lax φ ts rest) : Spells lax' φ ts rest := by
  induction h with
  -- Every rule carries over as it is; only the three lax ones ask for more than their premises.
  | name ht => exact .name ht
  | star ht => exact .star ht
  | string ht => exact .string ht
  | long ht hv => exact .long ht hv
  | double ht hv => exact .double ht hv
  | date hk ht => exact .date hk ht
  | interval hk ht => exact .interval hk ht
  | paren hl _ hr ih => exact .paren hl ih hr
  | cast hk hl _ hr ih => exact .cast hk hl ih hr
  | subselect hk _ ih => exact .subselect hk ih
  | operand _ ih => exact .operand ih
  | binary _ ht hlevel _ hrest ihl ihr => exact .binary ihl ht hlevel ihr hrest
  | aliased _ ht hlevel _ hrest ihe ihname => exact .aliased ihe ht hlevel ihname hrest
  | ascending _ ht hlevel ih => exact .ascending ih ht hlevel
  | descending _ ht hlevel ih => exact .descending ih ht hlevel
  | call _ hl hlevel _ ihid ihargs => exact .call ihid hl hlevel ihargs
  | noArguments hr => exact .noArguments hr
  | arguments _ hr ih => exact .arguments ih hr
  | last _ hrest hcomma ih => exact .last ih hrest hcomma
  | cons _ hc _ ihe ihes => exact .cons ihe hc ihes
  | comma h _ hc ih => exact .comma (hlax h) ih hc
  | noCondition hts => exact .noCondition hts
  | condition hts _ hrest ih => exact .condition hts ih hrest
  | bareCondition h hts => exact .bareCondition (hlax h) hts
  | noListing hts => exact .noListing hts
  | listing hts _ ih => exact .listing hts ih
  | bareListing h hts => exact .bareListing (hlax h) hts
  | noLimit hts => exact .noLimit hts
  | limit hts _ hrest ih => exact .limit hts ih hrest
  | select _ hfrom _ hprecedence _ _ _ _ hkeys _ ih₁ ih₂ ih₃ ih₄ ih₅ ih₆ ih₇ =>
    exact .select ih₁ hfrom ih₂ hprecedence ih₃ ih₄ ih₅ ih₆ hkeys ih₇

/-! ## How much a phrase takes -/

omit [FloatModel] in
/-- What is behind keywords is shorter by their number. -/
theorem TokenStream.behind_length {keywords : List String} {ts us : TokenStream}
    (h : behind keywords ts = some us) : us.length + keywords.length = ts.length := by
  induction keywords generalizing ts with
  | nil => cases h; rfl
  | cons s keywords ih =>
    obtain _ | ⟨token, ts⟩ := ts
    · cases h
    · rw [behind] at h
      split at h
      · rw [List.length_cons, List.length_cons, ← ih h]
        rfl
      · cases h

/-- The number of tokens that a phrase has at least. -/
def Phrase.minLength : Phrase → ℕ
  | operand _ | expr _ _ | arguments _ | select _ => 1
  | exprs es => es.length
  | condition _ _ | listing _ _ | limit _ => 0

/-- A phrase takes tokens. -/
theorem Spells.length_le {lax : Prop} {φ : Phrase} {ts rest : TokenStream}
    (h : Spells lax φ ts rest) : rest.length + φ.minLength ≤ ts.length := by
  induction h with
  | condition hts _ _ ih | listing hts _ ih | limit hts _ _ ih =>
    have := behind_length hts
    simp only [Phrase.minLength] at ih ⊢
    omega
  | select hprojection hfrom htable _ hwhere hgroup hhaving horder _ hlimit ih₁ ih₂ ih₃ ih₄ ih₅ ih₆ ih₇ =>
    have := behind_length hfrom
    simp only [Phrase.minLength] at *
    omega
  | _ =>
    simp only [Phrase.minLength, List.length_cons, List.length_nil] at *
    omega

omit [FloatModel] in
/-- What is behind keywords is the end of the text. -/
theorem TokenStream.behind_suffix {keywords : List String} {ts us : TokenStream}
    (h : behind keywords ts = some us) : us <:+ ts := by
  induction keywords generalizing ts with
  | nil => cases h; exact List.suffix_refl _
  | cons s keywords ih =>
    obtain _ | ⟨token, ts⟩ := ts
    · cases h
    · rw [behind] at h
      split at h
      · exact (ih h).trans (List.suffix_cons token ts)
      · cases h

/-- What a phrase leaves is the end of the text. -/
theorem Spells.suffix {lax : Prop} {φ : Phrase} {ts rest : TokenStream}
    (h : Spells lax φ ts rest) : rest <:+ ts := by
  induction h with
  | name _ | star _ | string _ | long _ _ | double _ _ | noArguments _ =>
    exact List.suffix_cons _ _
  | date _ _ | interval _ _ => exact (List.suffix_cons _ _).trans (List.suffix_cons _ _)
  | paren _ _ _ ih => exact ((List.suffix_cons _ _).trans ih).trans (List.suffix_cons _ _)
  | cast _ _ _ _ ih =>
    exact (((List.suffix_cons _ _).trans ih).trans (List.suffix_cons _ _)).trans
      (List.suffix_cons _ _)
  | subselect _ _ ih => exact ih.trans (List.suffix_cons _ _)
  | operand _ ih | last _ _ _ ih => exact ih
  | binary _ _ _ _ _ ihl ihr => exact (ihr.trans (List.suffix_cons _ _)).trans ihl
  | aliased _ _ _ _ _ ihe ihname => exact (ihname.trans (List.suffix_cons _ _)).trans ihe
  | ascending _ _ _ ih | descending _ _ _ ih | arguments _ _ ih =>
    exact (List.suffix_cons _ _).trans ih
  | call _ _ _ _ ihid ihargs => exact (ihargs.trans (List.suffix_cons _ _)).trans ihid
  | cons _ _ _ ihe ihes => exact (ihes.trans (List.suffix_cons _ _)).trans ihe
  | comma _ _ _ _ => exact List.nil_suffix
  | noCondition _ | noListing _ | noLimit _ => exact List.suffix_refl _
  | condition hts _ _ ih | listing hts _ ih | limit hts _ _ ih =>
    exact ih.trans (behind_suffix hts)
  | bareCondition _ _ | bareListing _ _ => exact List.nil_suffix
  | select _ hfrom _ _ _ _ _ _ _ _ ih₁ ih₂ ih₃ ih₄ ih₅ ih₆ ih₇ =>
    exact (((((ih₇.trans ih₆).trans ih₅).trans ih₄).trans ih₃).trans ih₂).trans
      ((behind_suffix hfrom).trans ih₁)

end RQuery
