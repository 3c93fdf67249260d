import RQuery.Sql.Grammar

/-!
# The parser reads the grammar

Whatever the parser returns is spelled by the tokens it took (`parseFuel_sound`), and whatever is
spelled is returned, with at most as many nested calls as there are tokens
(`Spells.readsPhrase`). So the parser returns an expression exactly when the text starts with its
spelling and no tighter operator follows (`parse_eq_ok_iff`).
-/

namespace RQuery

open TokenStream SqlParser

variable [FloatModel]

/-! ## What is read is spelled -/

namespace SqlParser

/-- What the parser is to return on a text at a level. -/
def Reads (level : ℕ) (ts : TokenStream) : Option SqlExpr × TokenStream → Prop
  | (some e, rest) => Spells True (.expr level e) ts rest ∧ precedenceAt rest ≤ level
  | (none, rest) => ts = [] ∧ rest = []

/-- What the function reads is spelled. -/
def Sound (parse : ℕ → Parser (Option SqlExpr)) : Prop :=
  ∀ level ts r, parse level ts = .ok r → Reads level ts r

omit [FloatModel] in
/-- One round of the loop: the end of the text, an item and a comma, or the last item. -/
theorem commaSeparated_succ_eq_ok_iff {α : Type} {item : Parser (Option α)} {n : ℕ} {as : List α}
    {ts rest : TokenStream} :
    commaSeparated item (n + 1) ts = .ok (as, rest) ↔
      (item ts = .ok (none, rest) ∧ as = []) ∨
      ∃ a us, item ts = .ok (some a, us) ∧
        ((us.head?.map Token.tokenType = some (.symbol .comma) ∧
            ∃ as', commaSeparated item n us.tail = .ok (as', rest) ∧ as = a :: as') ∨
          (us.head?.map Token.tokenType ≠ some (.symbol .comma) ∧ as = [a] ∧ rest = us)) := by
  rw [commaSeparated, Parser.bind_eq_ok_iff]
  constructor
  · rintro ⟨_ | a, us, hitem, h⟩
    · cases h
      exact .inl ⟨hitem, rfl⟩
    · right
      refine ⟨a, us, hitem, ?_⟩
      dsimp only at h
      rw [Parser.bind_apply, peekType_apply, Outcome.ok_bind] at h
      dsimp only at h
      split at h
      · rename_i hcomma
        rw [Parser.bind_apply, next_apply, Outcome.ok_bind] at h
        obtain ⟨as', vs, has, h⟩ := Parser.bind_eq_ok_iff.mp h
        cases h
        exact .inl ⟨hcomma, as', has, rfl⟩
      · rename_i hcomma
        cases h
        exact .inr ⟨hcomma, rfl, rfl⟩
  · rintro (⟨hitem, rfl⟩ | ⟨a, us, hitem, ⟨hcomma, as', has, rfl⟩ | ⟨hcomma, rfl, rfl⟩⟩)
    · exact ⟨_, _, hitem, rfl⟩
    · refine ⟨_, _, hitem, ?_⟩
      simp [Parser.bind_apply, Parser.map_apply, hcomma, has]
    · refine ⟨_, _, hitem, ?_⟩
      simp [Parser.bind_apply, hcomma]

omit [FloatModel] in
/-- A clause is parsed behind its keywords, and absent without them. -/
theorem optionalClause_apply {α : Type} (keywords : List String) (absent : α) (clause : Parser α)
    (ts : TokenStream) :
    optionalClause keywords absent clause ts =
      match behind keywords ts with
      | some us => clause us
      | none => .ok (absent, ts) := by
  rw [optionalClause, Parser.bind_apply, consumeKeywords_apply]
  cases behind keywords ts <;> rfl

section

variable {parse : ℕ → Parser (Option SqlExpr)}

/-- An expression that has to be there is one that is parsed. -/
theorem parseExpr_eq_ok_iff {message : String} {e : SqlExpr} {ts rest : TokenStream} :
    parseExpr parse message ts = .ok (e, rest) ↔ parse 0 ts = .ok (some e, rest) := by
  rw [parseExpr, Parser.bind_eq_ok_iff]
  constructor
  · rintro ⟨_ | e', us, hparse, h⟩
    · cases h
    · cases h
      exact hparse
  · intro h
    exact ⟨_, _, h, rfl⟩

/-- A parsed expression is spelled in front of what does not continue it. -/
theorem Sound.expr (hp : Sound parse) {e : SqlExpr} {ts rest : TokenStream}
    (h : parse 0 ts = .ok (some e, rest)) :
    Spells True (.expr 0 e) ts rest ∧ precedenceAt rest = 0 :=
  ⟨(hp _ _ _ h).1, Nat.le_zero.mp (hp _ _ _ h).2⟩

/-- An identifier is an expression that is an identifier. -/
theorem parseIdentifier_eq_ok_iff {name : String} {ts rest : TokenStream} :
    parseIdentifier parse ts = .ok (name, rest) ↔
      parse 0 ts = .ok (some (.identifier name), rest) := by
  rw [parseIdentifier, Parser.bind_eq_ok_iff]
  constructor
  · rintro ⟨e, us, he, h⟩
    rw [parseExpr_eq_ok_iff] at he
    cases e with
    | identifier id => cases h; exact he
    | _ => cases h
  · intro h
    exact ⟨_, _, parseExpr_eq_ok_iff.mpr h, rfl⟩

/-- The name of the table is an expression that is an identifier. -/
theorem parseTableName_eq_ok_iff {name : String} {ts rest : TokenStream} :
    parseTableName parse ts = .ok (name, rest) ↔
      parse 0 ts = .ok (some (.identifier name), rest) := by
  rw [parseTableName, Parser.bind_eq_ok_iff]
  constructor
  · rintro ⟨e, us, he, h⟩
    rw [parseExpr_eq_ok_iff] at he
    cases e with
    | identifier id => cases h; exact he
    | _ => cases h
  · intro h
    exact ⟨_, _, parseExpr_eq_ok_iff.mpr h, rfl⟩

/-- The number of a limit is an expression that is a number, narrowed to 32 bits. -/
theorem parseLimit_eq_ok_iff {n : Int32} {ts rest : TokenStream} :
    parseLimit parse ts = .ok (n, rest) ↔
      ∃ v, parse 0 ts = .ok (some (.long v), rest) ∧ v.toInt32 = n := by
  rw [parseLimit, Parser.bind_eq_ok_iff]
  constructor
  · rintro ⟨e, us, he, h⟩
    rw [parseExpr_eq_ok_iff] at he
    cases e with
    | long v => cases h; exact ⟨v, he, rfl⟩
    | _ => cases h
  · rintro ⟨v, h, rfl⟩
    exact ⟨_, _, parseExpr_eq_ok_iff.mpr h, rfl⟩

/-- There is no sort item where there is no expression. -/
theorem parseSort_none_iff {ts rest : TokenStream} :
    parseSort parse ts = .ok (none, rest) ↔ parse 0 ts = .ok (none, rest) := by
  rw [parseSort, Parser.bind_eq_ok_iff]
  constructor
  · rintro ⟨_ | e, us, he, h⟩
    · cases h
      exact he
    · obtain ⟨k, vs, -, h⟩ := Parser.bind_eq_ok_iff.mp h
      cases h
  · exact fun h => ⟨_, _, h, rfl⟩

/-- A sort item is an expression with a direction. -/
theorem parseSort_some_iff {key : SqlExpr} {ts rest : TokenStream} :
    parseSort parse ts = .ok (some key, rest) ↔
      ∃ e, parse 0 ts = .ok (some e, rest) ∧ normalizeSort e = .ok key := by
  rw [parseSort, Parser.bind_eq_ok_iff]
  constructor
  · rintro ⟨_ | e, us, he, h⟩
    · cases h
    · obtain ⟨k, vs, hk, h⟩ := Parser.bind_eq_ok_iff.mp h
      obtain ⟨k', hk', hpair⟩ := Outcome.bind_eq_ok_iff.mp hk
      cases hpair
      cases h
      exact ⟨e, he, hk'⟩
  · rintro ⟨e, he, hkey⟩
    refine ⟨_, _, he, ?_⟩
    simp [Parser.bind_apply, hkey]

/-- The keys of a list are the list of the keys. -/
theorem commaSeparated_parseSort_iff {n : ℕ} {keys : List SqlExpr} {ts rest : TokenStream} :
    commaSeparated (parseSort parse) n ts = .ok (keys, rest) ↔
      ∃ es, commaSeparated (parse 0) n ts = .ok (es, rest) ∧
        es.mapM normalizeSort = .ok keys := by
  induction n generalizing ts keys with
  | zero => exact ⟨fun h => (by cases h), fun ⟨_, h, _⟩ => (by cases h)⟩
  -- Sort keys and expressions are read by the same loop; only the item differs.
  | succ n ih =>
    simp only [commaSeparated_succ_eq_ok_iff, parseSort_none_iff, parseSort_some_iff, ih]
    constructor
    · rintro (⟨hend, rfl⟩ | ⟨key, us, ⟨e, he, hkey⟩,
        ⟨hcomma, keys', ⟨es, hes, hkeys⟩, rfl⟩ | ⟨hcomma, rfl, rfl⟩⟩)
      · exact ⟨[], .inl ⟨hend, rfl⟩, rfl⟩
      · exact ⟨e :: es, .inr ⟨e, us, he, .inl ⟨hcomma, es, hes, rfl⟩⟩,
          Outcome.mapM_cons_eq_ok_iff.mpr ⟨key, keys', hkey, hkeys, rfl⟩⟩
      · exact ⟨[e], .inr ⟨e, _, he, .inr ⟨hcomma, rfl, rfl⟩⟩,
          Outcome.mapM_singleton_eq_ok_iff.mpr ⟨key, hkey, rfl⟩⟩
    · rintro ⟨es, (⟨hend, rfl⟩ | ⟨e, us, he, ⟨hcomma, es', hes, rfl⟩ | ⟨hcomma, rfl, rfl⟩⟩), hkeys⟩
      · cases hkeys
        exact .inl ⟨hend, rfl⟩
      · obtain ⟨key, keys', hkey, hkeys', rfl⟩ := Outcome.mapM_cons_eq_ok_iff.mp hkeys
        exact .inr ⟨key, us, ⟨e, he, hkey⟩, .inl ⟨hcomma, keys', ⟨es', hes, hkeys'⟩, rfl⟩⟩
      · obtain ⟨key, hkey, rfl⟩ := Outcome.mapM_singleton_eq_ok_iff.mp hkeys
        exact .inr ⟨key, _, ⟨e, he, hkey⟩, .inr ⟨hcomma, rfl, rfl⟩⟩

/-- A list is empty only where the text is. -/
theorem Sound.commaSeparated (hp : Sound parse) {n : ℕ} {es : List SqlExpr}
    {ts rest : TokenStream} (h : commaSeparated (parse 0) n ts = .ok (es, rest)) :
    (ts = [] ∧ es = [] ∧ rest = []) ∨ Spells True (.exprs es) ts rest := by
  induction n generalizing es ts with
  | zero => cases h
  | succ n ih =>
    rcases commaSeparated_succ_eq_ok_iff.mp h with
      ⟨hend, rfl⟩ | ⟨e, us, he, ⟨hcomma, es', hes, rfl⟩ | ⟨hcomma, rfl, rfl⟩⟩
    · obtain ⟨rfl, rfl⟩ := hp _ _ _ hend
      exact .inl ⟨rfl, rfl, rfl⟩
    · right
      obtain _ | ⟨c, us⟩ := us
      · cases hcomma
      · have hc : c.tokenType = .symbol .comma := by simpa using hcomma
        -- Nothing stands behind the comma, or another list does.
        rcases ih hes with ⟨hus, rfl, rfl⟩ | hes
        · obtain rfl : us = [] := hus
          exact .comma trivial (hp.expr he).1 hc
        · exact .cons (hp.expr he).1 hc hes
    · exact .inr (.last (hp.expr he).1 (hp.expr he).2 hcomma)

/-- A condition that is parsed is spelled, or its keywords are missing. -/
theorem Sound.condition (hp : Sound parse) {keywords : List String} {e : Option SqlExpr}
    {ts rest : TokenStream} (h : optionalClause keywords none (parse 0) ts = .ok (e, rest)) :
    Spells True (.condition keywords e) ts rest := by
  rw [optionalClause_apply] at h
  split at h
  · rename_i us hus
    cases e with
    | none =>
      obtain ⟨rfl, rfl⟩ := hp _ _ _ h
      exact .bareCondition trivial hus
    | some e =>
      obtain ⟨hspells, hprecedence⟩ := hp.expr h
      exact .condition hus hspells hprecedence
  · rename_i hus
    cases h
    exact .noCondition hus

/-- A listing that is parsed is spelled, or its keywords are missing. -/
theorem Sound.listing (hp : Sound parse) {keywords : List String} {es : List SqlExpr}
    {ts rest : TokenStream}
    (h : optionalClause keywords [] (parseExprList parse) ts = .ok (es, rest)) :
    Spells True (.listing keywords es) ts rest := by
  rw [optionalClause_apply] at h
  split at h
  · rename_i us hus
    rcases hp.commaSeparated h with ⟨rfl, rfl, rfl⟩ | hes
    · exact .bareListing trivial hus
    · exact .listing hus hes
  · rename_i hus
    cases h
    exact .noListing hus

/-- A limit that is parsed is spelled, or its keyword is missing. -/
theorem Sound.limit (hp : Sound parse) {n : Option Int32} {ts rest : TokenStream}
    (h : optionalClause ["LIMIT"] none (some <$> parseLimit parse) ts = .ok (n, rest)) :
    Spells True (.limit n) ts rest := by
  rw [optionalClause_apply] at h
  split at h
  · rename_i us hus
    obtain ⟨n', hn, rfl⟩ := Parser.map_eq_ok_iff.mp h
    obtain ⟨v, hv, rfl⟩ := parseLimit_eq_ok_iff.mp hn
    obtain ⟨hspells, hprecedence⟩ := hp.expr hv
    exact .limit hus hspells hprecedence
  · rename_i hus
    cases h
    exact .noLimit hus

/-- Sort items that are parsed are a listing whose directions have been made explicit. -/
theorem Sound.order (hp : Sound parse) {orderBy : List SqlExpr} {ts rest : TokenStream}
    (h : optionalClause ["ORDER", "BY"] [] (parseOrder parse) ts = .ok (orderBy, rest)) :
    ∃ keys, Spells True (.listing ["ORDER", "BY"] keys) ts rest ∧
      keys.mapM normalizeSort = .ok orderBy := by
  rw [optionalClause_apply] at h
  split at h
  · rename_i us hus
    obtain ⟨es, hes, hkeys⟩ := commaSeparated_parseSort_iff.mp h
    rcases hp.commaSeparated hes with ⟨rfl, rfl, rfl⟩ | hes
    · exact ⟨[], .bareListing trivial hus, hkeys⟩
    · exact ⟨es, .listing hus hes, hkeys⟩
  · rename_i hus
    cases h
    exact ⟨[], .noListing hus, rfl⟩

/-- A statement that is parsed is spelled, clause by clause. -/
theorem Sound.select (hp : Sound parse) {s : SqlSelect} {ts rest : TokenStream}
    (h : parseSelect parse ts = .ok (s, rest)) : Spells True (.select s) ts rest := by
  obtain ⟨projection, ts₁, hprojection, h⟩ := Parser.bind_eq_ok_iff.mp h
  obtain ⟨found, ts₂, hfrom, h⟩ := Parser.bind_eq_ok_iff.mp h
  rw [consumeKeyword_apply] at hfrom
  split at hfrom
  · rename_i us hus
    cases hfrom
    obtain ⟨tableName, ts₃, htable, h⟩ := Parser.bind_eq_ok_iff.mp h
    obtain ⟨selection, ts₄, hwhere, h⟩ := Parser.bind_eq_ok_iff.mp h
    obtain ⟨groupBy, ts₅, hgroup, h⟩ := Parser.bind_eq_ok_iff.mp h
    obtain ⟨having, ts₆, hhaving, h⟩ := Parser.bind_eq_ok_iff.mp h
    obtain ⟨orderBy, ts₇, horder, h⟩ := Parser.bind_eq_ok_iff.mp h
    obtain ⟨limit, ts₈, hlimit, h⟩ := Parser.bind_eq_ok_iff.mp h
    cases h
    obtain ⟨htable, hprecedence⟩ := hp.expr (parseTableName_eq_ok_iff.mp htable)
    obtain ⟨keys, horder, hkeys⟩ := hp.order horder
    -- Without a projection there is no token left for FROM.
    rcases hp.commaSeparated hprojection with ⟨rfl, rfl, rfl⟩ | hprojection
    · cases hus
    · exact .select hprojection hus htable hprecedence (hp.condition hwhere) (hp.listing hgroup)
        (hp.condition hhaving) horder hkeys (hp.limit hlimit)
  · cases hfrom
    cases h

omit [FloatModel] in
/-- A text is a string literal in front. -/
theorem parseText_eq_ok_iff {message text : String} {ts rest : TokenStream} :
    parseText message ts = .ok (text, rest) ↔
      ∃ t, t.tokenType = .literal .string ∧ t.text = text ∧ ts = t :: rest := by
  rw [parseText, Parser.bind_apply, next_apply, Outcome.ok_bind]
  obtain _ | ⟨⟨text', tokenType, endOffset⟩, ts⟩ := ts
  · exact ⟨fun h => (by cases h), fun ⟨_, _, _, h⟩ => (by cases h)⟩
  · by_cases ht : tokenType = .literal .string
    · subst ht
      constructor
      · intro h
        cases h
        exact ⟨_, rfl, rfl, rfl⟩
      · rintro ⟨t, -, rfl, h⟩
        cases h
        rfl
    · constructor
      · intro h
        cases tokenType with
        | literal l =>
          cases l with
          | string => exact absurd rfl ht
          | _ => cases h
        | _ => cases h
      · rintro ⟨t, htype, -, h⟩
        cases h
        exact absurd htype ht

/-- A cast that is parsed is spelled behind its keyword. -/
theorem Sound.cast (hp : Sound parse) {k : Token} (hk : k.tokenType = .keyword .cast)
    {e : SqlExpr} {ts rest : TokenStream} (h : parseCast parse ts = .ok (e, rest)) :
    Spells True (.operand e) (k :: ts) rest := by
  obtain ⟨_, us, hleft, hinner⟩ := Parser.bind_eq_ok_iff.mp h
  obtain ⟨l, hl, rfl⟩ := expectTokenType_eq_ok_iff.mp hleft
  obtain ⟨e', vs, he, hclose⟩ := Parser.bind_eq_ok_iff.mp hinner
  have hspells := (hp.expr (parseExpr_eq_ok_iff.mp he)).1
  cases e' with
  | aliased inner dataType =>
    obtain ⟨_, ws, hright, hreturn⟩ := Parser.bind_eq_ok_iff.mp hclose
    obtain ⟨r, hr, rfl⟩ := expectTokenType_eq_ok_iff.mp hright
    cases hreturn
    exact .cast hk hl hspells hr
  | _ => cases hclose

/-- An expression in parentheses that is parsed is spelled behind the parenthesis. -/
theorem Sound.parenthesized (hp : Sound parse) {l : Token} (hl : l.tokenType = .symbol .leftParen)
    {e : SqlExpr} {ts rest : TokenStream} (h : parseParenthesized parse ts = .ok (e, rest)) :
    Spells True (.operand e) (l :: ts) rest := by
  obtain ⟨e', us, he, hclose⟩ := Parser.bind_eq_ok_iff.mp h
  obtain ⟨_, vs, hright, hreturn⟩ := Parser.bind_eq_ok_iff.mp hclose
  obtain ⟨r, hr, rfl⟩ := expectTokenType_eq_ok_iff.mp hright
  cases hreturn
  exact .paren hl (hp.expr (parseExpr_eq_ok_iff.mp he)).1 hr

/-- An operand that is parsed behind its first token is spelled. -/
theorem Sound.prefixToken (hp : Sound parse) {token : Token} {e : SqlExpr} {ts rest : TokenStream}
    (h : parsePrefixToken parse token ts = .ok (e, rest)) :
    Spells True (.operand e) (token :: ts) rest := by
  generalize hx : parsePrefixToken parse token = x at h
  unfold parsePrefixToken at hx
  split at hx <;> subst hx
  case h_1 hselect =>
    obtain ⟨s, hs, rfl⟩ := Parser.map_eq_ok_iff.mp h
    exact .subselect hselect (hp.select hs)
  case h_2 hcast => exact hp.cast hcast h
  case h_3 hdate =>
    obtain ⟨text, htext, rfl⟩ := Parser.map_eq_ok_iff.mp h
    obtain ⟨t, ht, rfl, rfl⟩ := parseText_eq_ok_iff.mp htext
    exact .date hdate ht
  case h_4 hinterval =>
    obtain ⟨text, htext, rfl⟩ := Parser.map_eq_ok_iff.mp h
    obtain ⟨t, ht, rfl, rfl⟩ := parseText_eq_ok_iff.mp htext
    exact .interval hinterval ht
  case h_13 hstring => cases h; exact .string hstring
  case h_14 hlong =>
    cases hv : Text.parseInt64 token.text with
    | none => rw [hv] at h; cases h
    | some v => rw [hv] at h; cases h; exact .long hlong hv
  case h_15 hdouble =>
    cases hv : FloatModel.double.parse token.text with
    | none => rw [hv] at h; cases h
    | some v => rw [hv] at h; cases h; exact .double hdouble hv
  case h_16 hparen => exact hp.parenthesized hparen h
  case h_17 hstar => cases h; exact .star hstar
  case h_18 => cases h
  all_goals
    rename_i hname
    cases h
    exact .name (by rw [hname]; rfl)

/-- Arguments that are parsed are spelled. -/
theorem Sound.arguments (hp : Sound parse) {args : List SqlExpr} {ts rest : TokenStream}
    (h : parseArguments parse ts = .ok (args, rest)) : Spells True (.arguments args) ts rest := by
  rw [parseArguments, Parser.bind_apply, peekType_apply, Outcome.ok_bind] at h
  dsimp only at h
  split at h
  · rename_i hhead
    obtain ⟨_, us, hargs, hclose⟩ := Parser.bind_eq_ok_iff.mp h
    cases hargs
    obtain ⟨_, vs, hright, hreturn⟩ := Parser.bind_eq_ok_iff.mp hclose
    obtain ⟨r, hr, rfl⟩ := expectTokenType_eq_ok_iff.mp hright
    cases hreturn
    exact .noArguments hr
  · obtain ⟨es, us, hargs, hclose⟩ := Parser.bind_eq_ok_iff.mp h
    obtain ⟨_, vs, hright, hreturn⟩ := Parser.bind_eq_ok_iff.mp hclose
    obtain ⟨r, hr, rfl⟩ := expectTokenType_eq_ok_iff.mp hright
    cases hreturn
    -- A list without an item would have ended the tokens, and a closing parenthesis follows.
    rcases hp.commaSeparated hargs with ⟨-, -, hend⟩ | hes
    · cases hend
    · exact .arguments hes hr

/-- An operation that is parsed behind its left operand is spelled. -/
theorem Sound.binary (hp : Sound parse) {level : ℕ} {l e : SqlExpr} {t : Token}
    {ts us rest : TokenStream} (hl : Spells True (.expr level l) ts (t :: us))
    (ht : t.tokenType.isOperator) (hlevel : level < precedence t.tokenType)
    (h : parseBinary parse l t.text (precedence t.tokenType) (t :: us) = .ok (e, rest)) :
    Spells True (.expr level e) ts rest := by
  rw [parseBinary, Parser.bind_apply, next_apply, Outcome.ok_bind] at h
  obtain ⟨_ | r, vs, hr, hreturn⟩ := Parser.bind_eq_ok_iff.mp h
  · cases hreturn
  · cases hreturn
    obtain ⟨hr, hrest⟩ := hp _ _ _ hr
    exact .binary hl ht hlevel hr hrest

/-- A call that is parsed behind the function's name is spelled. -/
theorem Sound.call (hp : Sound parse) {level : ℕ} {l e : SqlExpr} {t : Token}
    {ts us rest : TokenStream} (hl : Spells True (.expr level l) ts (t :: us))
    (ht : t.tokenType = .symbol .leftParen) (hlevel : level < 70)
    (h : parseCall parse l (t :: us) = .ok (e, rest)) : Spells True (.expr level e) ts rest := by
  cases l with
  | identifier id =>
    rw [parseCall, Parser.bind_apply, next_apply, Outcome.ok_bind] at h
    obtain ⟨args, vs, hargs, hreturn⟩ := Parser.bind_eq_ok_iff.mp h
    cases hreturn
    exact .call hl ht hlevel (hp.arguments hargs)
  | _ => cases h

/-- An infix token extends the expression to its left. -/
theorem Sound.infixToken (hp : Sound parse) {level : ℕ} {l e : SqlExpr} {t : Token}
    {ts us rest : TokenStream} (hl : Spells True (.expr level l) ts (t :: us))
    (hlevel : level < precedence t.tokenType)
    (h : parseInfixToken parse t l (precedence t.tokenType) (t :: us) = .ok (e, rest)) :
    Spells True (.expr level e) ts rest := by
  generalize hx : parseInfixToken parse t l (precedence t.tokenType) = x at h
  unfold parseInfixToken at hx
  split at hx <;> subst hx
  case h_12 has =>
    rw [has] at hlevel
    rw [parseAlias, Parser.bind_apply, next_apply, Outcome.ok_bind] at h
    obtain ⟨name, vs, hname, hreturn⟩ := Parser.bind_eq_ok_iff.mp h
    cases hreturn
    obtain ⟨hspells, hrest⟩ := hp.expr (parseIdentifier_eq_ok_iff.mp hname)
    exact .aliased hl has hlevel hspells hrest
  case h_15 hasc =>
    rw [hasc] at hlevel
    cases h
    exact .ascending hl hasc hlevel
  case h_16 hdesc =>
    rw [hdesc] at hlevel
    cases h
    exact .descending hl hdesc hlevel
  case h_17 hparen =>
    rw [hparen] at hlevel
    exact hp.call hl hparen hlevel h
  case h_18 => cases h
  all_goals
    rename_i hoperator
    exact hp.binary hl (by rw [hoperator]; rfl) hlevel h

/-- What is parsed behind a left operand is spelled with it. -/
theorem Sound.infixOperator (hp : Sound parse) {level : ℕ} {l e : SqlExpr} {ts us rest : TokenStream}
    (hl : Spells True (.expr level l) ts us) (hlevel : level < precedenceAt us)
    (h : parseInfix parse l (precedenceAt us) us = .ok (e, rest)) :
    Spells True (.expr level e) ts rest := by
  obtain _ | ⟨t, us⟩ := us
  · cases h
  · exact hp.infixToken hl hlevel h

/-- The loop over the operators spells an expression, and stops where none binds tighter. -/
theorem Sound.loop (hp : Sound parse) {level n : ℕ} {l e : SqlExpr} {ts us rest : TokenStream}
    (hl : Spells True (.expr level l) ts us)
    (h : infixLoop parse level n l us = .ok (e, rest)) :
    Spells True (.expr level e) ts rest ∧ precedenceAt rest ≤ level := by
  induction n generalizing l us with
  | zero => cases h
  | succ n ih =>
    rw [infixLoop, Parser.bind_apply, nextPrecedence_apply, Outcome.ok_bind] at h
    dsimp only at h
    split at h
    · rename_i hlevel
      obtain ⟨e', vs, he, h⟩ := Parser.bind_eq_ok_iff.mp h
      exact ih (hp.infixOperator hl hlevel he) h
    · rename_i hlevel
      cases h
      exact ⟨hl, Nat.le_of_not_lt hlevel⟩

end

/-- Whatever the parser reads is spelled. -/
theorem parseFuel_sound (fuel : ℕ) : Sound (parseFuel fuel) := by
  induction fuel with
  -- Without fuel nothing is read. A round reads the first operand and gives one less to the calls
  -- inside.
  | zero => exact fun level ts r h => by cases h
  | succ fuel ih =>
    intro level ts r h
    rw [parseFuel] at h
    obtain ⟨first, us, hfirst, h⟩ := Parser.bind_eq_ok_iff.mp h
    rw [parsePrefix, Parser.bind_apply, next_apply, Outcome.ok_bind] at hfirst
    obtain _ | ⟨token, ts⟩ := ts
    · cases hfirst
      cases h
      exact ⟨rfl, rfl⟩
    · obtain ⟨e, he, rfl⟩ := Parser.map_eq_ok_iff.mp hfirst
      dsimp only at h
      rw [Parser.bind_apply, Parser.get_apply, Outcome.ok_bind] at h
      obtain ⟨e', vs, he', h⟩ := Parser.bind_eq_ok_iff.mp h
      cases h
      exact ih.loop (.operand (ih.prefixToken he)) he'

/-! ## What is spelled is read -/

/-- From the start of `ts` the loop at this level comes by the expression `e` in front of `rest`. -/
def Reaches (parse : ℕ → Parser (Option SqlExpr)) (level : ℕ) (ts : TokenStream) (e : SqlExpr)
    (rest : TokenStream) : Prop :=
  ∃ first us k, parsePrefix parse ts = .ok (some first, us) ∧ k + rest.length ≤ us.length ∧
    ∀ n, infixLoop parse level (n + k) first us = infixLoop parse level n e rest

section

variable {parse : ℕ → Parser (Option SqlExpr)}

/-- One more round of the loop reaches one more operator. -/
theorem Reaches.step {level : ℕ} {l e : SqlExpr} {ts us rest : TokenStream}
    (h : Reaches parse level ts l us) (hlevel : level < precedenceAt us)
    (he : parseInfix parse l (precedenceAt us) us = .ok (e, rest))
    (hlength : rest.length < us.length) : Reaches parse level ts e rest := by
  obtain ⟨first, vs, k, hfirst, hk, hloop⟩ := h
  refine ⟨first, vs, k + 1, hfirst, by omega, fun n => ?_⟩
  have hround : infixLoop parse level (n + 1) l us = infixLoop parse level n e rest := by
    rw [infixLoop, Parser.bind_apply, nextPrecedence_apply, Outcome.ok_bind]
    simp only [if_pos hlevel, Parser.bind_apply, he, Outcome.ok_bind]
  rw [← hround, ← hloop (n + 1)]
  congr 1
  omega

end

/-- Where no tighter operator follows, `parse` returns the expression. -/
theorem Reaches.parseFuel {fuel level : ℕ} {e : SqlExpr} {ts rest : TokenStream}
    (h : Reaches (parseFuel fuel) level ts e rest) (hrest : precedenceAt rest ≤ level) :
    SqlParser.parseFuel (fuel + 1) level ts = .ok (some e, rest) := by
  obtain ⟨first, us, k, hfirst, hk, hloop⟩ := h
  have hstop : infixLoop (SqlParser.parseFuel fuel) level (us.length + 1) first us =
      .ok (e, rest) := by
    obtain ⟨n, hn⟩ : ∃ n, us.length + 1 = n + 1 + k := ⟨us.length - k, by omega⟩
    rw [hn, hloop, infixLoop, Parser.bind_apply, nextPrecedence_apply, Outcome.ok_bind]
    simp only [if_neg (Nat.not_lt.mpr hrest), Parser.pure_apply]
  rw [SqlParser.parseFuel, Parser.bind_apply, hfirst, Outcome.ok_bind]
  simp [Parser.bind_apply, Parser.map_apply, hstop]

/-- What the parser has to return on a phrase. -/
def ReadsPhrase (fuel : ℕ) (ts rest : TokenStream) : Phrase → Prop
  | .operand e => parsePrefix (parseFuel fuel) ts = .ok (some e, rest)
  | .expr level e => Reaches (parseFuel fuel) level ts e rest
  | .arguments es => parseArguments (parseFuel fuel) ts = .ok (es, rest)
  | .exprs es => ∀ n, es.length < n → commaSeparated (parseFuel fuel 0) n ts = .ok (es, rest)
  | .condition keywords e => optionalClause keywords none (parseFuel fuel 0) ts = .ok (e, rest)
  | .listing keywords es =>
    optionalClause keywords [] (parseExprList (parseFuel fuel)) ts = .ok (es, rest)
  | .limit n =>
    optionalClause ["LIMIT"] none (some <$> parseLimit (parseFuel fuel)) ts = .ok (n, rest)
  | .select s => parseSelect (parseFuel fuel) ts = .ok (s, rest)

/-- The nested calls that reading a phrase takes: an operand is behind a token of its own. -/
def fuelFor (ts : TokenStream) : Phrase → ℕ
  | .operand _ | .expr _ _ => ts.length
  | _ => ts.length + 1

/-- The parser returns the expression that its loop has reached where no operator goes on. -/
theorem parseFuel_of_reaches {level fuel : ℕ} {e : SqlExpr} {ts rest : TokenStream}
    (h : ∀ fuel, ts.length ≤ fuel → Reaches (parseFuel fuel) level ts e rest)
    (hrest : precedenceAt rest ≤ level) (hfuel : ts.length < fuel) :
    parseFuel fuel level ts = .ok (some e, rest) := by
  obtain _ | fuel := fuel
  · omega
  · exact (h fuel (Nat.le_of_lt_succ hfuel)).parseFuel hrest

/-- At the end of the text there is no expression. -/
theorem parseFuel_nil {fuel level : ℕ} (hfuel : 0 < fuel) :
    parseFuel fuel level [] = .ok (none, []) := by
  obtain _ | fuel := fuel
  · omega
  · rfl

/-- An operand begins with the token in front. -/
theorem parsePrefix_cons {parse : ℕ → Parser (Option SqlExpr)} {token : Token} {e : SqlExpr}
    {ts rest : TokenStream} (h : parsePrefixToken parse token ts = .ok (e, rest)) :
    parsePrefix parse (token :: ts) = .ok (some e, rest) := by
  rw [parsePrefix, Parser.bind_apply, next_apply, Outcome.ok_bind]
  exact Parser.map_eq_ok_iff.mpr ⟨e, h, rfl⟩

/-- A name is an identifier. -/
theorem parsePrefixToken_name {parse : ℕ → Parser (Option SqlExpr)} {token : Token}
    (h : token.tokenType.isName) (ts : TokenStream) :
    parsePrefixToken parse token ts = .ok (.identifier token.text, ts) := by
  obtain ⟨text, tokenType, endOffset⟩ := token
  cases tokenType with
  | keyword k =>
    have hk : k ∈ [.min, .max, .sum, .avg, .count, .int, .double] := by
      simpa [TokenType.isName] using h
    simp only [List.mem_cons, List.not_mem_nil, or_false] at hk
    rcases hk with rfl | rfl | rfl | rfl | rfl | rfl | rfl <;> rfl
  | literal l => cases l <;> first | rfl | cases h
  | symbol s => cases h

/-- An operator is followed by its right operand. -/
theorem parseInfixToken_operator {parse : ℕ → Parser (Option SqlExpr)} {token : Token}
    (h : token.tokenType.isOperator) (l : SqlExpr) (precedence : ℕ) :
    parseInfixToken parse token l precedence = parseBinary parse l token.text precedence := by
  obtain ⟨text, tokenType, endOffset⟩ := token
  cases tokenType with
  | keyword k =>
    have hk : k ∈ [.and, .or] := by simpa [TokenType.isOperator] using h
    simp only [List.mem_cons, List.not_mem_nil, or_false] at hk
    rcases hk with rfl | rfl <;> rfl
  | symbol s =>
    have hs : s ∈ [.plus, .sub, .star, .slash, .eq, .gt, .lt, .gtEq, .ltEq, .bangEq, .ltGt] := by
      simpa [TokenType.isOperator] using h
    simp only [List.mem_cons, List.not_mem_nil, or_false] at hs
    rcases hs with rfl | rfl | rfl | rfl | rfl | rfl | rfl | rfl | rfl | rfl | rfl <;> rfl
  | literal l => cases h

/-- An expression does not start with a right parenthesis. -/
theorem parseFuel_head {fuel level : ℕ} {e : SqlExpr} {ts rest : TokenStream}
    (h : parseFuel fuel level ts = .ok (some e, rest)) :
    ts.head?.map Token.tokenType ≠ some (.symbol .rightParen) := by
  intro hhead
  obtain _ | fuel := fuel
  · cases h
  · obtain _ | ⟨t, ts⟩ := ts
    · cases hhead
    · have ht : t.tokenType = .symbol .rightParen := by simpa using hhead
      rw [parseFuel, Parser.bind_apply, parsePrefix, Parser.bind_apply, next_apply,
        Outcome.ok_bind] at h
      simp [Parser.map_apply, parsePrefixToken, ht] at h

/-- The keys of `ORDER BY` are read where the clause is. -/
theorem optionalClause_parseOrder {parse : ℕ → Parser (Option SqlExpr)} {keywords : List String}
    {es keys : List SqlExpr} {ts rest : TokenStream}
    (h : optionalClause keywords [] (parseExprList parse) ts = .ok (es, rest))
    (hkeys : es.mapM normalizeSort = .ok keys) :
    optionalClause keywords [] (parseOrder parse) ts = .ok (keys, rest) := by
  rw [optionalClause_apply] at h ⊢
  split
  · rename_i us hus
    rw [hus] at h
    exact commaSeparated_parseSort_iff.mpr ⟨es, h, hkeys⟩
  · rename_i hus
    rw [hus] at h
    cases h
    cases hkeys
    rfl

/-- What is spelled is read. -/
theorem Spells.readsPhrase {φ : Phrase} {ts rest : TokenStream} (h : Spells True φ ts rest) :
    ∀ fuel, fuelFor ts φ ≤ fuel → ReadsPhrase fuel ts rest φ := by
  -- The induction is on the derivation. The fuel it needs grows with the tokens in front of the
  -- phrase, and every premise of a rule starts further on.
  induction h with
  | name ht => exact fun fuel _ => parsePrefix_cons (parsePrefixToken_name ht _)
  | star ht => exact fun fuel _ => parsePrefix_cons (by simp [parsePrefixToken, ht])
  | string ht => exact fun fuel _ => parsePrefix_cons (by simp [parsePrefixToken, ht])
  | long ht hv => exact fun fuel _ => parsePrefix_cons (by simp [parsePrefixToken, ht, hv])
  | double ht hv => exact fun fuel _ => parsePrefix_cons (by simp [parsePrefixToken, ht, hv])
  | date hk ht =>
    refine fun fuel _ => parsePrefix_cons ?_
    rw [parsePrefixToken, hk]
    exact Parser.map_eq_ok_iff.mpr ⟨_, parseText_eq_ok_iff.mpr ⟨_, ht, rfl, rfl⟩, rfl⟩
  | interval hk ht =>
    refine fun fuel _ => parsePrefix_cons ?_
    rw [parsePrefixToken, hk]
    exact Parser.map_eq_ok_iff.mpr ⟨_, parseText_eq_ok_iff.mpr ⟨_, ht, rfl, rfl⟩, rfl⟩
  | @paren l r e ts rest hl he hr ih =>
    intro fuel hfuel
    -- A closing parenthesis has no precedence, so the inner parse stops in front of it.
    have hread : parseFuel fuel 0 ts = .ok (some e, r :: rest) :=
      parseFuel_of_reaches ih (by simp [hr, precedence]) hfuel
    refine parsePrefix_cons ?_
    rw [parsePrefixToken, hl]
    exact Parser.bind_eq_ok_iff.mpr ⟨e, r :: rest, parseExpr_eq_ok_iff.mpr hread,
      Parser.bind_eq_ok_iff.mpr ⟨_, rest, expectTokenType_eq_ok_iff.mpr ⟨r, hr, rfl⟩, rfl⟩⟩
  | @cast k l r e dataType ts rest hk hl he hr ih =>
    intro fuel hfuel
    have hread : parseFuel fuel 0 ts = .ok (some (.aliased e dataType), r :: rest) :=
      parseFuel_of_reaches ih (by simp [hr, precedence])
        (Nat.lt_of_succ_lt hfuel)
    refine parsePrefix_cons ?_
    rw [parsePrefixToken, hk]
    exact Parser.bind_eq_ok_iff.mpr ⟨_, ts, expectTokenType_eq_ok_iff.mpr ⟨l, hl, rfl⟩,
      Parser.bind_eq_ok_iff.mpr ⟨_, r :: rest, parseExpr_eq_ok_iff.mpr hread,
        Parser.bind_eq_ok_iff.mpr ⟨_, rest, expectTokenType_eq_ok_iff.mpr ⟨r, hr, rfl⟩, rfl⟩⟩⟩
  | subselect hk hs ih =>
    intro fuel hfuel
    refine parsePrefix_cons ?_
    rw [parsePrefixToken, hk]
    exact Parser.map_eq_ok_iff.mpr ⟨_, ih fuel hfuel, rfl⟩
  | @operand level e ts rest he ih =>
    exact fun fuel hfuel => ⟨e, rest, 0, ih fuel hfuel, by omega, fun n => rfl⟩
  | @binary level l r t ts us rest hl ht hlevel hr hrest ihl ihr =>
    intro fuel hfuel
    -- The right operand starts behind the operator, with fewer tokens to go.
    have hus := hl.length_le
    have hrestlen := hr.length_le
    simp only [Phrase.minLength, List.length_cons] at hus hrestlen
    have hread : parseFuel fuel (precedence t.tokenType) us = .ok (some r, rest) :=
      parseFuel_of_reaches ihr hrest (by simp only [fuelFor] at hfuel; omega)
    refine (ihl fuel hfuel).step hlevel ?_ (by simp only [List.length_cons]; omega)
    show parseInfixToken _ t l (precedence t.tokenType) (t :: us) = _
    rw [parseInfixToken_operator ht]
    exact Parser.bind_eq_ok_iff.mpr ⟨_, us, rfl, Parser.bind_eq_ok_iff.mpr ⟨_, rest, hread, rfl⟩⟩
  | @aliased level e name t ts us rest he ht hlevel hname hrest ihe ihname =>
    intro fuel hfuel
    have hus := he.length_le
    have hrestlen := hname.length_le
    simp only [Phrase.minLength, List.length_cons] at hus hrestlen
    have hread : parseFuel fuel 0 us = .ok (some (.identifier name), rest) :=
      parseFuel_of_reaches ihname (Nat.le_of_eq hrest) (by simp only [fuelFor] at hfuel; omega)
    have hlevel' : level < precedenceAt (t :: us) := by rwa [precedenceAt_cons, ht]
    refine (ihe fuel hfuel).step hlevel' ?_ (by simp only [List.length_cons]; omega)
    show parseInfixToken _ t e (precedence t.tokenType) (t :: us) = _
    rw [parseInfixToken, ht]
    exact Parser.bind_eq_ok_iff.mpr ⟨_, us, rfl,
      Parser.bind_eq_ok_iff.mpr ⟨name, rest, parseIdentifier_eq_ok_iff.mpr hread, rfl⟩⟩
  | @ascending level e t ts rest he ht hlevel ih =>
    intro fuel hfuel
    have hlevel' : level < precedenceAt (t :: rest) := by rwa [precedenceAt_cons, ht]
    refine (ih fuel hfuel).step hlevel' ?_ (Nat.lt_succ_self _)
    show parseInfixToken _ t e (precedence t.tokenType) (t :: rest) = _
    rw [parseInfixToken, ht]
    rfl
  | @descending level e t ts rest he ht hlevel ih =>
    intro fuel hfuel
    have hlevel' : level < precedenceAt (t :: rest) := by rwa [precedenceAt_cons, ht]
    refine (ih fuel hfuel).step hlevel' ?_ (Nat.lt_succ_self _)
    show parseInfixToken _ t e (precedence t.tokenType) (t :: rest) = _
    rw [parseInfixToken, ht]
    rfl
  | @call level id args l ts us rest hid hl hlevel hargs ihid ihargs =>
    intro fuel hfuel
    have hus := hid.length_le
    have hrestlen := hargs.length_le
    simp only [Phrase.minLength, List.length_cons] at hus hrestlen
    have hlevel' : level < precedenceAt (l :: us) := by rwa [precedenceAt_cons, hl]
    refine (ihid fuel hfuel).step hlevel' ?_ (by simp only [List.length_cons]; omega)
    show parseInfixToken _ l _ (precedence l.tokenType) (l :: us) = _
    rw [parseInfixToken, hl]
    exact Parser.bind_eq_ok_iff.mpr ⟨_, us, rfl, Parser.bind_eq_ok_iff.mpr
      ⟨args, rest, ihargs fuel (by simp only [fuelFor] at hfuel ⊢; omega), rfl⟩⟩
  | @noArguments r rest hr =>
    intro fuel hfuel
    simp only [ReadsPhrase]
    rw [parseArguments, Parser.bind_apply, peekType_apply, Outcome.ok_bind]
    simp only [List.head?, Option.map_some, hr, if_pos]
    exact Parser.bind_eq_ok_iff.mpr ⟨[], r :: rest, rfl, Parser.bind_eq_ok_iff.mpr
      ⟨_, rest, expectTokenType_eq_ok_iff.mpr ⟨r, hr, rfl⟩, rfl⟩⟩
  | @arguments es r ts rest hes hr ih =>
    intro fuel hfuel
    have hlist := ih fuel hfuel (ts.length + 1) (by
      have := hes.length_le
      simp only [Phrase.minLength, List.length_cons] at this
      omega)
    -- The list is read to its end, so its first token is not the parenthesis that an empty list
    -- would show.
    have hhead : ts.head?.map Token.tokenType ≠ some (.symbol .rightParen) := by
      rcases commaSeparated_succ_eq_ok_iff.mp hlist with ⟨hend, -⟩ | ⟨e, us, he, -⟩
      · cases (parseFuel_sound fuel _ _ _ hend).2
      · exact parseFuel_head he
    simp only [ReadsPhrase]
    rw [parseArguments, Parser.bind_apply, peekType_apply, Outcome.ok_bind]
    simp only [if_neg hhead]
    exact Parser.bind_eq_ok_iff.mpr ⟨es, r :: rest, hlist, Parser.bind_eq_ok_iff.mpr
      ⟨_, rest, expectTokenType_eq_ok_iff.mpr ⟨r, hr, rfl⟩, rfl⟩⟩
  | @last e ts rest he hrest hcomma ih =>
    intro fuel hfuel n hn
    -- The loop over the items needs a round for each of them and one to see the end.
    obtain _ | n := n
    · omega
    · exact commaSeparated_succ_eq_ok_iff.mpr (.inr ⟨e, rest,
        parseFuel_of_reaches ih (Nat.le_of_eq hrest) hfuel, .inr ⟨hcomma, rfl, rfl⟩⟩)
  | @cons e es c ts us rest he hc hes ihe ihes =>
    intro fuel hfuel n hn
    obtain _ | n := n
    · omega
    · have hus := he.length_le
      simp only [Phrase.minLength, List.length_cons] at hus hn
      have hread : parseFuel fuel 0 ts = .ok (some e, c :: us) :=
        parseFuel_of_reaches ihe (by simp [hc, precedence]) hfuel
      have hlist := ihes fuel (by simp only [fuelFor] at hfuel ⊢; omega) n (by omega)
      exact commaSeparated_succ_eq_ok_iff.mpr (.inr ⟨e, c :: us, hread,
        .inl ⟨by simp [hc], es, hlist, rfl⟩⟩)
  | @comma e c ts hlax he hc ih =>
    intro fuel hfuel n hn
    obtain _ | _ | n := n
    · omega
    · simp at hn
    · have hread : parseFuel fuel 0 ts = .ok (some e, [c]) :=
        parseFuel_of_reaches ih (by simp [hc, precedence]) hfuel
      -- Behind the last comma there are no tokens, which the parser takes for the end of the list.
      have hend : commaSeparated (parseFuel fuel 0) (n + 1) [] = .ok ([], []) :=
        commaSeparated_succ_eq_ok_iff.mpr
          (.inl ⟨parseFuel_nil (Nat.lt_of_lt_of_le (Nat.succ_pos _) hfuel), rfl⟩)
      exact commaSeparated_succ_eq_ok_iff.mpr (.inr ⟨e, [c], hread,
        .inl ⟨by simp [hc], [], hend, rfl⟩⟩)
  | @noCondition keywords ts hts =>
    intro fuel hfuel
    simp only [ReadsPhrase, optionalClause_apply, hts]
  | @condition keywords e ts us rest hts he hrest ih =>
    intro fuel hfuel
    have hus := behind_length hts
    simp only [ReadsPhrase, optionalClause_apply, hts]
    exact parseFuel_of_reaches ih (Nat.le_of_eq hrest) (by simp only [fuelFor] at hfuel; omega)
  | @bareCondition keywords ts hlax hts =>
    intro fuel hfuel
    simp only [ReadsPhrase, optionalClause_apply, hts]
    exact parseFuel_nil (Nat.lt_of_lt_of_le (Nat.succ_pos _) hfuel)
  | @noListing keywords ts hts =>
    intro fuel hfuel
    simp only [ReadsPhrase, optionalClause_apply, hts]
  | @listing keywords es ts us rest hts hes ih =>
    intro fuel hfuel
    have hus := behind_length hts
    have hlen := hes.length_le
    simp only [Phrase.minLength] at hlen
    simp only [ReadsPhrase, optionalClause_apply, hts]
    exact ih fuel (by simp only [fuelFor] at hfuel ⊢; omega) _ (by omega)
  | @bareListing keywords ts hlax hts =>
    intro fuel hfuel
    simp only [ReadsPhrase, optionalClause_apply, hts]
    exact commaSeparated_succ_eq_ok_iff.mpr
      (.inl ⟨parseFuel_nil (Nat.lt_of_lt_of_le (Nat.succ_pos _) hfuel), rfl⟩)
  | @noLimit ts hts =>
    intro fuel hfuel
    simp only [ReadsPhrase, optionalClause_apply, hts]
  | @limit v ts us rest hts hv hrest ih =>
    intro fuel hfuel
    have hus := behind_length hts
    have hread : parseFuel fuel 0 us = .ok (some (.long v), rest) :=
      parseFuel_of_reaches ih (Nat.le_of_eq hrest) (by simp only [fuelFor] at hfuel; omega)
    simp only [ReadsPhrase, optionalClause_apply, hts]
    exact Parser.map_eq_ok_iff.mpr ⟨_, parseLimit_eq_ok_iff.mpr ⟨v, hread, rfl⟩, rfl⟩
  | @select s keys ts ts₁ ts₂ ts₃ ts₄ ts₅ ts₆ ts₇ rest hprojection hfrom htable hprecedence hwhere
      hgroup hhaving horder hkeys hlimit ih₁ ih₂ ih₃ ih₄ ih₅ ih₆ ih₇ =>
    intro fuel hfuel
    have hlen₁ := hprojection.length_le
    have hlen₂ := behind_length hfrom
    have hlen₃ := htable.length_le
    have hlen₄ := hwhere.length_le
    have hlen₅ := hgroup.length_le
    have hlen₆ := hhaving.length_le
    have hlen₇ := horder.length_le
    simp only [Phrase.minLength, fuelFor] at *
    have hlist : parseExprList (parseFuel fuel) ts = .ok (s.projection, ts₁) :=
      ih₁ fuel hfuel _ (by omega)
    have hkeyword : consumeKeyword "FROM" ts₁ = .ok (true, ts₂) := by
      rw [consumeKeyword_apply, hfrom]
    have hname : parseTableName (parseFuel fuel) ts₂ = .ok (s.tableName, ts₃) :=
      parseTableName_eq_ok_iff.mpr
        (parseFuel_of_reaches ih₂ (Nat.le_of_eq hprecedence) (by omega))
    have hselection : optionalClause ["WHERE"] none (parseFuel fuel 0) ts₃ =
        .ok (s.selection, ts₄) := ih₃ fuel (by omega)
    have hgroups : optionalClause ["GROUP", "BY"] [] (parseExprList (parseFuel fuel)) ts₄ =
        .ok (s.groupBy, ts₅) := ih₄ fuel (by omega)
    have hpredicate : optionalClause ["HAVING"] none (parseFuel fuel 0) ts₅ =
        .ok (s.having, ts₆) := ih₅ fuel (by omega)
    have hsort : optionalClause ["ORDER", "BY"] [] (parseOrder (parseFuel fuel)) ts₆ =
        .ok (s.orderBy, ts₇) := optionalClause_parseOrder (ih₆ fuel (by omega)) hkeys
    have hbound : optionalClause ["LIMIT"] none (some <$> parseLimit (parseFuel fuel)) ts₇ =
        .ok (s.limit, rest) := ih₇ fuel (by omega)
    simp only [ReadsPhrase]
    rw [parseSelect, Parser.bind_apply, hlist, Outcome.ok_bind, Parser.bind_apply, hkeyword,
      Outcome.ok_bind]
    simp only [Bool.not_true, Bool.false_eq_true, if_false, Parser.bind_apply, hname, hselection,
      hgroups, hpredicate, hsort, hbound, Outcome.ok_bind, Parser.pure_apply]
    cases s
    rfl

/-! ## Reading is spelling -/

/-- The parser returns an expression exactly when the text starts with its spelling and no tighter
operator follows. -/
theorem parse_eq_ok_iff {level : ℕ} {e : SqlExpr} {ts rest : TokenStream} :
    parse level ts = .ok (some e, rest) ↔
      Spells True (.expr level e) ts rest ∧ precedenceAt rest ≤ level := by
  rw [parse, Parser.bind_apply, Parser.get_apply, Outcome.ok_bind]
  constructor
  · exact parseFuel_sound _ level ts (some e, rest)
  · rintro ⟨h, hrest⟩
    exact parseFuel_of_reaches (Spells.readsPhrase h) hrest (Nat.lt_succ_self _)

end SqlParser

end RQuery
