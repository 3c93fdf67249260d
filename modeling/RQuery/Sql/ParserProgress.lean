import RQuery.Sql.ParserCorrect

/-!
# The parser makes progress

The functions of the parser are given a bound on their nesting and on the rounds of their loops. No
call uses its bound up, and a larger bound changes nothing: `AgreeWithin n x y` says so of two
computations that differ in their bounds, on the texts of at most `n` tokens, and is kept by every
step of the parser. Every call of `parse` is made behind a token that was taken, so that the induction
is on `n` (`parseFuel_agree`).

`parse_progress` adds what a call leaves: nothing taken at the end of the text, or at least one token
taken before it.
-/

namespace RQuery

open TokenStream

/-- A bound is used up. -/
def outOfFuel : Panic := .other "out of fuel"

/-! ## Computations that do not depend on their bounds -/

/-- On the text `ts`, both do the same, the bound is not used up, and at least `k` tokens are
taken. -/
structure AgreeAt {α : Type} (k : ℕ) (ts : TokenStream) (x y : Parser α) : Prop where
  eq : x ts = y ts
  finishes : x ts ≠ .error outOfFuel
  length_le {a : α} {rest : TokenStream} (h : x ts = .ok (a, rest)) : rest.length + k ≤ ts.length

/-- Both do the same on every text of at most `n` tokens. -/
def AgreeWithin {α : Type} (n : ℕ) (x y : Parser α) : Prop :=
  ∀ ts : TokenStream, ts.length ≤ n → AgreeAt 0 ts x y

section

variable {α β : Type} {ts : TokenStream} {k n : ℕ}

namespace AgreeAt

/-- Agreement is about what the parsers do on the stream at hand. -/
theorem congr {x x' y y' : Parser α} (h : AgreeAt k ts x y) (hx : x' ts = x ts)
    (hy : y' ts = y ts) : AgreeAt k ts x' y' :=
  ⟨hx.trans (h.eq.trans hy.symm), hx ▸ h.finishes, fun ha => h.length_le (hx ▸ ha)⟩

/-- Parsers that return the same and leave enough of the stream agree. -/
theorem of_ok {x y : Parser α} {a : α} {us : TokenStream} (hx : x ts = .ok (a, us))
    (hy : y ts = .ok (a, us)) (hlength : us.length + k ≤ ts.length) : AgreeAt k ts x y := by
  refine ⟨hx.trans hy.symm, fun h => ?_, fun {b rest} h => ?_⟩
  · cases hx.symm.trans h
  · cases hx.symm.trans h
    exact hlength

/-- Returning a value uses up no bound and takes no tokens. -/
theorem pure (a : α) : AgreeAt 0 ts (pure a) (pure a) := .of_ok rfl rfl (Nat.le_refl _)

/-- A rejection for another reason is one with any bound. -/
theorem throw {e : Panic} (he : e ≠ outOfFuel) :
    AgreeAt k ts (throw e : Parser α) (throw e) :=
  ⟨rfl, fun h => he (Except.error.inj h), fun h => nomatch h⟩

/-- Sequences agree where their first parts do, and their second parts on what is left. -/
theorem bind {x y : Parser α} {f g : α → Parser β} (hx : AgreeAt 0 ts x y)
    (hf : ∀ a us, x ts = .ok (a, us) → us.length ≤ ts.length → AgreeAt 0 us (f a) (g a)) :
    AgreeAt 0 ts (x >>= f) (y >>= g) := by
  constructor
  · rw [Parser.bind_apply, Parser.bind_apply, ← hx.eq]
    cases h : x ts with
    | error e => rfl
    | ok r => exact (hf r.1 r.2 h (hx.length_le h)).eq
  · rw [Parser.bind_apply]
    cases h : x ts with
    | error e =>
      intro he
      exact hx.finishes (h.trans (congrArg Except.error (Except.error.inj he)))
    | ok r => exact (hf r.1 r.2 h (hx.length_le h)).finishes
  · intro b rest h
    obtain ⟨a, us, ha, hb⟩ := Parser.bind_eq_ok_iff.mp h
    have hle := hx.length_le ha
    exact Nat.le_trans ((hf a us ha hle).length_le hb) hle

/-- Behind the next token of a text that has one. -/
theorem next_bind {t : Token} {f g : Option Token → Parser β}
    (h : AgreeAt 0 ts (f (some t)) (g (some t))) :
    AgreeAt 1 (t :: ts) (next >>= f) (next >>= g) :=
  ⟨h.eq, h.finishes, fun hrest => Nat.succ_le_succ (h.length_le hrest)⟩

/-- Parsers that agree and consume tokens agree. -/
theorem weaken {x y : Parser α} (h : AgreeAt k ts x y) : AgreeAt 0 ts x y :=
  ⟨h.eq, h.finishes, fun hrest => Nat.le_trans (Nat.le_add_right _ k) (h.length_le hrest)⟩

end AgreeAt

namespace AgreeWithin

/-- Returning a value uses up no bound. -/
theorem pure (a : α) : AgreeWithin n (pure a) (pure a) := fun _ _ => .pure a

/-- A rejection is one for every stream of the length. -/
theorem throw {e : Panic} (he : e ≠ outOfFuel) : AgreeWithin n (throw e : Parser α) (throw e) :=
  fun _ _ => .throw he

/-- Sequences agree within a length if their parts do. -/
theorem bind {x y : Parser α} {f g : α → Parser β} (hx : AgreeWithin n x y)
    (hf : ∀ a, AgreeWithin n (f a) (g a)) : AgreeWithin n (x >>= f) (y >>= g) :=
  fun ts hts => (hx ts hts).bind fun a us _ hus => hf a us (Nat.le_trans hus hts)

/-- A function of the result does not matter. -/
theorem map {x y : Parser α} (f : α → β) (hx : AgreeWithin n x y) :
    AgreeWithin n (f <$> x) (f <$> y) :=
  hx.bind fun a => .pure (f a)

/-- A value that may be missing. -/
theorem lift {x : Result α} (hx : x ≠ .error outOfFuel) :
    AgreeWithin n (liftM x : Parser α) (liftM x) := by
  intro ts _
  rcases x with e | a
  · exact .throw fun he => hx (congrArg Except.error he)
  · exact .pure a

/-- Looking at the next token uses up no bound. -/
theorem peekType : AgreeWithin n peekType peekType := fun _ _ => .of_ok rfl rfl (Nat.le_refl _)

/-- Consuming a keyword uses up no bound. -/
theorem consumeKeyword (s : String) : AgreeWithin n (consumeKeyword s) (consumeKeyword s) := by
  intro ts _
  cases h : behind [s] ts with
  | none =>
    have hok := (consumeKeyword_apply s ts).trans (by rw [h])
    exact .of_ok hok hok (Nat.le_refl _)
  | some us =>
    have hok := (consumeKeyword_apply s ts).trans (by rw [h])
    exact .of_ok hok hok (behind_suffix h).length_le

/-- Consuming keywords uses up no bound. -/
theorem consumeKeywords (keywords : List String) :
    AgreeWithin n (consumeKeywords keywords) (consumeKeywords keywords) := by
  intro ts _
  cases h : behind keywords ts with
  | none =>
    have hok := (consumeKeywords_apply keywords ts).trans (by rw [h])
    exact .of_ok hok hok (Nat.le_refl _)
  | some us =>
    have hok := (consumeKeywords_apply keywords ts).trans (by rw [h])
    exact .of_ok hok hok (behind_suffix h).length_le

/-- Expecting a token uses up no bound. -/
theorem expectTokenType {t : TokenType} {message : String} (hmessage : .other message ≠ outOfFuel) :
    AgreeWithin n (expectTokenType t message) (expectTokenType t message) := by
  intro ts _
  refine ⟨rfl, fun h => ?_, fun {u rest} h => ?_⟩
  -- Without the token the call panics with its own message, which is not the one of the fuel.
  · obtain _ | ⟨token, ts⟩ := ts
    · exact hmessage (Except.error.inj h)
    · by_cases ht : token.tokenType = t
      · rw [expectTokenType_eq_ok_iff.mpr ⟨token, ht, rfl⟩] at h
        cases h
      · simp [TokenStream.expectTokenType, consumeTokenType, Parser.bind_apply, ht] at h
        exact hmessage h
  · obtain ⟨token, -, rfl⟩ := expectTokenType_eq_ok_iff.mp h
    exact Nat.le_succ _

end AgreeWithin

end

/-! ## The steps of the parser -/

namespace SqlParser

section Loops

variable {α : Type} {n : ℕ} {item item' : Parser (Option α)}

/-- The rounds of a list: every item takes a token. -/
theorem commaSeparated_agree (h : AgreeWithin n item item')
    (hitem : ∀ ts a rest, item ts = .ok (some a, rest) → rest.length < ts.length)
    {fuel fuel' : ℕ} {ts : TokenStream} (hts : ts.length ≤ n) (hfuel : ts.length < fuel)
    (hfuel' : ts.length < fuel') :
    AgreeAt 0 ts (commaSeparated item fuel) (commaSeparated item' fuel') := by
  induction fuel generalizing fuel' ts with
  | zero => omega
  | succ fuel ih =>
    obtain _ | fuel' := fuel'
    -- Either side recurses on the tokens behind the comma, fewer than it began with.
    · omega
    rw [commaSeparated, commaSeparated]
    refine (h ts hts).bind fun a us ha hus => ?_
    cases a with
    | none => exact .pure []
    | some a =>
      -- An item that was read took a token with it.
      have hlt := hitem ts a us ha
      refine (AgreeWithin.peekType us hus).bind fun t vs ht hvs => ?_
      cases ht
      split
      · obtain _ | ⟨c, us⟩ := us
        · rename_i hcomma
          cases hcomma
        · rw [List.length_cons] at hlt hus
          exact (AgreeAt.next_bind ((ih (by omega) (by omega) (by omega)).bind
            fun as ws _ _ => .pure _)).weaken
      · exact .pure _

/-- Lists of items that consume tokens agree if the items do: the loop ends within the stream. -/
theorem commaList_agree (h : AgreeWithin n item item')
    (hitem : ∀ ts a rest, item ts = .ok (some a, rest) → rest.length < ts.length) :
    AgreeWithin n (commaList item) (commaList item') := fun ts hts =>
  (commaSeparated_agree h hitem hts (Nat.lt_succ_self ts.length) (Nat.lt_succ_self ts.length)).congr
    rfl rfl

end Loops

variable [FloatModel]

section Steps

variable {n : ℕ} {parse parse' : ℕ → Parser (Option SqlExpr)}

/-- An expression takes a token. -/
theorem Sound.length_lt (hs : Sound parse) {level : ℕ} {ts rest : TokenStream} {e : SqlExpr}
    (h : parse level ts = .ok (some e, rest)) : rest.length < ts.length :=
  (hs _ _ _ h).1.length_le

/-- An expression that has to be there is read alike with a large enough bound. -/
theorem parseExpr_agree (h : ∀ level, AgreeWithin n (parse level) (parse' level)) {message : String}
    (hmessage : .other message ≠ outOfFuel) :
    AgreeWithin n (parseExpr parse message) (parseExpr parse' message) :=
  (h 0).bind fun e => match e with
    | some e => .pure e
    | none => .throw hmessage

/-- So is a list of expressions. -/
theorem parseExprList_agree (h : ∀ level, AgreeWithin n (parse level) (parse' level))
    (hs : Sound parse) : AgreeWithin n (parseExprList parse) (parseExprList parse') :=
  commaList_agree (h 0) fun _ _ _ => hs.length_lt

/-- A sort item is not rejected for a bound used up. -/
theorem normalizeSort_finishes (e : SqlExpr) :
    normalizeSort e ≠ .error outOfFuel := by
  cases e <;> simp [normalizeSort, outOfFuel]

/-- So is a sort item. -/
theorem parseSort_agree (h : ∀ level, AgreeWithin n (parse level) (parse' level)) :
    AgreeWithin n (parseSort parse) (parseSort parse') :=
  (h 0).bind fun e => match e with
    | some e => (AgreeWithin.lift (normalizeSort_finishes e)).bind fun _ => .pure _
    | none => .pure none

/-- So is a list of sort items. -/
theorem parseOrder_agree (h : ∀ level, AgreeWithin n (parse level) (parse' level))
    (hs : Sound parse) : AgreeWithin n (parseOrder parse) (parseOrder parse') :=
  commaList_agree (parseSort_agree h) fun _ _ _ hkey =>
    let ⟨_, he, _⟩ := parseSort_some_iff.mp hkey
    hs.length_lt he

omit [FloatModel] in
/-- A clause that may be missing is read alike if the clause is. -/
theorem optionalClause_agree {α : Type} {keywords : List String} {absent : α}
    {clause clause' : Parser α} (h : AgreeWithin n clause clause') :
    AgreeWithin n (optionalClause keywords absent clause)
      (optionalClause keywords absent clause') :=
  (AgreeWithin.consumeKeywords keywords).bind fun found => match found with
    | true => h
    | false => .pure absent

/-- An identifier that has to be there is read alike with a large enough bound. -/
theorem parseIdentifier_agree (h : ∀ level, AgreeWithin n (parse level) (parse' level)) :
    AgreeWithin n (parseIdentifier parse) (parseIdentifier parse') :=
  (parseExpr_agree h (by decide)).bind fun e => by
    cases e with
    | identifier id => exact .pure id
    | _ => exact .throw (by decide)

/-- So is the name of the table. -/
theorem parseTableName_agree (h : ∀ level, AgreeWithin n (parse level) (parse' level)) :
    AgreeWithin n (parseTableName parse) (parseTableName parse') :=
  (parseExpr_agree h (by decide)).bind fun e => by
    cases e with
    | identifier id => exact .pure id
    | _ => exact .throw (by decide)

/-- So is the number of a limit. -/
theorem parseLimit_agree (h : ∀ level, AgreeWithin n (parse level) (parse' level)) :
    AgreeWithin n (parseLimit parse) (parseLimit parse') :=
  (parseExpr_agree h (by decide)).bind fun e => by
    cases e with
    | long v => exact .pure v.toInt32
    | _ => exact .throw (by decide)

/-- So is a cast behind its keyword. -/
theorem parseCast_agree (h : ∀ level, AgreeWithin n (parse level) (parse' level)) :
    AgreeWithin n (parseCast parse) (parseCast parse') :=
  (AgreeWithin.expectTokenType (by decide)).bind fun _ =>
    (parseExpr_agree h (by decide)).bind fun e => by
      cases e with
      | aliased inner dataType =>
        exact (AgreeWithin.expectTokenType (by decide)).bind fun _ => .pure _
      | _ => exact .throw (by decide)

/-- So is what stands in parentheses. -/
theorem parseParenthesized_agree (h : ∀ level, AgreeWithin n (parse level) (parse' level)) :
    AgreeWithin n (parseParenthesized parse) (parseParenthesized parse') :=
  (parseExpr_agree h (by decide)).bind fun e =>
    (AgreeWithin.expectTokenType (by decide)).bind fun _ => .pure e

/-- So is a statement behind `SELECT`, clause by clause. -/
theorem parseSelect_agree (h : ∀ level, AgreeWithin n (parse level) (parse' level))
    (hs : Sound parse) : AgreeWithin n (parseSelect parse) (parseSelect parse') := by
  refine (parseExprList_agree h hs).bind fun projection => ?_
  refine (AgreeWithin.consumeKeyword "FROM").bind fun found => ?_
  cases found with
  | false => exact AgreeWithin.throw (by decide)
  | true =>
    refine (parseTableName_agree h).bind fun tableName => ?_
    refine (optionalClause_agree (h 0)).bind fun selection => ?_
    refine (optionalClause_agree (parseExprList_agree h hs)).bind fun groupBy => ?_
    refine (optionalClause_agree (h 0)).bind fun having => ?_
    refine (optionalClause_agree (parseOrder_agree h hs)).bind fun orderBy => ?_
    exact (optionalClause_agree ((parseLimit_agree h).map some)).bind fun limit => .pure _

/-- So are the arguments of a call. -/
theorem parseArguments_agree (h : ∀ level, AgreeWithin n (parse level) (parse' level))
    (hs : Sound parse) : AgreeWithin n (parseArguments parse) (parseArguments parse') := by
  refine AgreeWithin.peekType.bind fun t => ?_
  have hclose : ∀ args : List SqlExpr, AgreeWithin n
      (do
        expectTokenType (.symbol .rightParen) "Expected ')' after function arguments"
        return args)
      (do
        expectTokenType (.symbol .rightParen) "Expected ')' after function arguments"
        return args) := fun args =>
    (AgreeWithin.expectTokenType (by decide)).bind fun _ => .pure args
  dsimp only
  split
  · exact (AgreeWithin.pure []).bind hclose
  · exact (parseExprList_agree h hs).bind hclose

omit [FloatModel] in
/-- A text that has to be there uses up no bound. -/
theorem parseText_agree {message : String} (hmessage : .other message ≠ outOfFuel) :
    AgreeWithin n (parseText message) (parseText message) := by
  intro ts _
  refine ⟨rfl, fun h => ?_, fun {text rest} h => ?_⟩
  · obtain _ | ⟨⟨text, tokenType, endOffset⟩, ts⟩ := ts
    · exact hmessage (Except.error.inj h)
    · by_cases ht : tokenType = .literal .string
      · subst ht
        cases h
      · have hthrow : parseText message (⟨text, tokenType, endOffset⟩ :: ts) =
            .error (.other message) := by
          rcases tokenType with _ | _ | (_ | _ | _ | _) <;> first | rfl | exact absurd rfl ht
        exact hmessage (Except.error.inj (hthrow.symm.trans h))
  · obtain ⟨t, -, -, rfl⟩ := parseText_eq_ok_iff.mp h
    exact Nat.le_succ _

/-- What begins with a token is read alike with a large enough bound, whatever the token is. -/
theorem parsePrefixToken_agree (h : ∀ level, AgreeWithin n (parse level) (parse' level))
    (hs : Sound parse) (token : Token) :
    AgreeWithin n (parsePrefixToken parse token) (parsePrefixToken parse' token) := by
  unfold parsePrefixToken
  split
  case h_1 => exact (parseSelect_agree h hs).map _
  case h_2 => exact parseCast_agree h
  case h_3 | h_4 => exact (parseText_agree (by decide)).map _
  case h_14 | h_15 =>
    split
    · exact .pure _
    · exact .throw (by simp [outOfFuel])
  case h_16 => exact parseParenthesized_agree h
  case h_18 => exact .throw (by decide)
  all_goals exact .pure _

/-- An infix token is taken before anything else is read. -/
theorem parseInfixToken_agree (h : ∀ level, AgreeWithin n (parse level) (parse' level))
    (hs : Sound parse) (token : Token) (left : SqlExpr) (precedence : ℕ) {t : Token}
    {ts : TokenStream} (hts : ts.length ≤ n) :
    AgreeAt 1 (t :: ts) (parseInfixToken parse token left precedence)
      (parseInfixToken parse' token left precedence) := by
  -- The arms of the binary operators differ in nothing but the text of the operator.
  have hbinary : AgreeAt 1 (t :: ts) (parseBinary parse left token.text precedence)
      (parseBinary parse' left token.text precedence) := by
    refine .next_bind ((h precedence ts hts).bind fun e us _ _ => ?_)
    cases e with
    | some r => exact .pure _
    | none => exact .throw (by decide)
  unfold parseInfixToken
  split
  case h_12 =>
    exact .next_bind ((parseIdentifier_agree h ts hts).bind fun name us _ _ => .pure _)
  case h_15 | h_16 => exact .next_bind (.pure _)
  case h_17 =>
    cases left with
    | identifier id =>
      exact .next_bind ((parseArguments_agree h hs ts hts).bind fun args us _ _ => .pure _)
    | _ => exact .throw (by decide)
  case h_18 => exact .throw (by decide)
  all_goals exact hbinary

/-- The rounds of the Pratt loop: every infix operator takes a token. -/
theorem infixLoop_agree (h : ∀ level, AgreeWithin n (parse level) (parse' level))
    (hs : Sound parse) {level fuel fuel' : ℕ} {ts : TokenStream} (hts : ts.length ≤ n + 1)
    (hfuel : ts.length < fuel) (hfuel' : ts.length < fuel') (expr : SqlExpr) :
    AgreeAt 0 ts (infixLoop parse level fuel expr) (infixLoop parse' level fuel' expr) := by
  induction fuel generalizing fuel' ts expr with
  | zero => omega
  | succ fuel ih =>
    obtain _ | fuel' := fuel'
    · omega
    rw [infixLoop, infixLoop]
    have hnext : AgreeAt 0 ts nextPrecedence nextPrecedence :=
      .of_ok (nextPrecedence_apply ts) (nextPrecedence_apply ts) (Nat.le_refl _)
    refine hnext.bind fun next us hok _ => ?_
    rw [nextPrecedence_apply] at hok
    cases hok
    split
    · rename_i hlevel
      obtain _ | ⟨t, ts⟩ := ts
      · exact absurd hlevel (Nat.not_lt_zero level)
      rw [List.length_cons] at hts hfuel hfuel'
      have hstep : AgreeAt 1 (t :: ts) (parseInfix parse expr (precedenceAt (t :: ts)))
          (parseInfix parse' expr (precedenceAt (t :: ts))) :=
        (parseInfixToken_agree h hs t expr _ (by omega)).congr rfl rfl
      refine hstep.weaken.bind fun e us he _ => ?_
      have hlt := hstep.length_le he
      rw [List.length_cons] at hlt
      exact ih (by omega) (by omega) (by omega) e
    · exact .pure expr

end Steps

/-- With more nested calls than there are tokens, the bound on them does not matter. -/
theorem parseFuel_agree {n fuel fuel' : ℕ} (hfuel : n < fuel) (hfuel' : n < fuel') (level : ℕ) :
    AgreeWithin n (parseFuel fuel level) (parseFuel fuel' level) := by
  -- The loop goes round once for each operator, which takes a token.
  induction n generalizing fuel fuel' level with
  | zero =>
    intro ts hts
    obtain rfl := List.length_eq_zero_iff.mp (Nat.le_zero.mp hts)
    exact .of_ok (parseFuel_nil hfuel) (parseFuel_nil hfuel') (Nat.le_refl _)
  | succ n ih =>
    obtain _ | fuel := fuel
    · omega
    obtain _ | fuel' := fuel'
    · omega
    have hparse : ∀ level, AgreeWithin n (parseFuel fuel level) (parseFuel fuel' level) :=
      fun level => ih (by omega) (by omega) level
    intro ts hts
    rw [parseFuel, parseFuel]
    -- The first operand takes a token, so what it calls runs on fewer.
    have hfirst : AgreeAt 0 ts (parsePrefix (parseFuel fuel)) (parsePrefix (parseFuel fuel')) := by
      obtain _ | ⟨t, ts⟩ := ts
      · exact (AgreeAt.pure (none : Option SqlExpr)).congr rfl rfl
      · exact (AgreeAt.next_bind ((parsePrefixToken_agree hparse (parseFuel_sound fuel) t).map some
          ts (Nat.le_of_succ_le_succ hts))).weaken
    refine hfirst.bind fun first us _ hus => ?_
    cases first with
    | none => exact .pure none
    -- The loop gets as much fuel as there are tokens left.
    | some e =>
      exact ((infixLoop_agree hparse (parseFuel_sound fuel) (Nat.le_trans hus hts)
        (Nat.lt_succ_self us.length) (Nat.lt_succ_self us.length) e).bind
          fun e _ _ _ => .pure (some e)).congr rfl rfl

/-- With the bound that the parser starts with, what is read is spelled by the tokens consumed. -/
theorem parse_sound : Sound parse := fun level ts r h => parseFuel_sound _ level ts r h

/-- Within any length the parser with its own bound agrees with itself: the bound is never used up. -/
theorem parse_agree (n level : ℕ) : AgreeWithin n (parse level) (parse level) := fun ts _ =>
  (parseFuel_agree (Nat.lt_succ_self ts.length) (Nat.lt_succ_self ts.length) level ts
    (Nat.le_refl _)).congr rfl rfl

/-- Nothing is read only at the end of the text. -/
theorem parse_none {level : ℕ} {ts rest : TokenStream} (h : parse level ts = .ok (none, rest)) :
    ts = [] ∧ rest = [] :=
  parse_sound _ _ _ h

/-- An expression ends at a later position of the text. -/
theorem parse_some {level i : ℕ} {tokens rest : TokenStream} {e : SqlExpr}
    (h : parse level (tokens.drop i) = .ok (some e, rest)) :
    ∃ j, i < j ∧ j ≤ tokens.length ∧ rest = tokens.drop j := by
  have hlt := parse_sound.length_lt h
  obtain ⟨taken, htaken⟩ := (parse_sound _ _ _ h).1.suffix
  have hlength := congrArg List.length htaken
  rw [List.length_append] at hlength
  rw [List.length_drop] at hlt hlength
  refine ⟨i + taken.length, by omega, by omega, ?_⟩
  rw [← List.drop_drop, ← htaken, List.drop_left]

/-- From any position of any tokens, `parse` panics, or returns nothing at the end of the tokens and
stays there, or returns an expression and moves on, at most to the end. No call of it nests deeper
than there are tokens left, and neither it nor the loops of lists, sort keys and infix operators take
more rounds than that. -/
theorem parse_progress (tokens : TokenStream) (i level : ℕ) :
    (match parse level (tokens.drop i) with
      | .error e => e ≠ outOfFuel
      | .ok (none, rest) => tokens.length ≤ i ∧ rest = tokens.drop i
      | .ok (some _, rest) => ∃ j, i < j ∧ j ≤ tokens.length ∧ rest = tokens.drop j) ∧
    (∀ fuel, (tokens.drop i).length < fuel →
      parseFuel fuel level (tokens.drop i) = parse level (tokens.drop i)) ∧
    parseExprList parse (tokens.drop i) ≠ .error outOfFuel ∧
    parseOrder parse (tokens.drop i) ≠ .error outOfFuel ∧
    ∀ fuel expr, (tokens.drop i).length < fuel →
      infixLoop parse level fuel expr (tokens.drop i) ≠ .error outOfFuel := by
  have hagree := fun level => parse_agree (tokens.drop i).length level
  refine ⟨?_, fun fuel hfuel => ?_, ?_, ?_, fun fuel expr hfuel => ?_⟩
  · cases h : parse level (tokens.drop i) with
    | error e =>
      rintro rfl
      exact (hagree level _ (Nat.le_refl _)).finishes h
    | ok r =>
      obtain ⟨_ | e, rest⟩ := r
      · obtain ⟨hend, rfl⟩ := parse_none h
        exact ⟨List.drop_eq_nil_iff.mp hend, hend.symm⟩
      · exact parse_some h
  · exact (parseFuel_agree hfuel (Nat.lt_succ_self _) level _ (Nat.le_refl _)).eq
  · exact (parseExprList_agree hagree parse_sound _ (Nat.le_refl _)).finishes
  · exact (parseOrder_agree hagree parse_sound _ (Nat.le_refl _)).finishes
  · exact (infixLoop_agree hagree parse_sound (Nat.le_succ _) hfuel hfuel expr).finishes

end SqlParser

end RQuery
