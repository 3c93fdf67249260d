import RQuery.Sql.ParserCorrect

/-!
# Printed statements

A statement printed as tokens, with parentheses only around an operand that binds less tight than
its operator needs: the right operand of an operator has to bind tighter, the left one as tight. The
parser reads the printed statement back (`parse_print`).
-/

namespace RQuery

/-- A token without its place in the text. -/
abbrev Lexeme := String × TokenType

/-- The text and the kind of a token. -/
def Token.lexeme (t : Token) : Lexeme := (t.text, t.tokenType)

namespace Lexeme

def ofKeyword (k : Keyword) : Lexeme := (k.name, .keyword k)

def ofSymbol (text : String) (s : Symbol) : Lexeme := (text, .symbol s)

/-- A string literal. -/
def ofString (value : String) : Lexeme := (value, .literal .string)

/-- A number without a sign. -/
def ofNat (n : ℕ) : Lexeme := (n.repr, .literal .long)

def comma : Lexeme := ofSymbol "," .comma

/-- Parentheses, where they are needed. -/
def parenthesized (needed : Bool) (lexemes : List Lexeme) : List Lexeme :=
  if needed then ofSymbol "(" .leftParen :: lexemes ++ [ofSymbol ")" .rightParen] else lexemes

variable [UnicodeTables]

/-- A name. Some of the keywords are read as one. -/
def ofName (id : String) : Lexeme :=
  if id = "*" then ofSymbol id .star
  else
    match Keyword.textOf id with
    | some k => if (TokenType.keyword k).isName then (id, .keyword k) else (id, .literal .identifier)
    | none => (id, .literal .identifier)

end Lexeme

section

variable [UnicodeTables]

/-- The two-operand operator with this text that has a precedence. -/
def operatorType (op : String) : Option TokenType :=
  (((Symbol.textOf op).map .symbol).or ((Keyword.textOf op).map .keyword)).filter fun t =>
    t.isOperator && 0 < SqlParser.precedence t

/-- The precedence of an operator, by its text. -/
def operatorPrecedence (op : String) : ℕ := ((operatorType op).map SqlParser.precedence).getD 0

end

open Lexeme

section

variable [FloatModel]

namespace SqlExpr

section

variable [UnicodeTables]

/-- How tight the operands of an expression are bound, a call or an operand being the tightest. -/
def bindingPower : SqlExpr → ℕ
  | .binaryExpr _ op _ => operatorPrecedence op
  | _ => 70

mutual

/-- An expression as tokens. -/
def print : SqlExpr → List Lexeme
  | .identifier id => [ofName id]
  | .string value => [ofString value]
  | .long value => [ofNat value.toInt.toNat]
  | .date value => [ofKeyword .date, ofString value]
  | .interval value => [ofKeyword .interval, ofString value]
  | .function id args =>
    ofName id :: ofSymbol "(" .leftParen :: printList args ++ [ofSymbol ")" .rightParen]
  | .cast e dataType =>
    ofKeyword .cast :: ofSymbol "(" .leftParen ::
      print e ++ [ofKeyword .as, ofName dataType, ofSymbol ")" .rightParen]
  | .binaryExpr l op r =>
    parenthesized (l.bindingPower < operatorPrecedence op) (print l) ++
      ((operatorType op).map fun t => (op, t)).toList ++
      parenthesized (r.bindingPower ≤ operatorPrecedence op) (print r)
  | .aliased e name => print e ++ [ofKeyword .as, ofName name]
  | .sort e asc => print e ++ [ofKeyword (if asc then .asc else .desc)]
  -- no expressions of a printed statement
  | .double _ | .select _ => []

/-- Expressions with commas between them. -/
def printList : List SqlExpr → List Lexeme
  | [] => []
  | e :: es => print e ++ (if es.isEmpty then [] else comma :: printList es)

end

end

variable [UnicodeTables]

/-- The expressions a printed statement is built from. -/
inductive Plain : SqlExpr → Prop
  | identifier (id : String) : Plain (.identifier id)
  | string (value : String) : Plain (.string value)
  | long {value : Int64} (hvalue : 0 ≤ value) : Plain (.long value)
  | date (value : String) : Plain (.date value)
  | interval (value : String) : Plain (.interval value)
  | function {id : String} {args : List SqlExpr} (hargs : ∀ e ∈ args, Plain e) :
    Plain (.function id args)
  | cast {e : SqlExpr} {dataType : String} (he : Plain e) : Plain (.cast e dataType)
  | binaryExpr {l r : SqlExpr} {op : String} (hl : Plain l) (hop : (operatorType op).isSome)
      (hr : Plain r) : Plain (.binaryExpr l op r)

/-- A select item, which can have an alias. -/
inductive Item : SqlExpr → Prop
  | plain {e : SqlExpr} (he : Plain e) : Item e
  | aliased {e : SqlExpr} {name : String} (he : Plain e) : Item (.aliased e name)

/-- A sort key. -/
inductive SortKey : SqlExpr → Prop
  | sort {e : SqlExpr} {asc : Bool} (he : Plain e) : SortKey (.sort e asc)

end SqlExpr

namespace SqlSelect

variable [UnicodeTables]

/-- The statements that are printed. -/
structure Plain (s : SqlSelect) : Prop where
  projection_ne_nil : s.projection ≠ []
  projection : ∀ e ∈ s.projection, e.Item
  selection : ∀ e ∈ s.selection, e.Plain
  groupBy : ∀ e ∈ s.groupBy, e.Plain
  having : ∀ e ∈ s.having, e.Plain
  orderBy : ∀ e ∈ s.orderBy, e.SortKey
  limit : ∀ n ∈ s.limit, 0 ≤ n

def printCondition (k : Keyword) : Option SqlExpr → List Lexeme
  | none => []
  | some e => ofKeyword k :: e.print

def printListing (k : Keyword) (es : List SqlExpr) : List Lexeme :=
  if es.isEmpty then [] else ofKeyword k :: ofKeyword .«by» :: SqlExpr.printList es

def printLimit : Option Int32 → List Lexeme
  | none => []
  | some n => [ofKeyword .limit, ofNat n.toInt.toNat]

/-- A statement as tokens. -/
def print (s : SqlSelect) : List Lexeme :=
  ofKeyword .select :: SqlExpr.printList s.projection ++
    ofKeyword .«from» :: ofName s.tableName :: printCondition .«where» s.selection ++
    printListing .group s.groupBy ++ printCondition .having s.having ++
    printListing .order s.orderBy ++ printLimit s.limit

end SqlSelect

/-! ## Reading back an expression -/

open TokenStream SqlParser

section

variable [UnicodeTables]

omit [FloatModel] in
/-- The token of an operator is one, and binds as tightly as the operator, tighter than `AS`. -/
theorem operatorType_spec {op : String} {t : TokenType} (h : operatorType op = some t) :
    t.isOperator ∧ 10 < precedence t ∧ operatorPrecedence op = precedence t := by
  have hprecedence : operatorPrecedence op = precedence t := by rw [operatorPrecedence, h]; rfl
  rw [operatorType, Option.filter_eq_some_iff, Bool.and_eq_true, decide_eq_true_iff] at h
  obtain ⟨-, hop, hpos⟩ := h
  refine ⟨hop, ?_, hprecedence⟩
  cases t with
  | keyword k => cases k <;> first | decide | cases hop
  | symbol s =>
    -- `<>` is the operator without a precedence
    cases s <;> first | decide | exact absurd hop (by decide) | exact absurd hpos (by decide)
  | literal l => cases hop

/-- The token of a name is read as an identifier. -/
theorem spells_name {id : String} {t : Token} {rest : TokenStream} (ht : t.lexeme = ofName id) :
    Spells False (.operand (.identifier id)) (t :: rest) rest := by
  unfold ofName at ht
  -- A star is printed as its symbol, a keyword as a bare word where it may stand for a name, and
  -- anything else as an identifier.
  split at ht
  · rename_i hid
    rw [hid]
    exact .star (congrArg Prod.snd ht)
  · obtain rfl : t.text = id := by
      split at ht
      · split at ht <;> exact congrArg Prod.fst ht
      · exact congrArg Prod.fst ht
    refine .name ?_
    split at ht
    · split at ht
      · rename_i hname
        rw [show t.tokenType = _ from congrArg Prod.snd ht]
        exact hname
      · rw [show t.tokenType = _ from congrArg Prod.snd ht]
        rfl
    · rw [show t.tokenType = _ from congrArg Prod.snd ht]
      rfl

omit [UnicodeTables] in
/-- The token of a number that 64 bits hold is read as the number. -/
theorem spells_long {n : ℕ} {t : Token} (rest : TokenStream) (ht : t.lexeme = ofNat n)
    (hn : n < 2 ^ 63) : Spells False (.operand (.long (Int64.ofNat n))) (t :: rest) rest := by
  refine .long (congrArg Prod.snd ht) ?_
  rw [show t.text = n.repr from congrArg Prod.fst ht]
  exact Text.parseInt64_repr hn

/-- The tokens of an expression are read as the expression, in front of anything that binds no
tighter, by a parse that starts below its binding power. -/
def Readable (e : SqlExpr) : Prop :=
  ∀ ts : TokenStream, ts.map Token.lexeme = e.print → ∀ level < e.bindingPower, ∀ rest,
    precedenceAt rest ≤ e.bindingPower → Spells False (.expr level e) (ts ++ rest) rest

/-- An operand in parentheses is read at every level. -/
theorem Readable.parenthesized {e : SqlExpr} (he : Readable e) (hpos : 0 < e.bindingPower)
    {needed : Bool} {ts : TokenStream}
    (hts : ts.map Token.lexeme = Lexeme.parenthesized needed e.print) {level : ℕ}
    {rest : TokenStream}
    (hneeded : needed = false → level < e.bindingPower ∧ precedenceAt rest ≤ e.bindingPower) :
    Spells False (.expr level e) (ts ++ rest) rest := by
  cases needed with
  | false => exact he ts hts level (hneeded rfl).1 rest (hneeded rfl).2
  | true =>
    obtain ⟨l, us, rfl, hl, hus⟩ := List.map_eq_cons_iff.mp hts
    obtain ⟨vs, rs, rfl, hvs, hrs⟩ := List.map_eq_append_iff.mp hus
    obtain ⟨r, _, rfl, hr, hnil⟩ := List.map_eq_cons_iff.mp hrs
    obtain rfl := List.map_eq_nil_iff.mp hnil
    have hr : r.tokenType = .symbol .rightParen := congrArg Prod.snd hr
    refine .operand (.paren (congrArg Prod.snd hl) ?_ hr)
    show Spells False _ (vs ++ [r] ++ rest) _
    rw [List.append_assoc]
    exact he vs hvs 0 hpos _ (by simp [hr, precedence])

/-- An item of a list, read up to the comma or the end of the list. -/
def ReadableItem (e : SqlExpr) : Prop :=
  ∀ ts : TokenStream, ts.map Token.lexeme = e.print → ∀ rest, precedenceAt rest = 0 →
    Spells False (.expr 0 e) (ts ++ rest) rest

/-- An expression that can be read can be read in a list. -/
theorem Readable.item {e : SqlExpr} (he : Readable e) (hpos : 0 < e.bindingPower) :
    ReadableItem e :=
  fun ts hts rest hrest => he ts hts 0 hpos rest (by omega)

/-- A list of items that can be read is read, up to what is no comma. -/
theorem spells_exprs {es : List SqlExpr} (hne : es ≠ []) (hes : ∀ e ∈ es, ReadableItem e)
    {ts : TokenStream} (hts : ts.map Token.lexeme = SqlExpr.printList es) {rest : TokenStream}
    (hrest : precedenceAt rest = 0) (hcomma : rest.head?.map Token.tokenType ≠ some (.symbol .comma)) :
    Spells False (.exprs es) (ts ++ rest) rest := by
  induction es generalizing ts with
  | nil => exact absurd rfl hne
  | cons e es ih =>
    obtain ⟨us, vs, rfl, hus, hvs⟩ := List.map_eq_append_iff.mp hts
    have he := hes e List.mem_cons_self us hus
    cases es with
    | nil =>
      obtain rfl := List.map_eq_nil_iff.mp hvs
      rw [List.append_nil]
      exact .last (he rest hrest) hrest hcomma
    | cons e' es =>
      obtain ⟨c, ws, rfl, hc, hws⟩ := List.map_eq_cons_iff.mp hvs
      have hc : c.tokenType = .symbol .comma := congrArg Prod.snd hc
      rw [List.append_assoc]
      refine .cons (he _ (by simp [hc, precedence])) hc ?_
      exact ih (List.cons_ne_nil e' es) (fun e h => hes e (List.mem_cons_of_mem _ h)) hws

/-- The tokens of `AS` and a name, behind an expression. -/
theorem spells_aliased {e : SqlExpr} {name : String} {t u : Token} {ts rest : TokenStream}
    (he : Spells False (.expr 0 e) ts (t :: u :: rest)) (ht : t.lexeme = ofKeyword .as)
    (hu : u.lexeme = ofName name) (hrest : precedenceAt rest = 0) :
    Spells False (.expr 0 (.aliased e name)) ts rest :=
  .aliased he (congrArg Prod.snd ht) (by decide) (.operand (spells_name hu)) hrest

omit [FloatModel] [UnicodeTables] in
/-- `AS` binds least of all. -/
theorem precedenceAt_as {t : Token} {rest : TokenStream} (ht : t.lexeme = ofKeyword .as) :
    precedenceAt (t :: rest) = 10 := by
  have ht : t.tokenType = .keyword .as := congrArg Prod.snd ht
  simp [ht, precedence]

/-- Every operator binds tighter than `AS` and the sort directions. -/
theorem SqlExpr.Plain.lt_bindingPower {e : SqlExpr} (h : e.Plain) : 10 < e.bindingPower := by
  cases h with
  | binaryExpr hl hop hr =>
    obtain ⟨t, ht⟩ := Option.isSome_iff_exists.mp hop
    obtain ⟨-, hlt, heq⟩ := operatorType_spec ht
    exact Nat.lt_of_lt_of_eq hlt heq.symm
  | _ => exact Nat.lt_add_of_pos_right (Nat.succ_pos 59)

/-- A plain expression binds tighter than the end of the text. -/
theorem SqlExpr.Plain.bindingPower_pos {e : SqlExpr} (h : e.Plain) : 0 < e.bindingPower :=
  Nat.zero_lt_of_lt h.lt_bindingPower

/-- A plain expression is read as it was printed. -/
theorem SqlExpr.Plain.readable {e : SqlExpr} (h : e.Plain) : Readable e := by
  induction h with
  | identifier id =>
    intro ts hts level _ rest _
    obtain ⟨t, us, rfl, ht, hus⟩ := List.map_eq_cons_iff.mp hts
    obtain rfl := List.map_eq_nil_iff.mp hus
    exact .operand (spells_name ht)
  | string value =>
    intro ts hts level _ rest _
    obtain ⟨t, us, rfl, ht, hus⟩ := List.map_eq_cons_iff.mp hts
    obtain rfl := List.map_eq_nil_iff.mp hus
    obtain rfl : t.text = value := congrArg Prod.fst ht
    exact .operand (.string (congrArg Prod.snd ht))
  | @long value hvalue =>
    intro ts hts level _ rest _
    obtain ⟨t, us, rfl, ht, hus⟩ := List.map_eq_cons_iff.mp hts
    obtain rfl := List.map_eq_nil_iff.mp hus
    have hlong := spells_long rest ht (by have := value.toInt_lt; omega)
    rw [show Int64.ofNat value.toInt.toNat = value from Int64.ofNat_toNatClampNeg value hvalue] at hlong
    exact .operand hlong
  | date value | interval value =>
    intro ts hts level _ rest _
    obtain ⟨k, us, rfl, hk, hus⟩ := List.map_eq_cons_iff.mp hts
    obtain ⟨t, vs, rfl, ht, hvs⟩ := List.map_eq_cons_iff.mp hus
    obtain rfl := List.map_eq_nil_iff.mp hvs
    obtain rfl : t.text = value := congrArg Prod.fst ht
    first
    | exact .operand (.date (congrArg Prod.snd hk) (congrArg Prod.snd ht))
    | exact .operand (.interval (congrArg Prod.snd hk) (congrArg Prod.snd ht))
  | @function id args hargs ih =>
    intro ts hts level hlevel rest _
    obtain ⟨t, us, rfl, ht, hus⟩ := List.map_eq_cons_iff.mp hts
    obtain ⟨l, vs, rfl, hl, hvs⟩ := List.map_eq_cons_iff.mp hus
    obtain ⟨ws, rs, rfl, hws, hrs⟩ := List.map_eq_append_iff.mp hvs
    obtain ⟨r, _, rfl, hr, hnil⟩ := List.map_eq_cons_iff.mp hrs
    obtain rfl := List.map_eq_nil_iff.mp hnil
    have hr : r.tokenType = .symbol .rightParen := congrArg Prod.snd hr
    -- The name of a function stands in front of its arguments as an operand.
    refine .call (.operand (spells_name ht)) (congrArg Prod.snd hl) hlevel ?_
    rw [List.append_eq, List.append_assoc]
    cases args with
    | nil =>
      obtain rfl := List.map_eq_nil_iff.mp hws
      exact .noArguments hr
    | cons e es =>
      refine .arguments (spells_exprs (List.cons_ne_nil e es) ?_ hws ?_ ?_) hr
      · exact fun e he => (ih e he).item (hargs e he).bindingPower_pos
      · simp [hr, precedence]
      · simp [hr]
  | @cast e dataType he ih =>
    intro ts hts level _ rest _
    obtain ⟨k, us, rfl, hk, hus⟩ := List.map_eq_cons_iff.mp hts
    obtain ⟨l, vs, rfl, hl, hvs⟩ := List.map_eq_cons_iff.mp hus
    obtain ⟨ws, rs, rfl, hws, hrs⟩ := List.map_eq_append_iff.mp hvs
    obtain ⟨t, rs, rfl, ht, hrs⟩ := List.map_eq_cons_iff.mp hrs
    obtain ⟨u, rs, rfl, hu, hrs⟩ := List.map_eq_cons_iff.mp hrs
    obtain ⟨r, rs, rfl, hr, hrs⟩ := List.map_eq_cons_iff.mp hrs
    obtain rfl := List.map_eq_nil_iff.mp hrs
    have hr : r.tokenType = .symbol .rightParen := congrArg Prod.snd hr
    refine .operand (.cast (congrArg Prod.snd hk) (congrArg Prod.snd hl) ?_ hr)
    rw [List.append_eq, List.append_assoc]
    -- The keyword AS binds less than the expression, so the expression ends in front of it.
    refine spells_aliased (ih ws hws 0 he.bindingPower_pos _ ?_) ht hu (by simp [hr, precedence])
    rw [List.cons_append, precedenceAt_as ht]
    exact Nat.le_of_lt he.lt_bindingPower
  | @binaryExpr l r op hl hop hr ihl ihr =>
    intro ts hts level hlevel rest hrest
    obtain ⟨us, vs, rfl, hus, hvs⟩ := List.map_eq_append_iff.mp hts
    obtain ⟨ws, os, rfl, hws, hos⟩ := List.map_eq_append_iff.mp hus
    obtain ⟨type, htype⟩ := Option.isSome_iff_exists.mp hop
    obtain ⟨hoperator, -, hprecedence⟩ := operatorType_spec htype
    rw [htype] at hos
    obtain ⟨t, os, rfl, ht, hos⟩ := List.map_eq_cons_iff.mp hos
    obtain rfl := List.map_eq_nil_iff.mp hos
    obtain rfl : t.text = op := congrArg Prod.fst ht
    obtain rfl : t.tokenType = type := congrArg Prod.snd ht
    have hpower : (SqlExpr.binaryExpr l t.text r).bindingPower = precedence t.tokenType := hprecedence
    rw [hpower] at hlevel hrest
    rw [List.append_assoc, List.append_assoc]
    -- The left operand is in parentheses, or binds at least as tight as the operator,
    have hleft : Spells False (.expr level l) (ws ++ t :: (vs ++ rest)) (t :: (vs ++ rest)) := by
      refine ihl.parenthesized hl.bindingPower_pos hws fun hneeded => ?_
      have hle := of_decide_eq_false hneeded
      rw [hprecedence, Nat.not_lt] at hle
      exact ⟨Nat.lt_of_lt_of_le hlevel hle, hle⟩
    refine .binary hleft hoperator hlevel (ihr.parenthesized hr.bindingPower_pos hvs ?_) hrest
    -- and the right one binds tighter.
    intro hneeded
    have hlt := of_decide_eq_false hneeded
    rw [hprecedence, Nat.not_le] at hlt
    exact ⟨hlt, Nat.le_of_lt (Nat.lt_of_le_of_lt hrest hlt)⟩

/-- So it is in a list. -/
theorem SqlExpr.Plain.readableItem {e : SqlExpr} (h : e.Plain) : ReadableItem e :=
  h.readable.item h.bindingPower_pos

/-- A select item is read as it was printed. -/
theorem SqlExpr.Item.readableItem {e : SqlExpr} (h : e.Item) : ReadableItem e := by
  cases h with
  | plain he => exact he.readableItem
  | aliased he =>
    intro ts hts rest hrest
    obtain ⟨us, vs, rfl, hus, hvs⟩ := List.map_eq_append_iff.mp hts
    obtain ⟨t, vs, rfl, ht, hvs⟩ := List.map_eq_cons_iff.mp hvs
    obtain ⟨u, vs, rfl, hu, hvs⟩ := List.map_eq_cons_iff.mp hvs
    obtain rfl := List.map_eq_nil_iff.mp hvs
    rw [List.append_assoc]
    refine spells_aliased (he.readable us hus 0 he.bindingPower_pos _ ?_) ht hu hrest
    rw [List.cons_append, precedenceAt_as ht]
    exact Nat.le_of_lt he.lt_bindingPower

/-- A sort item is read as it was printed. -/
theorem SqlExpr.SortKey.readableItem {e : SqlExpr} (h : e.SortKey) : ReadableItem e := by
  cases h with
  | @sort e asc he =>
    intro ts hts rest hrest
    obtain ⟨us, vs, rfl, hus, hvs⟩ := List.map_eq_append_iff.mp hts
    obtain ⟨t, vs, rfl, ht, hvs⟩ := List.map_eq_cons_iff.mp hvs
    obtain rfl := List.map_eq_nil_iff.mp hvs
    have ht : t.tokenType = .keyword (if asc then .asc else .desc) := congrArg Prod.snd ht
    have hprecedence : precedenceAt (t :: rest) = 10 := by
      cases asc <;> simp [ht, precedence]
    -- The expression binds tighter than ASC and DESC.
    have hus := he.readable us hus 0 he.bindingPower_pos (t :: rest)
      (hprecedence ▸ Nat.le_of_lt he.lt_bindingPower)
    rw [List.append_assoc]
    cases asc with
    | true => exact .ascending hus ht (by decide)
    | false => exact .descending hus ht (by decide)

/-- A sort item that is printed with its direction keeps it. -/
theorem SqlExpr.SortKey.normalizeSort {e : SqlExpr} (h : e.SortKey) :
    SqlParser.normalizeSort e = .ok e := by
  cases h
  rfl

/-! ## Reading back a statement -/

/-- What is left starts with one of the keywords, if anything is left. -/
def Follows (ks : List Keyword) (ts : TokenStream) : Prop :=
  ∀ t ∈ ts.head?, ∃ k ∈ ks, t.lexeme = ofKeyword k

/-- The keywords that end a select item, a table name or a condition. -/
def clauseKeywords : List Keyword := [.«from», .«where», .group, .having, .order, .limit]

omit [FloatModel] [UnicodeTables] in
/-- What follows one of the keywords follows one of more of them. -/
theorem Follows.mono {ks ks' : List Keyword} {ts : TokenStream} (h : Follows ks ts)
    (hsubset : ks ⊆ ks') : Follows ks' ts := fun t ht =>
  let ⟨k, hk, heq⟩ := h t ht
  ⟨k, hsubset hk, heq⟩

omit [FloatModel] [UnicodeTables] in
/-- No keyword of a clause continues an expression. -/
theorem Follows.precedenceAt {ks : List Keyword} {ts : TokenStream} (h : Follows ks ts)
    (hks : ks ⊆ clauseKeywords) : precedenceAt ts = 0 := by
  obtain _ | ⟨t, ts⟩ := ts
  · rfl
  · obtain ⟨k, hk, heq⟩ := h t rfl
    rw [precedenceAt_cons, show t.tokenType = .keyword k from congrArg Prod.snd heq]
    have := hks hk
    revert this
    cases k <;> decide

omit [FloatModel] [UnicodeTables] in
/-- No keyword of a clause continues a list. -/
theorem Follows.comma {ks : List Keyword} {ts : TokenStream} (h : Follows ks ts) :
    ts.head?.map Token.tokenType ≠ some (.symbol .comma) := by
  obtain _ | ⟨t, ts⟩ := ts
  · exact nofun
  · obtain ⟨k, -, heq⟩ := h t rfl
    rw [List.head?_cons, Option.map_some, show t.tokenType = .keyword k from congrArg Prod.snd heq]
    exact nofun

omit [FloatModel] [UnicodeTables] in
/-- A clause is absent in front of the keywords of later ones. -/
theorem Follows.behind {ks : List Keyword} {ts : TokenStream} (h : Follows ks ts) {name : String}
    {names : List String} (hks : ∀ k ∈ ks, Text.eqIgnoreAsciiCase k.name name = false) :
    behind (name :: names) ts = none := by
  obtain _ | ⟨t, ts⟩ := ts
  · rfl
  · obtain ⟨k, hk, heq⟩ := h t rfl
    have hkeyword : isKeyword t name = false := by
      rw [isKeyword, show t.tokenType = .keyword k from congrArg Prod.snd heq,
        show t.text = k.name from congrArg Prod.fst heq]
      exact hks k hk
    rw [TokenStream.behind, hkeyword]
    rfl

omit [FloatModel] [UnicodeTables] in
/-- The token of a keyword is that keyword. -/
theorem isKeyword_of_lexeme {t : Token} {k : Keyword} (ht : t.lexeme = ofKeyword k) :
    isKeyword t k.name := by
  rw [isKeyword, show t.tokenType = .keyword k from congrArg Prod.snd ht,
    show t.text = k.name from congrArg Prod.fst ht]
  exact decide_eq_true rfl

omit [FloatModel] [UnicodeTables] in
/-- The token of a keyword begins the next clause. -/
theorem follows_cons {t : Token} {k : Keyword} {ks : List Keyword} {ts : TokenStream}
    (ht : t.lexeme = ofKeyword k) (hk : k ∈ ks) : Follows ks (t :: ts) := by
  intro u hu
  obtain rfl : t = u := Option.some.inj hu
  exact ⟨k, hk, ht⟩

/-- A clause with a condition, in front of later clauses. -/
theorem spells_condition {k : Keyword} {ks : List Keyword} {e : Option SqlExpr}
    (he : ∀ e' ∈ e, e'.Plain) {ts rest : TokenStream}
    (hts : ts.map Token.lexeme = SqlSelect.printCondition k e) (hrest : Follows ks rest)
    (hks : ks ⊆ clauseKeywords)
    (hk : ∀ k' ∈ ks, Text.eqIgnoreAsciiCase k'.name k.name = false) :
    Spells False (.condition [k.name] e) (ts ++ rest) rest ∧ Follows (k :: ks) (ts ++ rest) := by
  cases e with
  | none =>
    obtain rfl := List.map_eq_nil_iff.mp hts
    exact ⟨.noCondition (hrest.behind hk), hrest.mono (List.subset_cons_self k ks)⟩
  | some e =>
    obtain ⟨t, us, rfl, ht, hus⟩ := List.map_eq_cons_iff.mp hts
    have hprecedence := hrest.precedenceAt hks
    have hbehind : behind [k.name] (t :: us ++ rest) = some (us ++ rest) := by
      simp [behind, isKeyword_of_lexeme ht]
    exact ⟨.condition hbehind ((he e rfl).readableItem us hus rest hprecedence) hprecedence,
      follows_cons ht List.mem_cons_self⟩

/-- A clause with a list, in front of later clauses. -/
theorem spells_listing {k : Keyword} {ks : List Keyword} {es : List SqlExpr}
    (hes : ∀ e ∈ es, ReadableItem e) {ts rest : TokenStream}
    (hts : ts.map Token.lexeme = SqlSelect.printListing k es) (hrest : Follows ks rest)
    (hks : ks ⊆ clauseKeywords)
    (hk : ∀ k' ∈ ks, Text.eqIgnoreAsciiCase k'.name k.name = false) :
    Spells False (.listing [k.name, "BY"] es) (ts ++ rest) rest ∧
      Follows (k :: ks) (ts ++ rest) := by
  cases es with
  | nil =>
    obtain rfl := List.map_eq_nil_iff.mp hts
    exact ⟨.noListing (hrest.behind hk), hrest.mono (List.subset_cons_self k ks)⟩
  | cons e es =>
    obtain ⟨t, us, rfl, ht, hus⟩ := List.map_eq_cons_iff.mp hts
    obtain ⟨b, vs, rfl, hb, hvs⟩ := List.map_eq_cons_iff.mp hus
    have hbehind : behind [k.name, "BY"] (t :: b :: vs ++ rest) = some (vs ++ rest) := by
      have hby : isKeyword b "BY" := isKeyword_of_lexeme hb
      simp [behind, isKeyword_of_lexeme ht, hby]
    exact ⟨.listing hbehind
      (spells_exprs (List.cons_ne_nil e es) hes hvs (hrest.precedenceAt hks) hrest.comma),
      follows_cons ht List.mem_cons_self⟩

omit [UnicodeTables] in
/-- A printed limit is read as the limit. -/
theorem spells_limit {n : Option Int32} (hn : ∀ n' ∈ n, 0 ≤ n') {ts : TokenStream}
    (hts : ts.map Token.lexeme = SqlSelect.printLimit n) :
    Spells False (.limit n) ts [] ∧ Follows [.limit] ts := by
  cases n with
  | none =>
    obtain rfl := List.map_eq_nil_iff.mp hts
    exact ⟨.noLimit rfl, nofun⟩
  | some n =>
    obtain ⟨t, us, rfl, ht, hus⟩ := List.map_eq_cons_iff.mp hts
    obtain ⟨v, vs, rfl, hv, hvs⟩ := List.map_eq_cons_iff.mp hus
    obtain rfl := List.map_eq_nil_iff.mp hvs
    have hbehind : behind ["LIMIT"] [t, v] = some [v] := by
      have hlimit : isKeyword t "LIMIT" := isKeyword_of_lexeme ht
      simp [behind, hlimit]
    have hlong := spells_long [] hv (by have := n.toInt_lt; omega)
    -- A LIMIT that is not negative survives the way through a 64-bit literal.
    have hvalue : (Int64.ofNat n.toInt.toNat).toInt32 = n := by
      have hpos : ((n.toInt.toNat : ℕ) : ℤ) = n.toInt :=
        Int.toNat_of_nonneg (Int32.le_iff_toInt_le.mp (hn n rfl))
      rw [← Int64.ofInt_eq_ofNat, hpos, Int64.ofInt_int32ToInt, Int32.toInt32_toInt64]
    have hspells := Spells.limit hbehind (.operand hlong) rfl
    rw [hvalue] at hspells
    exact ⟨hspells, follows_cons ht List.mem_cons_self⟩

/-- A printed statement is read as the statement, to the end of the text. -/
theorem spells_print {s : SqlSelect} (hs : s.Plain) {ts : TokenStream}
    (hts : ts.map Token.lexeme = s.print) : Spells False (.operand (.select s)) ts [] := by
  obtain ⟨us, limit, rfl, hus, hlimit⟩ := List.map_eq_append_iff.mp hts
  obtain ⟨us, order, rfl, hus, horder⟩ := List.map_eq_append_iff.mp hus
  obtain ⟨us, having, rfl, hus, hhaving⟩ := List.map_eq_append_iff.mp hus
  obtain ⟨us, group, rfl, hus, hgroup⟩ := List.map_eq_append_iff.mp hus
  obtain ⟨us, vs, rfl, hus, hvs⟩ := List.map_eq_append_iff.mp hus
  obtain ⟨k, projection, rfl, hk, hprojection⟩ := List.map_eq_cons_iff.mp hus
  obtain ⟨f, vs, rfl, hf, hvs⟩ := List.map_eq_cons_iff.mp hvs
  obtain ⟨t, selection, rfl, ht, hselection⟩ := List.map_eq_cons_iff.mp hvs
  -- the clauses, from the last one on
  obtain ⟨slimit, flimit⟩ := spells_limit hs.limit hlimit
  obtain ⟨sorder, forder⟩ := spells_listing (fun e he => (hs.orderBy e he).readableItem) horder
    flimit (by decide) (by decide)
  obtain ⟨shaving, fhaving⟩ := spells_condition hs.having hhaving forder (by decide) (by decide)
  obtain ⟨sgroup, fgroup⟩ := spells_listing (fun e he => (hs.groupBy e he).readableItem) hgroup
    fhaving (by decide) (by decide)
  obtain ⟨swhere, fwhere⟩ :=
    spells_condition hs.selection hselection fgroup (by decide) (by decide)
  have hfrom : isKeyword f "FROM" := isKeyword_of_lexeme hf
  have ffrom : Follows [.from]
      (f :: t :: (selection ++ (group ++ (having ++ (order ++ limit))))) :=
    follows_cons hf (List.mem_singleton_self _)
  have sprojection := spells_exprs hs.projection_ne_nil
    (fun e he => (hs.projection e he).readableItem) hprojection
    (ffrom.precedenceAt (by decide)) ffrom.comma
  have hkeys : s.orderBy.mapM normalizeSort = .ok s.orderBy := by
    rw [Outcome.mapM_eq_ok_map fun e he => (hs.orderBy e he).normalizeSort, List.map_id']
  have hbehind : behind ["FROM"]
      (f :: t :: (selection ++ (group ++ (having ++ (order ++ limit))))) =
        some (t :: (selection ++ (group ++ (having ++ (order ++ limit))))) := by
    simp [behind, hfrom]
  have hselect := Spells.select sprojection hbehind (.operand (spells_name ht))
    (fwhere.precedenceAt (by decide)) swhere sgroup shaving sorder hkeys slimit
  have hsubselect := Spells.subselect (congrArg Prod.snd hk) hselect
  simpa using hsubselect

/-- The printed statement is read back, to its last token. -/
theorem parse_print {s : SqlSelect} (hs : s.Plain) {tokens : TokenStream}
    (htokens : tokens.map Token.lexeme = s.print) :
    SqlParser.parse 0 tokens = .ok (some (.select s), []) :=
  parse_eq_ok_iff.mpr ⟨(Spells.operand (spells_print hs htokens)).mono False.elim, Nat.le_refl 0⟩

end

end

section

attribute [local instance] integerFloats asciiTables

/-- `SELECT a - (b - 1) AS d FROM t LIMIT 3`. -/
def differenceSelect : SqlSelect where
  projection := [.aliased (.binaryExpr (.identifier "a") "-"
    (.binaryExpr (.identifier "b") "-" (.long 1))) "d"]
  selection := none
  groupBy := []
  orderBy := []
  having := none
  limit := some 3
  tableName := "t"

/-- The statement is plain. -/
theorem differenceSelect_plain : differenceSelect.Plain where
  projection_ne_nil := List.cons_ne_nil _ _
  projection := by
    intro e he
    obtain rfl := List.mem_singleton.mp he
    exact .aliased (.binaryExpr (.identifier "a") (by decide +kernel)
      (.binaryExpr (.identifier "b") (by decide +kernel) (.long (by decide))))
  selection := by rintro _ ⟨⟩
  groupBy := by rintro _ ⟨⟩
  having := by rintro _ ⟨⟩
  orderBy := by rintro _ ⟨⟩
  limit := by
    intro n hn
    obtain rfl : 3 = n := Option.some.inj hn
    decide

/-- The right operand of a difference keeps its parentheses. -/
theorem parse_print_difference : SqlParser.parse 0
    [⟨"SELECT", .keyword .select, 6⟩, ⟨"a", .literal .identifier, 8⟩, ⟨"-", .symbol .sub, 10⟩,
      ⟨"(", .symbol .leftParen, 12⟩, ⟨"b", .literal .identifier, 13⟩, ⟨"-", .symbol .sub, 15⟩,
      ⟨"1", .literal .long, 17⟩, ⟨")", .symbol .rightParen, 18⟩, ⟨"AS", .keyword .as, 21⟩,
      ⟨"d", .literal .identifier, 23⟩, ⟨"FROM", .keyword .«from», 28⟩,
      ⟨"t", .literal .identifier, 30⟩, ⟨"LIMIT", .keyword .limit, 36⟩, ⟨"3", .literal .long, 38⟩] =
    .ok (some (.select differenceSelect), []) :=
  parse_print differenceSelect_plain (by decide +kernel)

end

end RQuery
