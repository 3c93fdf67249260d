import RQuery.Sql.Rendering
import RQuery.Sql.Planner

/-!
# The tables of operators

A tree of the operators that the planner translates, written in full parentheses, is tokenized and
parsed back exactly if none of its operators is `%` or `<>` (`readsBack_iff`). These two are symbols
of the tokenizer and operators of the planner, and `<>` is an infix operator of the parser besides,
but both are missing in the table of precedences, so that an expression ends in front of them.
-/

namespace RQuery

open Lexeme

section

variable [FloatModel]

/-! ## Operators -/

/-- The planner has a translation of the operator. -/
def Translated (op : String) : Prop := ∃ l r e, SqlPlanner.createBinaryExpr op l r = .ok e

/-- The operators of the planner, with their kind of token. -/
def operatorTokens : List Lexeme :=
  [ofSymbol "=" .eq, ofSymbol "!=" .bangEq, ofSymbol "<>" .ltGt, ofSymbol ">" .gt,
    ofSymbol ">=" .gtEq, ofSymbol "<" .lt, ofSymbol "<=" .ltEq, ofKeyword .and, ofKeyword .or,
    ofSymbol "+" .plus, ofSymbol "-" .sub, ofSymbol "*" .star, ofSymbol "/" .slash,
    ofSymbol "%" .percent]

/-- An operator is translated if it has a token. -/
theorem translated_iff {op : String} : Translated op ↔ ∃ l ∈ operatorTokens, l.1 = op := by
  have htexts : operatorTokens.map Prod.fst =
      ["=", "!=", "<>", ">", ">=", "<", "<=", "AND", "OR", "+", "-", "*", "/", "%"] := by decide
  rw [← List.mem_map, htexts]
  constructor
  · rintro ⟨l, r, e, h⟩
    unfold SqlPlanner.createBinaryExpr at h
    split at h
    case h_15 => cases h
    all_goals simp
  · intro h
    simp only [List.mem_cons, List.not_mem_nil, or_false] at h
    refine ⟨.column "l", .column "r", ?_⟩
    rcases h with rfl | rfl | rfl | rfl | rfl | rfl | rfl | rfl | rfl | rfl | rfl | rfl | rfl | rfl
    all_goals exact ⟨_, rfl⟩

omit [FloatModel] in
/-- All but two of the operators of the planner are infix operators with a precedence. -/
theorem operatorTokens_precedence {l : Lexeme} (h : l ∈ operatorTokens) :
    l.2.isOperator = true ∧ 0 < SqlParser.precedence l.2 ↔ l.1 ≠ "%" ∧ l.1 ≠ "<>" := by
  have hall : (operatorTokens.all fun l => decide (l.2.isOperator = true ∧
      0 < SqlParser.precedence l.2 ↔ l.1 ≠ "%" ∧ l.1 ≠ "<>")) = true := by decide
  exact of_decide_eq_true (List.all_eq_true.mp hall l h)

omit [FloatModel] in
/-- The operators of the planner are tokens. -/
theorem operatorTokens_rendered {l : Lexeme} (h : l ∈ operatorTokens) :
    l.Rendered ∧ l.isAmbiguous = false := by
  have hall : (operatorTokens.all fun l => !l.isAmbiguous &&
      match l.2 with
      | .symbol s => decide (Symbol.textOf l.1 = some s ∧ s ≠ .dot ∧ s ≠ .doubleDot)
      | .keyword k => decide (l.1 = k.name)
      | .literal _ => false) = true := by decide
  have hl := List.all_eq_true.mp hall l h
  rw [Bool.and_eq_true, Bool.not_eq_true'] at hl
  refine ⟨?_, hl.1⟩
  obtain ⟨text, k | s | literal⟩ := l
  · have hname : text = k.name := of_decide_eq_true hl.2
    exact hname
  · have hsymbol : Symbol.textOf text = some s ∧ s ≠ .dot ∧ s ≠ .doubleDot :=
      of_decide_eq_true hl.2
    exact hsymbol
  · cases hl.2

/-! ## Trees in full parentheses -/

namespace SqlExpr

/-- The operators of a tree, from left to right. -/
def operators : SqlExpr → List String
  | .binaryExpr l op r => l.operators ++ op :: r.operators
  | _ => []

/-- The trees over identifiers and integers with the operators of the planner. -/
inductive OperatorTree : SqlExpr → Prop
  | identifier {id : String} (hquote : backQuote ∉ id.toList) : OperatorTree (.identifier id)
  | long {value : Int64} (hvalue : 0 ≤ value) : OperatorTree (.long value)
  | binaryExpr {l r : SqlExpr} {op : String} (hl : OperatorTree l) (hop : Translated op)
      (hr : OperatorTree r) : OperatorTree (.binaryExpr l op r)

/-- A tree as tokens, with parentheses around every operator and its operands. -/
def lexemes : SqlExpr → List Lexeme
  | .identifier id => [(id, .literal .identifier)]
  | .long value => [ofNat value.toInt.toNat]
  | .binaryExpr l op r =>
    ofSymbol "(" .leftParen :: (l.lexemes ++ (operatorTokens.find? fun o => o.1 = op).toList ++
      r.lexemes ++ [ofSymbol ")" .rightParen])
  -- no other expressions in a tree
  | _ => []

/-- The token that is found for an operator is one of its. -/
theorem find?_of_translated {op : String} (h : Translated op) :
    ∃ t, (op, t) ∈ operatorTokens ∧ operatorTokens.find? (fun o => o.1 = op) = some (op, t) := by
  obtain ⟨l, hl, htext⟩ := translated_iff.mp h
  have hsome : (operatorTokens.find? fun o => o.1 = op).isSome :=
    List.find?_isSome.mpr ⟨l, hl, decide_eq_true htext⟩
  obtain ⟨⟨text, t⟩, hfound⟩ := Option.isSome_iff_exists.mp hsome
  obtain rfl : text = op := by simpa using List.find?_some hfound
  exact ⟨t, List.mem_of_find?_eq_some hfound, hfound⟩

/-- The tokens of a tree are operands, parentheses and its operators. -/
theorem OperatorTree.mem_lexemes {e : SqlExpr} (h : e.OperatorTree) :
    ∀ l ∈ e.lexemes, (l.2.isOperator = true → l ∈ operatorTokens) ∧
      l.Rendered ∧ l.isAmbiguous = false := by
  induction h with
  | identifier hquote =>
    intro l hl
    obtain rfl := List.mem_singleton.mp hl
    exact ⟨fun hop => absurd hop (by simp [TokenType.isOperator]), hquote, rfl⟩
  | @long value hvalue =>
    intro l hl
    obtain rfl := List.mem_singleton.mp hl
    have hne : (value.toInt.toNat).repr.toList ≠ [] := by
      rw [Nat.toList_repr]
      exact Nat.toDigits_ne_nil
    exact ⟨fun hop => absurd hop (by simp [ofNat, TokenType.isOperator]),
      ⟨hne, fun d hd => Text.isDigit_of_mem_repr hd⟩, rfl⟩
  | @binaryExpr l r op hl hop hr ihl ihr =>
    obtain ⟨t, hmem, hfind⟩ := find?_of_translated hop
    intro o ho
    rw [lexemes, hfind] at ho
    simp only [List.mem_cons, List.mem_append, Option.mem_toList, Option.some.injEq,
      List.not_mem_nil, or_false] at ho
    rcases ho with rfl | ((ho | rfl) | ho) | rfl
    · exact ⟨fun hop => absurd hop (by decide), ⟨by decide, by decide, by decide⟩, rfl⟩
    · exact ihl o ho
    · exact ⟨fun _ => hmem, operatorTokens_rendered hmem⟩
    · exact ihr o ho
    · exact ⟨fun hop => absurd hop (by decide), ⟨by decide, by decide, by decide⟩, rfl⟩

/-! ## Reading a tree -/

open TokenStream SqlParser

/-- A tree with precedences for all its operators is an operand. -/
theorem OperatorTree.spells {e : SqlExpr} (h : e.OperatorTree)
    (hops : ∀ op ∈ e.operators, op ≠ "%" ∧ op ≠ "<>") {ts : TokenStream}
    (hts : ts.map Token.lexeme = e.lexemes) (rest : TokenStream) :
    Spells False (.operand e) (ts ++ rest) rest := by
  induction h generalizing ts rest with
  | identifier hquote =>
    obtain ⟨t, us, rfl, ht, hus⟩ := List.map_eq_cons_iff.mp hts
    obtain rfl := List.map_eq_nil_iff.mp hus
    obtain rfl : t.text = _ := congrArg Prod.fst ht
    have htype : t.tokenType = .literal .identifier := congrArg Prod.snd ht
    exact .name (by rw [htype]; rfl)
  | @long value hvalue =>
    obtain ⟨t, us, rfl, ht, hus⟩ := List.map_eq_cons_iff.mp hts
    obtain rfl := List.map_eq_nil_iff.mp hus
    have hlong := spells_long rest ht (by have := value.toInt_lt; omega)
    rwa [show Int64.ofNat value.toInt.toNat = value from Int64.ofNat_toNatClampNeg value hvalue]
      at hlong
  | @binaryExpr l r op hl hop hr ihl ihr =>
    obtain ⟨tokenType, hmem, hfind⟩ := find?_of_translated hop
    rw [lexemes, hfind] at hts
    -- The tokens are taken apart along the text of the tree: a parenthesis, the left operand, the
    -- operator, the right operand and a parenthesis.
    obtain ⟨p, us, rfl, hp, hus⟩ := List.map_eq_cons_iff.mp hts
    obtain ⟨vs, qs, rfl, hvs, hqs⟩ := List.map_eq_append_iff.mp hus
    obtain ⟨ws, rs, rfl, hws, hrs⟩ := List.map_eq_append_iff.mp hvs
    obtain ⟨ls, os, rfl, hls, hos⟩ := List.map_eq_append_iff.mp hws
    obtain ⟨o, _, rfl, ho, hnil⟩ := List.map_eq_cons_iff.mp hos
    obtain rfl := List.map_eq_nil_iff.mp hnil
    obtain ⟨q, _, rfl, hq, hnil⟩ := List.map_eq_cons_iff.mp hqs
    obtain rfl := List.map_eq_nil_iff.mp hnil
    have hq : q.tokenType = .symbol .rightParen := congrArg Prod.snd hq
    have ho : o.lexeme = (op, tokenType) := ho
    obtain rfl : o.text = op := congrArg Prod.fst ho
    obtain rfl : o.tokenType = tokenType := congrArg Prod.snd ho
    obtain ⟨hoperator, hpos⟩ :=
      (operatorTokens_precedence hmem).mpr (hops o.text (by simp [operators]))
    have hleft := ihl (fun op hop => hops op (by simp [operators, hop])) hls
      (o :: (rs ++ (q :: rest)))
    have hright := ihr (fun op hop => hops op (by simp [operators, hop])) hrs (q :: rest)
    have hbinary : Spells False (.expr 0 (.binaryExpr l o.text r)) _ (q :: rest) :=
      .binary (.operand hleft) hoperator hpos (.operand hright) (by simp [hq, precedence])
    have hparen := Spells.paren (congrArg Prod.snd hp) hbinary hq
    simpa using hparen

end SqlExpr

open TokenStream SqlParser

/-- The operators of an expression. -/
def Phrase.operators : Phrase → List String
  | .operand e | .expr _ e => e.operators
  | _ => []

/-- Every operator of an expression that is read is the text of a token with a precedence. -/
theorem Spells.operators {lax : Prop} {φ : Phrase} {ts rest : TokenStream}
    (h : Spells lax φ ts rest) : ∀ op ∈ φ.operators, ∃ t ∈ ts, t.text = op ∧
      t.tokenType.isOperator = true ∧ 0 < precedence t.tokenType := by
  induction h with
  -- Every operator that was read stands among the tokens with a precedence above the level.
  | paren _ _ _ ih =>
    intro op hop
    obtain ⟨t, ht, hspec⟩ := ih op hop
    exact ⟨t, List.mem_cons_of_mem _ ht, hspec⟩
  | operand _ ih => exact ih
  | @binary level l r t ts us rest hl ht hlevel _ _ ihl ihr =>
    intro op hop
    have htail : ∀ u ∈ t :: us, u ∈ ts := fun u hu => hl.suffix.subset hu
    rcases List.mem_append.mp hop with hop | hop
    · exact ihl op hop
    · rcases List.mem_cons.mp hop with rfl | hop
      · exact ⟨t, htail t List.mem_cons_self, rfl, ht, Nat.zero_lt_of_lt hlevel⟩
      · obtain ⟨u, hu, hspec⟩ := ihr op hop
        exact ⟨u, htail u (List.mem_cons_of_mem t hu), hspec⟩
  | _ =>
    intro op hop
    cases hop

section

variable [UnicodeTables]

namespace Lexeme

/-- Whether the text is scanned as an identifier without quotes. -/
def isWord (id : String) : Bool :=
  match id.toList with
  | [] => false
  | c :: cs => UnicodeTables.isAlphabetic c && !Text.isWhitespace c &&
    cs.all Literal.isIdentifierPart && (Keyword.textOf id).isNone

/-- A token as it is written, an identifier without quotes where it can be. -/
def renderPlain (l : Lexeme) : String :=
  if l.2 = .literal .identifier ∧ isWord l.1 then l.1 else l.render

omit [FloatModel] in
/-- A lexeme that is rendered plainly is written. -/
theorem Rendered.writtenPlain {l : Lexeme} (h : l.Rendered) : Written l l.renderPlain.toList := by
  unfold renderPlain
  split
  · rename_i hword
    obtain ⟨text, tokenType⟩ := l
    -- An identifier that is a word may be written without quotes.
    obtain ⟨rfl, hword⟩ : tokenType = .literal .identifier ∧ isWord text = true := hword
    unfold isWord at hword
    split at hword
    · cases hword
    · rename_i c cs htext
      simp only [Bool.and_eq_true, Bool.not_eq_true', List.all_eq_true,
        Option.isNone_iff_eq_none] at hword
      obtain ⟨⟨⟨hstart, hspace⟩, hpart⟩, hkeyword⟩ := hword
      have hofList : text = String.ofList (c :: cs) := by rw [← htext, String.ofList_toList]
      rw [hofList] at hkeyword ⊢
      rw [String.toList_ofList]
      exact .word hstart hspace hpart hkeyword
  · exact h.written

omit [FloatModel] [UnicodeTables] in
/-- Without ambiguous words nothing is asked of `BY`. -/
theorem beforeBy_of_not_isAmbiguous {ls : List Lexeme} (h : ∀ l ∈ ls, l.isAmbiguous = false) :
    BeforeBy ls := by
  induction ls with
  | nil => trivial
  | cons l ls ih =>
    obtain ⟨hl, hls⟩ := List.forall_mem_cons.mp h
    exact ⟨fun hambiguous => absurd hambiguous (by rw [hl]; exact Bool.false_ne_true), ih hls⟩

end Lexeme

namespace SqlExpr

/-- A tree as text, with spaces between its tokens. -/
def render (e : SqlExpr) : String := " ".intercalate (e.lexemes.map renderPlain)

/-- The text of the tree is tokenized and parsed as the tree, up to its end. -/
def ReadsBack (e : SqlExpr) : Prop :=
  ∃ tokens, tokenize e.render = .ok tokens ∧ parse 0 tokens = .ok (some e, [])

/-- A rendered tree of operators is tokenized to its lexemes. -/
theorem OperatorTree.tokenize_lexemes {e : SqlExpr} (h : e.OperatorTree) :
    ∃ tokens, tokenize e.render = .ok tokens ∧ tokens.map Token.lexeme = e.lexemes := by
  have hwritten : List.Forall₂ Written e.lexemes ((e.lexemes.map renderPlain).map String.toList) := by
    rw [List.map_map, List.forall₂_map_right_iff, List.forall₂_same]
    exact fun l hl => (h.mem_lexemes l hl).2.1.writtenPlain
  exact tokenize_of_written hwritten
    (beforeBy_of_not_isAmbiguous fun l hl => (h.mem_lexemes l hl).2.2)

end SqlExpr

/-- A tree of operators of the planner is read back exactly if it has no `%` and no `<>`. -/
theorem readsBack_iff {e : SqlExpr} (h : e.OperatorTree) :
    e.ReadsBack ↔ ∀ op ∈ e.operators, op ≠ "%" ∧ op ≠ "<>" := by
  obtain ⟨tokens, htokens, hlexemes⟩ := h.tokenize_lexemes
  constructor
  · rintro ⟨tokens', htokens', hparse⟩ op hop
    rw [htokens] at htokens'
    cases htokens'
    obtain ⟨t, ht, rfl, hoperator, hpos⟩ := (parse_eq_ok_iff.mp hparse).1.operators op hop
    have hmem : t.lexeme ∈ e.lexemes := hlexemes ▸ List.mem_map_of_mem ht
    exact (operatorTokens_precedence ((h.mem_lexemes _ hmem).1 hoperator)).mp ⟨hoperator, hpos⟩
  · intro hops
    have hspells : Spells True (.operand e) (tokens ++ []) [] :=
      (h.spells hops hlexemes []).mono False.elim
    rw [List.append_nil] at hspells
    exact ⟨tokens, htokens, parse_eq_ok_iff.mpr ⟨.operand hspells, Nat.le_refl _⟩⟩

end

end

section

attribute [local instance] integerFloats asciiTables

/-- A comparison of a difference reads back. -/
theorem readsBack_difference :
    (SqlExpr.binaryExpr (.binaryExpr (.identifier "order") "-" (.long 1)) "<="
      (.identifier "b")).ReadsBack := by
  have hminus : Translated "-" := ⟨.column "l", .column "r", _, rfl⟩
  have hltEq : Translated "<=" := ⟨.column "l", .column "r", _, rfl⟩
  refine (readsBack_iff (.binaryExpr (.binaryExpr (.identifier (by decide)) hminus
    (.long (by decide))) hltEq (.identifier (by decide)))).mpr ?_
  show ∀ op ∈ ["-", "<="], op ≠ "%" ∧ op ≠ "<>"
  decide

/-- The tokens of `( a % 2 )`. -/
def moduloTokens : List Token :=
  [⟨"(", .symbol .leftParen, 1⟩, ⟨"a", .literal .identifier, 3⟩, ⟨"%", .symbol .percent, 5⟩,
    ⟨"2", .literal .long, 7⟩, ⟨")", .symbol .rightParen, 9⟩]

/-- A modulus does not: the parser gives its symbol no precedence and stops in front of it. -/
theorem modulo_not_readsBack :
    (SqlExpr.binaryExpr (.identifier "a") "%" (.long 2)).OperatorTree ∧
      ¬ (SqlExpr.binaryExpr (.identifier "a") "%" (.long 2)).ReadsBack := by
  have hmodulo : Translated "%" := ⟨.column "l", .column "r", _, rfl⟩
  refine ⟨.binaryExpr (.identifier (by decide)) hmodulo (.long (by decide)), ?_⟩
  rintro ⟨tokens, htokens, hparse⟩
  have hrender : (SqlExpr.binaryExpr (.identifier "a") "%" (.long 2)).render = "( a % 2 )" := by
    decide
  have hmoduloTokens : tokenize "( a % 2 )" = .ok moduloTokens := by decide
  rw [hrender, hmoduloTokens] at htokens
  cases htokens
  have herror : SqlParser.parse 0 moduloTokens =
      .error (.other "Expected ')' after expression") := rfl
  rw [herror] at hparse
  cases hparse

end

end RQuery
