import RQuery.Sql.Respelling
import RQuery.Sql.ParserCorrect

/-!
# Statements of respelled texts

Tokens that differ in the case of their keywords are parsed as statements that differ in the case of
their names, operators, functions and types (`parse_respelled`): the parser tells tokens apart by
their kind and compares the words of a clause without case.
-/

namespace RQuery

namespace Text

/-- ASCII lower case. -/
def lower (s : String) : String := String.ofList (s.toList.map Char.toLower)

/-- ASCII upper case. -/
def upper (s : String) : String := String.ofList (s.toList.map Char.toUpper)

/-- Lowering forgets that a text has been raised. -/
theorem lower_upper (s : String) : lower (upper s) = lower s := by
  have hchar : ∀ c : Char, c.toUpper.toLower = c.toLower := by
    intro c
    apply char_eq_of_toNat
    rw [toNat_toLower, toNat_toLower, toNat_toUpper]
    grind
  rw [lower, lower, upper, String.toList_ofList, List.map_map]
  exact congrArg String.ofList (List.map_congr_left fun c _ => hchar c)

/-- Texts of the same letters are raised to the same text. -/
theorem upper_congr {s t : String} (h : lower s = lower t) : upper s = upper t := by
  -- Lower-casing a letter first does not change its upper case, so the upper case is a function of
  -- the lower case.
  have hchar : ∀ c : Char, c.toLower.toUpper = c.toUpper := by
    intro c
    apply char_eq_of_toNat
    rw [toNat_toUpper, toNat_toUpper, toNat_toLower]
    grind
  have hmap : ∀ s : String, upper s = upper (lower s) := by
    intro s
    rw [upper, upper, lower, String.toList_ofList, List.map_map]
    exact congrArg String.ofList (List.map_congr_left fun c _ => (hchar c).symm)
  rw [hmap s, hmap t, h]

/-- Texts are equal up to case exactly if they are lowered to the same text. -/
theorem eqIgnoreAsciiCase_iff {s t : String} : eqIgnoreAsciiCase s t ↔ lower s = lower t := by
  rw [eqIgnoreAsciiCase, decide_eq_true_iff, lower, lower, String.ofList_inj]

end Text

section

variable [FloatModel]

/-! ## Respelling a statement -/

/-- What is written in place of the names, operators, functions and types of a statement. -/
structure Respelling where
  name : String → String
  operator : String → String
  function : String → String
  type : String → String

/-- Everything in lower case. -/
def Respelling.lower : Respelling := ⟨Text.lower, Text.lower, Text.lower, Text.lower⟩

/-- The operators and functions in upper case, the types in lower case. -/
def Respelling.normal : Respelling := ⟨id, Text.upper, Text.upper, Text.lower⟩

namespace SqlExpr

mutual

def respell (f : Respelling) : SqlExpr → SqlExpr
  | .identifier id => .identifier (f.name id)
  | .binaryExpr l op r => .binaryExpr (respell f l) (f.operator op) (respell f r)
  | .string value => .string value
  | .long value => .long value
  | .double value => .double value
  | .date value => .date value
  | .interval value => .interval value
  | .function id args => .function (f.function id) (respellList f args)
  | .aliased e name => .aliased (respell f e) (f.name name)
  | .cast e dataType => .cast (respell f e) (f.type dataType)
  | .sort e asc => .sort (respell f e) asc
  | .select s => .select (respellSelect f s)

def respellList (f : Respelling) : List SqlExpr → List SqlExpr
  | [] => []
  | e :: es => respell f e :: respellList f es

def respellOption (f : Respelling) : Option SqlExpr → Option SqlExpr
  | none => none
  | some e => some (respell f e)

def respellSelect (f : Respelling) : SqlSelect → SqlSelect
  | ⟨projection, selection, groupBy, orderBy, having, limit, tableName⟩ =>
    ⟨respellList f projection, respellOption f selection, respellList f groupBy,
      respellList f orderBy, respellOption f having, limit, f.name tableName⟩

end

mutual

/-- The names of columns, tables and aliases, in their order. -/
def names : SqlExpr → List String
  | .identifier id => [id]
  | .binaryExpr l _ r => names l ++ names r
  | .function _ args => namesList args
  | .aliased e name => names e ++ [name]
  | .cast e _ => names e
  | .sort e _ => names e
  | .select s => namesSelect s
  | _ => []

def namesList : List SqlExpr → List String
  | [] => []
  | e :: es => names e ++ namesList es

def namesOption : Option SqlExpr → List String
  | none => []
  | some e => names e

def namesSelect : SqlSelect → List String
  | ⟨projection, selection, groupBy, orderBy, having, _, tableName⟩ =>
    namesList projection ++ (tableName :: namesOption selection) ++ namesList groupBy ++
      namesOption having ++ namesList orderBy

end

mutual

/-- The names of a respelled expression are its names, respelled. -/
theorem names_respell (f : Respelling) : ∀ e : SqlExpr, names (respell f e) = (names e).map f.name
  | .identifier _ | .string _ | .long _ | .double _ | .date _ | .interval _ => rfl
  | .binaryExpr l _ r => by
    rw [respell, names, names, List.map_append, names_respell f l, names_respell f r]
  | .function _ args => by rw [respell, names, names, namesList_respell f args]
  | .aliased e _ => by
    rw [respell, names, names, List.map_append, names_respell f e]
    rfl
  | .cast e _ => by rw [respell, names, names, names_respell f e]
  | .sort e _ => by rw [respell, names, names, names_respell f e]
  | .select s => by rw [respell, names, names, namesSelect_respell f s]

/-- The same for a list of expressions. -/
theorem namesList_respell (f : Respelling) :
    ∀ es : List SqlExpr, namesList (respellList f es) = (namesList es).map f.name
  | [] => rfl
  | e :: es => by
    rw [respellList, namesList, namesList, List.map_append, names_respell f e,
      namesList_respell f es]

/-- The same for an expression that may be missing. -/
theorem namesOption_respell (f : Respelling) :
    ∀ e : Option SqlExpr, namesOption (respellOption f e) = (namesOption e).map f.name
  | none => rfl
  | some e => by rw [respellOption, namesOption, namesOption, names_respell f e]

/-- The same for a statement, clause by clause. -/
theorem namesSelect_respell (f : Respelling) :
    ∀ s : SqlSelect, namesSelect (respellSelect f s) = (namesSelect s).map f.name
  | ⟨projection, selection, groupBy, orderBy, having, limit, tableName⟩ => by
    rw [respellSelect, namesSelect, namesSelect, List.map_append, List.map_append, List.map_append,
      List.map_append, List.map_cons, namesList_respell f projection,
      namesOption_respell f selection, namesList_respell f groupBy, namesOption_respell f having,
      namesList_respell f orderBy]

end

/-- Expressions that are respelled alike have as many names. -/
theorem names_length {f : Respelling} {e e' : SqlExpr} (h : respell f e = respell f e') :
    (names e).length = (names e').length := by
  simpa [names_respell] using congrArg (fun e => (names e).length) h

/-- Lists that are respelled alike have as many names. -/
theorem namesList_length {f : Respelling} {es es' : List SqlExpr}
    (h : respellList f es = respellList f es') : (namesList es).length = (namesList es').length := by
  simpa [namesList_respell] using congrArg (fun es => (namesList es).length) h

/-- Clauses that are respelled alike have as many names. -/
theorem namesOption_length {f : Respelling} {e e' : Option SqlExpr}
    (h : respellOption f e = respellOption f e') :
    (namesOption e).length = (namesOption e').length := by
  simpa [namesOption_respell] using congrArg (fun e => (namesOption e).length) h

mutual

/-- What has the same names and the same letters has the same normal form. -/
theorem normal_congr : ∀ {e e' : SqlExpr}, respell .lower e = respell .lower e' →
    names e = names e' → respell .normal e = respell .normal e'
  | .identifier id, e', h, hnames => by
    cases e' <;> simp only [respell, names, reduceCtorEq, List.cons.injEq] at h hnames
    rw [hnames.1]
  | .binaryExpr l op r, e', h, hnames => by
    cases e' <;> simp only [respell, reduceCtorEq, binaryExpr.injEq] at h
    obtain ⟨hl, hop, hr⟩ := h
    -- Both sides have as many names on the left, so their names split at the same place.
    obtain ⟨hnamesl, hnamesr⟩ := List.append_inj hnames (names_length hl)
    rw [respell, respell, normal_congr hl hnamesl, normal_congr hr hnamesr]
    exact congrArg (binaryExpr _ · _) (Text.upper_congr hop)
  | .string _, e', h, _ | .long _, e', h, _ | .double _, e', h, _ | .date _, e', h, _
  | .interval _, e', h, _ => by
    cases e' <;> simp only [respell, reduceCtorEq] at h ⊢
    exact h
  | .function _ args, e', h, hnames => by
    cases e' <;> simp only [respell, reduceCtorEq, function.injEq] at h
    rw [respell, respell, normalList_congr h.2 hnames]
    exact congrArg (function · _) (Text.upper_congr h.1)
  | .aliased e _, e', h, hnames => by
    cases e' <;> simp only [respell, reduceCtorEq, aliased.injEq] at h
    obtain ⟨hnames, hname⟩ := List.append_inj hnames (names_length h.1)
    rw [respell, respell, normal_congr h.1 hnames, (List.cons.inj hname).1]
  | .cast e _, e', h, hnames => by
    cases e' <;> simp only [respell, reduceCtorEq, cast.injEq] at h
    rw [respell, respell, normal_congr h.1 hnames]
    exact congrArg (cast _ ·) h.2
  | .sort e _, e', h, hnames => by
    cases e' <;> simp only [respell, reduceCtorEq, sort.injEq] at h
    rw [respell, respell, normal_congr h.1 hnames, h.2]
  | .select s, e', h, hnames => by
    cases e' <;> simp only [respell, reduceCtorEq, select.injEq] at h
    rw [respell, respell, normalSelect_congr h hnames]

/-- Lists with the same names that are lowered alike have one normal form. -/
theorem normalList_congr : ∀ {es es' : List SqlExpr}, respellList .lower es = respellList .lower es' →
    namesList es = namesList es' → respellList .normal es = respellList .normal es'
  | [], es', h, _ => by
    cases es' <;> simp only [respellList, reduceCtorEq] at h ⊢
  | e :: es, es', h, hnames => by
    cases es' <;> simp only [respellList, reduceCtorEq, List.cons.injEq] at h
    obtain ⟨hhead, htail⟩ := List.append_inj hnames (names_length h.1)
    rw [respellList, respellList, normal_congr h.1 hhead, normalList_congr h.2 htail]

/-- Clauses with the same names that are lowered alike have one normal form. -/
theorem normalOption_congr : ∀ {e e' : Option SqlExpr},
    respellOption .lower e = respellOption .lower e' → namesOption e = namesOption e' →
      respellOption .normal e = respellOption .normal e'
  | none, e', h, _ => by
    cases e' <;> simp only [respellOption, reduceCtorEq] at h ⊢
  | some e, e', h, hnames => by
    cases e' <;> simp only [respellOption, reduceCtorEq, Option.some.injEq] at h
    rw [respellOption, respellOption, normal_congr h hnames]

/-- Statements with the same names that are lowered alike have one normal form. -/
theorem normalSelect_congr : ∀ {s s' : SqlSelect},
    respellSelect .lower s = respellSelect .lower s' → namesSelect s = namesSelect s' →
      respellSelect .normal s = respellSelect .normal s'
  | ⟨projection, selection, groupBy, orderBy, having, limit, tableName⟩, s', h, hnames => by
    cases s'
    simp only [respellSelect, SqlSelect.mk.injEq] at h
    obtain ⟨hprojection, hselection, hgroup, horder, hhaving, rfl, -⟩ := h
    simp only [namesSelect, List.append_assoc, List.cons_append] at hnames
    obtain ⟨nprojection, hnames⟩ := List.append_inj hnames (namesList_length hprojection)
    obtain ⟨rfl, hclauses⟩ := List.cons.inj hnames
    obtain ⟨nselection, hclauses⟩ := List.append_inj hclauses (namesOption_length hselection)
    obtain ⟨ngroup, hclauses⟩ := List.append_inj hclauses (namesList_length hgroup)
    obtain ⟨nhaving, norder⟩ := List.append_inj hclauses (namesOption_length hhaving)
    rw [respellSelect, respellSelect, normalList_congr hprojection nprojection,
      normalOption_congr hselection nselection, normalList_congr hgroup ngroup,
      normalOption_congr hhaving nhaving, normalList_congr horder norder]

end

end SqlExpr

/-! ## Two parses -/

open SqlExpr TokenStream SqlParser

/-- A list is respelled expression by expression. -/
theorem SqlExpr.respellList_eq_map (f : Respelling) (es : List SqlExpr) :
    respellList f es = es.map (respell f) := by
  induction es with
  | nil => rfl
  | cons e es ih => rw [respellList, ih, List.map_cons]

/-- Phrases with the same letters. -/
inductive Phrase.SameLetters : Phrase → Phrase → Prop
  | operand {e e' : SqlExpr} (h : respell .lower e = respell .lower e') :
    SameLetters (.operand e) (.operand e')
  | expr {level : ℕ} {e e' : SqlExpr} (h : respell .lower e = respell .lower e') :
    SameLetters (.expr level e) (.expr level e')
  | arguments {es es' : List SqlExpr} (h : respellList .lower es = respellList .lower es') :
    SameLetters (.arguments es) (.arguments es')
  | exprs {es es' : List SqlExpr} (h : respellList .lower es = respellList .lower es') :
    SameLetters (.exprs es) (.exprs es')
  | condition {keywords : List String} {e e' : Option SqlExpr}
      (h : respellOption .lower e = respellOption .lower e') :
    SameLetters (.condition keywords e) (.condition keywords e')
  | listing {keywords : List String} {es es' : List SqlExpr}
      (h : respellList .lower es = respellList .lower es') :
    SameLetters (.listing keywords es) (.listing keywords es')
  | limit {n : Option Int32} : SameLetters (.limit n) (.limit n)
  | select {s s' : SqlSelect} (h : respellSelect .lower s = respellSelect .lower s') :
    SameLetters (.select s) (.select s')

/-- A phrase of the same letters as an operand is an operand. -/
theorem Phrase.SameLetters.operand_left {e : SqlExpr} {φ : Phrase} (h : (Phrase.operand e).SameLetters φ) :
    ∃ e', φ = .operand e' ∧ respell .lower e = respell .lower e' := by
  cases h with
  | operand he => exact ⟨_, rfl, he⟩

/-- A phrase of the same letters as an expression is an expression of its level. -/
theorem Phrase.SameLetters.expr_left {level : ℕ} {e : SqlExpr} {φ : Phrase}
    (h : (Phrase.expr level e).SameLetters φ) :
    ∃ e', φ = .expr level e' ∧ respell .lower e = respell .lower e' := by
  cases h with
  | expr he => exact ⟨_, rfl, he⟩

/-- A phrase of the same letters as arguments is arguments. -/
theorem Phrase.SameLetters.arguments_left {es : List SqlExpr} {φ : Phrase}
    (h : (Phrase.arguments es).SameLetters φ) :
    ∃ es', φ = .arguments es' ∧ respellList .lower es = respellList .lower es' := by
  cases h with
  | arguments hes => exact ⟨_, rfl, hes⟩

/-- A phrase of the same letters as a list of expressions is such a list. -/
theorem Phrase.SameLetters.exprs_left {es : List SqlExpr} {φ : Phrase} (h : (Phrase.exprs es).SameLetters φ) :
    ∃ es', φ = .exprs es' ∧ respellList .lower es = respellList .lower es' := by
  cases h with
  | exprs hes => exact ⟨_, rfl, hes⟩

/-- A phrase of the same letters as a condition is a condition behind the same keywords. -/
theorem Phrase.SameLetters.condition_left {keywords : List String} {e : Option SqlExpr} {φ : Phrase}
    (h : (Phrase.condition keywords e).SameLetters φ) :
    ∃ e', φ = .condition keywords e' ∧ respellOption .lower e = respellOption .lower e' := by
  cases h with
  | condition he => exact ⟨_, rfl, he⟩

/-- A phrase of the same letters as a listing is a listing behind the same keywords. -/
theorem Phrase.SameLetters.listing_left {keywords : List String} {es : List SqlExpr} {φ : Phrase}
    (h : (Phrase.listing keywords es).SameLetters φ) :
    ∃ es', φ = .listing keywords es' ∧ respellList .lower es = respellList .lower es' := by
  cases h with
  | listing hes => exact ⟨_, rfl, hes⟩

/-- Only the same limit has the letters of a limit. -/
theorem Phrase.SameLetters.limit_left {n : Option Int32} {φ : Phrase}
    (h : (Phrase.limit n).SameLetters φ) : φ = .limit n := by
  cases h
  rfl

/-- A phrase of the same letters as a statement is a statement. -/
theorem Phrase.SameLetters.select_left {s : SqlSelect} {φ : Phrase} (h : (Phrase.select s).SameLetters φ) :
    ∃ s', φ = .select s' ∧ respellSelect .lower s = respellSelect .lower s' := by
  cases h with
  | select hs => exact ⟨_, rfl, hs⟩

omit [FloatModel] in
/-- Keywords are told apart from other tokens whatever their case is. -/
theorem isKeyword_respelled {t t' : Token} (h : t.Respelled t') (name : String) :
    isKeyword t name = isKeyword t' name := by
  have hcase : Text.eqIgnoreAsciiCase t.text name = Text.eqIgnoreAsciiCase t'.text name :=
    SqlTokenizer.eqIgnoreAsciiCase_congr h.letters name
  rw [isKeyword, isKeyword, h.tokenType, hcase]

omit [FloatModel] in
/-- Keywords are found in front of respelled tokens exactly where they are in front of the tokens,
and what is behind them is respelled too. -/
theorem behind_respelled {keywords : List String} {ts ts' : TokenStream}
    (h : List.Forall₂ Token.Respelled ts ts') :
    Option.Rel (List.Forall₂ Token.Respelled) (behind keywords ts) (behind keywords ts') := by
  induction keywords generalizing ts ts' with
  | nil => exact .some h
  | cons name keywords ih =>
    cases h with
    | nil => exact .none
    | cons ht hts =>
      rw [behind, behind, isKeyword_respelled ht name]
      split
      · exact ih hts
      · exact .none

omit [FloatModel] in
/-- Tokens behind keywords are respelled with the keywords. -/
theorem behind_some_respelled {keywords : List String} {ts ts' us : TokenStream}
    (h : List.Forall₂ Token.Respelled ts ts') (hts : behind keywords ts = some us) :
    ∃ us', behind keywords ts' = some us' ∧ List.Forall₂ Token.Respelled us us' := by
  have hrel : Option.Rel (List.Forall₂ Token.Respelled) (behind keywords ts) (behind keywords ts') :=
    behind_respelled h
  rw [hts] at hrel
  generalize behind keywords ts' = r at hrel
  obtain ⟨hus⟩ := hrel
  exact ⟨_, rfl, hus⟩

omit [FloatModel] in
/-- Where the keywords are missing, they are missing in a respelled stream. -/
theorem behind_none_respelled {keywords : List String} {ts ts' : TokenStream}
    (h : List.Forall₂ Token.Respelled ts ts') (hts : behind keywords ts = none) :
    behind keywords ts' = none := by
  have hrel : Option.Rel (List.Forall₂ Token.Respelled) (behind keywords ts) (behind keywords ts') :=
    behind_respelled h
  rw [hts] at hrel
  generalize behind keywords ts' = r at hrel
  cases hrel
  rfl

omit [FloatModel] in
/-- The operator in front binds as tightly when it is respelled. -/
theorem precedenceAt_respelled {ts ts' : TokenStream} (h : List.Forall₂ Token.Respelled ts ts') :
    precedenceAt ts = precedenceAt ts' := by
  cases h with
  | nil => rfl
  | cons ht _ => rw [precedenceAt_cons, precedenceAt_cons, ht.tokenType]

omit [FloatModel] in
/-- A respelled token is of the same kind. -/
theorem Token.Respelled.kind {t t' : Token} (h : t.Respelled t') {type : TokenType}
    (ht : t.tokenType = type) : t'.tokenType = type := h.tokenType ▸ ht

omit [FloatModel] in
/-- The text of a respelled token has the same letters. -/
theorem Token.Respelled.lower_text {t t' : Token} (h : t.Respelled t') :
    Text.lower t.text = Text.lower t'.text := Text.eqIgnoreAsciiCase_iff.mp h.letters

omit [FloatModel] in
/-- A literal is not respelled. -/
theorem Token.Respelled.literal_text {t t' : Token} (h : t.Respelled t') {l : Literal}
    (ht : t.tokenType = .literal l) : t.text = t'.text := h.text (by rw [ht]; rfl)

/-- What is respelled like an aliased expression is one. -/
theorem respell_eq_aliased {e e' : SqlExpr} {name : String}
    (h : respell .lower (.aliased e name) = respell .lower e') :
    ∃ e'' name', e' = .aliased e'' name' ∧ respell .lower e = respell .lower e'' ∧
      Text.lower name = Text.lower name' := by
  cases e' <;> simp only [respell, reduceCtorEq, SqlExpr.aliased.injEq] at h
  exact ⟨_, _, rfl, h⟩

/-- What is respelled like an identifier is one. -/
theorem respell_eq_identifier {e' : SqlExpr} {id : String}
    (h : respell .lower (.identifier id) = respell .lower e') :
    ∃ id', e' = .identifier id' ∧ Text.lower id = Text.lower id' := by
  cases e' <;> simp only [respell, reduceCtorEq, SqlExpr.identifier.injEq] at h
  exact ⟨_, rfl, h⟩

/-- Only the same number is respelled like a number. -/
theorem respell_eq_long {e' : SqlExpr} {v : Int64}
    (h : respell .lower (.long v) = respell .lower e') : e' = .long v := by
  cases e' <;> simp only [respell, reduceCtorEq, SqlExpr.long.injEq] at h
  rw [h]

section

variable {e e' : SqlExpr}

/-- A cast is lowered with its operand and the name of its type. -/
theorem cast_congr {t t' : String} (he : respell .lower e = respell .lower e')
    (ht : Text.lower t = Text.lower t') :
    respell .lower (.cast e t) = respell .lower (.cast e' t') := congrArg₂ SqlExpr.cast he ht

/-- An aliased expression is lowered with its operand and its alias. -/
theorem aliased_congr {name name' : String} (he : respell .lower e = respell .lower e')
    (hname : Text.lower name = Text.lower name') :
    respell .lower (.aliased e name) = respell .lower (.aliased e' name') :=
  congrArg₂ SqlExpr.aliased he hname

/-- A sort item is lowered with its operand, its direction kept. -/
theorem sort_congr (he : respell .lower e = respell .lower e') (asc : Bool) :
    respell .lower (.sort e asc) = respell .lower (.sort e' asc) := congrArg (SqlExpr.sort · asc) he

/-- A function call is lowered with its name and its arguments. -/
theorem function_congr {id id' : String} {args args' : List SqlExpr}
    (hid : Text.lower id = Text.lower id') (hargs : respellList .lower args = respellList .lower args') :
    respell .lower (.function id args) = respell .lower (.function id' args') :=
  congrArg₂ SqlExpr.function hid hargs

/-- An operation is lowered with its operator and its operands. -/
theorem binaryExpr_congr {r r' : SqlExpr} {op op' : String}
    (he : respell .lower e = respell .lower e') (hop : Text.lower op = Text.lower op')
    (hr : respell .lower r = respell .lower r') :
    respell .lower (.binaryExpr e op r) = respell .lower (.binaryExpr e' op' r') := by
  rw [respell, respell, he, hr]
  exact congrArg (SqlExpr.binaryExpr _ · _) hop

/-- A statement is lowered as an expression, too. -/
theorem select_congr {s s' : SqlSelect} (h : respellSelect .lower s = respellSelect .lower s') :
    respell .lower (.select s) = respell .lower (.select s') := congrArg SqlExpr.select h

/-- A list is lowered with its head and its tail. -/
theorem cons_congr {es es' : List SqlExpr} (he : respell .lower e = respell .lower e')
    (hes : respellList .lower es = respellList .lower es') :
    respellList .lower (e :: es) = respellList .lower (e' :: es') := congrArg₂ List.cons he hes

/-- A clause is lowered with its expression. -/
theorem some_congr (he : respell .lower e = respell .lower e') :
    respellOption .lower (some e) = respellOption .lower (some e') := congrArg some he

end

/-- Sort keys are normalized alike. -/
theorem normalizeSort_respelled {keys keys' order : List SqlExpr}
    (h : respellList .lower keys = respellList .lower keys')
    (hkeys : keys.mapM normalizeSort = .ok order) :
    ∃ order', keys'.mapM normalizeSort = .ok order' ∧
      respellList .lower order = respellList .lower order' := by
  induction keys generalizing keys' order with
  | nil =>
    obtain rfl : keys' = [] := by cases keys' <;> simp [respellList] at h ⊢
    exact ⟨order, hkeys, rfl⟩
  -- Keys that spell the same letters are both names, which sort ascending, or both sort keys.
  | cons key keys ih =>
    obtain _ | ⟨key', keys'⟩ := keys'
    · simp [respellList] at h
    obtain ⟨hkey, hrest⟩ := List.cons.inj h
    obtain ⟨item, items, hitem, hitems, rfl⟩ := Outcome.mapM_cons_eq_ok_iff.mp hkeys
    obtain ⟨items', hitems', hsame⟩ := ih hrest hitems
    have hhead : ∃ item', normalizeSort key' = .ok item' ∧
        respell .lower item = respell .lower item' := by
      cases key <;> cases hitem
      · obtain ⟨id', rfl, hid⟩ := respell_eq_identifier hkey
        exact ⟨_, rfl, congrArg (fun id => SqlExpr.sort (.identifier id) true) hid⟩
      · cases key' <;> simp only [respell, reduceCtorEq, SqlExpr.sort.injEq] at hkey
        exact ⟨_, rfl, congrArg₂ SqlExpr.sort hkey.1 hkey.2⟩
    obtain ⟨item', hitem', hsame'⟩ := hhead
    exact ⟨item' :: items', Outcome.mapM_cons_eq_ok_iff.mpr ⟨_, _, hitem', hitems', rfl⟩,
      congrArg₂ List.cons hsame' hsame⟩

/-- Tokens that differ in the case of their keywords spell phrases with the same letters. -/
theorem Spells.respelled {φ : Phrase} {ts rest : TokenStream} (h : Spells True φ ts rest)
    {ts' : TokenStream} (hts : List.Forall₂ Token.Respelled ts ts') :
    ∃ φ' rest', φ.SameLetters φ' ∧ List.Forall₂ Token.Respelled rest rest' ∧
      Spells True φ' ts' rest' := by
  induction h generalizing ts' with
  -- The induction is on the derivation. A leaf reads its tokens, which are respelled one for one;
  | name ht =>
    obtain ⟨t', us, hr, hus, rfl⟩ := List.forall₂_cons_left_iff.mp hts
    exact ⟨.operand (.identifier t'.text), us,
      .operand (congrArg SqlExpr.identifier hr.lower_text), hus, .name (hr.tokenType ▸ ht)⟩
  | star ht =>
    obtain ⟨t', us, hr, hus, rfl⟩ := List.forall₂_cons_left_iff.mp hts
    exact ⟨_, us, .operand rfl, hus, .star (hr.kind ht)⟩
  | string ht =>
    obtain ⟨t', us, hr, hus, rfl⟩ := List.forall₂_cons_left_iff.mp hts
    exact ⟨_, us, .operand rfl, hus, hr.literal_text ht ▸ .string (hr.kind ht)⟩
  | long ht hv =>
    obtain ⟨t', us, hr, hus, rfl⟩ := List.forall₂_cons_left_iff.mp hts
    exact ⟨_, us, .operand rfl, hus, .long (hr.kind ht) (hr.literal_text ht ▸ hv)⟩
  | double ht hv =>
    obtain ⟨t', us, hr, hus, rfl⟩ := List.forall₂_cons_left_iff.mp hts
    exact ⟨_, us, .operand rfl, hus, .double (hr.kind ht) (hr.literal_text ht ▸ hv)⟩
  | date hk ht =>
    obtain ⟨k', us, hrk, hus, rfl⟩ := List.forall₂_cons_left_iff.mp hts
    obtain ⟨t', vs, hr, hvs, rfl⟩ := List.forall₂_cons_left_iff.mp hus
    exact ⟨_, vs, .operand rfl, hvs, hr.literal_text ht ▸ .date (hrk.kind hk) (hr.kind ht)⟩
  | interval hk ht =>
    obtain ⟨k', us, hrk, hus, rfl⟩ := List.forall₂_cons_left_iff.mp hts
    obtain ⟨t', vs, hr, hvs, rfl⟩ := List.forall₂_cons_left_iff.mp hus
    exact ⟨_, vs, .operand rfl, hvs, hr.literal_text ht ▸ .interval (hrk.kind hk) (hr.kind ht)⟩
  -- a rule with premises follows them, and passes on what the last one left over.
  | paren hl _ hr ih =>
    obtain ⟨l', us, hrl, hus, rfl⟩ := List.forall₂_cons_left_iff.mp hts
    obtain ⟨_, vs, hφ, hvs, hs⟩ := ih hus
    obtain ⟨_, rfl, he⟩ := hφ.expr_left
    obtain ⟨r', ws, hrr, hws, rfl⟩ := List.forall₂_cons_left_iff.mp hvs
    exact ⟨_, ws, .operand he, hws, .paren (hrl.kind hl) hs (hrr.kind hr)⟩
  | cast hk hl _ hr ih =>
    obtain ⟨k', us, hrk, hus, rfl⟩ := List.forall₂_cons_left_iff.mp hts
    obtain ⟨l', vs, hrl, hvs, rfl⟩ := List.forall₂_cons_left_iff.mp hus
    obtain ⟨_, ws, hφ, hws, hs⟩ := ih hvs
    obtain ⟨_, rfl, he⟩ := hφ.expr_left
    obtain ⟨e', dataType', rfl, he, htype⟩ := respell_eq_aliased he
    obtain ⟨r', xs, hrr, hxs, rfl⟩ := List.forall₂_cons_left_iff.mp hws
    exact ⟨_, xs, .operand (cast_congr he htype), hxs,
      .cast (hrk.kind hk) (hrl.kind hl) hs (hrr.kind hr)⟩
  | subselect hk _ ih =>
    obtain ⟨k', us, hrk, hus, rfl⟩ := List.forall₂_cons_left_iff.mp hts
    obtain ⟨_, vs, hφ, hvs, hs⟩ := ih hus
    obtain ⟨_, rfl, hselect⟩ := hφ.select_left
    exact ⟨_, vs, .operand (select_congr hselect), hvs, .subselect (hrk.kind hk) hs⟩
  | operand _ ih =>
    obtain ⟨_, us, hφ, hus, hs⟩ := ih hts
    obtain ⟨_, rfl, he⟩ := hφ.operand_left
    exact ⟨_, us, .expr he, hus, .operand hs⟩
  | binary _ ht hlevel _ hrest ihl ihr =>
    obtain ⟨_, us, hφ, hus, hsl⟩ := ihl hts
    obtain ⟨_, rfl, hl⟩ := hφ.expr_left
    obtain ⟨t', vs, hr, hvs, rfl⟩ := List.forall₂_cons_left_iff.mp hus
    obtain ⟨_, ws, hφ, hws, hsr⟩ := ihr hvs
    obtain ⟨_, rfl, hright⟩ := hφ.expr_left
    rw [hr.tokenType] at ht hlevel hsr hrest
    rw [precedenceAt_respelled hws] at hrest
    exact ⟨_, ws, .expr (binaryExpr_congr hl hr.lower_text hright), hws,
      .binary hsl ht hlevel hsr hrest⟩
  | aliased _ ht hlevel _ hrest ihe ihname =>
    obtain ⟨_, us, hφ, hus, hse⟩ := ihe hts
    obtain ⟨_, rfl, he⟩ := hφ.expr_left
    obtain ⟨t', vs, hr, hvs, rfl⟩ := List.forall₂_cons_left_iff.mp hus
    obtain ⟨_, ws, hφ, hws, hsname⟩ := ihname hvs
    obtain ⟨_, rfl, hid⟩ := hφ.expr_left
    obtain ⟨id', rfl, hname⟩ := respell_eq_identifier hid
    rw [precedenceAt_respelled hws] at hrest
    exact ⟨_, ws, .expr (aliased_congr he hname), hws,
      .aliased hse (hr.kind ht) hlevel hsname hrest⟩
  | ascending _ ht hlevel ih =>
    obtain ⟨_, us, hφ, hus, hs⟩ := ih hts
    obtain ⟨_, rfl, he⟩ := hφ.expr_left
    obtain ⟨t', vs, hr, hvs, rfl⟩ := List.forall₂_cons_left_iff.mp hus
    exact ⟨_, vs, .expr (sort_congr he true), hvs, .ascending hs (hr.kind ht) hlevel⟩
  | descending _ ht hlevel ih =>
    obtain ⟨_, us, hφ, hus, hs⟩ := ih hts
    obtain ⟨_, rfl, he⟩ := hφ.expr_left
    obtain ⟨t', vs, hr, hvs, rfl⟩ := List.forall₂_cons_left_iff.mp hus
    exact ⟨_, vs, .expr (sort_congr he false), hvs, .descending hs (hr.kind ht) hlevel⟩
  | call _ hl hlevel _ ihid ihargs =>
    obtain ⟨_, us, hφ, hus, hsid⟩ := ihid hts
    obtain ⟨_, rfl, hid⟩ := hφ.expr_left
    obtain ⟨id', rfl, hname⟩ := respell_eq_identifier hid
    obtain ⟨l', vs, hr, hvs, rfl⟩ := List.forall₂_cons_left_iff.mp hus
    obtain ⟨_, ws, hφ, hws, hsargs⟩ := ihargs hvs
    obtain ⟨_, rfl, hargs⟩ := hφ.arguments_left
    exact ⟨_, ws, .expr (function_congr hname hargs), hws, .call hsid (hr.kind hl) hlevel hsargs⟩
  | noArguments hr =>
    obtain ⟨r', us, hrr, hus, rfl⟩ := List.forall₂_cons_left_iff.mp hts
    exact ⟨_, us, .arguments rfl, hus, .noArguments (hrr.kind hr)⟩
  | arguments _ hr ih =>
    obtain ⟨_, us, hφ, hus, hs⟩ := ih hts
    obtain ⟨_, rfl, hes⟩ := hφ.exprs_left
    obtain ⟨r', vs, hrr, hvs, rfl⟩ := List.forall₂_cons_left_iff.mp hus
    exact ⟨_, vs, .arguments hes, hvs, .arguments hs (hrr.kind hr)⟩
  | last _ hrest hcomma ih =>
    obtain ⟨_, us, hφ, hus, hs⟩ := ih hts
    obtain ⟨_, rfl, he⟩ := hφ.expr_left
    rw [precedenceAt_respelled hus] at hrest
    refine ⟨_, us, .exprs (cons_congr he rfl), hus, .last hs hrest ?_⟩
    cases hus with
    | nil => exact hcomma
    | cons ht _ =>
      rw [List.head?_cons, Option.map_some, ← ht.tokenType]
      exact hcomma
  | cons _ hc _ ihe ihes =>
    obtain ⟨_, us, hφ, hus, hse⟩ := ihe hts
    obtain ⟨_, rfl, he⟩ := hφ.expr_left
    obtain ⟨c', vs, hr, hvs, rfl⟩ := List.forall₂_cons_left_iff.mp hus
    obtain ⟨_, ws, hφ, hws, hses⟩ := ihes hvs
    obtain ⟨_, rfl, hes⟩ := hφ.exprs_left
    exact ⟨_, ws, .exprs (cons_congr he hes), hws, .cons hse (hr.kind hc) hses⟩
  | comma hlax _ hc ih =>
    obtain ⟨_, us, hφ, hus, hs⟩ := ih hts
    obtain ⟨_, rfl, he⟩ := hφ.expr_left
    obtain ⟨c', vs, hr, hvs, rfl⟩ := List.forall₂_cons_left_iff.mp hus
    cases hvs
    exact ⟨_, [], .exprs (cons_congr he rfl), .nil, .comma hlax hs (hr.kind hc)⟩
  | noCondition hnone =>
    exact ⟨_, _, .condition rfl, hts, .noCondition (behind_none_respelled hts hnone)⟩
  | condition hsome _ hrest ih =>
    obtain ⟨us, hus', hus⟩ := behind_some_respelled hts hsome
    obtain ⟨_, vs, hφ, hvs, hs⟩ := ih hus
    obtain ⟨_, rfl, he⟩ := hφ.expr_left
    rw [precedenceAt_respelled hvs] at hrest
    exact ⟨_, vs, .condition (some_congr he), hvs, .condition hus' hs hrest⟩
  | bareCondition hlax hsome =>
    obtain ⟨us, hus', hus⟩ := behind_some_respelled hts hsome
    cases hus
    exact ⟨_, [], .condition rfl, .nil, .bareCondition hlax hus'⟩
  | noListing hnone =>
    exact ⟨_, _, .listing rfl, hts, .noListing (behind_none_respelled hts hnone)⟩
  | listing hsome _ ih =>
    obtain ⟨us, hus', hus⟩ := behind_some_respelled hts hsome
    obtain ⟨_, vs, hφ, hvs, hs⟩ := ih hus
    obtain ⟨_, rfl, hes⟩ := hφ.exprs_left
    exact ⟨_, vs, .listing hes, hvs, .listing hus' hs⟩
  | bareListing hlax hsome =>
    obtain ⟨us, hus', hus⟩ := behind_some_respelled hts hsome
    cases hus
    exact ⟨_, [], .listing rfl, .nil, .bareListing hlax hus'⟩
  | noLimit hnone => exact ⟨_, _, .limit, hts, .noLimit (behind_none_respelled hts hnone)⟩
  | limit hsome _ hrest ih =>
    obtain ⟨us, hus', hus⟩ := behind_some_respelled hts hsome
    obtain ⟨_, vs, hφ, hvs, hs⟩ := ih hus
    obtain ⟨_, rfl, he⟩ := hφ.expr_left
    obtain rfl := respell_eq_long he
    rw [precedenceAt_respelled hvs] at hrest
    exact ⟨_, vs, .limit, hvs, .limit hus' hs hrest⟩
  -- The clauses of a SELECT are followed from left to right, each from the rest the one before
  -- left.
  | @select s keys _ _ _ _ _ _ _ _ _ _ hfrom _ hprecedence _ _ _ _ hkeys _
      ih₁ ih₂ ih₃ ih₄ ih₅ ih₆ ih₇ =>
    obtain ⟨_, _, hφ, h₁, hs₁⟩ := ih₁ hts
    obtain ⟨_, rfl, hprojection⟩ := hφ.exprs_left
    obtain ⟨_, hfrom', h₁⟩ := behind_some_respelled h₁ hfrom
    obtain ⟨_, _, hφ, h₂, hs₂⟩ := ih₂ h₁
    obtain ⟨_, rfl, htable⟩ := hφ.expr_left
    obtain ⟨table, rfl, hname⟩ := respell_eq_identifier htable
    rw [precedenceAt_respelled h₂] at hprecedence
    obtain ⟨_, _, hφ, h₃, hs₃⟩ := ih₃ h₂
    obtain ⟨_, rfl, hselection⟩ := hφ.condition_left
    obtain ⟨_, _, hφ, h₄, hs₄⟩ := ih₄ h₃
    obtain ⟨_, rfl, hgroup⟩ := hφ.listing_left
    obtain ⟨_, _, hφ, h₅, hs₅⟩ := ih₅ h₄
    obtain ⟨_, rfl, hhaving⟩ := hφ.condition_left
    obtain ⟨_, _, hφ, h₆, hs₆⟩ := ih₆ h₅
    obtain ⟨_, rfl, hlisting⟩ := hφ.listing_left
    -- The sort keys are normalized by the parser, after they are read.
    obtain ⟨order, horder, hlower⟩ := normalizeSort_respelled hlisting hkeys
    obtain ⟨_, _, hφ, h₇, hs₇⟩ := ih₇ h₆
    obtain rfl := hφ.limit_left
    refine ⟨.select ⟨_, _, _, order, _, s.limit, table⟩, _, .select ?_, h₇,
      .select hs₁ hfrom' hs₂ hprecedence hs₃ hs₄ hs₅ hs₆ horder hs₇⟩
    cases s
    simp only [respellSelect, hprojection, hselection, hgroup, hhaving, hlower]
    exact congrArg (SqlSelect.mk _ _ _ _ _ _ ·) hname

end

end RQuery
