import RQuery.Sql.LexicalGrammar
import RQuery.Sql.Printer

/-!
# Rendered tokens

Tokens written out with single spaces between them. `Written l slice` says that the characters
`slice` are a way to write the token `l`: an identifier in back-quotes or as a word that is no
keyword, a string in quotes with its own quotes doubled, any other token as its text. Tokens so
written are tokenized back (`lexes_of_written`), because no token goes on over a space and `BY` is
written behind `ORDER` and `GROUP`.
-/

namespace RQuery

/-! ## Keywords and symbols -/

/-- Every keyword has a name. -/
theorem keyword_mem_names (k : Keyword) : (k, k.name) ∈ Keyword.names := by
  have hmem : k ∈ Keyword.names.map Prod.fst := by cases k <;> decide
  obtain ⟨entry, hentry, hk⟩ := List.mem_map.mp hmem
  have hsome : (Keyword.names.find? fun entry => entry.1 = k).isSome :=
    List.find?_isSome.mpr ⟨entry, hentry, by simpa using hk⟩
  obtain ⟨found, hfound⟩ := Option.isSome_iff_exists.mp hsome
  have hkey : found.1 = k := by simpa using List.find?_some hfound
  rw [Keyword.name, hfound]
  subst hkey
  exact List.mem_of_find?_eq_some hfound

/-- A name is written in capital letters of ASCII, with digits and `_` behind the first. -/
theorem keyword_name_chars (k : Keyword) : ∃ c cs, k.name.toList = c :: cs ∧
    (c.isAlpha = true ∧ Text.isWhitespace c = false) ∧
    (∀ d ∈ cs, (d.isAlpha || d.isDigit || d = '_') = true) ∧
    ∀ d ∈ c :: cs, d.toNat < 128 ∧ d.toUpper = d := by
  have hall : (Keyword.names.all fun entry =>
      match entry.2.toList with
      | [] => false
      | c :: cs => decide (c.isAlpha = true ∧ Text.isWhitespace c = false) &&
        cs.all (fun d => d.isAlpha || d.isDigit || d = '_') &&
        (c :: cs).all fun d => decide (d.toNat < 128 ∧ d.toUpper = d)) = true := by decide +kernel
  have hname := List.all_eq_true.mp hall _ (keyword_mem_names k)
  dsimp only at hname
  split at hname
  · cases hname
  · rename_i c cs hcs
    rw [Bool.and_eq_true, Bool.and_eq_true, decide_eq_true_iff, List.all_eq_true,
      List.all_eq_true] at hname
    exact ⟨c, cs, hcs, hname.1.1, hname.1.2, fun d hd => of_decide_eq_true (hname.2 d hd)⟩

/-- A name is looked up as its keyword. -/
theorem keyword_textOf_name [UnicodeTables] (k : Keyword) : Keyword.textOf k.name = some k := by
  have hall : (Keyword.names.all fun entry =>
      (Keyword.names.find? fun entry' => entry'.2 = entry.2).map Prod.fst = some entry.1) =
        true := by decide +kernel
  have hfind := of_decide_eq_true (List.all_eq_true.mp hall _ (keyword_mem_names k))
  obtain ⟨c, cs, hcs, -, -, hupper⟩ := keyword_name_chars k
  have hcase : Text.eqIgnoreAsciiCase k.name k.name := decide_eq_true rfl
  exact keyword_textOf_eq hcase (fun d hd => hupper d (hcs ▸ hd)) hfind

/-- The points are the symbols that start with one. -/
theorem Symbol.head?_ne_point {slice : List Char} {s : Symbol}
    (h : Symbol.textOf (String.ofList slice) = some s) (hs : s ≠ .dot ∧ s ≠ .doubleDot) :
    slice.head? ≠ some '.' := by
  have hall : (texts.all fun entry => decide (entry.1 = .dot ∨ entry.1 = .doubleDot ∨
      entry.2.toList.head? ≠ some '.')) = true := by decide
  obtain ⟨entry, hentry, rfl⟩ := Option.map_eq_some_iff.mp h
  have htext : entry.2 = String.ofList slice := by simpa using List.find?_some hentry
  have hhead := of_decide_eq_true (List.all_eq_true.mp hall _ (List.mem_of_find?_eq_some hentry))
  rw [htext, String.toList_ofList] at hhead
  exact (hhead.resolve_left hs.1).resolve_left hs.2

/-! ## Written tokens -/

/-- The quote of strings. -/
def quote : Char := Char.ofNat 0x27

namespace Lexeme

variable [UnicodeTables]

/-- The characters are a way to write the token. -/
inductive Written : Lexeme → List Char → Prop
  | keyword (k : Keyword) : Written (ofKeyword k) k.name.toList
  | symbol {slice : List Char} {s : Symbol} (hslice : Symbol.textOf (String.ofList slice) = some s)
      (hs : s ≠ .dot ∧ s ≠ .doubleDot) : Written (ofSymbol (String.ofList slice) s) slice
  | long {digits : List Char} (hne : digits ≠ []) (hdigits : ∀ d ∈ digits, d.isDigit = true) :
    Written (String.ofList digits, .literal .long) digits
  | double {digits decimals : List Char} (hdigits : ∀ d ∈ digits, d.isDigit = true)
      (hdecimals : ∀ d ∈ decimals, d.isDigit = true) :
    Written (String.ofList (digits ++ '.' :: decimals), .literal .double)
      (digits ++ '.' :: decimals)
  | word {c : Char} {cs : List Char} (hstart : UnicodeTables.isAlphabetic c = true)
      (hspace : Text.isWhitespace c = false)
      (hpart : ∀ d ∈ cs, Literal.isIdentifierPart d = true)
      (hkeyword : Keyword.textOf (String.ofList (c :: cs)) = none) :
    Written (String.ofList (c :: cs), .literal .identifier) (c :: cs)
  | backQuoted {text : List Char} (hquote : backQuote ∉ text) :
    Written (String.ofList text, .literal .identifier) (backQuote :: (text ++ [backQuote]))
  | string (text : List Char) :
    Written (String.ofList text, .literal .string) (quote :: (escape quote text ++ [quote]))

/-- A keyword is written with its name. -/
theorem Written.eq_name {l : Lexeme} {slice : List Char} {k : Keyword} (h : Written l slice)
    (hk : l.2 = .keyword k) : slice = k.name.toList := by
  cases h with
  | keyword k' =>
    cases hk
    rfl
  | _ => cases hk

/-- No token starts with white space. -/
theorem Written.head_not_whitespace {l : Lexeme} {slice : List Char} (h : Written l slice) :
    ∀ c ∈ slice.head?, Text.isWhitespace c = false := by
  cases h with
  | keyword k =>
    -- A keyword starts with a letter of its name.
    obtain ⟨c, cs, hcs, ⟨-, hspace⟩, -⟩ := keyword_name_chars k
    rw [hcs]
    rintro d ⟨⟩
    exact hspace
  | symbol hslice hs =>
    intro c hc
    have hall : (Symbol.texts.all fun entry => entry.2.toList.all fun c =>
        !Text.isWhitespace c) = true := by decide
    have hnot := Symbol.isSymbol_all hall
      (SqlTokenizer.isSymbol_of_textOf hslice (List.mem_of_mem_head? hc))
    simpa using hnot
  | long hne hdigits =>
    intro c hc
    exact Text.isWhitespace_of_isDigit (hdigits c (List.mem_of_mem_head? hc))
  | @double digits decimals hdigits hdecimals =>
    intro c hc
    -- A double starts with a digit, or with its point.
    obtain _ | ⟨d, ds⟩ := digits
    · cases hc
      rfl
    · cases hc
      exact Text.isWhitespace_of_isDigit (hdigits c List.mem_cons_self)
  | word hstart hspace hpart hkeyword =>
    rintro d ⟨⟩
    exact hspace
  | backQuoted hquote | string text =>
    rintro d ⟨⟩
    rfl

/-- Whether the token is `ORDER` or `GROUP`. -/
def isAmbiguous (l : Lexeme) : Bool := l.2 ∈ [.keyword .order, .keyword .group]

/-- The keywords `ORDER` and `GROUP` have `BY` behind them. -/
def BeforeBy : List Lexeme → Prop
  | [] => True
  | l :: ls => (l.isAmbiguous → ls.head? = some (ofKeyword .«by»)) ∧ BeforeBy ls

omit [UnicodeTables] in
/-- The name of `BY` behind a blank is seen. -/
theorem beforeBy_name (rest : List Char) :
    beforeBy ([' '] ++ (Keyword.«by».name.toList ++ rest)) = true := by
  rw [show Keyword.«by».name.toList = ['B', 'Y'] by decide]
  have htake : (List.dropWhile Text.isWhitespace ([' '] ++ (['B', 'Y'] ++ rest))).take 2 =
      ['B', 'Y'] := rfl
  rw [beforeBy, htake]
  decide

/-- The name of a keyword is scanned as the keyword. -/
theorem wordType_name {k : Keyword} {rest : List Char}
    (hby : isAmbiguous (ofKeyword k) → beforeBy rest = true) :
    wordType k.name rest = .keyword k := by
  unfold wordType
  rw [keyword_textOf_name, if_neg]
  · rfl
  · intro hambiguous
    rw [Bool.and_eq_true, Bool.not_eq_true'] at hambiguous
    obtain ⟨k', hk', hcase⟩ := SqlTokenizer.textOf_of_isAmbiguousIdentifier hambiguous.1
    rw [keyword_textOf_name] at hk'
    cases hk'
    rw [hby (by rcases hcase with rfl | rfl <;> rfl)] at hambiguous
    exact Bool.noConfusion hambiguous.2

/-- A word that is no keyword is an identifier. -/
theorem wordType_of_textOf_eq_none {text : String} {rest : List Char}
    (h : Keyword.textOf text = none) : wordType text rest = .literal .identifier := by
  unfold wordType
  rw [h]
  split <;> rfl

/-- A token ends in front of a space. -/
theorem Written.scans {l : Lexeme} {slice rest : List Char} (h : Written l slice)
    (hrest : ∀ c ∈ rest.head?, c = ' ') (hby : l.isAmbiguous → beforeBy rest = true) :
    Scans slice rest l.1 l.2 := by
  have hpart : ∀ d ∈ rest.head?, Literal.isIdentifierPart d = false := by
    intro d hd
    obtain rfl := hrest d hd
    unfold Literal.isIdentifierPart
    rw [UnicodeTables.isAlphabetic_ascii ' ' (by decide)]
    rfl
  cases h with
  | keyword k =>
    obtain ⟨c, cs, hcs, ⟨halpha, -⟩, hchars, hascii⟩ := keyword_name_chars k
    -- The letters of a keyword are ASCII, where the tables of Unicode say what the name says.
    have hname : k.name = String.ofList (c :: cs) := by rw [← hcs, String.ofList_toList]
    have hstart : UnicodeTables.isAlphabetic c = true := by
      rw [UnicodeTables.isAlphabetic_ascii c (hascii c List.mem_cons_self).1, halpha]
    have hparts : ∀ d ∈ cs, Literal.isIdentifierPart d = true := by
      intro d hd
      unfold Literal.isIdentifierPart
      rw [UnicodeTables.isAlphabetic_ascii d (hascii d (List.mem_cons_of_mem c hd)).1, hchars d hd]
    have hword : Scans (c :: cs) rest (String.ofList (c :: cs)) _ := .word hstart hparts hpart
    rwa [← hcs, String.ofList_toList, wordType_name hby] at hword
  | symbol hslice hs =>
    refine .symbol (Symbol.head?_ne_point hslice hs) hslice fun more hne hmore => ?_
    -- A longer symbol would contain the blank.
    obtain ⟨d, ds, rfl⟩ := List.exists_cons_of_ne_nil hne
    obtain ⟨behind, rfl⟩ := hmore
    obtain rfl := hrest d rfl
    by_contra hlonger
    obtain ⟨s', hs'⟩ := Option.ne_none_iff_exists'.mp hlonger
    have hsymbol : Symbol.isSymbol ' ' = true :=
      SqlTokenizer.isSymbol_of_textOf hs' (by simp)
    exact absurd hsymbol (by decide)
  | long hne hdigits =>
    refine .long hne hdigits fun d hd => ?_
    rw [hrest d hd]
    decide
  | double hdigits hdecimals =>
    refine .double hdigits hdecimals fun d hd => ?_
    rw [hrest d hd]
    rfl
  | @word c cs hstart hspace hchars hkeyword =>
    have hword : Scans (c :: cs) rest (String.ofList (c :: cs)) _ := .word hstart hchars hpart
    rwa [wordType_of_textOf_eq_none hkeyword] at hword
  | backQuoted hquote => exact .backQuoted hquote
  | string text =>
    -- A string ends at a quote that no quote follows.
    refine .string rfl fun hq => ?_
    exact absurd (hrest _ hq) (by decide)

/-- Written tokens are tokenized back, with white space in front of them. -/
theorem lexes_of_written {ls : List Lexeme} {slices : List (List Char)}
    (h : List.Forall₂ Written ls slices) (hby : BeforeBy ls) {space : List Char}
    (hspace : ∀ c ∈ space, Text.isWhitespace c = true) (offset : ℕ) :
    ∃ tokens, Lexes offset (space ++ [' '].intercalate slices) tokens ∧
      tokens.map Token.lexeme = ls := by
  induction h generalizing space offset with
  | nil => exact ⟨[], .done (by simpa using hspace), rfl⟩
  | @cons l slice ls slices hl hls ih =>
    obtain ⟨rest, hslices, hrest, hbehind, hlexes⟩ : ∃ rest,
        [' '].intercalate (slice :: slices) = slice ++ rest ∧ (∀ c ∈ rest.head?, c = ' ') ∧
        (l.isAmbiguous → beforeBy rest = true) ∧
        ∀ start, ∃ tokens, Lexes start rest tokens ∧ tokens.map Token.lexeme = ls := by
      have hblank : ∀ c ∈ [' '], Text.isWhitespace c = true := List.forall_mem_singleton.mpr rfl
      cases hls with
      | nil =>
        refine ⟨[], by simp, by simp, fun hambiguous => ?_, fun start =>
          ih hby.2 (List.forall_mem_nil _) start⟩
        cases hby.1 hambiguous
      | @cons l' slice' ls slices hl' hls =>
        refine ⟨[' '] ++ [' '].intercalate (slice' :: slices),
          by rw [List.intercalate_cons_cons, List.append_assoc],
          fun c hc => (Option.some.inj hc).symm, fun hambiguous => ?_,
          fun start => ih hby.2 hblank start⟩
        obtain rfl : l' = ofKeyword .«by» := Option.some.inj (hby.1 hambiguous)
        rw [hl'.eq_name rfl]
        cases slices with
        | nil => rfl
        | cons slice'' slices =>
          rw [List.intercalate_cons_cons, List.append_assoc]
          exact beforeBy_name _
    obtain ⟨tokens, htokens, hmap⟩ := hlexes (offset + space.length + slice.length)
    refine ⟨⟨l.1, l.2, offset + space.length + slice.length⟩ :: tokens, ?_, ?_⟩
    · rw [hslices]
      exact .token hspace hl.head_not_whitespace (hl.scans hrest hbehind) rfl htokens
    · rw [List.map_cons, hmap]
      rfl

/-- Written tokens with single spaces between them are tokenized back. -/
theorem tokenize_of_written {ls : List Lexeme} {texts : List String}
    (h : List.Forall₂ Written ls (texts.map String.toList)) (hby : BeforeBy ls) :
    ∃ tokens, tokenize (" ".intercalate texts) = .ok tokens ∧ tokens.map Token.lexeme = ls := by
  obtain ⟨tokens, htokens, hmap⟩ := lexes_of_written h hby (List.forall_mem_nil _) 0
  refine ⟨tokens, tokenize_eq_ok_iff.mpr ?_, hmap⟩
  rw [String.toList_intercalate]
  exact htokens

/-! ## Lexing undoes rendering -/

/-- The tokens that are rendered. -/
def Rendered : Lexeme → Prop
  | (text, .keyword k) => text = k.name
  | (text, .symbol s) => Symbol.textOf text = some s ∧ s ≠ .dot ∧ s ≠ .doubleDot
  | (text, .literal .long) => text.toList ≠ [] ∧ ∀ d ∈ text.toList, d.isDigit = true
  | (text, .literal .double) => ∃ digits decimals, text.toList = digits ++ '.' :: decimals ∧
      (∀ d ∈ digits, d.isDigit = true) ∧ ∀ d ∈ decimals, d.isDigit = true
  | (text, .literal .identifier) => backQuote ∉ text.toList
  | (_, .literal .string) => True

/-- A token as it is written. -/
def render : Lexeme → String
  | (text, .literal .identifier) => String.ofList (backQuote :: (text.toList ++ [backQuote]))
  | (text, .literal .string) => String.ofList (quote :: (escape quote text.toList ++ [quote]))
  | (text, _) => text

/-- A lexeme that is rendered is written. -/
theorem Rendered.written {l : Lexeme} (h : l.Rendered) : Written l l.render.toList := by
  obtain ⟨text, k | s | literal⟩ := l
  -- A keyword is rendered as its name, a symbol as its text and a literal by its kind.
  · obtain rfl : text = k.name := h
    exact .keyword k
  · obtain ⟨hs, hpoint⟩ : Symbol.textOf text = some s ∧ s ≠ .dot ∧ s ≠ .doubleDot := h
    have hsymbol : Written (ofSymbol (String.ofList text.toList) s) text.toList :=
      .symbol (by rwa [String.ofList_toList]) hpoint
    rwa [String.ofList_toList] at hsymbol
  · cases literal with
    | long =>
      have hlong : Written (String.ofList text.toList, .literal .long) text.toList :=
        .long h.1 h.2
      rwa [String.ofList_toList] at hlong
    | double =>
      obtain ⟨digits, decimals, htext, hdigits, hdecimals⟩ := h
      have hdouble : Written (String.ofList (digits ++ '.' :: decimals), .literal .double)
          (digits ++ '.' :: decimals) := .double hdigits hdecimals
      rwa [← htext, String.ofList_toList] at hdouble
    | identifier =>
      have hquoted : Written (String.ofList text.toList, .literal .identifier)
          (backQuote :: (text.toList ++ [backQuote])) := .backQuoted h
      rw [String.ofList_toList] at hquoted
      rwa [render, String.toList_ofList]
    | string =>
      have hstring : Written (String.ofList text.toList, .literal .string)
          (quote :: (escape quote text.toList ++ [quote])) := .string text.toList
      rw [String.ofList_toList] at hstring
      rwa [render, String.toList_ofList]

end Lexeme

open Lexeme

/-- Tokens rendered with single spaces between them, with `BY` behind `ORDER` and `GROUP`, are
tokenized back. -/
theorem tokenize_render [UnicodeTables] {lexemes : List Lexeme}
    (hrendered : ∀ l ∈ lexemes, l.Rendered) (hby : BeforeBy lexemes) :
    (List.map Token.lexeme <$> tokenize (" ".intercalate (lexemes.map render))) = .ok lexemes := by
  have hwritten : List.Forall₂ Written lexemes ((lexemes.map render).map String.toList) := by
    rw [List.map_map, List.forall₂_map_right_iff, List.forall₂_same]
    exact fun l hl => (hrendered l hl).written
  obtain ⟨tokens, htokens, hmap⟩ := tokenize_of_written hwritten hby
  rw [htokens, ← hmap]
  rfl

section

attribute [local instance] asciiTables

/-- The end of a statement that sorts by a column. -/
def orderByLexemes : List Lexeme :=
  [("it's", .literal .string), ofKeyword .order, ofKeyword .«by», ("group", .literal .identifier),
    ofSymbol "<=" .ltEq, ("1.5", .literal .double), ofKeyword .limit, ("10", .literal .long)]

/-- The rendered lexemes are tokenized back. -/
theorem tokenize_render_orderByLexemes :
    (List.map Token.lexeme <$> tokenize (" ".intercalate (orderByLexemes.map render))) =
      .ok orderByLexemes := by
  refine tokenize_render (fun l hl => ?_) ⟨by decide, by decide, by decide, by decide, by decide,
    by decide, by decide, by decide, trivial⟩
  simp only [orderByLexemes, List.mem_cons, List.not_mem_nil, or_false] at hl
  rcases hl with rfl | rfl | rfl | rfl | rfl | rfl | rfl | rfl
  · trivial
  · rfl
  · rfl
  · show backQuote ∉ "group".toList
    decide
  · exact ⟨by decide, by decide, by decide⟩
  · exact ⟨['1'], ['5'], by decide, List.all_eq_true.mp rfl, List.all_eq_true.mp rfl⟩
  · rfl
  · exact ⟨by decide, List.all_eq_true.mp rfl⟩

end

end RQuery
