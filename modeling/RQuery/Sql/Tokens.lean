import RQuery.Datatypes.Text
import Mathlib.Data.List.Basic

/-!
# SQL tokens

The token vocabulary: literals, keywords and symbols, with the texts they are looked up by. The
Unicode tables behind `char::is_alphabetic` and the case mappings are a parameter, of which only
the ASCII part is used.
-/

namespace RQuery

/-- The Unicode tables of the standard library. -/
class UnicodeTables where
  /-- `char::is_alphabetic`. -/
  isAlphabetic : Char → Bool
  /-- `char::to_uppercase`. -/
  toUppercase : Char → List Char
  /-- `str::to_lowercase`. -/
  toLowercase : String → String
  isAlphabetic_ascii : ∀ c, c.toNat < 128 → isAlphabetic c = c.isAlpha
  toUppercase_ascii : ∀ c, c.toNat < 128 → toUppercase c = [c.toUpper]

/-- The tables of a text without letters outside ASCII. -/
@[reducible] def asciiTables : UnicodeTables where
  isAlphabetic := Char.isAlpha
  toUppercase c := [c.toUpper]
  toLowercase s := String.ofList (s.toList.map Char.toLower)
  isAlphabetic_ascii _ _ := rfl
  toUppercase_ascii _ _ := rfl

namespace Text

/-- `str::to_uppercase`. -/
def toUppercase [UnicodeTables] (s : String) : String :=
  String.ofList (s.toList.flatMap UnicodeTables.toUppercase)

/-- `str::eq_ignore_ascii_case`. -/
def eqIgnoreAsciiCase (s t : String) : Bool :=
  s.toList.map Char.toLower = t.toList.map Char.toLower

end Text

/-! ## Upper and lower case -/

namespace Text

/-- Lower case shifts the ASCII capitals by 32. -/
theorem toNat_toLower (c : Char) :
    c.toLower.toNat = if 65 ≤ c.toNat ∧ c.toNat ≤ 90 then c.toNat + 32 else c.toNat := by
  unfold Char.toLower
  split
  · rename_i h
    have hc : 65 ≤ c.toNat ∧ c.toNat ≤ 90 := h
    rw [if_pos hc]
    show (c.val + 32).toNat = _
    rw [UInt32.toNat_add]
    show (c.toNat + 32) % 2 ^ 32 = _
    omega
  · rename_i h
    rw [if_neg (show ¬ (65 ≤ c.toNat ∧ c.toNat ≤ 90) from h)]

/-- Upper case shifts the small ASCII letters back. -/
theorem toNat_toUpper (c : Char) :
    c.toUpper.toNat = if 97 ≤ c.toNat ∧ c.toNat ≤ 122 then c.toNat - 32 else c.toNat := by
  unfold Char.toUpper
  split
  · rename_i h
    have hc : 97 ≤ c.toNat ∧ c.toNat ≤ 122 := h
    rw [if_pos hc]
    show (c.val + 4294967264).toNat = _
    rw [UInt32.toNat_add]
    show (c.toNat + 4294967264) % 2 ^ 32 = _
    omega
  · rename_i h
    rw [if_neg (show ¬ (97 ≤ c.toNat ∧ c.toNat ≤ 122) from h)]

/-- A character is determined by its code. -/
theorem char_eq_of_toNat {c d : Char} (h : c.toNat = d.toNat) : c = d :=
  Char.ext (UInt32.toNat_inj.mp h)

variable [UnicodeTables]

/-- Characters that differ in ASCII case only have the same upper case. -/
theorem toUppercase_congr_char {c d : Char} (h : c.toLower = d.toLower) :
    UnicodeTables.toUppercase c = UnicodeTables.toUppercase d := by
  rcases eq_or_ne c d with rfl | hne
  · rfl
  · have hne : c.toNat ≠ d.toNat := fun heq => hne (char_eq_of_toNat heq)
    have hlower := congrArg Char.toNat h
    rw [toNat_toLower, toNat_toLower] at hlower
    have hupper : c.toUpper = d.toUpper := by
      apply char_eq_of_toNat
      rw [toNat_toUpper, toNat_toUpper]
      grind
    rw [UnicodeTables.toUppercase_ascii c (by grind), UnicodeTables.toUppercase_ascii d (by grind),
      hupper]

/-- Texts that differ in ASCII case only have the same upper case. -/
theorem toUppercase_congr {s t : String} (h : eqIgnoreAsciiCase s t) :
    toUppercase s = toUppercase t := by
  have hlist : s.toList.map Char.toLower = t.toList.map Char.toLower := by
    simpa [eqIgnoreAsciiCase] using h
  have hflat : ∀ cs ds : List Char, cs.map Char.toLower = ds.map Char.toLower →
      cs.flatMap UnicodeTables.toUppercase = ds.flatMap UnicodeTables.toUppercase := by
    intro cs
    induction cs with
    | nil => intro ds h; rw [List.map_eq_nil_iff.mp h.symm]
    | cons c cs ih =>
      rintro (_ | ⟨d, ds⟩) h
      · cases h
      · obtain ⟨hc, hcs⟩ := List.cons.inj h
        rw [List.flatMap_cons, List.flatMap_cons, toUppercase_congr_char hc, ih ds hcs]
  rw [toUppercase, toUppercase, hflat _ _ hlist]

/-- Upper case ASCII text is its own upper case. -/
theorem toUppercase_eq_self {t : String} (ht : ∀ c ∈ t.toList, c.toNat < 128 ∧ c.toUpper = c) :
    toUppercase t = t := by
  have hflat : t.toList.flatMap UnicodeTables.toUppercase = t.toList := by
    have hmap : t.toList.flatMap UnicodeTables.toUppercase = t.toList.flatMap fun c => [c] :=
      List.flatMap_congr fun c hc => by
        rw [UnicodeTables.toUppercase_ascii c (ht c hc).1, (ht c hc).2]
    rw [hmap, List.flatMap_singleton']
  rw [toUppercase, hflat, String.ofList_toList]

end Text

/-- The kinds of literals. -/
inductive Literal
  | long
  | double
  | string
  | identifier
  deriving DecidableEq, Repr

namespace Literal

def isNumberStart (ch : Char) : Bool := ch.isDigit || ch = '.'

def isIdentifierStart [UnicodeTables] (ch : Char) : Bool :=
  UnicodeTables.isAlphabetic ch || ch.toNat = 0x60

def isIdentifierPart [UnicodeTables] (ch : Char) : Bool :=
  UnicodeTables.isAlphabetic ch || ch.isDigit || ch = '_'

def isCharsStart (ch : Char) : Bool := ch.toNat = 0x27 || ch = '"'

end Literal

/-- SQL keywords. -/
inductive Keyword
  | schema | database | table | column | view | index | trigger | procedure | tablespace | function
  | sequence | cursor | «from» | to | of | «if» | on | «for» | «while» | «do» | no | «by» | «with»
  | without | true | false | temporary | temp | comment | create | replace | before | after
  | instead | each | row | statement | execute | bitmap | nosort | reverse | compile | alter | add
  | modify | rename | enable | disable | validate | user | identified | truncate | drop | cascade
  | insert | into | values | update | set | delete | select | distinct | limit | as | case | when
  | «else» | «then» | «end» | left | right | full | inner | outer | cross | join | use | «using»
  | natural | «where» | order | asc | desc | group | having | union | declare | grant | fetch
  | revoke | close | cast | new | escape | lock | some | leave | iterate | «repeat» | «until»
  | «open» | out | inout | over | advise | siblings | loop | explain | default | except | intersect
  | minus | password | «local» | global | storage | data | coalesce | char | character | varying
  | varchar | varchar2 | integer | int | smallint | decimal | dec | numeric | float | real | double
  | precision | date | time | interval | boolean | blob | and | or | xor | is | not | null | «in»
  | between | like | any | all | exists | avg | max | min | sum | count | greatest | least | round
  | trunc | position | extract | length | charLength | substring | substr | instr | initcap | upper
  | lower | trim | ltrim | rtrim | both | leading | trailing | translate | convert | lpad | rpad
  | decode | nvl | constraint | unique | primary | foreign | key | check | references
  deriving DecidableEq, Repr

namespace Keyword

/-- Every keyword with its canonical spelling. -/
def names : List (Keyword × String) :=
  [(.schema, "SCHEMA"), (.database, "DATABASE"), (.table, "TABLE"), (.column, "COLUMN"),
   (.view, "VIEW"), (.index, "INDEX"), (.trigger, "TRIGGER"), (.procedure, "PROCEDURE"),
   (.tablespace, "TABLESPACE"), (.function, "FUNCTION"), (.sequence, "SEQUENCE"),
   (.cursor, "CURSOR"), (.«from», "FROM"), (.to, "TO"), (.of, "OF"), (.«if», "IF"), (.on, "ON"),
   (.«for», "FOR"), (.«while», "WHILE"), (.«do», "DO"), (.no, "NO"), (.«by», "BY"),
   (.«with», "WITH"), (.without, "WITHOUT"), (.true, "TRUE"), (.false, "FALSE"),
   (.temporary, "TEMPORARY"), (.temp, "TEMP"), (.comment, "COMMENT"), (.create, "CREATE"),
   (.replace, "REPLACE"), (.before, "BEFORE"), (.after, "AFTER"), (.instead, "INSTEAD"),
   (.each, "EACH"), (.row, "ROW"), (.statement, "STATEMENT"), (.execute, "EXECUTE"),
   (.bitmap, "BITMAP"), (.nosort, "NOSORT"), (.reverse, "REVERSE"), (.compile, "COMPILE"),
   (.alter, "ALTER"), (.add, "ADD"), (.modify, "MODIFY"), (.rename, "RENAME"), (.enable, "ENABLE"),
   (.disable, "DISABLE"), (.validate, "VALIDATE"), (.user, "USER"), (.identified, "IDENTIFIED"),
   (.truncate, "TRUNCATE"), (.drop, "DROP"), (.cascade, "CASCADE"), (.insert, "INSERT"),
   (.into, "INTO"), (.values, "VALUES"), (.update, "UPDATE"), (.set, "SET"), (.delete, "DELETE"),
   (.select, "SELECT"), (.distinct, "DISTINCT"), (.limit, "LIMIT"), (.as, "AS"), (.case, "CASE"),
   (.when, "WHEN"), (.«else», "ELSE"), (.«then», "THEN"), (.«end», "END"), (.left, "LEFT"),
   (.right, "RIGHT"), (.full, "FULL"), (.inner, "INNER"), (.outer, "OUTER"), (.cross, "CROSS"),
   (.join, "JOIN"), (.use, "USE"), (.«using», "USING"), (.natural, "NATURAL"), (.«where», "WHERE"),
   (.order, "ORDER"), (.asc, "ASC"), (.desc, "DESC"), (.group, "GROUP"), (.having, "HAVING"),
   (.union, "UNION"), (.declare, "DECLARE"), (.grant, "GRANT"), (.fetch, "FETCH"),
   (.revoke, "REVOKE"), (.close, "CLOSE"), (.cast, "CAST"), (.new, "NEW"), (.escape, "ESCAPE"),
   (.lock, "LOCK"), (.some, "SOME"), (.leave, "LEAVE"), (.iterate, "ITERATE"),
   (.«repeat», "REPEAT"), (.«until», "UNTIL"), (.«open», "OPEN"), (.out, "OUT"), (.inout, "INOUT"),
   (.over, "OVER"), (.advise, "ADVISE"), (.siblings, "SIBLINGS"), (.loop, "LOOP"),
   (.explain, "EXPLAIN"), (.default, "DEFAULT"), (.except, "EXCEPT"), (.intersect, "INTERSECT"),
   (.minus, "MINUS"), (.password, "PASSWORD"), (.«local», "LOCAL"), (.global, "GLOBAL"),
   (.storage, "STORAGE"), (.data, "DATA"), (.coalesce, "COALESCE"), (.char, "CHAR"),
   (.character, "CHARACTER"), (.varying, "VARYING"), (.varchar, "VARCHAR"), (.varchar2, "VARCHAR2"),
   (.integer, "INTEGER"), (.int, "INT"), (.smallint, "SMALLINT"), (.decimal, "DECIMAL"),
   (.dec, "DEC"), (.numeric, "NUMERIC"), (.float, "FLOAT"), (.real, "REAL"), (.double, "DOUBLE"),
   (.precision, "PRECISION"), (.date, "DATE"), (.time, "TIME"), (.interval, "INTERVAL"),
   (.boolean, "BOOLEAN"), (.blob, "BLOB"), (.and, "AND"), (.or, "OR"), (.xor, "XOR"), (.is, "IS"),
   (.not, "NOT"), (.null, "NULL"), (.«in», "IN"), (.between, "BETWEEN"), (.like, "LIKE"),
   (.any, "ANY"), (.all, "ALL"), (.exists, "EXISTS"), (.avg, "AVG"), (.max, "MAX"), (.min, "MIN"),
   (.sum, "SUM"), (.count, "COUNT"), (.greatest, "GREATEST"), (.least, "LEAST"), (.round, "ROUND"),
   (.trunc, "TRUNC"), (.position, "POSITION"), (.extract, "EXTRACT"), (.length, "LENGTH"),
   (.charLength, "CHAR_LENGTH"), (.substring, "SUBSTRING"), (.substr, "SUBSTR"), (.instr, "INSTR"),
   (.initcap, "INITCAP"), (.upper, "UPPER"), (.lower, "LOWER"), (.trim, "TRIM"), (.ltrim, "LTRIM"),
   (.rtrim, "RTRIM"), (.both, "BOTH"), (.leading, "LEADING"), (.trailing, "TRAILING"),
   (.translate, "TRANSLATE"), (.convert, "CONVERT"), (.lpad, "LPAD"), (.rpad, "RPAD"),
   (.decode, "DECODE"), (.nvl, "NVL"), (.constraint, "CONSTRAINT"), (.unique, "UNIQUE"),
   (.primary, "PRIMARY"), (.foreign, "FOREIGN"), (.key, "KEY"), (.check, "CHECK"),
   (.references, "REFERENCES")]

/-- The canonical upper-case spelling. -/
def name (k : Keyword) : String := ((names.find? fun entry => entry.1 = k).map Prod.snd).getD ""

/-- Look up a keyword by text, case-insensitively. -/
def textOf [UnicodeTables] (text : String) : Option Keyword :=
  (names.find? fun entry => entry.2 = Text.toUppercase text).map Prod.fst

end Keyword

/-- A text that is a keyword in upper case is the keyword in any case. -/
theorem keyword_textOf_eq [UnicodeTables] {text name : String} {k : Keyword}
    (h : Text.eqIgnoreAsciiCase text name) (hname : ∀ c ∈ name.toList, c.toNat < 128 ∧ c.toUpper = c)
    (hk : (Keyword.names.find? fun entry => entry.2 = name).map Prod.fst = some k) :
    Keyword.textOf text = some k := by
  rw [Keyword.textOf, Text.toUppercase_congr h, Text.toUppercase_eq_self hname, hk]

/-- SQL symbols and operators. -/
inductive Symbol
  | leftParen | rightParen | leftBrace | rightBrace | leftBracket | rightBracket | semi | comma
  | dot | doubleDot | plus | sub | star | slash | question | eq | gt | lt | bang | tilde | caret
  | percent | colon | doubleColon | colonEq | ltEq | gtEq | ltEqGt | ltGt | bangEq | bangGt | bangLt
  | amp | bar | doubleAmp | doubleBar | doubleLt | doubleGt | «at» | pound
  deriving DecidableEq, Repr

namespace Symbol

/-- Every symbol with its text. -/
def texts : List (Symbol × String) :=
  [(.leftParen, "("), (.rightParen, ")"), (.leftBrace, "\x7b"), (.rightBrace, "\x7d"),
   (.leftBracket, "["), (.rightBracket, "]"), (.semi, ";"), (.comma, ","), (.dot, "."),
   (.doubleDot, ".."), (.plus, "+"), (.sub, "-"), (.star, "*"), (.slash, "/"), (.question, "?"),
   (.eq, "="), (.gt, ">"), (.lt, "<"), (.bang, "!"), (.tilde, "~"), (.caret, "^"), (.percent, "%"),
   (.colon, ":"), (.doubleColon, "::"), (.colonEq, ":="), (.ltEq, "<="), (.gtEq, ">="),
   (.ltEqGt, "<=>"), (.ltGt, "<>"), (.bangEq, "!="), (.bangGt, "!>"), (.bangLt, "!<"), (.amp, "&"),
   (.bar, "|"), (.doubleAmp, "&&"), (.doubleBar, "||"), (.doubleLt, "<<"), (.doubleGt, ">>"),
   (.«at», "@"), (.pound, "#")]

/-- Look up a symbol by its exact text. -/
def textOf (text : String) : Option Symbol :=
  (texts.find? fun entry => entry.2 = text).map Prod.fst

/-- Whether `ch` can appear in a symbol. -/
def isSymbol (ch : Char) : Bool := texts.any fun entry => entry.2.toList.contains ch

end Symbol

/-- The kind of a token. -/
inductive TokenType
  | keyword (k : Keyword)
  | symbol (s : Symbol)
  | literal (l : Literal)
  deriving DecidableEq, Repr

/-- A scanned token. -/
structure Token where
  text : String
  tokenType : TokenType
  endOffset : ℕ
  deriving DecidableEq, Repr

/-- A keyword has a text that it is looked up by. -/
def Token.Scanned [UnicodeTables] (t : Token) : Prop :=
  ∀ k, t.tokenType = .keyword k → Keyword.textOf t.text = some k

end RQuery
