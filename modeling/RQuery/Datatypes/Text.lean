import Mathlib.Algebra.GroupWithZero.Nat
import Mathlib.Algebra.Ring.Int.Defs

/-!
# Text

The parts of Rust's string library the engine uses and Lean's differs from: `trim` over Unicode
white space, `str::parse::<i64>`, and UTF-8 decoding of byte strings, strict (`from_utf8`) and lossy
(`String::from_utf8_lossy`).
-/

namespace RQuery.Text

/-- The Unicode property `White_Space`. -/
def isWhitespace (c : Char) : Bool :=
  let n := c.toNat
  (0x9 ≤ n && n ≤ 0xD) || n = 0x20 || n = 0x85 || n = 0xA0 || n = 0x1680 ||
    (0x2000 ≤ n && n ≤ 0x200A) || n = 0x2028 || n = 0x2029 || n = 0x202F || n = 0x205F ||
    n = 0x3000

def trim (s : String) : String :=
  String.ofList ((s.toList.dropWhile isWhitespace).reverse.dropWhile isWhitespace).reverse

/-- A non-empty string of ASCII digits as a number. -/
def parseDigits (cs : List Char) : Option ℕ :=
  if cs.isEmpty then
    none
  else
    cs.foldlM (fun n c => if c.isDigit then some (10 * n + (c.toNat - '0'.toNat)) else none) 0

/-- An optional sign and digits. -/
def parseInteger (s : String) : Option ℤ :=
  match s.toList with
  | '+' :: cs => (parseDigits cs).map Int.ofNat
  | '-' :: cs => (parseDigits cs).map fun n => -Int.ofNat n
  | cs => (parseDigits cs).map Int.ofNat

/-- `str::parse::<i64>`: an integer in range. -/
def parseInt64 (s : String) : Option Int64 :=
  (parseInteger s).bind fun n =>
    if -2 ^ 63 ≤ n ∧ n < 2 ^ 63 then some (Int64.ofInt n) else none

/-- A printed number is read back. -/
theorem parseDigits_repr (n : ℕ) : parseDigits n.repr.toList = some n := by
  have hfold : ∀ (cs : List Char) (m : ℕ), (∀ c ∈ cs, c.isDigit) →
      cs.foldlM (fun n c => if c.isDigit then some (10 * n + (c.toNat - '0'.toNat)) else none) m =
        some (Nat.ofDigitChars 10 cs m) := by
    intro cs
    induction cs with
    | nil => intro m _; rfl
    | cons c cs ih =>
      intro m h
      rw [List.foldlM_cons, if_pos (h c List.mem_cons_self), Nat.ofDigitChars_cons]
      exact ih _ fun c hc => h c (List.mem_cons_of_mem _ hc)
  rw [Nat.toList_repr, parseDigits, if_neg (by simp [Nat.toDigits_ne_nil]),
    hfold _ _ fun c hc => Nat.isDigit_of_mem_toDigits (by decide) (by decide) hc,
    Nat.ofDigitChars_ten_toDigits]

/-- A number is written with digits. -/
theorem isDigit_of_mem_repr {n : ℕ} {c : Char} (hc : c ∈ n.repr.toList) : c.isDigit := by
  rw [Nat.toList_repr] at hc
  exact Nat.isDigit_of_mem_toDigits (by decide) (by decide) hc

/-- A written number is parsed back. -/
theorem parseInteger_repr (n : ℕ) : parseInteger n.repr = some (n : ℤ) := by
  have hdigits := parseDigits_repr n
  have hmem : ∀ c ∈ n.repr.toList, c.isDigit := fun _ hc => isDigit_of_mem_repr hc
  unfold parseInteger
  split
  · rename_i cs hcs
    exact absurd (hmem '+' (by simp [hcs])) (by decide)
  · rename_i cs hcs
    exact absurd (hmem '-' (by simp [hcs])) (by decide)
  · rw [hdigits]
    rfl

/-- So is one that 64 bits hold, into 64 bits. -/
theorem parseInt64_repr {n : ℕ} (hn : n < 2 ^ 63) :
    parseInt64 n.repr = some (Int64.ofNat n) := by
  rw [parseInt64, parseInteger_repr, Option.bind_some, if_pos (by omega)]
  exact congrArg some Int64.ofInt_eq_ofNat

theorem toString_negSucc (n : ℕ) : toString (Int.negSucc n) = "-" ++ (n + 1).repr := rfl

/-- A printed integer is read back, with its sign. -/
theorem parseInteger_toString (z : ℤ) : parseInteger (toString z) = some z := by
  cases z with
  | ofNat n => exact parseInteger_repr n
  | negSucc n =>
    have hlist : ("-" ++ (n + 1).repr).toList = '-' :: (n + 1).repr.toList := by simp
    rw [toString_negSucc, parseInteger, hlist]
    show (parseDigits _).map _ = _
    rw [parseDigits_repr]
    rfl

/-- A written integer is parsed back exactly if 64 bits hold it. -/
theorem parseInt64_toString (z : ℤ) : parseInt64 (toString z) =
    if -2 ^ 63 ≤ z ∧ z < 2 ^ 63 then some (Int64.ofInt z) else none := by
  rw [parseInt64, parseInteger_toString, Option.bind_some]

/-- Text without white space is left as it is. -/
theorem trim_eq_self {s : String} (h : ∀ c ∈ s.toList, isWhitespace c = false) : trim s = s := by
  have hdrop : ∀ cs : List Char, (∀ c ∈ cs, isWhitespace c = false) →
      cs.dropWhile isWhitespace = cs := by
    intro cs hcs
    cases cs with
    | nil => rfl
    | cons c cs => rw [List.dropWhile_cons, hcs c List.mem_cons_self, if_neg Bool.false_ne_true]
  rw [trim, hdrop _ h, hdrop _ (by simpa using h), List.reverse_reverse, String.ofList_toList]

/-- A digit is no white space. -/
theorem isWhitespace_of_isDigit {c : Char} (h : c.isDigit) : isWhitespace c = false := by
  have hdigit : 48 ≤ c.toNat ∧ c.toNat ≤ 57 := by
    simpa [Char.isDigit, UInt32.le_iff_toNat_le] using h
  simp [isWhitespace]
  omega

/-- A written integer has nothing to trim. -/
theorem trim_toString (z : ℤ) : trim (toString z) = toString z := by
  refine trim_eq_self fun c hc => ?_
  cases z with
  | ofNat n => exact isWhitespace_of_isDigit (isDigit_of_mem_repr hc)
  | negSucc n =>
    rw [toString_negSucc, String.toList_append] at hc
    rcases List.mem_append.mp hc with hc | hc
    · obtain rfl : c = '-' := by simpa using hc
      rfl
    · exact isWhitespace_of_isDigit (isDigit_of_mem_repr hc)

/-! ## UTF-8 -/

/-- A continuation byte `10xxxxxx` in the given range. -/
def continuation (b : UInt8) (lo : UInt8) (hi : UInt8) : Option ℕ :=
  if lo ≤ b ∧ b ≤ hi then some (b.toNat % 64) else none

/-- The range of the second byte, and the number of bytes, of the sequence a lead byte starts. -/
def leadByte (b : UInt8) : Option (ℕ × UInt8 × UInt8) :=
  let n := b.toNat
  if 0xC2 ≤ n ∧ n ≤ 0xDF then some (2, 0x80, 0xBF)
  else if n = 0xE0 then some (3, 0xA0, 0xBF)
  else if n = 0xED then some (3, 0x80, 0x9F)
  else if 0xE1 ≤ n ∧ n ≤ 0xEF then some (3, 0x80, 0xBF)
  else if n = 0xF0 then some (4, 0x90, 0xBF)
  else if n = 0xF4 then some (4, 0x80, 0x8F)
  else if 0xF1 ≤ n ∧ n ≤ 0xF3 then some (4, 0x80, 0xBF)
  else none

/-- The trailing bytes of a sequence: the code point they complete, or how many were well formed. -/
def trailing : ℕ → UInt8 → UInt8 → ℕ → ℕ → List UInt8 → Option ℕ × ℕ
  | 0, _, _, code, read, _ => (some code, read)
  | _ + 1, _, _, _, read, [] => (none, read)
  | n + 1, lo, hi, code, read, b :: bs =>
    match continuation b lo hi with
    | some bits => trailing n 0x80 0xBF (64 * code + bits) (read + 1) bs
    | none => (none, read)

/-- The first character, or `none` for a maximal ill-formed prefix, and its length in bytes. -/
def decodeOne (b : UInt8) (bs : List UInt8) : Option Char × ℕ :=
  if b.toNat < 0x80 then
    (some (Char.ofNat b.toNat), 1)
  else
    match leadByte b with
    | none => (none, 1)
    | some (len, lo, hi) =>
      let (code, read) := trailing (len - 1) lo hi (b.toNat % 2 ^ (7 - len)) 1 bs
      (code.map Char.ofNat, read)

def decode : ℕ → List UInt8 → List (Option Char)
  | 0, _ => []
  | _, [] => []
  | fuel + 1, b :: bs =>
    let (c, read) := decodeOne b bs
    c :: decode fuel (bs.drop (read - 1))

/-- `std::str::from_utf8`. -/
def fromUtf8 (bytes : List UInt8) : Option String :=
  ((decode bytes.length bytes).mapM id).map String.ofList

/-- `String::from_utf8_lossy`: U+FFFD for each maximal ill-formed prefix. -/
def fromUtf8Lossy (bytes : List UInt8) : String :=
  String.ofList ((decode bytes.length bytes).map fun c => c.getD (Char.ofNat 0xFFFD))

example : fromUtf8Lossy [0x68, 0xC3, 0xA9, 0xFF] = "hé�" := by decide

end RQuery.Text
