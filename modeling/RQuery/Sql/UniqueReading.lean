import RQuery.Sql.ParserCorrect
import Mathlib.Logic.Relation

/-!
# Unique readings

A text is read in one way: what starts at a token is one operand, one list, one clause
(`Spells.operand_unique` and so on), because the parser is a function and reads what is spelled. An
expression can end in front of any operator that is loose enough, and there it is told by how much
has been read: every infix operator makes it larger (`Spells.rest_unique`).
-/

namespace RQuery

open TokenStream SqlParser Relation

variable [FloatModel]

namespace Spells

/-- An expression that no tighter operator follows. -/
theorem expr_unique {level : ℕ} {e e' : SqlExpr} {ts rest rest' : TokenStream}
    (h : Spells True (.expr level e) ts rest) (hrest : precedenceAt rest ≤ level)
    (h' : Spells True (.expr level e') ts rest') (hrest' : precedenceAt rest' ≤ level) :
    e = e' ∧ rest = rest' := by
  have hread := parse_eq_ok_iff.mpr ⟨h, hrest⟩
  rw [parse_eq_ok_iff.mpr ⟨h', hrest'⟩] at hread
  cases hread
  exact ⟨rfl, rfl⟩

omit [FloatModel] in
/-- A computation returns one result. -/
theorem eq_of_ok {α β : Type} {x : Result (α × β)} {a a' : α} {b b' : β} (h : x = .ok (a, b))
    (h' : x = .ok (a', b')) : a = a' ∧ b = b' := by
  rw [h] at h'
  cases h'
  exact ⟨rfl, rfl⟩

/-- A text begins with one operand at most, -/
theorem operand_unique {e e' : SqlExpr} {ts rest rest' : TokenStream}
    (h : Spells True (.operand e) ts rest) (h' : Spells True (.operand e') ts rest') :
    e = e' ∧ rest = rest' := by
  have hread := eq_of_ok (SqlParser.Spells.readsPhrase h ts.length (Nat.le_refl _))
    (SqlParser.Spells.readsPhrase h' ts.length (Nat.le_refl _))
  exact ⟨Option.some.inj hread.1, hread.2⟩

/-- with one list of arguments, -/
theorem arguments_unique {es es' : List SqlExpr} {ts rest rest' : TokenStream}
    (h : Spells True (.arguments es) ts rest) (h' : Spells True (.arguments es') ts rest') :
    es = es' ∧ rest = rest' :=
  eq_of_ok (SqlParser.Spells.readsPhrase h (ts.length + 1) (Nat.le_refl _))
    (SqlParser.Spells.readsPhrase h' (ts.length + 1) (Nat.le_refl _))

/-- with one list of expressions, -/
theorem exprs_unique {es es' : List SqlExpr} {ts rest rest' : TokenStream}
    (h : Spells True (.exprs es) ts rest) (h' : Spells True (.exprs es') ts rest') :
    es = es' ∧ rest = rest' :=
  eq_of_ok
    (SqlParser.Spells.readsPhrase h (ts.length + 1) (Nat.le_refl _) (es.length + es'.length + 1)
      (by omega))
    (SqlParser.Spells.readsPhrase h' (ts.length + 1) (Nat.le_refl _) (es.length + es'.length + 1)
      (by omega))

/-- with one condition behind its keywords, -/
theorem condition_unique {keywords : List String} {e e' : Option SqlExpr}
    {ts rest rest' : TokenStream} (h : Spells True (.condition keywords e) ts rest)
    (h' : Spells True (.condition keywords e') ts rest') : e = e' ∧ rest = rest' :=
  eq_of_ok (SqlParser.Spells.readsPhrase h (ts.length + 1) (Nat.le_refl _))
    (SqlParser.Spells.readsPhrase h' (ts.length + 1) (Nat.le_refl _))

/-- and with one listing behind its keywords. -/
theorem listing_unique {keywords : List String} {es es' : List SqlExpr}
    {ts rest rest' : TokenStream} (h : Spells True (.listing keywords es) ts rest)
    (h' : Spells True (.listing keywords es') ts rest') : es = es' ∧ rest = rest' :=
  eq_of_ok (SqlParser.Spells.readsPhrase h (ts.length + 1) (Nat.le_refl _))
    (SqlParser.Spells.readsPhrase h' (ts.length + 1) (Nat.le_refl _))

end Spells

/-! ## Infix operators -/

/-- An infix operator, with what it makes of the expression to its left. -/
inductive InfixStep : SqlExpr × TokenStream → SqlExpr × TokenStream → Prop
  | binary {l r : SqlExpr} {t : Token} {us rest : TokenStream} (ht : t.tokenType.isOperator)
      (hr : Spells True (.expr (precedence t.tokenType) r) us rest)
      (hrest : precedenceAt rest ≤ precedence t.tokenType) :
    InfixStep (l, t :: us) (.binaryExpr l t.text r, rest)
  | aliased {e : SqlExpr} {name : String} {t : Token} {us rest : TokenStream}
      (ht : t.tokenType = .keyword .as) (hname : Spells True (.expr 0 (.identifier name)) us rest)
      (hrest : precedenceAt rest = 0) : InfixStep (e, t :: us) (.aliased e name, rest)
  | ascending {e : SqlExpr} {t : Token} {rest : TokenStream} (ht : t.tokenType = .keyword .asc) :
    InfixStep (e, t :: rest) (.sort e true, rest)
  | descending {e : SqlExpr} {t : Token} {rest : TokenStream} (ht : t.tokenType = .keyword .desc) :
    InfixStep (e, t :: rest) (.sort e false, rest)
  | call {id : String} {args : List SqlExpr} {l : Token} {us rest : TokenStream}
      (hl : l.tokenType = .symbol .leftParen) (hargs : Spells True (.arguments args) us rest) :
    InfixStep (.identifier id, l :: us) (.function id args, rest)

/-- The number of infix operators along the left operands. -/
def SqlExpr.spine : SqlExpr → ℕ
  | .binaryExpr l _ _ => l.spine + 1
  | .aliased e _ => e.spine + 1
  | .sort e _ => e.spine + 1
  | .function _ _ => 1
  | _ => 0

/-- A step of the operator loop makes the left spine longer by one. -/
theorem InfixStep.spine {a b : SqlExpr × TokenStream} (h : InfixStep a b) :
    b.1.spine = a.1.spine + 1 := by
  cases h <;> rfl

/-- A step of the operator loop has one outcome. -/
theorem InfixStep.rightUnique : Relator.RightUnique InfixStep := by
  intro a b c hb hc
  -- The token behind the expression decides between the five kinds of step.
  cases hb with
  | binary ht hr hrest =>
    cases hc with
    | binary ht' hr' hrest' =>
      obtain ⟨rfl, rfl⟩ := hr.expr_unique hrest hr' hrest'
      rfl
    -- A step of another kind would need the token to have two types.
    | aliased ht' _ _ | ascending ht' | descending ht' | call ht' _ =>
      rw [ht'] at ht
      cases ht
  | aliased ht hname hrest =>
    cases hc with
    | aliased _ hname' hrest' =>
      obtain ⟨heq, rfl⟩ := hname.expr_unique (Nat.le_of_eq hrest) hname' (Nat.le_of_eq hrest')
      cases heq
      rfl
    | binary ht' _ _ | ascending ht' | descending ht' | call ht' _ =>
      rw [ht] at ht'
      cases ht'
  | ascending ht =>
    cases hc with
    | ascending _ => rfl
    | binary ht' _ _ | aliased ht' _ _ | descending ht' | call ht' _ =>
      rw [ht] at ht'
      cases ht'
  | descending ht =>
    cases hc with
    | descending _ => rfl
    | binary ht' _ _ | aliased ht' _ _ | ascending ht' | call ht' _ =>
      rw [ht] at ht'
      cases ht'
  | call hl hargs =>
    cases hc with
    | call _ hargs' =>
      obtain ⟨rfl, rfl⟩ := hargs.arguments_unique hargs'
      rfl
    | binary ht' _ _ | aliased ht' _ _ | ascending ht' | descending ht' =>
      rw [hl] at ht'
      cases ht'

/-- Steps of the operator loop make the left spine longer. -/
theorem InfixStep.spine_of_chain {a b : SqlExpr × TokenStream} (h : ReflTransGen InfixStep a b) :
    a = b ∨ a.1.spine < b.1.spine := by
  induction h with
  | refl => exact .inl rfl
  | tail _ hstep ih =>
    right
    rcases ih with rfl | hlt
    · exact Nat.lt_of_lt_of_eq (Nat.lt_succ_self _) hstep.spine.symm
    · exact Nat.lt_trans hlt (Nat.lt_of_lt_of_eq (Nat.lt_succ_self _) hstep.spine.symm)

/-- An expression is an operand and the infix operators behind it. -/
theorem Spells.chain {level : ℕ} {e : SqlExpr} {ts rest : TokenStream}
    (h : Spells True (.expr level e) ts rest) : ∃ first us, Spells True (.operand first) ts us ∧
      ReflTransGen InfixStep (first, us) (e, rest) := by
  generalize hφ : Phrase.expr level e = φ at h
  -- The induction is on the derivation; every rule but the first appends one step.
  induction h generalizing level e with
  | operand he _ =>
    cases hφ
    exact ⟨_, _, he, .refl⟩
  | binary hl ht hlevel hr hrest ih _ =>
    cases hφ
    obtain ⟨first, us, hfirst, hchain⟩ := ih rfl
    exact ⟨first, us, hfirst, hchain.tail (.binary ht hr hrest)⟩
  | aliased he ht hlevel hname hrest ih _ =>
    cases hφ
    obtain ⟨first, us, hfirst, hchain⟩ := ih rfl
    exact ⟨first, us, hfirst, hchain.tail (.aliased ht hname hrest)⟩
  | ascending he ht hlevel ih =>
    cases hφ
    obtain ⟨first, us, hfirst, hchain⟩ := ih rfl
    exact ⟨first, us, hfirst, hchain.tail (.ascending ht)⟩
  | descending he ht hlevel ih =>
    cases hφ
    obtain ⟨first, us, hfirst, hchain⟩ := ih rfl
    exact ⟨first, us, hfirst, hchain.tail (.descending ht)⟩
  | call hid hl hlevel hargs ih _ =>
    cases hφ
    obtain ⟨first, us, hfirst, hchain⟩ := ih rfl
    exact ⟨first, us, hfirst, hchain.tail (.call hl hargs)⟩
  | _ => cases hφ

/-- Two expressions that start at a token: the one with fewer operators is a part of the other. -/
theorem Spells.spine_lt {level level' : ℕ} {e e' : SqlExpr} {ts rest rest' : TokenStream}
    (h : Spells True (.expr level e) ts rest) (h' : Spells True (.expr level' e') ts rest') :
    (e = e' ∧ rest = rest') ∨ e.spine < e'.spine ∨ e'.spine < e.spine := by
  obtain ⟨first, us, hfirst, hchain⟩ := h.chain
  obtain ⟨first', us', hfirst', hchain'⟩ := h'.chain
  obtain ⟨rfl, rfl⟩ := hfirst.operand_unique hfirst'
  -- From there the steps are determined, so one chain continues the other.
  rcases ReflTransGen.total_of_right_unique InfixStep.rightUnique hchain hchain' with hpath | hpath
  · rcases InfixStep.spine_of_chain hpath with heq | hlt
    · exact .inl (Prod.mk.inj heq)
    · exact .inr (.inl hlt)
  · rcases InfixStep.spine_of_chain hpath with heq | hlt
    · obtain ⟨rfl, rfl⟩ := Prod.mk.inj heq
      exact .inl ⟨rfl, rfl⟩
    · exact .inr (.inr hlt)

/-- An expression ends where it is all. -/
theorem Spells.rest_unique {level level' : ℕ} {e : SqlExpr} {ts rest rest' : TokenStream}
    (h : Spells True (.expr level e) ts rest) (h' : Spells True (.expr level' e) ts rest') :
    rest = rest' := by
  rcases h.spine_lt h' with ⟨-, heq⟩ | hlt | hlt
  · exact heq
  · exact absurd hlt (Nat.lt_irrefl _)
  · exact absurd hlt (Nat.lt_irrefl _)

end RQuery
