import RQuery.Common.SignedInteger
import RQuery.Physical.Counters

/-!
# Integer arithmetic

Arithmetic on one signed width is exact arithmetic modulo `2 ^ w`, null on null, and has no value
where a number is divided by zero (`IntegerTree.value`). `evaluate_modular_iff` says when evaluation
follows it: unless the smallest number of the width is divided by -1, whose quotient wraps for no
operator of Rust.
-/

namespace RQuery

section

variable [FloatModel]

/-! ## Specification -/

/-- The widths of signed integers. -/
inductive IntWidth
  | w8
  | w16
  | w32
  | w64
  deriving DecidableEq, Repr

namespace IntWidth

def bits : IntWidth → ℕ
  | w8 => 8
  | w16 => 16
  | w32 => 32
  | w64 => 64

def dataType : IntWidth → DataType
  | w8 => .int8
  | w16 => .int16
  | w32 => .int32
  | w64 => .int64

/-- A number, or null, as a cell. -/
def cell (w : IntWidth) : Option ℤ → ScalarValue
  | none => .null
  | some n =>
    match w with
    | w8 => .int8 (Int8.ofInt n)
    | w16 => .int16 (Int16.ofInt n)
    | w32 => .int32 (Int32.ofInt n)
    | w64 => .int64 (Int64.ofInt n)

end IntWidth

/-- The exact result of an operator. -/
def MathOp.exact (op : MathOp) (x y : ℤ) : ℤ :=
  match op with
  | add => x + y
  | subtract => x - y
  | multiply => x * y
  | divide => x.tdiv y

/-- Arithmetic over operands. -/
inductive IntegerTree
  | operand (e : Expression)
  | node (op : MathOp) (l r : IntegerTree)

namespace IntegerTree

def expression : IntegerTree → Expression
  | operand e => e
  | node op l r => .math op l.expression r.expression

def operands : IntegerTree → List Expression
  | operand e => [e]
  | node _ l r => operands l ++ operands r

/-- The value of the tree, given the numbers or nulls that its operands are. There is none where a
number is divided by zero. -/
def value (bits : ℕ) (operandValue : Expression → Option ℤ) : IntegerTree → Option (Option ℤ)
  | operand e => some (operandValue e)
  | node op l r => do
    let x ← l.value bits operandValue
    let y ← r.value bits operandValue
    match x, y with
    | some x, some y =>
      if op = .divide ∧ y = 0 then none else some (some ((op.exact x y).bmod (2 ^ bits)))
    | _, _ => some none

/-- The smallest number is divided by -1. -/
def Overflows (bits : ℕ) (operandValue : Expression → Option ℤ) : IntegerTree → Prop
  | operand _ => False
  | node op l r => l.Overflows bits operandValue ∨ r.Overflows bits operandValue ∨
      op = .divide ∧ l.value bits operandValue = some (some (-2 ^ (bits - 1))) ∧
        r.value bits operandValue = some (some (-1))

end IntegerTree

/-! ## Operators -/

omit [FloatModel] in
/-- An operator on a signed type. -/
theorem MathOp.applyInt_eq_ok_iff {α : Type} [DecidableEq α] [Add α] [Sub α] [Mul α] [Div α]
    {bits : ℕ} (S : SignedInteger α bits) {zero minusOne minValue : α} (hzero : S.toInt zero = 0)
    (hminusOne : S.toInt minusOne = -1) (hmin : S.toInt minValue = -2 ^ (bits - 1)) {op : MathOp}
    {x y : ℤ} (hx : InRange bits x) (hy : InRange bits y) {c : α} :
    op.applyInt zero minusOne minValue (S.ofInt x) (S.ofInt y) = .ok c ↔
      ¬(op = .divide ∧ y = 0) ∧ ¬(op = .divide ∧ x = -2 ^ (bits - 1) ∧ y = -1) ∧
        c = S.ofInt ((op.exact x y).bmod (2 ^ bits)) := by
  have htox := S.toInt_ofInt_of_inRange hx
  have htoy := S.toInt_ofInt_of_inRange hy
  have hresult : ∀ z : α, S.toInt z = (op.exact x y).bmod (2 ^ bits) →
      ((Except.ok z : Result α) = .ok c ↔ c = S.ofInt ((op.exact x y).bmod (2 ^ bits))) := by
    intro z hz
    rw [← hz, S.ofInt_toInt, Except.ok.injEq, eq_comm]
  cases op with
  | add =>
    simp only [reduceCtorEq, false_and, not_false_eq_true, true_and]
    exact hresult _ (by rw [S.toInt_add, htox, htoy]; rfl)
  | subtract =>
    simp only [reduceCtorEq, false_and, not_false_eq_true, true_and]
    exact hresult _ (by rw [S.toInt_sub, htox, htoy]; rfl)
  | multiply =>
    simp only [reduceCtorEq, false_and, not_false_eq_true, true_and]
    exact hresult _ (by rw [S.toInt_mul, htox, htoy]; rfl)
  | divide =>
    simp only [true_and]
    unfold applyInt
    have heqzero : S.ofInt y = zero ↔ y = 0 := by rw [← S.toInt_inj, htoy, hzero]
    have heqone : S.ofInt y = minusOne ↔ y = -1 := by rw [← S.toInt_inj, htoy, hminusOne]
    have heqmin : S.ofInt x = minValue ↔ x = -2 ^ (bits - 1) := by rw [← S.toInt_inj, htox, hmin]
    dsimp only
    split
    · rename_i h
      exact iff_of_false (by simp) fun hok => hok.1 (heqzero.mp h)
    · rename_i hne
      rw [and_iff_right (heqzero.not.mp hne)]
      split
      · rename_i h
        exact iff_of_false (by simp) fun hok => hok.1 ⟨heqmin.mp h.1, heqone.mp h.2⟩
      · rename_i hno
        rw [heqmin, heqone] at hno
        rw [and_iff_right hno]
        exact hresult _ (by rw [S.toInt_div, htox, htoy]; rfl)

namespace IntWidth

variable {w : IntWidth}

/-- A missing number is null. -/
theorem cell_isNull (x : Option ℤ) : (w.cell x).isNull = x.isNone := by
  cases x with
  | none => rfl
  | some n => cases w <;> rfl

/-- The arm of one width. -/
theorem evaluateCell_arm {α : Type} [DecidableEq α] [Add α] [Sub α] [Mul α] [Div α] {bits : ℕ}
    (S : SignedInteger α bits) (inj : α → ScalarValue) {zero minusOne minValue : α}
    (hzero : S.toInt zero = 0) (hminusOne : S.toInt minusOne = -1)
    (hmin : S.toInt minValue = -2 ^ (bits - 1)) {op : MathOp} {x y : ℤ} (hx : InRange bits x)
    (hy : InRange bits y) {v : ScalarValue} :
    (do return inj (← op.applyInt zero minusOne minValue (S.ofInt x) (S.ofInt y)) :
        Result ScalarValue) = .ok v ↔
      ¬(op = .divide ∧ y = 0) ∧ ¬(op = .divide ∧ x = -2 ^ (bits - 1) ∧ y = -1) ∧
        v = inj (S.ofInt ((op.exact x y).bmod (2 ^ bits))) := by
  rw [Outcome.bind_pure_eq_ok_iff]
  simp only [MathOp.applyInt_eq_ok_iff S hzero hminusOne hmin hx hy]
  constructor
  · rintro ⟨c, ⟨hdiv, hover, rfl⟩, rfl⟩
    exact ⟨hdiv, hover, rfl⟩
  · rintro ⟨hdiv, hover, rfl⟩
    exact ⟨_, ⟨hdiv, hover, rfl⟩, rfl⟩

/-- An operator on two numbers. -/
theorem evaluateCell_some {op : MathOp} {x y : ℤ} (hx : InRange w.bits x) (hy : InRange w.bits y)
    {v : ScalarValue} :
    ScalarValue.evaluateCell op (w.cell (some x)) (w.cell (some y)) w.dataType = .ok v ↔
      ¬(op = .divide ∧ y = 0) ∧ ¬(op = .divide ∧ x = -2 ^ (w.bits - 1) ∧ y = -1) ∧
        v = w.cell (some ((op.exact x y).bmod (2 ^ w.bits))) := by
  cases w with
  | w8 => exact evaluateCell_arm .int8 .int8 rfl rfl rfl hx hy
  | w16 => exact evaluateCell_arm .int16 .int16 rfl rfl rfl hx hy
  | w32 => exact evaluateCell_arm .int32 .int32 rfl rfl rfl hx hy
  | w64 => exact evaluateCell_arm .int64 .int64 rfl rfl rfl hx hy

/-- An operator on a null. -/
theorem evaluateCell_none {op : MathOp} {x y : Option ℤ} (h : x = none ∨ y = none) :
    ScalarValue.evaluateCell op (w.cell x) (w.cell y) w.dataType = .ok .null := by
  unfold ScalarValue.evaluateCell
  rw [cell_isNull, cell_isNull, if_pos]
  rcases h with rfl | rfl <;> simp

end IntWidth

/-! ## Trees -/

namespace IntegerTree

variable {w : IntWidth} {operandValue : Expression → Option ℤ}

/-- The value of a tree is in the range of its width. -/
theorem inRange_value {tree : IntegerTree}
    (h : ∀ e ∈ tree.operands, ∀ n, operandValue e = some n → InRange w.bits n) {n : ℤ}
    (hn : tree.value w.bits operandValue = some (some n)) : InRange w.bits n := by
  cases tree with
  | operand e => exact h e (List.mem_singleton_self e) n (Option.some.inj hn)
  | node op l r =>
    obtain ⟨x, -, hn⟩ := Option.bind_eq_some_iff.mp hn
    obtain ⟨y, -, hn⟩ := Option.bind_eq_some_iff.mp hn
    split at hn
    · split at hn
      · cases hn
      · obtain rfl := Option.some.inj (Option.some.inj hn)
        exact inRange_bmod _ _
    · cases hn

variable [Runtime] {types : List DataType} {row : Row}

omit [Runtime] in
/-- A tree over operands of a width is evaluated to the width. -/
theorem dataType_eq {tree : IntegerTree}
    (h : ∀ e ∈ tree.operands, e.dataType types = .ok w.dataType) :
    tree.expression.dataType types = .ok w.dataType := by
  induction tree with
  | operand e => exact h e (List.mem_singleton_self e)
  | node op l r ihl ihr =>
    obtain ⟨hl, hr⟩ := List.forall_mem_append.mp h
    rw [expression, Expression.dataType, ihl hl, ihr hr, Outcome.ok_bind, Outcome.ok_bind,
      Expression.mathType, if_pos rfl, Outcome.ok_bind, Expression.built, if_pos]
    cases w <;> rfl

/-- What the tree evaluates to in a row, if anything. -/
theorem evalCell_eq_ok_iff {tree : IntegerTree}
    (htypes : ∀ e ∈ tree.operands, e.dataType types = .ok w.dataType)
    (hcells : ∀ e ∈ tree.operands, e.evalCell types row = .ok (w.cell (operandValue e)))
    (hrange : ∀ e ∈ tree.operands, ∀ n, operandValue e = some n → InRange w.bits n)
    {v : ScalarValue} :
    tree.expression.evalCell types row = .ok v ↔
      ∃ x, tree.value w.bits operandValue = some x ∧ ¬ tree.Overflows w.bits operandValue ∧
        v = w.cell x := by
  induction tree generalizing v with
  | operand e =>
    rw [expression, hcells e (List.mem_singleton_self e), Except.ok.injEq]
    simp only [value, Option.some.injEq, Overflows, not_false_eq_true, true_and, exists_eq_left']
    exact eq_comm
  | node op l r ihl ihr =>
    obtain ⟨htl, htr⟩ := List.forall_mem_append.mp htypes
    obtain ⟨hcl, hcr⟩ := List.forall_mem_append.mp hcells
    obtain ⟨hrl, hrr⟩ := List.forall_mem_append.mp hrange
    have hmath : (IntegerTree.node op l r).expression.evalCell types row = .ok v ↔
        ∃ lv, l.expression.evalCell types row = .ok lv ∧ ∃ rv,
          r.expression.evalCell types row = .ok rv ∧
            ScalarValue.evaluateCell op lv rv w.dataType = .ok v := by
      rw [expression, Expression.evalCell, dataType_eq htl, dataType_eq htr, Outcome.ok_bind,
        Outcome.ok_bind, Expression.mathCell, Expression.mathType, if_pos rfl, Outcome.ok_bind,
        Expression.coerceCell_self]
      simp only [pure_bind, Outcome.bind_eq_ok_iff]
    rw [hmath]
    simp only [ihl htl hcl hrl, ihr htr hcr hrr]
    have hnode : ∀ x y, l.value w.bits operandValue = some x → r.value w.bits operandValue = some y →
        ¬ l.Overflows w.bits operandValue → ¬ r.Overflows w.bits operandValue →
        (ScalarValue.evaluateCell op (w.cell x) (w.cell y) w.dataType = .ok v ↔
          ∃ z, (node op l r).value w.bits operandValue = some z ∧
            ¬ (node op l r).Overflows w.bits operandValue ∧ v = w.cell z) := by
      intro x y hx hy hlo hro
      rw [value, hx, hy, Overflows, hx, hy, or_iff_right hlo, or_iff_right hro]
      cases x with
      | none =>
        rw [IntWidth.evaluateCell_none (.inl rfl)]
        simp [IntWidth.cell, eq_comm]
      | some x =>
        cases y with
        | none =>
          rw [IntWidth.evaluateCell_none (.inr rfl)]
          simp [IntWidth.cell, eq_comm]
        | some y =>
          rw [IntWidth.evaluateCell_some (inRange_value hrl hx) (inRange_value hrr hy)]
          by_cases hdiv : op = .divide ∧ y = 0
          · simp [hdiv]
          · simp [hdiv]
    constructor
    · rintro ⟨_, ⟨x, hx, hlo, rfl⟩, _, ⟨y, hy, hro, rfl⟩, hv⟩
      exact (hnode x y hx hy hlo hro).mp hv
    · rintro ⟨z, hz, hno, rfl⟩
      obtain ⟨x, hx, hrest⟩ := Option.bind_eq_some_iff.mp hz
      obtain ⟨y, hy, -⟩ := Option.bind_eq_some_iff.mp hrest
      have hlo : ¬ l.Overflows w.bits operandValue := fun h => hno (.inl h)
      have hro : ¬ r.Overflows w.bits operandValue := fun h => hno (.inr (.inl h))
      exact ⟨_, ⟨x, hx, hlo, rfl⟩, _, ⟨y, hy, hro, rfl⟩,
        (hnode x y hx hy hlo hro).mpr ⟨z, hz, hno, rfl⟩⟩

end IntegerTree

/-! ## Batches -/

/-- A cell is the cell of its number, which is in range. -/
theorem IntWidth.cell_integer? {w : IntWidth} {v : ScalarValue} (hv : v.FitsIn w.dataType) :
    v = w.cell v.integer? ∧ ∀ n, v.integer? = some n → InRange w.bits n := by
  rcases hv with rfl | hv
  · exact ⟨rfl, fun n hn => nomatch hn⟩
  · cases w <;> cases v <;> cases hv
    case inr.w8.int8.refl x => exact ⟨congrArg _ (Int8.ofInt_toInt x).symm, fun n hn =>
      Option.some.inj hn ▸ SignedInteger.int8.inRange_toInt x⟩
    case inr.w16.int16.refl x => exact ⟨congrArg _ (Int16.ofInt_toInt x).symm, fun n hn =>
      Option.some.inj hn ▸ SignedInteger.int16.inRange_toInt x⟩
    case inr.w32.int32.refl x => exact ⟨congrArg _ (Int32.ofInt_toInt x).symm, fun n hn =>
      Option.some.inj hn ▸ SignedInteger.int32.inRange_toInt x⟩
    case inr.w64.int64.refl x => exact ⟨congrArg _ (Int64.ofInt_toInt x).symm, fun n hn =>
      Option.some.inj hn ▸ SignedInteger.int64.inRange_toInt x⟩

variable [Runtime]

/-- The number or null that an expression evaluates to in a row. -/
def Expression.integerAt (b : RecordBatch) (k : ℕ) (e : Expression) : Option ℤ := do
  let column ← (e.evaluate b).toOption
  (← (column.value k).toOption).integer?

/-- The number of an expression at a row is that of its cell. -/
theorem Expression.integerAt_eq {b : RecordBatch} {k : ℕ} {e : Expression} {column : ColumnVector}
    {v : ScalarValue} (hcolumn : e.evaluate b = .ok column) (hv : column.value k = .ok v) :
    e.integerAt b k = v.integer? := by
  rw [integerAt, hcolumn]
  show ((column.value k).toOption >>= fun v => v.integer?) = _
  rw [hv]
  rfl

/-- The cell of an expression whose column can be read: it is of the type of the column, and it is
the integer there, if any. -/
theorem Expression.exists_cell {b : RecordBatch} {k : ℕ} {e : Expression} {column : ColumnVector}
    (hcolumn : e.evaluate b = .ok column) (hk : k < b.numRows)
    (hvalue : Outcome.Succeeds (column.value k)) :
    ∃ v, column.value k = .ok v ∧ e.evalCell b.types (b.row k) = .ok v ∧
      v.FitsIn column.dataType ∧ e.integerAt b k = v.integer? := by
  obtain ⟨t, ht, hcomputes⟩ := Expression.evaluate_computes hcolumn
  obtain ⟨v, hv⟩ := hvalue
  have hcell : e.evalCell b.types (b.row k) = .ok v := (hcomputes.value_eq k hk).symm.trans hv
  refine ⟨v, hv, hcell, ?_, integerAt_eq hcolumn hv⟩
  rw [hcomputes.dataType_eq]
  exact Expression.evalCell_fitsIn (b.row_fits k) ht hcell

/-- The tree evaluates to its values, and panics exactly if a number is divided by zero. -/
structure IntegerTree.Modular (w : IntWidth) (b : RecordBatch) (tree : IntegerTree) : Prop where
  total : (∀ k < b.numRows, tree.value w.bits (Expression.integerAt b k) ≠ none) →
    ∃ column, tree.expression.evaluate b = .ok column ∧ column.dataType = w.dataType ∧
      column.len = b.numRows ∧ ∀ k < b.numRows, ∃ x,
        tree.value w.bits (Expression.integerAt b k) = some x ∧ column.value k = .ok (w.cell x)
  divideByZero : (∃ k < b.numRows, tree.value w.bits (Expression.integerAt b k) = none) →
    ¬ Outcome.Succeeds (tree.expression.evaluate b)

/-- Arithmetic is eager: with its column, all cells are computed. -/
theorem math_evalCell_succeeds {op : MathOp} {l r : Expression} {b : RecordBatch}
    {column : ColumnVector} (h : (Expression.math op l r).evaluate b = .ok column) {k : ℕ}
    (hk : k < b.numRows) :
    Outcome.Succeeds ((Expression.math op l r).evalCell b.types (b.row k)) := by
  obtain ⟨t, -, hcomputes⟩ := Expression.evaluate_computes h
  obtain ⟨ll, -, h⟩ := Outcome.bind_eq_ok_iff.mp h
  obtain ⟨rr, -, h⟩ := Outcome.bind_eq_ok_iff.mp h
  obtain ⟨ll', rr', hpair⟩ : ∃ ll' rr' : ColumnVector, ll'.mathEvaluatePair op rr' = .ok column := by
    unfold ColumnVector.evaluateBinary at h
    split at h
    · cases h
    · split at h
      · split at h
        · exact ⟨_, _, h⟩
        · cases h
      · exact ⟨_, _, h⟩
  obtain ⟨a, ha, rfl⟩ := Outcome.bind_pure_eq_ok_iff.mp hpair
  obtain ⟨hbuilder, htype, -, -⟩ := ArrowVectorBuilder.fill_eq_ok_iff.mp ha
  have hlen : k < a.cells.length := hk.trans_eq hcomputes.len_eq.symm
  refine ⟨a.cells[k], ?_⟩
  rw [← hcomputes.value_eq k hk]
  exact a.value_eq_ok (htype ▸ hbuilder) (List.getElem?_eq_getElem hlen)

/-- Evaluation follows modular arithmetic exactly if it divides a number by zero anyway, or never
divides the smallest number by -1. -/
theorem evaluate_modular_iff {w : IntWidth} {tree : IntegerTree} {b : RecordBatch}
    (hoperands : ∀ e ∈ tree.operands, ∃ column, e.evaluate b = .ok column ∧
      column.dataType = w.dataType ∧ ∀ k < b.numRows, Outcome.Succeeds (column.value k)) :
    tree.Modular w b ↔
      (∃ k < b.numRows, tree.value w.bits (Expression.integerAt b k) = none) ∨
        ∀ k < b.numRows, ¬ tree.Overflows w.bits (Expression.integerAt b k) := by
  have htypes : ∀ e ∈ tree.operands, e.dataType b.types = .ok w.dataType := by
    intro e he
    obtain ⟨column, hcolumn, htype, -⟩ := hoperands e he
    obtain ⟨t, ht, hcomputes⟩ := Expression.evaluate_computes hcolumn
    rwa [← htype, hcomputes.dataType_eq]
  have hcells : ∀ k < b.numRows, ∀ e ∈ tree.operands,
      e.evalCell b.types (b.row k) = .ok (w.cell (Expression.integerAt b k e)) ∧
        ∀ n, Expression.integerAt b k e = some n → InRange w.bits n := by
    intro k hk e he
    obtain ⟨column, hcolumn, htype, hvalues⟩ := hoperands e he
    obtain ⟨v, -, hcell, hfits, hat⟩ := Expression.exists_cell hcolumn hk (hvalues k hk)
    obtain ⟨heq, hrange⟩ := IntWidth.cell_integer? (htype ▸ hfits)
    rw [hat]
    exact ⟨hcell.trans (congrArg _ heq), hrange⟩
  have hrow : ∀ k < b.numRows, ∀ v, tree.expression.evalCell b.types (b.row k) = .ok v ↔
      ∃ x, tree.value w.bits (Expression.integerAt b k) = some x ∧
        ¬ tree.Overflows w.bits (Expression.integerAt b k) ∧ v = w.cell x := fun k hk v =>
    IntegerTree.evalCell_eq_ok_iff htypes (fun e he => (hcells k hk e he).1)
      fun e he => (hcells k hk e he).2
  constructor
  · intro h
    by_cases hdiv : ∃ k < b.numRows, tree.value w.bits (Expression.integerAt b k) = none
    · exact .inl hdiv
    · refine .inr fun k hk hover => ?_
      obtain ⟨column, hcolumn, -, -, hvalues⟩ := h.total fun k hk hnone => hdiv ⟨k, hk, hnone⟩
      obtain ⟨x, -, hvalue⟩ := hvalues k hk
      obtain ⟨t, -, hcomputes⟩ := Expression.evaluate_computes hcolumn
      obtain ⟨_, -, hno, -⟩ := (hrow k hk _).mp ((hcomputes.value_eq k hk).symm.trans hvalue)
      exact hno hover
  · intro h
    refine ⟨fun htotal => ?_, ?_⟩
    · have hno := h.resolve_left fun hdiv => by
        obtain ⟨k, hk, hnone⟩ := hdiv
        exact htotal k hk hnone
      have hvalues : ∀ k < b.numRows, ∃ x,
          tree.value w.bits (Expression.integerAt b k) = some x ∧
            tree.expression.evalCell b.types (b.row k) = .ok (w.cell x) := by
        intro k hk
        obtain ⟨x, hx⟩ := Option.ne_none_iff_exists'.mp (htotal k hk)
        exact ⟨x, hx, (hrow k hk _).mpr ⟨x, hx, hno k hk, rfl⟩⟩
      have hsucceeds := Expression.evaluate_succeeds (IntegerTree.dataType_eq htypes)
        fun k hk => (hvalues k hk).imp' _ fun _ h => h.2
      obtain ⟨column, hcolumn, hcomputes⟩ :=
        Expression.exists_computes (IntegerTree.dataType_eq htypes) hsucceeds
      refine ⟨column, hcolumn, hcomputes.dataType_eq, hcomputes.len_eq, fun k hk => ?_⟩
      obtain ⟨x, hx, hcell⟩ := hvalues k hk
      exact ⟨x, hx, (hcomputes.value_eq k hk).trans hcell⟩
    · rintro ⟨k, hk, hnone⟩ ⟨column, hcolumn⟩
      cases tree with
      | operand e => cases hnone
      | node op l r =>
        obtain ⟨v, hv⟩ := math_evalCell_succeeds hcolumn hk
        obtain ⟨x, hx, -⟩ := (hrow k hk v).mp hv
        rw [hnone] at hx
        cases hx

end

section SmallestByMinusOne

attribute [local instance] integerFloats insertionOrderRuntime

/-- The types of the two columns. -/
theorem quotientBatch_types (x y : Int32) :
    [Int32Array [x], Int32Array [y]].map ArrayRef.dataType = [.int32, .int32] := rfl

/-- The columns have one cell each. -/
theorem quotientBatch_lengths (x y : Int32) :
    ∀ c ∈ [Int32Array [x], Int32Array [y]], c.cells.length = 1 := by
  simp [Int32Array]

/-- A row of two numbers. -/
def quotientBatch (x y : Int32) : RecordBatch where
  schema := ⟨[⟨"x", .int32⟩, ⟨"y", .int32⟩]⟩
  columns := [Int32Array [x], Int32Array [y]]
  numRows := 1
  types_eq := quotientBatch_types x y
  lengths := quotientBatch_lengths x y

/-- The quotient of the columns. -/
def quotientTree : IntegerTree := .node .divide (.operand (.column 0)) (.operand (.column 1))

/-- `i32::MIN / -1` panics, though nothing is divided by zero. -/
theorem evaluate_smallestByMinusOne :
    (quotientTree.expression.evaluate (quotientBatch Int32.minValue (-1))).map
        ColumnVector.dataType = .error .overflow ∧
      quotientTree.value 32 (Expression.integerAt (quotientBatch Int32.minValue (-1)) 0) =
        some (some (-2 ^ 31)) ∧
      ¬ quotientTree.Modular .w32 (quotientBatch Int32.minValue (-1)) := by
  have hpanic : (quotientTree.expression.evaluate (quotientBatch Int32.minValue (-1))).map
      ColumnVector.dataType = .error .overflow := by decide
  have hvalue : quotientTree.value 32
      (Expression.integerAt (quotientBatch Int32.minValue (-1)) 0) = some (some (-2 ^ 31)) := by
    decide
  refine ⟨hpanic, hvalue, fun h => ?_⟩
  obtain ⟨column, hcolumn, -⟩ := h.total fun k hk => by
    obtain rfl : k = 0 := Nat.lt_one_iff.mp hk
    rw [show IntWidth.w32.bits = 32 from rfl, hvalue]
    simp
  rw [hcolumn] at hpanic
  cases hpanic

/-- A quotient that is rounded towards zero. -/
theorem evaluate_modular_iff_truncated :
    quotientTree.Modular .w32 (quotientBatch 7 (-2)) ↔
      (∃ k < 1, quotientTree.value 32 (Expression.integerAt (quotientBatch 7 (-2)) k) = none) ∨
        ∀ k < 1, ¬ quotientTree.Overflows 32 (Expression.integerAt (quotientBatch 7 (-2)) k) := by
  refine evaluate_modular_iff fun e he => ?_
  have hvalues : ∀ column : ColumnVector, Outcome.Succeeds (column.value 0) →
      ∀ k < 1, Outcome.Succeeds (column.value k) := by
    intro column h k hk
    obtain rfl : k = 0 := Nat.lt_one_iff.mp hk
    exact h
  rcases List.mem_pair.mp he with rfl | rfl
  · exact ⟨_, rfl, rfl, hvalues _ ⟨.int32 7, rfl⟩⟩
  · exact ⟨_, rfl, rfl, hvalues _ ⟨.int32 (-2), rfl⟩⟩

end SmallestByMinusOne

end RQuery
