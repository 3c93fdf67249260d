import RQuery.Semantics.LimitClause
import RQuery.Common.SortOrder

/-!
# The ORDER BY clause

The planner does not read the sort items of a statement (`createDataFrame_unordered`): it is run as
if they were not there. So the statement honours them exactly if its rows come in this order anyway
(`honoursOrder_iff`).
-/

namespace RQuery

open SqlPlanner

section

variable [FloatModel]

/-! ## Sort items -/

/-- A sort item: a column of the output and a direction. -/
structure SortItem where
  column : ℕ
  asc : Bool
  deriving DecidableEq

/-- The sort item of `name ASC` or `name DESC`. -/
def sortItem (schema : Schema) : SqlExpr → Option SortItem
  | .sort (.identifier name) asc =>
    if name ∈ schema.names then some ⟨schema.names.idxOf name, asc⟩ else none
  | _ => none

/-- The sort items of a statement, if all of them are over columns of the output. -/
def sortItems (schema : Schema) (orderBy : List SqlExpr) : Option (List SortItem) :=
  orderBy.mapM (sortItem schema)

/-- The cell of a row in a column. -/
def cellAt (column : ℕ) (row : Row) : ScalarValue := (row[column]?).getD .null

/-- The order of the rows by a sort item. -/
def SortItem.order (values : SortOrder ScalarValue) (item : SortItem) : SortOrder Row :=
  (if item.asc then values else values.reversed).comap (cellAt item.column)

/-- The order of the rows by several sort items. -/
def rowOrder (values : SortOrder ScalarValue) (items : List SortItem) : SortOrder Row :=
  SortOrder.lexicographic (items.map (SortItem.order values))

/-! ## What is planned -/

namespace SqlPlanner

/-- The statement without its sort items. -/
def unordered (select : SqlSelect) : SqlSelect := { select with orderBy := [] }

end SqlPlanner

variable [Readers] [UnicodeTables] [DateParser]

/-- The sort items are not read. -/
theorem createDataFrame_unordered (select : SqlSelect) (tables : Tables) :
    createDataFrame (unordered select) tables = createDataFrame select tables := rfl

/-! ## What is run -/

variable [Runtime]

namespace ExecutionContext

theorem selectRows_unordered (ctx : ExecutionContext) (executor : ExecutorContext)
    (select : SqlSelect) :
    ctx.selectRows executor (unordered select) = ctx.selectRows executor select := rfl

/-- Either the statement is rejected or, if its sort items are columns of its output, its rows are
those without `ORDER BY` and `LIMIT`, sorted and cut. -/
def HonoursOrder (ctx : ExecutionContext) (executor : ExecutorContext)
    (values : SortOrder ScalarValue) (select : SqlSelect) : Prop :=
  ∀ df schema items out, createDataFrame select ctx.tables = .ok df → df.schema = .ok schema →
    sortItems schema select.orderBy = some items → ctx.selectRows executor select = .ok out →
      ∃ rows sorted, ctx.selectRows executor (unlimited (unordered select)) = .ok rows ∧
        sorted.Perm rows ∧ (rowOrder values items).Sorted sorted ∧ out = cutTo sorted select.limit

end ExecutionContext

/-- The order is honoured if and only if the rows without `ORDER BY` and `LIMIT` have it already: the
first ones, up to the limit, are sorted, and none of them is behind one of the others. -/
theorem honoursOrder_iff {ctx : ExecutionContext} {executor : ExecutorContext}
    {values : SortOrder ScalarValue} {select : SqlSelect} {df : DataFrame} {schema : Schema}
    {items : List SortItem} {rows : List Row} (hdf : createDataFrame select ctx.tables = .ok df)
    (hschema : df.schema = .ok schema) (hitems : sortItems schema select.orderBy = some items)
    (hrows : ctx.selectRows executor (unlimited (unordered select)) = .ok rows) :
    ctx.HonoursOrder executor values select ↔
      (rowOrder values items).LeadsSorted (select.limit.elim rows.length asUsize) rows := by
  have hout : ctx.selectRows executor select = .ok (cutTo rows select.limit) :=
    ExecutionContext.selectRows_cut hrows
  have hcut : ∀ sorted : List Row, sorted.Perm rows →
      cutTo sorted select.limit = sorted.take (select.limit.elim rows.length asUsize) := by
    intro sorted hperm
    cases select.limit with
    | none => exact (List.take_of_length_le hperm.length_eq.le).symm
    | some n => rfl
  rw [SortOrder.leadsSorted_iff]
  constructor
  · intro hhonours
    obtain ⟨rows', sorted, hrows', hperm, hsorted, heq⟩ :=
      hhonours df schema items _ hdf hschema hitems hout
    obtain rfl : rows = rows' := Except.ok.inj (hrows.symm.trans hrows')
    rw [hcut rows (.refl _), hcut sorted hperm] at heq
    exact ⟨sorted, hperm, hsorted, heq⟩
  · rintro ⟨sorted, hperm, hsorted, heq⟩ df' schema' items' out hdf' hschema' hitems' hout'
    obtain rfl : df = df' := Except.ok.inj (hdf.symm.trans hdf')
    obtain rfl : schema = schema' := Except.ok.inj (hschema.symm.trans hschema')
    obtain rfl : items = items' := Option.some.inj (hitems.symm.trans hitems')
    obtain rfl : cutTo rows select.limit = out := Except.ok.inj (hout.symm.trans hout')
    refine ⟨rows, sorted, hrows, hperm, hsorted, ?_⟩
    rw [hcut rows (.refl _), hcut sorted hperm, heq]

end

section

attribute [local instance] integerFloats insertionOrderRuntime asciiTables

local instance noOrderedFiles : Readers := parquetDisk fun _ => none

local instance noOrderedDates : DateParser := ⟨fun _ => none, DateParser.none_range⟩

/-- `SELECT a FROM t ORDER BY a` in a direction. -/
def selectOrdered (asc : Bool) : SqlSelect :=
  ⟨[.identifier "a"], none, [], [.sort (.identifier "a") asc], none, none, "t"⟩

/-- Integers by their numbers. -/
def integerOrder : SortOrder ScalarValue :=
  .byNumber fun
    | .int32 n => n.toInt
    | _ => 0

/-- What the statement is run with: its sort items, and the rows without them. -/
theorem selectOrdered_runs (asc : Bool) :
    ∃ df schema, createDataFrame (selectOrdered asc) threeRowsContext.tables = .ok df ∧
      df.schema = .ok schema ∧
      sortItems schema (selectOrdered asc).orderBy = some [⟨0, asc⟩] ∧
      threeRowsContext.selectRows ⟨"", "", 0, ⟨[]⟩⟩ (unlimited (unordered (selectOrdered asc))) =
        .ok [[.int32 1], [.int32 2], [.int32 3]] := by
  have hrun : (do
      let df ← createDataFrame (selectOrdered asc) threeRowsContext.tables
      let schema ← df.schema
      let rows ← threeRowsContext.selectRows ⟨"", "", 0, ⟨[]⟩⟩
        (unlimited (unordered (selectOrdered asc)))
      return (sortItems schema (selectOrdered asc).orderBy, rows)) =
        .ok (some [⟨0, asc⟩], [[.int32 1], [.int32 2], [.int32 3]]) := by
    cases asc <;> decide +kernel
  obtain ⟨df, hdf, hrun⟩ := Outcome.bind_eq_ok_iff.mp hrun
  obtain ⟨schema, hschema, hrun⟩ := Outcome.bind_eq_ok_iff.mp hrun
  obtain ⟨rows, hrows, hrun⟩ := Outcome.bind_pure_eq_ok_iff.mp hrun
  obtain ⟨hitems, rfl⟩ := Prod.mk.inj hrun
  exact ⟨df, schema, hdf, hschema, hitems.symm, hrows⟩

/-- `ORDER BY a` is honoured where the rows are 1, 2 and 3. -/
theorem honoursOrder_ascending :
    threeRowsContext.HonoursOrder ⟨"", "", 0, ⟨[]⟩⟩ integerOrder (selectOrdered true) := by
  obtain ⟨df, schema, hdf, hschema, hitems, hrows⟩ := selectOrdered_runs true
  have hle : ∀ m n : Int32, m ≤ n →
      (rowOrder integerOrder [⟨0, true⟩]).le [.int32 m] [.int32 n] := fun m n hmn =>
    ⟨Int32.le_iff_toInt_le.mp hmn, fun _ => trivial⟩
  have hsorted : (rowOrder integerOrder [⟨0, true⟩]).Sorted
      [[.int32 1], [.int32 2], [.int32 3]] := by
    simp only [SortOrder.Sorted, List.pairwise_cons, List.forall_mem_cons]
    exact ⟨⟨hle 1 2 (by decide), hle 1 3 (by decide), List.forall_mem_nil _⟩,
      ⟨hle 2 3 (by decide), List.forall_mem_nil _⟩, List.forall_mem_nil _, .nil⟩
  exact (honoursOrder_iff hdf hschema hitems hrows).mpr ⟨hsorted, fun _ _ _ hb => by cases hb⟩

/-- `ORDER BY a DESC` yields them in ascending order too. -/
theorem orderBy_descending_ignored :
    ¬ threeRowsContext.HonoursOrder ⟨"", "", 0, ⟨[]⟩⟩ integerOrder (selectOrdered false) := by
  intro h
  obtain ⟨df, schema, hdf, hschema, hitems, hrows⟩ := selectOrdered_runs false
  obtain ⟨rows, sorted, -, -, hsorted, hout⟩ := h df schema _ _ hdf hschema hitems hrows
  obtain rfl : [[.int32 1], [.int32 2], [.int32 3]] = sorted := hout
  have hle := (List.pairwise_cons.mp hsorted).1 [.int32 2] (by simp)
  have hnumbers : (2 : ℤ) ≤ 1 := hle.1
  exact absurd hnumbers (by decide)

end

end RQuery
