import RQuery.Sql.RespelledStatements
import RQuery.Sql.Statements

/-!
# The case of keywords

Clause words and functions are read in any case. The planner compares operators and types with fixed
texts, so that it reads AND and OR in upper case and the type `double` in lower case only: texts
that differ in the case of their keywords are planned alike if and only if both are spelled so, or
neither is (`sql_respelled_iff`).
-/

namespace RQuery

open SqlExpr SqlPlanner TokenStream

section

variable [FloatModel]

/-! ## Spellings that the planner reads -/

/-- The operators and types that are planned are spelled as the planner compares them. -/
def SqlExpr.spelled : SqlExpr → Bool
  | .binaryExpr l op r => l.spelled && r.spelled && Text.upper op = op
  | .aliased e _ => e.spelled
  | .cast e dataType => e.spelled && Text.lower dataType = dataType
  | .function _ (arg :: _) => arg.spelled
  | _ => true

/-- A select item that is an aggregate, or an alias of one. -/
def SqlExpr.isAggregateItem : SqlExpr → Bool
  | .function _ _ => true
  | .aliased (.function _ _) _ => true
  | _ => false

/-- The same of the parts of a statement that are planned: the sort keys are not, and the filter of a
`HAVING` clause is in a statement with aggregates. -/
structure SqlSelect.Spelled (s : SqlSelect) : Prop where
  projection : ∀ e ∈ s.projection, e.spelled = true
  selection : ∀ e ∈ s.selection, e.spelled = true
  groupBy : ∀ e ∈ s.groupBy, e.spelled = true
  having : (∃ e ∈ s.projection, e.isAggregateItem = true) → ∀ e ∈ s.having, e.spelled = true

/-- A statement is spelled if all of its expressions are. -/
theorem SqlSelect.Spelled.of_all {s : SqlSelect} (h : (s.projection ++ s.selection.toList ++
    s.groupBy ++ s.having.toList).all SqlExpr.spelled = true) : s.Spelled := by
  simp only [List.all_append, Bool.and_eq_true, List.all_eq_true, Option.mem_toList] at h
  obtain ⟨⟨⟨hprojection, hselection⟩, hgroupBy⟩, hhaving⟩ := h
  exact ⟨hprojection, hselection, hgroupBy, fun _ => hhaving⟩

/-! ## Planned spellings -/

/-- Only operators in capitals are planned. -/
theorem spelled_of_createBinaryExpr {op : String} {l r e : LogicalExpr}
    (h : createBinaryExpr op l r = .ok e) : Text.upper op = op := by
  unfold createBinaryExpr at h
  split at h <;> first | rfl | cases h

omit [FloatModel] in
/-- Only type names in small letters are known. -/
theorem spelled_of_parseDataType {t : String} {dataType : DataType}
    (h : parseDataType t = .ok dataType) : Text.lower t = t := by
  unfold parseDataType at h
  split at h
  · rfl
  · cases h

variable [UnicodeTables] [DateParser]

omit [DateParser] in
omit [FloatModel] in
/-- Capitals are not raised any more. -/
theorem toUppercase_upper (s : String) : Text.toUppercase (Text.upper s) = Text.toUppercase s :=
  Text.toUppercase_congr (Text.eqIgnoreAsciiCase_iff.mpr (Text.lower_upper s))

omit [UnicodeTables] [DateParser] in
/-- An identifier is its own normal form, and that of no other expression. -/
theorem respell_normal_eq_identifier {e : SqlExpr} {id : String}
    (h : respell .normal e = .identifier id) : e = .identifier id := by
  cases e <;> rw [respell] at h <;> first | exact h | cases h

/-- But for `COUNT(*)` the argument of an aggregate is planned as an expression. -/
theorem createArgument_of_ne {fn : AggregateFn} {arg : SqlExpr}
    (h : ¬ (fn = .count ∧ arg = .identifier "*")) : createArgument fn arg = createLogicalExpr arg := by
  unfold createArgument
  split
  · exact absurd ⟨rfl, rfl⟩ h
  · rfl

/-- An expression is planned if it is spelled so, and as what is spelled so. -/
theorem createLogicalExpr_respelled : ∀ (e : SqlExpr) (planned : LogicalExpr),
    createLogicalExpr e = .ok planned ↔
      e.spelled = true ∧ createLogicalExpr (respell .normal e) = .ok planned
  -- Names and literals are not respelled.
  | .identifier _, _ | .string _, _ | .long _, _ | .double _, _ | .date _, _ | .interval _, _ => by
    simp only [spelled, true_and]
    rfl
  | .binaryExpr l op r, planned => by
    rw [respell, createLogicalExpr_binaryExpr, createLogicalExpr_binaryExpr]
    simp only [Outcome.bind_eq_ok_iff, createLogicalExpr_respelled l, createLogicalExpr_respelled r,
      spelled, Bool.and_eq_true, decide_eq_true_eq]
    constructor
    -- An operator is planned only in the spelling the planner compares with.
    · rintro ⟨l', ⟨hl, hl'⟩, r', ⟨hr, hr'⟩, h⟩
      have hop := spelled_of_createBinaryExpr h
      exact ⟨⟨⟨hl, hr⟩, hop⟩, l', hl', r', hr', by rwa [show Respelling.normal.operator op = op from hop]⟩
    · rintro ⟨⟨⟨hl, hr⟩, hop⟩, l', hl', r', hr', h⟩
      rw [show Respelling.normal.operator op = op from hop] at h
      exact ⟨l', ⟨hl, hl'⟩, r', ⟨hr, hr'⟩, h⟩
  | .function id [], planned => by
    refine iff_of_false nofun fun h => ?_
    have hfunction : respell .normal (.function id []) = .function (Text.upper id) [] := by
      rw [respell, respellList]
      rfl
    rw [hfunction] at h
    cases h.2
  | .function id (arg :: args), planned => by
    -- The planner upper-cases the name of a function, so its spelling does not matter.
    have hname : aggregateNamed (Text.toUppercase (Text.upper id)) =
        aggregateNamed (Text.toUppercase id) := by rw [toUppercase_upper]
    have hargument : ∀ fn a, createArgument fn arg = .ok a ↔
        arg.spelled = true ∧ createArgument fn (respell .normal arg) = .ok a := by
      -- A counted star stays a star.
      intro fn a
      by_cases hstar : fn = .count ∧ arg = .identifier "*"
      · obtain ⟨rfl, rfl⟩ := hstar
        exact ⟨fun h => ⟨rfl, h⟩, fun h => h.2⟩
      · have hstar' : ¬ (fn = .count ∧ respell .normal arg = .identifier "*") := fun h =>
          hstar ⟨h.1, respell_normal_eq_identifier h.2⟩
        rw [createArgument_of_ne hstar, createArgument_of_ne hstar',
          createLogicalExpr_respelled arg]
    have hfunction : respell .normal (.function id (arg :: args)) =
        .function (Text.upper id) (respell .normal arg :: respellList .normal args) := by
      rw [respell, respellList]
      rfl
    rw [hfunction, createLogicalExpr_function, createLogicalExpr_function, hname, spelled]
    cases aggregateNamed (Text.toUppercase id) with
    | none => exact iff_of_false nofun fun h => by cases h.2
    | some fn =>
      simp only [Outcome.bind_pure_eq_ok_iff, hargument, and_assoc]
      exact exists_and_left
  | .aliased e name, planned => by
    rw [respell, createLogicalExpr_aliased, createLogicalExpr_aliased, spelled]
    simp only [Outcome.bind_pure_eq_ok_iff, createLogicalExpr_respelled e, and_assoc]
    exact exists_and_left
  | .cast e t, planned => by
    rw [respell, createLogicalExpr_cast, createLogicalExpr_cast]
    simp only [Outcome.bind_eq_ok_iff, createLogicalExpr_respelled e, spelled, Bool.and_eq_true,
      decide_eq_true_eq]
    -- A type is looked up in upper case only.
    constructor
    · rintro ⟨e', ⟨he, he'⟩, dataType, htype, h⟩
      have ht := spelled_of_parseDataType htype
      exact ⟨⟨he, ht⟩, e', he', dataType, by rwa [show Respelling.normal.type t = t from ht], h⟩
    · rintro ⟨⟨he, ht⟩, e', he', dataType, htype, h⟩
      rw [show Respelling.normal.type t = t from ht] at htype
      exact ⟨e', ⟨he, he'⟩, dataType, htype, h⟩
  | .sort _ _, _ | .select _, _ => iff_of_false nofun (fun h => by cases h.2)

/-- Expressions are planned as their normal forms are, if they are spelled. -/
theorem mapM_respelled (es : List SqlExpr) {planned : List LogicalExpr} :
    es.mapM createLogicalExpr = .ok planned ↔
      (∀ e ∈ es, e.spelled = true) ∧ (respellList .normal es).mapM createLogicalExpr = .ok planned := by
  induction es generalizing planned with
  | nil => simp [respellList]
  | cons e es ih =>
    rw [respellList, Outcome.mapM_cons_eq_ok_iff, Outcome.mapM_cons_eq_ok_iff, List.forall_mem_cons]
    simp only [createLogicalExpr_respelled e, ih]
    constructor
    · rintro ⟨p, ps, ⟨he, hp⟩, ⟨hes, hps⟩, rfl⟩
      exact ⟨⟨he, hes⟩, p, ps, hp, hps, rfl⟩
    · rintro ⟨⟨he, hes⟩, p, ps, hp, hps, rfl⟩
      exact ⟨p, ps, ⟨he, hp⟩, ⟨hes, hps⟩, rfl⟩

omit [UnicodeTables] [DateParser] in
/-- An operation is no aggregate. -/
theorem not_aggregate_of_createBinaryExpr {op : String} {l r e : LogicalExpr}
    (h : createBinaryExpr op l r = .ok e) : isAggregateExpr e = false := by
  unfold createBinaryExpr at h
  split at h <;> cases h <;> first
    | rfl
    | unfold additive
      split <;> rfl

/-- What is neither a function nor an alias is not planned as an aggregate. -/
theorem not_aggregate_of_createLogicalExpr {e : SqlExpr} {planned : LogicalExpr}
    (h : createLogicalExpr e = .ok planned) (hfunction : ∀ id args, e ≠ .function id args)
    (haliased : ∀ e' name, e ≠ .aliased e' name) : isAggregateExpr planned = false := by
  cases e with
  | function id args => exact absurd rfl (hfunction id args)
  | aliased e' name => exact absurd rfl (haliased e' name)
  | binaryExpr l op r =>
    rw [createLogicalExpr_binaryExpr] at h
    obtain ⟨l', -, h⟩ := Outcome.bind_eq_ok_iff.mp h
    obtain ⟨r', -, h⟩ := Outcome.bind_eq_ok_iff.mp h
    exact not_aggregate_of_createBinaryExpr h
  | date v =>
    rw [createLogicalExpr_date] at h
    split at h <;> cases h
    rfl
  | interval v =>
    rw [createLogicalExpr_interval, parseInterval] at h
    split at h <;> cases h
    rfl
  | cast e t =>
    rw [createLogicalExpr_cast] at h
    obtain ⟨e', -, h⟩ := Outcome.bind_eq_ok_iff.mp h
    obtain ⟨t', -, rfl⟩ := Outcome.bind_pure_eq_ok_iff.mp h
    rfl
  | sort e' asc => cases h
  | select s => cases h
  | _ =>
    cases h
    rfl

/-- A planned item is an aggregate if and only if it is written as one. -/
theorem isAggregateExpr_eq {e : SqlExpr} {planned : LogicalExpr}
    (h : createLogicalExpr e = .ok planned) : isAggregateExpr planned = e.isAggregateItem := by
  cases e with
  | function id args =>
    obtain ⟨fn, a, rfl⟩ := createLogicalExpr_function_ok h
    rfl
  | aliased e name =>
    rw [createLogicalExpr_aliased] at h
    obtain ⟨p, hp, rfl⟩ := Outcome.bind_pure_eq_ok_iff.mp h
    -- An aggregate may stand under one alias; under two it is none.
    cases e with
    | function id args =>
      obtain ⟨fn, a, rfl⟩ := createLogicalExpr_function_ok hp
      rfl
    | aliased e' name' =>
      rw [createLogicalExpr_aliased] at hp
      obtain ⟨p', -, rfl⟩ := Outcome.bind_pure_eq_ok_iff.mp hp
      rfl
    | _ =>
      have hplain := not_aggregate_of_createLogicalExpr hp nofun nofun
      cases p <;> first | rfl | cases hplain
  | _ => exact not_aggregate_of_createLogicalExpr h nofun nofun

/-! ## Planned statements -/

section

variable (f : Respelling) (s : SqlSelect)

omit [UnicodeTables] [DateParser]

/-- The select items are respelled one by one. -/
theorem respellSelect_projection :
    (respellSelect f s).projection = respellList f s.projection := by
  cases s
  rw [respellSelect]

/-- So is the `WHERE` clause. -/
theorem respellSelect_selection :
    (respellSelect f s).selection = respellOption f s.selection := by
  cases s
  rw [respellSelect]

/-- So are the group expressions. -/
theorem respellSelect_groupBy : (respellSelect f s).groupBy = respellList f s.groupBy := by
  cases s
  rw [respellSelect]

/-- So is the `HAVING` clause. -/
theorem respellSelect_having : (respellSelect f s).having = respellOption f s.having := by
  cases s
  rw [respellSelect]

/-- The limit stays. -/
theorem respellSelect_limit : (respellSelect f s).limit = s.limit := by
  cases s
  rw [respellSelect]

/-- The name of the table is respelled as a name. -/
theorem respellSelect_tableName : (respellSelect f s).tableName = f.name s.tableName := by
  cases s
  rw [respellSelect]

/-- As many expressions are respelled as there are. -/
theorem respellList_length (es : List SqlExpr) : (respellList f es).length = es.length := by
  rw [respellList_eq_map, List.length_map]

end

variable [Readers]

/-- The filter refers to the columns that its normal form refers to, if it is spelled. -/
theorem columnsReferencedBySelection_respelled {s : SqlSelect} {table : DataFrame}
    {names : List String} :
    columnsReferencedBySelection s table = .ok names ↔
      (∀ e ∈ s.selection, e.spelled = true) ∧
        columnsReferencedBySelection (respellSelect .normal s) table = .ok names := by
  unfold columnsReferencedBySelection
  rw [respellSelect_selection]
  cases s.selection with
  | none => simp [respellOption]
  | some e =>
    simp only [respellOption, Outcome.bind_eq_ok_iff, createLogicalExpr_respelled e, Option.mem_def,
      Option.some.injEq, forall_eq', and_assoc]
    exact exists_and_left

/-- A query without aggregates is planned as its normal form is. -/
theorem planNonAggregateQuery_respelled {s : SqlSelect}
    (hselection : ∀ e ∈ s.selection, e.spelled = true) {table df : DataFrame}
    {items : List LogicalExpr} {inSelection inProjection : List String} :
    planNonAggregateQuery s table items inSelection inProjection = .ok df ↔
      planNonAggregateQuery (respellSelect .normal s) table items inSelection inProjection =
        .ok df := by
  unfold planNonAggregateQuery
  rw [respellSelect_selection, respellSelect_limit]
  cases hs : s.selection with
  | none => rfl
  | some e =>
    have he := hselection e hs
    dsimp only [respellOption]
    split <;> simp only [Outcome.bind_eq_ok_iff, createLogicalExpr_respelled e, he, true_and]

/-- The aggregation is planned as that of the normal form, if the group expressions are spelled. -/
theorem planAggregateQuery_respelled {s : SqlSelect}
    (hselection : ∀ e ∈ s.selection, e.spelled = true) {items : List LogicalExpr}
    {inSelection : List String} {df plan : DataFrame} {aggr : List AggregateExpr} :
    planAggregateQuery items s inSelection df aggr = .ok plan ↔
      (∀ e ∈ s.groupBy, e.spelled = true) ∧
        planAggregateQuery items (respellSelect .normal s) inSelection df aggr = .ok plan := by
  unfold planAggregateQuery
  rw [respellSelect_selection, respellSelect_groupBy]
  -- The filter is planned in front of the group expressions, in either spelling.
  cases hs : s.selection with
  | none =>
    dsimp only [respellOption]
    simp only [Outcome.pure_eq_ok, Outcome.ok_bind, Outcome.bind_eq_ok_iff,
      mapM_respelled s.groupBy, and_assoc]
    exact exists_and_left
  | some e =>
    have he := hselection e hs
    dsimp only [respellOption]
    simp only [Outcome.bind_eq_ok_iff, createLogicalExpr_respelled e, he, true_and,
      mapM_respelled s.groupBy]
    constructor
    · rintro ⟨p, hp, a, ha, group, ⟨hspelled, hgroup⟩, h⟩
      exact ⟨hspelled, p, hp, a, ha, group, hgroup, h⟩
    · rintro ⟨hspelled, p, hp, a, ha, group, hgroup, h⟩
      exact ⟨p, hp, a, ha, group, ⟨hspelled, hgroup⟩, h⟩

/-- The `HAVING` clause is planned as its normal form is, if it is spelled. -/
theorem havingFilter_respelled (having : Option SqlExpr) {plan filtered : DataFrame} :
    havingFilter plan having = .ok filtered ↔
      (∀ e ∈ having, e.spelled = true) ∧
        havingFilter plan (respellOption .normal having) = .ok filtered := by
  cases having with
  | none => simp [respellOption]
  | some e =>
    simp only [respellOption, havingFilter, Outcome.bind_pure_eq_ok_iff,
      createLogicalExpr_respelled e, Option.mem_def, Option.some.injEq, forall_eq', and_assoc]
    exact exists_and_left

/-- A query with aggregates is planned as its normal form is, if its clauses are spelled. -/
theorem planAggregateSelect_respelled {s : SqlSelect}
    (hselection : ∀ e ∈ s.selection, e.spelled = true) {table df : DataFrame}
    {items : List LogicalExpr} {inSelection : List String} :
    planAggregateSelect s table items inSelection = .ok df ↔
      ((∀ e ∈ s.groupBy, e.spelled = true) ∧ ∀ e ∈ s.having, e.spelled = true) ∧
        planAggregateSelect (respellSelect .normal s) table items inSelection = .ok df := by
  simp only [planAggregateSelect_eq_ok_iff, respellSelect_groupBy, respellList_length,
    respellSelect_having, respellSelect_limit, planAggregateQuery_respelled hselection,
    havingFilter_respelled s.having]
  constructor
  · rintro ⟨projection, aggr, plan, filtered, hsplit, ⟨hgroup, hquery⟩, ⟨hhaving, hfilter⟩, hdf⟩
    exact ⟨⟨hgroup, hhaving⟩, projection, aggr, plan, filtered, hsplit, hquery, hfilter, hdf⟩
  · rintro ⟨⟨hgroup, hhaving⟩, projection, aggr, plan, filtered, hsplit, hquery, hfilter, hdf⟩
    exact ⟨projection, aggr, plan, filtered, hsplit, ⟨hgroup, hquery⟩, ⟨hhaving, hfilter⟩, hdf⟩

/-- A statement is planned if it is spelled so, and as what is spelled so. -/
theorem createDataFrame_respelled {s : SqlSelect} {tables : Tables} {df : DataFrame} :
    createDataFrame s tables = .ok df ↔
      s.Spelled ∧ createDataFrame (respellSelect .normal s) tables = .ok df := by
  -- Whether the SELECT list has an aggregate is read off the list before it is planned.
  have hitem : ∀ {items : List LogicalExpr}, s.projection.mapM createLogicalExpr = .ok items →
      (items.any isAggregateExpr = true ↔ ∃ e ∈ s.projection, e.isAggregateItem = true) := by
    intro items hitems
    rw [List.any_eq_true]
    constructor
    · rintro ⟨item, hmem, haggr⟩
      obtain ⟨e, he, hplanned⟩ := Outcome.mapM_mem hitems hmem
      exact ⟨e, he, isAggregateExpr_eq hplanned ▸ haggr⟩
    · rintro ⟨e, he, haggr⟩
      obtain ⟨item, hmem, hplanned⟩ := Outcome.mapM_mem_left hitems he
      exact ⟨item, hmem, (isAggregateExpr_eq hplanned).trans haggr⟩
  have htableName : Respelling.normal.name s.tableName = s.tableName := rfl
  rw [createDataFrame_eq_ok_iff, createDataFrame_eq_ok_iff, respellSelect_projection,
    respellSelect_tableName, htableName]
  constructor
  · rintro ⟨table, items, inSelection, htable, hitems, hselection, hbranch⟩
    obtain ⟨hspelled, hselected⟩ := columnsReferencedBySelection_respelled.mp hselection
    obtain ⟨hprojection, hprojected⟩ := (mapM_respelled _).mp hitems
    -- Without an aggregate there is no GROUP BY to spell, and HAVING is not looked at.
    rcases hbranch with ⟨hall, hgroup, hplan⟩ | ⟨hany, hplan⟩
    · refine ⟨⟨hprojection, hspelled, by simp [hgroup], fun haggr => ?_⟩, table, items, inSelection,
        htable, hprojected, hselected, .inl ⟨hall, ?_, ?_⟩⟩
      · have hany := (hitem hitems).mpr haggr
        simp only [List.all_eq_true, List.any_eq_true, Bool.not_eq_eq_eq_not, Bool.not_true]
          at hall hany
        obtain ⟨item, hmem, haggr⟩ := hany
        exact absurd haggr (by simp [hall item hmem])
      · rw [respellSelect_groupBy, hgroup, respellList]
      · exact (planNonAggregateQuery_respelled hspelled).mp hplan
    · obtain ⟨⟨hgroup, hhaving⟩, hplanned⟩ := (planAggregateSelect_respelled hspelled).mp hplan
      exact ⟨⟨hprojection, hspelled, hgroup, fun _ => hhaving⟩, table, items, inSelection, htable,
        hprojected, hselected, .inr ⟨hany, hplanned⟩⟩
  · rintro ⟨hs, table, items, inSelection, htable, hprojected, hselected, hbranch⟩
    have hitems := (mapM_respelled _).mpr ⟨hs.projection, hprojected⟩
    have hselection := columnsReferencedBySelection_respelled.mpr ⟨hs.selection, hselected⟩
    refine ⟨table, items, inSelection, htable, hitems, hselection, ?_⟩
    rcases hbranch with ⟨hall, hgroup, hplan⟩ | ⟨hany, hplan⟩
    · refine .inl ⟨hall, ?_, (planNonAggregateQuery_respelled hs.selection).mpr hplan⟩
      rw [respellSelect_groupBy] at hgroup
      exact List.length_eq_zero_iff.mp
        ((respellList_length .normal s.groupBy).symm.trans (congrArg List.length hgroup))
    · refine .inr ⟨hany, (planAggregateSelect_respelled hs.selection).mpr ⟨⟨hs.groupBy, ?_⟩, hplan⟩⟩
      exact hs.having ((hitem hitems).mp hany)

/-! ## Texts -/

omit [DateParser] [Readers]

/-- The text starts with the statement. -/
def Reads (text : String) (s : SqlSelect) : Prop :=
  ∃ tokens rest, tokenize text = .ok tokens ∧ parseStatement tokens = .ok (s, rest)

/-- A text is read as one statement. -/
theorem Reads.unique {text : String} {s s' : SqlSelect} (h : Reads text s) (h' : Reads text s') :
    s = s' := by
  obtain ⟨tokens, rest, htokens, hs⟩ := h
  obtain ⟨tokens', rest', htokens', hs'⟩ := h'
  cases htokens.symm.trans htokens'
  cases hs.symm.trans hs'
  rfl

/-- `sql` plans the statement that the text is read as. -/
theorem sql_eq_ok_iff [DateParser] [Readers] {ctx : ExecutionContext} {text : String}
    {df : DataFrame} :
    ctx.sql text = .ok df ↔ ∃ s, Reads text s ∧ createDataFrame s ctx.tables = .ok df := by
  constructor
  · intro h
    obtain ⟨tokens, htokens, h⟩ := Outcome.bind_eq_ok_iff.mp h
    obtain ⟨⟨s, rest⟩, hparse, h⟩ := Outcome.bind_eq_ok_iff.mp h
    exact ⟨s, ⟨tokens, rest, htokens, hparse⟩, h⟩
  · rintro ⟨s, ⟨tokens, rest, htokens, hparse⟩, h⟩
    rw [ExecutionContext.sql, htokens, Outcome.ok_bind, hparse, Outcome.ok_bind]
    exact h

/-- The text gives a data frame if its statement is spelled as the planner compares operators and
types. -/
theorem sql_eq_ok_iff_spelled [DateParser] [Readers] {ctx : ExecutionContext} {text : String}
    {df : DataFrame} :
    ctx.sql text = .ok df ↔ ∃ s, Reads text s ∧ s.Spelled ∧
      createDataFrame (respellSelect .normal s) ctx.tables = .ok df := by
  rw [sql_eq_ok_iff]
  exact exists_congr fun s => and_congr_right fun _ => createDataFrame_respelled

/-- The texts differ in the ASCII case of keywords, none of which is a column, a table or an alias. -/
structure KeywordsRespelled (text text' : String) : Prop extends SameButKeywords text text' where
  names : ∀ s s', Reads text s → Reads text' s' → namesSelect s = namesSelect s'

omit [FloatModel] [UnicodeTables] in
/-- Respelling goes both ways. -/
theorem Token.Respelled.symm {t t' : Token} (h : t.Respelled t') : t'.Respelled t where
  tokenType := h.tokenType.symm
  letters := by
    have hletters := Text.eqIgnoreAsciiCase_iff.mp h.letters
    exact Text.eqIgnoreAsciiCase_iff.mpr hletters.symm
  text hk := (h.text (h.tokenType ▸ hk)).symm

omit [UnicodeTables] in
/-- Respelled tokens are parsed as a statement of the same letters. -/
theorem parseStatement_respelled {ts ts' : TokenStream} (hts : List.Forall₂ Token.Respelled ts ts')
    {s : SqlSelect} {rest : TokenStream} (h : parseStatement ts = .ok (s, rest)) :
    ∃ s' rest', parseStatement ts' = .ok (s', rest') ∧
      respellSelect .lower s = respellSelect .lower s' := by
  obtain ⟨hspells, hrest⟩ := parseStatement_eq_ok_iff.mp h
  obtain ⟨_, rest', hφ, hrest', hspells'⟩ := hspells.respelled hts
  obtain ⟨e', rfl, he⟩ := hφ.expr_left
  cases e' <;> simp only [respell, reduceCtorEq, SqlExpr.select.injEq] at he
  rw [precedenceAt_respelled hrest'] at hrest
  exact ⟨_, rest', parseStatement_eq_ok_iff.mpr ⟨hspells', hrest⟩, he⟩

/-- Respelled texts start with statements that are the same once their operators and types are
spelled as the planner compares them. -/
theorem KeywordsRespelled.reads {text text' : String} (h : KeywordsRespelled text text')
    {s : SqlSelect} (hs : Reads text s) :
    ∃ s', Reads text' s' ∧ respellSelect .normal s = respellSelect .normal s' := by
  obtain ⟨tokens, rest, htokens, hparse⟩ := hs
  have hrelated := tokenize_respelled h.toSameButKeywords
  rw [htokens] at hrelated
  generalize htokens' : tokenize text' = tokenized at hrelated
  obtain ⟨hsame⟩ := hrelated
  obtain ⟨s', rest', hparse', hlower⟩ := parseStatement_respelled hsame hparse
  have hs' : Reads text' s' := ⟨_, rest', htokens', hparse'⟩
  exact ⟨s', hs', normalSelect_congr hlower (h.names s s' ⟨tokens, rest, htokens, hparse⟩ hs')⟩

/-- Where a respelled text is read, so is the text. -/
theorem KeywordsRespelled.reads_of_right {text text' : String} (h : KeywordsRespelled text text')
    {s' : SqlSelect} (hs' : Reads text' s') : ∃ s, Reads text s := by
  obtain ⟨tokens', rest', htokens', hparse'⟩ := hs'
  have hrelated := tokenize_respelled h.toSameButKeywords
  rw [htokens'] at hrelated
  generalize htokens : tokenize text = tokenized at hrelated
  obtain ⟨hsame⟩ := hrelated
  have hflip := hsame.flip.imp fun _ _ ht => Token.Respelled.symm ht
  obtain ⟨s, rest, hparse, -⟩ := parseStatement_respelled hflip hparse'
  exact ⟨s, _, rest, htokens, hparse⟩

/-- Texts that differ in the case of their keywords are planned alike if and only if both statements
are spelled as the planner compares operators and types, or neither is, or they are rejected
anyway. -/
theorem sql_respelled_iff [DateParser] [Readers] {ctx : ExecutionContext} {text text' : String}
    (h : KeywordsRespelled text text') :
    (∀ df, ctx.sql text = .ok df ↔ ctx.sql text' = .ok df) ↔
      ∀ s s', Reads text s → Reads text' s' →
        Outcome.Succeeds (createDataFrame (respellSelect .normal s) ctx.tables) →
          (s.Spelled ↔ s'.Spelled) := by
  simp only [sql_eq_ok_iff_spelled]
  constructor
  -- Both texts read as statements that are the same in normal spelling, and each is planned where
  -- it is spelled.
  · rintro hsame s s' hs hs' ⟨df, hdf⟩
    obtain ⟨s'', hs'', hnormal⟩ := h.reads hs
    obtain rfl := hs'.unique hs''
    constructor
    · intro hspelled
      obtain ⟨t, ht, htspelled, -⟩ := (hsame df).mp ⟨s, hs, hspelled, hdf⟩
      rwa [hs'.unique ht]
    · intro hspelled
      obtain ⟨t, ht, htspelled, -⟩ := (hsame df).mpr ⟨s', hs', hspelled, hnormal ▸ hdf⟩
      rwa [hs.unique ht]
  · intro hspelled df
    constructor
    · rintro ⟨s, hs, hsp, hdf⟩
      obtain ⟨s', hs', hnormal⟩ := h.reads hs
      exact ⟨s', hs', (hspelled s s' hs hs' ⟨df, hdf⟩).mp hsp, hnormal ▸ hdf⟩
    · rintro ⟨s', hs', hsp, hdf⟩
      obtain ⟨s, hs⟩ := h.reads_of_right hs'
      obtain ⟨s'', hs'', hnormal⟩ := h.reads hs
      obtain rfl := hs'.unique hs''
      have hdf : createDataFrame (respellSelect .normal s) ctx.tables = .ok df := hnormal ▸ hdf
      exact ⟨s, hs, (hspelled s s' hs hs' ⟨df, hdf⟩).mpr hsp, hdf⟩

end

section

attribute [local instance] integerFloats asciiTables

local instance noRespelledFiles : Readers := parquetDisk fun _ => none

local instance noRespelledDates : DateParser := ⟨fun _ => none, DateParser.none_range⟩

/-- The names of the statement, and whether all of it is spelled as the planner reads it. -/
def statementOf (text : String) : Result (List String × Bool) := do
  let (s, _) ← parseStatement (← tokenize text)
  return (namesSelect s, (s.projection ++ s.selection.toList ++ s.groupBy ++ s.having.toList).all
    SqlExpr.spelled)

/-- The names and the spelling that are computed of a text are those of its statement. -/
theorem Reads.statementOf {text : String} {s : SqlSelect} (h : Reads text s) {names : List String}
    {spelled : Bool} (hof : RQuery.statementOf text = .ok (names, spelled)) :
    namesSelect s = names ∧ (spelled = true → s.Spelled) := by
  obtain ⟨tokens, rest, htokens, hparse⟩ := h
  rw [RQuery.statementOf, htokens, Outcome.ok_bind, hparse, Outcome.ok_bind] at hof
  obtain ⟨rfl, rfl⟩ := Prod.mk.inj (Except.ok.inj hof)
  exact ⟨rfl, SqlSelect.Spelled.of_all⟩

def respelledSchema : Schema := ⟨[⟨"a", .int32⟩]⟩

/-- No batch of the table is of another schema. -/
theorem respelled_conforms : ∀ b ∈ ([] : List RecordBatch), b.schema = respelledSchema :=
  fun _ h => absurd h List.not_mem_nil

def respelledSource : DataSource := .inMemory ⟨respelledSchema, [], respelled_conforms⟩

/-- The scan of the table has the table's schema. -/
theorem respelled_derived : Scan.deriveSchema respelledSource [] = .ok respelledSchema := rfl

def respelledTable : DataFrame :=
  ⟨.scan ⟨"t", respelledSource, [], respelledSchema, respelled_derived⟩⟩

/-- A table with one column. -/
def respelledContext : ExecutionContext :=
  ⟨1024, fun name => if name = "t" then some respelledTable else none⟩

/-- Clause words and functions in lower case, and in upper case. -/
theorem sql_respelled_clauses :
    KeywordsRespelled "SELECT MAX(a) FROM t WHERE a = 1 AND a = 1"
      "select max(a) from t where a = 1 AND a = 1" ∧
    ∀ df, respelledContext.sql "SELECT MAX(a) FROM t WHERE a = 1 AND a = 1" = .ok df ↔
      respelledContext.sql "select max(a) from t where a = 1 AND a = 1" = .ok df := by
  have hof : statementOf "SELECT MAX(a) FROM t WHERE a = 1 AND a = 1" =
      .ok (["a", "t", "a", "a"], true) := by decide +kernel
  have hof' : statementOf "select max(a) from t where a = 1 AND a = 1" =
      .ok (["a", "t", "a", "a"], true) := by decide +kernel
  have hrespelled : KeywordsRespelled "SELECT MAX(a) FROM t WHERE a = 1 AND a = 1"
      "select max(a) from t where a = 1 AND a = 1" :=
    { letters := by decide +kernel
      others := by decide +kernel
      names := fun s s' hs hs' => (hs.statementOf hof).1.trans (hs'.statementOf hof').1.symm }
  exact ⟨hrespelled, (sql_respelled_iff hrespelled).mpr fun s s' hs hs' _ =>
    iff_of_true ((hs.statementOf hof).2 rfl) ((hs'.statementOf hof').2 rfl)⟩

/-- `and` in lower case is not planned. -/
theorem sql_lowerCaseAnd_panics :
    KeywordsRespelled "SELECT a FROM t WHERE a = 1 AND a = 1"
      "SELECT a FROM t WHERE a = 1 and a = 1" ∧
    ¬ ∀ df, respelledContext.sql "SELECT a FROM t WHERE a = 1 AND a = 1" = .ok df ↔
      respelledContext.sql "SELECT a FROM t WHERE a = 1 and a = 1" = .ok df := by
  have hof : statementOf "SELECT a FROM t WHERE a = 1 AND a = 1" =
      .ok (["a", "t", "a", "a"], true) := by decide +kernel
  have hof' : statementOf "SELECT a FROM t WHERE a = 1 and a = 1" =
      .ok (["a", "t", "a", "a"], false) := by decide +kernel
  refine ⟨⟨⟨by decide +kernel, by decide +kernel⟩, fun s s' hs hs' =>
    (hs.statementOf hof).1.trans (hs'.statementOf hof').1.symm⟩, fun h => ?_⟩
  obtain ⟨df, hdf⟩ : Outcome.Succeeds
      (respelledContext.sql "SELECT a FROM t WHERE a = 1 AND a = 1") := by decide +kernel
  have hpanics : ¬ Outcome.Succeeds
      (respelledContext.sql "SELECT a FROM t WHERE a = 1 and a = 1") := by decide +kernel
  exact hpanics ⟨df, (h df).mp hdf⟩

end

end RQuery
