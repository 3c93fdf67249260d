import RQuery.DataSource.Sources
import RQuery.Physical.HashAggregate
import RQuery.Physical.AccumulatorMerge
import RQuery.Physical.Operators
import RQuery.LogicalPlan.Plan
import RQuery.Physical.Plan
import RQuery.Physical.TwoStage
import RQuery.Common.RoundRobin
import RQuery.Execution.Parallel
import RQuery.Datatypes.RowBuilder
import RQuery.Common.KeyedFold
import RQuery.Common.HashedMap
import RQuery.Common.Table
import RQuery.QueryPlanner.QueryPlanner
import RQuery.Common.Related
import RQuery.Common.Joins
import RQuery.LogicalPlan.References
import RQuery.Optimizer.ProjectionPushDown
import RQuery.Semantics.Rows
import RQuery.Semantics.Agreement
import RQuery.Optimizer.Preservation
import RQuery.Optimizer.SchemaPreservation
import RQuery.Common.Chunks
import RQuery.Semantics.HashJoinRows
import RQuery.Semantics.BatchBoundaries
import RQuery.Semantics.MapOrder
import RQuery.QueryPlanner.JoinLayout
import RQuery.Protobuf.Messages
import RQuery.Protobuf.PhysicalPlan
import RQuery.Protobuf.TaskRoundTrip
import RQuery.Protobuf.PlannedPlans
import RQuery.Sql.Tokens
import RQuery.Sql.Tokenizer
import RQuery.Sql.LexicalGrammar
import RQuery.Sql.CheckedTokenizer
import RQuery.Sql.Parser
import RQuery.Sql.Grammar
import RQuery.Sql.ParserCorrect
import RQuery.Sql.ParserProgress
import RQuery.Sql.UniqueReading
import RQuery.Sql.CompleteClauses
import RQuery.Sql.Strata
import RQuery.Sql.Statements
import RQuery.Sql.Planner
import RQuery.Execution.ExecutionContext
import RQuery.Sql.Printer
import RQuery.Sql.Rendering
import RQuery.Sql.OperatorTables
import RQuery.Protobuf.LogicalPlan
import RQuery.Protobuf.SqlPlans
import RQuery.Physical.Counters
import RQuery.Physical.MergeHomomorphism
import RQuery.Sql.Respelling
import RQuery.Sql.RespelledStatements
import RQuery.Sql.KeywordCase
import RQuery.Sql.ResolvedPlans
import RQuery.Sql.AmbiguousWords
import RQuery.Common.NumberLine
import RQuery.Physical.MinMaxOrder
import RQuery.Physical.ReferenceGrouping
import RQuery.Semantics.GlobalAggregates
import RQuery.Semantics.NestedLoop
import RQuery.Semantics.HashKeys
import RQuery.Physical.ShuffleRoundTrip
import RQuery.Semantics.LimitClause
import RQuery.Semantics.OrderByClause
import RQuery.Semantics.HavingClause
import RQuery.Common.FileTree
import RQuery.Physical.ShuffleDisk
import RQuery.Semantics.DeclaredTypes
import RQuery.Semantics.DeclaredPlans
import RQuery.Semantics.ThreeValued
import RQuery.Common.SignedInteger
import RQuery.Physical.IntegerArithmetic
import RQuery.Physical.CastText
import RQuery.Semantics.DateIntervals
import RQuery.Distributed.DistributedPlanner
import RQuery.Distributed.StageExpressions
import RQuery.Distributed.ProbeRows
import RQuery.Distributed.Scheduler
import RQuery.Distributed.ExactlyOnce
import RQuery.Semantics.ColumnCollectors
import RQuery.Common.Interleaving
import RQuery.Distributed.ClientSimulation
import RQuery.Distributed.Flight
import RQuery.Distributed.DistributedContext
import RQuery.Distributed.RemoteContext
import RQuery.Distributed.OneExecutor
import RQuery.Distributed.SeveralExecutors
import RQuery.Distributed.ConcurrentJobs
import RQuery.Optimizer.LoweredPlans
import RQuery.Semantics.Refinement
import RQuery.Semantics.FrontProjection
import RQuery.Semantics.SelectRows
import RQuery.Semantics.GroupedRows
import RQuery.Semantics.GlobalSelects
