import Gqe.HashGroupBy.Refinement
import Gqe.Join.MarkJoinAgreement
import Gqe.Join.Predicates
import Gqe.Join.ShuffleRanks
import Gqe.Like.Utf8Bytewise
import Gqe.NodeManager.TableLifetime
import Gqe.Optimizer.ColumnNames
import Gqe.Optimizer.JoinChildrenSwap
import Gqe.Optimizer.SharedReads
import Gqe.Parquet.HivePaths
import Gqe.PerfectHash.Join
import Gqe.Results.Properties
import Gqe.Rpc.ExpressionEquality
import Gqe.Rpc.Relations
import Gqe.Rpc.SessionOptions
import Gqe.Storage.NullMasks
import Gqe.Storage.ReorderedWrites
import Gqe.Storage.SharedMemory
import Gqe.Substrait.Fetches
import Gqe.Substrait.Joins
import Gqe.Substrait.Sorts
import Gqe.TaskGraph.StageGap
import Gqe.TaskMigration.RemoteReads
import Gqe.TaskMigration.SlicedViews
import Gqe.TaskMigration.WholeColumns
import Gqe.Uniqueness.Aggregate
import Gqe.Uniqueness.Conjunctive
import Gqe.Window.RowIds
import Gqe.ZoneMap.Substrings
