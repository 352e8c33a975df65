import AsapPlanner.Construction.Unchained
import AsapPlanner.Counter.Rate
import AsapPlanner.Counter.Shards
import AsapPlanner.Coverage.Merge
import AsapPlanner.Coverage.Union
import AsapPlanner.Grouping.Agreement
import AsapPlanner.Interning.First
import AsapPlanner.Physical.RoundTrip
import AsapPlanner.Selection.Levels
import AsapPlanner.Timing.NoAssignment
import AsapPlanner.Milp.Model
import AsapPlanner.Milp.OrderRanks
import AsapPlanner.Milp.Numbering
import AsapPlanner.Milp.Solution
import AsapPlanner.Milp.Dependence
import AsapPlanner.Milp.ContextRanks
import AsapPlanner.Milp.RankedSelections
import AsapPlanner.Milp.Reach
import AsapPlanner.Milp.ReadersFirst
import AsapPlanner.Milp.ReachRows
import AsapPlanner.Milp.ReachExact
import AsapPlanner.Milp.Plans
import AsapPlanner.Milp.Needed
import AsapPlanner.Milp.Acyclicity
import AsapPlanner.Accuracy.Bound
import AsapPlanner.Accuracy.Guarantee
import AsapPlanner.Ordered.Statistic
import AsapPlanner.Probability.Finite
import AsapPlanner.Estimators.Params
import AsapPlanner.Estimators.Cardinality
import AsapPlanner.Estimators.CountSketch
import AsapPlanner.Estimators.Kll
import AsapPlanner.Estimators.Univmon
import AsapPlanner.Estimators.Shared
import AsapPlanner.Pass2.Groups
import AsapPlanner.Pass2.Catalogue
import AsapPlanner.Pass2.Replace
import AsapPlanner.Pass2.StateGroups
import AsapPlanner.Coverage.OrderedUnion
import AsapPlanner.Eligibility.Grid
import AsapPlanner.Ir.Copies
import AsapPlanner.Timing.Copies
import AsapPlanner.Timing.Rebuild
import AsapPlanner.Timing.Apply
import AsapPlanner.Timing.Conflicts
import AsapPlanner.Timing.Unshared
import AsapPlanner.Physical.ScanWindow
import AsapPlanner.Traversal.Postorder
import AsapPlanner.Physical.RawDataWindows
import AsapPlanner.Physical.Reads
import AsapPlanner.Physical.Flatten
import AsapPlanner.Timing.Defaults
import AsapPlanner.Ir.Replaced
import AsapPlanner.Grouping.Limit
import AsapPlanner.Selection.Dominance
import AsapPlanner.Milp.Parts
import AsapPlanner.Milp.Accuracy
import AsapPlanner.Milp.AccuracyExact
import AsapPlanner.Series.Exact
import AsapPlanner.Canonical.Meaning
import AsapPlanner.Canonical.TopKMeaning
import AsapPlanner.Demand.Checked
import AsapPlanner.Demand.Sharing
import AsapPlanner.Estimators.Growth
import AsapPlanner.Estimators.PairSize
import AsapPlanner.Pass2.SettledConfigurations
import AsapPlanner.Expressions.Columnar
import AsapPlanner.Expressions.Congruence
import AsapPlanner.Expressions.Lost
import AsapPlanner.Expressions.Lowered
import AsapPlanner.Relational.Emitted
import AsapPlanner.Relational.Loop
import AsapPlanner.Relational.Meaning
import AsapPlanner.ArrowColumns.Codec
import AsapPlanner.ArrowColumns.Decoded
import AsapPlanner.ArrowColumns.Encoded
import AsapPlanner.ArrowColumns.RoundTrip
import AsapPlanner.Milp.StronglyConnected
import AsapPlanner.Ordered.StableSort
import AsapPlanner.Sorting.CompareKey
import AsapPlanner.Sorting.CooperativeSort
import AsapPlanner.Sorting.Sort
import AsapPlanner.Eligibility.Readers
import AsapPlanner.Catalog.Pruning
import AsapPlanner.Catalog.Configurations
import AsapPlanner.Catalog.PrunedOnce
import AsapPlanner.Milp.Derived
import AsapPlanner.Milp.SequentialPlan
import AsapPlanner.Vectors.Exact
import AsapPlanner.TopK.Chain
import AsapPlanner.TopK.Implemented
import AsapPlanner.TopK.Kept
import AsapPlanner.TopK.Answered
import AsapPlanner.Runtime.Waking
import AsapPlanner.Runtime.Memory
import AsapPlanner.Sharing.Maximal
