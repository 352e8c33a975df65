import AsapPlanner.Ir.Node

/-!
What an edge carries and when it exists, and how a placement of timings can be wrong.
-/

namespace AsapPlanner.Ir
open Rust

/-- The primitive representation carried by an edge. -/
inductive DataPrimitive
  | raw | summaryState
deriving DecidableEq, Repr

/-- When a value exists and which primitive it carries. -/
structure ExecutionDataState where
  timing : ExecutionTiming
  primitive : DataPrimitive
deriving DecidableEq, Repr

inductive ExecutionDataStateError
  | invalidMaintainedPopulation
  | queryTimeValueUnderIngestionSummary (edge : String) (child : ExecutionDataState)
  | unstoredIngestionInputUnderQueryTimeSummary (edge operator : String)
  | illegalChildDataState (edge : String) (child : ExecutionDataState)
  | unsupportedStateComposition (family : String)
  | conflictingTiming (first second : ExecutionDataState)
  | unstoredIngestionRoot (operator : String)
  | materializationConflictsWithFixedTiming (operator : String) (fixed : ExecutionTiming)
      (materialization : Materialization)
  | filteredSummaryAtIngestion (operator : String)
  | invalidIngestionTimeBinary
  | invalidCheckedDivision
  | nonPlainOperand (column dtype : String)
  | unimplementedOperator (operator : String)
  | upstreamNotAtIngestion (operator : String)
deriving DecidableEq, Repr

end AsapPlanner.Ir
