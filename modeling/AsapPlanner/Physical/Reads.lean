import AsapPlanner.Physical.RawDataWindows

/-!
Which rows of a `Scan` an evaluation reads, and when they lie in the window found for it.
-/

namespace AsapPlanner.Physical
open Rust Traversal Ir Relation

/-! ### Evaluation -/

/-- What a reader asks of a node: its value at one time, or its samples in a range ending then. -/
inductive Span
  | instant
  | samples (widthMs : Nat)
deriving DecidableEq, Repr

namespace Span

/-- The times at which a node's value is asked. -/
def Asks (time moment : Int) : Span → Prop
  | instant => moment = time
  | samples width => time - width < moment ∧ moment ≤ time

/-- The rows of a `Scan` asked for. A range whose start no `i64` holds fails. -/
def Keeps (time row : Int) : Span → Prop
  | instant => True
  | samples width => time - width < row ∧ row ≤ time ∧ i64Min ≤ time - width

end Span

/-- The time of an `@` anchor in a query over `[first, last]`. -/
def anchorTime (first last : Int) : AtModifier → Int
  | .start => first
  | .end => last
  | .timestamp millis => millis

def shiftedTime (first last : Int) (shift : TimeShift) (time : Int) : Int :=
  (shift.at.map (anchorTime first last)).getD time - shift.offsetMs

/-- What an operator evaluated at `moment` asks of its inputs. -/
def InputAt (operator : Operator NodeId) (moment : Int) (span : Span) (inner : Int) : Prop :=
  match operator with
  | .nonASAP (.timeRange range _ _) => span = .samples range.asMillis ∧ inner = moment
  | .nonASAP (.promqlSubquery range _ _) =>
    span = .instant ∧ moment - range.asMillis < inner ∧ inner ≤ moment
  | _ => span = .instant ∧ inner = moment

def isTimeShift : Operator NodeId → Bool
  | .nonASAP (.timeShift ..) => true
  | _ => false

def isChain : Operator NodeId → Bool
  | .asap (.summaryTumblingWindowChain ..) => true
  | _ => false

/-- Asked for `span` at `time`, a node reads the scan's rows of time `row`. -/
inductive Reads (dag : PhysicalASAPDAG) (first last : Int) (scan : NodeId) :
    NodeId → Span → Int → Int → Prop
  | row {span : Span} {time row : Int} {source : Source} {predicates : List (Predicate NodeId)}
      {schema : Schema} (held : dag.payload scan = some (.nonASAP (.scan source predicates schema)))
      (keeps : span.Keeps time row) : Reads dag first last scan scan span time row
  | shift {id child : NodeId} {shift : TimeShift} {span : Span} {time row : Int}
      (held : dag.payload id = some (.nonASAP (.timeShift shift child)))
      (below : Reads dag first last scan child span (shiftedTime first last shift time) row) :
      Reads dag first last scan id span time row
  | input {id child : NodeId} {operator : Operator NodeId} {span inner : Span}
      {time moment inside row : Int} (held : dag.payload id = some operator)
      (unshifted : isTimeShift operator = false) (asks : span.Asks time moment)
      (reads : child ∈ operator.children) (evaluates : InputAt operator moment inner inside)
      (below : Reads dag first last scan child inner inside row) :
      Reads dag first last scan id span time row

namespace PhysicalASAPDAG
variable (dag : PhysicalASAPDAG)

/-- Read other than by an operator root: by a standalone scalar query, or as a view. -/
def ReadBesideRoots (id : NodeId) : Prop :=
  (∃ root ∈ dag.scalarRoots, id ∈ root.2.operatorRefs) ∨
    ∃ node ∈ dag.nodes, node.id = id ∧ isMaterializedView node.materialization = true

/-- What is evaluated: the roots, what scalar queries read, and the views. -/
def Evaluated (id : NodeId) : Prop := id ∈ dag.roots ∨ dag.ReadBesideRoots id

/-- Every row read at an evaluation time lies in the window, and is kept for its lookback. -/
def Covered (scan : NodeId) (window : ScanWindow) : Prop :=
  ∀ first last evaluation, FitsI64 evaluation →
    ∀ bounds lookback, window.boundsMs evaluation = some bounds → window.lookbackMs = some lookback →
      ∀ start row, dag.Evaluated start → Reads dag first last scan start .instant evaluation row →
        bounds.1 < row ∧ row ≤ bounds.2 ∧ evaluation - lookback < row

/-- No scalar query and no view takes the scan's rows outside a range. -/
def ReadThroughRanges (scan : NodeId) : Prop :=
  ∀ id offset, dag.ShiftedFrom scan id offset → ¬dag.ReadBesideRoots id

/-- The oldest row of every range that reads the scan is an `i64` number of milliseconds back. -/
def LookbacksFit (scan : NodeId) : Prop :=
  ∀ id offset, dag.ShiftedFrom scan id offset → ∀ reader range kind,
    dag.payload reader = some (.nonASAP (.timeRange range kind id)) → offset + range.asMillis ≤ i64Max

/-- No sum of offsets on the way up from the scan saturates. -/
def OffsetsFit (scan : NodeId) : Prop := ∀ id offset, dag.ShiftedFrom scan id offset → FitsI64 offset

variable {dag} {first last : Int} {scan : NodeId} {window : ScanWindow} {fuel : Nat} {source : Source}
  {predicates : List (Predicate NodeId)} {schema : Schema}

/-! ### Reads are windows -/

theorem scanRead_windowed {consumer : NodeId} {operator : Operator NodeId} {width : Nat}
    (expanded : isChain operator = false)
    (read : scanRead [] consumer (some operator) = .windowed width) :
    ∃ range kind child, operator = .nonASAP (.timeRange range kind child) ∧ range.asMillis = width := by
  unfold scanRead at read
  split at read
  · split at read <;> cases read
  · rename_i range kind child same
    exact ⟨range, kind, child, Option.some.inj same, ScanRead.windowed.inj read⟩
  · rename_i same
    rw [Option.some.inj same] at expanded
    cases expanded
  · cases read

theorem inputAt_plain {operator : Operator NodeId} (plain : reTimesItsInput operator = false)
    {moment inner : Int} {span : Span} :
    InputAt operator moment span inner ↔ span = .instant ∧ inner = moment := by
  unfold InputAt
  split
  · cases plain
  · cases plain
  · rfl

theorem reads_shifted (isScan : dag.payload scan = some (.nonASAP (.scan source predicates schema)))
    {id : NodeId} {offset : Int} (path : dag.ShiftedFrom scan id offset) {span : Span}
    {time row : Int} (keeps : span.Keeps (time - offset) row) :
    Reads dag first last scan id span time row := by
  have each : ∀ high, ReflTransGen dag.Shifts (scan, 0) high → ∀ time,
      span.Keeps (time - high.2) row → Reads dag first last scan high.1 span time row := by
    intro high path
    induction path with
    | refl =>
      intro time keeps
      rw [Int.sub_zero] at keeps
      exact .row isScan keeps
    | @tail low high _ shifts ih =>
      intro time keeps
      obtain ⟨node, shift, found, payload, unanchored, sum⟩ := shifts
      have held := payload_some found
      rw [payload] at held
      refine .shift held (ih _ ?_)
      have same : shiftedTime first last shift time - low.2 = time - high.2 := by
        rw [shiftedTime, unanchored, sum]
        dsimp only [Option.map_none, Option.getD_none]
        omega
      rw [same]
      exact keeps
  exact each (id, offset) path time keeps

section Accepted
variable (accepted : dag.Accepted) (expanded : ∀ id operator, dag.payload id = some operator →
  isChain operator = false) (checked : dag.checkRawDataWindows fuel = some (.ok ()))
  (isScan : dag.payload scan = some (.nonASAP (.scan source predicates schema)))
include accepted checked isScan

theorem not_reTimed {id child reader low : NodeId} {operator : Operator NodeId} {offset : Int}
    {range : Duration} {kind : TimeRangeKind} (held : dag.payload id = some operator)
    (reads : child ∈ operator.children) (reached : dag.graph.Reaches child reader)
    (path : dag.ShiftedFrom scan low offset)
    (ranges : dag.payload reader = some (.nonASAP (.timeRange range kind low))) :
    reTimesItsInput operator = false := by
  by_contra reTimes
  rw [Bool.not_eq_false] at reTimes
  exact (accepted.checked_range checked isScan path ranges).1
    (accepted.reTimed_below held reTimes ((accepted.children_eq held).mpr reads) reached)

include expanded

theorem reads_range (within : ∀ id offset, dag.ShiftedFrom scan id offset →
    dag.ReadWithin [] window id offset) {id : NodeId} {span : Span} {time row : Int}
    (reads : Reads dag first last scan id span time row) :
    (∃ offset, dag.ShiftedFrom scan id offset ∧ span.Keeps (time - offset) row) ∨
      ∃ reader low offset range kind, dag.graph.Reaches id reader ∧ dag.ShiftedFrom scan low offset ∧
        dag.payload reader = some (.nonASAP (.timeRange range kind low)) ∧
        (span = .instant → (Span.samples range.asMillis).Keeps (time - offset) row) := by
  induction reads with
  | row _ keeps => exact .inl ⟨0, .refl, by rw [Int.sub_zero]; exact keeps⟩
  | @shift id child shift span time row held below ih =>
    have reads : child ∈ (Operator.nonASAP (.timeShift shift child)).children := List.mem_singleton_self _
    have edge := (accepted.children_eq held).mpr reads
    rcases ih with ⟨offset, path, keeps⟩ | ⟨reader, low, offset, range, kind, reached, path, ranges, _⟩
    · have shaped := (within child offset path).shaped id (mem_consumers.mpr edge)
      rw [held, scanRead] at shaped
      have unanchored : shift.at = none := by
        by_contra anchored
        rw [← Option.isNone_iff_eq_none] at anchored
        exact shaped (if_neg anchored)
      obtain ⟨node, found, payload⟩ := Option.map_eq_some_iff.mp held
      refine .inl ⟨offset + shift.offsetMs, path.tail ⟨node, shift, found, payload, unanchored, rfl⟩, ?_⟩
      rw [shiftedTime, unanchored] at keeps
      have same : time - (offset + shift.offsetMs) = time - shift.offsetMs - offset := by omega
      rw [same]
      exact keeps
    · cases not_reTimed accepted checked isScan held reads reached path ranges
  | @input id child operator span inner time moment inside row held unshifted asks reads evaluates below ih =>
    have edge := (accepted.children_eq held).mpr reads
    rcases ih with ⟨offset, path, keeps⟩ | ⟨reader, low, offset, range, kind, reached, path, ranges, keeps⟩
    · have shaped := (within child offset path).shaped id (mem_consumers.mpr edge)
      cases read : scanRead [] id (dag.payload id) with
      | whole => exact absurd read shaped
      | shifted more =>
        obtain ⟨shift, below, same, _⟩ := scanRead_shifted read
        rw [held] at same
        rw [Option.some.inj same] at unshifted
        cases unshifted
      | windowed width =>
        rw [held] at read
        obtain ⟨range, kind, low, rfl, _⟩ := scanRead_windowed (expanded id operator held) read
        obtain rfl : child = low := List.mem_singleton.mp reads
        obtain ⟨rfl, rfl⟩ := evaluates
        refine .inr ⟨id, child, offset, range, kind, .refl, path, held, ?_⟩
        rintro rfl
        obtain rfl : inside = time := asks
        exact keeps
    · have plain := not_reTimed accepted checked isScan held reads reached path ranges
      obtain ⟨rfl, rfl⟩ := (inputAt_plain plain).mp evaluates
      refine .inr ⟨reader, low, offset, range, kind, .head edge reached, path, ranges, ?_⟩
      rintro rfl
      obtain rfl : inside = time := asks
      exact keeps rfl

omit expanded

/-! ### Every window is read -/

theorem evaluated_range {reader low : NodeId} {offset : Int} {range : Duration} {kind : TimeRangeKind}
    (path : dag.ShiftedFrom scan low offset)
    (ranges : dag.payload reader = some (.nonASAP (.timeRange range kind low))) :
    ∃ start, dag.Evaluated start ∧ ∀ evaluation row,
      (Span.samples range.asMillis).Keeps (evaluation - offset) row →
        Reads dag first last scan start .instant evaluation row := by
  obtain ⟨root, isRoot, reached⟩ := accepted.reached reader (id_of_payload ranges)
  have evaluated : dag.Evaluated root := by
    rcases List.mem_append.mp isRoot with direct | within
    · exact .inl direct
    · exact .inr (.inl (List.mem_flatMap.mp within))
  refine ⟨root, evaluated, fun evaluation row keeps => ?_⟩
  clear isRoot evaluated
  induction reached using ReflTransGen.head_induction_on with
  | refl =>
    exact .input ranges rfl rfl (List.mem_singleton_self _) ⟨rfl, rfl⟩
      (reads_shifted isScan path keeps)
  | @head id child edge reached ih =>
    obtain ⟨node, found, reads⟩ := accepted.mem_consumers_iff.mp (mem_consumers.mpr edge)
    have held := payload_some found
    have plain := not_reTimed accepted checked isScan held reads reached path ranges
    refine .input held ?_ rfl reads ((inputAt_plain plain).mpr ⟨rfl, rfl⟩) ih
    cases operator : node.payload with
    | asap op => rfl
    | nonASAP op =>
      rw [operator] at plain
      cases op with
      | timeShift => cases plain
      | _ => rfl

end Accepted

/-! ### What a bounded window covers -/

theorem sums_of_fit (accepted : dag.Accepted) (expanded : ∀ id operator,
    dag.payload id = some operator → isChain operator = false)
    (checked : dag.checkRawDataWindows fuel = some (.ok ()))
    (isScan : dag.payload scan = some (.nonASAP (.scan source predicates schema)))
    (offsets : dag.OffsetsFit scan) (lookbacks : dag.LookbacksFit scan) : Sums dag [] scan := by
  intro id offset path
  refine ⟨offsets id offset path, fun consumer reads width read => ?_⟩
  obtain ⟨node, found, reads⟩ := accepted.mem_consumers_iff.mp reads
  have held := payload_some found
  rw [held] at read
  obtain ⟨range, kind, low, payload, rfl⟩ := scanRead_windowed (expanded consumer node.payload held) read
  rw [payload] at held reads
  obtain rfl : id = low := List.mem_singleton.mp reads
  exact ⟨(accepted.checked_range checked isScan path held).2.2.1,
    lookbacks id offset path consumer range kind held⟩

theorem keeps_bounds {offset evaluation row : Int} {width : Nat} {bounds : Int × Int}
    {back : Nat} (plain : window.Plain) (held : window.Holds offset width)
    (fits : FitsI64 evaluation) (atTime : window.boundsMs evaluation = some bounds)
    (look : window.lookbackMs = some back) (keeps : (Span.samples width).Keeps (evaluation - offset) row) :
    bounds.1 < row ∧ row ≤ bounds.2 ∧ evaluation - back < row := by
  cases window with
  | unbounded => cases atTime
  | within endOffset span =>
    obtain ⟨low, positive, high⟩ := plain
    obtain ⟨after, before⟩ := held
    obtain ⟨later, early, start⟩ := keeps
    obtain ⟨least, most⟩ := fits
    obtain rfl := Option.some.inj atTime
    obtain rfl := Option.some.inj look
    have sum : i64SaturatingAdd endOffset span = endOffset + span :=
      i64SaturatingAdd_eq ⟨by unfold i64Min; omega, high⟩
    unfold saturatingSub
    rw [sum]
    dsimp only
    refine ⟨?_, ?_, ?_⟩ <;> omega

/-- A bounded window covers every row read when no scalar query and no view takes the scan's rows
outside a range and no sum of offsets saturates; and it covers them only when the former holds and every
range's lookback is an `i64`. -/
theorem scanWindow_covers (valid : dag.validate = .ok ()) (expanded : ∀ id operator,
    dag.payload id = some operator → isChain operator = false)
    (checked : dag.checkRawDataWindows fuel = some (.ok ()))
    (isScan : dag.payload scan = some (.nonASAP (.scan source predicates schema))) {turns : Nat}
    (run : dag.scanWindow turns scan [] = some window) (bounded : window ≠ .unbounded) :
    (dag.ReadThroughRanges scan ∧ dag.LookbacksFit scan ∧ dag.OffsetsFit scan →
        dag.Covered scan window) ∧
      (dag.Covered scan window → dag.ReadThroughRanges scan ∧ dag.LookbacksFit scan) := by
  have accepted := validate_ok valid
  constructor
  · rintro ⟨through, lookbacks, offsets⟩ first last evaluation fits bounds lookback atTime look start row
      evaluated reads
    have sums := sums_of_fit accepted expanded checked isScan offsets lookbacks
    obtain ⟨plain, within⟩ := scanWindow_reads accepted sums run bounded
    rcases reads_range accepted expanded checked isScan within reads with
      ⟨offset, path, _⟩ | ⟨reader, low, offset, range, kind, _, path, ranges, keeps⟩
    · rcases evaluated with isRoot | beside
      · exact absurd isRoot (within start offset path).unrooted
      · exact absurd beside (through start offset path)
    · have reader_ := mem_consumers.mpr ((accepted.children_eq ranges).mpr (List.mem_singleton_self low))
      have held := (within low offset path).held reader reader_ range.asMillis (by rw [ranges]; rfl)
      exact keeps_bounds plain held fits atTime look (keeps rfl)
  · intro covered
    cases window with
    | unbounded => exact absurd rfl bounded
    | within endOffset span =>
      constructor
      · intro id offset path beside
        have fits : FitsI64 0 := by decide
        obtain ⟨outside, _⟩ := covered 0 0 0 fits _ _ rfl rfl id (saturatingSub (saturatingSub 0 endOffset) span)
          (.inr beside) (reads_shifted isScan path trivial)
        exact lt_irrefl _ outside
      · intro id offset path reader range kind ranges
        by_contra beyond
        obtain ⟨_, narrow, positive, high⟩ := accepted.checked_range checked isScan path ranges
        obtain ⟨start, evaluated, reads⟩ := @evaluated_range dag 0 0 scan fuel source predicates schema
          accepted checked isScan _ _ _ _ _ path ranges
        have fits : FitsI64 i64Max := by decide
        obtain ⟨_, _, kept⟩ := covered 0 0 i64Max fits _ _ rfl rfl start
          (i64Max - offset - range.asMillis + 1) evaluated (reads _ _ ⟨by omega, by omega, by
            unfold i64Max i64Min at *
            omega⟩)
        have most : i64SaturatingAdd endOffset span ≤ i64Max := by
          unfold i64SaturatingAdd i64Min i64Max
          omega
        omega

/-! ### A table read in a range and by a scalar query -/

def tableScan : PhysicalASAPDAGNode :=
  let schema : Schema := { fields := [], timeIndex := none, uniqueKeys := [], closed := true }
  { id := 0, payload := .nonASAP (.scan (.table "t") [] schema), outputState := ⟨.queryTime, .raw⟩
    materialization := .notMaterialized, outputSchema := schema, guarantee := none
    retentionMs := none }

/-- The last five minutes. -/
def recentRange : PhysicalASAPDAGNode :=
  { tableScan with id := 1, payload := .nonASAP (.timeRange ⟨300000000000⟩ .range 0) }

/-- The last five minutes of a table, beside some scalar queries. -/
def recentTable (scalarRoots : List (Nat × ScalarExpr NodeId)) : PhysicalASAPDAG where
  nodes := [tableScan, recentRange]
  edges := [{ producer := 0, consumer := 1, role := .input
              intermediateSchema := tableScan.outputSchema, dataState := tableScan.outputState }]
  roots := [1]
  scalarRoots
  store := Dag.ofNodes []
  stored := by
    intro node member held holds
    rcases List.mem_cons.mp member with same | later
    · rw [same] at holds
      cases holds
    · rw [List.mem_singleton.mp later] at holds
      cases holds

section RecentTable
variable (scalarRoots : List (Nat × ScalarExpr NodeId))

theorem recentTable_reads : (recentTable scalarRoots).graph.reads 0 = [] ∧
    (recentTable scalarRoots).graph.reads 1 = [0] := ⟨rfl, rfl⟩

theorem recentTable_expanded : ∀ id operator, (recentTable scalarRoots).payload id = some operator →
    isChain operator = false := by
  intro id operator held
  obtain ⟨node, found, same⟩ := Option.map_eq_some_iff.mp held
  have member := (byId_some found).1
  rw [← same]
  rcases List.mem_cons.mp member with table | recent
  · rw [table]
    rfl
  · rw [List.mem_singleton.mp recent]
    rfl

theorem recentTable_childrenFirst : (recentTable scalarRoots).childrenFirst = [0, 1] := by
  obtain ⟨table, recent⟩ := recentTable_reads scalarRoots
  have ids : (recentTable scalarRoots).ids = [0, 1] := rfl
  simp [childrenFirst, ids, Graph.postorder, table, recent]

theorem recentTable_checked : (recentTable scalarRoots).checkRawDataWindows 2 = some (.ok ()) := by
  have reading : (recentTable scalarRoots).readingRawData = [1] := by
    rw [readingRawData, recentTable_childrenFirst]
    rfl
  have reTimed : (recentTable scalarRoots).reTimedFromAbove = [0] := by
    rw [reTimedFromAbove, recentTable_childrenFirst]
    rfl
  have range : (recentTable scalarRoots).rawWindowBelow 2 1 300000 =
      some (.ok ({ source := .table "t", endOffsetMs := 0, widthMs := 300000 }, 0)) := by
    rw [rawWindowBelow, reTimed]
    rfl
  have table : (recentTable scalarRoots).checkRawDataWindow 2 tableScan =
      some (.ok ()) := by
    rw [checkRawDataWindow, reading]
    rfl
  have recent : (recentTable scalarRoots).checkRawDataWindow 2 recentRange =
      some (.ok ()) := by
    rw [checkRawDataWindow, reading]
    change ((recentTable scalarRoots).rawWindowBelow 2 1 300000).map _ = _
    rw [range]
    rfl
  change (recentTable scalarRoots).checkRawDataWindowsOf 2
    [tableScan, recentRange] = _
  rw [checkRawDataWindowsOf, table, checkRawDataWindowsOf, recent]
  rfl

theorem recentTable_visit : (recentTable scalarRoots).graph.visit
    PhysicalASAPDAGValidationError.cycle [] 1 [] = .ok ((), [1, 0]) := by
  obtain ⟨table, recent⟩ := recentTable_reads scalarRoots
  have leaf : (recentTable scalarRoots).graph.visit PhysicalASAPDAGValidationError.cycle [1] 0 [] =
      .ok ((), [0]) := by
    rw [Graph.visit, table]
    rfl
  rw [Graph.visit, recent]
  change (do
    let below ← (do
      let below ← (recentTable scalarRoots).graph.visit PhysicalASAPDAGValidationError.cycle [1] 0 []
      pure ([below.1], below.2))
    pure ((), 1 :: below.2)) = _
  rw [leaf]
  rfl

end RecentTable

theorem recentTable_valid : (recentTable []).validate = .ok () := by
  have edges : (recentTable []).edges.forM (recentTable []).checkEdge = .ok () := by decide +kernel
  have cycles : (recentTable []).checkCycles = .ok () := by
    change (do
      let run ← (do
        let one ← (recentTable []).graph.visit PhysicalASAPDAGValidationError.cycle [] 1 []
        pure ([one.1], one.2))
      pure ()) = _
    rw [recentTable_visit]
    rfl
  have reachable : (recentTable []).checkReachable = .ok () := by
    obtain ⟨table, recent⟩ := recentTable_reads []
    have roots : (recentTable []).rootIds = [1] := by decide +kernel
    simp [checkReachable, roots, Graph.mark, table, recent]
    decide +kernel
  have nodes : (recentTable []).checkNodes = .ok () := by decide +kernel
  have scalars : (recentTable []).checkScalarRoots = .ok () := by decide +kernel
  have roots : (recentTable []).checkRoots = .ok () := by decide +kernel
  have roles : (recentTable []).checkEdgeRoles = .ok () := by decide +kernel
  unfold validate
  rw [nodes, scalars, roots, roles, edges, cycles, reachable]
  rfl

/-- The same table, its first value in a scalar query of its own. -/
abbrev scalarTable : PhysicalASAPDAG := recentTable [(1, .promqlScalarFromVector 0)]

theorem scalarTable_valid : scalarTable.validate = .ok () := by
  have edges : scalarTable.edges.forM scalarTable.checkEdge = .ok () := by decide +kernel
  have again : scalarTable.graph.visit PhysicalASAPDAGValidationError.cycle [] 0 [1, 0] =
      .ok ((), [1, 0]) := by
    rw [Graph.visit]
    rfl
  have cycles : scalarTable.checkCycles = .ok () := by
    change (do
      let run ← (do
        let one ← scalarTable.graph.visit PhysicalASAPDAGValidationError.cycle [] 1 []
        let two ← scalarTable.graph.visit PhysicalASAPDAGValidationError.cycle [] 0 one.2
        pure ([one.1, two.1], two.2))
      pure ()) = _
    rw [recentTable_visit]
    change (do
      let run ← (do
        let two ← scalarTable.graph.visit PhysicalASAPDAGValidationError.cycle [] 0 [1, 0]
        pure ([(), two.1], two.2))
      pure ()) = _
    rw [again]
    rfl
  have reachable : scalarTable.checkReachable = .ok () := by
    obtain ⟨table, recent⟩ := recentTable_reads [(1, .promqlScalarFromVector 0)]
    have roots : scalarTable.rootIds = [1, 0] := by decide +kernel
    simp [checkReachable, roots, Graph.mark, table, recent]
    decide +kernel
  have nodes : scalarTable.checkNodes = .ok () := by decide +kernel
  have scalars : scalarTable.checkScalarRoots = .ok () := by decide +kernel
  have roots : scalarTable.checkRoots = .ok () := by decide +kernel
  have roles : scalarTable.checkEdgeRoles = .ok () := by decide +kernel
  unfold validate
  rw [nodes, scalars, roots, roles, edges, cycles, reachable]
  rfl

/-- The window is the range's five minutes, and the scalar query reads a row ten minutes old. -/
theorem scalarTable_uncovered : scalarTable.validate = .ok () ∧
    (∀ id operator, scalarTable.payload id = some operator → isChain operator = false) ∧
    scalarTable.checkRawDataWindows 2 = some (.ok ()) ∧
    scalarTable.scanWindow 1 0 [] = some (.within 0 300000) ∧
    (ScanWindow.within 0 300000).boundsMs 900000 = some (600000, 900000) ∧
    scalarTable.Evaluated 0 ∧ Reads scalarTable 0 0 0 0 .instant 900000 300000 ∧
    ¬scalarTable.Covered 0 (.within 0 300000) := by
  have read : scalarTable.Evaluated 0 := .inr (.inl ⟨_, List.mem_singleton_self _, List.mem_singleton_self _⟩)
  have reads : Reads scalarTable 0 0 0 0 .instant 900000 300000 := .row rfl trivial
  refine ⟨scalarTable_valid, recentTable_expanded _, recentTable_checked _, by decide +kernel, by decide,
    read, reads, fun covered => ?_⟩
  obtain ⟨inside, _⟩ := covered 0 0 900000 (by decide) _ _ rfl rfl 0 300000 read reads
  revert inside
  decide

theorem recentTable_covers : (recentTable []).Covered 0 (.within 0 300000) := by
  have alone : ∀ id offset, (recentTable []).ShiftedFrom 0 id offset → id = 0 ∧ offset = 0 := by
    intro id offset path
    rcases ReflTransGen.cases_tail path with same | ⟨low, _, node, shift, found, payload, _⟩
    · exact ⟨(Prod.mk.inj same).1, (Prod.mk.inj same).2⟩
    · rcases List.mem_cons.mp (byId_some found).1 with table | recent
      · rw [table] at payload
        cases payload
      · rw [List.mem_singleton.mp recent] at payload
        cases payload
  refine (@scanWindow_covers (recentTable []) 0 (.within 0 300000) 2 (.table "t") [] _ recentTable_valid
    (recentTable_expanded []) (recentTable_checked []) rfl 1 (by decide +kernel) (by decide)).1 ⟨?_, ?_, ?_⟩
  · rintro id offset path (⟨root, member, _⟩ | ⟨node, member, _, view⟩)
    · cases member
    · rcases List.mem_cons.mp member with table | recent
      · rw [table] at view
        cases view
      · rw [List.mem_singleton.mp recent] at view
        cases view
  · intro id offset path reader range kind held
    rw [(alone id offset path).2]
    obtain ⟨node, found, payload⟩ := Option.map_eq_some_iff.mp held
    rcases List.mem_cons.mp (byId_some found).1 with table | recent
    · rw [table] at payload
      cases payload
    · rw [List.mem_singleton.mp recent] at payload
      cases payload
      decide
  · intro id offset path
    rw [(alone id offset path).2]
    decide

end PhysicalASAPDAG
end AsapPlanner.Physical
