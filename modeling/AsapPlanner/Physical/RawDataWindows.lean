import AsapPlanner.Physical.ScanWindow
import AsapPlanner.Traversal.Postorder

/-!
The check that every window of raw data is a fixed offset before the evaluation: no time shift, range
or subquery above it, and only shifts without an anchor between it and its `Scan`.
-/

namespace AsapPlanner.Physical
open Rust Traversal Ir Relation

inductive InstallableDagError
  | unsupportedRawDataWindow (timeRangeNodeId : NodeId) (reason : String)
deriving DecidableEq, Repr

/-- Rows of a source read through a range: `(T - endOffsetMs - widthMs, T - endOffsetMs]`. -/
structure RawDataWindow where
  source : Source
  endOffsetMs : Int
  widthMs : Int
deriving DecidableEq, Repr

def reTimesItsInput : Operator NodeId → Bool
  | .nonASAP (.timeShift ..) | .nonASAP (.timeRange ..) | .nonASAP (.promqlSubquery ..) => true
  | _ => false

/-- Whether a consumer of `input` reads raw data through it. -/
def readsRawDataThrough (reading : List NodeId) (input : NodeId) : Option (Operator NodeId) → Bool
  | some (.nonASAP (.scan ..)) => true
  | some (.nonASAP (.timeRange ..)) | some (.asap (.summaryTumblingWindowChain ..)) => false
  | _ => input ∈ reading

namespace PhysicalASAPDAG
variable (dag : PhysicalASAPDAG)

/-- Every node after its inputs. -/
def childrenFirst : List NodeId :=
  (dag.ids.foldl (fun found id => dag.graph.postorder [(id, false)] found.1 found.2) ([], [])).2

/-- The nodes that a `Scan` is below, without a range or a chain between. -/
def readingRawData : List NodeId :=
  Graph.markUp (fun reading id =>
    (dag.children id).any fun input => readsRawDataThrough reading input (dag.payload input))
    dag.childrenFirst

def reTimedFromAbove : List NodeId :=
  dag.graph.markDown (fun id => (dag.payload id).any reTimesItsInput) dag.childrenFirst

def relational (id : NodeId) : Option (NonASAPOp NodeId) :=
  match dag.payload id with
  | some (.nonASAP op) => some op
  | _ => none

def onlyInput (id : NodeId) : Option NodeId :=
  match dag.children id with
  | [input] => some input
  | _ => none

def unsupported {α : Type} (timeRange : NodeId) (reason : String) : Except InstallableDagError α :=
  .error (.unsupportedRawDataWindow timeRange reason)

/-- Down from a range to its `Scan`, adding the offsets on the way; `none` out of fuel. -/
def belowShifts (timeRange : NodeId) (widthMs : Nat) :
    Nat → NodeId → Int → Option (Except InstallableDagError (RawDataWindow × NodeId))
  | 0, _, _ => none
  | fuel + 1, current, endOffset =>
    match dag.onlyInput current with
    | none => some (unsupported timeRange "an operator with several inputs below the range")
    | some current =>
      match dag.relational current with
      | some (.timeShift shift _) =>
        if shift.at.isSome then some (unsupported timeRange "an @ anchor below the range")
        else
          match i64CheckedAdd endOffset shift.offsetMs with
          | none => some (unsupported timeRange "window offset overflows")
          | some endOffset => belowShifts timeRange widthMs fuel current endOffset
      | some (.scan source _ _) =>
        if endOffset < 0 then some (unsupported timeRange "a negative offset below the range")
        else some (.ok ({ source, endOffsetMs := endOffset, widthMs }, current))
      | _ => some (unsupported timeRange "an operator other than TimeShift below the range")

/-- The window that a range, or a chain's tumbling window, reads from the `Scan` below it. -/
def rawWindowBelow (fuel : Nat) (timeRange : NodeId) (widthMs : Nat) :
    Option (Except InstallableDagError (RawDataWindow × NodeId)) :=
  if timeRange ∈ dag.reTimedFromAbove then
    some (unsupported timeRange "a subquery or a TimeShift above the range")
  else if i64Max < widthMs then some (unsupported timeRange "window width overflows")
  else dag.belowShifts timeRange widthMs fuel timeRange 0

def windowAt (fuel : Nat) (timeRange : NodeId) :
    Option (Except InstallableDagError (RawDataWindow × NodeId)) :=
  match dag.relational timeRange with
  | some (.timeRange range _ _) => dag.rawWindowBelow fuel timeRange range.asMillis
  | _ => some (unsupported timeRange "not a TimeRange")

def checkRawDataWindow (fuel : Nat) (node : PhysicalASAPDAGNode) :
    Option (Except InstallableDagError Unit) :=
  if node.id ∉ dag.readingRawData then some (.ok ())
  else
    match node.payload with
    | .nonASAP (.timeRange ..) => (dag.windowAt fuel node.id).map (·.map fun _ => ())
    | .asap (.summaryTumblingWindowChain _ _ _ _ _ _ width _) =>
      (dag.rawWindowBelow fuel node.id width).map (·.map fun _ => ())
    | _ => some (.ok ())

def checkRawDataWindowsOf (fuel : Nat) :
    List PhysicalASAPDAGNode → Option (Except InstallableDagError Unit)
  | [] => some (.ok ())
  | node :: rest =>
    match dag.checkRawDataWindow fuel node with
    | some (.ok ()) => checkRawDataWindowsOf fuel rest
    | stopped => stopped

def checkRawDataWindows (fuel : Nat) : Option (Except InstallableDagError Unit) :=
  dag.checkRawDataWindowsOf fuel dag.nodes

/-! ### What the search finds -/

variable {dag}

theorem id_of_payload {id : NodeId} {operator : Operator NodeId} (held : dag.payload id = some operator) :
    id ∈ dag.ids := by
  obtain ⟨node, found, _⟩ := Option.map_eq_some_iff.mp held
  exact mem_ids.mpr ⟨node, found⟩

theorem Accepted.childrenFirst_all (accepted : dag.Accepted) :
    dag.graph.ReadsFirst dag.childrenFirst ∧ dag.childrenFirst.Nodup ∧
      ∀ id ∈ dag.ids, id ∈ dag.childrenFirst := by
  have none : dag.graph.ReadsFirst [] := by
    intro before key after split
    cases before <;> cases split
  have start : dag.graph.Ordered [] [] := ⟨none, List.nodup_nil, fun _ member => member⟩
  obtain ⟨ordered, _, _, all⟩ :=
    Graph.postorder_each accepted.grounded start fun key member => member
  exact ⟨ordered.first, ordered.distinct, all⟩

theorem Accepted.children_eq (accepted : dag.Accepted) {id : NodeId} {operator : Operator NodeId}
    (held : dag.payload id = some operator) {child : NodeId} :
    child ∈ dag.children id ↔ child ∈ operator.children := by
  obtain ⟨node, found, payload⟩ := Option.map_eq_some_iff.mp held
  obtain ⟨listed, named⟩ := byId_some found
  rw [← payload, ← named]
  exact accepted.mem_children listed

theorem Accepted.children_single (accepted : dag.Accepted) {id child : NodeId}
    {operator : Operator NodeId} (held : dag.payload id = some operator)
    (single : edgeRoles operator = [(child, .input)]) : dag.children id = [child] := by
  obtain ⟨node, found, payload⟩ := Option.map_eq_some_iff.mp held
  obtain ⟨listed, named⟩ := byId_some found
  have edges := accepted.inputs node listed
  rw [payload, single, List.perm_singleton] at edges
  have producers : dag.children id = (incoming dag.edges id).map Prod.fst := by
    rw [children, incoming, List.map_map]
    rfl
  rw [producers, ← named, edges]
  rfl

theorem Accepted.reTimed_below (accepted : dag.Accepted) {id child below : NodeId}
    {operator : Operator NodeId} (held : dag.payload id = some operator)
    (reTimes : reTimesItsInput operator = true) (reads : child ∈ dag.children id)
    (reached : dag.graph.Reaches child below) : below ∈ dag.reTimedFromAbove := by
  obtain ⟨first, distinct, all⟩ := accepted.childrenFirst_all
  have source : (dag.payload id).any reTimesItsInput = true := by rw [held]; exact reTimes
  induction reached with
  | refl =>
    exact Graph.markDown_closed first distinct (all id (id_of_payload held)) (.inl source) child reads
  | @tail mid below path step ih =>
    have inside : mid ∈ dag.ids := by
      obtain ⟨edge, member, _⟩ := List.mem_map.mp step
      obtain ⟨present, reader⟩ := List.mem_filter.mp member
      exact eq_of_beq reader ▸ (accepted.endpoints edge present).2
    exact Graph.markDown_closed first distinct (all mid inside) (.inr ih) below step

/-- A `Scan` is below a node without a range or a chain between. -/
inductive ReadsRawData (dag : PhysicalASAPDAG) : NodeId → Prop
  | scan {id input : NodeId} (reads : input ∈ dag.children id) {source : Source}
      {predicates : List (Predicate NodeId)} {schema : Schema}
      (held : dag.payload input = some (.nonASAP (.scan source predicates schema))) : ReadsRawData dag id
  | shift {id input : NodeId} (reads : input ∈ dag.children id) {shift : TimeShift} {child : NodeId}
      (held : dag.payload input = some (.nonASAP (.timeShift shift child)))
      (below : ReadsRawData dag input) : ReadsRawData dag id

theorem Accepted.mem_readingRawData (accepted : dag.Accepted) {id : NodeId}
    (reads : ReadsRawData dag id) : id ∈ dag.readingRawData := by
  obtain ⟨first, _, all⟩ := accepted.childrenFirst_all
  have inside : id ∈ dag.ids := by
    have edge : ∃ input, input ∈ dag.children id := by
      cases reads with
      | scan reads => exact ⟨_, reads⟩
      | shift reads => exact ⟨_, reads⟩
    obtain ⟨input, read⟩ := edge
    obtain ⟨edge, member, _⟩ := List.mem_map.mp read
    obtain ⟨present, reader⟩ := List.mem_filter.mp member
    exact eq_of_beq reader ▸ (accepted.endpoints edge present).2
  refine Graph.mem_markUp (P := ReadsRawData dag) first ?_ (all id inside) reads
  intro key marked reads below
  apply List.any_eq_true.mpr
  cases reads with
  | scan read held => exact ⟨_, read, by rw [held]; rfl⟩
  | shift read held under => exact ⟨_, read, by rw [held]; exact decide_eq_true (below _ read under)⟩

/-! ### An accepted window -/

theorem checkRawDataWindowsOf_ok {fuel : Nat} {nodes : List PhysicalASAPDAGNode}
    (fine : dag.checkRawDataWindowsOf fuel nodes = some (.ok ())) :
    ∀ node ∈ nodes, dag.checkRawDataWindow fuel node = some (.ok ()) := by
  induction nodes with
  | nil => exact fun node member => nomatch member
  | cons node nodes ih =>
    rw [checkRawDataWindowsOf] at fine
    split at fine
    · rename_i here
      exact List.forall_mem_cons.mpr ⟨here, ih fine⟩
    · rename_i stopped
      exact absurd fine stopped

theorem Accepted.belowShifts_sum (accepted : dag.Accepted) {timeRange scan : NodeId} {widthMs fuel : Nat}
    {source : Source} {predicates : List (Predicate NodeId)} {schema : Schema}
    (isScan : dag.payload scan = some (.nonASAP (.scan source predicates schema)))
    {id current found : NodeId} {offset start : Int} (path : dag.ShiftedFrom scan id offset)
    (reads : dag.onlyInput current = some id) {window : RawDataWindow} (high : start ≤ i64Max)
    (run : dag.belowShifts timeRange widthMs fuel current start = some (.ok (window, found))) :
    window.endOffsetMs = start + offset ∧ 0 ≤ window.endOffsetMs ∧ window.endOffsetMs ≤ i64Max := by
  induction fuel generalizing id current offset start with
  | zero => cases run
  | succ fuel ih =>
    rw [belowShifts, reads] at run
    dsimp only at run
    rcases ReflTransGen.cases_tail path with same | ⟨low, path, shifts⟩
    · obtain ⟨rfl, rfl⟩ := Prod.mk.inj same
      have op : dag.relational id = some (.scan source predicates schema) := by rw [relational, isScan]
      rw [op] at run
      dsimp only at run
      split at run
      · cases run
      · rename_i positive
        cases run
        exact ⟨(Int.add_zero start).symm, Int.not_lt.mp positive, high⟩
    · obtain ⟨node, shift, atHigh, payload, unanchored, sum⟩ := shifts
      have held := payload_some atHigh
      rw [payload] at held
      have op : dag.relational id = some (.timeShift shift low.1) := by rw [relational, held]
      have below : dag.onlyInput id = some low.1 := by
        rw [onlyInput, accepted.children_single held rfl]
      rw [op] at run
      dsimp only at run
      rw [unanchored] at run
      simp only [Option.isSome_none, Bool.false_eq_true, if_false] at run
      split at run
      · cases run
      · rename_i next added
        obtain ⟨whole, fits⟩ := i64CheckedAdd_some added
        obtain ⟨same, range⟩ := ih path below (whole ▸ fits.2) run
        rw [whole] at same
        refine ⟨?_, range⟩
        dsimp only at sum
        omega

theorem Accepted.checked_range (accepted : dag.Accepted) {fuel : Nat}
    (checked : dag.checkRawDataWindows fuel = some (.ok ())) {scan timeRange id : NodeId}
    {source : Source} {predicates : List (Predicate NodeId)} {schema : Schema}
    (isScan : dag.payload scan = some (.nonASAP (.scan source predicates schema))) {offset : Int}
    (path : dag.ShiftedFrom scan id offset) {range : Duration} {kind : TimeRangeKind}
    (held : dag.payload timeRange = some (.nonASAP (.timeRange range kind id))) :
    timeRange ∉ dag.reTimedFromAbove ∧ range.asMillis ≤ i64Max ∧ 0 ≤ offset ∧ offset ≤ i64Max := by
  have single : dag.children timeRange = [id] := accepted.children_single held rfl
  have raw : ∀ high, ReflTransGen dag.Shifts (scan, 0) high → ∀ reader,
      high.1 ∈ dag.children reader → ReadsRawData dag reader := by
    intro high path
    induction path with
    | refl => exact fun reader reads => .scan reads isScan
    | tail _ shifts ih =>
      intro reader reads
      obtain ⟨node, shift, found, payload, _⟩ := shifts
      have here := payload_some found
      rw [payload] at here
      refine .shift reads here (ih _ ?_)
      rw [accepted.children_single here rfl]
      exact List.mem_singleton_self _
  have reading := accepted.mem_readingRawData
    (raw (id, offset) path timeRange (by rw [single]; exact List.mem_singleton_self _))
  obtain ⟨node, found, payload⟩ := Option.map_eq_some_iff.mp held
  obtain ⟨listed, named⟩ := byId_some found
  have fine := checkRawDataWindowsOf_ok checked node listed
  have op : dag.relational timeRange = some (.timeRange range kind id) := by rw [relational, held]
  rw [checkRawDataWindow, named, if_neg (not_not.mpr reading), payload] at fine
  dsimp only at fine
  rw [windowAt, op] at fine
  dsimp only at fine
  obtain ⟨result, run, mapped⟩ := Option.map_eq_some_iff.mp fine
  cases result with
  | error error => cases mapped
  | ok window =>
    rw [rawWindowBelow] at run
    split at run
    · cases run
    · rename_i plain
      split at run
      · cases run
      · rename_i narrow
        have only : dag.onlyInput timeRange = some id := by rw [onlyInput, single]
        obtain ⟨same, positive, high⟩ := accepted.belowShifts_sum isScan path only (by decide) run
        exact ⟨plain, by omega, by omega, by omega⟩

end PhysicalASAPDAG
end AsapPlanner.Physical
