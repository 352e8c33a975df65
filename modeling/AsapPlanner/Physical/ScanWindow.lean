import AsapPlanner.Physical.Validate
import AsapPlanner.Rust.Integer
import Mathlib.Data.List.Nodup
import Mathlib.Data.List.Perm.Subperm

/-!
The rows of a `Scan` that its readers read, back from the evaluation time: the union of the windows of
the ranges that read it, through time shifts.
-/

namespace AsapPlanner.Physical
open Rust Traversal Ir Relation

/-- Which rows of a `Scan` its readers read, back from an evaluation time `T`. -/
inductive ScanWindow
  -- The rows with time in `(T - endOffsetMs - widthMs, T - endOffsetMs]`.
  | within (endOffsetMs widthMs : Int)
  -- Rows at any time.
  | unbounded
deriving DecidableEq, Repr

namespace ScanWindow

/-- The smallest window holding both. -/
def union : ScanWindow → ScanWindow → ScanWindow
  | within aEnd aWidth, within bEnd bWidth =>
    let endOffset := min aEnd bEnd
    let startBack := max (i64SaturatingAdd aEnd aWidth) (i64SaturatingAdd bEnd bWidth)
    within endOffset (saturatingSub startBack endOffset)
  | _, _ => unbounded

/-- How far back from `T` the oldest row read lies. -/
def lookbackMs : ScanWindow → Option Nat
  | within endOffset width => some (i64SaturatingAdd endOffset width).toNat
  | unbounded => none

/-- `(start, end]` at an evaluation time. -/
def boundsMs (evaluationTime : Int) : ScanWindow → Option (Int × Int)
  | within endOffset width =>
    let last := saturatingSub evaluationTime endOffset
    some (saturatingSub last width, last)
  | unbounded => none

end ScanWindow

/-- How one consumer reads a `Scan`, or a shift above it. -/
inductive ScanRead
  | shifted (offsetMs : Int)
  | windowed (widthMs : Nat)
  | whole
deriving DecidableEq, Repr

def scanRead (keptChains : List NodeId) (consumer : NodeId) : Option (Operator NodeId) → ScanRead
  | some (.nonASAP (.timeShift shift _)) =>
    if shift.at.isNone then .shifted shift.offsetMs else .whole
  | some (.nonASAP (.timeRange range _ _)) => .windowed range.asMillis
  | some (.asap (.summaryTumblingWindowChain _ _ _ _ _ _ width count)) =>
    -- A kept chain builds only its newest tumbling window in each evaluation.
    if consumer ∈ keptChains then .windowed width else .windowed (width * count)
  | _ => .whole

namespace PhysicalASAPDAG
variable (dag : PhysicalASAPDAG)

def payload (id : NodeId) : Option (Operator NodeId) := (dag.byId id).map (·.payload)

def consumers (id : NodeId) : List NodeId := (dag.edges.filter (·.producer == id)).map (·.consumer)

/-- One consumer of a node that lies `endOffset` above the `Scan`; `none` when it reads outside a
window. -/
def readScan (keptChains : List NodeId) (endOffset : Int)
    (state : List (NodeId × Int) × Option ScanWindow) (consumer : NodeId) :
    Option (List (NodeId × Int) × Option ScanWindow) :=
  match scanRead keptChains consumer (dag.payload consumer) with
  | .shifted offset => some ((consumer, i64SaturatingAdd endOffset offset) :: state.1, state.2)
  | .windowed width =>
    let read := ScanWindow.within endOffset (i64OrMax width)
    some (state.1, some ((state.2.map (·.union read)).getD read))
  | .whole => none

/-- The loop over the shifts above a `Scan`; `none` out of fuel. -/
def scanLoop (keptChains : List NodeId) :
    Nat → List (NodeId × Int) → Option ScanWindow → Option ScanWindow
  | _, [], window => some (window.getD .unbounded)
  | 0, _ :: _, _ => none
  | fuel + 1, (id, endOffset) :: pending, window =>
    if id ∈ dag.roots then some .unbounded
    else
      match (dag.consumers id).foldlM (dag.readScan keptChains endOffset) (pending, window) with
      | none => some .unbounded
      | some (pending, window) => scanLoop keptChains fuel pending window

def scanWindow (fuel : Nat) (scan : NodeId) (keptChains : List NodeId) : Option ScanWindow :=
  dag.scanLoop keptChains fuel [(scan, 0)] none

end PhysicalASAPDAG

/-! ### Unions -/

namespace ScanWindow

/-- The window `(T - offset - width, T - offset]` lies inside. -/
def Holds (offset width : Int) : ScanWindow → Prop
  | within endOffset span => endOffset ≤ offset ∧ offset + width ≤ endOffset + span
  | unbounded => True

/-- A window after whose start no sum saturates. -/
def Plain : ScanWindow → Prop
  | within endOffset span => 0 ≤ endOffset ∧ 0 ≤ span ∧ endOffset + span ≤ i64Max
  | unbounded => True

variable {a b : ScanWindow} {offset width : Int}

theorem union_within {aEnd aWidth bEnd bWidth : Int} (plainA : (within aEnd aWidth).Plain)
    (plainB : (within bEnd bWidth).Plain) : (within aEnd aWidth).union (within bEnd bWidth) =
      within (min aEnd bEnd) (max (aEnd + aWidth) (bEnd + bWidth) - min aEnd bEnd) := by
  obtain ⟨lowA, spanA, highA⟩ := plainA
  obtain ⟨lowB, spanB, highB⟩ := plainB
  have fitsA : FitsI64 (aEnd + aWidth) := ⟨by unfold i64Min; omega, highA⟩
  have fitsB : FitsI64 (bEnd + bWidth) := ⟨by unfold i64Min; omega, highB⟩
  rw [union, i64SaturatingAdd_eq fitsA, i64SaturatingAdd_eq fitsB]
  rw [saturatingSub_eq]
  · omega
  · omega

theorem union_plain (plainA : a.Plain) (plainB : b.Plain) : (a.union b).Plain := by
  cases a with
  | unbounded => cases b <;> exact trivial
  | within aEnd aWidth =>
    cases b with
    | unbounded => exact trivial
    | within bEnd bWidth =>
      rw [union_within plainA plainB]
      obtain ⟨lowA, spanA, highA⟩ := plainA
      obtain ⟨lowB, spanB, highB⟩ := plainB
      refine ⟨?_, ?_, ?_⟩ <;> omega

theorem union_left (plainA : a.Plain) (plainB : b.Plain) (held : a.Holds offset width) :
    (a.union b).Holds offset width := by
  cases a with
  | unbounded => cases b <;> exact trivial
  | within aEnd aWidth =>
    cases b with
    | unbounded => exact trivial
    | within bEnd bWidth =>
      rw [union_within plainA plainB]
      obtain ⟨low, high⟩ := held
      refine ⟨?_, ?_⟩ <;> omega

theorem union_right (plainA : a.Plain) (plainB : b.Plain) (held : b.Holds offset width) :
    (a.union b).Holds offset width := by
  cases a with
  | unbounded => cases b <;> exact trivial
  | within aEnd aWidth =>
    cases b with
    | unbounded => exact trivial
    | within bEnd bWidth =>
      rw [union_within plainA plainB]
      obtain ⟨low, high⟩ := held
      refine ⟨?_, ?_⟩ <;> omega

end ScanWindow

/-! ### Readers above a scan -/

namespace PhysicalASAPDAG
variable (dag : PhysicalASAPDAG)

/-- `high` is a shift without an anchor right above `low`, its offset added. -/
def Shifts (low high : NodeId × Int) : Prop :=
  ∃ node shift, dag.byId high.1 = some node ∧ node.payload = .nonASAP (.timeShift shift low.1) ∧
    shift.at = none ∧ high.2 = low.2 + shift.offsetMs

/-- `id` is the scan or above it, through shifts whose offsets sum to `offset`. -/
def ShiftedFrom (scan id : NodeId) (offset : Int) : Prop :=
  ReflTransGen dag.Shifts (scan, 0) (id, offset)

/-- What a bounded window says of a node that lies `offset` above the scan. -/
structure ReadWithin (keptChains : List NodeId) (window : ScanWindow) (id : NodeId) (offset : Int) :
    Prop where
  unrooted : id ∉ dag.roots
  shaped : ∀ consumer ∈ dag.consumers id,
    scanRead keptChains consumer (dag.payload consumer) ≠ .whole
  held : ∀ consumer ∈ dag.consumers id, ∀ width,
    scanRead keptChains consumer (dag.payload consumer) = .windowed width → window.Holds offset width

variable {dag} {keptChains : List NodeId} {scan : NodeId}

theorem mem_consumers {id consumer : NodeId} :
    consumer ∈ dag.consumers id ↔ id ∈ dag.children consumer := by
  unfold consumers children
  simp only [List.mem_map, List.mem_filter, beq_iff_eq]
  constructor
  · rintro ⟨edge, ⟨member, producer⟩, reader⟩
    exact ⟨edge, ⟨member, reader⟩, producer⟩
  · rintro ⟨edge, ⟨member, reader⟩, producer⟩
    exact ⟨edge, ⟨member, producer⟩, reader⟩

theorem Accepted.mem_consumers_iff (accepted : dag.Accepted) {id consumer : NodeId} :
    consumer ∈ dag.consumers id ↔
      ∃ node, dag.byId consumer = some node ∧ id ∈ node.payload.children := by
  rw [mem_consumers]
  constructor
  · intro reads
    obtain ⟨edge, member, same⟩ := List.mem_map.mp reads
    obtain ⟨present, reader⟩ := List.mem_filter.mp member
    obtain ⟨node, found⟩ := mem_ids.mp (eq_of_beq reader ▸ (accepted.endpoints edge present).2)
    obtain ⟨listed, named⟩ := byId_some found
    exact ⟨node, found, (accepted.mem_children listed).mp (named.symm ▸ reads)⟩
  · rintro ⟨node, found, reads⟩
    obtain ⟨listed, named⟩ := byId_some found
    exact named ▸ (accepted.mem_children listed).mpr reads

theorem payload_some {id : NodeId} {node : PhysicalASAPDAGNode} (found : dag.byId id = some node) :
    dag.payload id = some node.payload := by
  rw [payload, found, Option.map_some]

theorem scanRead_shifted {consumer : NodeId} {operator : Option (Operator NodeId)} {offset : Int}
    (read : scanRead keptChains consumer operator = .shifted offset) :
    ∃ shift child, operator = some (.nonASAP (.timeShift shift child)) ∧ shift.at = none ∧
      shift.offsetMs = offset := by
  unfold scanRead at read
  split at read
  · rename_i shift child
    split at read
    · rename_i unanchored
      exact ⟨shift, child, rfl, Option.isNone_iff_eq_none.mp unanchored, ScanRead.shifted.inj read⟩
    · cases read
  · cases read
  · split at read <;> cases read
  · cases read

theorem Accepted.shifts_of_read (accepted : dag.Accepted) {id consumer : NodeId} {offset more : Int}
    (reads : consumer ∈ dag.consumers id)
    (read : scanRead keptChains consumer (dag.payload consumer) = .shifted more) :
    dag.Shifts (id, offset) (consumer, offset + more) := by
  obtain ⟨node, found, reads⟩ := accepted.mem_consumers_iff.mp reads
  rw [payload_some found] at read
  obtain ⟨shift, child, operator, unanchored, same⟩ := scanRead_shifted read
  have payload := Option.some.inj operator
  have only : id = child := by
    rw [payload] at reads
    exact List.mem_singleton.mp reads
  exact ⟨node, shift, found, only ▸ payload, unanchored, by rw [same]⟩

theorem Accepted.read_of_shifts (accepted : dag.Accepted) {low high : NodeId × Int}
    (shifts : dag.Shifts low high) : high.1 ∈ dag.consumers low.1 ∧ ∃ more,
      scanRead keptChains high.1 (dag.payload high.1) = .shifted more ∧ high.2 = low.2 + more := by
  obtain ⟨node, shift, found, payload, unanchored, sum⟩ := shifts
  refine ⟨accepted.mem_consumers_iff.mpr ⟨node, found, ?_⟩, shift.offsetMs, ?_, sum⟩
  · rw [payload]
    exact List.mem_singleton_self _
  · rw [payload_some found, payload]
    exact if_pos (Option.isNone_iff_eq_none.mpr unanchored)

/-! ### One turn of the loop -/

/-- A window met so far holds a range. -/
def Held (window : Option ScanWindow) (offset width : Int) : Prop :=
  ∃ met, window = some met ∧ met.Holds offset width

/-- What the consumers of one node leave pending and unioned. -/
structure Turn (dag : PhysicalASAPDAG) (keptChains : List NodeId) (offset : Int)
    (consumers : List NodeId) (before after : List (NodeId × Int) × Option ScanWindow) : Prop where
  plain : ∀ met, after.2 = some met → met.Plain
  grows : ∀ other width, Held before.2 other width → Held after.2 other width
  kept : ∀ entry ∈ before.1, entry ∈ after.1
  pushed : ∀ entry ∈ after.1, entry ∈ before.1 ∨ ∃ consumer ∈ consumers, ∃ more,
    scanRead keptChains consumer (dag.payload consumer) = .shifted more ∧
      entry = (consumer, i64SaturatingAdd offset more)
  shaped : ∀ consumer ∈ consumers, scanRead keptChains consumer (dag.payload consumer) ≠ .whole
  shifted : ∀ consumer ∈ consumers, ∀ more,
    scanRead keptChains consumer (dag.payload consumer) = .shifted more →
      (consumer, i64SaturatingAdd offset more) ∈ after.1
  windowed : ∀ consumer ∈ consumers, ∀ width,
    scanRead keptChains consumer (dag.payload consumer) = .windowed width → Held after.2 offset width

theorem readScan_turn {offset : Int} {consumer : NodeId}
    {before after : List (NodeId × Int) × Option ScanWindow}
    (run : dag.readScan keptChains offset before consumer = some after)
    (plain : ∀ met, before.2 = some met → met.Plain)
    (fits : ∀ width, scanRead keptChains consumer (dag.payload consumer) = .windowed width →
      0 ≤ offset ∧ offset + width ≤ i64Max) :
    Turn dag keptChains offset [consumer] before after := by
  unfold readScan at run
  split at run
  · rename_i more read
    obtain rfl := Option.some.inj run
    refine ⟨plain, fun _ _ held => held, fun entry member => List.mem_cons_of_mem _ member, ?_, ?_, ?_, ?_⟩
    · intro entry member
      rcases List.mem_cons.mp member with same | earlier
      · exact .inr ⟨consumer, List.mem_singleton_self _, more, read, same⟩
      · exact .inl earlier
    all_goals
      simp only [List.mem_singleton, forall_eq, read]
    · exact ScanRead.noConfusion
    · rintro _ same
      exact ScanRead.shifted.inj same ▸ List.mem_cons_self
    · exact fun _ same => by cases same
  · rename_i width read
    obtain rfl := Option.some.inj run
    obtain ⟨low, high⟩ := fits width read
    have exact_ : i64OrMax width = width := by
      unfold i64OrMax
      rw [if_pos (by omega)]
    have one : (ScanWindow.within offset (i64OrMax width)).Plain :=
      ⟨low, by omega, by omega⟩
    have here : (ScanWindow.within offset (i64OrMax width)).Holds offset width :=
      ⟨le_refl _, by omega⟩
    refine ⟨?_, ?_, fun entry member => member, fun entry member => .inl member, ?_, ?_, ?_⟩
    · intro met same
      obtain rfl := Option.some.inj same
      cases held : before.2 with
      | none => exact one
      | some window => exact ScanWindow.union_plain (plain window held) one
    · rintro other span ⟨met, same, holds⟩
      exact ⟨_, rfl, by rw [same]; exact ScanWindow.union_left (plain met same) one holds⟩
    all_goals
      simp only [List.mem_singleton, forall_eq, read]
    · exact ScanRead.noConfusion
    · exact fun _ same => by cases same
    · intro span same
      obtain rfl := ScanRead.windowed.inj same
      refine ⟨_, rfl, ?_⟩
      cases held : before.2 with
      | none => exact here
      | some window => exact ScanWindow.union_right (plain window held) one here
  · cases run

theorem readScan_turns {offset : Int} {consumers : List NodeId}
    {before after : List (NodeId × Int) × Option ScanWindow}
    (run : consumers.foldlM (dag.readScan keptChains offset) before = some after)
    (plain : ∀ met, before.2 = some met → met.Plain)
    (fits : ∀ consumer ∈ consumers, ∀ width,
      scanRead keptChains consumer (dag.payload consumer) = .windowed width →
        0 ≤ offset ∧ offset + width ≤ i64Max) :
    Turn dag keptChains offset consumers before after := by
  induction consumers generalizing before with
  | nil =>
    obtain rfl := Option.some.inj run
    exact ⟨plain, fun _ _ held => held, fun _ member => member, fun _ member => .inl member, by simp,
      by simp, by simp⟩
  | cons consumer consumers ih =>
    rw [List.foldlM_cons] at run
    obtain ⟨mid, step, run⟩ := Option.bind_eq_some_iff.mp run
    have first := readScan_turn step plain (fits consumer List.mem_cons_self)
    have rest := ih run first.plain fun other member => fits other (List.mem_cons_of_mem _ member)
    have single := List.mem_singleton_self consumer
    refine ⟨rest.plain, fun other width held => rest.grows _ _ (first.grows _ _ held),
      fun entry member => rest.kept entry (first.kept entry member), ?_, ?_, ?_, ?_⟩
    · intro entry member
      rcases rest.pushed entry member with early | ⟨other, present, pushed⟩
      · rcases first.pushed entry early with before | ⟨other, present, pushed⟩
        · exact .inl before
        · rw [List.mem_singleton.mp present] at pushed
          exact .inr ⟨consumer, List.mem_cons_self, pushed⟩
      · exact .inr ⟨other, List.mem_cons_of_mem _ present, pushed⟩
    · exact List.forall_mem_cons.mpr ⟨first.shaped consumer single, rest.shaped⟩
    · exact List.forall_mem_cons.mpr ⟨fun more read => rest.kept _ (first.shifted consumer single more read),
        rest.shifted⟩
    · exact List.forall_mem_cons.mpr
        ⟨fun width read => rest.grows _ _ (first.windowed consumer single width read), rest.windowed⟩

/-! ### The whole loop -/

/-- Every sum of offsets above the scan, and of the widths of the windows read there, is exact. -/
def Sums (dag : PhysicalASAPDAG) (keptChains : List NodeId) (scan : NodeId) : Prop :=
  ∀ id offset, dag.ShiftedFrom scan id offset → FitsI64 offset ∧
    ∀ consumer ∈ dag.consumers id, ∀ width,
      scanRead keptChains consumer (dag.payload consumer) = .windowed width →
        0 ≤ offset ∧ offset + width ≤ i64Max

theorem scanLoop_reads (accepted : dag.Accepted) (sums : Sums dag keptChains scan) {fuel : Nat}
    {pending : List (NodeId × Int)} {window : Option ScanWindow} {result : ScanWindow}
    (above : ∀ entry ∈ pending, dag.ShiftedFrom scan entry.1 entry.2)
    (plain : ∀ met, window = some met → met.Plain)
    (run : dag.scanLoop keptChains fuel pending window = some result) (bounded : result ≠ .unbounded) :
    result.Plain ∧ (∀ offset width, Held window offset width → result.Holds offset width) ∧
      ∀ entry ∈ pending, ∀ high, ReflTransGen dag.Shifts entry high →
        dag.ReadWithin keptChains result high.1 high.2 := by
  fun_induction scanLoop with
  | case1 fuel window =>
    obtain rfl := Option.some.inj run
    cases window with
    | none => exact absurd rfl bounded
    | some met =>
      refine ⟨plain met rfl, ?_, fun entry member => nomatch member⟩
      rintro offset width ⟨other, same, holds⟩
      exact Option.some.inj same ▸ holds
  | case2 => cases run
  | case3 => exact absurd (Option.some.inj run).symm bounded
  | case4 => exact absurd (Option.some.inj run).symm bounded
  | case5 fuel id offset pending window unrooted pending' window' turn ih =>
    have here := above (id, offset) List.mem_cons_self
    have step := readScan_turns turn plain (sums id offset here).2
    have exact_ : ∀ consumer ∈ dag.consumers id, ∀ more,
        scanRead keptChains consumer (dag.payload consumer) = .shifted more →
          dag.ShiftedFrom scan consumer (offset + more) ∧
            i64SaturatingAdd offset more = offset + more := by
      intro consumer member more read
      have there : dag.ShiftedFrom scan consumer (offset + more) :=
        here.tail (accepted.shifts_of_read member read)
      exact ⟨there, i64SaturatingAdd_eq (sums consumer _ there).1⟩
    obtain ⟨plainly, grows, later⟩ := ih
      (by
        intro entry member
        rcases step.pushed entry member with before | ⟨consumer, present, more, read, same⟩
        · exact above entry (List.mem_cons_of_mem _ before)
        · obtain ⟨there, sum⟩ := exact_ consumer present more read
          rw [same, sum]
          exact there)
      step.plain run
    refine ⟨plainly, fun other width held => grows _ _ (step.grows _ _ held), ?_⟩
    intro entry member high path
    rcases List.mem_cons.mp member with same | waits
    · rw [same] at path
      rcases path.cases_head with rfl | ⟨mid, shift, path⟩
      · exact ⟨unrooted, step.shaped, fun consumer present width read =>
          grows _ _ (step.windowed consumer present width read)⟩
      · obtain ⟨present, more, read, sum⟩ := accepted.read_of_shifts shift
        have pushed := step.shifted mid.1 present more read
        rw [(exact_ mid.1 present more read).2, ← sum] at pushed
        exact later mid pushed high path
    · exact later entry (step.kept entry waits) high path

theorem scanWindow_reads (accepted : dag.Accepted) (sums : Sums dag keptChains scan) {fuel : Nat}
    {result : ScanWindow} (run : dag.scanWindow fuel scan keptChains = some result)
    (bounded : result ≠ .unbounded) :
    result.Plain ∧ ∀ id offset, dag.ShiftedFrom scan id offset →
      dag.ReadWithin keptChains result id offset := by
  have start : ∀ entry ∈ [(scan, (0 : Int))], dag.ShiftedFrom scan entry.1 entry.2 := by
    rintro entry member
    rw [List.mem_singleton.mp member]
    exact .refl
  obtain ⟨plain, _, reads⟩ := scanLoop_reads accepted sums start (by simp) run bounded
  exact ⟨plain, fun id offset path => reads (scan, 0) List.mem_cons_self (id, offset) path⟩

end PhysicalASAPDAG
end AsapPlanner.Physical
