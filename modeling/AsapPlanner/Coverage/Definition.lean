import AsapPlanner.Traversal.Memo
import AsapPlanner.Ir.Node

/-!
When two summary definitions compute the same thing, and the id a summary store keys states by.
-/

namespace AsapPlanner.Coverage
open Rust Traversal Ir

/-! ### Equality of definitions -/

/-- What two nodes' own data must agree on: operator, output category, schema, child count. -/
def sameOwn (dag : Dag) (a b : NodeRef) : Bool :=
  (dag.ownFields a).eq (dag.ownFields b)
    && (dag.node a).resultKind == (dag.node b).resultKind
    && same (dag.node a).schema (dag.node b).schema
    && (dag.children a).length == (dag.children b).length

def record (a b : NodeRef) (equal : Bool) : StateM (NodeRef × NodeRef → Bool) Bool := do
  if equal then modify fun proven pair => pair == (a, b) || proven pair
  pure equal

/-- Structural equality ignoring planning metadata. `proven` holds the pairs already found equal. -/
def sameDefinition (dag : Dag) (a b : NodeRef) : StateM (NodeRef × NodeRef → Bool) Bool := do
  let proven ← get
  if a == b || proven (a, b) then pure true
  else
    let equal ←
      if sameOwn dag a b then
        ((dag.children a).zip (dag.children b)).attach.allM fun pair =>
          sameDefinition dag pair.1.1 pair.1.2
      else pure false
    record a b equal
termination_by a
decreasing_by exact dag.child_lt (List.of_mem_zip pair.2).1

/-- The equality `sameDefinition` decides. -/
def definitionsEqual (dag : Dag) (a b : NodeRef) : Bool :=
  a == b || (sameOwn dag a b && ((dag.children a).zip (dag.children b)).attach.all fun pair =>
    definitionsEqual dag pair.1.1 pair.1.2)
termination_by a
decreasing_by exact dag.child_lt (List.of_mem_zip pair.2).1

def ProvenSound (dag : Dag) (proven : NodeRef × NodeRef → Bool) : Prop :=
  ∀ pair, proven pair = true → definitionsEqual dag pair.1 pair.2 = true

theorem all_attach {α : Type} (items : List α) (p : α → Bool) :
    items.attach.all (fun item => p item.1) = items.all p := by
  conv_rhs => rw [← List.attach_map_subtype_val items, List.all_map]
  rfl

theorem definitionsEqual_step (dag : Dag) {a b : NodeRef} (apart : (a == b) = false) :
    definitionsEqual dag a b = (sameOwn dag a b && ((dag.children a).zip (dag.children b)).all
      fun pair => definitionsEqual dag pair.1 pair.2) := by
  rw [definitionsEqual, apart, Bool.false_or]
  exact congrArg _ (all_attach _ fun pair : NodeRef × NodeRef => definitionsEqual dag pair.1 pair.2)

theorem record_returns {dag : Dag} {a b : NodeRef} {equal : Bool}
    (decided : definitionsEqual dag a b = equal) :
    Returns (ProvenSound dag) (record a b equal) equal := by
  intro proven sound
  cases equal with
  | false => exact ⟨rfl, sound⟩
  | true =>
    refine ⟨rfl, fun pair recorded => ?_⟩
    rcases Bool.or_eq_true_iff.mp recorded with here | before
    · rw [beq_iff_eq.mp here]
      exact decided
    · exact sound pair before

theorem sameDefinition_returns (dag : Dag) (a b : NodeRef) :
    Returns (ProvenSound dag) (sameDefinition dag a b) (definitionsEqual dag a b) := by
  induction a using Nat.strongRecOn generalizing b with
  | ind a ih =>
    intro proven sound
    rw [sameDefinition]
    change ((if a == b || proven (a, b) then _ else _ : StateM _ Bool) proven).1 = _ ∧
      ProvenSound dag ((if a == b || proven (a, b) then _ else _ : StateM _ Bool) proven).2
    by_cases known : (a == b || proven (a, b)) = true
    · have equal : definitionsEqual dag a b = true := by
        rcases Bool.or_eq_true_iff.mp known with alike | before
        · rw [definitionsEqual, alike, Bool.true_or]
        · exact sound (a, b) before
      rw [if_pos known, equal]
      exact ⟨rfl, sound⟩
    · obtain ⟨apart, _⟩ := Bool.or_eq_false_iff.mp (Bool.eq_false_iff.mpr known)
      have decided := definitionsEqual_step dag apart
      rw [if_neg known]
      cases own : sameOwn dag a b with
      | false =>
        rw [own, Bool.false_and] at decided
        rw [decided]
        exact record_returns decided proven sound
      | true =>
        rw [own, Bool.true_and, ← all_attach] at decided
        have children : Returns (ProvenSound dag)
            (((dag.children a).zip (dag.children b)).attach.allM fun pair =>
              sameDefinition dag pair.1.1 pair.1.2) (definitionsEqual dag a b) := by
          rw [decided]
          exact Returns.allM fun pair _ =>
            ih pair.1.1 (dag.child_lt (List.of_mem_zip pair.2).1) pair.1.2
        exact Returns.bind children (record_returns rfl) proven sound

/-! ### The id of a definition -/

def fnvOffset : BitVec 128 := 0x6c62272e07bb014262b821756295c58d#128
def fnvPrime : BitVec 128 := 0x0000000001000000000000000000013b#128

def writeBytes (hash : BitVec 128) (bytes : List UInt8) : BitVec 128 :=
  bytes.foldl (fun hash byte => (hash ^^^ byte.toBitVec.setWidth 128) * fnvPrime) hash

def toLeBytes (hash : BitVec 128) : List UInt8 :=
  (List.range 16).map fun index => ⟨(hash >>> (8 * index)).setWidth 8⟩

/-- A node's own data as it is hashed. -/
def ownText (text : LeafText) (dag : Dag) (ref : NodeRef) : String :=
  (dag.ownFields ref).debug text ++ "|" ++ (datum (dag.node ref).resultKind).debug text ++ "|"
    ++ (datum (dag.node ref).schema).debug text

/-- A node's text, then its children's hashes. -/
def combine (own : String) (children : List (BitVec 128)) : BitVec 128 :=
  children.foldl (fun hash child => writeBytes hash (toLeBytes child))
    (writeBytes fnvOffset own.toUTF8.data.toList)

def definitionHash (text : LeafText) (dag : Dag) (ref : NodeRef) :
    StateM (Cache NodeRef (BitVec 128)) (BitVec 128) :=
  memo ref do
    let children ← (dag.children ref).attach.mapM fun child => definitionHash text dag child.1
    pure (combine (ownText text dag ref) children)
termination_by ref
decreasing_by exact dag.child_lt child.2

def hexDigit (nibble : Nat) : Char := "0123456789abcdef".toList.getD nibble '0'

/-- `{:032x}`. -/
def hex (hash : BitVec 128) : String :=
  String.ofList ((List.range 32).map fun index => hexDigit ((hash.toNat >>> (4 * (31 - index))) % 16))

/-- The id of the definition at `ref`. -/
def definitionId (text : LeafText) (dag : Dag) (ref : NodeRef) : String :=
  hex (definitionHash text dag ref Cache.empty).1

/-- The hash of a definition, without a cache. -/
def hashOf (text : LeafText) (dag : Dag) (ref : NodeRef) : BitVec 128 :=
  combine (ownText text dag ref) ((dag.children ref).attach.map fun child => hashOf text dag child.1)
termination_by ref
decreasing_by exact dag.child_lt child.2

theorem hashOf_step (text : LeafText) (dag : Dag) (ref : NodeRef) :
    hashOf text dag ref = combine (ownText text dag ref) ((dag.children ref).map (hashOf text dag)) := by
  rw [hashOf, List.attach_map_val]

theorem definitionHash_returns (text : LeafText) (dag : Dag) (ref : NodeRef) :
    Returns (Cache.Sound (hashOf text dag)) (definitionHash text dag ref) (hashOf text dag ref) := by
  induction ref using Nat.strongRecOn with
  | ind ref ih =>
    rw [definitionHash]
    refine Returns.memo (Returns.bind (Returns.mapM fun child _ => ih _ (dag.child_lt child.2)) ?_)
    rw [hashOf_step, List.attach_map_val]
    exact Returns.pure _

theorem definitionId_eq_hex (text : LeafText) (dag : Dag) (ref : NodeRef) :
    definitionId text dag ref = hex (hashOf text dag ref) := by
  unfold definitionId
  rw [(definitionHash_returns text dag ref Cache.empty (Cache.sound_empty _)).1]

/-! ### Equal definitions with equal ids -/

/-- What the equality of two nodes' own data leaves open, as it is printed. -/
def residueTexts (text : LeafText) (dag : Dag) (ref : NodeRef) : List String × List String :=
  ((dag.ownFields ref).residue.map (Datum.debug text),
    (datum (dag.node ref).schema).residue.map (Datum.debug text))

/-- At every pair of nodes two definitions are compared at, whatever `==` skips or blurs (a sketch's
recorded sizing, the sign of a zero) prints alike. -/
def residueAlike (text : LeafText) (dag : Dag) (a b : NodeRef) : Bool :=
  a == b || (residueTexts text dag a == residueTexts text dag b
    && ((dag.children a).zip (dag.children b)).attach.all fun pair =>
      residueAlike text dag pair.1.1 pair.1.2)
termination_by a
decreasing_by exact dag.child_lt (List.of_mem_zip pair.2).1

theorem ownText_eq {text : LeafText} {dag : Dag} {a b : NodeRef} (own : sameOwn dag a b = true)
    (alike : residueTexts text dag a = residueTexts text dag b) :
    ownText text dag a = ownText text dag b := by
  simp only [sameOwn, Bool.and_eq_true, beq_iff_eq] at own
  obtain ⟨⟨⟨fields, kind⟩, schema⟩, _⟩ := own
  obtain ⟨alikeFields, alikeSchema⟩ := Prod.mk.inj alike
  unfold ownText
  rw [Datum.debug_eq text fields alikeFields, kind, Datum.debug_eq text schema alikeSchema]

theorem map_eq_of_zip {α β : Type} {f : α → β} : ∀ {xs ys : List α}, xs.length = ys.length →
    (∀ pair ∈ xs.zip ys, f pair.1 = f pair.2) → xs.map f = ys.map f
  | [], [], _, _ => rfl
  | x :: xs, y :: ys, lengths, each => by
    have rest := @map_eq_of_zip α β f xs ys (Nat.succ.inj lengths) fun pair member =>
      each pair (List.mem_cons_of_mem _ member)
    rw [List.map_cons, List.map_cons, each (x, y) List.mem_cons_self, rest]

theorem hashOf_eq {text : LeafText} {dag : Dag} {a b : NodeRef}
    (equal : definitionsEqual dag a b = true) (alike : residueAlike text dag a b = true) :
    hashOf text dag a = hashOf text dag b := by
  induction a using Nat.strongRecOn generalizing b with
  | ind a ih =>
    by_cases shared : a = b
    · rw [shared]
    · have apart : (a == b) = false := beq_eq_false_iff_ne.mpr shared
      rw [definitionsEqual_step dag apart, Bool.and_eq_true, List.all_eq_true] at equal
      rw [residueAlike, apart, Bool.false_or, Bool.and_eq_true, beq_iff_eq,
        all_attach _ fun pair : NodeRef × NodeRef => residueAlike text dag pair.1 pair.2,
        List.all_eq_true] at alike
      obtain ⟨own, children⟩ := equal
      obtain ⟨residues, childrenAlike⟩ := alike
      have lengths : (dag.children a).length = (dag.children b).length :=
        beq_iff_eq.mp (Bool.and_eq_true_iff.mp own).2
      have hashes := map_eq_of_zip lengths fun pair member =>
        ih pair.1 (dag.child_lt (List.of_mem_zip member).1) (children pair member)
          (childrenAlike pair member)
      rw [hashOf_step, hashOf_step, ownText_eq own residues, hashes]

/-- Definitions that a merge takes for equal get one id, if the residues of the nodes it compared
print alike. -/
theorem definitionId_eq (text : LeafText) (dag : Dag) (a b : NodeRef)
    (equal : (sameDefinition dag a b fun _ => false).1 = true)
    (alike : residueAlike text dag a b = true) :
    definitionId text dag a = definitionId text dag b := by
  have nothingProven : ProvenSound dag fun _ => false := by
    intro pair proven
    cases proven
  rw [(sameDefinition_returns dag a b _ nothingProven).1] at equal
  rw [definitionId_eq_hex, definitionId_eq_hex, hashOf_eq equal alike]

/-! Two KLL builds over one input that differ in the failure probability they were sized for. -/

def thousandth : F64 := ⟨false, 0x3f50624dd2f1a9fc#63⟩

/-- Debug text of the primitive values below. -/
def shortText : LeafText where
  str value := "\"" ++ value ++ "\""
  f64 value := if value = thousandth then "0.001" else "0.0"
  duration nanos := toString nanos ++ "ns"

def kllBuild (child : NodeRef) (failureProbability : Option F64) : OperatorNode :=
  let family : FieldDataType :=
    .sketch ⟨.kll, .kll 331 failureProbability, rfl⟩ .perSubpopulationInstance
  { operator := .asap (.summaryAgg child family ⟨none, .column .sampleValue, .unknownOrSigned⟩
      (.reduce .none) .perSubpopulationInstance none)
    resultKind := .state
    schema := Schema.new [⟨"state", family, false, none⟩]
    guarantee := none
    timing := none
    materialization := .notMaterialized }

def twoBuilds (first second : Option F64) : Dag :=
  Dag.ofNodes [default, kllBuild 0 first, kllBuild 0 second]

theorem definitionId_eq_of_one_size :
    let dag := twoBuilds none none
    definitionId shortText dag 1 = definitionId shortText dag 2 :=
  definitionId_eq shortText _ 1 2 (by decide +kernel) (by decide +kernel)

/-- Builds sized for different failure probabilities are equal definitions with different ids. -/
theorem definitionId_differs :
    let dag := twoBuilds none (some thousandth)
    (sameDefinition dag 1 2 fun _ => false).1 = true ∧
      definitionId shortText dag 1 ≠ definitionId shortText dag 2 := by
  decide +kernel

end AsapPlanner.Coverage
