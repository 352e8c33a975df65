import AsapPlanner.Sharing.OneInput

/-!
What sharing returns: every root part by part what it was, one node for equal nodes that may be shared and
serialize alike, and the same sharing under every hash.
-/

namespace AsapPlanner.Sharing
open Rust Ir Traversal

variable {H H' : Type} {hasher : Hasher H} {input : Dag} {left right : NodeRef}

/-! ### Other hashes -/

/-- The serializer with another hash. -/
def Hasher.rehash (hasher : Hasher H) (hash : String → List H' → H') : Hasher H' := ⟨hasher.text, hash⟩

theorem sameNode_rehash {hash : String → List H' → H'} :
    sameNode (hasher.rehash hash) input left right = true ↔ sameNode hasher input left right = true := by
  induction left using Nat.strongRecOn generalizing right with
  | ind left ih =>
    rw [sameNode_iff, sameNode_iff]
    have each (child : NodeRef) (reads : child ∈ input.children left) (other : NodeRef) :
        Near (hasher.rehash hash) input child other ↔ Near hasher input child other :=
      or_congr_right (ih child (input.child_lt reads))
    exact and_congr ⟨forall₂_imp_mem fun child reads other _ => (each child reads other).mp,
      forall₂_imp_mem fun child reads other _ => (each child reads other).mpr⟩ Iff.rfl

section Workload
variable {Id : Type} {roots : List (Id × NodeRef)}

/-- Equal nodes of the workload serialize alike. -/
def SerializeAlike (hasher : Hasher H) (input : Dag) (roots : List (Id × NodeRef)) : Prop :=
  ∀ left right, Reached input roots left → Reached input roots right → sameNode hasher input left right = true →
    hasher.text (contents input (input.node left)) = hasher.text (contents input (input.node right))

theorem SerializeAlike.hashes (alike : SerializeAlike hasher input roots) (reached : Reached input roots left)
    (reached' : Reached input roots right) (equal : sameNode hasher input left right = true)
    (hash : String → List H' → H') :
    structuralHash (hasher.rehash hash) input left = structuralHash (hasher.rehash hash) input right := by
  induction left using Nat.strongRecOn generalizing right with
  | ind left ih =>
    have text := alike left right reached reached' equal
    have below := (sameNode_iff.mp equal).1
    have children : (input.children left).map (structuralHash (hasher.rehash hash) input) =
        (input.children right).map (structuralHash (hasher.rehash hash) input) := by
      rw [← List.forall₂_eq_eq_eq, List.forall₂_map_left_iff, List.forall₂_map_right_iff]
      refine forall₂_imp_mem (fun child reads other reads' near => ?_) below
      rcases near with rfl | equal
      · rfl
      · obtain ⟨root, member, reaches⟩ := reached
        obtain ⟨root', member', reaches'⟩ := reached'
        exact ih child (input.child_lt reads) ⟨root, member, reaches.tail reads⟩
          ⟨root', member', reaches'.tail reads'⟩ equal
    rw [structuralHash_eq, structuralHash_eq, hashOver, hashOver]
    exact congrArg₂ (fun text below => hash (text.getD "") below) text children

variable [DecidableEq H']

theorem images_same (derived : KindsDerived input) (alike : SerializeAlike hasher input roots)
    (reached : Reached input roots left) (reached' : Reached input roots right) (hash : String → List H' → H') :
    (shareCommonSubDags (hasher.rehash hash) input roots).2.visited left =
        (shareCommonSubDags (hasher.rehash hash) input roots).2.visited right ↔
      left = right ∨ reusable input (input.node left) = true ∧ sameNode hasher input left right = true := by
  have holds := (shareCommonSubDags_kept (hasher.rehash hash) input roots).1
  obtain ⟨image, known⟩ := @visited_of_reached _ (hasher.rehash hash) _ _ roots _ _ reached
  obtain ⟨image', known'⟩ := @visited_of_reached _ (hasher.rehash hash) _ _ roots _ _ reached'
  rw [known, known', Option.some_inj, holds.images_iff derived known known', Shares, sameNode_rehash]
  exact or_congr_right (and_congr_right fun _ =>
    ⟨fun shares => shares.1, fun equal => ⟨equal, alike.hashes reached reached' equal hash⟩⟩)

variable [DecidableEq H]

/-- Each root is what it was: the same parts or equal ones, node by node, over children in the same order. -/
def KeepsRoots (hasher : Hasher H) (input : Dag) (roots : List (Id × NodeRef)) : Prop :=
  ∃ alike, Alike hasher (shareCommonSubDags hasher input roots).2.dag input alike ∧
    (∀ shared ref, alike shared ref →
      ((shareCommonSubDags hasher input roots).2.dag.node shared).resultKind = (input.node ref).resultKind) ∧
    List.Forall₂ (fun root shared => shared.1 = root.1 ∧ alike shared.2 root.2) roots
      (shareCommonSubDags hasher input roots).1

theorem share_keepsRoots (derived : KindsDerived input) : KeepsRoots hasher input roots := by
  obtain ⟨holds, visited⟩ := shareCommonSubDags_kept hasher input roots
  refine ⟨_, holds.alike, ?_, visited.imp fun _ _ found => ⟨found.1, _, found.2, .inl rfl⟩⟩
  rintro shared ref ⟨interned, known, near⟩
  exact near.kind.trans ((holds.images known).kind derived)

/-- Whether two nodes of the workload become one is the same under two hashes. -/
def SharesAlike (hasher : Hasher H) (other : Hasher H') (input : Dag) (roots : List (Id × NodeRef)) : Prop :=
  ∀ left right, Reached input roots left → Reached input roots right →
    ((shareCommonSubDags hasher input roots).2.visited left =
        (shareCommonSubDags hasher input roots).2.visited right ↔
      (shareCommonSubDags other input roots).2.visited left =
        (shareCommonSubDags other input roots).2.visited right)

/-- Each root is kept, equal nodes that may be shared and serialize alike are one, and the hash does not matter
where equal nodes serialize alike. -/
theorem share_exact (derived : KindsDerived input) : KeepsRoots hasher input roots ∧
    Merged hasher (shareCommonSubDags hasher input roots).2.dag (fun ref =>
      ∃ root ∈ (shareCommonSubDags hasher input roots).1,
        (shareCommonSubDags hasher input roots).2.dag.Reaches root.2 ref) ∧
    (SerializeAlike hasher input roots → ∀ hash : String → List H' → H',
      SharesAlike hasher (hasher.rehash hash) input roots) := by
  refine ⟨share_keepsRoots derived, shareCommonSubDags_merged hasher input roots,
    fun alike hash left right reached reached' => ?_⟩
  rw [images_same derived alike reached reached' hash]
  exact images_same derived alike reached reached' hasher.hash

end Workload

/-- Two distincts over equal limits. -/
theorem share_exact_distincts : KeepsRoots printed (distincts 2) [(0, 3), (1, 4)] ∧
    Merged printed (shareCommonSubDags printed (distincts 2) [(0, 3), (1, 4)]).2.dag (fun ref =>
      ∃ root ∈ (shareCommonSubDags printed (distincts 2) [(0, 3), (1, 4)]).1,
        (shareCommonSubDags printed (distincts 2) [(0, 3), (1, 4)]).2.dag.Reaches root.2 ref) ∧
    SharesAlike printed (printed.rehash fun _ _ => ()) (distincts 2) [(0, 3), (1, 4)] := by
  obtain ⟨keeps, merged, alike⟩ := @share_exact _ Unit printed _ _ [(0, 3), (1, 4)] _ _
    (distincts_derived (show (distincts 2).nodes.length = 5 by decide) (by decide))
  refine ⟨keeps, merged, alike (fun left right reached reached' equal => ?_) _⟩
  have texts : ∀ left < 5, ∀ right < 5,
      sameFields printed (distincts 2) ((distincts 2).node left) ((distincts 2).node right) = true →
        printed.text (contents (distincts 2) ((distincts 2).node left)) =
          printed.text (contents (distincts 2) ((distincts 2).node right)) := by
    decide +kernel
  exact texts left (distincts_inside reached) right (distincts_inside reached') (sameNode_iff.mp equal).2

/-! ### Nodes that are equal but do not serialize alike -/

/-- The text of the floats below, and no hash. -/
def serialized : Hasher Unit where
  text value := some (value.debug ⟨id, fun value => if value.negative then "-0" else "0", toString⟩)
  hash _ _ := ()

def sameTyped (dag dag' : Dag) (left right : OperatorNode) : Bool :=
  same left.resultKind right.resultKind && same left.schema right.schema && same left.timing right.timing &&
    same left.materialization right.materialization && (datum left.guarantee).eq (datum right.guarantee) &&
    (ownFields dag left).eq (ownFields dag' right)

/-- Projections of NaN, 0 and -0, and two distincts whose declared sketches were sized for different errors. -/
def nearlyEqual : Dag :=
  let project (value : F64) : OperatorNode :=
    { (default : OperatorNode) with operator := .nonASAP (.project [⟨none, .literal (.float64 value)⟩] none 0) }
  let distinct (error : Option F64) : OperatorNode :=
    { (default : OperatorNode) with
      operator := .nonASAP (.dedup [] 0)
      schema := .new [⟨"s", .sketch ⟨.kmv, .kmv 331 error, rfl⟩ .perSubpopulationInstance, false, none⟩] }
  .ofNodes [default, project ⟨false, F64.infinity + 1⟩, project ⟨false, 0⟩, project ⟨true, 0⟩,
    distinct none, distinct (some ⟨false, 1⟩)]

/-- A root with a NaN is not equal to itself, zeros of two signs stay two nodes, and what equality skips is hashed. -/
theorem sharing_is_not_typed :
    (∀ shared ∈ (shareCommonSubDags serialized nearlyEqual [(0, 1)]).1, sameTyped
      (shareCommonSubDags serialized nearlyEqual [(0, 1)]).2.dag nearlyEqual
      ((shareCommonSubDags serialized nearlyEqual [(0, 1)]).2.dag.node shared.2) (nearlyEqual.node 1) = false) ∧
    (let shared := shareCommonSubDags serialized nearlyEqual [(0, 2), (1, 3)];
      shared.1.map (·.2) = [7, 8] ∧ reusable shared.2.dag (shared.2.dag.node 7) = true ∧
        reusable shared.2.dag (shared.2.dag.node 8) = true ∧ shared.2.dag.children 7 = shared.2.dag.children 8 ∧
        sameTyped shared.2.dag shared.2.dag (shared.2.dag.node 7) (shared.2.dag.node 8) = true) ∧
    ¬ SharesAlike serialized (serialized.rehash fun text _ => text) nearlyEqual [(0, 4), (1, 5)] := by
  refine ⟨by decide +kernel, by decide +kernel, fun alike => ?_⟩
  have same := (alike 4 5 ⟨(0, 4), by decide, .refl⟩ ⟨(1, 5), by decide, .refl⟩).mp (by decide +kernel)
  exact absurd same (by decide +kernel)

end AsapPlanner.Sharing
