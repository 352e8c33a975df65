import AsapPlanner.Sharing.Shared

/-!
Which nodes sharing makes one. Equal nodes that may be shared become one also where a child of theirs does
not: an equal child that may not be one with it stays a node of its own, and one reader of the two is dropped.
-/

namespace AsapPlanner.Sharing
open Rust Ir Traversal

variable {H : Type} {hasher : Hasher H} {input : Dag} {table : InternTable H} {left right first second : NodeRef}

/-- One node, or two that may be shared, are equal and have one hash. -/
def Shares (hasher : Hasher H) (input : Dag) (left right : NodeRef) : Prop :=
  left = right ∨ reusable input (input.node left) = true ∧ sameNode hasher input left right = true ∧
    structuralHash hasher input left = structuralHash hasher input right

/-- Equal nodes that may be shared read one node, or nodes that may be shared too and have one hash. -/
def ReadsShared (hasher : Hasher H) (input : Dag) (left right : NodeRef) : Prop :=
  List.Forall₂ (fun child child' => child = child' ∨ reusable input (input.node child) = true ∧
      structuralHash hasher input child = structuralHash hasher input child')
    (input.children left) (input.children right)

theorem Shares.children {left right : NodeRef} (shares : Shares hasher input left right)
    (reads : ReadsShared hasher input left right) :
    List.Forall₂ (Shares hasher input) (input.children left) (input.children right) := by
  rcases shares with rfl | ⟨_, equal, _⟩
  · exact List.forall₂_same.mpr fun _ _ => .inl rfl
  · have near := (sameNode_iff.mp equal).1
    rw [ReadsShared] at reads
    rw [List.forall₂_iff_zip] at near reads ⊢
    refine ⟨near.1, fun {child child'} member => ?_⟩
    rcases reads.2 member with one | ⟨free, hashes⟩
    · exact .inl one
    · exact (near.2 member).imp_right fun equal => ⟨free, equal, hashes⟩

theorem sameNode_reusable {dag : Dag} {left right : NodeRef} (equal : sameNode hasher dag left right = true)
    (free : reusable dag (dag.node left) = true) : reusable dag (dag.node right) = true := by
  rw [← (Near.data (.inr equal)).reusable ((sameNode_iff.mp equal).1.imp fun _ _ => Near.data)]
  exact free

/-! ### Images of equal nodes -/

theorem sameData_iff {dag : Dag} {node node' original original' : OperatorNode}
    (same : SameData hasher dag node original) (same' : SameData hasher dag node' original') :
    sameData hasher dag node node' = true ↔ sameData hasher dag original original' = true := by
  rw [same'.swap]
  constructor
  · exact fun equal => sameData_symm (same.swap.mp (sameData_symm equal))
  · exact fun equal => sameData_symm (same.swap.mpr (sameData_symm equal))

theorem same_resultKind_self (kind : OperatorResultKind) : same kind kind = true := by
  cases kind <;> rfl

/-- A node of the table that is, or equals, the image of a node of the input. -/
def Stands (hasher : Hasher H) (table : InternTable H) (node child : NodeRef) : Prop :=
  ∃ image, table.visited child = some image ∧ Near hasher table.dag node image

section Images
variable (holds : Table hasher input table)
include holds

theorem Table.sameData_images (known : table.visited left = some first) (known' : table.visited right = some second)
    (apart : left ≠ right) : Near hasher table.dag first second →
    sameData hasher input (input.node left) (input.node right) = true := by
  have image := holds.images known
  have image' := holds.images known'
  rw [← sameData_grow holds.grown (fun _ => input.refs_size) fun _ => input.refs_size,
    ← sameData_iff image.data image'.data]
  rintro (rfl | equal)
  · rcases holds.found known known' apart with found | found
    · exact image.data.swap.mpr found.2
    · exact image'.data.swap.mpr found.2
  · exact (Bool.and_eq_true_iff.mp (sameNode_iff.mp equal).2).2

theorem Table.near_iff (derived : KindsDerived input) (known : table.visited left = some first)
    (known' : table.visited right = some second) : Near hasher table.dag first second ↔ Near hasher input left right := by
  induction left using Nat.strongRecOn generalizing right first second with
  | ind left ih =>
    have image := holds.images known
    have image' := holds.images known'
    have below (child : NodeRef) (reads : child ∈ input.children left) (child' : NodeRef) (node node' : NodeRef)
        (made : Stands hasher table node child) (made' : Stands hasher table node' child') :
        Near hasher table.dag node node' ↔ Near hasher input child child' := by
      obtain ⟨copy, here, near⟩ := made
      obtain ⟨copy', here', near'⟩ := made'
      rw [← ih child (input.child_lt reads) here here']
      exact ⟨fun both => (near.symm.trans both).trans near', fun both => (near.trans both).trans near'.symm⟩
    constructor
    · intro near
      by_cases one : left = right
      · exact .inl one
      · right
        have data := holds.sameData_images known known' one near
        rw [sameNode_iff, sameFields, Bool.and_eq_true]
        refine ⟨?_, ?_, data⟩
        · have both : List.Forall₂ (Near hasher table.dag) (table.dag.children first) (table.dag.children second) := by
            rcases near with rfl | equal
            · exact List.forall₂_same.mpr fun _ _ => .inl rfl
            · exact (sameNode_iff.mp equal).1
          refine forall₂_trans_mem (fun child reads node child' made near' => ?_) image.children.flip
            (forall₂_trans_mem (T := fun node child' => ∃ node', Near hasher table.dag node node' ∧
              Stands hasher table node' child')
              (fun _ _ node' _ near made' => ⟨node', near, made'⟩) both image'.children)
          obtain ⟨node', near', made'⟩ := near'
          exact (below child reads child' node node' made made').mp near'
        · rw [← image.kind derived, ← image'.kind derived, near.kind]
          exact same_resultKind_self _
    · rintro (rfl | equal)
      · exact .inl (Option.some.inj (known.symm.trans known'))
      · right
        rw [sameNode_iff, sameFields, Bool.and_eq_true] at equal ⊢
        refine ⟨?_, ?_, ?_⟩
        · refine forall₂_trans_mem (fun node _ child node' made near' => ?_) image.children
            (forall₂_trans_mem (T := fun child node' => child ∈ input.children left ∧ ∃ child',
              Near hasher input child child' ∧ Stands hasher table node' child')
              (fun child reads child' _ near made' => ⟨reads, child', near, made'⟩) equal.1 image'.children.flip)
          obtain ⟨reads, child', near', made'⟩ := near'
          exact (below child reads child' node node' made made').mpr near'
        · rw [image.kind derived, image'.kind derived]
          exact equal.2.1
        · rw [sameData_iff image.data image'.data, sameData_grow holds.grown (fun _ => input.refs_size) fun _ =>
            input.refs_size]
          exact equal.2.2

theorem Table.reusable_image (known : table.visited left = some first) :
    reusable table.dag (table.dag.node first) = reusable input (input.node left) := by
  have image := holds.images known
  exact image.data.reusable (image.children.imp fun _ _ stands => holds.alike.data stands)

theorem Table.images_iff (derived : KindsDerived input) (known : table.visited left = some first)
    (known' : table.visited right = some second) : first = second ↔ Shares hasher input left right := by
  have near := holds.near_iff derived known known'
  have hash := (holds.images known).hashed derived
  have hash' := (holds.images known').hashed derived
  constructor
  · rintro rfl
    rcases near.mp (.inl rfl) with one | equal
    · exact .inl one
    · by_cases one : left = right
      · exact .inl one
      · have free : reusable table.dag (table.dag.node first) = true :=
          (holds.found known known' one).elim (·.1) (·.1)
        exact .inr ⟨(holds.reusable_image known).symm.trans free, equal, hash.symm.trans hash'⟩
  · rintro (rfl | ⟨free, equal, hashes⟩)
    · exact Option.some.inj (known.symm.trans known')
    · rcases near.mpr (.inr equal) with one | equal'
      · exact one
      · have here : reusable table.dag (table.dag.node first) = true := (holds.reusable_image known).trans free
        have there : reusable table.dag (table.dag.node second) = true := sameNode_reusable equal' here
        have listed := (holds.images known).listed
        have listed' := (holds.images known').listed
        unfold Listed at listed listed'
        rw [hash, hashes, ← hash'] at listed
        exact holds.single listed listed' here there equal'

end Images

/-! ### Whole workloads -/

section Workload
variable {Id : Type} {roots : List (Id × NodeRef)} [DecidableEq H]

/-- A node of the workload. -/
def Reached (input : Dag) (roots : List (Id × NodeRef)) (ref : NodeRef) : Prop :=
  ∃ root ∈ roots, input.Reaches root.2 ref

theorem visited_of_reached {ref : NodeRef} (reached : Reached input roots ref) :
    ∃ image, (shareCommonSubDags hasher input roots).2.visited ref = some image := by
  obtain ⟨holds, visited⟩ := shareCommonSubDags_kept hasher input roots
  obtain ⟨root, member, reaches⟩ := reached
  induction reaches with
  | refl =>
    obtain ⟨shared, _, _, known⟩ := mem_of_forall₂ visited root member
    exact ⟨shared.2, known⟩
  | tail _ reads ih =>
    obtain ⟨image, known⟩ := ih
    obtain ⟨_, _, image', known', _⟩ := mem_of_forall₂ (holds.images known).children.flip _ reads
    exact ⟨image', known'⟩

/-- Nodes of the workload that became one may be shared, and their children became one pair by pair. -/
def MergesOneInput (hasher : Hasher H) (input : Dag) (roots : List (Id × NodeRef)) : Prop :=
  ∀ left right node, Reached input roots left → Reached input roots right → left ≠ right →
    (shareCommonSubDags hasher input roots).2.visited left = some node →
    (shareCommonSubDags hasher input roots).2.visited right = some node →
    (reusable input (input.node left) = true ∧ reusable input (input.node right) = true) ∧
      List.Forall₂ (fun child child' => ∃ image,
          (shareCommonSubDags hasher input roots).2.visited child = some image ∧
          (shareCommonSubDags hasher input roots).2.visited child' = some image)
        (input.children left) (input.children right)

/-- Merged nodes read one input exactly where all equal nodes that may be shared read nodes that may be too. -/
theorem merges_one_input_iff (derived : KindsDerived input) : MergesOneInput hasher input roots ↔
    ∀ left right, Reached input roots left → Reached input roots right → left ≠ right →
      Shares hasher input left right → ReadsShared hasher input left right := by
  have holds := (shareCommonSubDags_kept hasher input roots).1
  constructor
  · intro merges left right reached reached' apart shares
    obtain ⟨node, known⟩ := @visited_of_reached _ hasher _ _ roots _ _ reached
    obtain ⟨node', known'⟩ := @visited_of_reached _ hasher _ _ roots _ _ reached'
    obtain rfl := (holds.images_iff derived known known').mpr shares
    refine (merges left right node reached reached' apart known known').2.imp fun child child' one => ?_
    obtain ⟨image, here, there⟩ := one
    exact ((holds.images_iff derived here there).mp rfl).imp_right fun shares => ⟨shares.1, shares.2.2⟩
  · intro reads left right node reached reached' apart known known'
    have shares := (holds.images_iff derived known known').mp rfl
    obtain ⟨free, equal, _⟩ := shares.resolve_left apart
    refine ⟨⟨free, sameNode_reusable equal free⟩, ?_⟩
    refine forall₂_imp_mem (fun child member child' member' one => ?_)
      (shares.children (reads left right reached reached' apart shares))
    obtain ⟨root, listed, reaches⟩ := reached
    obtain ⟨root', listed', reaches'⟩ := reached'
    obtain ⟨image, here⟩ := @visited_of_reached _ hasher _ _ roots _ _ ⟨root, listed, reaches.tail member⟩
    obtain ⟨image', there⟩ := @visited_of_reached _ hasher _ _ roots _ _ ⟨root', listed', reaches'.tail member'⟩
    obtain rfl := (holds.images_iff derived here there).mpr one
    exact ⟨image, here, there⟩

end Workload

/-! ### A distinct over a limit, written twice -/

def printed : Hasher String where
  text value := some (value.debug ⟨id, fun _ => "", toString⟩)
  hash text below := below.foldl (· ++ ·) text

/-- Two limits of one scan, a distinct over the first, and one over the other node given. -/
def distincts (limit : NodeRef) : Dag :=
  let fields : List SchemaField := [.ofPlain "x" .int64 true]
  let node (op : NonASAPOp NodeRef) : OperatorNode :=
    ⟨.nonASAP op, .relation, .new fields, none, none, .notMaterialized⟩
  .ofNodes [node (.scan (.table "t") [] (.new fields)), node (.limit (some 1) 0 .none 0),
    node (.limit (some 1) 0 .none 0), node (.dedup [] 1), node (.dedup [] limit)]

theorem distincts_derived {limit : NodeRef} (size : (distincts limit).nodes.length = 5)
    (kinds : ∀ ref < 5, ((distincts limit).node ref).resultKind =
      (distincts limit).outputKind ((distincts limit).node ref).operator) : KindsDerived (distincts limit) := by
  intro ref
  by_cases inside : ref < 5
  · exact kinds ref inside
  · have missing : (distincts limit).node ref = default := by
      rw [Dag.node, List.getElem?_eq_none (size ▸ Nat.le_of_not_lt inside)]
      rfl
    rw [missing]
    rfl

theorem distincts_inside {limit ref : NodeRef} (reached : Reached (distincts limit) [(0, 3), (1, 4)] ref) : ref < 5 := by
  obtain ⟨root, member, reaches⟩ := reached
  have below : ∀ root ∈ [(0, 3), (1, 4)], root.2 < 5 := by decide
  exact Nat.lt_of_le_of_lt reaches.le (below root member)

/-- Two distincts of one limit. -/
theorem merges_one_input_distincts : MergesOneInput printed (distincts 1) [(0, 3), (1, 4)] := by
  refine (merges_one_input_iff (distincts_derived (by decide) (by decide))).mpr ?_
  intro left right reached reached' apart shares
  have equal : ∀ left < 5, ∀ right < 5,
      sameFields printed (distincts 1) ((distincts 1).node left) ((distincts 1).node right) = true →
        (distincts 1).children left = (distincts 1).children right := by
    decide +kernel
  have fields := (sameNode_iff.mp (shares.resolve_left apart).2.1).2
  rw [ReadsShared, equal left (distincts_inside reached) right (distincts_inside reached') fields]
  exact List.forall₂_same.mpr fun _ _ => .inl rfl

/-- Two distincts over equal limits become one distinct, and the limits stay two. -/
theorem distincts_read_two_limits : ¬ MergesOneInput printed (distincts 2) [(0, 3), (1, 4)] := by
  intro merges
  have holds := (shareCommonSubDags_kept printed (distincts 2) [(0, 3), (1, 4)]).1
  have derived := distincts_derived (show (distincts 2).nodes.length = 5 by decide) (by decide)
  have reached : Reached (distincts 2) [(0, 3), (1, 4)] 3 := ⟨(0, 3), by decide, .refl⟩
  have reached' : Reached (distincts 2) [(0, 3), (1, 4)] 4 := ⟨(1, 4), by decide, .refl⟩
  have limits : sameNode printed (distincts 2) 1 2 = true :=
    sameNode_iff.mpr ⟨.cons (.inl rfl) .nil, by decide +kernel⟩
  have hashes : structuralHash printed (distincts 2) 1 = structuralHash printed (distincts 2) 2 := by
    rw [structuralHash_eq, structuralHash_eq]
    rfl
  have shares : Shares printed (distincts 2) 3 4 := by
    refine .inr ⟨by decide, sameNode_iff.mpr ⟨.cons (.inr limits) .nil, by decide +kernel⟩, ?_⟩
    rw [structuralHash_eq, structuralHash_eq]
    exact congrArg (fun hash => printed.hash _ [hash]) hashes
  obtain ⟨node, known⟩ := @visited_of_reached _ printed _ _ _ _ _ reached
  obtain ⟨node', known'⟩ := @visited_of_reached _ printed _ _ _ _ _ reached'
  obtain rfl := (holds.images_iff derived known known').mpr shares
  have below : List.Forall₂ _ [1] [2] := (merges 3 4 node reached reached' (by decide) known known').2
  cases below with
  | cons one _ =>
    obtain ⟨image, here, there⟩ := one
    rcases (holds.images_iff derived here there).mp rfl with one | ⟨free, _⟩
    · cases one
    · exact absurd free (by decide)

end AsapPlanner.Sharing
