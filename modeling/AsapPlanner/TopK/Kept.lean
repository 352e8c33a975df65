import AsapPlanner.Expressions.PerInput
import AsapPlanner.TopK.Implemented

/-!
What an implemented node keeps of the node: the names and types of its columns, whether it reads time
series only, and what ranks it, except that an implemented top-k is rows like others.
-/

namespace AsapPlanner.TopK
open Rust Ir Construction Canonical Traversal

/-! ### Names and types -/

def shape (schema : Schema) : List (String × FieldDataType) × Option ColumnId :=
  (schema.fields.map fun field => (field.name, field.dtype), schema.timeIndex)

def columnRanked (d : Derivation) (schema : Schema) : RankedBy → Checked ColumnId
  | .topK reduction => .ok (groupKeys reduction).length
  | .aggregate (.reduce _) => .ok (schema.fields.length - 1)
  | .aggregate .perEntity | .rows =>
    match resolveSampleValue schema with
    | some id => .ok id
    | none => .error (.invalidScalarSignature (noSampleValue d.text schema))

theorem rankedColumn_eq (d : Derivation) (dag : Dag) (child : NodeRef) :
    rankedColumn d dag child = columnRanked d (dag.node child).schema (rankedBy dag child) := by
  unfold rankedColumn columnRanked
  cases rankedBy dag child with
  | topK reduction => rfl
  | aggregate reduction => cases reduction <;> rfl
  | rows => rfl

section
variable {a b : Schema} (alike : shape a = shape b)
include alike

theorem shape_fields : a.fields.map (fun field => (field.name, field.dtype)) =
    b.fields.map fun field => (field.name, field.dtype) := (Prod.mk.inj alike).1

theorem shape_length : a.fields.length = b.fields.length := by
  have lengths := congrArg List.length (shape_fields alike)
  rwa [List.length_map, List.length_map] at lengths

theorem shape_getElem? (i : Nat) : (a.fields[i]?).map (fun field => (field.name, field.dtype)) =
    (b.fields[i]?).map fun field => (field.name, field.dtype) := by
  rw [← List.getElem?_map, ← List.getElem?_map, shape_fields alike]

theorem shape_name (i : Nat) : (a.fields[i]?).map (·.name) = (b.fields[i]?).map (·.name) := by
  have pair := congrArg (Option.map Prod.fst) (shape_getElem? alike i)
  rwa [Option.map_map, Option.map_map] at pair

theorem shape_dtype (i : Nat) : (a.fields[i]?).map (·.dtype) = (b.fields[i]?).map (·.dtype) := by
  have pair := congrArg (Option.map Prod.snd) (shape_getElem? alike i)
  rwa [Option.map_map, Option.map_map] at pair

theorem shape_columnId (name : String) : a.columnId name = b.columnId name := by
  have found (schema : Schema) : schema.columnId name =
      (schema.fields.map fun field => (field.name, field.dtype)).findIdx? fun pair => pair.1 == name := by
    rw [List.findIdx?_map]
    rfl
  rw [found, found, shape_fields alike]

theorem shape_resolveSampleValue : resolveSampleValue a = resolveSampleValue b := by
  have typed (schema : Schema) (i : Nat) : (schema.fields[i]?).any isNumeric =
      ((schema.fields[i]?).map (·.dtype)).any fun dtype => isNumeric ⟨"", dtype, false, none⟩ := by
    cases schema.fields[i]? <;> rfl
  have numeric (i : Nat) : (a.fields[i]?).any isNumeric = (b.fields[i]?).any isNumeric := by
    rw [typed, typed, shape_dtype alike]
  unfold resolveSampleValue
  rw [shape_columnId alike, shape_length alike, (Prod.mk.inj alike).2]
  simp only [numeric]

theorem shape_columnRanked {d : Derivation} {ranked : RankedBy} {value : ColumnId} :
    columnRanked d a ranked = .ok value ↔ columnRanked d b ranked = .ok value := by
  have sample : columnRanked d a .rows = .ok value ↔ columnRanked d b .rows = .ok value := by
    unfold columnRanked
    rw [shape_resolveSampleValue alike]
    cases resolveSampleValue b with
    | some id => exact Iff.rfl
    | none => constructor <;> (intro here; cases here)
  cases ranked with
  | topK reduction => exact Iff.rfl
  | aggregate reduction =>
    cases reduction with
    | perEntity => exact sample
    | reduce keys => rw [columnRanked, columnRanked, shape_length alike]
  | rows => exact sample

end

def itemsOf (columns : List (String × FieldDataType)) (series : Bool) (keys : List ColumnId)
    (value : ColumnId) : List ColumnId :=
  (columns.zipIdx.filterMap fun (column, index) =>
    if (!series || same column.2 (.plain .utf8)) && index ≠ value && !keys.contains index &&
      column.1 ≠ promqlSeriesIdentity then some index else none) ++
  match (List.range columns.length).filter fun index =>
      (columns[index]?).any fun column => column.1 = promqlSeriesIdentity with
    | [index] => if keys.contains index then [] else [index]
    | _ => []

theorem items_shape (dag : Dag) (child : NodeRef) (keys : List ColumnId) (value : ColumnId) :
    items id dag child keys value =
      itemsOf (shape (dag.node child).schema).1 (readsOnlyTimeSeries dag child) keys value := by
  unfold items itemsOf shape
  dsimp only
  rw [List.zipIdx_map, List.filterMap_map, List.length_map]
  simp only [List.getElem?_map, Option.any_map]
  rfl

theorem rankedColumns_alike {dag later : Dag} {child other : NodeRef} {keys : List ColumnId} {value : ColumnId}
    (alike : shape (later.node other).schema = shape (dag.node child).schema)
    (series : readsOnlyTimeSeries later other = readsOnlyTimeSeries dag child) :
    rankedColumns later other keys value = rankedColumns dag child keys value := by
  unfold rankedColumns
  rw [items_shape, items_shape, alike, series]

/-! ### Derived schemas -/

/-- A plan's node and the node of the store that it became: the same operator over what its children became,
or a projection for a top-k, with the same names and types. -/
inductive Carries (input store : Dag) : NodeRef → NodeRef → Prop
  | remade {ref done : NodeRef} (image : NodeRef → NodeRef)
    (operator : (store.node done).operator = (input.node ref).operator.mapChildren image)
    (alike : shape (store.node done).schema = shape (input.node ref).schema)
    (children : ∀ child ∈ input.children ref, Carries input store child (image child)) :
    Carries input store ref done
  | ranked {ref done limited : NodeRef} {cols : List (ProjectItem NodeRef)}
    (topK : hasTopK (input.node ref) = true)
    (operator : (store.node done).operator = .nonASAP (.project cols none limited))
    (alike : shape (store.node done).schema = shape (input.node ref).schema) :
    Carries input store ref done

/-- The types of computed columns and the schemas of other operators depend on the names and types of the
inputs' columns, and do not change as the store grows. -/
structure Lawful (d : Derivation) : Prop where
  scalarType : ∀ {expr : ScalarExpr NodeRef} (image : NodeRef → NodeRef) {a b : Schema} {of of' : DataType × Bool},
    shape b = shape a → d.scalarType expr a = .ok of → d.scalarType (expr.walk.image image) b = .ok of' →
      of'.1 = of.1
  grown : ∀ {dag later : Dag} {op : Operator NodeRef}, later.Extends dag →
    (∀ held ∈ op.children ++ op.held.toList, held < dag.size) → d.others later op = d.others dag op
  others : ∀ {input store : Dag} {op : Operator NodeRef} {image : NodeRef → NodeRef} {schema schema' : Schema},
    (∀ child ∈ op.children, Carries input store child (image child)) → d.others input op = .ok schema →
      d.others store (op.mapChildren image) = .ok schema' → shape schema' = shape schema

/-- Every node has the schema derived for its operator, up to the names and qualifiers it was given; the time
column of a top-k is the one its names say. -/
structure Derived (d : Derivation) (input : Dag) : Prop where
  schema : ∀ ref, ref < input.size → ∃ schema, outputSchema d input (input.node ref).operator = .ok schema ∧
    (input.node ref).schema.fields.map (·.dtype) = schema.fields.map (·.dtype) ∧
    (hasTopK (input.node ref) = false → (input.node ref).schema.timeIndex = schema.timeIndex)
  ranked : ∀ ref, ref < input.size → hasTopK (input.node ref) = true →
    (input.node ref).schema.timeIndex = (input.node ref).schema.fields.findIdx? fun field => field.name = "ts"

theorem Carries.alike {input store : Dag} {ref done : NodeRef} (carries : Carries input store ref done) :
    shape (store.node done).schema = shape (input.node ref).schema := by
  cases carries <;> assumption

theorem shape_eq {a b : Schema} (names : a.fields.map (·.name) = b.fields.map (·.name))
    (types : a.fields.map (·.dtype) = b.fields.map (·.dtype)) (time : a.timeIndex = b.timeIndex) :
    shape a = shape b := by
  have pairs (schema : Schema) : schema.fields.map (fun field => (field.name, field.dtype)) =
      (schema.fields.map (·.name)).zip (schema.fields.map (·.dtype)) := by
    rw [List.zip_map']
  unfold shape
  rw [pairs, pairs, names, types, time]

theorem shape_types {a b : Schema} (alike : shape a = shape b) :
    a.fields.map (·.dtype) = b.fields.map (·.dtype) := by
  have types := congrArg (List.map Prod.snd) (shape_fields alike)
  rwa [List.map_map, List.map_map] at types

theorem bareField_alike {a b : Schema} (alike : shape b = shape a) (expr : ScalarExpr NodeRef)
    (image : NodeRef → NodeRef) :
    (bareField b (expr.walk.image image)).map (fun field => (field.name, field.dtype)) =
      (bareField a expr).map fun field => (field.name, field.dtype) := by
  cases expr with
  | column id =>
    exact shape_getElem? alike id
  | _ => simp [ScalarExpr.walk, bareField]

theorem bareField_cases {a b : Schema} (alike : shape b = shape a) (expr : ScalarExpr NodeRef)
    (image : NodeRef → NodeRef) :
    (bareField a expr = none ∧ bareField b (expr.walk.image image) = none) ∨
      ∃ field field', bareField a expr = some field ∧ bareField b (expr.walk.image image) = some field' ∧
        field'.name = field.name ∧ field'.dtype = field.dtype := by
  have same := bareField_alike alike expr image
  cases found : bareField a expr with
  | none =>
    rw [found, Option.map_none, Option.map_eq_none_iff] at same
    exact .inl ⟨rfl, same⟩
  | some field =>
    rw [found, Option.map_some, Option.map_eq_some_iff] at same
    obtain ⟨field', found', pair⟩ := same
    obtain ⟨name, dtype⟩ := Prod.mk.inj pair
    exact .inr ⟨field, field', rfl, found', name, dtype⟩

section
variable {d : Derivation} {a b : Schema} (alike : shape b = shape a)

include alike in
theorem defaultProjName_alike (expr : ScalarExpr NodeRef) (image : NodeRef → NodeRef) (i : Nat) :
    defaultProjName (expr.walk.image image) i b = defaultProjName expr i a := by
  unfold defaultProjName
  rcases bareField_cases alike expr image with ⟨none, none'⟩ | ⟨field, field', some, some', name, _⟩
  · rw [none, none']
  · rw [some, some']
    exact name

include alike in
theorem projectField_dtype (lawful : Lawful d) (image : NodeRef → NodeRef) {qualifier qualifier' : Option String}
    {item item' : ProjectItem NodeRef × Nat} {field field' : SchemaField}
    (expr : item'.1.expr = item.1.expr.walk.image image)
    (derived : projectField d a qualifier item = .ok field)
    (derived' : projectField d b qualifier' item' = .ok field') : field'.dtype = field.dtype := by
  obtain ⟨own, first, derived⟩ := bind_eq_ok derived
  obtain ⟨own', second, derived'⟩ := bind_eq_ok derived'
  cases derived
  cases derived'
  show own'.dtype = own.dtype
  rw [expr] at second
  unfold itemField at first second
  rcases bareField_cases alike item.1.expr image with ⟨none, none'⟩ | ⟨field, field', some, some', _, dtype⟩
  · rw [none] at first
    rw [none'] at second
    obtain ⟨of, typed, rfl⟩ := Expressions.map_eq_ok first
    obtain ⟨of', typed', rfl⟩ := Expressions.map_eq_ok second
    exact congrArg FieldDataType.plain (lawful.scalarType image alike typed typed')
  · rw [some] at first
    rw [some'] at second
    cases first
    cases second
    exact dtype

include alike in
theorem projectSchema_types (lawful : Lawful d) (image : NodeRef → NodeRef) {qualifier qualifier' : Option String}
    {cols cols' : List (ProjectItem NodeRef)} {schema schema' : Schema}
    (exprs : List.Forall₂ (fun item item' => item'.expr = item.expr.walk.image image) cols cols')
    (derived : projectSchema d a cols qualifier = .ok schema)
    (derived' : projectSchema d b cols' qualifier' = .ok schema') :
    schema'.fields.map (·.dtype) = schema.fields.map (·.dtype) := by
  obtain ⟨fields, listed, derived⟩ := bind_eq_ok derived
  obtain ⟨fields', listed', derived'⟩ := bind_eq_ok derived'
  cases derived
  cases derived'
  show fields'.map _ = fields.map _
  have each := mapM_eq_ok.mp listed
  have each' := mapM_eq_ok.mp listed'
  refine List.ext_getElem? fun i => ?_
  rw [List.getElem?_map, List.getElem?_map]
  have lengths := each.length_eq
  have lengths' := each'.length_eq
  rw [List.length_zipIdx] at lengths lengths'
  have both := exprs.length_eq
  by_cases inside : i < cols.length
  · have inside' : i < cols'.length := both ▸ inside
    have found := List.getElem?_eq_getElem (lengths ▸ inside)
    have found' := List.getElem?_eq_getElem (lengths' ▸ inside')
    have here : cols.zipIdx[i]? = some (cols[i], i) := by
      rw [List.getElem?_zipIdx, List.getElem?_eq_getElem inside, Option.map_some, Nat.zero_add]
    have here' : cols'.zipIdx[i]? = some (cols'[i], i) := by
      rw [List.getElem?_zipIdx, List.getElem?_eq_getElem inside', Option.map_some, Nat.zero_add]
    have expr := getElem?_of_forall₂ exprs (List.getElem?_eq_getElem inside) (List.getElem?_eq_getElem inside')
    rw [found, found']
    exact congrArg some (projectField_dtype alike lawful image expr (getElem?_of_forall₂ each here found)
      (getElem?_of_forall₂ each' here' found'))
  · have missing : fields[i]? = none := List.getElem?_eq_none (by omega)
    have missing' : fields'[i]? = none := List.getElem?_eq_none (by omega)
    rw [missing, missing']

theorem projectSchema_time {cols : List (ProjectItem NodeRef)} {qualifier : Option String} {schema : Schema}
    (derived : projectSchema d a cols qualifier = .ok schema) :
    schema.timeIndex = (schema.fields.map (·.name)).findIdx? (· = "ts") := by
  obtain ⟨fields, _, derived⟩ := bind_eq_ok derived
  cases derived
  show fields.findIdx? _ = (fields.map _).findIdx? _
  rw [List.findIdx?_map]
  rfl

theorem projectSchema_names {cols : List (ProjectItem NodeRef)} {qualifier : Option String} {schema : Schema}
    (derived : projectSchema d a cols qualifier = .ok schema) :
    schema.fields.map (·.name) =
      cols.zipIdx.map fun item => item.1.alias.getD (defaultProjName item.1.expr item.2 a) := by
  rw [← List.forall₂_eq_eq_eq, List.forall₂_map_left_iff, List.forall₂_map_right_iff]
  exact (projectSchema_fields derived).flip

include alike in
theorem projectSchema_alike (lawful : Lawful d) (image : NodeRef → NodeRef) {qualifier : Option String}
    {cols : List (ProjectItem NodeRef)} {schema schema' : Schema}
    (derived : projectSchema d a cols qualifier = .ok schema)
    (derived' : projectSchema d b (cols.map fun item => item.walk.image image) qualifier = .ok schema') :
    shape schema' = shape schema := by
  have exprs : List.Forall₂ (fun item item' : ProjectItem NodeRef => item'.expr = item.expr.walk.image image) cols
      (cols.map fun item => item.walk.image image) := by
    rw [List.forall₂_map_right_iff]
    exact List.forall₂_same.mpr fun item _ => rfl
  have names : schema'.fields.map (·.name) = schema.fields.map (·.name) := by
    have each := projectSchema_names derived
    have each' := projectSchema_names derived'
    rw [each, each', List.zipIdx_map, List.map_map]
    refine List.map_congr_left fun item _ => ?_
    show item.1.alias.getD (defaultProjName (item.1.expr.walk.image image) item.2 b) = _
    rw [defaultProjName_alike alike]
  exact shape_eq names (projectSchema_types alike lawful image exprs derived derived')
    (by rw [projectSchema_time derived, projectSchema_time derived', names])

end

/-! ### Schemas over what the children became -/

section
variable {d : Derivation} (lawful : Lawful d)
include lawful

theorem outputSchema_extends {dag later : Dag} {op : Operator NodeRef} (grown : later.Extends dag)
    (inside : ∀ held ∈ op.children ++ op.held.toList, held < dag.size) :
    outputSchema d later op = outputSchema d dag op := by
  have input {child : NodeRef} (reads : child ∈ op.children) : later.node child = dag.node child :=
    grown.node (inside child (List.mem_append_left _ reads))
  cases op with
  | asap op => exact lawful.grown grown inside
  | nonASAP op =>
    cases op with
    | filter pred child | sort keys partitionBy child | limit n offset partitionBy child
    | project cols qualifier child =>
      unfold outputSchema
      dsimp only
      rw [input (List.mem_append_left _ (List.mem_singleton_self child))]
    | join kind pred left right =>
      cases kind with
      | semi | anti =>
        unfold outputSchema
        dsimp only
        rw [input (List.mem_append_left _ List.mem_cons_self)]
      | _ => exact lawful.grown grown inside
    | aggregate reduction measures names filters having child =>
      cases measures with
      | nil => exact lawful.grown grown inside
      | cons measure rest =>
        cases rest with
        | cons _ _ => cases measure <;> exact lawful.grown grown inside
        | nil =>
          cases measure with
          | topK k accuracy =>
            have reads : child ∈ (Operator.nonASAP (.aggregate reduction [.topK k accuracy] names filters having child)).children :=
              List.mem_append_left _ (List.mem_singleton_self child)
            unfold outputSchema
            dsimp only
            rw [input reads, rankedRowProjection_extends grown (inside child (List.mem_append_left _ reads))]
          | _ => exact lawful.grown grown inside
    | _ => exact lawful.grown grown inside

theorem outputSchema_alike {input store : Dag} {op : Operator NodeRef} {image : NodeRef → NodeRef}
    {schema schema' : Schema} {node : OperatorNode} (operator : node.operator = op) (plain : hasTopK node = false)
    (carries : ∀ child ∈ op.children, Carries input store child (image child))
    (derived : outputSchema d input op = .ok schema)
    (derived' : outputSchema d store (op.mapChildren image) = .ok schema') : shape schema' = shape schema := by
  cases op with
  | asap op => cases op <;> exact lawful.others carries derived derived'
  | nonASAP op =>
    cases op with
    | filter pred child | sort keys partitionBy child | limit n offset partitionBy child =>
      cases derived
      simp only [Operator.mapChildren, Operator.walk, NonASAPOp.walk, Walk.image_map, Walk.image_map2,
        Walk.image_one] at derived'
      cases derived'
      exact (carries child (List.mem_append_left _ (List.mem_singleton_self child))).alike
    | project cols qualifier child =>
      have alike := (carries child (List.mem_append_left _ (List.mem_singleton_self child))).alike
      have mapped : (Operator.nonASAP (.project cols qualifier child)).mapChildren image =
          .nonASAP (.project (cols.map fun item => item.walk.image image) qualifier (image child)) := by
        simp [Operator.mapChildren, Operator.walk, NonASAPOp.walk, Function.comp_def]
      rw [mapped] at derived'
      exact projectSchema_alike alike lawful image derived derived'
    | join kind pred left right =>
      have alike := (carries left (List.mem_append_left _ List.mem_cons_self)).alike
      have mapped : (Operator.nonASAP (.join kind pred left right)).mapChildren image =
          .nonASAP (.join kind (pred.walk.image image) (image left) (image right)) := by
        simp [Operator.mapChildren, Operator.walk, NonASAPOp.walk]
      rw [mapped] at derived'
      cases kind with
      | semi | anti =>
        cases derived
        cases derived'
        exact alike
      | _ => exact lawful.others carries derived (mapped ▸ derived')
    | aggregate reduction measures names filters having child =>
      unfold hasTopK at plain
      rw [operator] at plain
      cases measures with
      | nil => exact lawful.others carries derived derived'
      | cons measure rest =>
        cases rest with
        | cons _ _ => cases measure <;> exact lawful.others carries derived derived'
        | nil =>
          cases measure with
          | topK k accuracy => cases plain
          | _ => exact lawful.others carries derived derived'
    | _ => exact lawful.others carries derived derived'

omit lawful in
theorem retainNames_shape {previous retained derived schema : Schema}
    (types : retained.fields.map (·.dtype) = previous.fields.map (·.dtype))
    (time : retained.timeIndex = previous.timeIndex) (alike : shape derived = shape previous)
    (run : retainNames previous retained derived = .ok schema) : shape schema = shape retained := by
  unfold retainNames at run
  dsimp only at run
  split at run
  · cases run
  · cases run
    have lengths : previous.fields.length = retained.fields.length := by
      have counts := congrArg List.length types
      rw [List.length_map, List.length_map] at counts
      exact counts.symm
    refine shape_eq (List.ext_getElem? fun i => ?_) (Eq.trans ?_ ((shape_types alike).trans types.symm))
      ((Prod.mk.inj alike).2.trans time.symm)
    · dsimp only
      rw [List.map_map, List.getElem?_map, List.getElem?_map, List.getElem?_zipIdx, Nat.zero_add]
      have same := shape_name alike i
      cases found : derived.fields[i]? with
      | none =>
        rw [found, Option.map_none] at same
        have missing := List.getElem?_eq_none_iff.mp (Option.map_eq_none_iff.mp same.symm)
        rw [List.getElem?_eq_none (lengths ▸ missing)]
        rfl
      | some field =>
        rw [found, Option.map_some] at same
        obtain ⟨own, before, name⟩ := Option.map_eq_some_iff.mp same.symm
        have inside := (List.getElem?_eq_some_iff.mp before).1
        rw [List.getElem?_eq_getElem (lengths ▸ inside)]
        dsimp only [Option.map_some, Function.comp_def]
        rw [before, List.getElem?_eq_getElem (lengths ▸ inside)]
        dsimp only
        split
        · rfl
        · next kept =>
          rw [← name]
          exact congrArg some (Classical.not_not.mp kept).symm
    · dsimp only
      rw [List.map_map]
      have first : derived.fields.zipIdx.map (fun entry => entry.1.dtype) = derived.fields.map (·.dtype) :=
        (List.map_map.symm : _ = (derived.fields.zipIdx.map Prod.fst).map (·.dtype)).trans
          (congrArg (List.map (·.dtype)) (List.zipIdx_map_fst 0 derived.fields))
      rw [← first]
      refine List.map_congr_left fun entry _ => ?_
      dsimp only [Function.comp_def]
      split <;> rfl

theorem Remade.alike {input : Dag} {state : Implementing} {ref done : NodeRef} {image : NodeRef → NodeRef}
    (derived : Derived d input) (here : ref < input.size) (plain : hasTopK (input.node ref) = false)
    (remade : Remade d input state ref done image)
    (carries : ∀ child ∈ input.children ref, Carries input state.dag child (image child)) :
    shape (state.dag.node done).schema = shape (input.node ref).schema := by
  rcases remade.schema with same | ⟨middle, previous, schema, first, second, inside, derived', schema', retained⟩
  · rw [same]
  · obtain ⟨own, found, types, time⟩ := derived.schema ref here
    have held : ∀ held ∈ (input.node ref).operator.held.toList, held < input.size := fun held holds =>
      Nat.lt_trans (input.refs_lt (List.mem_append_right _ holds)) here
    have reads : ∀ held ∈ (input.node ref).operator.children ++ (input.node ref).operator.held.toList,
        held < input.size := fun held member => Nat.lt_trans (input.refs_lt member) here
    rw [outputSchema_extends lawful first reads, found] at derived'
    cases derived'
    rw [← outputSchema_extends lawful second] at schema'
    · exact retainNames_shape types (time plain)
        (outputSchema_alike lawful rfl plain carries found schema') retained
    · intro read member
      rw [Operator.children_mapChildren, Operator.held_mapChildren] at member
      rcases List.mem_append.mp member with child | holds
      · obtain ⟨own, listed, rfl⟩ := List.mem_map.mp child
        exact inside own listed
      · exact Nat.lt_of_lt_of_le (held read holds) first.size_le

end

/-! ### What ranks an implemented node -/

/-- Whether what ranks a node, below renamings, filters and state readouts, is a top-k that implementing the plan
replaces. -/
def overTopK (input : Dag) (start : Cache NodeRef NodeRef) (ref : NodeRef) : Bool :=
  let through (child : NodeRef) : Bool := if _below : child < ref then overTopK input start child else false
  if (start ref).isSome then false
  else match (input.node ref).operator with
    | .nonASAP (.project cols _ child) => isRenaming cols (input.node child).schema && through child
    | .nonASAP (.filter _ child) | .asap (.finalizeExactAccumulator child) | .asap (.summaryEstimate child _) =>
      through child
    | .nonASAP (.aggregate _ [.topK _ _] _ _ _ _) => true
    | _ => false

/-- What an implemented node keeps of its node. -/
structure Kept (input : Dag) (start : Cache NodeRef NodeRef) (store : Dag) (ref done : NodeRef) : Prop where
  carries : Carries input store ref done
  series : readsOnlyTimeSeries store done = readsOnlyTimeSeries input ref
  ranked : rankedBy store done = if overTopK input start ref then .rows else rankedBy input ref

theorem Kept.same {input store : Dag} {start : Cache NodeRef NodeRef} {ref : NodeRef} (grown : store.Extends input)
    (here : ref < input.size) (begun : start ref = some ref) : Kept input start store ref ref where
  carries := by
    clear begun
    induction ref using Nat.strongRecOn with
    | ind ref ih =>
      refine .remade id ?_ (by rw [grown.node here]) fun child reads => ?_
      · rw [grown.node here, Operator.mapChildren_id]
      · have below := input.child_lt reads
        exact ih child below (Nat.lt_trans below here)
  series := readsOnlyTimeSeries_extends grown here
  ranked := by
    rw [rankedBy_extends grown here, overTopK, begun]
    rfl

theorem isRenaming_alike {a b : Schema} (alike : shape b = shape a) (cols : List (ProjectItem NodeRef))
    (image : NodeRef → NodeRef) :
    isRenaming (cols.map fun item => item.walk.image image) b = isRenaming cols a := by
  unfold isRenaming
  rw [List.length_map, shape_length alike, List.zipIdx_map, List.all_map]
  congr 1
  refine List.all_congr rfl fun item => ?_
  show isColumn (item.1.expr.walk.image image) item.2 = isColumn item.1.expr item.2
  cases item.1.expr <;> simp [ScalarExpr.walk, isColumn]

theorem Remade.kept {d : Derivation} {input : Dag} {start : Cache NodeRef NodeRef} {state : Implementing}
    {ref done : NodeRef} {image : NodeRef → NodeRef} (fresh : start ref = none)
    (plain : hasTopK (input.node ref) = false) (remade : Remade d input state ref done image)
    (alike : shape (state.dag.node done).schema = shape (input.node ref).schema)
    (children : ∀ child ∈ input.children ref, Kept input start state.dag child (image child)) :
    Kept input start state.dag ref done := by
  have operator := remade.operator
  have same : state.dag.children done = (input.children ref).map image := by
    show (state.dag.node done).operator.children = _
    rw [operator, Operator.children_mapChildren]
    rfl
  have below {child : NodeRef} (reads : child ∈ input.children ref) : child < ref ∧ image child < done :=
    ⟨input.child_lt reads, state.dag.child_lt (same ▸ List.mem_map_of_mem reads)⟩
  refine ⟨.remade image operator alike fun child reads => (children child reads).carries, ?_, ?_⟩
  · have each : ((state.dag.children done).all fun child =>
        if _below : child < done then readsOnlyTimeSeries state.dag child else true) =
        (input.children ref).all fun child =>
          if _below : child < ref then readsOnlyTimeSeries input child else true := by
      rw [same, List.all_map, Bool.eq_iff_iff, List.all_eq_true, List.all_eq_true]
      refine forall₂_congr fun child reads => ?_
      obtain ⟨first, second⟩ := below reads
      show (if _below : image child < done then readsOnlyTimeSeries state.dag (image child) else true) = true ↔ _
      rw [dif_pos second, dif_pos first, (children child reads).series]
    rw [readsOnlyTimeSeries, readsOnlyTimeSeries, each]
    unfold OperatorNode.nonAsap
    rw [operator]
    cases (input.node ref).operator with
    | asap own => rfl
    | nonASAP own =>
      cases own with
      | scan source predicates schema => cases source <;> rfl
      | _ => rfl
  · have through {child : NodeRef} (reads : child ∈ input.children ref) :
        (if _below : image child < done then rankedBy state.dag (image child) else .rows) =
          if (if _below : child < ref then overTopK input start child else false) then .rows
          else if _below : child < ref then rankedBy input child else .rows := by
      obtain ⟨first, second⟩ := below reads
      rw [dif_pos second, dif_pos first, dif_pos first]
      exact (children child reads).ranked
    rw [rankedBy, overTopK, rankedBy, fresh, operator]
    cases op : (input.node ref).operator with
    | asap own =>
      cases own with
      | finalizeExactAccumulator child | summaryEstimate child query =>
        refine through ?_
        show child ∈ (input.node ref).operator.children
        rw [op]
        exact List.mem_cons_self
      | _ => rfl
    | nonASAP own =>
      cases own with
      | project cols qualifier child =>
        have reads : child ∈ input.children ref := by
          show child ∈ (input.node ref).operator.children
          rw [op]
          exact List.mem_append_left _ (List.mem_singleton_self child)
        have mapped : (Operator.nonASAP (.project cols qualifier child)).mapChildren image =
            .nonASAP (.project (cols.map fun item => item.walk.image image) qualifier (image child)) := by
          simp [Operator.mapChildren, Operator.walk, NonASAPOp.walk, Function.comp_def]
        rw [mapped]
        dsimp only
        rw [isRenaming_alike (children child reads).carries.alike, through reads]
        by_cases renames : isRenaming cols (input.node child).schema = true <;> simp [renames]
      | filter pred child =>
        have reads : child ∈ input.children ref := by
          show child ∈ (input.node ref).operator.children
          rw [op]
          exact List.mem_append_left _ (List.mem_singleton_self child)
        have mapped : (Operator.nonASAP (.filter pred child)).mapChildren image =
            .nonASAP (.filter (pred.walk.image image) (image child)) := by
          simp [Operator.mapChildren, Operator.walk, NonASAPOp.walk]
        rw [mapped]
        exact through reads
      | aggregate reduction measures names filters having child =>
        unfold hasTopK at plain
        rw [op] at plain
        cases measures with
        | nil => rfl
        | cons measure rest =>
          cases rest with
          | cons _ _ => cases measure <;> rfl
          | nil =>
            cases measure with
            | topK k accuracy => cases plain
            | _ => rfl
      | _ => rfl

/-! ### An implemented top-k -/

section
variable {d : Derivation} {input : Dag} {start : Cache NodeRef NodeRef} {store : Dag} {child implemented : NodeRef}
  {ref done : NodeRef} {keys : GroupKeys}

/-- A top-k keeps its columns: its names are its child's, the ranked value's apart, and where a top-k that is
replaced ranks the child, the child's sample value is what the top-k ranks by. -/
structure Restored (d : Derivation) (input : Dag) (start : Cache NodeRef NodeRef) (ref : NodeRef)
    (keys : GroupKeys) (child : NodeRef) : Prop where
  names : ∀ (value : ColumnId) (i : Nat) (field : SchemaField), rankedColumn d input child = .ok value →
    (input.node ref).schema.fields[i]? = some field → i = keys.keys.length ∨
      ∃ column, (rankedColumns input child keys.keys value)[i]? = some column ∧
        ((input.node child).schema.fields[column]?).map (·.name) = some field.name
  ranked : ∀ value, rankedColumn d input child = .ok value → overTopK input start child = true →
    resolveSampleValue (input.node child).schema = some value

theorem Kept.rankedColumn_iff (kept : Kept input start store child implemented) {value value' : ColumnId}
    (ranked : rankedColumn d input child = .ok value) (ranked' : rankedColumn d store implemented = .ok value') :
    value' = value ↔
      (overTopK input start child = true → resolveSampleValue (input.node child).schema = some value) := by
  rw [rankedColumn_eq] at ranked ranked'
  rw [shape_columnRanked kept.carries.alike, kept.ranked] at ranked'
  by_cases atop : overTopK input start child = true
  · rw [if_pos atop] at ranked'
    have sample : resolveSampleValue (input.node child).schema = some value' := by
      unfold columnRanked at ranked'
      cases found : resolveSampleValue (input.node child).schema with
      | none =>
        rw [found] at ranked'
        cases ranked'
      | some id =>
        rw [found] at ranked'
        cases ranked'
        rfl
    rw [sample]
    exact ⟨fun same _ => congrArg some same, fun same => Option.some.inj (same atop)⟩
  · rw [if_neg atop] at ranked'
    cases ranked.symm.trans ranked'
    exact ⟨fun _ here => absurd here atop, fun _ => rfl⟩

theorem Chain.answers_iff_restored {k : Nat} {sorted limited : NodeRef} {value value' : ColumnId} {field : SchemaField}
    {cols : List (ProjectItem NodeRef)} (kept : Kept input start store child implemented)
    (ranked : rankedColumn d input child = .ok value)
    (chain : Chain d store (input.node ref) keys k implemented done sorted limited value' field cols) :
    (Restored d input start ref keys child → Answers store (input.node ref) keys k value
        (rankedColumns input child keys.keys value) implemented done) ∧
      (0 < k → Answers store (input.node ref) keys k value (rankedColumns input child keys.keys value)
        implemented done → Restored d input start ref keys child) := by
  have alike := kept.carries.alike
  have columns (value : ColumnId) : rankedColumns store implemented keys.keys value =
      rankedColumns input child keys.keys value := rankedColumns_alike alike kept.series
  have same := kept.rankedColumn_iff ranked chain.ranked
  have answers : Answers store (input.node ref) keys k value (rankedColumns input child keys.keys value) implemented
      done ↔ Keeps store (input.node ref) keys k (rankedColumns input child keys.keys value) implemented value' :=
    chain.answers_iff (items id input child keys.keys value)
  constructor
  · intro restored
    obtain rfl := same.mpr (restored.ranked value ranked)
    refine answers.mpr ⟨fun i field here => ?_, .inr ?_⟩
    · rcases restored.names value' i field ranked here with place | ⟨column, listed, name⟩
      · exact .inl place
      · refine .inr ⟨column, by rw [columns]; exact listed, ?_⟩
        rw [shape_name alike]
        exact name
    · rw [columns]
  · intro positive answered
    have keeps := answers.mp answered
    have ranks : value' = value := by
      rcases keeps.columns with none | listed
      · exact absurd none (Nat.ne_of_gt positive)
      · exact (List.cons_prefix_cons.mp ((List.prefix_append_right_inj _).mp listed)).1.symm
    subst ranks
    refine ⟨fun value i field ranked' here => ?_, fun value ranked' => ?_⟩
    · cases ranked.symm.trans ranked'
      rcases keeps.names i field here with place | ⟨column, listed, name⟩
      · exact .inl place
      · rw [columns] at listed
        rw [shape_name alike] at name
        exact .inr ⟨column, listed, name⟩
    · cases ranked.symm.trans ranked'
      exact same.mp rfl

omit start in
theorem readsOnlyTimeSeries_over {dag : Dag} {ref child : NodeRef} {op : NonASAPOp NodeRef}
    (operator : (dag.node ref).operator = .nonASAP op) (inputs : op.inputs = [child])
    (scalars : op.scalarExprs.flatMap ScalarExpr.operatorRefs = []) :
    readsOnlyTimeSeries dag ref = readsOnlyTimeSeries dag child := by
  have children : dag.children ref = [child] := by
    show (dag.node ref).operator.children = _
    rw [operator]
    show op.inputs ++ _ = _
    rw [inputs, scalars]
    rfl
  have below : child < ref := dag.child_lt (children ▸ List.mem_singleton_self child)
  rw [readsOnlyTimeSeries, children]
  unfold OperatorNode.nonAsap
  rw [operator]
  cases op with
  | scan source predicates schema => cases inputs
  | _ => simp [below]

section
variable {d : Derivation} {k : Nat} {sorted limited : NodeRef} {value : ColumnId} {field : SchemaField}
  {cols : List (ProjectItem NodeRef)} (kept : Kept input start store child implemented)
  (chain : Chain d store (input.node ref) keys k implemented done sorted limited value field cols)
include kept chain

theorem Chain.types (lawful : Lawful d) {name : String} {own : Schema}
    (projected : Canonical.projectSchema d (input.node child).schema
      (keys.keys.map (Canonical.kept (input.node child).schema) ++ ⟨some name, .column value⟩ ::
        (items id input child keys.keys value).map (Canonical.kept (input.node child).schema)) none = .ok own) :
    (store.node done).schema.fields.map (·.dtype) = own.fields.map (·.dtype) := by
  obtain ⟨value', ranked, _, listed⟩ := rankedRowProjection_eq chain.columns
  cases chain.ranked.symm.trans ranked
  have sameItems : items id store implemented keys.keys value = items id input child keys.keys value := by
    rw [items_shape, items_shape, kept.carries.alike, kept.series]
  refine projectSchema_types kept.carries.alike lawful id ?_ projected chain.projectSchema
  rw [listed, sameItems]
  have bare (columns : List ColumnId) : List.Forall₂
      (fun item item' : ProjectItem NodeRef => item'.expr = item.expr.walk.image id)
      (columns.map (Canonical.kept (input.node child).schema))
      (columns.map (Canonical.kept (store.node implemented).schema)) := by
    rw [List.forall₂_map_left_iff, List.forall₂_map_right_iff]
    exact List.forall₂_same.mpr fun _ _ => rfl
  exact List.rel_append (bare _) (.cons rfl (bare _))

theorem Chain.sameNames (ranked : rankedColumn d input child = .ok value)
    (restored : Restored d input start ref keys child)
    (lengths : (store.node done).schema.fields.length = (input.node ref).schema.fields.length) :
    (store.node done).schema.fields.map (·.name) = (input.node ref).schema.fields.map (·.name) := by
  refine List.ext_getElem? fun i => ?_
  rw [List.getElem?_map, List.getElem?_map]
  cases at' : (input.node ref).schema.fields[i]? with
  | none => rw [List.getElem?_eq_none (lengths ▸ List.getElem?_eq_none_iff.mp at')]
  | some field' =>
    rw [chain.names, rankedColumns_alike kept.carries.alike kept.series]
    by_cases place : i = keys.keys.length
    · subst place
      cases chain.field.symm.trans at'
      unfold rankedColumns
      rw [List.getElem?_append_right (Nat.le_refl _), Nat.sub_self]
      exact if_pos rfl
    · rcases restored.names value i field' ranked at' with same | ⟨column, there, name⟩
      · exact absurd same place
      · rw [there, Option.bind_some, if_neg place, shape_name kept.carries.alike]
        exact name

theorem Chain.series : readsOnlyTimeSeries store done = readsOnlyTimeSeries input child := by
  calc readsOnlyTimeSeries store done
    _ = readsOnlyTimeSeries store limited := by
      refine readsOnlyTimeSeries_over chain.project rfl ?_
      show (cols.map (·.expr)).flatMap ScalarExpr.operatorRefs = []
      rw [List.flatMap_map]
      exact List.flatMap_eq_nil_iff.mpr (cols_refs chain.columns)
    _ = readsOnlyTimeSeries store sorted := readsOnlyTimeSeries_over chain.limit rfl rfl
    _ = readsOnlyTimeSeries store implemented := readsOnlyTimeSeries_over chain.sort rfl rfl
    _ = readsOnlyTimeSeries input child := kept.series

end

theorem Chain.kept {d : Derivation} {k : Nat} {accuracy : AccuracyTarget} {names : List String}
    {filters : List (Option (Predicate NodeRef))} {sorted limited : NodeRef} {value : ColumnId} {field : SchemaField}
    {cols : List (ProjectItem NodeRef)} (lawful : Lawful d) (derived : Derived d input) (here : ref < input.size)
    (fresh : start ref = none)
    (operator : (input.node ref).operator =
      .nonASAP (.aggregate (.reduce keys) [.topK k accuracy] names filters none child))
    (plain : ¬ filters.any Option.isSome = true) (kept : Kept input start store child implemented)
    (restored : Restored d input start ref keys child)
    (chain : Chain d store (input.node ref) keys k implemented done sorted limited value field cols) :
    Kept input start store ref done := by
  have topK : hasTopK (input.node ref) = true := by
    unfold hasTopK
    rw [operator]
    rfl
  obtain ⟨own, found, types, _⟩ := derived.schema ref here
  rw [operator] at found
  obtain ⟨cols', listed, projected⟩ := bind_eq_ok found
  obtain ⟨value', ranked, _, rfl⟩ := rankedRowProjection_eq listed
  obtain rfl := (kept.rankedColumn_iff ranked chain.ranked).mpr (restored.ranked value' ranked)
  have sameTypes : (store.node done).schema.fields.map (·.dtype) = (input.node ref).schema.fields.map (·.dtype) := by
    rw [types]
    exact chain.types kept lawful projected
  have lengths := congrArg List.length sameTypes
  rw [List.length_map, List.length_map] at lengths
  have sameNames := chain.sameNames kept ranked restored lengths
  have alike : shape (store.node done).schema = shape (input.node ref).schema := by
    refine shape_eq sameNames sameTypes ?_
    rw [projectSchema_time chain.projectSchema, sameNames, derived.ranked ref here topK, List.findIdx?_map]
    rfl
  refine ⟨.ranked topK chain.project alike, ?_, ?_⟩
  · have unfiltered : filters.filterMap id = [] := by
      refine List.filterMap_eq_nil_iff.mpr fun filter member => ?_
      cases filter with
      | none => rfl
      | some pred => exact absurd (List.any_eq_true.mpr ⟨some pred, member, rfl⟩) plain
    refine (chain.series kept).trans (readsOnlyTimeSeries_over operator rfl ?_).symm
    show ((filters.filterMap id ++ []).map Predicate.expr).flatMap ScalarExpr.operatorRefs = []
    rw [unfiltered]
    rfl
  · obtain ⟨_, second, third, _⟩ := chain.order
    have rows : rankedBy store limited = .rows := by
      rw [rankedBy, chain.limit]
    rw [rankedBy, chain.project]
    dsimp only
    rw [dif_pos third, rows, ite_self, overTopK, fresh, operator]
    rfl

end

end AsapPlanner.TopK
