import AsapPlanner.TopK.Kept

/-!
When the top-ks of an implemented plan are answered: exactly when each keeps its columns in the plan itself.
-/

namespace AsapPlanner.TopK
open Rust Ir Construction Canonical Traversal

variable {d : Derivation} {input : Dag}

/-! ### A plan's top-ks -/

/-- A top-k that implementing a plan reaches and replaces. -/
structure Ranks (input : Dag) (start : Cache NodeRef NodeRef) (roots : List NodeRef) (ref : NodeRef)
    (keys : GroupKeys) (k : Nat) (child : NodeRef) : Prop where
  planned : Planned input start roots ref
  operator : ∃ accuracy names filters having, (input.node ref).operator =
    .nonASAP (.aggregate (.reduce keys) [.topK k accuracy] names filters having child)

def Answered (d : Derivation) (input : Dag) (done : Implementing) (ref : NodeRef) (keys : GroupKeys) (k : Nat)
    (child : NodeRef) : Prop :=
  ∃ implementation childImplementation value, done.cache ref = some implementation ∧
    done.cache child = some childImplementation ∧ rankedColumn d input child = .ok value ∧
      Answers done.dag (input.node ref) keys k value (rankedColumns input child keys.keys value)
        childImplementation implementation

section
variable {start : Cache NodeRef NodeRef} {roots : List NodeRef} {done : Implementing}
  (lawful : Lawful d) (derived : Derived d input)
  (cached : ∀ ref done, start ref = some done → done = ref ∧ ref < input.size)
include lawful derived cached

theorem Sound.kept (sound : Sound d input start roots done) {ref implementation : NodeRef} (here : ref < input.size)
    (implemented : done.cache ref = some implementation)
    (restored : ∀ below keys k child, below ≤ ref → Ranks input start roots below keys k child →
      Restored d input start below keys child) :
    Kept input start done.dag ref implementation := by
  induction ref using Nat.strongRecOn generalizing implementation with
  | ind ref ih =>
    cases fresh : start ref with
    | some before =>
      obtain ⟨rfl, _⟩ := cached ref before fresh
      cases (sound.begun _ _ fresh).symm.trans implemented
      exact .same sound.grown here fresh
    | none =>
      have children {child image : NodeRef} (reads : child ∈ input.children ref)
          (known : done.cache child = some image) : Kept input start done.dag child image := by
        have below := input.child_lt reads
        exact ih child below (Nat.lt_trans below here) known fun other keys k child' within =>
          restored other keys k child' (Nat.le_trans within (Nat.le_of_lt below))
      cases topK : hasTopK (input.node ref) with
      | false =>
        obtain ⟨image, remade, known⟩ := sound.remade ref implementation fresh implemented topK
        have kept (child : NodeRef) (reads : child ∈ input.children ref) := children reads (known child reads)
        exact remade.kept fresh topK
          (remade.alike lawful derived here topK fun child reads => (kept child reads).carries) kept
      | true =>
        obtain ⟨keys, k, accuracy, names, filters, child, childImplementation, sorted, limited, value, field, cols,
          operator, plain, known, chain⟩ := sound.settled ref implementation fresh implemented topK
        have reads : child ∈ input.children ref := by
          show child ∈ (input.node ref).operator.children
          rw [operator]
          exact List.mem_append_left _ (List.mem_singleton_self child)
        exact chain.kept lawful derived here fresh operator plain (children reads known)
          (restored ref keys k child (Nat.le_refl ref)
            ⟨sound.planned ref implementation fresh implemented, accuracy, names, filters, none, operator⟩)

theorem Sound.answered (sound : Sound d input start roots done)
    (complete : ∀ ref, Planned input start roots ref → ∃ implementation, done.cache ref = some implementation)
    (inside : ∀ ref, Planned input start roots ref → ref < input.size) {ref : NodeRef} {keys : GroupKeys} {k : Nat}
    {child : NodeRef} (ranks : Ranks input start roots ref keys k child)
    (restored : ∀ below keys k child, below < ref → Ranks input start roots below keys k child →
      Restored d input start below keys child) :
    (Restored d input start ref keys child → Answered d input done ref keys k child) ∧
      (0 < k → Answered d input done ref keys k child → Restored d input start ref keys child) := by
  obtain ⟨planned, accuracy, names, filters, having, operator⟩ := ranks
  have here := inside ref planned
  have fresh := planned.fresh
  obtain ⟨implementation, implemented⟩ := complete ref planned
  have topK : hasTopK (input.node ref) = true := by
    unfold hasTopK
    rw [operator]
    rfl
  obtain ⟨_, _, _, _, _, _, childImplementation, sorted, limited, value', field, cols, same, _, known, chain⟩ :=
    sound.settled ref implementation fresh implemented topK
  cases operator.symm.trans same
  have reads : child ∈ input.children ref := by
    show child ∈ (input.node ref).operator.children
    rw [operator]
    exact List.mem_append_left _ (List.mem_singleton_self child)
  have below := input.child_lt reads
  have kept := sound.kept lawful derived cached (Nat.lt_trans below here) known fun other keys k child' within =>
    restored other keys k child' (Nat.lt_of_le_of_lt within below)
  obtain ⟨own, found, _⟩ := derived.schema ref here
  rw [operator] at found
  obtain ⟨_, listed, _⟩ := bind_eq_ok found
  obtain ⟨value, ranked, _⟩ := rankedRowProjection_eq listed
  have answers := chain.answers_iff_restored kept ranked
  refine ⟨fun restored => ⟨implementation, childImplementation, value, implemented, known, ranked,
    answers.1 restored⟩, fun positive answered => ?_⟩
  obtain ⟨implementation', childImplementation', value'', implemented', known', ranked', holds⟩ := answered
  cases implemented.symm.trans implemented'
  cases known.symm.trans known'
  cases ranked.symm.trans ranked'
  exact answers.2 positive holds

end

theorem run_bind {α β : Type} {m : Implement α} {next : α → Implement β} {a : α} {state later : Implementing}
    (first : m state = .ok (a, later)) : (m >>= next) state = next a later := by
  show (m state).bind (fun result => next result.1 result.2) = _
  rw [first]
  rfl

theorem build_ok {op : NonASAPOp NodeRef} {guarantee : Option AccuracyGuarantee} {state : Implementing}
    {schema : Schema} (derived : outputSchema d state.dag (.nonASAP op) = .ok schema) :
    ∃ ref later, build d op guarantee state = .ok (ref, later) := by
  unfold build
  rw [derived]
  exact ⟨_, _, rfl⟩

theorem projectSchema_ok {schema : Schema} {cols : List (ProjectItem NodeRef)} {qualifier : Option String}
    (columns : ∀ item ∈ cols, ∃ column, item.expr = .column column ∧ column < schema.fields.length) :
    ∃ projected, projectSchema d schema cols qualifier = .ok projected := by
  have fields : ∃ fields, cols.zipIdx.mapM (projectField d schema qualifier) = .ok fields := by
    refine mapM_total fun item member => ?_
    obtain ⟨column, bare, inside⟩ := columns item.1 (List.fst_mem_of_mem_zipIdx member)
    unfold projectField itemField bareField
    rw [bare]
    dsimp only
    rw [List.getElem?_eq_getElem inside]
    exact ⟨_, rfl⟩
  obtain ⟨fields, found⟩ := fields
  unfold projectSchema
  rw [found]
  exact ⟨_, rfl⟩

theorem rankedRowProjection_ok {dag : Dag} {child : NodeRef} {keys : GroupKeys} {name : String} {value : ColumnId}
    (ranked : rankedColumn d dag child = .ok value)
    (inside : ∀ key ∈ keys.keys, key < (dag.node child).schema.fields.length) :
    ∃ cols, rankedRowProjection d dag child (.reduce keys) name = .ok cols := by
  unfold rankedRowProjection
  rw [ranked]
  have all : keys.keys.find? (fun index => (dag.node child).schema.fields.length ≤ index) = none := by
    refine List.find?_eq_none.mpr fun key member => ?_
    simpa using inside key member
  simp only [bind, Except.bind, groupKeys, all]
  exact ⟨_, rfl⟩

theorem rankedRows_ok {node : OperatorNode} {keys : GroupKeys} {k : Nat} {child : NodeRef} {state : Implementing}
    {value : ColumnId} {field : SchemaField} (inside : child < state.dag.size)
    (ranked : rankedColumn d state.dag child = .ok value)
    (valueInside : value < (state.dag.node child).schema.fields.length)
    (keysInside : ∀ key ∈ keys.keys, key < (state.dag.node child).schema.fields.length)
    (named : node.schema.fields[keys.keys.length]? = some field) :
    ∃ result done, rankedRows d node keys k child state = .ok (result, done) := by
  obtain ⟨cols, listed⟩ := @rankedRowProjection_ok d state.dag child keys field.name value ranked keysInside
  obtain ⟨sorted, first, builtSort⟩ := @build_ok d (.sort [⟨.column value, false, false⟩] keys child)
    (state.dag.node child).guarantee state _ rfl
  have sort := build_added (fun held member => by
    rcases List.mem_append.mp member with reads | scalar
    · cases List.mem_singleton.mp reads
      exact inside
    · cases scalar) builtSort
  obtain ⟨limited, second, builtLimit⟩ := @build_ok d (.limit (some k) 0 keys sorted) node.guarantee first _ rfl
  have limit := build_added (fun held member => by
    rcases List.mem_append.mp member with reads | scalar
    · cases List.mem_singleton.mp reads
      rw [sort.place, sort.size]
      exact Nat.lt_succ_self _
    · cases scalar) builtLimit
  have limitSchema : (second.dag.node limited).schema = (state.dag.node child).schema := by
    rw [← Except.ok.inj limit.schema]
    exact (Except.ok.inj sort.schema).symm
  obtain ⟨projected, fields⟩ : ∃ projected,
      projectSchema d (second.dag.node limited).schema cols none = .ok projected := by
    rw [limitSchema]
    refine projectSchema_ok fun item member => ?_
    obtain ⟨value', ranked', _, rfl⟩ := rankedRowProjection_eq listed
    cases ranked.symm.trans ranked'
    rcases List.mem_append.mp member with key | rest
    · obtain ⟨column, here, rfl⟩ := List.mem_map.mp key
      exact ⟨column, rfl, keysInside column here⟩
    · rcases List.mem_cons.mp rest with rfl | other
      · exact ⟨value, rfl, valueInside⟩
      · obtain ⟨column, here, rfl⟩ := List.mem_map.mp other
        exact ⟨column, rfl, mem_items here⟩
  obtain ⟨result, done, builtProject⟩ := @build_ok d (.project cols none limited) node.guarantee second _ fields
  refine ⟨result, done, ?_⟩
  unfold rankedRows checked
  rw [run_bind rfl, run_bind (by rw [ranked]), run_bind builtSort, run_bind builtLimit, named]
  dsimp only
  rw [run_bind (by rw [listed])]
  exact builtProject

theorem implement_leaf {ref result : NodeRef} {state last : Implementing} (missing : state.cache ref = none)
    (children : input.children ref = []) (own : implementNode d input ref state = .ok (result, last)) :
    implement d input ref state = .ok (result, { last with cache := last.cache.insert ref result }) := by
  rw [implement, run_bind rfl, missing, children]
  dsimp only
  rw [run_bind rfl, run_bind own]
  rfl

theorem implement_over {ref child image result : NodeRef} {state middle last : Implementing}
    (missing : state.cache ref = none) (children : input.children ref = [child])
    (first : implement d input child state = .ok (image, middle))
    (own : implementNode d input ref middle = .ok (result, last)) :
    implement d input ref state = .ok (result, { last with cache := last.cache.insert ref result }) := by
  have below : child < ref := input.child_lt (children ▸ List.mem_singleton_self child)
  have single : [child].mapM (fun child =>
      if _below : child < ref then implement d input child else pure child) state = .ok ([image], middle) := by
    rw [List.mapM_cons, dif_pos below, run_bind first]
    rfl
  rw [implement, run_bind rfl, missing, children]
  dsimp only
  rw [run_bind single, run_bind own]
  rfl

theorem implement_single {ref result : NodeRef} {state done : Implementing}
    (run : implement d input ref state = .ok (result, done)) :
    [ref].mapM (implement d input) state = .ok ([result], done) := by
  rw [List.mapM_cons, run_bind run]
  rfl

/-! ### A top-k of a top-k -/

def overSums : Canonical.Derivation where
  text := default
  scalarType _ _ := .error (.invalidScalarSignature "computed column")
  others _ op := match op with
    | .nonASAP (.scan _ _ schema) => .ok schema
    | .nonASAP (.aggregate _ _ _ _ _ _) =>
      .ok (.new [.ofPlain "value" .utf8 false, .ofPlain "total" .float64 false])
    | _ => .error (.invalidScalarSignature "operator")

/-- `topk(1, topk(2, sum by (value) (t)))`. -/
def topOfTop : Dag :=
  let value : SchemaField := .ofPlain "value" .utf8 false
  let node (op : NonASAPOp NodeRef) (fields : List SchemaField) : OperatorNode :=
    ⟨.nonASAP op, .relation, .new fields, none, none, .notMaterialized⟩
  .ofNodes [
    node (.scan (.table "t") [] (.new [value, .ofPlain "x" .float64 false]))
      [value, .ofPlain "x" .float64 false],
    node (.aggregate (.reduce (.by [0])) [.sum (some 1)] ["total"] [none] none 0)
      [value, .ofPlain "total" .float64 false],
    node (.aggregate (.reduce (.by [])) [.topK 2 .exact] [] [none] none 1)
      [.ofPlain "topk_2" .float64 false, value],
    node (.aggregate (.reduce (.by [])) [.topK 1 .exact] [] [none] none 2)
      [.ofPlain "topk_1" .float64 false, value]]

/-- The plan so far when its sums are implemented. -/
def summed : Implementing := ⟨topOfTop, (Cache.empty.insert 0 0).insert 1 1⟩

theorem implement_summed : implement overSums topOfTop 1 ⟨topOfTop, Cache.empty⟩ = .ok (1, summed) := by
  have scan : implement overSums topOfTop 0 ⟨topOfTop, Cache.empty⟩ =
      .ok (0, ⟨topOfTop, Cache.empty.insert 0 0⟩) :=
    @implement_leaf overSums topOfTop 0 0 ⟨topOfTop, Cache.empty⟩ ⟨topOfTop, Cache.empty⟩ rfl rfl rfl
  exact @implement_over overSums topOfTop 1 0 0 1 ⟨topOfTop, Cache.empty⟩ _ ⟨topOfTop, Cache.empty.insert 0 0⟩
    rfl rfl scan rfl

theorem rankedColumn_summed : rankedColumn overSums topOfTop 1 = .ok 1 := by
  have by' : rankedBy topOfTop 1 = .aggregate (.reduce (.by [0])) := by
    rw [rankedBy]
    rfl
  unfold rankedColumn
  rw [by']
  rfl

theorem items_summed : items id topOfTop 1 [] 1 = [0] := by
  unfold items
  cases readsOnlyTimeSeries topOfTop 1 <;> rfl

theorem implement_inner : ∃ (result : NodeRef) (done : Implementing) (sorted limited : NodeRef)
    (field : SchemaField) (cols : List (ProjectItem NodeRef)),
    implement overSums topOfTop 2 ⟨topOfTop, Cache.empty⟩ =
        .ok (result, { done with cache := summed.cache.insert 2 result }) ∧
      done.dag.Extends topOfTop ∧
      Chain overSums done.dag (topOfTop.node 2) (.by []) 2 1 result sorted limited 1 field cols := by
  obtain ⟨result, done, run⟩ := @rankedRows_ok overSums (topOfTop.node 2) (.by []) 2 1 summed 1 _
    (by decide) rankedColumn_summed (by decide) nofun rfl
  obtain ⟨grown, cache, sorted, limited, value, field, cols, chain⟩ := rankedRows_chain (by decide) run
  cases (rankedColumn_extends grown (by decide)).symm.trans chain.ranked |>.symm.trans rankedColumn_summed
  refine ⟨result, done, sorted, limited, field, cols, ?_, grown, chain⟩
  rw [← cache]
  exact implement_over rfl rfl implement_summed run

theorem overSums_lawful : Lawful overSums where
  scalarType _ _ _ _ _ _ typed := by cases typed
  grown _ _ := rfl
  others := by
    intro input store op image schema schema' _ derived derived'
    cases op with
    | asap op => cases derived
    | nonASAP op =>
      cases op with
      | scan source predicates schema | aggregate reduction measures names filters having child =>
        cases derived
        cases derived'
        rfl
      | _ => cases derived

theorem ranked_topOfTop {child : NodeRef} {name : String} {value : ColumnId} {others : List ColumnId}
    (ranked : rankedColumn overSums topOfTop child = .ok value) (listed : items id topOfTop child [] value = others) :
    rankedRowProjection overSums topOfTop child (.reduce (.by [])) name =
      .ok (⟨some name, .column value⟩ :: others.map (kept (topOfTop.node child).schema)) := by
  obtain ⟨cols, columns⟩ := @rankedRowProjection_ok overSums topOfTop child (.by []) name value ranked
    fun _ member => absurd member List.not_mem_nil
  obtain ⟨value', ranked', _, rfl⟩ := rankedRowProjection_eq columns
  cases ranked.symm.trans ranked'
  rw [columns, ← listed]
  rfl

theorem rankedColumn_top : rankedColumn overSums topOfTop 2 = .ok 0 := by
  have logical : rankedBy topOfTop 2 = .topK (.reduce (.by [])) := by
    rw [rankedBy]
    rfl
  unfold rankedColumn
  rw [logical]
  rfl

theorem topOfTop_derived : Derived overSums topOfTop where
  schema ref here := by
    have inner : outputSchema overSums topOfTop (topOfTop.node 2).operator =
        projectSchema overSums (topOfTop.node 1).schema
          [⟨some "topk_2", .column 1⟩, kept (topOfTop.node 1).schema 0] none := by
      show (rankedRowProjection overSums topOfTop 1 (.reduce (.by [])) "topk_2" >>= fun cols =>
        projectSchema overSums (topOfTop.node 1).schema cols none) = _
      rw [ranked_topOfTop rankedColumn_summed items_summed]
      rfl
    have outer : outputSchema overSums topOfTop (topOfTop.node 3).operator =
        projectSchema overSums (topOfTop.node 2).schema
          [⟨some "topk_1", .column 0⟩, kept (topOfTop.node 2).schema 1] none := by
      have listed : items id topOfTop 2 [] 0 = [1] := by
        unfold items
        cases readsOnlyTimeSeries topOfTop 2 <;> rfl
      show (rankedRowProjection overSums topOfTop 2 (.reduce (.by [])) "topk_1" >>= fun cols =>
        projectSchema overSums (topOfTop.node 2).schema cols none) = _
      rw [ranked_topOfTop rankedColumn_top listed]
      rfl
    change ref < 4 at here
    obtain rfl | rfl | rfl | rfl : ref = 0 ∨ ref = 1 ∨ ref = 2 ∨ ref = 3 := by omega
    · exact ⟨_, rfl, rfl, fun _ => rfl⟩
    · exact ⟨_, rfl, rfl, fun _ => rfl⟩
    · exact ⟨_, inner.trans rfl, rfl, fun plain => by cases plain⟩
    · exact ⟨_, outer.trans rfl, rfl, fun plain => by cases plain⟩
  ranked ref here topK := by
    change ref < 4 at here
    obtain rfl | rfl | rfl | rfl : ref = 0 ∨ ref = 1 ∨ ref = 2 ∨ ref = 3 := by omega
    · cases topK
    · cases topK
    · rfl
    · rfl

theorem inner_restored {ref : NodeRef} {keys : GroupKeys} {k : Nat} {child : NodeRef}
    (ranks : Ranks topOfTop Cache.empty [2] ref keys k child) :
    Restored overSums topOfTop Cache.empty ref keys child := by
  have within (ref : NodeRef) (planned : Planned topOfTop Cache.empty [2] ref) : ref ≤ 2 := by
    induction planned with
    | root asked _ => exact Nat.le_of_eq (List.mem_singleton.mp asked)
    | child _ reads _ ih => exact Nat.le_trans (Nat.le_of_lt (topOfTop.child_lt reads)) ih
  obtain ⟨planned, accuracy, names, filters, having, operator⟩ := ranks
  have three : ∀ n : Nat, n ≤ 2 → n = 0 ∨ n = 1 ∨ n = 2 := by omega
  obtain rfl | rfl | rfl := three ref (within ref planned)
  · cases operator
  · cases operator
  · cases operator
    refine ⟨fun value i field ranked here => ?_, fun value ranked atop => ?_⟩
    · cases rankedColumn_summed.symm.trans ranked
      match i with
      | 0 => exact .inl rfl
      | 1 =>
        cases here
        refine .inr ⟨0, ?_, rfl⟩
        unfold rankedColumns
        show ([] ++ 1 :: items id topOfTop 1 [] 1)[1]? = some 0
        rw [items_summed]
        rfl
      | i + 2 => cases here
    · rw [overTopK] at atop
      cases atop

end AsapPlanner.TopK
