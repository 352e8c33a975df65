import AsapPlanner.Rust.Result
import AsapPlanner.Vectors.Outcome

/-!
Rows written and read back: what a column or the identity keeps of a label set.
-/

namespace AsapPlanner.Vectors
open Ir Rust

/-! ### Layouts -/

/-- The fields a layout takes for what they are. -/
structure Placed.Holds (schema : Schema) (placed : Placed) : Prop where
  identity : ∀ i, placed.identity = some i → ∃ field, schema.fields[i]? = some field ∧
    field.dtype = .plain .utf8 ∧ field.name = promqlSeriesIdentity
  labels : ∀ i ∈ placed.labels, ∃ field, schema.fields[i]? = some field ∧
    field.dtype = .plain .utf8 ∧ field.name ≠ promqlSeriesIdentity
  value : ∀ i, placed.value = some i → ∃ field, schema.fields[i]? = some field ∧
    field.dtype = .plain .float64

theorem place_holds {schema : Schema} {placed placed' : Placed} {field : SchemaField} {i : Nat}
    (found : schema.fields[i]? = some field) (holds : placed.Holds schema)
    (step : place schema.timeIndex placed (field, i) = .ok placed') : placed'.Holds schema := by
  unfold place at step
  dsimp only at step
  split at step
  · next _ dtype =>
    split at step
    · next named =>
      split at step
      · cases step
      · cases step
        refine ⟨fun j same => ?_, holds.labels, holds.value⟩
        cases same
        exact ⟨field, found, dtype, named⟩
    · next other =>
      cases step
      refine ⟨holds.identity, fun j member => ?_, holds.value⟩
      rcases List.mem_append.mp member with before | here
      · exact holds.labels j before
      · cases List.mem_singleton.mp here
        exact ⟨field, found, dtype, other⟩
  · next dtype nullable =>
    split at step
    · cases step
      refine ⟨holds.identity, holds.labels, fun j same => ?_⟩
      cases same
      exact ⟨field, found, dtype⟩
    · cases step
  · split at step
    · cases step
      exact holds
    · cases step
  · cases step
  · cases step

theorem layout_holds {schema : Schema} {to' : Layout} (placed : layout schema = .ok to') :
    (⟨to'.identity, to'.labels, some to'.value⟩ : Placed).Holds schema := by
  have run (entries : List (SchemaField × Nat)) (inside : ∀ entry ∈ entries,
      schema.fields[entry.2]? = some entry.1) {start placed : Placed} (holds : start.Holds schema)
      (found : entries.foldlM (place schema.timeIndex) start = .ok placed) : placed.Holds schema := by
    induction entries generalizing start with
    | nil =>
      cases found
      exact holds
    | cons entry entries ih =>
      rw [List.foldlM_cons] at found
      obtain ⟨middle, step, rest⟩ := bind_eq_ok found
      exact ih (fun other member => inside other (List.mem_cons_of_mem _ member))
        (place_holds (inside entry List.mem_cons_self) holds step) rest
  unfold layout at placed
  obtain ⟨found, folded, rest⟩ := bind_eq_ok placed
  have holds := run _ (fun entry member => List.mem_zipIdx_iff_getElem?.mp member)
    ⟨fun _ same => (Option.some_ne_none _ same.symm).elim, fun _ member => (List.not_mem_nil member).elim,
      fun _ same => (Option.some_ne_none _ same.symm).elim⟩ folded
  cases value : found.value with
  | none =>
    rw [value] at rest
    cases rest
  | some index =>
    rw [value] at rest
    cases rest
    rw [← value]
    exact holds

theorem layout_apart {schema : Schema} {to' : Layout} (placed : layout schema = .ok to')
    (typed : timesTyped schema = true) :
    (∀ i, to'.identity = some i → i ≠ to'.value ∧ i ∉ to'.labels ∧ schema.timeIndex ≠ some i) ∧
      (∀ i ∈ to'.labels, i ≠ to'.value ∧ schema.timeIndex ≠ some i) ∧
      schema.timeIndex ≠ some to'.value := by
  have holds := layout_holds placed
  have time {i : Nat} (same : schema.timeIndex = some i) :
      ∃ field, schema.fields[i]? = some field ∧ field.dtype = .plain .timestamp := by
    unfold timesTyped at typed
    rw [same, Option.all_some] at typed
    cases found : schema.fields[i]? with
    | none =>
      rw [found] at typed
      cases typed
    | some field =>
      rw [found] at typed
      refine ⟨field, rfl, ?_⟩
      dsimp only at typed
      split at typed
      · next dtype => exact dtype
      · cases typed
  obtain ⟨value, valueFound, valueType⟩ := holds.value to'.value rfl
  refine ⟨fun i same => ?_, fun i member => ?_, fun same => ?_⟩
  · obtain ⟨field, found, dtype, named⟩ := holds.identity i same
    refine ⟨?_, fun member => ?_, fun timed => ?_⟩
    · rintro rfl
      cases found.symm.trans valueFound
      cases dtype.symm.trans valueType
    · obtain ⟨other, there, _, unnamed⟩ := holds.labels i member
      cases found.symm.trans there
      exact unnamed named
    · obtain ⟨other, there, timeType⟩ := time timed
      cases found.symm.trans there
      cases dtype.symm.trans timeType
  · obtain ⟨field, found, dtype, _⟩ := holds.labels i member
    constructor
    · rintro rfl
      cases found.symm.trans valueFound
      cases dtype.symm.trans valueType
    · intro timed
      obtain ⟨other, there, timeType⟩ := time timed
      cases found.symm.trans there
      cases dtype.symm.trans timeType
  · obtain ⟨other, there, timeType⟩ := time same
    cases valueFound.symm.trans there
    cases valueType.symm.trans timeType

/-! ### Rows -/

section
variable {Text : Type} {json : IdentityText Text}

/-- No label is empty. -/
def Clean (labels : Labels) : Prop := ∀ name, labels.get? name ≠ some ""

/-- A row has a time where its schema has a time column. -/
def Timed (schema : Schema) (sample : Sample) : Prop :=
  sample.time.isSome = schema.timeIndex.isSome

theorem readLabels_clean {schema : Schema} {from' : Layout} {row : List (Cell Text)} {labels : Labels}
    (read : readLabels json schema from' row = .ok labels) : Clean labels := by
  unfold readLabels at read
  split at read
  · split at read
    · split at read
      · cases read
        intro name held
        rw [BTreeMap.get?_retain, Option.filter_eq_some_iff] at held
        exact of_decide_eq_true held.2 rfl
      · cases read
    · cases read
  · have run (columns : List Nat) {start labels : Labels} (clean : Clean start)
        (read : columns.foldlM (readLabel schema row) start = .ok labels) : Clean labels := by
      induction columns generalizing start with
      | nil =>
        cases read
        exact clean
      | cons column columns ih =>
        rw [List.foldlM_cons] at read
        obtain ⟨middle, step, rest⟩ := bind_eq_ok read
        refine ih ?_ rest
        unfold readLabel at step
        split at step
        · next value _ =>
          cases step
          split
          · exact clean
          · next full =>
            intro name held
            rw [BTreeMap.get?_insert] at held
            split at held
            · exact full (Option.some.inj held)
            · exact clean name held
        · cases step
          exact clean
        · cases step
    exact run _ (fun _ held => by cases held) read

theorem readSample_of {schema : Schema} {from' : Layout} {row : List (Cell Text)} {sample : Sample}
    (read : readSample json schema from' row = .ok sample) :
    Clean sample.labels ∧ Timed schema sample := by
  unfold readSample at read
  obtain ⟨labels, labelsRead, rest⟩ := bind_eq_ok read
  have clean := readLabels_clean labelsRead
  split at rest
  · split at rest
    · next untimed =>
      cases rest
      refine ⟨clean, ?_⟩
      rw [Timed, untimed]
      rfl
    · next index timed =>
      split at rest
      · cases rest
        refine ⟨clean, ?_⟩
        rw [Timed, timed]
        rfl
      · cases rest
  · cases rest

theorem seriesRows_of {schema : Schema} {batch : List (List (Cell Text))} {samples : List Sample}
    (read : seriesRows json schema batch = .ok samples) :
    (∃ from', layout schema = .ok from') ∧ timesTyped schema = true ∧
      ∀ sample ∈ samples, Clean sample.labels ∧ Timed schema sample := by
  unfold seriesRows at read
  obtain ⟨from', placed, rest⟩ := bind_eq_ok read
  split at rest
  · next typed =>
    refine ⟨⟨from', placed⟩, typed, fun sample member => ?_⟩
    obtain ⟨row, _, readRow⟩ := mem_mapM rest sample member
    exact readSample_of readRow
  · cases rest

/-! ### Written and read back -/

/-- What the columns of a layout keep of a label set: all of it, or the labels with a column. -/
def kept (output : Schema) (to' : Layout) (labels : Labels) : Labels :=
  if to'.identity.isSome then labels
  else labels.retain fun name _ => (to'.labels.map (fieldName output)).contains name

def keptSample (output : Schema) (to' : Layout) (sample : Sample) : Sample :=
  { sample with labels := kept output to' sample.labels }

def cellOf (json : IdentityText Text) (output : Schema) (to' : Layout) (sample : Sample) (column : Nat) :
    Cell Text :=
  if column = to'.value then .value sample.value
  else if output.timeIndex = some column then .time (sample.time.getD 0)
  else if column ∈ to'.labels then
    .label (some ((sample.labels.get? (fieldName output column)).getD ""))
  else .identity (json.text sample.labels)

theorem renderCell_of {output : Schema} {to' : Layout} {sample : Sample} (timed : Timed output sample)
    (column : Nat) :
    renderCell json output to' sample column = .ok (cellOf json output to' sample column) := by
  unfold renderCell cellOf
  split
  · rfl
  · split
    · next same =>
      unfold Timed at timed
      rw [same] at timed
      cases time : sample.time with
      | none =>
        rw [time] at timed
        cases timed
      | some time => rfl
    · split <;> rfl

theorem render_of {output : Schema} {to' : Layout} (placed : layout output = .ok to')
    (all : (List.range output.fields.length).all (written output to') = true) {samples : List Sample}
    (timed : ∀ sample ∈ samples, Timed output sample) :
    render json output samples = .ok (samples.map fun sample =>
      (List.range output.fields.length).map (cellOf json output to' sample)) := by
  unfold render
  rw [placed]
  show (if _ then _ else _) = _
  rw [if_pos all]
  exact mapM_pure fun sample member => mapM_pure fun column _ => renderCell_of (timed sample member) column

theorem cells_getElem? {output : Schema} {to' : Layout} {sample : Sample} {column : Nat}
    {field : SchemaField} (found : output.fields[column]? = some field) :
    ((List.range output.fields.length).map (cellOf json output to' sample))[column]? =
      some (cellOf json output to' sample column) := by
  rw [List.getElem?_map, List.getElem?_range (List.getElem?_eq_some_iff.mp found).1]
  rfl

theorem readLabels_cells {output : Schema} {to' : Layout} (placed : layout output = .ok to')
    (typed : timesTyped output = true) {sample : Sample} (clean : Clean sample.labels) :
    readLabels json output to' ((List.range output.fields.length).map (cellOf json output to' sample)) =
      .ok (kept output to' sample.labels) := by
  obtain ⟨identityApart, labelsApart, _⟩ := layout_apart placed typed
  have holds := layout_holds placed
  unfold readLabels kept
  cases identity : to'.identity with
  | some i =>
    obtain ⟨field, found, _⟩ := holds.identity i identity
    obtain ⟨notValue, notLabel, notTime⟩ := identityApart i identity
    dsimp only
    rw [cells_getElem? found, cellOf, if_neg notValue, if_neg notTime, if_neg notLabel]
    dsimp only
    rw [json.parse_text]
    dsimp only
    rw [Option.isSome_some, if_pos rfl]
    congr 1
    apply BTreeMap.ext_get?
    intro name
    rw [BTreeMap.get?_retain]
    cases held : sample.labels.get? name with
    | none => rfl
    | some value =>
      have full : value ≠ "" := fun empty => clean name (empty ▸ held)
      rw [Option.filter_some, if_pos (decide_eq_true full)]
  | none =>
    dsimp only
    rw [Option.isSome_none, if_neg (by decide)]
    have run (columns : List Nat) (inside : ∀ column ∈ columns, column ∈ to'.labels) (start : Labels) :
        ∃ labels, columns.foldlM (readLabel output
          ((List.range output.fields.length).map (cellOf json output to' sample))) start = .ok labels ∧
          ∀ name, labels.get? name = if (columns.map (fieldName output)).contains name = true ∧
            (sample.labels.get? name).isSome = true then sample.labels.get? name
            else start.get? name := by
      induction columns generalizing start with
      | nil => exact ⟨start, rfl, fun name => by simp⟩
      | cons column columns ih =>
        obtain ⟨field, found, _⟩ := holds.labels column (inside column List.mem_cons_self)
        obtain ⟨notValue, notTime⟩ := labelsApart column (inside column List.mem_cons_self)
        have step : readLabel output
            ((List.range output.fields.length).map (cellOf json output to' sample)) start column =
            .ok ((sample.labels.get? (fieldName output column)).elim start
              (start.insert (fieldName output column))) := by
          unfold readLabel
          rw [cells_getElem? found, cellOf, if_neg notValue, if_neg notTime,
            if_pos (inside column List.mem_cons_self)]
          dsimp only
          cases held : sample.labels.get? (fieldName output column) with
          | none => rfl
          | some value =>
            have full : value ≠ "" := fun empty => clean _ (empty ▸ held)
            rw [Option.getD_some, if_neg full]
            rfl
        obtain ⟨labels, read, gets⟩ := ih (fun other member => inside other (List.mem_cons_of_mem _ member))
          ((sample.labels.get? (fieldName output column)).elim start (start.insert (fieldName output column)))
        refine ⟨labels, ?_, fun name => ?_⟩
        · rw [List.foldlM_cons, step]
          exact read
        · rw [gets]
          by_cases here : name = fieldName output column
          · subst here
            cases held : sample.labels.get? (fieldName output column) <;> simp
          · cases held : sample.labels.get? (fieldName output column) <;> simp [here]
    obtain ⟨labels, read, gets⟩ := run to'.labels (fun _ member => member) BTreeMap.empty
    rw [read]
    congr 1
    apply BTreeMap.ext_get?
    intro name
    rw [gets, BTreeMap.get?_retain, filter_const]
    cases held : sample.labels.get? name <;> simp

theorem readSample_cells {output : Schema} {to' : Layout} (placed : layout output = .ok to')
    (typed : timesTyped output = true) {sample : Sample} (clean : Clean sample.labels)
    (timed : Timed output sample) :
    readSample json output to' ((List.range output.fields.length).map (cellOf json output to' sample)) =
      .ok (keptSample output to' sample) := by
  obtain ⟨_, _, valueApart⟩ := layout_apart placed typed
  obtain ⟨field, found, _⟩ := (layout_holds placed).value to'.value rfl
  unfold readSample
  simp only [readLabels_cells placed typed clean, bind, Except.bind]
  rw [cells_getElem? found, cellOf, if_pos rfl]
  dsimp only
  unfold Timed at timed
  cases timeIndex : output.timeIndex with
  | none =>
    rw [timeIndex] at timed
    have untimed : sample.time = none := Option.isNone_iff_eq_none.mp (by simpa using timed)
    show Except.ok (Sample.mk none _ _) = _
    rw [← untimed]
    rfl
  | some index =>
    rw [timeIndex] at timed valueApart
    have column : ∃ field, output.fields[index]? = some field := by
      unfold timesTyped at typed
      rw [timeIndex, Option.all_some] at typed
      cases there : output.fields[index]? with
      | none =>
        rw [there] at typed
        cases typed
      | some field => exact ⟨field, rfl⟩
    obtain ⟨field, there⟩ := column
    have apart : index ≠ to'.value := fun same => valueApart (congrArg some same)
    dsimp only
    rw [cells_getElem? there, cellOf, if_neg apart, if_pos timeIndex]
    obtain ⟨time, held⟩ := Option.isSome_iff_exists.mp timed
    show Except.ok (Sample.mk (some (sample.time.getD 0)) _ _) = _
    rw [keptSample, held]
    rfl

theorem seriesRows_cells {output : Schema} {to' : Layout} (placed : layout output = .ok to')
    (typed : timesTyped output = true) {samples : List Sample}
    (proper : ∀ sample ∈ samples, Clean sample.labels ∧ Timed output sample) :
    seriesRows json output (samples.map fun sample =>
        (List.range output.fields.length).map (cellOf json output to' sample)) =
      .ok (samples.map (keptSample output to')) := by
  unfold seriesRows
  rw [placed]
  show (if _ then _ else _) = _
  rw [if_pos typed, List.mapM_map]
  exact mapM_pure fun sample member =>
    readSample_cells placed typed (proper sample member).1 (proper sample member).2

end
end AsapPlanner.Vectors
