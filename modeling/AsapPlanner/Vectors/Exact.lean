import AsapPlanner.Vectors.Rendered
import AsapPlanner.Vectors.Outcome

/-!
Where a binary operator of two vectors does what the reference does.
-/

namespace AsapPlanner.Vectors
open Ir Rust

/-! ### The output's schema -/

/-- What the constructor promises of the sides. -/
structure Sides.Built (sides : Sides) (operator : BinaryOperator) : Prop where
  time : sides.output.timeIndex = sides.left.timeIndex
  fields : ∃ additions, sides.output.fields = sides.left.fields ++ additions
  either : operator.kind = .set .or → sides.left.timeIndex.isSome = true →
    sides.right.timeIndex.isSome = true

theorem additions_of (additions fields : List SchemaField) : ∃ added,
    additions.foldl (fun fields field =>
      if fields.any fun other => other.name = field.name then fields else fields ++ [field]) fields =
      fields ++ added := by
  induction additions generalizing fields with
  | nil => exact ⟨[], (List.append_nil fields).symm⟩
  | cons field additions ih =>
    rw [List.foldl_cons]
    split
    · exact ih fields
    · obtain ⟨added, equal⟩ := ih (fields ++ [field])
      exact ⟨field :: added, by rw [equal, List.append_assoc, List.singleton_append]⟩

theorem seriesBinarySides_built {leftSchema rightSchema : Schema} {operator : BinaryOperator}
    {sides : Sides} (built : seriesBinarySides leftSchema rightSchema operator = .ok sides) :
    sides.left = leftSchema ∧ sides.right = rightSchema ∧ sides.Built operator := by
  unfold seriesBinarySides at built
  dsimp only at built
  split at built
  · cases built
  · obtain ⟨_, _, rest⟩ := bind_eq_ok built
    obtain ⟨rightLayout, _, rest⟩ := bind_eq_ok rest
    split at rest
    · cases rest
    · next timely =>
      cases rest
      refine ⟨rfl, rfl, rfl, additions_of _ _, fun kind leftTimed => ?_⟩
      by_contra untimed
      apply timely
      simp [kind, leftTimed, Option.isSome_eq_false_iff.mp (Bool.not_eq_true _ ▸ untimed)]

theorem Sides.Built.typed {sides : Sides} {operator : BinaryOperator} (built : sides.Built operator)
    (typed : timesTyped sides.left = true) : timesTyped sides.output = true := by
  obtain ⟨added, fields⟩ := built.fields
  unfold timesTyped at typed ⊢
  rw [built.time, fields]
  cases timeIndex : sides.left.timeIndex with
  | none => rfl
  | some index =>
    rw [timeIndex, Option.all_some] at typed
    rw [Option.all_some]
    cases found : sides.left.fields[index]? with
    | none =>
      rw [found] at typed
      cases typed
    | some field =>
      rw [List.getElem?_append_left (List.getElem?_eq_some_iff.mp found).1, found]
      rw [found] at typed
      exact typed

/-! ### Rows of the reference -/

section
variable {arithmetic : Arithmetic} {operator : BinaryOperator} {sides : Sides}
  {left right : List Sample}

theorem timeAt_timed {output side : Schema} {sample : Sample} (timed : Timed side sample)
    (all : output.timeIndex.isSome = true → side.timeIndex.isSome = true) (labels : Labels) (value : F64) :
    Timed output ⟨timeAt output side sample, labels, value⟩ := by
  unfold Timed timeAt at *
  cases there : output.timeIndex.isSome with
  | false => rfl
  | true =>
    rw [there] at all
    rw [all rfl] at timed ⊢
    exact timed

theorem resultLabel_clean {m o : Sample} (many : Clean m.labels) (one : Clean o.labels) (name : String) :
    resultLabel operator m o name ≠ some "" := by
  unfold resultLabel
  repeat' split
  all_goals first | exact many name | exact one name | exact fun held => by cases held

theorem InResult.proper (built : sides.Built operator)
    (leftProper : ∀ sample ∈ left, Clean sample.labels ∧ Timed sides.left sample)
    (rightProper : ∀ sample ∈ right, Clean sample.labels ∧ Timed sides.right sample) {row : Sample}
    (inResult : InResult arithmetic sides operator left right row) :
    Clean row.labels ∧ Timed sides.output row := by
  have leftTimes : sides.output.timeIndex.isSome = true → sides.left.timeIndex.isSome = true := by
    rw [built.time]
    exact id
  have kept {l : Sample} (here : l ∈ left) {row : Sample}
      (same : row = { l with time := timeAt sides.output sides.left l }) :
      Clean row.labels ∧ Timed sides.output row := by
    subst same
    exact ⟨(leftProper l here).1, timeAt_timed (leftProper l here).2 leftTimes l.labels l.value⟩
  cases set : isSet operator.kind with
  | false =>
    obtain ⟨m, mHere, o, oHere, _, labels, time⟩ := (inResult_of set).mp inResult
    have both : (Clean m.labels ∧ Clean o.labels) ∧
        (if swapped operator then o else m) ∈ left := by
      unfold manyOf at mHere
      unfold oneOf at oHere
      split at mHere
      · next swapped =>
        rw [if_pos swapped] at oHere ⊢
        exact ⟨⟨(rightProper m mHere).1, (leftProper o oHere).1⟩, oHere⟩
      · next straight =>
        rw [if_neg straight] at oHere ⊢
        exact ⟨⟨(leftProper m mHere).1, (rightProper o oHere).1⟩, mHere⟩
    obtain ⟨⟨many, one⟩, fromLeft⟩ := both
    refine ⟨fun name => by rw [labels name]; exact resultLabel_clean many one name, ?_⟩
    have there := timeAt_timed (leftProper _ fromLeft).2 leftTimes row.labels row.value
    rw [← time] at there
    exact there
  | true =>
    cases kind : operator.kind with
    | set op =>
      unfold InResult at inResult
      rw [kind] at inResult
      cases op with
      | and =>
        obtain ⟨l, here, _, same⟩ := inResult
        exact kept here same
      | «unless» =>
        obtain ⟨l, here, _, same⟩ := inResult
        exact kept here same
      | or =>
        rcases inResult with ⟨l, here, same⟩ | ⟨r, here, _, rfl⟩
        · exact kept here same
        · refine ⟨(rightProper r here).1, timeAt_timed (rightProper r here).2 ?_ r.labels r.value⟩
          intro timed
          exact built.either kind (leftTimes timed)
    | _ =>
      rw [kind] at set
      cases set

end

/-! ### Errors of writing -/

def Unmatched {α : Type} (run : Except String α) : Prop :=
  ∀ error, run = .error error → error ∉ matchErrors

namespace Unmatched
variable {α β : Type}

theorem ok (value : α) : Unmatched (.ok value) := fun _ failed => by cases failed

theorem bind {first : Except String α} {next : α → Except String β} (before : Unmatched first)
    (after : ∀ value, Unmatched (next value)) : Unmatched (first >>= next) := by
  cases first with
  | error error =>
    rintro _ ⟨⟩
    exact before error rfl
  | ok value => exact after value

theorem foldlM {step : β → α → Except String β} (steps : ∀ state item, Unmatched (step state item))
    (items : List α) (start : β) : Unmatched (items.foldlM step start) := by
  induction items generalizing start with
  | nil => exact ok start
  | cons item items ih =>
    rw [List.foldlM_cons]
    exact (steps start item).bind ih

theorem mapM {step : α → Except String β} (steps : ∀ item, Unmatched (step item)) (items : List α) :
    Unmatched (items.mapM step) := by
  induction items with
  | nil => exact ok []
  | cons item items ih =>
    rw [List.mapM_cons]
    exact (steps item).bind fun first => ih.bind fun rest => ok (first :: rest)

theorem place (timeIndex : Option Nat) (placed : Placed) (entry : SchemaField × Nat) :
    Unmatched (place timeIndex placed entry) := by
  intro error failed
  unfold Vectors.place at failed
  dsimp only at failed
  repeat' split at failed
  all_goals
    cases failed
    try decide

theorem layout (schema : Schema) : Unmatched (layout schema) := by
  refine (foldlM (place schema.timeIndex) _ _).bind fun placed => ?_
  split
  · exact ok _
  · rintro _ ⟨⟩
    decide

theorem render {Text : Type} (json : IdentityText Text) (output : Schema) (samples : List Sample) :
    Unmatched (render json output samples) := by
  refine (layout output).bind fun to' => ?_
  split
  · refine mapM (fun sample => mapM (fun column => ?_) _) _
    intro error failed
    unfold renderCell at failed
    repeat' split at failed
    all_goals
      cases failed
      try decide
  · rintro _ ⟨⟩
    decide

end Unmatched

/-! ### The reference and the code -/

section
variable {Text : Type} {json : IdentityText Text} {arithmetic : Arithmetic} {operator : BinaryOperator}
  {sides : Sides} {left right : List Sample}

/-- The code does what the reference does where matching fails; and else where every column is
written, no match groups come to one label set, and each label of a result has a column. -/
theorem vectorRows_meets (built : sides.Built operator) (typed : timesTyped sides.left = true)
    (leftProper : ∀ sample ∈ left, Clean sample.labels ∧ Timed sides.left sample)
    (rightProper : ∀ sample ∈ right, Clean sample.labels ∧ Timed sides.right sample)
    (leftApart : (left.map Sample.labels).Nodup) (rightApart : (right.map Sample.labels).Nodup) :
    Meets arithmetic sides operator left right json
        (vectorRows arithmetic sides operator left right >>= render json sides.output) ↔
      Fails arithmetic operator left right (Same operator) ∨ Writable sides.output ∧
        ¬ NameClash arithmetic operator left right ∧ Covered arithmetic sides operator left right := by
  rcases @vectorRows_cases arithmetic operator sides left right leftApart rightApart with
    ⟨fails, error, known, run⟩ | ⟨succeeds, rows, run, members, apart⟩
  · rw [run]
    exact ⟨fun _ => .inl fails, fun _ => ⟨fun _ => ⟨error, known, rfl⟩,
      fun none => absurd (fails_iff.mpr (.inl fails)) none⟩⟩
  · rw [run]
    show Meets arithmetic sides operator left right json (render json sides.output rows) ↔ _
    rw [or_iff_right succeeds]
    have proper (sample : Sample) (member : sample ∈ rows) :
        Clean sample.labels ∧ Timed sides.output sample :=
      ((members sample).mp member).proper built leftProper rightProper
    have outputTyped := built.typed typed
    constructor
    · rintro ⟨failing, returning⟩
      have noClash : ¬ NameClash arithmetic operator left right := by
        intro clash
        obtain ⟨error, known, failed⟩ := failing (fails_iff.mpr (.inr clash))
        exact Unmatched.render json sides.output rows error failed known
      have noFail : ¬ Fails arithmetic operator left right fun _ _ => True := by
        rw [fails_iff, not_or]
        exact ⟨succeeds, noClash⟩
      obtain ⟨batch, readRows, rendered, read, _, readMembers⟩ := returning noFail
      have writable : Writable sides.output := by
        unfold render at rendered
        obtain ⟨to', placed, rest⟩ := bind_eq_ok rendered
        split at rest
        · next all => exact ⟨to', placed, all⟩
        · cases rest
      refine ⟨writable, noClash, fun to' placed => ?_⟩
      obtain ⟨other, samePlaced, all⟩ := writable
      cases placed.symm.trans samePlaced
      rw [render_of placed all fun sample member => (proper sample member).2] at rendered
      cases rendered
      rw [seriesRows_cells placed outputTyped proper] at read
      cases read
      rw [or_iff_not_imp_left]
      intro noIdentity row inResult name value held
      -- The row is one that was read back, so it has only the labels with a column.
      obtain ⟨sample, _, rfl⟩ := List.mem_map.mp ((readMembers row).mpr inResult)
      unfold keptSample kept at held
      rw [if_neg noIdentity, BTreeMap.get?_retain, Option.filter_eq_some_iff] at held
      obtain ⟨column, member, named⟩ := List.mem_map.mp (List.contains_iff_mem.mp held.2)
      exact ⟨column, member, named⟩
    · rintro ⟨⟨to', placed, all⟩, noClash, covered⟩
      have noFail : ¬ Fails arithmetic operator left right fun _ _ => True := by
        rw [fails_iff, not_or]
        exact ⟨succeeds, noClash⟩
      refine ⟨fun fails => absurd fails noFail, fun _ => ⟨_, rows,
        render_of placed all fun sample member => (proper sample member).2, ?_, apart.mpr noFail, members⟩⟩
      rw [seriesRows_cells placed outputTyped proper]
      congr 1
      refine (List.map_congr_left fun sample member => ?_).trans (List.map_id rows)
      unfold keptSample kept
      split
      · rfl
      · next noIdentity =>
        have columns := (covered to' placed).resolve_left noIdentity sample ((members sample).mp member)
        have whole : (sample.labels.retain fun name _ =>
            (to'.labels.map (fieldName sides.output)).contains name) = sample.labels := by
          apply BTreeMap.ext_get?
          intro name
          rw [BTreeMap.get?_retain]
          cases held : sample.labels.get? name with
          | none => rfl
          | some value =>
            obtain ⟨column, member, named⟩ := columns name value held
            rw [Option.filter_some, if_pos]
            exact List.contains_iff_mem.mpr (List.mem_map.mpr ⟨column, member, named⟩)
        rw [whole]
        rfl

/-- `series_binary` of two vectors without repeated label sets. -/
theorem seriesBinary_meets {leftSchema rightSchema : Schema} {leftBatch rightBatch : List (List (Cell Text))}
    (built : seriesBinarySides leftSchema rightSchema operator = .ok sides)
    (readLeft : seriesRows json leftSchema leftBatch = .ok left)
    (readRight : seriesRows json rightSchema rightBatch = .ok right)
    (leftApart : (left.map Sample.labels).Nodup) (rightApart : (right.map Sample.labels).Nodup) :
    Meets arithmetic sides operator left right json
        (seriesBinary json arithmetic sides operator leftBatch rightBatch) ↔
      Fails arithmetic operator left right (Same operator) ∨ Writable sides.output ∧
        ¬ NameClash arithmetic operator left right ∧ Covered arithmetic sides operator left right := by
  obtain ⟨rfl, rfl, promised⟩ := seriesBinarySides_built built
  obtain ⟨_, typed, leftProper⟩ := seriesRows_of readLeft
  obtain ⟨_, _, rightProper⟩ := seriesRows_of readRight
  rw [← vectorRows_meets promised typed leftProper rightProper leftApart rightApart]
  unfold seriesBinary
  rw [readLeft, readRight]
  rfl

end

/-! ### Vectors with one label column -/

def labelled (name : String) : Schema :=
  ⟨[Field.ofPlain "value" .float64 false, Field.ofPlain name .utf8 true], none, [], false⟩

def labelledRow (label : String) (value : F64) : List (Cell Labels) := [.value value, .label (some label)]

def labelledSample (name label : String) (value : F64) : Sample :=
  ⟨none, BTreeMap.empty.insert name label, value⟩

def plainText : IdentityText Labels := ⟨some, id, fun _ => rfl⟩

/-- `== bool`, matched as given. -/
def equalBool (vectorMatch : Option VectorMatch) : BinaryOperator :=
  ⟨false, false, .compareBool .eq, vectorMatch⟩

def keepLeft : Arithmetic := fun _ left _ => left

def labelledSides (name : String) : Sides := ⟨labelled name, labelled name, labelled name⟩

theorem labelledSample_get? (name label : String) (value : F64) (key : String) :
    (labelledSample name label value).labels.get? key = if key = name then some label else none :=
  BTreeMap.get?_insert BTreeMap.empty name key label

theorem labelledSample_apart (name : String) (left right : F64) :
    ([labelledSample name "a" left, labelledSample name "b" right].map Sample.labels).Nodup := by
  rw [List.map_cons, List.map_singleton, List.nodup_cons]
  refine ⟨fun same => ?_, List.nodup_singleton _⟩
  have equal := congrArg (BTreeMap.get? · name) (List.mem_singleton.mp same)
  change (labelledSample name "a" left).labels.get? name = (labelledSample name "b" right).labels.get? name at equal
  rw [labelledSample_get?, labelledSample_get?, if_pos rfl, if_pos rfl] at equal
  exact absurd equal (by decide)

/-- Two rows a side, one pair of them equal. -/
theorem seriesBinary_meets_job :
    Meets keepLeft (labelledSides "job") (equalBool none) [labelledSample "job" "a" one, labelledSample "job" "b" zero]
      [labelledSample "job" "a" one, labelledSample "job" "b" one] plainText
      (seriesBinary plainText keepLeft (labelledSides "job") (equalBool none)
        [labelledRow "a" one, labelledRow "b" zero] [labelledRow "a" one, labelledRow "b" one]) := by
  have built : seriesBinarySides (labelled "job") (labelled "job") (equalBool none) =
      .ok (labelledSides "job") := rfl
  have read (value : F64) : seriesRows plainText (labelled "job") [labelledRow "a" one, labelledRow "b" value] =
      .ok [labelledSample "job" "a" one, labelledSample "job" "b" value] := rfl
  refine (seriesBinary_meets built (read zero) (read one) (labelledSample_apart _ _ _)
    (labelledSample_apart _ _ _)).mpr (.inr ⟨⟨⟨none, [1], 0⟩, rfl, rfl⟩, ?_, ?_⟩)
  · rintro ⟨kind, _⟩
    cases kind
  · rintro _ ⟨⟩
    right
    rintro row ⟨m, member, o, _, _, labels, _⟩ name value held
    obtain ⟨label, number, rfl⟩ : ∃ label number, m = labelledSample "job" label number := by
      rcases List.mem_pair.mp member with rfl | rfl <;> exact ⟨_, _, rfl⟩
    rw [labels] at held
    refine ⟨1, List.mem_singleton_self 1, ?_⟩
    by_cases dropped : name = metricName
    · subst dropped
      cases held
    · rw [resultLabel_other dropped] at held
      change (labelledSample "job" label number).labels.get? name = some value at held
      rw [labelledSample_get?] at held
      split at held
      · next here => exact here.symm
      · cases held

/-- `== bool on (__name__)` of two names gives two rows of one label set, where the reference fails. -/
theorem seriesBinary_drops_names :
    seriesBinarySides (labelled metricName) (labelled metricName) (equalBool (some ⟨.on, [metricName], none⟩)) =
        .ok (labelledSides metricName) ∧
      (∀ value, seriesRows plainText (labelled metricName) [labelledRow "a" one, labelledRow "b" value] =
        .ok [labelledSample metricName "a" one, labelledSample metricName "b" value]) ∧
      (∀ value, ([labelledSample metricName "a" one, labelledSample metricName "b" value].map
        Sample.labels).Nodup) ∧
      seriesBinary plainText keepLeft (labelledSides metricName) (equalBool (some ⟨.on, [metricName], none⟩))
          [labelledRow "a" one, labelledRow "b" one] [labelledRow "a" one, labelledRow "b" zero] =
        .ok [labelledRow "" one, labelledRow "" zero] ∧
      seriesRows plainText (labelled metricName) [labelledRow "" one, labelledRow "" zero] =
        .ok [⟨none, BTreeMap.empty, one⟩, ⟨none, BTreeMap.empty, zero⟩] ∧
      ¬ Meets keepLeft (labelledSides metricName) (equalBool (some ⟨.on, [metricName], none⟩))
        [labelledSample metricName "a" one, labelledSample metricName "b" one]
        [labelledSample metricName "a" one, labelledSample metricName "b" zero] plainText
        (seriesBinary plainText keepLeft (labelledSides metricName)
          (equalBool (some ⟨.on, [metricName], none⟩)) [labelledRow "a" one, labelledRow "b" one]
          [labelledRow "a" one, labelledRow "b" zero]) := by
  have apart : (labelledSample metricName "a" one).labels.get? metricName ≠
      (labelledSample metricName "b" one).labels.get? metricName := by
    rw [labelledSample_get?, labelledSample_get?, if_pos rfl, if_pos rfl]
    decide
  have gives (label : String) (left right : F64) :
      ∃ value, Gives keepLeft (equalBool (some ⟨.on, [metricName], none⟩))
        (labelledSample metricName label left) (labelledSample metricName label right) value :=
    ⟨_, fun _ _ => rfl, rfl⟩
  have clash : NameClash keepLeft (equalBool (some ⟨.on, [metricName], none⟩))
      [labelledSample metricName "a" one, labelledSample metricName "b" one]
      [labelledSample metricName "a" one, labelledSample metricName "b" zero] :=
    ⟨rfl, List.mem_singleton_self _, .inl rfl, _, List.mem_cons_self, _,
      List.mem_cons_of_mem _ List.mem_cons_self, _, List.mem_cons_self, _,
      List.mem_cons_of_mem _ List.mem_cons_self, gives "a" one one, gives "b" one zero, apart,
      fun name other listed => absurd (List.mem_singleton.mp listed) other⟩
  refine ⟨rfl, fun _ => rfl, labelledSample_apart _ _, rfl, rfl, fun meets => ?_⟩
  obtain ⟨error, _, failed⟩ := meets.1 (fails_iff.mpr (.inr clash))
  cases failed

end AsapPlanner.Vectors
