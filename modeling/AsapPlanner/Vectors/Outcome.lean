import AsapPlanner.Vectors.Matched

/-!
The rows two vectors give, and the failures of their matching: as the reference has them, unless two
match groups that differ in the metric name alone come to one label set. The set operators: `and`, `or`
and `unless` never fail, and keep the rows that the reference keeps.
-/

namespace AsapPlanner.Vectors
open Ir Rust

variable {arithmetic : Arithmetic} {operator : BinaryOperator} {sides : Sides}
  {left right : List Sample}

/-! ### Arithmetic and comparisons -/

theorem inResult_of (noSet : isSet operator.kind = false) {row : Sample} :
    InResult arithmetic sides operator left right row ↔
      ∃ m ∈ manyOf operator left right, ∃ o ∈ oneOf operator left right,
        Gives arithmetic operator m o row.value ∧
          (∀ name, row.labels.get? name = resultLabel operator m o name) ∧
          row.time = timeAt sides.output sides.left (if swapped operator then o else m) := by
  unfold InResult
  cases kind : operator.kind with
  | set set =>
    rw [kind] at noSet
    cases noSet
  | _ => rfl

theorem vectorRows_eq (noSet : isSet operator.kind = false) :
    vectorRows arithmetic sides operator left right =
      if left.isEmpty || right.isEmpty then .ok []
      else (do
        let ones ← onesOf (matchOf operator).1 (matchOf operator).2.1 (swapped operator)
          (oneOf operator left right)
        let matched ← (manyOf operator left right).foldlM (matchRow arithmetic sides operator ones)
          ⟨[], []⟩
        .ok matched.rows) := by
  unfold vectorRows oneOf manyOf
  cases kind : operator.kind with
  | set set =>
    rw [kind] at noSet
    cases noSet
  | _ => cases swapped operator <;> rfl

section
variable (leftApart : left.Nodup) (rightApart : right.Nodup)
include leftApart rightApart

theorem manyOf_nodup : (manyOf operator left right).Nodup := by
  unfold manyOf
  split
  · exact rightApart
  · exact leftApart

theorem oneOf_nodup : (oneOf operator left right).Nodup := by
  unfold oneOf
  split
  · exact leftApart
  · exact rightApart

theorem ones_repeat : (¬ ((oneOf operator left right).map (signatureOf operator)).Nodup) ↔
    ∃ a ∈ oneOf operator left right, ∃ b ∈ oneOf operator left right, a ≠ b ∧ Same operator a b := by
  rw [List.nodup_map_iff_inj_on (oneOf_nodup leftApart rightApart)]
  constructor
  · intro repeats
    by_contra none
    apply repeats
    intro a aHere b bHere equal
    by_contra different
    exact none ⟨a, aHere, b, bHere, different, signatureOf_eq.mp equal⟩
  · rintro ⟨a, aHere, b, bHere, different, same⟩ distinct
    exact different (distinct a aHere b bHere (signatureOf_eq.mpr same))

theorem vectorRows_of (noSet : isSet operator.kind = false) :
    (Fails arithmetic operator left right (Same operator) ∧
        ∃ error ∈ matchErrors, vectorRows arithmetic sides operator left right = .error error) ∨
      ¬ Fails arithmetic operator left right (Same operator) ∧
        ∃ rows, vectorRows arithmetic sides operator left right = .ok rows ∧
          (∀ row, row ∈ rows ↔ InResult arithmetic sides operator left right row) ∧
          ((rows.map Sample.labels).Nodup ↔
            ¬ Fails arithmetic operator left right fun _ _ => True) := by
  rw [vectorRows_eq noSet]
  by_cases empty : left.isEmpty || right.isEmpty
  · right
    have nothing : left = [] ∨ right = [] := by simpa using empty
    have noFail (alike : Sample → Sample → Prop) : ¬ Fails arithmetic operator left right alike := by
      rintro ⟨_, leftSome, rightSome, _⟩
      exact nothing.elim leftSome rightSome
    rw [if_pos empty]
    refine ⟨noFail _, [], rfl, fun row => ⟨nofun, fun inResult => ?_⟩, fun _ => noFail _,
      fun _ => List.nodup_nil⟩
    obtain ⟨m, mHere, o, oHere, _⟩ := (inResult_of noSet).mp inResult
    unfold manyOf at mHere
    unfold oneOf at oHere
    rcases nothing with rfl | rfl
    · split at mHere
      · next swapped =>
        rw [if_pos swapped] at oHere
        cases oHere
      · cases mHere
    · split at mHere
      · cases mHere
      · next straight =>
        rw [if_neg straight] at oHere
        cases oHere
  · rw [if_neg empty]
    have leftSome : left ≠ [] := fun none => empty (by simp [none])
    have rightSome : right ≠ [] := fun none => empty (by simp [none])
    have many := @manyOf_nodup operator left right leftApart rightApart
    rcases @foldlM_ones operator (swapped operator) [] (oneOf operator left right) List.nodup_nil with
      ⟨distinct, run⟩ | ⟨repeats, error, known, run⟩
    · have started : onesOf (matchOf operator).1 (matchOf operator).2.1 (swapped operator)
          (oneOf operator left right) = .ok ((oneOf operator left right).map (keyed operator)) := run
      rw [List.nil_append] at distinct
      have single : ¬ ∃ a ∈ oneOf operator left right, ∃ b ∈ oneOf operator left right,
          a ≠ b ∧ Same operator a b :=
        fun repeated => (ones_repeat leftApart rightApart).mpr repeated distinct
      have begun (rest : List (Labels × Sample) → Except String (List Sample)) :
          (onesOf (matchOf operator).1 (matchOf operator).2.1 (swapped operator)
            (oneOf operator left right) >>= rest) =
            rest ((oneOf operator left right).map (keyed operator)) := by
        rw [started]
        rfl
      rw [begun]
      have noneYet : Apart operator (Matched.mk [] []).results := ⟨fun _ => List.nodup_nil, List.nodup_nil⟩
      rcases @foldlM_matchRow arithmetic operator sides noSet (oneOf operator left right)
        (manyOf operator left right) ⟨[], []⟩ noneYet with
        ⟨applies, apart, run⟩ | ⟨fails, error, known, run⟩
      · right
        rw [List.nil_append] at apart
        have within := (results_apart distinct many).mp apart
        have all : ¬ ∃ m ∈ manyOf operator left right, ∃ o ∈ oneOf operator left right,
            Same operator m o ∧
              ¬ Applies arithmetic operator (valuesOf operator m o).1 (valuesOf operator m o).2 := by
          rintro ⟨m, mHere, o, oHere, same, outside⟩
          exact outside (applies m mHere o ((partner_of distinct).mpr ⟨oHere, same⟩))
        refine ⟨?_, ((manyOf operator left right).filterMap (gave arithmetic sides operator
          (oneOf operator left right))).map Prod.snd, by rw [run]; rfl, fun row => ?_, ?_⟩
        · rintro ⟨_, _, _, repeated | outside | ⟨m, mHere, m', mHere', o, oHere, o', oHere', different,
            gives, gives', clash⟩⟩
          · exact single repeated
          · exact all outside
          · exact within ⟨m, mHere, m', mHere', o, oHere, o', oHere', ⟨different, gives, gives'⟩, clash⟩
        · rw [inResult_of noSet, List.mem_map]
          constructor
          · rintro ⟨entry, given, rfl⟩
            obtain ⟨m, mHere, given⟩ := List.mem_filterMap.mp given
            obtain ⟨o, oHere, gives, _, labels, time⟩ := (gave_of distinct).mp given
            refine ⟨m, mHere, o, oHere, gives, fun name => ?_, time⟩
            rw [labels, get?_resultMetric]
          · rintro ⟨m, mHere, o, oHere, gives, labels, time⟩
            refine ⟨(signatureOf operator m, row), List.mem_filterMap.mpr ⟨m, mHere, ?_⟩, rfl⟩
            refine (gave_of distinct).mpr ⟨o, oHere, gives, rfl, BTreeMap.ext_get? fun name => ?_, time⟩
            rw [labels, get?_resultMetric]
        · rw [labels_apart distinct many, not_iff_not]
          constructor
          · rintro ⟨m, mHere, m', mHere', o, oHere, o', oHere', ⟨different, gives, gives'⟩, equal⟩
            exact ⟨noSet, leftSome, rightSome, .inr (.inr ⟨m, mHere, m', mHere', o, oHere, o', oHere',
              different, gives, gives', .inr ⟨trivial, equal⟩⟩)⟩
          · rintro ⟨_, _, _, repeated | outside | ⟨m, mHere, m', mHere', o, oHere, o', oHere', different,
              gives, gives', clash⟩⟩
            · exact absurd repeated single
            · exact absurd outside all
            · rcases clash with one | ⟨_, equal⟩
              · exact absurd ⟨m, mHere, m', mHere', o, oHere, o', oHere', ⟨different, gives, gives'⟩,
                  .inl one⟩ within
              · exact ⟨m, mHere, m', mHere', o, oHere, o', oHere', ⟨different, gives, gives'⟩, equal⟩
      · left
        refine ⟨⟨noSet, leftSome, rightSome, ?_⟩, error, known, by rw [run]; rfl⟩
        by_contra none
        rw [not_or, not_or] at none
        obtain ⟨_, all, within⟩ := none
        apply fails
        constructor
        · intro m mHere o found
          obtain ⟨oHere, same⟩ := (partner_of distinct).mp found
          by_contra outside
          exact all ⟨m, mHere, o, oHere, same, outside⟩
        · rw [List.nil_append, results_apart distinct many]
          rintro ⟨m, mHere, m', mHere', o, oHere, o', oHere', ⟨different, gives, gives'⟩, clash⟩
          exact within ⟨m, mHere, m', mHere', o, oHere, o', oHere', different, gives, gives', clash⟩
    · left
      rw [List.nil_append] at repeats
      refine ⟨⟨noSet, leftSome, rightSome, .inl ((ones_repeat leftApart rightApart).mp repeats)⟩,
        error, known, ?_⟩
      have started : onesOf (matchOf operator).1 (matchOf operator).2.1 (swapped operator)
          (oneOf operator left right) = .error error := run
      rw [started]
      rfl

end

/-! ### Match groups that come to one label set -/

def DropsName (operator : BinaryOperator) : Prop :=
  isCompareBool operator.kind = true ∨ isArithmetic operator.kind = true ∧
    ∀ grouping ∈ (matchOf operator).2.2, metricName ∉ grouping.labels

theorem resultLabel_other {m o : Sample} {name : String} (other : name ≠ metricName) :
    resultLabel operator m o name = match (matchOf operator).2.2 with
      | some grouping => if name ∈ grouping.labels then o.labels.get? name else m.labels.get? name
      | none => match (matchOf operator).1 with
        | .on => if name ∈ (matchOf operator).2.1 then m.labels.get? name else none
        | .ignoring => if name ∈ (matchOf operator).2.1 then none else m.labels.get? name := by
  unfold resultLabel
  cases (matchOf operator).2.2 with
  | some grouping => simp only [other, and_false, if_false]
  | none => cases (matchOf operator).1 <;> simp only [other, and_false, if_false]

theorem resultLabel_name {m o : Sample} (drops : DropsName operator) :
    resultLabel operator m o metricName = none := by
  unfold resultLabel
  rcases drops with bool | ⟨arithmetic, apart⟩
  · rw [if_pos ⟨bool, rfl⟩]
  · split
    · rfl
    · split
      · next grouping found => rw [if_neg (apart grouping found), if_pos ⟨arithmetic, rfl⟩]
      · rw [if_pos ⟨arithmetic, rfl⟩]

theorem resultLabel_seen {m o : Sample} {name : String} (sees : Sees operator name)
    (same : Same operator m o) (kept : ¬ (name = metricName ∧ DropsName operator)) :
    resultLabel operator m o name = m.labels.get? name := by
  have alike := same name sees
  unfold resultLabel
  unfold DropsName at kept
  unfold Sees at sees
  have notBool : ¬ (isCompareBool operator.kind = true ∧ name = metricName) :=
    fun both => kept ⟨both.2, .inl both.1⟩
  rw [if_neg notBool]
  cases found : (matchOf operator).2.2 with
  | some grouping =>
    dsimp only
    split
    · exact alike.symm
    · next absent =>
      rw [if_neg]
      rintro ⟨arithmetic, rfl⟩
      refine kept ⟨rfl, .inr ⟨arithmetic, fun other held => ?_⟩⟩
      cases found.symm.trans held
      exact absent
  | none =>
    dsimp only
    rw [if_neg]
    · cases kind : (matchOf operator).1 with
      | on =>
        rw [kind] at sees
        exact if_pos sees
      | ignoring =>
        rw [kind] at sees
        exact if_neg sees.2
    · rintro ⟨arithmetic, rfl⟩
      refine kept ⟨rfl, .inr ⟨arithmetic, fun other held => ?_⟩⟩
      cases found.symm.trans held

theorem fails_iff : Fails arithmetic operator left right (fun _ _ => True) ↔
    Fails arithmetic operator left right (Same operator) ∨ NameClash arithmetic operator left right := by
  constructor
  · rintro ⟨noSet, leftSome, rightSome, repeated | outside | ⟨m, mHere, m', mHere', o, oHere, o', oHere',
      different, gives, gives', single | ⟨_, equal⟩⟩⟩
    · exact .inl ⟨noSet, leftSome, rightSome, .inl repeated⟩
    · exact .inl ⟨noSet, leftSome, rightSome, .inr (.inl outside)⟩
    · exact .inl ⟨noSet, leftSome, rightSome, .inr (.inr ⟨m, mHere, m', mHere', o, oHere, o', oHere',
        different, gives, gives', .inl single⟩)⟩
    · by_cases group : Same operator m m'
      · exact .inl ⟨noSet, leftSome, rightSome, .inr (.inr ⟨m, mHere, m', mHere', o, oHere, o', oHere',
          different, gives, gives', .inr ⟨group, equal⟩⟩)⟩
      · right
        -- Some label that matching looks at differs, so the result lost it: it is the name.
        unfold Same at group
        push Not at group
        obtain ⟨name, sees, apart⟩ := group
        have lost : name = metricName ∧ DropsName operator := by
          by_contra kept
          apply apart
          rw [← resultLabel_seen sees gives.choose_spec.1 kept, equal,
            resultLabel_seen sees gives'.choose_spec.1 kept]
        obtain ⟨rfl, drops⟩ := lost
        unfold Sees at sees
        cases kind : (matchOf operator).1 with
        | ignoring =>
          rw [kind] at sees
          exact absurd rfl sees.1
        | on =>
          rw [kind] at sees
          refine ⟨kind, sees, drops, m, mHere, m', mHere', o, oHere, o', oHere', gives, gives', apart,
            fun other different => ?_⟩
          have there := equal other
          rw [resultLabel_other different, resultLabel_other different, kind] at there
          cases grouped : (matchOf operator).2.2 with
          | some grouping =>
            rw [grouped] at there
            dsimp only at there ⊢
            split <;> next inside => simpa only [inside, if_true, if_false] using there
          | none =>
            rw [grouped] at there
            intro listed
            simpa only [listed, if_true] using there
  · rintro (⟨noSet, leftSome, rightSome, repeated | outside | ⟨m, mHere, m', mHere', o, oHere, o', oHere',
      different, gives, gives', single | ⟨_, equal⟩⟩⟩ | clash)
    · exact ⟨noSet, leftSome, rightSome, .inl repeated⟩
    · exact ⟨noSet, leftSome, rightSome, .inr (.inl outside)⟩
    · exact ⟨noSet, leftSome, rightSome, .inr (.inr ⟨m, mHere, m', mHere', o, oHere, o', oHere',
        different, gives, gives', .inl single⟩)⟩
    · exact ⟨noSet, leftSome, rightSome, .inr (.inr ⟨m, mHere, m', mHere', o, oHere, o', oHere',
        different, gives, gives', .inr ⟨trivial, equal⟩⟩)⟩
    · obtain ⟨kind, listed, drops, m, mHere, m', mHere', o, oHere, o', oHere', gives, gives', apart, others⟩ :=
        clash
      have noSet : isSet operator.kind = false := by
        cases kind : operator.kind with
        | set set =>
          rw [kind] at drops
          rcases drops with bool | ⟨arithmetic, _⟩
          · cases bool
          · cases arithmetic
        | _ => rfl
      have bothSome : left ≠ [] ∧ right ≠ [] := by
        have many := List.ne_nil_of_mem mHere
        have one := List.ne_nil_of_mem oHere
        unfold manyOf at many
        unfold oneOf at one
        split at many
        · next swapped =>
          rw [if_pos swapped] at one
          exact ⟨one, many⟩
        · next straight =>
          rw [if_neg straight] at one
          exact ⟨many, one⟩
      refine ⟨noSet, bothSome.1, bothSome.2, .inr (.inr ⟨m, mHere, m', mHere', o, oHere, o', oHere',
        fun same => apart (by rw [same]), gives, gives', .inr ⟨trivial, fun name => ?_⟩⟩)⟩
      by_cases named : name = metricName
      · rw [named, resultLabel_name drops, resultLabel_name drops]
      · rw [resultLabel_other named, resultLabel_other named, kind]
        have alike := others name named
        cases grouped : (matchOf operator).2.2 with
        | some grouping =>
          rw [grouped] at alike
          dsimp only at alike ⊢
          split at alike
          · next inside => rw [if_pos inside, if_pos inside, alike]
          · next outside => rw [if_neg outside, if_neg outside, alike]
        | none =>
          rw [grouped] at alike
          dsimp only at alike ⊢
          split
          · next inside => exact alike inside
          · rfl

/-! ### Set operators -/

def timed (output side : Schema) (rows : List Sample) : List Sample :=
  rows.map fun row => { row with time := timeAt output side row }

theorem timed_labels (output side : Schema) (rows : List Sample) :
    (timed output side rows).map Sample.labels = rows.map Sample.labels := by
  unfold timed
  rw [List.map_map]
  rfl

theorem mem_timed {output side : Schema} {rows : List Sample} {row : Sample} :
    row ∈ timed output side rows ↔ ∃ r ∈ rows, row = { r with time := timeAt output side r } := by
  unfold timed
  rw [List.mem_map]
  constructor
  · rintro ⟨r, member, rfl⟩
    exact ⟨r, member, rfl⟩
  · rintro ⟨r, member, rfl⟩
    exact ⟨r, member, rfl⟩

theorem mem_signatures {row : Sample} {rows : List Sample} :
    signatureOf operator row ∈ rows.map (signatureOf operator) ↔ ∃ r ∈ rows, Same operator row r := by
  rw [List.mem_map]
  constructor
  · rintro ⟨r, member, equal⟩
    exact ⟨r, member, signatureOf_eq.mp equal.symm⟩
  · rintro ⟨r, member, same⟩
    exact ⟨r, member, (signatureOf_eq.mpr same).symm⟩

theorem setRows_eq (set : PromQLVectorSetOpKind) :
    setRows sides set (matchOf operator).1 (matchOf operator).2.1 left right = match set with
      | .and => timed sides.output sides.left
          (left.filter fun row => signatureOf operator row ∈ right.map (signatureOf operator))
      | .unless => timed sides.output sides.left
          (left.filter fun row => signatureOf operator row ∉ right.map (signatureOf operator))
      | .or => timed sides.output sides.left left ++ timed sides.output sides.right
          (right.filter fun row => signatureOf operator row ∉ left.map (signatureOf operator)) := by
  unfold setRows timed
  cases set with
  | and =>
    simp only [reduceCtorEq, if_false, List.append_nil, decide_false, Bool.false_or, decide_true]
    congr 1
    apply List.filter_congr
    intro row _
    exact Bool.decide_eq_true
  | «unless» =>
    simp only [reduceCtorEq, if_false, List.append_nil, decide_false, Bool.false_or]
    congr 1
    apply List.filter_congr
    intro row _
    show decide (decide (signatureOf operator row ∈ right.map (signatureOf operator)) = false) = _
    by_cases found : signatureOf operator row ∈ right.map (signatureOf operator) <;> simp only [found] <;> rfl
  | or =>
    simp only [if_true, decide_true, Bool.true_or, List.filter_true]
    rfl

theorem mem_setRows {set : PromQLVectorSetOpKind} (kind : operator.kind = .set set) {row : Sample} :
    row ∈ setRows sides set (matchOf operator).1 (matchOf operator).2.1 left right ↔
      InResult arithmetic sides operator left right row := by
  rw [setRows_eq]
  unfold InResult
  rw [kind]
  cases set with
  | and =>
    dsimp only
    simp only [mem_timed, List.mem_filter, decide_eq_true_eq, mem_signatures, and_assoc]
  | «unless» =>
    dsimp only
    simp only [mem_timed, List.mem_filter, decide_eq_true_eq, mem_signatures, and_assoc]
  | or =>
    dsimp only
    simp only [List.mem_append, mem_timed, List.mem_filter, decide_eq_true_eq, mem_signatures, and_assoc]
    have turned (r : Sample) : (∃ l ∈ left, Same operator r l) ↔ ∃ l ∈ left, Same operator l r :=
      ⟨fun ⟨l, member, same⟩ => ⟨l, member, same.symm⟩, fun ⟨l, member, same⟩ => ⟨l, member, same.symm⟩⟩
    simp only [turned]

section
variable (leftApart : (left.map Sample.labels).Nodup) (rightApart : (right.map Sample.labels).Nodup)
include leftApart rightApart

theorem setRows_nodup (set : PromQLVectorSetOpKind) :
    ((setRows sides set (matchOf operator).1 (matchOf operator).2.1 left right).map
      Sample.labels).Nodup := by
  rw [setRows_eq]
  have part {rows : List Sample} (apart : (rows.map Sample.labels).Nodup) (keep : Sample → Bool) :
      ((rows.filter keep).map Sample.labels).Nodup :=
    apart.sublist (List.filter_sublist.map _)
  cases set with
  | and =>
    dsimp only
    rw [timed_labels]
    exact part leftApart _
  | «unless» =>
    dsimp only
    rw [timed_labels]
    exact part leftApart _
  | or =>
    dsimp only
    rw [List.map_append, timed_labels, timed_labels]
    refine List.nodup_append.mpr ⟨leftApart, part rightApart _, ?_⟩
    rintro labels fromLeft other fromRight rfl
    obtain ⟨l, leftHere, labelsLeft⟩ := List.mem_map.mp fromLeft
    obtain ⟨r, rightHere, labelsRight⟩ := List.mem_map.mp fromRight
    obtain ⟨_, unmatched⟩ := List.mem_filter.mp rightHere
    -- Rows of one label set are of one match group.
    apply of_decide_eq_true unmatched
    apply List.mem_map.mpr
    refine ⟨l, leftHere, ?_⟩
    unfold signatureOf
    rw [labelsLeft, labelsRight]

theorem vectorRows_cases :
    (Fails arithmetic operator left right (Same operator) ∧
        ∃ error ∈ matchErrors, vectorRows arithmetic sides operator left right = .error error) ∨
      ¬ Fails arithmetic operator left right (Same operator) ∧
        ∃ rows, vectorRows arithmetic sides operator left right = .ok rows ∧
          (∀ row, row ∈ rows ↔ InResult arithmetic sides operator left right row) ∧
          ((rows.map Sample.labels).Nodup ↔
            ¬ Fails arithmetic operator left right fun _ _ => True) := by
  cases set : isSet operator.kind with
  | false => exact vectorRows_of leftApart.of_map rightApart.of_map set
  | true =>
    have noFail (alike : Sample → Sample → Prop) : ¬ Fails arithmetic operator left right alike := by
      rintro ⟨noSet, _⟩
      cases set.symm.trans noSet
    cases kind : operator.kind with
    | set op =>
      refine .inr ⟨noFail _, setRows sides op (matchOf operator).1 (matchOf operator).2.1 left right, ?_,
        fun row => mem_setRows kind, fun _ => noFail _, fun _ => setRows_nodup leftApart rightApart op⟩
      unfold vectorRows
      rw [kind]
    | _ =>
      rw [kind] at set
      cases set

end
end AsapPlanner.Vectors
