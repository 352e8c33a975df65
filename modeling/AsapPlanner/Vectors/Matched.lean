import AsapPlanner.Vectors.Reference
import Mathlib.Data.List.Nodup
import Mathlib.Data.List.Pairwise

/-!
The matching of the code is the reference's, but that the code compares label sets within a match group
only. Whether two vectors' matching fails, and which rows it gives, said of pairs of rows.
-/

namespace AsapPlanner.Vectors
open Ir Rust

variable {arithmetic : Arithmetic} {operator : BinaryOperator} {sides : Sides}

/-! ### Signatures and label sets -/

def signatureOf (operator : BinaryOperator) (row : Sample) : Labels :=
  signature (matchOf operator).1 (matchOf operator).2.1 row.labels

theorem filter_const {α : Type} (keep : Bool) (held : Option α) :
    held.filter (fun _ => keep) = if keep then held else none := by
  cases held <;> cases keep <;> rfl

theorem get?_signature (kind : VectorMatchKind) (names : List String) (labels : Labels) (name : String) :
    (signature kind names labels).get? name = match kind with
      | .on => if name ∈ names then labels.get? name else none
      | .ignoring => if name ≠ metricName ∧ name ∉ names then labels.get? name else none := by
  cases kind with
  | on =>
    simp only [signature, BTreeMap.get?_retain, filter_const]
    by_cases here : name ∈ names <;> simp [here]
  | ignoring =>
    simp only [signature, BTreeMap.get?_retain, filter_const]
    by_cases here : name ∈ names <;> by_cases same : name = metricName <;> simp [here, same]

theorem signatureOf_eq {a b : Sample} :
    signatureOf operator a = signatureOf operator b ↔ Same operator a b := by
  unfold signatureOf Same Sees
  obtain ⟨kind, names, grouping⟩ := matchOf operator
  dsimp only
  constructor
  · intro equal name sees
    have there := congrArg (BTreeMap.get? · name) equal
    simp only [get?_signature] at there
    cases kind with
    | on => simpa only [if_pos sees] using there
    | ignoring => simpa only [if_pos sees] using there
  · intro same
    apply BTreeMap.ext_get?
    intro name
    rw [get?_signature, get?_signature]
    cases kind with
    | on =>
      dsimp only
      split
      · next sees => exact same name sees
      · rfl
    | ignoring =>
      dsimp only
      split
      · next sees => exact same name sees
      · rfl

theorem get?_included (oneLabels metric : Labels) (names : List String) (name : String) :
    (included oneLabels metric names).get? name =
      if name ∈ names then oneLabels.get? name else metric.get? name := by
  induction names generalizing metric with
  | nil => rfl
  | cons first names ih =>
    have step : (includeLabel oneLabels metric first).get? name =
        if name = first then oneLabels.get? first else metric.get? name := by
      unfold includeLabel
      cases oneLabels.get? first with
      | none => exact BTreeMap.get?_remove metric first name
      | some value => exact BTreeMap.get?_insert metric first name value
    show (included oneLabels _ names).get? name = _
    rw [ih, step]
    by_cases later : name ∈ names
    · simp [later]
    · by_cases here : name = first
      · subst here
        simp
      · simp [later, here]

theorem get?_resultMetric (many one : Sample) (name : String) :
    (resultMetric operator many.labels one.labels).get? name = resultLabel operator many one name := by
  unfold resultMetric resultLabel
  obtain ⟨kind, names, grouping⟩ := matchOf operator
  dsimp only
  have dropped : (if isArithmetic operator.kind then many.labels.remove metricName
      else many.labels).get? name = if isArithmetic operator.kind = true ∧ name = metricName then none
        else many.labels.get? name := by
    cases isArithmetic operator.kind with
    | false => simp
    | true => simp
  generalize (if isArithmetic operator.kind then many.labels.remove metricName
    else many.labels) = metric at dropped ⊢
  have finished (metric : Labels) : (if isCompareBool operator.kind then metric.remove metricName
      else metric).get? name = if isCompareBool operator.kind = true ∧ name = metricName then none
        else metric.get? name := by
    cases isCompareBool operator.kind with
    | false => simp
    | true => simp
  rw [finished]
  congr 1
  cases grouping with
  | some grouping => rw [get?_included, dropped]
  | none =>
    cases kind with
    | on =>
      rw [BTreeMap.get?_retain, filter_const, dropped]
      by_cases listed : name ∈ names <;> simp [listed]
    | ignoring =>
      rw [BTreeMap.get?_retain, filter_const, dropped]
      by_cases listed : name ∈ names <;> simp [listed]

/-! ### Values -/

theorem apply_of {left right : F64} (noSet : isSet operator.kind = false) :
    (Applies arithmetic operator left right ∧
        apply arithmetic operator left right = .ok (binopValue arithmetic operator left right)) ∨
      (¬ Applies arithmetic operator left right ∧
        apply arithmetic operator left right = .error invalidBinary) := by
  obtain ⟨relative, finite, kind, vectorMatch⟩ := operator
  unfold Applies apply evaluateBinary binopValue
  dsimp only at noSet ⊢
  by_cases checked : relative = true ∨ finite = true
  · have taken : (relative || finite) = true := by simpa using checked
    rw [taken]
    by_cases domain : kind = .arithmetic .div ∧ left.isFinite = true ∧ right.isFinite = true ∧
        right.eq zero = false ∧ (arithmetic .div left right).isFinite = true ∧
        (relative = true → isNormal (arithmetic .div left right) = true)
    · obtain ⟨rfl, leftFinite, rightFinite, apart, result, normal⟩ := domain
      left
      refine ⟨⟨rfl, fun _ => ⟨rfl, leftFinite, rightFinite, apart, result, normal⟩⟩, ?_⟩
      cases relative with
      | false => simp [leftFinite, rightFinite, apart, result]
      | true => simp [leftFinite, rightFinite, apart, result, normal rfl]
    · right
      refine ⟨fun applies => domain (applies.2 checked), ?_⟩
      by_cases first : kind ≠ .arithmetic .div || !left.isFinite || !right.isFinite || right.eq zero
      · simp only [if_true, if_pos first]
      · have second : (!(arithmetic .div left right).isFinite ||
            relative && !isNormal (arithmetic .div left right)) = true := by
          by_contra clear
          apply domain
          simp only [Bool.or_eq_true, decide_eq_true_eq, Bool.not_eq_true', not_or,
            Bool.not_eq_false, Bool.not_eq_true, ne_eq, not_not, Bool.and_eq_true, not_and] at first clear
          exact ⟨first.1.1.1, first.1.1.2, first.1.2, first.2, clear.1, clear.2⟩
        simp only [if_true, if_neg first, second]
  · have untaken : (relative || finite) = false := by simpa using checked
    rw [untaken]
    have free : ∀ {p : Prop}, relative = true ∨ finite = true → p := fun there => absurd there checked
    cases kind with
    | arithmetic op => exact .inl ⟨⟨rfl, free⟩, rfl⟩
    | compare op =>
      cases valid : compares op with
      | true =>
        left
        refine ⟨⟨valid, free⟩, ?_⟩
        cases op <;> first | exact absurd valid (by decide) | simp [compareValues]
      | false =>
        right
        refine ⟨fun applies => by simp [validKind, valid] at applies, ?_⟩
        cases op <;> first | exact absurd valid (by decide) | rfl
    | compareBool op =>
      cases valid : compares op with
      | true =>
        left
        refine ⟨⟨valid, free⟩, ?_⟩
        cases op <;> first | exact absurd valid (by decide) | simp [compareValues]
      | false =>
        right
        refine ⟨fun applies => by simp [validKind, valid] at applies, ?_⟩
        cases op <;> first | exact absurd valid (by decide) | rfl
    | set op => cases noSet

/-! ### The "one" side -/

def keyed (operator : BinaryOperator) (row : Sample) : Labels × Sample := (signatureOf operator row, row)

theorem lookup_keyed (rows : List Sample) (key : Labels) :
    (rows.map (keyed operator)).lookup key = rows.find? fun row => key = signatureOf operator row := by
  induction rows with
  | nil => rfl
  | cons row rows ih =>
    rw [List.map_cons, keyed, List.lookup_cons, ih, List.find?_cons]
    by_cases here : key = signatureOf operator row
    · simp [here]
    · rw [decide_eq_false here, beq_eq_false_iff_ne.mpr here]

theorem foldlM_ones (side : Bool) (before rows : List Sample)
    (distinct : (before.map (signatureOf operator)).Nodup) :
    (((before ++ rows).map (signatureOf operator)).Nodup ∧
      rows.foldlM (addOne (matchOf operator).1 (matchOf operator).2.1 side)
        (before.map (keyed operator)) = .ok ((before ++ rows).map (keyed operator))) ∨
    (¬ ((before ++ rows).map (signatureOf operator)).Nodup ∧
      ∃ error ∈ matchErrors, rows.foldlM (addOne (matchOf operator).1 (matchOf operator).2.1 side)
        (before.map (keyed operator)) = .error error) := by
  induction rows generalizing before with
  | nil =>
    rw [List.append_nil]
    exact .inl ⟨distinct, rfl⟩
  | cons row rows ih =>
    have key : signature (matchOf operator).1 (matchOf operator).2.1 row.labels =
      signatureOf operator row := rfl
    rw [List.foldlM_cons, addOne, key, lookup_keyed]
    cases found : before.find? fun other => signatureOf operator row = signatureOf operator other with
    | some other =>
      right
      constructor
      · rw [List.map_append, List.map_cons]
        intro nodup
        have same := List.find?_some found
        rw [decide_eq_true_eq] at same
        apply (List.nodup_append.mp nodup).2.2 (signatureOf operator other)
          (List.mem_map_of_mem (List.mem_of_find?_eq_some found)) _ List.mem_cons_self same.symm
      · refine ⟨_, ?_, rfl⟩
        cases side <;> decide
    | none =>
      have fresh : ((before ++ [row]).map (signatureOf operator)).Nodup := by
        rw [List.map_append, List.nodup_append]
        refine ⟨distinct, List.nodup_singleton _, fun key member other here same => ?_⟩
        obtain ⟨held, listed, rfl⟩ := List.mem_map.mp member
        cases List.mem_singleton.mp here
        exact List.find?_eq_none.mp found held listed (decide_eq_true same.symm)
      have next := ih (before ++ [row]) fresh
      have grown : (before ++ [row]).map (keyed operator) =
          before.map (keyed operator) ++ [(signatureOf operator row, row)] := by
        rw [List.map_append, List.map_singleton, keyed]
      rw [grown, List.append_assoc, List.singleton_append] at next
      exact next

/-! ### The "many" side -/

/-- The row of the "one" side that a row is matched with. -/
def partner (operator : BinaryOperator) (ones : List Sample) (m : Sample) : Option Sample :=
  ones.find? fun o => signatureOf operator m = signatureOf operator o

/-- What a row gives, with its signature. -/
def gave (arithmetic : Arithmetic) (sides : Sides) (operator : BinaryOperator) (ones : List Sample)
    (m : Sample) : Option (Labels × Sample) :=
  (partner operator ones m).bind fun o =>
    (binopValue arithmetic operator (valuesOf operator m o).1 (valuesOf operator m o).2).map
      fun value => (signatureOf operator m,
        ⟨timeAt sides.output sides.left (if swapped operator then o else m),
          resultMetric operator m.labels o.labels, value⟩)

/-- No label set twice in a match group, and one alone where the match is one-to-one. -/
def Apart (operator : BinaryOperator) (results : List (Labels × Labels)) : Prop :=
  ((matchOf operator).2.2 = none → (results.map Prod.fst).Nodup) ∧ results.Nodup

def resultOf (entry : Labels × Sample) : Labels × Labels := (entry.1, entry.2.labels)

theorem matchRow_of (noSet : isSet operator.kind = false) (ones : List Sample) (matched : Matched)
    (m : Sample) :
    (∃ o, partner operator ones m = some o ∧
        ¬ Applies arithmetic operator (valuesOf operator m o).1 (valuesOf operator m o).2 ∧
        matchRow arithmetic sides operator (ones.map (keyed operator)) matched m =
          .error invalidBinary) ∨
      (∀ o, partner operator ones m = some o →
        Applies arithmetic operator (valuesOf operator m o).1 (valuesOf operator m o).2) ∧
      matchRow arithmetic sides operator (ones.map (keyed operator)) matched m =
        match gave arithmetic sides operator ones m with
        | none => .ok matched
        | some entry => addRow (matchOf operator).2.2 matched entry.1 entry.2 := by
  have key : signature (matchOf operator).1 (matchOf operator).2.1 m.labels =
    signatureOf operator m := rfl
  unfold matchRow gave
  dsimp only
  rw [key, lookup_keyed]
  have partnered : (ones.find? fun row => signatureOf operator m = signatureOf operator row) =
    partner operator ones m := rfl
  rw [partnered]
  cases partner operator ones m with
  | none => exact .inr ⟨nofun, rfl⟩
  | some o =>
    rcases @apply_of arithmetic operator (valuesOf operator m o).1 (valuesOf operator m o).2 noSet with
      ⟨applies, value⟩ | ⟨fails, error⟩
    · right
      refine ⟨fun other same => Option.some.inj same ▸ applies, ?_⟩
      unfold valuesOf at value ⊢
      rw [Option.bind_some]
      dsimp only
      rw [value]
      cases binopValue arithmetic operator _ _ <;> rfl
    · left
      refine ⟨o, rfl, fails, ?_⟩
      unfold valuesOf at error
      dsimp only
      rw [error]

theorem addRow_of (matched : Matched) (key : Labels) (row : Sample) :
    (addRow (matchOf operator).2.2 matched key row =
        .ok ⟨matched.results ++ [(key, row.labels)], matched.rows ++ [row]⟩ ∧
      (Apart operator matched.results → Apart operator (matched.results ++ [(key, row.labels)]))) ∨
    (∃ error ∈ matchErrors, addRow (matchOf operator).2.2 matched key row = .error error) ∧
      ∀ rest, ¬ Apart operator (matched.results ++ (key, row.labels) :: rest) := by
  unfold addRow
  by_cases twice : (matchOf operator).2.2.isNone = true ∧ key ∈ matched.results.map Prod.fst
  · right
    rw [if_pos (by simpa using twice)]
    refine ⟨⟨_, by decide, rfl⟩, fun rest apart => ?_⟩
    have distinct := apart.1 (Option.isNone_iff_eq_none.mp twice.1)
    rw [List.map_append, List.map_cons] at distinct
    exact (List.nodup_append.mp distinct).2.2 key twice.2 key List.mem_cons_self rfl
  · rw [if_neg (by simpa using twice)]
    by_cases again : (key, row.labels) ∈ matched.results
    · right
      rw [if_pos again]
      refine ⟨⟨_, by decide, rfl⟩, fun rest apart => ?_⟩
      exact (List.nodup_append.mp apart.2).2.2 _ again _ List.mem_cons_self rfl
    · left
      rw [if_neg again]
      refine ⟨rfl, fun apart => ⟨fun none => ?_, ?_⟩⟩
      · have fresh : key ∉ matched.results.map Prod.fst :=
          fun there => twice ⟨Option.isNone_iff_eq_none.mpr none, there⟩
        rw [List.map_append, List.map_singleton]
        refine List.nodup_append.mpr ⟨apart.1 none, List.nodup_singleton _, ?_⟩
        intro a aHere b bHere same
        rw [same, List.mem_singleton.mp bHere] at aHere
        exact fresh aHere
      · refine List.nodup_append.mpr ⟨apart.2, List.nodup_singleton _, ?_⟩
        intro a aHere b bHere same
        rw [same, List.mem_singleton.mp bHere] at aHere
        exact again aHere

/-- The rows of the "many" side one after another: each applies and stands apart from those before,
or the matching fails. -/
theorem foldlM_matchRow (noSet : isSet operator.kind = false) (ones items : List Sample)
    (matched : Matched) (apart : Apart operator matched.results) :
    ((∀ m ∈ items, ∀ o, partner operator ones m = some o →
          Applies arithmetic operator (valuesOf operator m o).1 (valuesOf operator m o).2) ∧
        Apart operator (matched.results ++
          (items.filterMap (gave arithmetic sides operator ones)).map resultOf) ∧
        items.foldlM (matchRow arithmetic sides operator (ones.map (keyed operator))) matched = .ok
          ⟨matched.results ++ (items.filterMap (gave arithmetic sides operator ones)).map resultOf,
            matched.rows ++ (items.filterMap (gave arithmetic sides operator ones)).map Prod.snd⟩) ∨
      (¬ ((∀ m ∈ items, ∀ o, partner operator ones m = some o →
            Applies arithmetic operator (valuesOf operator m o).1 (valuesOf operator m o).2) ∧
          Apart operator (matched.results ++
            (items.filterMap (gave arithmetic sides operator ones)).map resultOf)) ∧
        ∃ error ∈ matchErrors,
          items.foldlM (matchRow arithmetic sides operator (ones.map (keyed operator))) matched =
            .error error) := by
  induction items generalizing matched with
  | nil =>
    left
    simp only [List.filterMap_nil, List.map_nil, List.append_nil]
    exact ⟨nofun, apart, rfl⟩
  | cons m items ih =>
    rw [List.foldlM_cons]
    rcases @matchRow_of arithmetic operator sides noSet ones matched m with
      ⟨o, found, fails, error⟩ | ⟨applies, step⟩
    · right
      rw [error]
      exact ⟨fun both => fails (both.1 m List.mem_cons_self o found), invalidBinary, by decide, rfl⟩
    · rw [step]
      cases given : gave arithmetic sides operator ones m with
      | none =>
        rw [List.filterMap_cons_none given]
        rcases ih matched apart with ⟨all, distinct, run⟩ | ⟨fails, failed⟩
        · left
          refine ⟨fun other member => ?_, distinct, run⟩
          rcases List.mem_cons.mp member with rfl | member
          · exact applies
          · exact all other member
        · right
          exact ⟨fun both => fails ⟨fun other member =>
            both.1 other (List.mem_cons_of_mem _ member), both.2⟩, failed⟩
      | some entry =>
        rw [List.filterMap_cons_some given, List.map_cons, List.map_cons]
        rcases @addRow_of operator matched entry.1 entry.2 with ⟨added, stays⟩ | ⟨failed, never⟩
        · have next := ih ⟨matched.results ++ [resultOf entry], matched.rows ++ [entry.2]⟩ (stays apart)
          simp only [List.append_assoc, List.singleton_append] at next
          dsimp only
          rw [added]
          rcases next with ⟨all, distinct, run⟩ | ⟨fails, failed⟩
          · left
            refine ⟨fun other member => ?_, distinct, run⟩
            rcases List.mem_cons.mp member with rfl | member
            · exact applies
            · exact all other member
          · right
            exact ⟨fun both => fails ⟨fun other member =>
              both.1 other (List.mem_cons_of_mem _ member), both.2⟩, failed⟩
        · right
          dsimp only
          obtain ⟨error, known, run⟩ := failed
          rw [run]
          exact ⟨fun both => never _ both.2, error, known, rfl⟩

/-! ### Failures and rows -/

theorem Same.symm {a b : Sample} (same : Same operator a b) : Same operator b a :=
  fun name sees => (same name sees).symm

/-! ### Partners -/

section
variable {ones : List Sample} (distinct : (ones.map (signatureOf operator)).Nodup)
include distinct

theorem partner_of {m o : Sample} :
    partner operator ones m = some o ↔ o ∈ ones ∧ Same operator m o := by
  constructor
  · intro found
    have same := List.find?_some found
    rw [decide_eq_true_eq] at same
    exact ⟨List.mem_of_find?_eq_some found, signatureOf_eq.mp same⟩
  · intro ⟨member, same⟩
    have equal := signatureOf_eq.mpr same
    unfold partner
    cases found : ones.find? fun o => signatureOf operator m = signatureOf operator o with
    | none => exact absurd (decide_eq_true equal) (List.find?_eq_none.mp found o member)
    | some other =>
      have there := List.find?_some found
      rw [decide_eq_true_eq] at there
      rw [List.inj_on_of_nodup_map distinct (List.mem_of_find?_eq_some found) member
        (there.symm.trans equal)]

theorem gave_of {m : Sample} {entry : Labels × Sample} :
    gave arithmetic sides operator ones m = some entry ↔ ∃ o ∈ ones,
      Gives arithmetic operator m o entry.2.value ∧ entry.1 = signatureOf operator m ∧
        entry.2.labels = resultMetric operator m.labels o.labels ∧
        entry.2.time = timeAt sides.output sides.left (if swapped operator then o else m) := by
  unfold gave
  rw [Option.bind_eq_some_iff]
  constructor
  · rintro ⟨o, found, mapped⟩
    obtain ⟨value, given, rfl⟩ := Option.map_eq_some_iff.mp mapped
    obtain ⟨member, same⟩ := (partner_of distinct).mp found
    exact ⟨o, member, ⟨same, given⟩, rfl, rfl, rfl⟩
  · rintro ⟨o, member, ⟨same, given⟩, key, labels, time⟩
    refine ⟨o, (partner_of distinct).mpr ⟨member, same⟩, Option.map_eq_some_iff.mpr ⟨_, given, ?_⟩⟩
    obtain ⟨key', row⟩ := entry
    cases row
    cases key
    cases labels
    cases time
    rfl

theorem gave_pair {m o : Sample} (member : o ∈ ones)
    (gives : ∃ value, Gives arithmetic operator m o value) :
    ∃ entry, gave arithmetic sides operator ones m = some entry ∧
      entry.1 = signatureOf operator m ∧
      entry.2.labels = resultMetric operator m.labels o.labels := by
  obtain ⟨value, given⟩ := gives
  exact ⟨(signatureOf operator m, ⟨timeAt sides.output sides.left (if swapped operator then o else m),
    resultMetric operator m.labels o.labels, value⟩),
    (gave_of distinct).mpr ⟨o, member, given, rfl, rfl, rfl⟩, rfl, rfl⟩

end

/-! ### Rows apart -/

theorem pairwise_given {α β : Type} {items : List α} (distinct : items.Nodup) {give : α → Option β}
    {R : β → β → Prop} (symmetric : ∀ x y, R x y → R y x) :
    (items.filterMap give).Pairwise R ↔ ∀ a ∈ items, ∀ b ∈ items, a ≠ b →
      ∀ x, give a = some x → ∀ y, give b = some y → R x y := by
  rw [List.pairwise_filterMap]
  constructor
  · intro pairs a aHere b bHere different x xGiven y yGiven
    have swap : Std.Symm fun a b => ∀ x, give a = some x → ∀ y, give b = some y → R x y :=
      ⟨fun a b related x xGiven y yGiven => symmetric y x (related y yGiven x xGiven)⟩
    exact pairs.forall aHere bHere different x xGiven y yGiven
  · intro all
    exact List.Pairwise.imp_of_mem (fun aHere bHere different => all _ aHere _ bHere different) distinct

/-- Two rows that both give a row. -/
def BothGive (arithmetic : Arithmetic) (operator : BinaryOperator) (m m' o o' : Sample) : Prop :=
  m ≠ m' ∧ (∃ value, Gives arithmetic operator m o value) ∧
    ∃ value, Gives arithmetic operator m' o' value

theorem metric_eq {m m' o o' : Sample} :
    resultMetric operator m.labels o.labels = resultMetric operator m'.labels o'.labels ↔
      ∀ name, resultLabel operator m o name = resultLabel operator m' o' name := by
  constructor
  · intro equal name
    rw [← get?_resultMetric, ← get?_resultMetric, equal]
  · intro equal
    apply BTreeMap.ext_get?
    intro name
    rw [get?_resultMetric, get?_resultMetric, equal]

section
variable {ones items : List Sample} (distinct : (ones.map (signatureOf operator)).Nodup)
  (apart : items.Nodup)
include distinct apart

theorem labels_apart :
    (((items.filterMap (gave arithmetic sides operator ones)).map Prod.snd).map
        Sample.labels).Nodup ↔
      ¬ ∃ m ∈ items, ∃ m' ∈ items, ∃ o ∈ ones, ∃ o' ∈ ones, BothGive arithmetic operator m m' o o' ∧
        ∀ name, resultLabel operator m o name = resultLabel operator m' o' name := by
  rw [List.map_map, List.Nodup, List.pairwise_map,
    pairwise_given apart fun x y different equal => different equal.symm]
  constructor
  · rintro all ⟨m, mHere, m', mHere', o, oHere, o', oHere', ⟨different, gives, gives'⟩, equal⟩
    obtain ⟨x, given, _, labels⟩ := @gave_pair arithmetic operator sides ones distinct m o oHere gives
    obtain ⟨y, given', _, labels'⟩ := @gave_pair arithmetic operator sides ones distinct m' o' oHere' gives'
    apply all m mHere m' mHere' different x given y given'
    show x.2.labels = y.2.labels
    rw [labels, labels', metric_eq.mpr equal]
  · intro none m mHere m' mHere' different x given y given' equal
    obtain ⟨o, oHere, gives, _, labels, _⟩ := (gave_of distinct).mp given
    obtain ⟨o', oHere', gives', _, labels', _⟩ := (gave_of distinct).mp given'
    refine none ⟨m, mHere, m', mHere', o, oHere, o', oHere',
      ⟨different, ⟨_, gives⟩, ⟨_, gives'⟩⟩, metric_eq.mp ?_⟩
    rw [← labels, ← labels']
    exact equal

/-- What the code keeps apart: label sets within a match group, and match groups where the match is
one-to-one. -/
theorem results_apart :
    Apart operator ((items.filterMap (gave arithmetic sides operator ones)).map resultOf) ↔
      ¬ ∃ m ∈ items, ∃ m' ∈ items, ∃ o ∈ ones, ∃ o' ∈ ones, BothGive arithmetic operator m m' o o' ∧
        ((matchOf operator).2.2 = none ∧ Same operator m m' ∨ Same operator m m' ∧
          ∀ name, resultLabel operator m o name = resultLabel operator m' o' name) := by
  unfold Apart
  rw [List.map_map, List.Nodup, List.pairwise_map,
    pairwise_given apart fun x y different equal => different equal.symm, List.Nodup,
    List.pairwise_map, pairwise_given apart fun x y different equal => different equal.symm]
  constructor
  · rintro ⟨keys, pairs⟩
      ⟨m, mHere, m', mHere', o, oHere, o', oHere', ⟨different, gives, gives'⟩, clash⟩
    obtain ⟨x, given, key, labels⟩ := @gave_pair arithmetic operator sides ones distinct m o oHere gives
    obtain ⟨y, given', key', labels'⟩ := @gave_pair arithmetic operator sides ones distinct m' o' oHere' gives'
    rcases clash with ⟨single, same⟩ | ⟨same, equal⟩
    · apply keys single m mHere m' mHere' different x given y given'
      show x.1 = y.1
      rw [key, key', signatureOf_eq.mpr same]
    · apply pairs m mHere m' mHere' different x given y given'
      show (x.1, x.2.labels) = (y.1, y.2.labels)
      rw [key, key', signatureOf_eq.mpr same, labels, labels', metric_eq.mpr equal]
  · intro none
    constructor
    · intro single m mHere m' mHere' different x given y given' equal
      obtain ⟨o, oHere, gives, key, _⟩ := (gave_of distinct).mp given
      obtain ⟨o', oHere', gives', key', _⟩ := (gave_of distinct).mp given'
      refine none ⟨m, mHere, m', mHere', o, oHere, o', oHere',
        ⟨different, ⟨_, gives⟩, ⟨_, gives'⟩⟩, .inl ⟨single, signatureOf_eq.mp ?_⟩⟩
      rw [← key, ← key']
      exact equal
    · intro m mHere m' mHere' different x given y given' equal
      obtain ⟨o, oHere, gives, key, labels, _⟩ := (gave_of distinct).mp given
      obtain ⟨o', oHere', gives', key', labels', _⟩ := (gave_of distinct).mp given'
      obtain ⟨keys, sets⟩ := Prod.mk.inj equal
      refine none ⟨m, mHere, m', mHere', o, oHere, o', oHere', ⟨different, ⟨_, gives⟩, ⟨_, gives'⟩⟩,
        .inr ⟨signatureOf_eq.mp ?_, metric_eq.mp ?_⟩⟩
      · rw [← key, ← key', keys]
      · rw [← labels, ← labels', sets]

end
end AsapPlanner.Vectors
