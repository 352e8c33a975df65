import AsapPlanner.Milp.WarmStart

/-!
A derivation that succeeds supports each candidate it chose and each shareable candidate it
selected, and one that fails changes nothing that undoing its log does not restore.
-/

namespace AsapPlanner.Milp
open Plan Milp.Derivation

namespace MilpInputs
variable {n : Nat} (inputs : MilpInputs n) {Memo : Type}

/-! ### Support -/

/-- An input of a computed reader: a chosen producer of another slot, recorded where the input may
read several. -/
def Fed (plan : Plan n) (context : Nat) (reader : Fin n) (input : Nat) (producers : List (Fin n)) :
    Prop :=
  ∃ producer ∈ producers, inputs.slot producer ≠ inputs.slot reader ∧
    inputs.Chosen plan context producer ∧
    ((inputs.slotLinks context reader input).isSome →
      plan.slotReads.lookup (context, reader, input) = some (inputs.slot producer))

/-- What a chosen candidate rests on. -/
def Supported (plan : Plan n) (context : Nat) (candidate : Fin n) : Prop :=
  if inputs.computes context candidate then
    ∀ producers input, (producers, input) ∈ (inputs.producers candidate).zipIdx →
      inputs.Fed plan context candidate input producers
  else match inputs.kind candidate with
    | .shareable => candidate ∈ plan.selected
    | .ingestion => ∃ source, inputs.ingestionContextReadBy context = some source ∧
        inputs.Chosen plan source candidate
    | .perContext => False

/-- What a selected candidate's own run rests on. -/
def OwnSupported (plan : Plan n) (shareable : Fin n) : Prop :=
  ∃ own, inputs.contextOfShareable shareable = some own ∧
    ∀ producers ∈ inputs.producers shareable, ∃ producer ∈ producers,
      inputs.Chosen plan own producer

/-- Some context chose a shareable candidate that it does not compute itself. -/
def Shared (plan : Plan n) (shareable : Fin n) : Prop :=
  inputs.kind shareable = .shareable ∧
    ∃ context, shareable ∈ inputs.options context ∧ inputs.Chosen plan context shareable

def Recorded (plan : Plan n) : Prop :=
  ∀ context reader input slot, plan.slotReads.lookup (context, reader, input) = some slot →
    inputs.Chosen plan context reader

variable {inputs}

theorem Chosen.mono {before after : Plan n} (extends' : Extends before after) {context : Nat}
    {candidate : Fin n} (chosen : inputs.Chosen before context candidate) :
    inputs.Chosen after context candidate :=
  extends'.chosen _ _ _ chosen

theorem Fed.mono {before after : Plan n} (extends' : Extends before after) {context input : Nat}
    {reader : Fin n} {producers : List (Fin n)}
    (fed : inputs.Fed before context reader input producers) :
    inputs.Fed after context reader input producers := by
  obtain ⟨producer, member, apart, chosen, recorded⟩ := fed
  exact ⟨producer, member, apart, chosen.mono extends',
    fun several => extends'.slotReads _ _ (recorded several)⟩

theorem Supported.mono {before after : Plan n} (extends' : Extends before after) {context : Nat}
    {candidate : Fin n} (supported : inputs.Supported before context candidate) :
    inputs.Supported after context candidate := by
  unfold Supported at supported ⊢
  split
  · next computed =>
    rw [if_pos computed] at supported
    exact fun producers input listed => (supported producers input listed).mono extends'
  · next crossing =>
    rw [if_neg crossing] at supported
    split
    · next kind =>
      rw [kind] at supported
      exact extends'.selected supported
    · next kind =>
      rw [kind] at supported
      obtain ⟨source, found, chosen⟩ := supported
      exact ⟨source, found, chosen.mono extends'⟩
    · next kind =>
      rw [kind] at supported
      exact supported

theorem OwnSupported.mono {before after : Plan n} (extends' : Extends before after) {shareable : Fin n}
    (supported : inputs.OwnSupported before shareable) : inputs.OwnSupported after shareable := by
  obtain ⟨own, found, each⟩ := supported
  refine ⟨own, found, fun producers member => ?_⟩
  obtain ⟨producer, here, chosen⟩ := each producers member
  exact ⟨producer, here, chosen.mono extends'⟩

theorem Shared.mono {before after : Plan n} (extends' : Extends before after) {shareable : Fin n}
    (shared : inputs.Shared before shareable) : inputs.Shared after shareable := by
  obtain ⟨kind, context, listed, chosen⟩ := shared
  exact ⟨kind, context, listed, chosen.mono extends'⟩

/-! ### Growth -/

variable (inputs)

/-- From one plan to a later: what is new is supported, but for the choices and selections still in
progress, and only readers that were not chosen before have new slot reads. -/
structure Grows (choosing : Set (Nat × Fin n)) (selecting : Set (Fin n)) (before after : Plan n) :
    Prop extends Extends before after where
  newChosen : ∀ context slot candidate, (after.chosen context).lookup slot = some candidate →
    (before.chosen context).lookup slot = some candidate ∨
      (slot = inputs.slot candidate ∧ candidate ∈ inputs.options context ∧
        ((context, candidate) ∈ choosing ∨ inputs.Supported after context candidate))
  newSelected : ∀ shareable ∈ after.selected, shareable ∈ before.selected ∨
    (inputs.Shared after shareable ∧
      (shareable ∈ selecting ∨ inputs.OwnSupported after shareable))
  newReads : ∀ context reader input slot,
    after.slotReads.lookup (context, reader, input) = some slot →
    before.slotReads.lookup (context, reader, input) = some slot ∨
      (¬ inputs.Chosen before context reader ∧ inputs.Chosen after context reader)

variable {inputs} {choosing : Set (Nat × Fin n)} {selecting : Set (Fin n)}

theorem Grows.refl (plan : Plan n) : inputs.Grows ∅ ∅ plan plan where
  toExtends := Extends.refl plan
  newChosen := fun _ _ _ found => .inl found
  newSelected := fun _ member => .inl member
  newReads := fun _ _ _ _ found => .inl found

theorem Grows.trans {a b c : Plan n} (first : inputs.Grows choosing selecting a b)
    (second : inputs.Grows ∅ ∅ b c) : inputs.Grows choosing selecting a c where
  toExtends := first.toExtends.trans second.toExtends
  newChosen context slot candidate found := by
    rcases second.newChosen context slot candidate found with earlier | ⟨same, listed, supported⟩
    · rcases first.newChosen context slot candidate earlier with older | ⟨same, listed, supported⟩
      · exact .inl older
      · exact .inr ⟨same, listed, supported.imp_right (Supported.mono second.toExtends)⟩
    · exact .inr ⟨same, listed, .inr (supported.resolve_left (Set.notMem_empty _))⟩
  newSelected shareable member := by
    rcases second.newSelected shareable member with earlier | ⟨shared, supported⟩
    · rcases first.newSelected shareable earlier with older | ⟨shared, supported⟩
      · exact .inl older
      · exact .inr ⟨shared.mono second.toExtends,
          supported.imp_right (OwnSupported.mono second.toExtends)⟩
    · exact .inr ⟨shared, .inr (supported.resolve_left (Set.notMem_empty _))⟩
  newReads context reader input slot found := by
    rcases second.newReads context reader input slot found with earlier | ⟨absent, chosen⟩
    · rcases first.newReads context reader input slot earlier with older | ⟨absent, chosen⟩
      · exact .inl older
      · exact .inr ⟨absent, chosen.mono second.toExtends⟩
    · exact .inr ⟨fun before => absent (before.mono first.toExtends), chosen⟩

theorem Grows.recorded {before after : Plan n} (grows : inputs.Grows choosing selecting before after)
    (recorded : inputs.Recorded before) : inputs.Recorded after := by
  intro context reader input slot found
  rcases grows.newReads context reader input slot found with earlier | ⟨_, chosen⟩
  · exact (recorded context reader input slot earlier).mono grows.toExtends
  · exact chosen

theorem Grows.finish {before after : Plan n} {context : Nat} {candidate : Fin n}
    (grows : inputs.Grows {(context, candidate)} selecting before after)
    (supported : inputs.Supported after context candidate)
    (own : ∀ shareable ∈ selecting, inputs.OwnSupported after shareable) :
    inputs.Grows ∅ ∅ before after where
  toExtends := grows.toExtends
  newChosen context' slot other found := by
    rcases grows.newChosen context' slot other found with older | ⟨same, listed, inProgress | rests⟩
    · exact .inl older
    · cases Set.mem_singleton_iff.mp inProgress
      exact .inr ⟨same, listed, .inr supported⟩
    · exact .inr ⟨same, listed, .inr rests⟩
  newSelected shareable member := by
    rcases grows.newSelected shareable member with older | ⟨shared, inProgress | rests⟩
    · exact .inl older
    · exact .inr ⟨shared, .inr (own shareable inProgress)⟩
    · exact .inr ⟨shared, .inr rests⟩
  newReads := grows.newReads

theorem Grows.choose {plan : Plan n} {context : Nat} {candidate : Fin n}
    (free : (plan.chosen context).lookup (inputs.slot candidate) = none)
    (listed : candidate ∈ inputs.options context) :
    inputs.Grows {(context, candidate)} ∅ plan
      (plan.choose context (inputs.slot candidate) candidate) where
  toExtends := choose_extends free candidate
  newChosen context' slot other found := by
    rw [lookup_choose] at found
    split at found
    · next here =>
      obtain ⟨rfl, rfl⟩ := here
      cases found
      exact .inr ⟨rfl, listed, .inl rfl⟩
    · exact .inl found
  newSelected := fun _ member => .inl member
  newReads := fun _ _ _ _ found => .inl found

theorem Grows.select {before after : Plan n} (grows : inputs.Grows choosing ∅ before after)
    {shareable : Fin n} (shared : inputs.Shared after shareable) :
    inputs.Grows choosing {shareable} before (after.select shareable) where
  toExtends := grows.toExtends.trans (select_extends shareable)
  newChosen context slot candidate found := by
    rcases grows.newChosen context slot candidate found with older | ⟨same, listed, supported⟩
    · exact .inl older
    · exact .inr ⟨same, listed, supported.imp_right (Supported.mono (select_extends shareable))⟩
  newSelected other member := by
    rcases Finset.mem_insert.mp member with rfl | kept
    · exact .inr ⟨shared.mono (select_extends _), .inl rfl⟩
    · rcases grows.newSelected other kept with older | ⟨shared, supported⟩
      · exact .inl older
      · exact .inr ⟨shared.mono (select_extends _), .inr ((supported.resolve_left
          (Set.notMem_empty _)).mono (select_extends _))⟩
  newReads := grows.newReads

theorem Grows.readSlot {before after : Plan n} (grows : inputs.Grows choosing selecting before after)
    {context input : Nat} {reader : Fin n} (slot : ResultSlot)
    (absent : ¬ inputs.Chosen before context reader) (chosen : inputs.Chosen after context reader)
    (fresh : after.slotReads.lookup (context, reader, input) = none) :
    inputs.Grows choosing selecting before (after.readSlot context reader input slot) where
  toExtends := grows.toExtends.trans (readSlot_extends fresh slot)
  newChosen context slot' candidate found := by
    rcases grows.newChosen context slot' candidate found with older | ⟨same, listed, supported⟩
    · exact .inl older
    · exact .inr ⟨same, listed, supported.imp_right (Supported.mono (readSlot_extends fresh slot))⟩
  newSelected shareable member := by
    rcases grows.newSelected shareable member with older | ⟨shared, supported⟩
    · exact .inl older
    · exact .inr ⟨shared.mono (readSlot_extends fresh slot),
        supported.imp_right (OwnSupported.mono (readSlot_extends fresh slot))⟩
  newReads context' reader' input' slot' found := by
    rw [lookup_readSlot] at found
    split at found
    · next same =>
      cases same
      exact .inr ⟨absent, chosen⟩
    · exact grows.newReads _ _ _ _ found

/-! ### Reads and choices -/

variable (inputs)

/-- What a read does: it fails and changes nothing, or a candidate it allows stands chosen. -/
structure Answers (read : Reading n Memo) : Prop where
  failed : ∀ {context allowed before after}, read context allowed before = (after, none) →
    inputs.Recorded before.plan → after.plan = before.plan ∧ after.undo = before.undo
  done : ∀ {context allowed before after candidate},
    read context allowed before = (after, some candidate) → inputs.Recorded before.plan →
    candidate ∈ allowed ∧ inputs.Chosen after.plan context candidate ∧
      inputs.Grows ∅ ∅ before.plan after.plan ∧ Logged before after

variable {inputs} {read : Reading n Memo} {before after : Derivation n Memo}

theorem readEach_reads (reads : inputs.Answers read) {context : Nat} {wanted : List (List (Fin n))}
    {derived : Bool} (run : readEach read context wanted before = (after, derived))
    (recorded : inputs.Recorded before.plan) :
    Logged before after ∧ inputs.Grows ∅ ∅ before.plan after.plan ∧
      (derived = true → ∀ allowed ∈ wanted, ∃ candidate ∈ allowed,
        inputs.Chosen after.plan context candidate) := by
  induction wanted generalizing before with
  | nil =>
    obtain ⟨rfl, rfl⟩ := Prod.mk.inj run
    exact ⟨.of_same rfl rfl, .refl _, fun _ => nofun⟩
  | cons allowed wanted ih =>
    unfold readEach at run
    cases first : read context allowed before with
    | mk middle result =>
      rw [first] at run
      cases result with
      | none =>
        obtain ⟨rfl, rfl⟩ := Prod.mk.inj run
        obtain ⟨plan, undo⟩ := reads.failed first recorded
        exact ⟨.of_same plan undo, plan ▸ .refl _, nofun⟩
      | some candidate =>
        obtain ⟨member, chosen, grows, logged⟩ := reads.done first recorded
        obtain ⟨later, grown, each⟩ := ih run (grows.recorded recorded)
        refine ⟨logged.trans later, grows.trans grown, fun success other here => ?_⟩
        rcases List.mem_cons.mp here with rfl | here
        · exact ⟨candidate, member, chosen.mono grown.toExtends⟩
        · exact each success other here

theorem readInputs_reads (reads : inputs.Answers read) {context : Nat} {reader : Fin n} {start : Plan n}
    {wanted : List (List (Fin n) × Nat)} {derived : Bool}
    (run : inputs.readInputs read context reader wanted before = (after, derived))
    (grows : inputs.Grows {(context, reader)} ∅ start before.plan)
    (recorded : inputs.Recorded start) (absent : ¬ inputs.Chosen start context reader)
    (chosen : inputs.Chosen before.plan context reader) (distinct : (wanted.map Prod.snd).Nodup)
    (fresh : ∀ entry ∈ wanted, before.plan.slotReads.lookup (context, reader, entry.2) = none) :
    Logged before after ∧ inputs.Grows {(context, reader)} ∅ start after.plan ∧
      Extends before.plan after.plan ∧ (derived = true → ∀ entry ∈ wanted,
        inputs.Fed after.plan context reader entry.2 entry.1) := by
  induction wanted generalizing before with
  | nil =>
    obtain ⟨rfl, rfl⟩ := Prod.mk.inj run
    exact ⟨.of_same rfl rfl, grows, .refl _, fun _ => nofun⟩
  | cons entry wanted ih =>
    obtain ⟨producers, input⟩ := entry
    rw [List.map_cons, List.nodup_cons] at distinct
    unfold readInputs at run
    cases first : read context
        (producers.filter fun producer => inputs.slot producer ≠ inputs.slot reader) before with
    | mk middle result =>
      rw [first] at run
      cases result with
      | none =>
        obtain ⟨rfl, rfl⟩ := Prod.mk.inj run
        obtain ⟨plan, undo⟩ := reads.failed first (grows.recorded recorded)
        exact ⟨.of_same plan undo, plan ▸ grows, plan ▸ .refl _, nofun⟩
      | some producer =>
        obtain ⟨member, given, grown, logged⟩ := reads.done first (grows.recorded recorded)
        obtain ⟨listed, apart⟩ := List.mem_filter.mp member
        -- The read of one input records nothing for the reader, which is chosen already.
        have still : ∀ input', before.plan.slotReads.lookup (context, reader, input') = none →
            middle.plan.slotReads.lookup (context, reader, input') = none := by
          intro input' none
          cases found : middle.plan.slotReads.lookup (context, reader, input') with
          | none => rfl
          | some slot =>
            rcases grown.newReads _ _ _ _ found with earlier | ⟨unchosen, _⟩
            · exact earlier.symm.trans none
            · exact absurd chosen unchosen
        have freshHere := still input (fresh _ List.mem_cons_self)
        dsimp only at run
        have standing := chosen.mono grown.toExtends
        by_cases several : (inputs.slotLinks context reader input).isSome
        · rw [if_pos several] at run
          have extended := readSlot_extends freshHere (inputs.slot producer)
          obtain ⟨later, whole, further, each⟩ := ih run
            ((grows.trans grown).readSlot _ absent standing freshHere) standing distinct.2
            (fun entry here => by
              show (middle.plan.readSlot _ _ _ _).slotReads.lookup _ = _
              rw [lookup_readSlot, if_neg]
              · exact still _ (fresh entry (List.mem_cons_of_mem _ here))
              · intro same
                have second : entry.2 = input := congrArg (fun key => key.2.2) same
                exact distinct.1 (List.mem_map.mpr ⟨entry, here, second⟩))
          refine ⟨(logged.trans (.record (undo_readSlot freshHere _))).trans later, whole,
            (grown.toExtends.trans extended).trans further, fun success entry here => ?_⟩
          rcases List.mem_cons.mp here with rfl | here
          · refine ⟨producer, listed, of_decide_eq_true apart,
              given.mono (extended.trans further), fun _ => further.slotReads _ _ ?_⟩
            show (middle.plan.readSlot _ _ _ _).slotReads.lookup _ = _
            rw [lookup_readSlot, if_pos rfl]
          · exact each success entry here
        · rw [if_neg several] at run
          obtain ⟨later, whole, further, each⟩ := ih run (grows.trans grown) standing distinct.2
            (fun entry here => still _ (fresh entry (List.mem_cons_of_mem _ here)))
          refine ⟨logged.trans later, whole, grown.toExtends.trans further,
            fun success entry here => ?_⟩
          rcases List.mem_cons.mp here with rfl | here
          · exact ⟨producer, listed, of_decide_eq_true apart, given.mono further,
              fun linked => absurd linked several⟩
          · exact each success entry here

theorem fillSlot_grows {context : Nat} {candidate : Fin n}
    (free : (before.plan.chosen context).lookup (inputs.slot candidate) = none)
    (listed : candidate ∈ inputs.options context) :
    Logged before (inputs.fillSlot context candidate before) ∧
      inputs.Grows {(context, candidate)} ∅ before.plan (inputs.fillSlot context candidate before).plan ∧
      inputs.Chosen (inputs.fillSlot context candidate before).plan context candidate ∧
      ¬ inputs.Chosen before.plan context candidate := by
  refine ⟨.record (undo_choose free candidate), .choose free listed, ?_, fun there => ?_⟩
  · show ((before.plan.choose context _ candidate).chosen context).lookup _ = _
    rw [lookup_choose, if_pos ⟨rfl, rfl⟩]
  · cases free.symm.trans there

theorem fillSlot_fresh {context : Nat} {candidate : Fin n} (recorded : inputs.Recorded before.plan)
    (absent : ¬ inputs.Chosen before.plan context candidate) (input : Nat) :
    (inputs.fillSlot context candidate before).plan.slotReads.lookup (context, candidate, input) =
      none := by
  show before.plan.slotReads.lookup _ = none
  cases found : before.plan.slotReads.lookup (context, candidate, input) with
  | none => rfl
  | some slot => exact absurd (recorded _ _ _ _ found) absent

theorem choose_reads (reads : inputs.Answers read) {context : Nat} {candidate : Fin n} {derived : Bool}
    (run : inputs.choose read context candidate before = (after, derived))
    (recorded : inputs.Recorded before.plan)
    (free : (before.plan.chosen context).lookup (inputs.slot candidate) = none)
    (listed : candidate ∈ inputs.options context) :
    Logged before after ∧ (derived = true →
      inputs.Chosen after.plan context candidate ∧ inputs.Grows ∅ ∅ before.plan after.plan) := by
  obtain ⟨logged, grows, chosen, absent⟩ := fillSlot_grows free listed
  unfold choose at run
  dsimp only at run
  split at run
  · next computed =>
    have distinct : ((inputs.producers candidate).zipIdx.map Prod.snd).Nodup := by
      rw [List.zipIdx_map_snd]
      exact List.nodup_range'
    obtain ⟨later, whole, further, each⟩ :=
      readInputs_reads reads run grows recorded absent chosen distinct
        fun entry _ => fillSlot_fresh recorded absent entry.2
    refine ⟨logged.trans later, fun success => ⟨chosen.mono further, whole.finish ?_ nofun⟩⟩
    rw [Supported, if_pos computed]
    exact fun producers input member => each success _ member
  · next crossing =>
    have rests {plan : Plan n} (supported : match inputs.kind candidate with
        | .shareable => candidate ∈ plan.selected
        | .ingestion => ∃ source, inputs.ingestionContextReadBy context = some source ∧
            inputs.Chosen plan source candidate
        | .perContext => False) : inputs.Supported plan context candidate := by
      rw [Supported, if_neg crossing]
      exact supported
    split at run
    · next kind =>
      rw [kind] at rests
      split at run
      · next selected =>
        obtain ⟨rfl, rfl⟩ := Prod.mk.inj run
        exact ⟨logged, fun _ => ⟨chosen, grows.finish (rests selected) nofun⟩⟩
      · next unselected =>
        have selects := grows.select ⟨kind, context, listed, chosen⟩
        have logged' := logged.trans (.record (undo_select unselected))
        split at run
        · obtain ⟨rfl, rfl⟩ := Prod.mk.inj run
          exact ⟨logged', nofun⟩
        · next own found =>
          obtain ⟨later, grown, each⟩ := readEach_reads reads run (selects.recorded recorded)
          have whole := selects.trans grown
          refine ⟨logged'.trans later, fun success => ⟨?_, ?_⟩⟩
          · exact (chosen.mono (select_extends candidate)).mono grown.toExtends
          · apply whole.finish
            · exact rests (grown.selected (Finset.mem_insert_self _ _))
            · intro shareable inProgress
              cases Set.mem_singleton_iff.mp inProgress
              exact ⟨own, found, each success⟩
    · next kind =>
      rw [kind] at rests
      split at run
      · obtain ⟨rfl, rfl⟩ := Prod.mk.inj run
        exact ⟨logged, nofun⟩
      · next ingestion source =>
        split at run
        · obtain ⟨rfl, rfl⟩ := Prod.mk.inj run
          exact ⟨logged, nofun⟩
        · obtain ⟨later, grown, each⟩ := readEach_reads reads run (grows.recorded recorded)
          refine ⟨logged.trans later, fun success => ⟨chosen.mono grown.toExtends,
            (grows.trans grown).finish (rests ⟨ingestion, source, ?_⟩) nofun⟩⟩
          obtain ⟨read, only, there⟩ := each success _ List.mem_cons_self
          cases List.mem_singleton.mp only
          exact there
    · obtain ⟨rfl, rfl⟩ := Prod.mk.inj run
      exact ⟨logged, nofun⟩

theorem tryEach_reads (reads : inputs.Answers read) {context : Nat} {options : List (Fin n)}
    {result : Option (Fin n)}
    (run : tryEach (inputs.choose read context) options before = (after, result))
    (recorded : inputs.Recorded before.plan)
    (fillable : ∀ candidate ∈ options, candidate ∈ inputs.options context ∧
      (before.plan.chosen context).lookup (inputs.slot candidate) = none) :
    (result = none → after.plan = before.plan ∧ after.undo = before.undo) ∧
      ∀ candidate, result = some candidate → candidate ∈ options ∧
        inputs.Chosen after.plan context candidate ∧ inputs.Grows ∅ ∅ before.plan after.plan ∧
          Logged before after := by
  induction options generalizing before with
  | nil =>
    obtain ⟨rfl, rfl⟩ := Prod.mk.inj run
    exact ⟨fun _ => ⟨rfl, rfl⟩, nofun⟩
  | cons candidate options ih =>
    obtain ⟨listed, free⟩ := fillable candidate List.mem_cons_self
    unfold tryEach at run
    cases first : inputs.choose read context candidate before with
    | mk middle derived =>
      obtain ⟨logged, success⟩ := choose_reads reads first recorded free listed
      dsimp only at run
      rw [first] at run
      cases derived with
      | true =>
        obtain ⟨rfl, rfl⟩ := Prod.mk.inj run
        refine ⟨nofun, fun other same => ?_⟩
        cases same
        obtain ⟨chosen, grows⟩ := success rfl
        exact ⟨List.mem_cons_self, chosen, grows, logged⟩
      | false =>
        obtain ⟨plan, undo⟩ := logged.undone
        dsimp only at run
        rw [plan, undo] at run
        obtain ⟨failed, done⟩ := ih run recorded
          fun other member => fillable other (List.mem_cons_of_mem _ member)
        refine ⟨failed, fun other found => ?_⟩
        obtain ⟨member, chosen, grows, logged⟩ := done other found
        exact ⟨List.mem_cons_of_mem _ member, chosen, grows, logged⟩

variable {Number : Type} {estimates : Estimates n Memo Number}

theorem mem_estimateAll {plan : Plan n} {context : Nat} {free : List (Fin n)} {memo : Memo}
    {option : Number × Fin n} (member : option ∈ (estimateAll estimates plan context free memo).1) :
    option.2 ∈ free := by
  induction free generalizing memo with
  | nil => cases member
  | cons candidate free ih =>
    rcases List.mem_cons.mp member with rfl | later
    · exact List.mem_cons_self
    · exact List.mem_cons_of_mem _ (ih later)

variable [LinearOrder Number]

theorem mem_pricedOptions {context : Nat} {allowed : List (Fin n)} {candidate : Fin n}
    (member : candidate ∈ (inputs.pricedOptions estimates context allowed before).1) :
    candidate ∈ allowed ∧ candidate ∈ inputs.options context ∧
      (before.plan.chosen context).lookup (inputs.slot candidate) = none := by
  obtain ⟨⟨number, same⟩, listed, rfl⟩ := List.mem_map.mp member
  rw [List.mem_insertionSort, List.mem_filter] at listed
  obtain ⟨here, fills⟩ := List.mem_filter.mp (mem_estimateAll listed.1)
  rw [Bool.and_eq_true, Option.isNone_iff_eq_none] at fills
  exact ⟨here, of_decide_eq_true fills.1, fills.2⟩

theorem read_reads (depth : Nat) : inputs.Answers (inputs.read estimates depth) := by
  induction depth with
  | zero =>
    refine ⟨fun run _ => ?_, fun run => ?_⟩
    · cases run
      exact ⟨rfl, rfl⟩
    · cases run
  | succ depth ih =>
    -- One step counted, the read is given up, answered by a choice that stands, or tried.
    have step {context allowed before after result}
        (run : inputs.read estimates (depth + 1) context allowed before = (after, result))
        (recorded : inputs.Recorded before.plan) :
        (result = none → after.plan = before.plan ∧ after.undo = before.undo) ∧
          ∀ candidate, result = some candidate → candidate ∈ allowed ∧
            inputs.Chosen after.plan context candidate ∧ inputs.Grows ∅ ∅ before.plan after.plan ∧
              Logged before after := by
      unfold read at run
      dsimp only at run
      split at run
      · obtain ⟨rfl, rfl⟩ := Prod.mk.inj run
        exact ⟨fun _ => ⟨rfl, rfl⟩, nofun⟩
      · split at run
        · next candidate found =>
          obtain ⟨rfl, rfl⟩ := Prod.mk.inj run
          refine ⟨nofun, fun other same => ?_⟩
          cases same
          have stands := List.find?_some found
          exact ⟨List.mem_of_find?_eq_some found, of_decide_eq_true stands, .refl _, .of_same rfl rfl⟩
        · obtain ⟨failed, done⟩ := tryEach_reads ih run recorded
            fun candidate member => (mem_pricedOptions member).2
          refine ⟨failed, fun candidate found => ?_⟩
          obtain ⟨member, chosen, grows, logged⟩ := done candidate found
          obtain ⟨log, undo, plan⟩ := logged
          exact ⟨(mem_pricedOptions member).1, chosen, grows, log, undo, plan⟩
    exact ⟨fun run recorded => (step run recorded).1 rfl,
      fun run recorded => (step run recorded).2 _ rfl⟩

end MilpInputs
end AsapPlanner.Milp
