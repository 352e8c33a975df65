import Mathlib.Data.List.Basic

/-!
Memoized passes over a graph. A pass threads a state; it returns a fixed value when every state its
invariant holds of gives that value and keeps the invariant, so the order of its calls and what is
already in its caches do not matter.
-/

namespace AsapPlanner.Traversal

variable {K V α β σ : Type}

/-- A map from keys to the values computed for them. -/
abbrev Cache (K V : Type) := K → Option V

namespace Cache

def empty : Cache K V := fun _ => none

def insert [DecidableEq K] (cache : Cache K V) (key : K) (value : V) : Cache K V :=
  fun other => if other = key then some value else cache other

theorem insert_self [DecidableEq K] (cache : Cache K V) (key : K) (value : V) :
    cache.insert key value key = some value := if_pos rfl

theorem insert_ne [DecidableEq K] {cache : Cache K V} {key other : K} {value : V} (ne : other ≠ key) :
    cache.insert key value other = cache other := if_neg ne

def Sound (value : K → V) (cache : Cache K V) : Prop :=
  ∀ key cached, cache key = some cached → cached = value key

theorem sound_empty (value : K → V) : Sound value empty := by
  intro key cached found
  cases found

theorem sound_insert [DecidableEq K] {value : K → V} {cache : Cache K V} (sound : Sound value cache)
    (key : K) : Sound value (cache.insert key (value key)) := by
  intro other cached found
  unfold insert at found
  split at found
  · rename_i equal
    cases found
    rw [equal]
  · exact sound other cached found

end Cache

/-- From every state of the invariant, `m` returns `a` and leaves a state of the invariant. -/
def Returns (Inv : σ → Prop) (m : StateM σ α) (a : α) : Prop :=
  ∀ state, Inv state → (m state).1 = a ∧ Inv (m state).2

namespace Returns
variable {Inv : σ → Prop}

theorem pure (a : α) : Returns Inv (Pure.pure a : StateM σ α) a :=
  fun _ kept => ⟨rfl, kept⟩

theorem bind {m : StateM σ α} {a : α} {next : α → StateM σ β} {b : β} (first : Returns Inv m a)
    (second : Returns Inv (next a) b) : Returns Inv (m >>= next) b := by
  intro state kept
  obtain ⟨value, kept'⟩ := first state kept
  have result := second (m state).2 kept'
  rw [← value] at result
  exact result

theorem mapM {f : β → StateM σ α} {g : β → α} {items : List β}
    (each : ∀ item ∈ items, Returns Inv (f item) (g item)) :
    Returns Inv (items.mapM f) (items.map g) := by
  induction items with
  | nil => exact pure []
  | cons item rest ih =>
    rw [List.mapM_cons, List.map_cons]
    refine bind (each item List.mem_cons_self) (bind (ih fun other member => ?_) (pure _))
    exact each other (List.mem_cons_of_mem item member)

theorem allM {f : β → StateM σ Bool} {g : β → Bool} {items : List β}
    (each : ∀ item ∈ items, Returns Inv (f item) (g item)) :
    Returns Inv (items.allM f) (items.all g) := by
  induction items with
  | nil => exact pure true
  | cons item rest ih =>
    rw [List.allM, List.all_cons]
    refine bind (each item List.mem_cons_self) ?_
    cases g item with
    | false => exact pure false
    | true => exact ih fun other member => each other (List.mem_cons_of_mem item member)

theorem anyM {f : β → StateM σ Bool} {g : β → Bool} {items : List β}
    (each : ∀ item ∈ items, Returns Inv (f item) (g item)) :
    Returns Inv (items.anyM f) (items.any g) := by
  induction items with
  | nil => exact pure false
  | cons item rest ih =>
    rw [List.anyM, List.any_cons]
    refine bind (each item List.mem_cons_self) ?_
    cases g item with
    | true => exact pure true
    | false => exact ih fun other member => each other (List.mem_cons_of_mem item member)

end Returns

/-- Look `key` up; when it is missing, compute its value and record it. -/
def memo [DecidableEq K] (key : K) (compute : StateM (Cache K V) V) : StateM (Cache K V) V := do
  match (← get) key with
  | some cached => pure cached
  | none =>
    let value ← compute
    modify fun cache => cache.insert key value
    pure value

theorem memo_hit [DecidableEq K] {key : K} {compute : StateM (Cache K V) V} {cache : Cache K V}
    {cached : V} (hit : cache key = some cached) : memo key compute cache = (cached, cache) := by
  change (match cache key with
    | some cached => (Pure.pure cached : StateM (Cache K V) V)
    | none => _) cache = _
  rw [hit]
  rfl

theorem memo_miss [DecidableEq K] {key : K} {compute : StateM (Cache K V) V} {cache : Cache K V}
    (miss : cache key = none) : memo key compute cache =
      ((compute cache).1, (compute cache).2.insert key (compute cache).1) := by
  change (match cache key with
    | some cached => (Pure.pure cached : StateM (Cache K V) V)
    | none => _) cache = _
  rw [miss]
  rfl

theorem Returns.memo [DecidableEq K] {value : K → V} {key : K} {compute : StateM (Cache K V) V}
    (computes : Returns (Cache.Sound value) compute (value key)) :
    Returns (Cache.Sound value) (memo key compute) (value key) := by
  intro cache sound
  cases hit : cache key with
  | some cached =>
    rw [memo_hit hit]
    exact ⟨sound key cached hit, sound⟩
  | none =>
    obtain ⟨result, kept⟩ := computes cache sound
    rw [memo_miss hit, result]
    exact ⟨rfl, Cache.sound_insert kept key⟩

end AsapPlanner.Traversal
