import AsapPlanner.Rust.Result

/-!
Passes that thread a state and can fail. What a successful run establishes is read off step by step;
two passes match when they fail together and otherwise return one value from related states.
-/

namespace AsapPlanner.Traversal

variable {α β ε σ τ : Type}

/-! ### Successful runs -/

theorem pure_ok {a b : α} {s s' : σ} (run : (pure a : StateT σ (Except ε) α) s = .ok (b, s')) :
    a = b ∧ s = s' := by
  cases run
  exact ⟨rfl, rfl⟩

theorem bind_ok {m : StateT σ (Except ε) α} {next : α → StateT σ (Except ε) β} {b : β} {s s' : σ}
    (run : (m >>= next) s = .ok (b, s')) : ∃ a t, m s = .ok (a, t) ∧ next a t = .ok (b, s') := by
  change (m s).bind (fun (result : α × σ) => next result.1 result.2) = .ok (b, s') at run
  cases first : m s with
  | error _ =>
    rw [first] at run
    cases run
  | ok result =>
    rw [first] at run
    exact ⟨result.1, result.2, rfl, run⟩

theorem exists_ok {result : Except ε α} (fine : result.isOk = true) : ∃ a, result = .ok a := by
  cases result with
  | error _ => cases fine
  | ok a => exact ⟨a, rfl⟩

theorem lift_ok {m : Except ε α} {a : α} {s s' : σ}
    (run : (StateT.lift m : StateT σ (Except ε) α) s = .ok (a, s')) : m = .ok a ∧ s = s' := by
  cases m with
  | error _ => cases run
  | ok _ =>
    cases run
    exact ⟨rfl, rfl⟩

theorem forM_ok {f : β → Except ε PUnit} {items : List β} (run : items.forM f = .ok ⟨⟩) :
    ∀ item ∈ items, f item = .ok ⟨⟩ := by
  induction items with
  | nil =>
    intro item member
    cases member
  | cons first rest ih =>
    change (f first).bind (fun _ => rest.forM f) = .ok ⟨⟩ at run
    cases head : f first with
    | error e =>
      rw [head] at run
      cases run
    | ok _ =>
      rw [head] at run
      intro item member
      rcases List.mem_cons.mp member with rfl | later
      · exact head
      · exact ih run item later

theorem forM_eq_ok {f : β → Except ε PUnit} {items : List β} :
    items.forM f = .ok ⟨⟩ ↔ ∀ item ∈ items, f item = .ok ⟨⟩ := by
  refine ⟨forM_ok, fun each => ?_⟩
  induction items with
  | nil => rfl
  | cons first rest ih =>
    obtain ⟨here, later⟩ := List.forall_mem_cons.mp each
    show (f first >>= fun _ => rest.forM f) = .ok ⟨⟩
    rw [here]
    exact ih later

/-- A run of `f` over every item, each step keeping the invariant and growing the state: what a step
establishes about its item and stays true as the state grows holds of every item at the end. -/
theorem mapM_ok {Inv : σ → Prop} {Grown : σ → σ → Prop} {Q : β → α → σ → Prop}
    {f : β → StateT σ (Except ε) α} (refl : ∀ s, Grown s s)
    (trans : ∀ a b c, Grown a b → Grown b c → Grown a c)
    (stable : ∀ item a s t, Q item a s → Grown s t → Q item a t) {items : List β}
    {images : List α} {s s' : σ}
    (each : ∀ item ∈ items, ∀ a t t', Inv t → f item t = .ok (a, t') →
      Inv t' ∧ Grown t t' ∧ Q item a t')
    (kept : Inv s) (run : items.mapM f s = .ok (images, s')) :
    Inv s' ∧ Grown s s' ∧ List.Forall₂ (fun item a => Q item a s') items images := by
  induction items generalizing images s with
  | nil =>
    rw [List.mapM_nil] at run
    obtain ⟨rfl, rfl⟩ := pure_ok run
    exact ⟨kept, refl s, .nil⟩
  | cons item rest ih =>
    rw [List.mapM_cons] at run
    obtain ⟨a, t, first, run⟩ := bind_ok run
    obtain ⟨others, u, later, run⟩ := bind_ok run
    obtain ⟨rfl, rfl⟩ := pure_ok run
    obtain ⟨kept', grown, here⟩ := each item List.mem_cons_self a s t kept first
    obtain ⟨kept'', grown', there⟩ :=
      ih (fun other member => each other (List.mem_cons_of_mem item member)) kept' later
    exact ⟨kept'', trans _ _ _ grown grown', .cons (stable _ _ _ _ here grown') there⟩

theorem mapM_keeps {Inv : σ → Prop} {f : β → StateT σ (Except ε) α} {items : List β} {images : List α} {s s' : σ}
    (kept : ∀ item ∈ items, ∀ a t t', Inv t → f item t = .ok (a, t') → Inv t') (holds : Inv s)
    (run : items.mapM f s = .ok (images, s')) : Inv s' :=
  (@mapM_ok _ _ _ _ Inv (fun _ _ => True) (fun _ _ _ => True) f (fun _ => trivial)
    (fun _ _ _ _ _ => trivial) (fun _ _ _ _ _ _ => trivial) items images s s'
    (fun item member a t t' here ran => ⟨kept item member a t t' here ran, trivial, trivial⟩) holds run).1

/-- A run whose state records the items fed so far, where what an item returns is a reading of the
record that later items leave alone. -/
theorem mapM_seen {γ : Type} {Inv : List γ → σ → Prop} {read : List γ → γ → α} {item : β → γ}
    {f : β → StateT σ (Except ε) α}
    (stable : ∀ seen more x, x ∈ seen → read (seen ++ more) x = read seen x) {items : List β}
    (step : ∀ b ∈ items, ∀ seen s a s', Inv seen s → f b s = .ok (a, s') →
      Inv (seen ++ [item b]) s' ∧ a = read (seen ++ [item b]) (item b))
    {seen : List γ} {s s' : σ} {results : List α} (holds : Inv seen s)
    (run : items.mapM f s = .ok (results, s')) :
    Inv (seen ++ items.map item) s' ∧
      results = items.map fun b => read (seen ++ items.map item) (item b) := by
  induction items generalizing seen s results with
  | nil =>
    rw [List.mapM_nil] at run
    obtain ⟨none, same⟩ := pure_ok run
    rw [List.map_nil, List.append_nil, ← same]
    exact ⟨holds, none.symm⟩
  | cons b rest ih =>
    rw [List.mapM_cons] at run
    obtain ⟨a, t, first, run⟩ := bind_ok run
    obtain ⟨others, u, later, run⟩ := bind_ok run
    obtain ⟨all, same⟩ := pure_ok run
    rw [same] at later
    obtain ⟨kept, here⟩ := step b List.mem_cons_self seen s a t holds first
    obtain ⟨final, there⟩ :=
      ih (fun other member => step other (List.mem_cons_of_mem b member)) kept later
    have joined : seen ++ (b :: rest).map item = seen ++ [item b] ++ rest.map item := by simp
    rw [joined]
    refine ⟨final, ?_⟩
    have settled := stable (seen ++ [item b]) (rest.map item) (item b) (by simp)
    rw [← all, there, here, List.map_cons, settled]

theorem bind_error {m : StateT σ (Except ε) α} {next : α → StateT σ (Except ε) β} {e : ε} {s : σ}
    (run : (m >>= next) s = .error e) :
    m s = .error e ∨ ∃ a t, m s = .ok (a, t) ∧ next a t = .error e := by
  change (m s).bind (fun (result : α × σ) => next result.1 result.2) = .error e at run
  cases first : m s with
  | error _ =>
    rw [first] at run
    cases run
    exact .inl rfl
  | ok result =>
    rw [first] at run
    exact .inr ⟨result.1, result.2, rfl, run⟩

theorem mapM_error {Inv : σ → Prop} {f : β → StateT σ (Except ε) α} {items : List β} {e : ε} {s : σ}
    (kept : ∀ item ∈ items, ∀ a t t', Inv t → f item t = .ok (a, t') → Inv t') (holds : Inv s)
    (run : items.mapM f s = .error e) : ∃ item ∈ items, ∃ t, Inv t ∧ f item t = .error e := by
  induction items generalizing s with
  | nil => cases run
  | cons item rest ih =>
    rw [List.mapM_cons] at run
    rcases bind_error run with here | ⟨a, t, first, run⟩
    · exact ⟨item, List.mem_cons_self, s, holds, here⟩
    rcases bind_error run with later | ⟨_, _, _, run⟩
    · obtain ⟨other, member, failed⟩ :=
        ih (fun other member => kept other (List.mem_cons_of_mem item member))
          (kept item List.mem_cons_self a s t holds first) later
      exact ⟨other, List.mem_cons_of_mem item member, failed⟩
    · cases run

theorem mapM_fine {γ : Type} {Inv : List γ → σ → Prop} {item : β → γ}
    {f : β → StateT σ (Except ε) α} {bound : Nat} {items : List β}
    (step : ∀ b ∈ items, ∀ seen s, Inv seen s → seen.length < bound →
      ∃ a s', f b s = .ok (a, s') ∧ Inv (seen ++ [item b]) s')
    {seen : List γ} {s : σ} (holds : Inv seen s) (room : seen.length + items.length ≤ bound) :
    ∃ results s', items.mapM f s = .ok (results, s') := by
  induction items generalizing seen s with
  | nil => exact ⟨[], s, rfl⟩
  | cons b rest ih =>
    rw [List.length_cons] at room
    obtain ⟨a, t, first, kept⟩ := step b List.mem_cons_self seen s holds (by omega)
    have more : (seen ++ [item b]).length + rest.length ≤ bound := by
      rw [List.length_append, List.length_singleton]
      omega
    obtain ⟨others, u, later⟩ :=
      ih (fun other member => step other (List.mem_cons_of_mem b member)) kept more
    refine ⟨a :: others, u, ?_⟩
    rw [List.mapM_cons]
    change (f b s >>= fun result => _) = _
    rw [first]
    change (rest.mapM f t >>= fun result => _) = _
    rw [later]
    rfl

theorem bind_run (m : StateM σ α) (next : α → StateM σ β) (s : σ) :
    (m >>= next) s = next (m s).1 (m s).2 := rfl

theorem mapM_kept {Inv : σ → Prop} {Grown : σ → σ → Prop} {Q : β → α → σ → Prop}
    {f : β → StateM σ α} (refl : ∀ s, Grown s s)
    (trans : ∀ a b c, Grown a b → Grown b c → Grown a c)
    (stable : ∀ item a s t, Q item a s → Grown s t → Q item a t) {items : List β}
    (each : ∀ item ∈ items, ∀ t, Inv t →
      Inv (f item t).2 ∧ Grown t (f item t).2 ∧ Q item (f item t).1 (f item t).2)
    {s : σ} (kept : Inv s) :
    Inv (items.mapM f s).2 ∧ Grown s (items.mapM f s).2 ∧
      List.Forall₂ (fun item a => Q item a (items.mapM f s).2) items (items.mapM f s).1 := by
  induction items generalizing s with
  | nil => exact ⟨kept, refl s, .nil⟩
  | cons item rest ih =>
    obtain ⟨kept', grown, here⟩ := each item List.mem_cons_self s kept
    obtain ⟨kept'', grown', there⟩ :=
      ih (fun other member => each other (List.mem_cons_of_mem _ member)) kept'
    rw [List.mapM_cons]
    exact ⟨kept'', trans _ _ _ grown grown', .cons (stable _ _ _ _ here grown') there⟩

theorem exists_of_forall₂ {R : β → α → Prop} {items : List β} {images : List α}
    (related : List.Forall₂ R items images) : ∀ item ∈ items, ∃ a, R item a := by
  induction related with
  | nil =>
    intro item member
    cases member
  | cons here _ ih =>
    intro item member
    rcases List.mem_cons.mp member with rfl | later
    · exact ⟨_, here⟩
    · exact ih item later

theorem mem_of_forall₂ {R : β → α → Prop} {items : List β} {images : List α}
    (related : List.Forall₂ R items images) : ∀ item ∈ items, ∃ a ∈ images, R item a := by
  induction related with
  | nil =>
    intro item member
    cases member
  | cons here _ ih =>
    intro item member
    rcases List.mem_cons.mp member with rfl | later
    · exact ⟨_, List.mem_cons_self, here⟩
    · obtain ⟨a, present, holds⟩ := ih item later
      exact ⟨a, List.mem_cons_of_mem _ present, holds⟩

theorem exists_getElem?_of_forall₂ {R : β → α → Prop} {items : List β} {images : List α}
    (related : List.Forall₂ R items images) {position : Nat} {image : α}
    (found : images[position]? = some image) : ∃ item, items[position]? = some item ∧ R item image := by
  induction related generalizing position with
  | nil => cases found
  | cons here _ ih =>
    cases position with
    | zero =>
      cases found
      exact ⟨_, rfl, here⟩
    | succ position => exact ih found

/-! ### Lockstep -/

/-- The two results: one error, or one value and related states. -/
def Matching (R : σ → τ → Prop) : Except ε (α × σ) → Except ε (α × τ) → Prop
  | .ok (a, s), .ok (b, t) => a = b ∧ R s t
  | .error e, .error f => e = f
  | _, _ => False

namespace Matching
variable {R : σ → τ → Prop} {s : σ} {t : τ}

theorem bind {m : StateT σ (Except ε) α} {n : StateT τ (Except ε) α}
    {next : α → StateT σ (Except ε) β} {next' : α → StateT τ (Except ε) β}
    (first : Matching R (m s) (n t))
    (second : ∀ a s' t', m s = .ok (a, s') → R s' t' → Matching R (next a s') (next' a t')) :
    Matching R ((m >>= next) s) ((n >>= next') t) := by
  change Matching R ((m s).bind fun (result : α × σ) => next result.1 result.2)
    ((n t).bind fun (result : α × τ) => next' result.1 result.2)
  cases left : m s with
  | error e =>
    cases right : n t with
    | error f => rwa [left, right] at first
    | ok result =>
      rw [left, right] at first
      exact first.elim
  | ok result =>
    cases right : n t with
    | error f =>
      rw [left, right] at first
      exact first.elim
    | ok result' =>
      rw [left, right] at first
      obtain ⟨same, related⟩ := first
      change Matching R (next result.1 result.2) (next' result'.1 result'.2)
      rw [← same]
      exact second result.1 result.2 result'.2 left related

theorem mapM {f : β → StateT σ (Except ε) α} {g : β → StateT τ (Except ε) α} {items : List β} (related : R s t)
    (each : ∀ front item back images s' t', items = front ++ item :: back →
      front.mapM f s = .ok (images, s') → R s' t' → Matching R (f item s') (g item t')) :
    Matching R (items.mapM f s) (items.mapM g t) := by
  induction items generalizing s t with
  | nil => exact ⟨rfl, related⟩
  | cons item rest ih =>
    rw [List.mapM_cons, List.mapM_cons]
    refine bind (each [] item rest [] s t rfl rfl related) fun image s' t' ran related' => ?_
    refine bind (ih related' ?_) fun images s'' t'' _ related'' => ⟨rfl, related''⟩
    intro front next back images s'' t'' split earlier related''
    refine each (item :: front) next back (image :: images) s'' t'' (congrArg (item :: ·) split) ?_ related''
    rw [List.mapM_cons]
    change (f item s >>= fun result => _) = _
    rw [ran]
    change (front.mapM f s' >>= fun result => _) = _
    rw [earlier]
    rfl

end Matching
end AsapPlanner.Traversal
