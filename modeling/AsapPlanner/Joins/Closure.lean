import Mathlib.Data.List.Basic
import Mathlib.Data.Set.Card
import Mathlib.Data.Finset.Card

/-!
Lists closed under a join that not every two values have: each value found is joined with the ones
before it, until none is new.
-/

namespace AsapPlanner.Joins

section
variable {σ : Type} (join : σ → σ → Option σ)

def joinAll : List σ → Option σ
  | [] => none
  | first :: rest => rest.foldlM join first

/-- What a join is relied on for, among values that are `ok`. -/
structure JoinLaws (ok : σ → Prop) : Prop where
  closed : ∀ {a b c}, ok a → ok b → join a b = some c → ok c
  comm : ∀ {a b}, ok a → ok b → join a b = join b a
  idem : ∀ {a c}, ok a → join a a = some c → c = a
  /-- A join absorbs its first value, and whatever that absorbs. -/
  absorbs : ∀ {a b c}, ok a → ok b → join a b = some c → join c a = some c
  absorbs_of : ∀ {a b c d}, ok a → ok b → ok d → join a d = some a → join a b = some c →
    join c d = some c

variable {join} {ok : σ → Prop} {x : σ} {known values : List σ}

theorem joinAll_concat (some : values ≠ []) (last : σ) :
    joinAll join (values ++ [last]) = (joinAll join values).bind (join · last) := by
  obtain ⟨first, rest, rfl⟩ := List.exists_cons_of_ne_nil some
  rw [List.cons_append, joinAll, joinAll, List.foldlM_append, Option.bind_eq_bind]
  refine Option.bind_congr fun joined _ => ?_
  rw [List.foldlM_cons, Option.bind_eq_bind]
  exact Option.bind_fun_some (join joined last)

theorem joinAll_mem (closed : ∀ a ∈ known, ∀ b ∈ known, ∀ c, join a b = some c → c ∈ known)
    (inside : ∀ a ∈ values, a ∈ known) (joined : joinAll join values = some x) : x ∈ known := by
  cases values with
  | nil => cases joined
  | cons first rest =>
    induction rest generalizing first with
    | nil =>
      obtain rfl := Option.some.inj joined
      exact inside first List.mem_cons_self
    | cons next rest ih =>
      rw [joinAll, List.foldlM_cons, Option.bind_eq_bind, Option.bind_eq_some_iff] at joined
      obtain ⟨both, here, later⟩ := joined
      rw [List.forall_mem_cons, List.forall_mem_cons] at inside
      have found := closed first inside.1 next inside.2.1 both here
      exact ih both (List.forall_mem_cons.mpr ⟨found, inside.2.2⟩) later

namespace JoinLaws
variable (laws : JoinLaws join ok)
include laws

theorem foldlM_absorbs {first : σ} (absorbed : List σ) (fine : ok first) (fines : ∀ a ∈ values, ok a)
    (fines' : ∀ a ∈ absorbed, ok a) (before : ∀ a ∈ absorbed, join first a = some first)
    (joined : values.foldlM join first = some x) :
    ok x ∧ (∀ a ∈ absorbed, join x a = some x) ∧ (∀ a ∈ values, join x a = some x) ∧
      (values ≠ [] → join x first = some x) := by
  induction values generalizing first absorbed with
  | nil =>
    obtain rfl := Option.some.inj joined
    exact ⟨fine, before, List.forall_mem_nil _, fun some => absurd rfl some⟩
  | cons next rest ih =>
    rw [List.foldlM_cons, Option.bind_eq_bind, Option.bind_eq_some_iff] at joined
    obtain ⟨both, here, later⟩ := joined
    obtain ⟨fineNext, fineRest⟩ := List.forall_mem_cons.mp fines
    have left := laws.absorbs fine fineNext here
    have right := laws.absorbs fineNext fine ((laws.comm fine fineNext).symm.trans here)
    have grown := ih (next :: first :: absorbed) (laws.closed fine fineNext here) fineRest
      (List.forall_mem_cons.mpr ⟨fineNext, List.forall_mem_cons.mpr ⟨fine, fines'⟩⟩)
      (List.forall_mem_cons.mpr ⟨right, List.forall_mem_cons.mpr ⟨left, fun a inside =>
        laws.absorbs_of fine fineNext (fines' a inside) (before a inside) here⟩⟩) later
    rw [List.forall_mem_cons, List.forall_mem_cons] at grown
    obtain ⟨fineX, ⟨absorbsNext, absorbsFirst, absorbsOld⟩, absorbsRest, _⟩ := grown
    exact ⟨fineX, absorbsOld, List.forall_mem_cons.mpr ⟨absorbsNext, absorbsRest⟩, fun _ => absorbsFirst⟩

theorem joinAll_absorbs (fines : ∀ a ∈ values, ok a) (joined : joinAll join values = some x)
    (alone : ∀ a, values = [a] → join a a = some a) : ok x ∧ ∀ a ∈ values, join x a = some x := by
  cases values with
  | nil => cases joined
  | cons first rest =>
    obtain ⟨fine, fineRest⟩ := List.forall_mem_cons.mp fines
    obtain ⟨fineX, _, absorbsRest, absorbsFirst⟩ := laws.foldlM_absorbs [] fine fineRest
      (List.forall_mem_nil _) (List.forall_mem_nil _) joined
    refine ⟨fineX, List.forall_mem_cons.mpr ⟨?_, absorbsRest⟩⟩
    cases rest with
    | nil =>
      obtain rfl := Option.some.inj joined
      exact alone first rfl
    | cons next rest => exact absorbsFirst (List.cons_ne_nil next rest)

end JoinLaws
end

/-! ### The closure -/

section
variable {σ : Type} [DecidableEq σ] (join : σ → σ → Option σ)

def pushNew (known : List σ) (value : σ) : List σ :=
  if value ∈ known then known else known ++ [value]

def pushJoined (value : σ) (known : List σ) (j : Nat) : List σ :=
  match known[j]?.bind (join value) with
  | some joined => pushNew known joined
  | none => known

/-- Joins the value at `i` with every earlier one, and goes on to the next while there is one. -/
def closeFrom : Nat → List σ → Nat → Option (List σ)
  | 0, _, _ => none
  | fuel + 1, known, i => match known[i]? with
    | none => some known
    | some value => closeFrom fuel ((List.range i).foldl (pushJoined join value) known) (i + 1)

variable {join} {known closed : List σ} {value x : σ} {i fuel : Nat}

theorem prefix_pushNew (known : List σ) (value : σ) : known <+: pushNew known value := by
  unfold pushNew
  split
  · exact List.prefix_refl known
  · exact List.prefix_append known [value]

theorem mem_pushNew : x ∈ pushNew known value ↔ x ∈ known ∨ x = value := by
  unfold pushNew
  split
  · rename_i there
    exact ⟨.inl, fun either => either.elim id (fun same => same ▸ there)⟩
  · rw [List.mem_append, List.mem_singleton]

theorem nodup_pushNew (nodup : known.Nodup) (value : σ) : (pushNew known value).Nodup := by
  unfold pushNew
  split
  · exact nodup
  · rename_i missing
    rw [List.nodup_append]
    refine ⟨nodup, List.nodup_singleton value, ?_⟩
    rintro a inside b single rfl
    exact missing (List.mem_singleton.mp single ▸ inside)

theorem mem_foldl_pushNew {values : List σ} : x ∈ values.foldl pushNew known ↔ x ∈ known ∨ x ∈ values := by
  induction values generalizing known with
  | nil => simp
  | cons value values ih => rw [List.foldl_cons, ih, mem_pushNew, List.mem_cons, or_assoc]

theorem nodup_foldl_pushNew {values : List σ} (nodup : known.Nodup) : (values.foldl pushNew known).Nodup := by
  induction values generalizing known with
  | nil => exact nodup
  | cons value values ih => exact ih (nodup_pushNew nodup value)

/-- Whether an entry's joins with the ones before it are all known. -/
def JoinedAt (join : σ → σ → Option σ) (known : List σ) (i : Nat) : Prop :=
  ∀ a, known[i]? = some a → ∀ j < i, ∀ b c, known[j]? = some b → join a b = some c → c ∈ known

theorem pushJoined_of_get {b : σ} {j : Nat} (there : known[j]? = some b) :
    pushJoined join value known j = (join value b).elim known (pushNew known) := by
  rw [pushJoined, there, Option.bind_some]
  cases join value b <;> rfl

omit [DecidableEq σ] in
theorem getElem?_of_extended (whole : known <+: closed) {j : Nat} (inside : j < known.length) :
    closed[j]? = known[j]? := by
  obtain ⟨more, rfl⟩ := whole
  exact List.getElem?_append_left inside

theorem foldl_pushJoined (join : σ → σ → Option σ) (value : σ) {n : Nat} (short : n ≤ known.length) (nodup : known.Nodup) :
    known <+: (List.range n).foldl (pushJoined join value) known ∧
      ((List.range n).foldl (pushJoined join value) known).Nodup ∧
      (∀ j < n, ∀ b c, known[j]? = some b → join value b = some c →
        c ∈ (List.range n).foldl (pushJoined join value) known) ∧
      ∀ c ∈ (List.range n).foldl (pushJoined join value) known, c ∈ known ∨
        ∃ b ∈ known, join value b = some c := by
  induction n with
  | zero => exact ⟨List.prefix_refl known, nodup, fun j none => absurd none (Nat.not_lt_zero j), fun c => .inl⟩
  | succ n ih =>
    obtain ⟨whole, unique, joined, only⟩ := ih (Nat.le_of_succ_le short)
    rw [List.range_succ, List.foldl_concat]
    generalize (List.range n).foldl (pushJoined join value) known = now at *
    obtain ⟨b, there⟩ : ∃ b, known[n]? = some b := ⟨known[n], List.getElem?_eq_getElem short⟩
    rw [pushJoined_of_get ((getElem?_of_extended whole short).trans there)]
    have last : ∀ {j}, j < n + 1 → j < n ∨ j = n := fun below => Nat.lt_succ_iff_lt_or_eq.mp below
    cases new : join value b with
    | none =>
      refine ⟨whole, unique, fun j below a c entry found => ?_, only⟩
      rcases last below with earlier | rfl
      · exact joined j earlier a c entry found
      · obtain rfl := Option.some.inj (there.symm.trans entry)
        rw [new] at found
        cases found
    | some c =>
      have kept := prefix_pushNew now c
      refine ⟨whole.trans kept, nodup_pushNew unique c, fun j below a d entry found => ?_, fun d inside => ?_⟩
      · rcases last below with earlier | rfl
        · exact kept.subset (joined j earlier a d entry found)
        · obtain rfl := Option.some.inj (there.symm.trans entry)
          obtain rfl := Option.some.inj (new.symm.trans found)
          exact mem_pushNew.mpr (.inr rfl)
      · rcases mem_pushNew.mp inside with old | rfl
        · exact only d old
        · exact .inr ⟨b, List.mem_of_getElem? there, new⟩

theorem closeFrom_closed (ends : closeFrom join fuel known i = some closed) (nodup : known.Nodup)
    (before : ∀ j < i, JoinedAt join known j) (inside : i ≤ known.length) :
    known <+: closed ∧ ∀ j, JoinedAt join closed j := by
  induction fuel generalizing known i with
  | zero => cases ends
  | succ fuel ih =>
    rw [closeFrom] at ends
    cases entry : known[i]? with
    | none =>
      rw [entry] at ends
      obtain rfl := Option.some.inj ends
      have all : known.length ≤ i := List.getElem?_eq_none_iff.mp entry
      refine ⟨List.prefix_refl known, fun j => ?_⟩
      by_cases below : j < i
      · exact before j below
      · intro a there
        rw [List.getElem?_eq_none (all.trans (not_lt.mp below))] at there
        cases there
    | some value =>
      rw [entry] at ends
      have short : i < known.length := (List.getElem?_eq_some_iff.mp entry).1
      obtain ⟨whole, unique, joined, _⟩ := foldl_pushJoined join value short.le nodup
      have length := whole.length_le
      have next := ih ends unique (fun j below a there k earlier b c entry' found => ?_) (short.trans_le length)
      · exact ⟨whole.trans next.1, next.2⟩
      rcases Nat.lt_succ_iff_lt_or_eq.mp below with old | rfl
      · rw [getElem?_of_extended whole (old.trans short)] at there
        rw [getElem?_of_extended whole (earlier.trans (old.trans short))] at entry'
        exact whole.subset (before j old a there k earlier b c entry' found)
      · rw [getElem?_of_extended whole short, entry] at there
        obtain rfl := Option.some.inj there
        rw [getElem?_of_extended whole (earlier.trans short)] at entry'
        exact joined k earlier b c entry' found

theorem closeFrom_subset {all : Set σ} (closed : ∀ a ∈ all, ∀ b ∈ all, ∀ c, join a b = some c → c ∈ all)
    {found : List σ} (ends : closeFrom join fuel known i = some found) (nodup : known.Nodup)
    (inside : ∀ a ∈ known, a ∈ all) : ∀ a ∈ found, a ∈ all := by
  induction fuel generalizing known i with
  | zero => cases ends
  | succ fuel ih =>
    rw [closeFrom] at ends
    cases entry : known[i]? with
    | none =>
      rw [entry] at ends
      exact Option.some.inj ends ▸ inside
    | some value =>
      rw [entry] at ends
      have short : i < known.length := (List.getElem?_eq_some_iff.mp entry).1
      obtain ⟨_, unique, _, only⟩ := foldl_pushJoined join value short.le nodup
      refine ih ends unique fun a member => ?_
      rcases only a member with old | ⟨b, member', joined⟩
      · exact inside a old
      · exact closed value (inside value (List.mem_of_getElem? entry)) b (inside b member') a joined

theorem closeFrom_mono {more : Nat} (ends : closeFrom join fuel known i = some closed) (le : fuel ≤ more) :
    closeFrom join more known i = some closed := by
  induction fuel generalizing known i more with
  | zero => cases ends
  | succ fuel ih =>
    obtain ⟨more, rfl⟩ := Nat.exists_eq_add_one_of_ne_zero (Nat.one_le_iff_ne_zero.mp (le_trans (by omega) le))
    rw [closeFrom] at ends ⊢
    cases entry : known[i]? with
    | none =>
      rw [entry] at ends
      exact ends
    | some value =>
      rw [entry] at ends
      exact ih ends (Nat.le_of_succ_le_succ le)

theorem closeFrom_ends {all : Set σ} (finite : all.Finite)
    (closed : ∀ a ∈ all, ∀ b ∈ all, ∀ c, join a b = some c → c ∈ all) (nodup : known.Nodup)
    (inside : ∀ a ∈ known, a ∈ all) (started : i ≤ known.length) (enough : all.ncard < fuel + i) :
    ∃ ends, closeFrom join fuel known i = some ends := by
  induction fuel generalizing known i with
  | zero =>
    have few : known.length ≤ all.ncard := by
      rw [← List.toFinset_card_of_nodup nodup, ← Set.ncard_coe_finset]
      exact Set.ncard_le_ncard (fun a member => inside a (List.mem_toFinset.mp member)) finite
    omega
  | succ fuel ih =>
    rw [closeFrom]
    cases entry : known[i]? with
    | none => exact ⟨known, rfl⟩
    | some value =>
      have short : i < known.length := (List.getElem?_eq_some_iff.mp entry).1
      obtain ⟨whole, unique, _, only⟩ := foldl_pushJoined join value short.le nodup
      refine ih unique (fun a member => ?_) (short.trans_le whole.length_le) (by omega)
      rcases only a member with old | ⟨b, member', found⟩
      · exact inside a old
      · exact closed value (inside value (List.mem_of_getElem? entry)) b (inside b member') a found

theorem joinAll_mem_closeFrom {ok : σ → Prop} {values : List σ} (laws : JoinLaws join ok)
    (fines : ∀ a ∈ closed, ok a) (ends : closeFrom join fuel known 0 = some closed) (nodup : known.Nodup)
    (inside : ∀ a ∈ values, a ∈ known) (joined : joinAll join values = some x) : x ∈ closed := by
  obtain ⟨whole, pairs⟩ := closeFrom_closed ends nodup (fun j none => absurd none (Nat.not_lt_zero j))
    (Nat.zero_le _)
  refine joinAll_mem (fun a member b member' c found => ?_)
    (fun a member => whole.subset (inside a member)) joined
  obtain ⟨j, here⟩ := List.getElem?_of_mem member
  obtain ⟨k, there⟩ := List.getElem?_of_mem member'
  rcases lt_trichotomy j k with below | rfl | above
  · exact pairs k b there j below a c here ((laws.comm (fines b member') (fines a member)).trans found)
  · obtain rfl := Option.some.inj (here.symm.trans there)
    exact laws.idem (fines a member) found ▸ member
  · exact pairs j a here k above b c there found

end

end AsapPlanner.Joins
