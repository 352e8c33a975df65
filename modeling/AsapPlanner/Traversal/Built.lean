import Mathlib.Data.List.Basic

/-!
Keys that are built from one producer for each of their inputs, where producers may form cycles: the
least fixed point, found by passes over the keys until one adds nothing.
-/

namespace AsapPlanner.Traversal

section
variable {K : Type} (keys : List K) (enabled : K → Bool) (inputs : K → List (List K))

/-- A key that is built by finitely many others. -/
inductive Built : K → Prop
  | intro (key : K) (pick : List K → K) (member : key ∈ keys) (on : enabled key = true)
      (offered : ∀ input ∈ inputs key, pick input ∈ input)
      (built : ∀ input ∈ inputs key, Built (pick input)) : Built key

variable {keys enabled inputs}

theorem Built.mk {key : K} (member : key ∈ keys) (on : enabled key = true)
    (each : ∀ input ∈ inputs key, ∃ producer ∈ input, Built keys enabled inputs producer) :
    Built keys enabled inputs key := by
  classical
  have pick : ∀ input, ∃ producer, input ∈ inputs key →
      producer ∈ input ∧ Built keys enabled inputs producer := by
    intro input
    by_cases needed : input ∈ inputs key
    · obtain ⟨producer, offered, built⟩ := each input needed
      exact ⟨producer, fun _ => ⟨offered, built⟩⟩
    · exact ⟨key, fun here => absurd here needed⟩
  choose pick picked using pick
  exact .intro key pick member on (fun input here => (picked input here).1)
    fun input here => (picked input here).2

theorem Built.member {key : K} (built : Built keys enabled inputs key) : key ∈ keys := by
  cases built with
  | intro _ _ member _ _ _ => exact member

theorem Built.on {key : K} (built : Built keys enabled inputs key) : enabled key = true := by
  cases built with
  | intro _ _ _ on _ _ => exact on

theorem Built.producer {key : K} (built : Built keys enabled inputs key) :
    ∀ input ∈ inputs key, ∃ producer ∈ input, Built keys enabled inputs producer := by
  cases built with
  | intro _ pick _ _ offered built =>
    exact fun input needed => ⟨pick input, offered input needed, built input needed⟩

/-! ### Passes -/

variable [DecidableEq K]

variable (inputs) in
def canBuild (built : List K) (key : K) : Bool :=
  (inputs key).all fun input => input.any fun producer => producer ∈ built

variable (enabled inputs) in
def build (built : List K) (key : K) : List K :=
  if enabled key && key ∉ built && canBuild inputs built key then key :: built else built

variable (keys enabled inputs) in
def sweep (built : List K) : List K := keys.foldl (build enabled inputs) built

theorem build_length (built : List K) (key : K) :
    built.length ≤ (build enabled inputs built key).length := by
  unfold build
  split
  · exact Nat.le_succ _
  · exact Nat.le_refl _

theorem foldl_build_length (rest built : List K) :
    built.length ≤ (rest.foldl (build enabled inputs) built).length := by
  induction rest generalizing built with
  | nil => exact Nat.le_refl _
  | cons key rest ih => exact Nat.le_trans (build_length built key) (ih _)

theorem foldl_build_subset (rest built : List K) :
    ∀ key ∈ built, key ∈ rest.foldl (build enabled inputs) built := by
  induction rest generalizing built with
  | nil => exact fun key old => old
  | cons first rest ih =>
    intro key old
    apply ih
    unfold build
    split
    · exact List.mem_cons_of_mem _ old
    · exact old

theorem foldl_build_new (rest built : List K)
    (more : (rest.foldl (build enabled inputs) built).length ≠ built.length) :
    ∃ key ∈ rest, key ∉ built ∧ key ∈ rest.foldl (build enabled inputs) built := by
  induction rest generalizing built with
  | nil => exact absurd rfl more
  | cons first rest ih =>
    rw [List.foldl_cons] at more ⊢
    by_cases adds : (enabled first && first ∉ built && canBuild inputs built first) = true
    · have same : build enabled inputs built first = first :: built := if_pos adds
      refine ⟨first, List.mem_cons_self, ?_, ?_⟩
      · simp only [Bool.and_eq_true, decide_eq_true_eq] at adds
        exact adds.1.2
      · exact foldl_build_subset rest _ first (by rw [same]; exact List.mem_cons_self)
    · have same : build enabled inputs built first = built := if_neg adds
      rw [same] at more ⊢
      obtain ⟨key, member, rule⟩ := ih built more
      exact ⟨key, List.mem_cons_of_mem _ member, rule⟩

theorem foldl_build_closed (rest built : List K)
    (same : (rest.foldl (build enabled inputs) built).length = built.length) :
    ∀ key ∈ rest, enabled key = true → canBuild inputs built key = true → key ∈ built := by
  induction rest generalizing built with
  | nil => nofun
  | cons first rest ih =>
    rw [List.foldl_cons] at same
    have first_length := @build_length K enabled inputs _ built first
    have rest_length := @foldl_build_length K enabled inputs _ rest (build enabled inputs built first)
    have kept : ¬ (enabled first && first ∉ built && canBuild inputs built first) = true := by
      intro adds
      have grown : build enabled inputs built first = first :: built := if_pos adds
      rw [grown, List.length_cons] at rest_length
      rw [grown] at same
      omega
    rw [show build enabled inputs built first = built from if_neg kept] at same
    intro key member on ready
    rcases List.mem_cons.mp member with rfl | later
    · by_contra new
      simp [on, new, ready] at kept
    · exact ih built same key later on ready

theorem foldl_build_sound (rest built : List K) (inside : ∀ key ∈ rest, key ∈ keys)
    (sound : ∀ key ∈ built, Built keys enabled inputs key) :
    ∀ key ∈ rest.foldl (build enabled inputs) built, Built keys enabled inputs key := by
  induction rest generalizing built with
  | nil => exact sound
  | cons first rest ih =>
    refine ih _ (fun key later => inside key (List.mem_cons_of_mem _ later)) ?_
    unfold build
    split
    · rename_i adds
      simp only [canBuild, Bool.and_eq_true, List.all_eq_true, List.any_eq_true, decide_eq_true_eq] at adds
      intro key member
      rcases List.mem_cons.mp member with rfl | old
      · refine .mk (inside key List.mem_cons_self) adds.1.1 fun input needed => ?_
        obtain ⟨producer, offered, there⟩ := adds.2 input needed
        exact ⟨producer, offered, sound producer there⟩
      · exact sound key old
    · exact sound

theorem left_sweep_lt {built : List K}
    (more : (sweep keys enabled inputs built).length ≠ built.length) :
    (keys.countP fun key => key ∉ sweep keys enabled inputs built) < keys.countP fun key => key ∉ built := by
  obtain ⟨key, member, new, added⟩ := foldl_build_new keys built more
  replace added : key ∈ sweep keys enabled inputs built := added
  have kept : ∀ other ∈ built, other ∈ sweep keys enabled inputs built := foldl_build_subset keys built
  generalize sweep keys enabled inputs built = next at added kept
  obtain ⟨before, after, rfl⟩ := List.append_of_mem member
  have fewer (part : List K) :
      (part.countP fun key => key ∉ next) ≤ part.countP fun key => key ∉ built := by
    apply List.countP_mono_left
    intro other _ missing
    simp only [decide_eq_true_eq] at missing ⊢
    exact fun old => missing (kept other old)
  have first := fewer before
  have last := fewer after
  rw [List.countP_append, List.countP_append, List.countP_cons_of_neg (by simpa using added),
    List.countP_cons_of_pos (by simpa using new)]
  omega

variable (keys enabled inputs) in
/-- Passes until one adds nothing. -/
def settle (built : List K) : List K :=
  if (sweep keys enabled inputs built).length = built.length then built
  else settle (sweep keys enabled inputs built)
termination_by keys.countP fun key => key ∉ built
decreasing_by exact left_sweep_lt (by assumption)

theorem mem_settle {key : K} :
    key ∈ settle keys enabled inputs [] ↔ Built keys enabled inputs key := by
  have sound : ∀ built : List K, (∀ key ∈ built, Built keys enabled inputs key) →
      ∀ key ∈ settle keys enabled inputs built, Built keys enabled inputs key := by
    intro built
    fun_induction settle keys enabled inputs built with
    | case1 built same => exact fun sound => sound
    | case2 built more ih => exact fun sound => ih (foldl_build_sound keys built (fun _ member => member) sound)
  have closed : ∀ built : List K, ∀ key ∈ keys, enabled key = true →
      canBuild inputs (settle keys enabled inputs built) key = true →
      key ∈ settle keys enabled inputs built := by
    intro built
    fun_induction settle keys enabled inputs built with
    | case1 built same => exact foldl_build_closed keys built same
    | case2 built more ih => exact ih
  refine ⟨sound [] nofun key, fun built => ?_⟩
  induction built with
  | intro key pick member on offered built ih =>
    refine closed [] key member on (List.all_eq_true.mpr fun input needed => ?_)
    exact List.any_eq_true.mpr ⟨pick input, offered input needed, decide_eq_true (ih input needed)⟩

end
end AsapPlanner.Traversal
