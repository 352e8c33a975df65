import AsapPlanner.Traversal.Run
import Mathlib.Algebra.GroupWithZero.Nat
import Mathlib.Algebra.Order.BigOperators.Group.List
import Mathlib.Algebra.Order.Group.Nat
import Mathlib.Logic.Relation

/-!
Depth-first searches of a finite graph that may have cycles: the keys reached, a check for cycles,
and a loop that settles every key after those it reads.
-/

namespace AsapPlanner.Traversal
open Rust Relation

/-- What each key reads. `inner` has every key that reads another. -/
structure Graph (K : Type) where
  reads : K → List K
  inner : List K
  covers : ∀ key other, other ∈ reads key → key ∈ inner

namespace Graph
variable {K : Type} (graph : Graph K)

/-- `other` is read by `key`, directly or through others. -/
def Reaches : K → K → Prop := ReflTransGen fun key other => other ∈ graph.reads key

/-- No endless chain of reads starts at `key`. -/
def Grounded : K → Prop := Acc fun other key => other ∈ graph.reads key

section Search
variable [DecidableEq K]

/-- How many keys that read others are not in `seen`. -/
def left (seen : List K) : Nat := (graph.inner.filter fun key => key ∉ seen).length

theorem left_cons_lt {seen : List K} {key : K} (unseen : key ∉ seen) (inside : key ∈ graph.inner) :
    graph.left (key :: seen) < graph.left seen := by
  have one : (graph.inner.filter fun other => other ∉ key :: seen) =
      (graph.inner.filter fun other => other ∉ seen).filter fun other => other ≠ key := by
    rw [List.filter_filter]
    apply List.filter_congr
    intro other _
    simp
  unfold left
  rw [one]
  apply List.length_filter_lt_length_iff_exists.mpr
  exact ⟨key, List.mem_filter.mpr ⟨inside, by simpa using unseen⟩, by simp⟩

/-! ### Keys reached -/

/-- How many reads of `keys` a search that has met `seen` still follows. -/
def workAt (seen keys : List K) : Nat :=
  (keys.map fun key => if key ∈ seen then 0 else (graph.reads key).length).sum

def work (seen : List K) : Nat := graph.workAt seen graph.inner

theorem workAt_cons_le (seen keys : List K) (key : K) :
    graph.workAt (key :: seen) keys ≤ graph.workAt seen keys := by
  apply List.sum_le_sum
  intro other _
  by_cases met : other ∈ seen
  · simp [met]
  · by_cases same : other = key <;> simp [met, same]

theorem work_cons_add {seen : List K} {key : K} (unseen : key ∉ seen) (inside : key ∈ graph.inner) :
    graph.work (key :: seen) + (graph.reads key).length ≤ graph.work seen := by
  obtain ⟨before, after, split⟩ := List.append_of_mem inside
  have first := graph.workAt_cons_le seen before key
  have last := graph.workAt_cons_le seen after key
  unfold work
  rw [split]
  simp only [workAt, List.map_append, List.map_cons, List.sum_append, List.sum_cons,
    List.mem_cons_self, if_pos, if_neg unseen] at first last ⊢
  omega

/-- Every key reached from those pending, the call stack of a recursion spelt out. -/
def mark : List K → List K → List K
  | [], seen => seen
  | key :: pending, seen =>
    if key ∈ seen then mark pending seen else mark (graph.reads key ++ pending) (key :: seen)
termination_by pending seen => graph.work seen + pending.length
decreasing_by
  · exact Nat.lt_succ_self _
  · rename_i unseen
    rw [List.length_append, List.length_cons]
    cases reads : graph.reads key with
    | nil =>
      have fewer := graph.workAt_cons_le seen graph.inner key
      rw [List.length_nil]
      unfold work
      omega
    | cons child rest =>
      have inside : key ∈ graph.inner := graph.covers key child (by rw [reads]; exact List.mem_cons_self)
      have fewer := graph.work_cons_add unseen inside
      rw [reads] at fewer
      omega

theorem mark_reached {pending seen : List K} {key : K} (marked : key ∈ graph.mark pending seen) :
    key ∈ seen ∨ ∃ start ∈ pending, graph.Reaches start key := by
  fun_induction mark with
  | case1 seen => exact .inl marked
  | case2 first pending seen known ih =>
    rcases ih marked with before | ⟨start, member, reached⟩
    · exact .inl before
    · exact .inr ⟨start, List.mem_cons_of_mem _ member, reached⟩
  | case3 first pending seen unknown ih =>
    rcases ih marked with before | ⟨start, member, reached⟩
    · rcases List.mem_cons.mp before with same | earlier
      · exact .inr ⟨first, List.mem_cons_self, same ▸ .refl⟩
      · exact .inl earlier
    · rcases List.mem_append.mp member with child | later
      · exact .inr ⟨first, List.mem_cons_self, .head child reached⟩
      · exact .inr ⟨start, List.mem_cons_of_mem _ later, reached⟩

theorem mark_congr {other : Graph K} (pending seen : List K)
    (same : ∀ start ∈ pending, ∀ key, graph.Reaches start key → other.reads key = graph.reads key) :
    other.mark pending seen = graph.mark pending seen := by
  fun_induction graph.mark pending seen with
  | case1 seen => rw [mark]
  | case2 first pending seen known ih =>
    rw [mark, if_pos known]
    exact ih fun start listed => same start (List.mem_cons_of_mem _ listed)
  | case3 first pending seen unknown ih =>
    rw [mark, if_neg unknown, same first List.mem_cons_self first .refl]
    refine ih fun start listed key reached => ?_
    rcases List.mem_append.mp listed with child | later
    · exact same first List.mem_cons_self key (.head child reached)
    · exact same start (List.mem_cons_of_mem _ later) key reached

theorem subset_mark (pending seen : List K) : ∀ key, key ∈ pending ∨ key ∈ seen →
    key ∈ graph.mark pending seen := by
  fun_induction mark with
  | case1 seen => exact fun key listed => listed.resolve_left List.not_mem_nil
  | case2 first pending seen known ih =>
    rintro key (listed | before)
    · rcases List.mem_cons.mp listed with rfl | later
      · exact ih key (.inr known)
      · exact ih key (.inl later)
    · exact ih key (.inr before)
  | case3 first pending seen unknown ih =>
    rintro key (listed | before)
    · rcases List.mem_cons.mp listed with rfl | later
      · exact ih key (.inr List.mem_cons_self)
      · exact ih key (.inl (List.mem_append_right _ later))
    · exact ih key (.inr (List.mem_cons_of_mem _ before))

theorem mark_closed (pending seen : List K)
    (open_reads : ∀ key ∈ seen, ∀ other ∈ graph.reads key, other ∈ seen ∨ other ∈ pending) :
    ∀ key ∈ graph.mark pending seen, ∀ other ∈ graph.reads key, other ∈ graph.mark pending seen := by
  fun_induction mark with
  | case1 seen =>
    exact fun key marked other read => (open_reads key marked other read).resolve_right List.not_mem_nil
  | case2 first pending seen known ih =>
    refine ih fun key before other read => ?_
    rcases open_reads key before other read with seen | listed
    · exact .inl seen
    · rcases List.mem_cons.mp listed with rfl | later
      · exact .inl known
      · exact .inr later
  | case3 first pending seen unknown ih =>
    refine ih fun key before other read => ?_
    rcases List.mem_cons.mp before with rfl | earlier
    · exact .inr (List.mem_append_left _ read)
    · rcases open_reads key earlier other read with seen | listed
      · exact .inl (List.mem_cons_of_mem _ seen)
      · rcases List.mem_cons.mp listed with rfl | later
        · exact .inl List.mem_cons_self
        · exact .inr (List.mem_append_right _ later)

theorem mem_mark {starts : List K} {key : K} :
    key ∈ graph.mark starts [] ↔ ∃ start ∈ starts, graph.Reaches start key := by
  constructor
  · intro marked
    exact (graph.mark_reached marked).resolve_left List.not_mem_nil
  · rintro ⟨start, member, reached⟩
    have closed := graph.mark_closed starts [] fun key marked => absurd marked List.not_mem_nil
    have first := graph.subset_mark starts [] start (.inl member)
    induction reached with
    | refl => exact first
    | tail _ read ih => exact closed _ ih _ read

def cut (stops : K → Bool) : Graph K where
  reads key := if stops key then [] else graph.reads key
  inner := graph.inner
  covers key other reads := by
    split at reads
    · cases reads
    · exact graph.covers key other reads

/-! ### Cycles -/

/-- Visit every key below `key`, failing at one that is being visited. -/
def visit {ε : Type} (cycle : ε) (visiting : List K) (key : K) :
    StateT (List K) (Except ε) Unit := fun visited =>
  if key ∈ visited then .ok ((), visited)
  else if _ : key ∈ visiting then .error cycle
  else do
    let (_, visited) ←
      ((graph.reads key).attach.mapM fun child => visit cycle (key :: visiting) child.1) visited
    pure ((), key :: visited)
termination_by graph.left visiting
decreasing_by exact graph.left_cons_lt (by assumption) (graph.covers key child.1 child.2)

theorem visit_grounded {ε : Type} {cycle : ε} {visiting visited visited' : List K} {key : K} {u : Unit}
    (sound : ∀ other ∈ visited, graph.Grounded other)
    (run : graph.visit cycle visiting key visited = .ok (u, visited')) :
    (∀ other ∈ visited', graph.Grounded other) ∧ (∀ other ∈ visited, other ∈ visited') ∧
      key ∈ visited' := by
  induction bound : graph.left visiting using Nat.strongRecOn generalizing visiting key visited visited' u
    with
  | ind bound ih =>
    rw [visit] at run
    split at run
    · rename_i known
      cases run
      exact ⟨sound, fun _ member => member, known⟩
    · split at run
      · cases run
      · rename_i unseen
        obtain ⟨⟨units, below⟩, children, rest⟩ := bind_eq_ok run
        cases rest
        have each : ∀ child ∈ (graph.reads key).attach, ∀ u before after,
            (∀ other ∈ before, graph.Grounded other) →
            graph.visit cycle (key :: visiting) child.1 before = .ok (u, after) →
            (∀ other ∈ after, graph.Grounded other) ∧ (∀ other ∈ before, other ∈ after) ∧
              child.1 ∈ after := by
          intro child _ u before after kept step
          have fewer := graph.left_cons_lt unseen (graph.covers key child.1 child.2)
          exact ih _ (bound ▸ fewer) kept step rfl
        obtain ⟨kept, grown, reached⟩ := mapM_ok
          (fun _ _ member => member)
          (fun _ _ _ first second other member => second other (first other member))
          (fun _ _ _ _ held grown => grown _ held) each sound children
        refine ⟨?_, fun other member => List.mem_cons_of_mem _ (grown other member),
          List.mem_cons_self⟩
        intro other member
        rcases List.mem_cons.mp member with same | earlier
        · rw [same]
          refine ⟨key, fun child reads => ?_⟩
          obtain ⟨_, here⟩ := exists_of_forall₂ reached ⟨child, reads⟩ (List.mem_attach _ _)
          exact kept child here
        · exact kept other earlier

end Search

theorem Grounded.acyclic {graph : Graph K} {key : K} (grounded : graph.Grounded key) :
    ¬ TransGen (fun key other => other ∈ graph.reads key) key key := by
  induction grounded with
  | intro key _ ih =>
    intro loop
    obtain ⟨child, reads, back⟩ := TransGen.head'_iff.mp loop
    exact ih child reads (.tail' back reads)

theorem Grounded.reached {graph : Graph K} {key other : K} (grounded : graph.Grounded key)
    (reached : graph.Reaches key other) : graph.Grounded other := by
  induction reached with
  | refl => exact grounded
  | tail _ reads ih => exact ih.inv reads

end Graph

/-! ### Settling inputs first -/

/-- How one key is settled once all it reads is. -/
structure Settling (K σ ε : Type) where
  settled : σ → K → Bool
  inputs : K → Except ε (List K)
  settle : K → σ → Except ε σ

namespace Settling
variable {K σ ε : Type} (work : Settling K σ ε)

/-- The loop over pending keys, each with whether what it reads was pushed; `none` out of fuel. -/
def run : Nat → List (K × Bool) → σ → Option (Except ε σ)
  | _, [], s => some (.ok s)
  | 0, _ :: _, _ => none
  | fuel + 1, (key, childrenDone) :: pending, s =>
    if work.settled s key then run fuel pending s
    else
      match work.inputs key with
      | .error e => some (.error e)
      | .ok children =>
        if childrenDone then
          match work.settle key s with
          | .error e => some (.error e)
          | .ok s => run fuel pending s
        else run fuel (children.reverse.map (·, false) ++ (key, true) :: pending) s

/-- Settle each key in turn. -/
def runEach (fuel : Nat) : List K → σ → Option (Except ε σ)
  | [], s => some (.ok s)
  | key :: keys, s =>
    match work.run fuel [(key, false)] s with
    | some (.ok s) => runEach fuel keys s
    | stopped => stopped

/-- Some steps lead from one state of the loop to another. -/
def Leads (pending : List (K × Bool)) (s : σ) (pending' : List (K × Bool)) (s' : σ) : Prop :=
  ∃ steps, ∀ fuel, work.run (steps + fuel) pending s = work.run fuel pending' s'

variable {work} {pending pending' pending'' : List (K × Bool)} {s s' s'' : σ} {key : K}

theorem Leads.refl : work.Leads pending s pending s := ⟨0, fun fuel => by rw [Nat.zero_add]⟩

theorem Leads.trans (first : work.Leads pending s pending' s')
    (second : work.Leads pending' s' pending'' s'') : work.Leads pending s pending'' s'' := by
  obtain ⟨m, first⟩ := first
  obtain ⟨n, second⟩ := second
  refine ⟨m + n, fun fuel => ?_⟩
  rw [Nat.add_assoc, first, second]

theorem Leads.finishes (leads : work.Leads pending s [] s') :
    ∃ bound, ∀ fuel, bound ≤ fuel → work.run fuel pending s = some (.ok s') := by
  obtain ⟨steps, leads⟩ := leads
  refine ⟨steps, fun fuel enough => ?_⟩
  obtain ⟨more, same⟩ := Nat.exists_eq_add_of_le enough
  rw [same, leads]
  cases more <;> rfl

theorem leads_settled (known : work.settled s key = true) {childrenDone : Bool} :
    work.Leads ((key, childrenDone) :: pending) s pending s := by
  refine ⟨1, fun fuel => ?_⟩
  rw [Nat.add_comm, run, if_pos known]

theorem leads_children (unknown : work.settled s key = false) {children : List K}
    (inputs : work.inputs key = .ok children) :
    work.Leads ((key, false) :: pending) s
      (children.reverse.map (·, false) ++ (key, true) :: pending) s := by
  refine ⟨1, fun fuel => ?_⟩
  rw [Nat.add_comm, run, unknown, inputs]
  rfl

theorem leads_settle (unknown : work.settled s key = false) {children : List K}
    (inputs : work.inputs key = .ok children) (settles : work.settle key s = .ok s') :
    work.Leads ((key, true) :: pending) s pending s' := by
  refine ⟨1, fun fuel => ?_⟩
  rw [Nat.add_comm, run, unknown, inputs]
  dsimp only
  rw [if_pos rfl, settles]
  rfl

section Grounded
variable {graph : Graph K} {Inv : σ → Prop} {Grown : σ → σ → Prop} {Known : K → Prop}

/-- What settling one key has to do for the loop to settle every grounded key. -/
structure Sound (work : Settling K σ ε) (graph : Graph K) (Inv : σ → Prop) (Grown : σ → σ → Prop)
    (Known : K → Prop) : Prop where
  refl : ∀ s, Grown s s
  trans : ∀ a b c, Grown a b → Grown b c → Grown a c
  kept : ∀ s s' key, Grown s s' → work.settled s key = true → work.settled s' key = true
  inputs : ∀ key, Known key → work.inputs key = .ok (graph.reads key)
  known : ∀ key, Known key → ∀ child ∈ graph.reads key, Known child
  step : ∀ key s, Known key → Inv s → work.settled s key = false →
    (∀ child ∈ graph.reads key, work.settled s child = true) →
    ∃ s', work.settle key s = .ok s' ∧ Inv s' ∧ Grown s s' ∧ work.settled s' key = true

theorem Sound.leads_all (sound : Sound work graph Inv Grown Known) {keys : List K}
    (each : ∀ key ∈ keys, ∀ s pending, Inv s → ∃ s', work.Leads ((key, false) :: pending) s pending s' ∧
      Inv s' ∧ Grown s s' ∧ work.settled s' key = true) (holds : Inv s) (pending : List (K × Bool)) :
    ∃ s', work.Leads (keys.map (·, false) ++ pending) s pending s' ∧ Inv s' ∧ Grown s s' ∧
      ∀ key ∈ keys, work.settled s' key = true := by
  induction keys generalizing s with
  | nil => exact ⟨s, .refl, holds, sound.refl s, fun key member => nomatch member⟩
  | cons key keys ih =>
    obtain ⟨mid, first, kept, grown, here⟩ :=
      each key List.mem_cons_self s (keys.map (·, false) ++ pending) holds
    obtain ⟨last, rest, kept', grown', there⟩ :=
      ih (fun other member => each other (List.mem_cons_of_mem _ member)) kept
    refine ⟨last, first.trans rest, kept', sound.trans _ _ _ grown grown', ?_⟩
    intro other member
    rcases List.mem_cons.mp member with same | later
    · rw [same]
      exact sound.kept _ _ _ grown' here
    · exact there other later

theorem Sound.leads (sound : Sound work graph Inv Grown Known) (grounded : graph.Grounded key)
    (known : Known key) (holds : Inv s) (pending : List (K × Bool)) :
    ∃ s', work.Leads ((key, false) :: pending) s pending s' ∧ Inv s' ∧ Grown s s' ∧
      work.settled s' key = true := by
  induction grounded generalizing s pending with
  | intro key _ ih =>
    cases already : work.settled s key with
    | true => exact ⟨s, leads_settled already, holds, sound.refl s, already⟩
    | false =>
      have inputs := sound.inputs key known
      have push := @leads_children _ _ _ work pending s key already _ inputs
      obtain ⟨mid, below, kept, grown, children⟩ := sound.leads_all
        (fun child member s pending holds => ih child (List.mem_reverse.mp member)
          (sound.known key known child (List.mem_reverse.mp member)) holds pending)
        holds ((key, true) :: pending)
      have path := push.trans below
      cases meanwhile : work.settled mid key with
      | true => exact ⟨mid, path.trans (leads_settled meanwhile), kept, grown, meanwhile⟩
      | false =>
        obtain ⟨last, settles, kept', grown', here⟩ := sound.step key mid known kept meanwhile
          (fun child reads => children child (List.mem_reverse.mpr reads))
        exact ⟨last, path.trans (leads_settle meanwhile inputs settles), kept',
          sound.trans _ _ _ grown grown', here⟩

theorem Sound.finishes (sound : Sound work graph Inv Grown Known) {keys : List K}
    (grounded : ∀ key ∈ keys, graph.Grounded key) (known : ∀ key ∈ keys, Known key) (holds : Inv s) :
    ∃ s' bound, (∀ fuel, bound ≤ fuel → work.runEach fuel keys s = some (.ok s')) ∧ Inv s' ∧
      Grown s s' ∧ ∀ key ∈ keys, work.settled s' key = true := by
  induction keys generalizing s with
  | nil => exact ⟨s, 0, fun _ _ => rfl, holds, sound.refl s, fun key member => nomatch member⟩
  | cons key keys ih =>
    obtain ⟨mid, path, kept, grown, here⟩ := sound.leads (grounded key List.mem_cons_self)
      (known key List.mem_cons_self) holds []
    obtain ⟨few, first⟩ := path.finishes
    obtain ⟨last, many, rest, kept', grown', there⟩ :=
      ih (fun other member => grounded other (List.mem_cons_of_mem _ member))
        (fun other member => known other (List.mem_cons_of_mem _ member)) kept
    refine ⟨last, max few many, ?_, kept', sound.trans _ _ _ grown grown', ?_⟩
    · intro fuel enough
      rw [runEach, first fuel (by omega)]
      exact rest fuel (by omega)
    · intro other member
      rcases List.mem_cons.mp member with same | later
      · rw [same]
        exact sound.kept _ _ _ grown' here
      · exact there other later

end Grounded
end Settling
end AsapPlanner.Traversal
