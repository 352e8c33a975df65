import Mathlib.Data.List.Dedup

/-!
Rows ranked within partitions: numbering the rows of each partition in a stable order, and keeping rows of
each partition by their place.
-/

namespace AsapPlanner.Ranking

variable {α β κ : Type} [DecidableEq κ]

def partitions (part : α → κ) (rows : List α) : List κ := (rows.map part).dedup

/-- One partition in order; rows that compare equal stay as they came. -/
def ranked (part : α → κ) (le : α → α → Bool) (rows : List α) (k : κ) : List α :=
  (rows.filter fun row => part row = k).mergeSort le

def numbered (part : α → κ) (le : α → α → Bool) (rows : List α) : List (α × Nat) :=
  (partitions part rows).flatMap fun k => (ranked part le rows k).zipIdx 1

/-- The partitions one after another, each in order. -/
def sorted (part : α → κ) (le : α → α → Bool) (rows : List α) : List α :=
  (partitions part rows).flatMap (ranked part le rows)

/-- The rows whose place in their partition is kept; `seen` are the partitions of the rows before. -/
def limit (part : α → κ) (keep : Nat → Bool) (seen : List κ) : List α → List α
  | [] => []
  | row :: rest =>
    if keep (seen.count (part row)) then row :: limit part keep (part row :: seen) rest
    else limit part keep (part row :: seen) rest

/-- The elements at kept places, from a first place. -/
def pick (keep : Nat → Bool) (first : Nat) (rows : List α) : List α :=
  ((rows.zipIdx first).filter fun item => keep item.2).map Prod.fst

section
variable {part : α → κ} {keep : Nat → Bool} {le : α → α → Bool} {rows : List α}

theorem limit_block {k : κ} {block : List α} (whole : ∀ row ∈ block, part row = k) (seen : List κ)
    (rest : List α) :
    limit part keep seen (block ++ rest) =
      pick keep (seen.count k) block ++ limit part keep (List.replicate block.length k ++ seen) rest := by
  induction block generalizing seen with
  | nil => rfl
  | cons row block ih =>
    have here := whole row List.mem_cons_self
    have later := ih (fun other member => whole other (List.mem_cons_of_mem _ member)) (k :: seen)
    have places : List.replicate block.length k ++ k :: seen = List.replicate (block.length + 1) k ++ seen := by
      rw [List.replicate_succ', List.append_assoc, List.singleton_append]
    rw [List.cons_append, limit, here, later, List.count_cons_self, places]
    unfold pick
    rw [List.zipIdx_cons, List.filter_cons]
    split <;> rfl

theorem mem_ranked {k : κ} {row : α} : row ∈ ranked part le rows k ↔ row ∈ rows ∧ part row = k := by
  rw [ranked, List.mem_mergeSort, List.mem_filter, decide_eq_true_eq]

theorem limit_sorted : limit part keep [] (sorted part le rows) =
    (partitions part rows).flatMap fun k => pick keep 0 (ranked part le rows k) := by
  have run : ∀ (keys : List κ) (seen : List κ), keys.Nodup → (∀ k ∈ keys, k ∉ seen) →
      limit part keep seen (keys.flatMap (ranked part le rows)) =
        keys.flatMap fun k => pick keep 0 (ranked part le rows k) := by
    intro keys
    induction keys with
    | nil => exact fun _ _ _ => rfl
    | cons k rest ih =>
      intro seen distinct fresh
      obtain ⟨absent, distinct⟩ := List.nodup_cons.mp distinct
      rw [List.flatMap_cons, List.flatMap_cons, limit_block (fun row member => (mem_ranked.mp member).2),
        List.count_eq_zero.mpr (fresh k List.mem_cons_self), ih _ distinct]
      intro other member before
      rcases List.mem_append.mp before with same | earlier
      · exact absent (List.eq_of_mem_replicate same ▸ member)
      · exact fresh other (List.mem_cons_of_mem _ member) earlier
  exact run _ [] (List.nodup_dedup _) fun _ _ => List.not_mem_nil

theorem numbered_filter : ((numbered part le rows).filter fun item => keep (item.2 - 1)).map Prod.fst =
    limit part keep [] (sorted part le rows) := by
  have places : ∀ (block : List α) (first : Nat),
      ((block.zipIdx (first + 1)).filter fun item => keep (item.2 - 1)).map Prod.fst = pick keep first block := by
    intro block
    induction block with
    | nil => exact fun _ => rfl
    | cons row rest ih =>
      intro first
      have later := ih (first + 1)
      unfold pick at later ⊢
      rw [List.zipIdx_cons, List.zipIdx_cons, List.filter_cons, List.filter_cons, Nat.add_sub_cancel]
      split <;> simp only [List.map_cons, later]
  rw [limit_sorted, numbered, List.filter_flatMap, List.map_flatMap]
  exact List.flatMap_congr fun k _ => places _ 0

theorem mem_sorted {row : α} : row ∈ sorted part le rows ↔ row ∈ rows := by
  simp only [sorted, List.mem_flatMap, mem_ranked, partitions, List.mem_dedup, List.mem_map]
  constructor
  · rintro ⟨_, _, member, _⟩
    exact member
  · exact fun member => ⟨part row, ⟨row, member, rfl⟩, member, rfl⟩

theorem numbered_fst_mem {item : α × Nat} (member : item ∈ numbered part le rows) : item.1 ∈ rows := by
  obtain ⟨k, _, here⟩ := List.mem_flatMap.mp member
  exact (mem_ranked.mp (List.fst_mem_of_mem_zipIdx here)).1

theorem one_le_numbered {item : α × Nat} (member : item ∈ numbered part le rows) : 1 ≤ item.2 := by
  obtain ⟨k, _, here⟩ := List.mem_flatMap.mp member
  exact List.le_snd_of_mem_zipIdx here

/-! ### Rows and their images -/

variable {part' : β → κ} {le' : β → β → Bool} {f : α → β}

theorem limit_map {rows : List α} (same : ∀ row ∈ rows, part' (f row) = part row) (seen : List κ) :
    limit part' keep seen (rows.map f) = (limit part keep seen rows).map f := by
  induction rows generalizing seen with
  | nil => rfl
  | cons row rest ih =>
    rw [List.map_cons, limit, limit, same row List.mem_cons_self,
      ih fun other member => same other (List.mem_cons_of_mem _ member)]
    split <;> rfl

theorem sorted_map (same : ∀ row ∈ rows, part' (f row) = part row)
    (order : ∀ a ∈ rows, ∀ b ∈ rows, le a b = le' (f a) (f b)) :
    sorted part' le' (rows.map f) = (sorted part le rows).map f := by
  have keys : partitions part' (rows.map f) = partitions part rows := by
    rw [partitions, List.map_map]
    exact congrArg _ (List.map_congr_left same)
  rw [sorted, sorted, keys, List.map_flatMap]
  refine List.flatMap_congr fun k _ => ?_
  have block : (rows.map f).filter (fun row => part' row = k) = (rows.filter fun row => part row = k).map f := by
    rw [List.filter_map]
    refine congrArg _ (List.filter_congr fun row member => ?_)
    rw [Function.comp_apply, same row member]
  rw [ranked, block, ranked, List.map_mergeSort]
  exact fun a first b second => order a (List.mem_filter.mp first).1 b (List.mem_filter.mp second).1

end

end AsapPlanner.Ranking
