import Mathlib.Data.List.Sort

/-! # Sorting by a key, stably

Elements with the same key stay in their order (`StableSort.filter_key_sortBy`), and
a sorted list is determined by its elements of each key
(`StableSort.eq_of_filter_key`). So a part of a list may be sorted before
(`StableSort.sortBy_sorted_part`), and what is selected may be selected before
(`StableSort.filter_sortBy`).
-/

namespace StableSort

variable {Element Key : Type*} [LinearOrder Key] (key : Element → Key)

def Sorted (list : List Element) : Prop :=
  list.Pairwise fun first second => key first ≤ key second

def sortBy (list : List Element) : List Element :=
  list.insertionSort fun first second => key first ≤ key second

theorem sortBy_sorted (list : List Element) : Sorted key (sortBy key list) := by
  have total : Std.Total fun first second : Element => key first ≤ key second :=
    ⟨fun _ _ => le_total _ _⟩
  have transitive : IsTrans Element fun first second => key first ≤ key second :=
    ⟨fun _ _ _ => le_trans⟩
  exact List.pairwise_insertionSort _ list

theorem sortBy_perm (list : List Element) : (sortBy key list).Perm list :=
  List.perm_insertionSort _ list

/-- **Stability.** The elements of a key stay in their order. -/
theorem filter_key_sortBy (list : List Element) (value : Key) :
    (sortBy key list).filter (key · = value) = list.filter (key · = value) := by
  have inOrder : (list.filter (key · = value)).Pairwise
      fun first second => key first ≤ key second := by
    refine List.pairwise_of_forall_mem_list fun first here second there => ?_
    have firstKey := of_decide_eq_true (List.mem_filter.mp here).2
    have secondKey := of_decide_eq_true (List.mem_filter.mp there).2
    rw [firstKey, secondKey]
  have part := (List.sublist_insertionSort inOrder List.filter_sublist).filter (key · = value)
  rw [List.filter_filter] at part
  simp only [Bool.and_self] at part
  exact (part.eq_of_length ((sortBy_perm key list).filter _).length_eq.symm).symm

variable {key}

theorem mem_iff_of_filter_key {first second : List Element}
    (same : ∀ value, first.filter (key · = value) = second.filter (key · = value))
    (element : Element) : element ∈ first ↔ element ∈ second := by
  have part := congrArg (element ∈ ·) (same (key element))
  simpa only [List.mem_filter, decide_true, and_true, eq_iff_iff] using part

/-- The head of a sorted list has the least key. -/
theorem key_le_of_mem {head : Element} {rest : List Element} (sorted : Sorted key (head :: rest))
    {element : Element} (present : element ∈ head :: rest) : key head ≤ key element := by
  cases present with
  | head => exact le_rfl
  | tail _ later => exact (List.pairwise_cons.mp sorted).1 element later

/-- A sorted list is determined by its elements of each key. -/
theorem eq_of_filter_key {first second : List Element} (sorted : Sorted key first)
    (ordered : Sorted key second)
    (same : ∀ value, first.filter (key · = value) = second.filter (key · = value)) :
    first = second := by
  induction first generalizing second with
  | nil =>
      cases second with
      | nil => rfl
      | cons head rest => cases (mem_iff_of_filter_key same head).mpr (List.mem_cons_self ..)
  | cons head rest ih =>
      have mem := mem_iff_of_filter_key same
      cases second with
      | nil => cases (mem head).mp (List.mem_cons_self ..)
      | cons other others =>
          have heads : key other = key head :=
            le_antisymm (key_le_of_mem ordered ((mem head).mp (List.mem_cons_self ..)))
              (key_le_of_mem sorted ((mem other).mpr (List.mem_cons_self ..)))
          have whole := same (key head)
          simp only [List.filter_cons, heads, decide_true, ↓reduceIte, List.cons.injEq] at whole
          obtain ⟨rfl, -⟩ := whole
          refine congrArg _ (ih (List.pairwise_cons.mp sorted).2 (List.pairwise_cons.mp ordered).2
            fun value => ?_)
          have part := same value
          simp only [List.filter_cons] at part
          split at part
          · exact (List.cons.inj part).2
          · exact part

variable (key)

theorem sortBy_of_sorted {list : List Element} (sorted : Sorted key list) :
    sortBy key list = list :=
  eq_of_filter_key (sortBy_sorted key list) sorted (filter_key_sortBy key list)

/-- A part may be sorted before. -/
theorem sortBy_sorted_part (before part after : List Element) :
    sortBy key (before ++ sortBy key part ++ after) = sortBy key (before ++ part ++ after) := by
  refine eq_of_filter_key (sortBy_sorted key _) (sortBy_sorted key _) fun value => ?_
  simp only [filter_key_sortBy, List.filter_append]

/-- Elements may be replaced before, by elements with the same keys. -/
theorem map_sortBy {Image : Type*} (other : Image → Key) (replace : Element → Image)
    {list : List Element} (same : ∀ element ∈ list, other (replace element) = key element) :
    (sortBy key list).map replace = sortBy other (list.map replace) := by
  refine List.map_insertionSort _ _ replace list fun first here second there => ?_
  rw [same first here, same second there]

/-- What is selected may be selected before. -/
theorem filter_sortBy (selected : Element → Bool) (list : List Element) :
    (sortBy key list).filter selected = sortBy key (list.filter selected) := by
  refine eq_of_filter_key ((sortBy_sorted key list).filter _) (sortBy_sorted key _) fun value => ?_
  rw [filter_key_sortBy, List.filter_comm, filter_key_sortBy, List.filter_comm]

/-- Where no key is there twice, the order does not matter. -/
theorem sortBy_congr {first second : List Element} (same : first.Perm second)
    (distinct : (first.map key).Nodup) : sortBy key first = sortBy key second := by
  refine List.Perm.eq_of_pairwise ?_ (sortBy_sorted key first) (sortBy_sorted key second)
    ((sortBy_perm key first).trans (same.trans (sortBy_perm key second).symm))
  intro left right here there below above
  have present := (sortBy_perm key first).mem_iff.mp here
  have present' := same.mem_iff.mpr ((sortBy_perm key second).mem_iff.mp there)
  exact List.inj_on_of_nodup_map distinct present present' (le_antisymm below above)

end StableSort
