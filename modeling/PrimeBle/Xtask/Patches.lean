import Mathlib.Data.List.Pairwise
import PrimeBle.Xtask.Stability

/-! # The patches of a merged image

The writer takes the patches in step with the sorted records, at most one for each
record. A patch that shares its record with the one before it is passed over, and
keeps all later ones from being applied (`Xtask.scans_of_sorted`). So the
patches are carried exactly when the ones held up change nothing
(`Xtask.carries_iff_applicable`).
-/

namespace PrimeBle.Xtask

open IntelHex

/-- The bytes of records, at the addresses from that of their record on. -/
def cells (records : List Addressed) : List (ℕ × UInt8) :=
  records.flatMap fun record => placed (record.1.toNat + ·) record.2.1

/-- No address is given a byte twice, as the inputs are read. -/
def DisjointRecords (inputs : List MergeableFile) : Prop :=
  ((cells (inputRecords inputs)).map Prod.fst).Nodup

/-- The patch value is at every patch address, and the original byte at every other. -/
def Patched (patches : List Patch) (original records : List Addressed) : Prop :=
  (∀ patch ∈ patches, ∀ byte, (patch.1.toNat, byte) ∈ cells records ↔ byte = patch.2) ∧
    ∀ address, (∀ patch ∈ patches, patch.1.toNat ≠ address) → ∀ byte,
      (address, byte) ∈ cells records ↔ (address, byte) ∈ cells original

/-- The output is there, and the records read from it are those of the inputs with
the patches. -/
def Carries (inputs : List MergeableFile) (patches : List Patch) : Prop :=
  ∃ output, mergeFiles inputs (some patches) = some output ∧
    Patched patches (inputRecords inputs) (iHexRecords 0 output)

/-- The address behind a record. -/
def finish (record : Addressed) : ℕ := record.1.toNat + record.2.length

def Inside (record : Addressed) (address : UInt32) : Prop :=
  record.1.toNat ≤ address.toNat ∧ address.toNat < finish record

instance (record : Addressed) : DecidablePred (Inside record) := fun address =>
  inferInstanceAs (Decidable (record.1.toNat ≤ address.toNat ∧ address.toNat < finish record))

def Share (records : List Addressed) (first second : UInt32) : Prop :=
  ∃ record ∈ records, Inside record first ∧ Inside record second

instance (records : List Addressed) (first second : UInt32) :
    Decidable (Share records first second) :=
  inferInstanceAs (Decidable (∃ record ∈ records, Inside record first ∧ Inside record second))

/-- The patches before the first that shares a record with the one before it. -/
def applied (records : List Addressed) : List Patch → List Patch
  | [] => []
  | [patch] => [patch]
  | patch :: next :: patches =>
      if Share records patch.1 next.1 then [patch]
      else patch :: applied records (next :: patches)

/-- The patches from the first that shares a record with the one before it. -/
def blocked (records : List Addressed) : List Patch → List Patch
  | [] => []
  | [_] => []
  | patch :: next :: patches =>
      if Share records patch.1 next.1 then next :: patches else blocked records (next :: patches)

/-- Every slice of a binary starts below 2^32. -/
def MergeableFile.Fits : MergeableFile → Prop
  | .iHex _ => True
  | .binary data globalOffset => ∀ i < chunkCount data, globalOffset.toNat + 32 * i < 2 ^ 32

/-- There is data, with addresses that can be computed, the patches held up change
nothing, and the record that ends the address space does not meet a patch. -/
structure Applicable (inputs : List MergeableFile) (patches : List Patch) : Prop where
  data : inputRecords inputs ≠ []
  fits : ∀ file ∈ inputs, file.Fits
  unchanged : ∀ patch ∈ blocked (inputRecords inputs) patches.reverse,
    (patch.1.toNat, patch.2) ∈ cells (inputRecords inputs)
  below : ∀ record ∈ inputRecords inputs, 2 ^ 32 ≤ finish record →
    blocked (inputRecords inputs) patches.reverse = [] ∧
      ∀ patch ∈ patches, ¬ Inside record patch.1

section Overwriting

/-- The byte at an address after patches. -/
def patchedByte (patches : List Patch) (address : ℕ) (byte : UInt8) : UInt8 :=
  (patches.find? fun patch => patch.1.toNat = address).elim byte Prod.snd

/-- The record with all its patches. -/
def overwrite (patches : List Patch) (record : Addressed) : Addressed :=
  (record.1, record.2.mapIdx fun i => patchedByte patches (record.1.toNat + i))

theorem patchedByte_of_mem {patches : List Patch}
    (ascending : patches.Pairwise fun first second => first.1.toNat < second.1.toNat)
    {patch : Patch} (present : patch ∈ patches) (byte : UInt8) :
    patchedByte patches patch.1.toNat byte = patch.2 := by
  induction patches with
  | nil => cases present
  | cons head rest ih =>
      obtain ⟨least, ascending⟩ := List.pairwise_cons.mp ascending
      cases present with
      | head => simp only [patchedByte, List.find?_cons, decide_true, Option.elim_some]
      | tail _ later =>
          have different : ¬ head.1.toNat = patch.1.toNat := (least patch later).ne
          simp only [patchedByte, List.find?_cons, different, decide_false]
          exact ih ascending later

theorem patchedByte_of_ne {patches : List Patch} {address : ℕ}
    (different : ∀ patch ∈ patches, patch.1.toNat ≠ address) (byte : UInt8) :
    patchedByte patches address byte = byte := by
  have missing : patches.find? (fun patch => patch.1.toNat = address) = none :=
    List.find?_eq_none.mpr fun patch present => by
      simpa only [decide_eq_true_eq] using different patch present
  rw [patchedByte, missing, Option.elim_none]

theorem cells_overwrite (patches : List Patch) (records : List Addressed) :
    cells (records.map (overwrite patches)) =
      (cells records).map fun cell => (cell.1, patchedByte patches cell.1 cell.2) := by
  simp only [cells, List.flatMap_map, List.map_flatMap, overwrite, Payload.mapIdx]
  exact congrArg (List.flatMap · records) (funext fun record =>
    placed_mapIdx (patchedByte patches) (record.1.toNat + ·) record.2.1)

theorem overwrite_congr {first second : List Patch} {record : Addressed}
    (same : ∀ i < record.2.length, ∀ byte,
      patchedByte first (record.1.toNat + i) byte = patchedByte second (record.1.toNat + i) byte) :
    overwrite first record = overwrite second record := by
  refine Prod.ext rfl (Subtype.ext (List.ext_getElem ?_ fun i inside _ => ?_))
  · simp only [overwrite, Payload.mapIdx, List.length_mapIdx]
  · simp only [overwrite, Payload.mapIdx, List.length_mapIdx, List.getElem_mapIdx] at inside ⊢
    exact same i inside _

/-- A patch outside a record leaves it alone. -/
theorem overwrite_cons_of_outside {patch : Patch} {patches : List Patch} {record : Addressed}
    (outside : ¬ Inside record patch.1) :
    overwrite (patch :: patches) record = overwrite patches record := by
  refine overwrite_congr fun i inside byte => ?_
  have different : ¬ patch.1.toNat = record.1.toNat + i := fun here =>
    outside ⟨by omega, by unfold finish; omega⟩
  simp only [patchedByte, List.find?_cons, different, decide_false]

theorem overwrite_nil (record : Addressed) : overwrite [] record = record := by
  refine Prod.ext rfl (Subtype.ext (List.ext_getElem ?_ fun i inside _ => ?_))
  · simp only [overwrite, Payload.mapIdx, List.length_mapIdx]
  · simp only [overwrite, Payload.mapIdx, List.getElem_mapIdx]
    exact patchedByte_of_ne (fun _ present => absurd present (List.not_mem_nil)) _

theorem overwrite_of_outside {patches : List Patch} {record : Addressed}
    (outside : ∀ patch ∈ patches, ¬ Inside record patch.1) : overwrite patches record = record := by
  induction patches with
  | nil => exact overwrite_nil record
  | cons patch patches ih =>
      obtain ⟨first, later⟩ := List.forall_mem_cons.mp outside
      rw [overwrite_cons_of_outside first, ih later]

theorem map_overwrite_nil (records : List Addressed) :
    records.map (overwrite []) = records :=
  List.map_id'' overwrite_nil records

theorem map_overwrite_cons {patch : Patch} {patches : List Patch} {records : List Addressed}
    (outside : ∀ record ∈ records, ¬ Inside record patch.1) :
    records.map (overwrite (patch :: patches)) = records.map (overwrite patches) :=
  List.map_congr_left fun record present => overwrite_cons_of_outside (outside record present)

/-- The patch inside a record sets one byte of it. -/
theorem overwrite_cons_of_inside {patch : Patch} (patches : List Patch) {record : Addressed}
    (inside : Inside record patch.1) (others : ∀ other ∈ patches, ¬ Inside record other.1) :
    overwrite (patch :: patches) record =
      (record.1, record.2.set (patch.1 - record.1).toNat patch.2) := by
  have place : (patch.1 - record.1).toNat = patch.1.toNat - record.1.toNat :=
    UInt32.toNat_sub_of_le _ _ inside.1
  refine Prod.ext rfl (Subtype.ext (List.ext_getElem ?_ fun i bound _ => ?_))
  · simp only [overwrite, Payload.mapIdx, Payload.set, List.length_mapIdx, List.length_set]
  · simp only [overwrite, Payload.mapIdx, Payload.set, List.length_mapIdx, List.getElem_mapIdx,
      List.getElem_set, place] at bound ⊢
    by_cases here : patch.1.toNat = record.1.toNat + i
    · simp only [patchedByte, List.find?_cons, here, decide_true, Option.elim_some,
        Nat.add_sub_cancel_left, ↓reduceIte]
    · have index : ¬ patch.1.toNat - record.1.toNat = i := by
        have above := inside.1
        omega
      simp only [patchedByte, List.find?_cons, here, decide_false, index, ↓reduceIte]
      refine patchedByte_of_ne (fun other present same => others other present ?_) _
      exact ⟨by omega, by unfold finish Payload.length; omega⟩

end Overwriting

section Scan

theorem applyPatch_cons {addr : UInt32} {value : Payload} {patch : Patch} {patches : List Patch} :
    applyPatch addr value (patch :: patches) =
      if finish (addr, value) < 2 ^ 32 then
        if Inside (addr, value) patch.1 then
          some (value.set (patch.1 - addr).toNat patch.2, patches)
        else some (value, patch :: patches)
      else none := by
  have length : value.length.toUInt32.toNat = value.length :=
    UInt32.toNat_ofNat_of_lt' (value.2.trans_lt (by decide))
  unfold finish
  by_cases fits : addr.toNat + value.length < 2 ^ 32
  · have sum : (addr + value.length.toUInt32).toNat = addr.toNat + value.length := by
      rw [UInt32.toNat_add, length, Nat.mod_eq_of_lt fits]
    simp only [applyPatch, checkedAdd, length, if_pos fits, Option.bind_eq_bind,
      Option.bind_some, UInt32.le_iff_toNat_le, UInt32.lt_iff_toNat_lt, sum, Inside, finish]
    rfl
  · simp only [applyPatch, checkedAdd, length, if_neg fits, Option.bind_eq_bind,
      Option.bind_none]

/-- A record that holds the next patch takes it, and the scan goes on with the others. -/
theorem patchRecords_inside {patch : Patch} {patches : List Patch} {record : Addressed}
    {records result : List Addressed} (inside : Inside record patch.1) :
    patchRecords (patch :: patches) (record :: records) = some result ↔
      finish record < 2 ^ 32 ∧ ∃ rest, patchRecords patches records = some rest ∧
        (record.1, record.2.set (patch.1 - record.1).toNat patch.2) :: rest = result := by
  obtain ⟨addr, value⟩ := record
  by_cases fits : finish (addr, value) < 2 ^ 32
  · simp only [patchRecords, applyPatch_cons, fits, inside, ↓reduceIte, Option.bind_eq_bind,
      Option.bind_some, Option.bind_eq_some_iff, Option.some.injEq, true_and]
  · simp only [patchRecords, applyPatch_cons, fits, ↓reduceIte, Option.bind_eq_bind,
      Option.bind_none, reduceCtorEq, false_and]

/-- A record that does not hold the next patch is left alone. -/
theorem patchRecords_outside {patch : Patch} {patches : List Patch} {record : Addressed}
    {records result : List Addressed} (outside : ¬ Inside record patch.1) :
    patchRecords (patch :: patches) (record :: records) = some result ↔
      finish record < 2 ^ 32 ∧ ∃ rest, patchRecords (patch :: patches) records = some rest ∧
        record :: rest = result := by
  obtain ⟨addr, value⟩ := record
  by_cases fits : finish (addr, value) < 2 ^ 32
  · simp only [patchRecords, applyPatch_cons, fits, outside, ↓reduceIte, Option.bind_eq_bind,
      Option.bind_some, Option.bind_eq_some_iff, Option.some.injEq, true_and]
  · simp only [patchRecords, applyPatch_cons, fits, ↓reduceIte, Option.bind_eq_bind,
      Option.bind_none, reduceCtorEq, false_and]

/-- A patch in none of the records holds up all patches. -/
theorem patchRecords_stuck {patch : Patch} {patches : List Patch} {records result : List Addressed}
    (outside : ∀ record ∈ records, ¬ Inside record patch.1) :
    patchRecords (patch :: patches) records = some result ↔
      (∀ record ∈ records, finish record < 2 ^ 32) ∧ records = result := by
  induction records generalizing result with
  | nil =>
      simp only [patchRecords, Option.some.injEq, List.not_mem_nil, IsEmpty.forall_iff,
        implies_true, true_and]
  | cons record records ih =>
      obtain ⟨here, later⟩ := List.forall_mem_cons.mp outside
      simp only [patchRecords_outside here, ih later, List.forall_mem_cons]
      constructor
      · rintro ⟨fits, rest, ⟨others, same⟩, whole⟩
        exact ⟨⟨fits, others⟩, by rw [← whole, same]⟩
      · rintro ⟨⟨fits, others⟩, whole⟩
        exact ⟨fits, records, ⟨others, rfl⟩, whole⟩

variable (all : List Addressed)

/-- A patch that shares its record with no later one is applied before them. -/
theorem applied_cons {patch : Patch} {patches : List Patch}
    (alone : ∀ other ∈ patches, ¬ Share all patch.1 other.1) :
    applied all (patch :: patches) = patch :: applied all patches ∧
      blocked all (patch :: patches) = blocked all patches := by
  cases patches with
  | nil => exact ⟨rfl, rfl⟩
  | cons next patches =>
      have apart := alone next (List.mem_cons_self ..)
      exact ⟨if_neg apart, if_neg apart⟩

theorem applied_append_blocked (patches : List Patch) :
    applied all patches ++ blocked all patches = patches := by
  induction patches with
  | nil => rfl
  | cons patch patches ih =>
      cases patches with
      | nil => rfl
      | cons next patches =>
          by_cases shared : Share all patch.1 next.1
          · simp only [applied, blocked, shared, ↓reduceIte, List.singleton_append]
          · simp only [applied, blocked, shared, ↓reduceIte, List.cons_append, ih]

theorem mem_of_applied {patches : List Patch} {patch : Patch}
    (present : patch ∈ applied all patches) : patch ∈ patches := by
  rw [← applied_append_blocked all patches]
  exact List.mem_append_left _ present

variable {all}

/-- No record that ends the address space meets a pending patch. -/
def Clear (all records : List Addressed) (patches : List Patch) : Prop :=
  ∀ record ∈ records, 2 ^ 32 ≤ finish record →
    blocked all patches = [] ∧ ∀ patch ∈ patches, ¬ Inside record patch.1

/-- Once a patch is applied, the records after its own have to be clear of the others. -/
theorem clear_cons {record : Addressed} {records : List Addressed} {patch : Patch}
    {patches : List Patch} (inside : Inside record patch.1)
    (outside : ∀ record ∈ records, ¬ Inside record patch.1)
    (same : blocked all (patch :: patches) = blocked all patches) :
    Clear all (record :: records) (patch :: patches) ↔
      finish record < 2 ^ 32 ∧ Clear all records patches := by
  unfold Clear
  rw [List.forall_mem_cons, same]
  refine and_congr ?_ (forall₂_congr fun other present => imp_congr_right fun _ => ?_)
  · constructor
    · intro clear
      by_contra full
      exact (clear (not_lt.mp full)).2 patch (List.mem_cons_self ..) inside
    · intro fits full
      exact absurd fits (not_lt.mpr full)
  · rw [List.forall_mem_cons]
    exact and_congr_right fun _ => and_iff_right (outside other present)

/-- Once a patch is held up, no record may end the address space. -/
theorem clear_of_blocked {records : List Addressed} {patches : List Patch}
    (held : blocked all patches ≠ []) :
    Clear all records patches ↔ ∀ record ∈ records, finish record < 2 ^ 32 := by
  refine forall₂_congr fun record _ => ?_
  constructor
  · intro clear
    by_contra full
    exact held (clear (not_lt.mp full)).1
  · intro fits full
    exact absurd fits (not_lt.mpr full)

/-- The scan emits each record with the patches that are applied. -/
def Scans (all records : List Addressed) (patches : List Patch) : Prop :=
  ∀ result, patchRecords patches records = some result ↔
    Clear all records patches ∧ records.map (overwrite (applied all patches)) = result

section Cases

variable {record : Addressed} {records : List Addressed} {patch next : Patch}
  {patches : List Patch}

theorem scans_nil : Scans all records [] := by
  intro result
  simp only [patchRecords_nil, Option.some.injEq, applied, map_overwrite_nil, Clear, blocked,
    List.not_mem_nil, IsEmpty.forall_iff, implies_true, and_self, true_and]

/-- The patch is alone in its record. -/
theorem Scans.alone (later : Scans all records patches) (inside : Inside record patch.1)
    (passed : ∀ other ∈ records, ¬ Inside other patch.1)
    (others : ∀ other ∈ patches, ¬ Inside record other.1)
    (unshared : ∀ other ∈ patches, ¬ Share all patch.1 other.1) :
    Scans all (record :: records) (patch :: patches) := by
  intro result
  obtain ⟨first, same⟩ := applied_cons all unshared
  have whole := overwrite_cons_of_inside (applied all patches) inside
    fun other present => others other (mem_of_applied all present)
  simp only [patchRecords_inside inside, later _, clear_cons inside passed same, first,
    List.map_cons, map_overwrite_cons passed, whole, and_assoc, exists_and_left,
    exists_eq_left']

/-- The second patch in a record holds up the scan. -/
theorem scans_shared (inside : Inside record patch.1) (both : Inside record next.1)
    (alone : ∀ other ∈ records, ∀ address, Inside record address → ¬ Inside other address)
    (held : Share all patch.1 next.1) :
    Scans all (record :: records) (patch :: next :: patches) := by
  intro result
  have passed : ∀ other ∈ records, ¬ Inside other patch.1 := fun other present =>
    alone other present patch.1 inside
  have stuck : ∀ other ∈ records, ¬ Inside other next.1 := fun other present =>
    alone other present next.1 both
  have first : applied all (patch :: next :: patches) = [patch] := if_pos held
  have rest : blocked all (patch :: next :: patches) = next :: patches := if_pos held
  have whole := overwrite_cons_of_inside [] inside
    fun other present => absurd present (List.not_mem_nil)
  rw [clear_of_blocked (rest.trans_ne (List.cons_ne_nil next patches))]
  simp only [patchRecords_inside inside, patchRecords_stuck stuck, List.forall_mem_cons, first,
    List.map_cons, map_overwrite_cons passed, map_overwrite_nil, whole, and_assoc,
    exists_and_left, exists_eq_left']

/-- The record holds none of the patches. -/
theorem Scans.passed (later : Scans all records (patch :: patches))
    (outside : ∀ other ∈ patch :: patches, ¬ Inside record other.1)
    (fits : finish record < 2 ^ 32) : Scans all (record :: records) (patch :: patches) := by
  intro result
  have whole := overwrite_of_outside fun other present =>
    outside other (mem_of_applied all present)
  have clear : Clear all (record :: records) (patch :: patches) ↔
      Clear all records (patch :: patches) := by
    unfold Clear
    rw [List.forall_mem_cons]
    exact and_iff_right fun full => absurd fits (not_lt.mpr full)
  simp only [patchRecords_outside (outside patch (List.mem_cons_self ..)), later _, clear,
    List.map_cons, whole, fits, true_and, and_assoc, exists_and_left, exists_eq_left']

theorem covered_later {address : UInt32}
    (covered : ∃ owner ∈ record :: records, Inside owner address)
    (outside : ¬ Inside record address) : ∃ owner ∈ records, Inside owner address := by
  obtain ⟨owner, present, holds⟩ := covered
  cases present with
  | head => exact absurd holds outside
  | tail _ later => exact ⟨owner, later, holds⟩

end Cases

/-- **The scan.** It emits sorted records that share no address with the patches that
are applied. -/
theorem scans_of_sorted {records : List Addressed} {patches : List Patch}
    (sorted : records.Pairwise fun first second => first.1.toNat ≤ second.1.toNat)
    (apart : records.Pairwise fun first second =>
      ∀ address, Inside first address → ¬ Inside second address)
    (shares : ∀ record ∈ records, ∀ first second, Inside record first →
      (Share all first second ↔ Inside record second))
    (ascending : patches.Pairwise fun first second => first.1.toNat < second.1.toNat)
    (covered : ∀ patch ∈ patches, ∃ record ∈ records, Inside record patch.1) :
    Scans all records patches := by
  induction records generalizing patches with
  | nil =>
      cases patches with
      | nil => exact scans_nil
      | cons patch patches =>
          obtain ⟨_, present, _⟩ := covered patch (List.mem_cons_self ..)
          cases present
  | cons record records ih =>
      obtain ⟨least, sorted⟩ := List.pairwise_cons.mp sorted
      obtain ⟨alone, apart⟩ := List.pairwise_cons.mp apart
      obtain ⟨here, shares⟩ := List.forall_mem_cons.mp shares
      cases patches with
      | nil => exact scans_nil
      | cons patch patches =>
          obtain ⟨above, others⟩ := List.pairwise_cons.mp ascending
          by_cases inside : Inside record patch.1
          · by_cases unshared : ∀ other ∈ patches, ¬ Inside record other.1
            · -- The other patches are in later records.
              have later := ih sorted apart shares others fun other present =>
                covered_later (covered other (List.mem_cons_of_mem _ present))
                  (unshared other present)
              exact later.alone inside (fun other present => alone other present patch.1 inside)
                unshared fun other present =>
                  (here patch.1 other.1 inside).not.mpr (unshared other present)
            · -- The next patch is in this record too.
              push Not at unshared
              obtain ⟨last, present, within⟩ := unshared
              cases patches with
              | nil => cases present
              | cons next patches =>
                  have start : record.1.toNat ≤ next.1.toNat :=
                    inside.1.trans (above next (List.mem_cons_self ..)).le
                  have least : next.1.toNat ≤ last.1.toNat := by
                    cases present with
                    | head => exact Nat.le_refl _
                    | tail _ later => exact ((List.pairwise_cons.mp others).1 last later).le
                  have both : Inside record next.1 := ⟨start, least.trans_lt within.2⟩
                  exact scans_shared inside both alone ((here patch.1 next.1 inside).mpr both)
          · -- All patches are behind this record.
            obtain ⟨owner, present, holds⟩ :=
              covered_later (covered patch (List.mem_cons_self ..)) inside
            have low : record.1.toNat ≤ patch.1.toNat := (least owner present).trans holds.1
            have high : finish record ≤ patch.1.toNat :=
              not_lt.mp fun below => inside ⟨low, below⟩
            have outside : ∀ other ∈ patch :: patches, ¬ Inside record other.1 :=
              List.forall_mem_cons.mpr ⟨inside, fun other present within =>
                absurd within.2 (not_lt.mpr (high.trans (above other present).le))⟩
            have later := ih sorted apart shares ascending fun other present =>
              covered_later (covered other present) (outside other present)
            exact later.passed outside (high.trans_lt patch.1.toNat_lt)

end Scan

section Cells

theorem mem_cells {records : List Addressed} {address : ℕ} {byte : UInt8} :
    (address, byte) ∈ cells records ↔
      ∃ record ∈ records, (address, byte) ∈ placed (record.1.toNat + ·) record.2.1 :=
  List.mem_flatMap

theorem inside_iff {record : Addressed} {address : UInt32} :
    Inside record address ↔
      ∃ byte, (address.toNat, byte) ∈ placed (record.1.toNat + ·) record.2.1 := by
  simp only [mem_placed]
  constructor
  · intro ⟨above, below⟩
    have index : address.toNat - record.1.toNat < record.2.1.length := by
      unfold finish Payload.length at below
      omega
    exact ⟨_, _, Nat.add_sub_cancel' above, List.getElem?_eq_getElem index⟩
  · intro ⟨byte, i, here, holds⟩
    have index : i < record.2.length := (List.getElem?_eq_some_iff.mp holds).1
    exact ⟨by omega, by unfold finish; omega⟩

theorem covered_iff {records : List Addressed} {address : UInt32} :
    (∃ byte, (address.toNat, byte) ∈ cells records) ↔
      ∃ record ∈ records, Inside record address := by
  simp only [mem_cells, inside_iff]
  constructor
  · intro ⟨byte, record, present, holds⟩
    exact ⟨record, present, byte, holds⟩
  · intro ⟨record, present, byte, holds⟩
    exact ⟨byte, record, present, holds⟩

theorem cells_perm {first second : List Addressed} (same : first.Perm second) :
    (cells first).Perm (cells second) :=
  same.flatMap_right _

theorem byte_unique {records : List Addressed}
    (disjoint : ((cells records).map Prod.fst).Nodup) {address : ℕ} {first second : UInt8}
    (here : (address, first) ∈ cells records) (there : (address, second) ∈ cells records) :
    first = second :=
  congrArg Prod.snd (List.inj_on_of_nodup_map disjoint here there rfl)

/-- Records that give no address a byte twice share none. -/
theorem apart_of_nodup {records : List Addressed}
    (disjoint : ((cells records).map Prod.fst).Nodup) :
    records.Pairwise fun first second =>
      ∀ address, Inside first address → ¬ Inside second address := by
  rw [cells, List.map_flatMap, List.nodup_flatMap] at disjoint
  refine disjoint.2.imp fun {first second} separate address here there => ?_
  obtain ⟨byte, here⟩ := inside_iff.mp here
  obtain ⟨other, there⟩ := inside_iff.mp there
  exact separate (List.mem_map.mpr ⟨_, here, rfl⟩) (List.mem_map.mpr ⟨_, there, rfl⟩)

/-- In which patches share a record with a given one, when no two records share an
address. -/
theorem share_iff {records : List Addressed}
    (disjoint : ((cells records).map Prod.fst).Nodup) {record : Addressed}
    (present : record ∈ records) {first second : UInt32} (inside : Inside record first) :
    Share records first second ↔ Inside record second := by
  constructor
  · intro ⟨owner, found, here, there⟩
    by_contra elsewhere
    have different : record ≠ owner := fun same => elsewhere (same ▸ there)
    have symmetric : Std.Symm fun first second : Addressed =>
        ∀ address, Inside first address → ¬ Inside second address :=
      ⟨fun _ _ separate address here there => separate address there here⟩
    exact (apart_of_nodup disjoint).forall present found different first inside here
  · intro there
    exact ⟨record, present, inside, there⟩

end Cells

section Carried

variable {inputs : List MergeableFile} {patches : List Patch}

/-- The patches in the order in which they are taken. -/
theorem ascending_reverse (descending : patches.Pairwise fun first second => second.1 < first.1) :
    patches.reverse.Pairwise fun first second => first.1.toNat < second.1.toNat :=
  List.pairwise_reverse.mpr (descending.imp fun less => UInt32.lt_iff_toNat_lt.mp less)

theorem readable_iff_fits : Readable inputs ↔ ∀ file ∈ inputs, file.Fits := by
  refine forall₂_congr fun file _ => ?_
  cases file with
  | iHex records => exact iff_of_true (congrArg some (iHexRecords_eq 0 .initial records)) trivial
  | binary data globalOffset =>
      refine binaryRecords_eq_some.trans ((and_iff_left rfl).trans ?_)
      constructor
      · intro computed i inside
        -- The index is cut to 32 bits, but its product with 32 overflows before.
        have small : i < 2 ^ 27 := by
          by_contra large
          have product := (chunkAddress_eq_some.mp (computed (2 ^ 27) (by omega))).1.1
          exact absurd product (by decide)
        obtain ⟨_, skipped⟩ := toNat_toUInt32_mul (i := i) (by omega)
        have fits := (chunkAddress_eq_some.mp (computed i inside)).1.2
        rwa [skipped] at fits
      · intro fits i inside
        exact chunkAddress_of_lt (fits i inside)

/-- The records that are emitted. -/
theorem mergedRecords_eq_some {records : List Addressed} (disjoint : DisjointRecords inputs)
    (descending : patches.Pairwise fun first second => second.1 < first.1)
    (covered : ∀ patch ∈ patches, ∃ byte, (patch.1.toNat, byte) ∈ cells (inputRecords inputs)) :
    mergedRecords inputs (some patches) = some records ↔
      Readable inputs ∧ Clear (inputRecords inputs) (inputRecords inputs) patches.reverse ∧
        (sortByKey (inputRecords inputs)).map
          (overwrite (applied (inputRecords inputs) patches.reverse)) = records := by
  have same : (sortByKey (inputRecords inputs)).Perm (inputRecords inputs) :=
    List.perm_insertionSort _ _
  have separate : ((cells (sortByKey (inputRecords inputs))).map Prod.fst).Nodup :=
    ((cells_perm same).map Prod.fst).nodup_iff.mpr disjoint
  have shares : ∀ record ∈ sortByKey (inputRecords inputs), ∀ first second,
      Inside record first →
        (Share (inputRecords inputs) first second ↔ Inside record second) :=
    fun record present first second inside =>
      share_iff disjoint (mem_sortByKey.mp present) inside
  have owned : ∀ patch ∈ patches.reverse,
      ∃ record ∈ sortByKey (inputRecords inputs), Inside record patch.1 := by
    intro patch present
    obtain ⟨record, found, inside⟩ :=
      covered_iff.mp (covered patch (List.mem_reverse.mp present))
    exact ⟨record, mem_sortByKey.mpr found, inside⟩
  have scan := scans_of_sorted (sortByKey_sorted _) (apart_of_nodup separate) shares
    (ascending_reverse descending) owned records
  have clear : Clear (inputRecords inputs) (sortByKey (inputRecords inputs)) patches.reverse ↔
      Clear (inputRecords inputs) (inputRecords inputs) patches.reverse := by
    simp only [Clear, mem_sortByKey]
  constructor
  · intro emitted
    obtain ⟨files, read, scanned⟩ := Option.bind_eq_some_iff.mp emitted
    have readable := (inputs_eq_some.mp read).1
    obtain ⟨others, collected, flattened⟩ := mapM_fileRecords_flatten readable
    obtain rfl : others = files := Option.some.inj (collected.symm.trans read)
    rw [flattened] at scanned
    exact ⟨readable, (scan.trans (and_congr_left' clear)).mp scanned⟩
  · intro ⟨readable, unmet, whole⟩
    obtain ⟨files, read, flattened⟩ := mapM_fileRecords_flatten readable
    refine Option.bind_eq_some_iff.mpr ⟨files, read, ?_⟩
    rw [flattened]
    exact scan.mpr ⟨clear.mpr unmet, whole⟩

/-- The patches are there when those held up change nothing. -/
theorem patched_iff {sorted : List Addressed} (same : sorted.Perm (inputRecords inputs))
    (disjoint : DisjointRecords inputs)
    (descending : patches.Pairwise fun first second => second.1 < first.1)
    (covered : ∀ patch ∈ patches, ∃ byte, (patch.1.toNat, byte) ∈ cells (inputRecords inputs)) :
    Patched patches (inputRecords inputs)
        (sorted.map (overwrite (applied (inputRecords inputs) patches.reverse))) ↔
      ∀ patch ∈ blocked (inputRecords inputs) patches.reverse,
        (patch.1.toNat, patch.2) ∈ cells (inputRecords inputs) := by
  have parts := applied_append_blocked (inputRecords inputs) patches.reverse
  have order := ascending_reverse descending
  have listed : ∀ patch, patch ∈ patches ↔ patch ∈ applied (inputRecords inputs) patches.reverse ∨
      patch ∈ blocked (inputRecords inputs) patches.reverse := fun patch => by
    rw [← List.mem_append, parts, List.mem_reverse]
  rw [← parts, List.pairwise_append] at order
  obtain ⟨ascending, _, before⟩ := order
  generalize applied (inputRecords inputs) patches.reverse = taken at *
  generalize blocked (inputRecords inputs) patches.reverse = held at *
  have goes : ∀ address byte, (address, byte) ∈ cells (sorted.map (overwrite taken)) ↔
      ∃ old, (address, old) ∈ cells (inputRecords inputs) ∧
        patchedByte taken address old = byte := by
    intro address byte
    rw [cells_overwrite, List.mem_map]
    constructor
    · intro ⟨cell, present, whole⟩
      obtain ⟨rfl, rfl⟩ := Prod.mk.inj whole
      exact ⟨cell.2, (cells_perm same).mem_iff.mp present, rfl⟩
    · intro ⟨old, present, whole⟩
      exact ⟨(address, old), (cells_perm same).mem_iff.mpr present, Prod.ext rfl whole⟩
  have untaken : ∀ address, (∀ patch ∈ taken, patch.1.toNat ≠ address) → ∀ byte,
      (address, byte) ∈ cells (sorted.map (overwrite taken)) ↔
        (address, byte) ∈ cells (inputRecords inputs) := by
    intro address other byte
    simp only [goes, patchedByte_of_ne other, exists_eq_right]
  constructor
  · intro ⟨carried, _⟩ patch present
    have there := (carried patch ((listed patch).mpr (.inr present)) patch.2).mpr rfl
    exact (untaken _ (fun other earlier => (before other earlier patch present).ne) _).mp there
  · intro unchanged
    refine ⟨fun patch present byte => ?_, fun address other byte => ?_⟩
    · cases (listed patch).mp present with
      | inl first =>
          obtain ⟨old, given⟩ := covered patch present
          simp only [goes, patchedByte_of_mem ascending first]
          constructor
          · intro ⟨_, _, value⟩
            exact value.symm
          · intro value
            exact ⟨old, given, value.symm⟩
      | inr later =>
          rw [untaken _ fun other earlier => (before other earlier patch later).ne]
          constructor
          · intro given
            exact byte_unique disjoint given (unchanged patch later)
          · intro value
            exact value ▸ unchanged patch later
    · exact untaken address (fun patch first => other patch ((listed patch).mpr (.inl first))) byte

/-- The emitted records are those that are read from the output. -/
theorem carries_iff_emitted :
    Carries inputs patches ↔ ∃ records, mergedRecords inputs (some patches) = some records ∧
      records ≠ [] ∧ Patched patches (inputRecords inputs) records := by
  constructor
  · intro ⟨output, merged, patched⟩
    rw [mergeFiles_eq] at merged
    obtain ⟨records, emitted, written⟩ := Option.bind_eq_some_iff.mp merged
    rw [iHexRecords_image written] at patched
    refine ⟨records, emitted, ?_, patched⟩
    intro empty
    rw [empty] at written
    cases written
  · intro ⟨records, emitted, present, patched⟩
    cases records with
    | nil => exact absurd rfl present
    | cons record records =>
        refine ⟨_, (mergeFiles_eq ..).trans (Option.bind_eq_some_iff.mpr ⟨_, emitted, rfl⟩), ?_⟩
        have written : image (record :: records) = some _ := rfl
        rw [iHexRecords_image written]
        exact patched

/-- **The patches.** They are carried exactly when those held up change nothing. -/
theorem carries_iff_applicable (inputs : List MergeableFile) (patches : List Patch)
    (disjoint : DisjointRecords inputs)
    (descending : patches.Pairwise fun first second => second.1 < first.1)
    (covered : ∀ patch ∈ patches, ∃ byte, (patch.1.toNat, byte) ∈ cells (inputRecords inputs)) :
    Carries inputs patches ↔ Applicable inputs patches := by
  have same : (sortByKey (inputRecords inputs)).Perm (inputRecords inputs) :=
    List.perm_insertionSort _ _
  have values := patched_iff same disjoint descending covered
  rw [carries_iff_emitted]
  constructor
  · intro ⟨records, emitted, present, patched⟩
    obtain ⟨readable, clear, rfl⟩ :=
      (mergedRecords_eq_some disjoint descending covered).mp emitted
    refine ⟨fun empty => present ?_, readable_iff_fits.mp readable, values.mp patched,
      fun record found full => ?_⟩
    · rw [empty]
      rfl
    · obtain ⟨unheld, unmet⟩ := clear record found full
      exact ⟨unheld, fun patch given => unmet patch (List.mem_reverse.mpr given)⟩
  · intro ⟨data, fits, unchanged, below⟩
    refine ⟨_, (mergedRecords_eq_some disjoint descending covered).mpr
      ⟨readable_iff_fits.mpr fits, fun record found full => ?_, rfl⟩, ?_, values.mpr unchanged⟩
    · obtain ⟨unheld, unmet⟩ := below record found full
      exact ⟨unheld, fun patch given => unmet patch (List.mem_reverse.mp given)⟩
    · intro empty
      exact data (List.nil_perm.mp (List.map_eq_nil_iff.mp empty ▸ same))

/-- A binary of two records. -/
def twoRecords : List MergeableFile := [.binary (List.replicate 64 0) 0]

theorem disjoint_twoRecords : DisjointRecords twoRecords := by
  unfold DisjointRecords
  decide +kernel

theorem mem_twoRecords : ∀ address < 64, (address, 0) ∈ cells (inputRecords twoRecords) := by
  decide +kernel

/-- With one patch for each record all is well. -/
theorem carries_twoRecords : Carries twoRecords [(32, 0xB4), (1, 0xB4)] := by
  have covered : ∀ patch ∈ ([(32, 0xB4), (1, 0xB4)] : List Patch),
      ∃ byte, (patch.1.toNat, byte) ∈ cells (inputRecords twoRecords) := by
    simp only [List.forall_mem_cons]
    exact ⟨⟨0, mem_twoRecords 32 (by decide)⟩, ⟨0, mem_twoRecords 1 (by decide)⟩, nofun⟩
  have free : blocked (inputRecords twoRecords) [(1, 0xB4), (32, 0xB4)] = [] := by decide +kernel
  refine (carries_iff_applicable twoRecords [(32, 0xB4), (1, 0xB4)] disjoint_twoRecords
    (by decide) covered).mpr ⟨by decide +kernel, ?_, ?_, by decide +kernel⟩
  · intro file present
    obtain rfl := List.mem_singleton.mp present
    unfold MergeableFile.Fits
    decide +kernel
  · intro patch held
    change patch ∈ blocked (inputRecords twoRecords) [(1, 0xB4), (32, 0xB4)] at held
    rw [free] at held
    cases held

/-- Of two patches in the first record only one is applied, and none after it. -/
theorem not_carries_twoRecords :
    (DisjointRecords twoRecords ∧
      ([(32, 0xB4), (1, 0xB4), (0, 0xB4)] : List Patch).Pairwise
        (fun first second => second.1 < first.1) ∧
      ∀ patch ∈ ([(32, 0xB4), (1, 0xB4), (0, 0xB4)] : List Patch),
        ∃ byte, (patch.1.toNat, byte) ∈ cells (inputRecords twoRecords)) ∧
    ¬ Carries twoRecords [(32, 0xB4), (1, 0xB4), (0, 0xB4)] := by
  refine ⟨⟨disjoint_twoRecords, by decide, ?_⟩, fun ⟨output, merged, values, _⟩ => ?_⟩
  · simp only [List.forall_mem_cons]
    exact ⟨⟨0, mem_twoRecords 32 (by decide)⟩, ⟨0, mem_twoRecords 1 (by decide)⟩,
      ⟨0, mem_twoRecords 0 (by decide)⟩, nofun⟩
  · have first : mergeFiles twoRecords (some [(32, 0xB4), (1, 0xB4), (0, 0xB4)]) = some
        [.startLinearAddress 0, .data 0 ⟨0xB4 :: List.replicate 31 0, by decide⟩,
         .data 32 ⟨List.replicate 32 0, by decide⟩, .endOfFile] := by decide +kernel
    obtain rfl := Option.some.inj (merged.symm.trans first)
    have patched := (values (32, 0xB4) (List.mem_cons_self ..) 0xB4).mpr rfl
    revert patched
    decide +kernel

end Carried

end PrimeBle.Xtask
