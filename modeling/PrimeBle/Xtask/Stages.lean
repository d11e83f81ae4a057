import PrimeBle.Library.StableSort
import PrimeBle.Xtask.Patches

/-! # Merging in stages

An output may be an input of the next merge. Nothing is gained or lost by it: a stage
that was merged, and patched, before the rest gives the same output as all of its
inputs together, with the patches applied once or twice
(`Xtask.mergeFiles_staged`). Nor does the order of the files matter where no two
records start at one address (`Xtask.mergeFiles_perm`).
-/

namespace PrimeBle.Xtask

open IntelHex

/-- What records are sorted by. -/
def startOf (record : Addressed) : ℕ := record.1.toNat

theorem sortByKey_eq (records : List Addressed) :
    sortByKey records = StableSort.sortBy startOf records := rfl

section Reading

/-- The records of all files. -/
def readFiles (inputs : List MergeableFile) : Option (List Addressed) :=
  (inputs.mapM fileRecords).map List.flatten

theorem readFiles_append (first second : List MergeableFile) :
    readFiles (first ++ second) =
      (readFiles first).bind fun records => (readFiles second).map (records ++ ·) := by
  unfold readFiles
  rw [List.mapM_append]
  cases first.mapM fileRecords with
  | none => rfl
  | some files =>
      cases second.mapM fileRecords with
      | none => rfl
      | some others =>
          change some (files ++ others).flatten = some (files.flatten ++ others.flatten)
          rw [List.flatten_append]

/-- The writer sorts what is read, and patches it. -/
theorem mergedRecords_eq (inputs : List MergeableFile) (patches : Option (List Patch)) :
    mergedRecords inputs patches = (readFiles inputs).bind fun records =>
      patchRecords (patches.getD []).reverse (sortByKey records) := by
  unfold mergedRecords readFiles
  cases inputs.mapM fileRecords with
  | none => rfl
  | some files => rfl

theorem readFiles_iHex (records : List Record) :
    readFiles [.iHex records] = some (iHexRecords 0 records) := by
  change some ([iHexRecords 0 records].flatten) = _
  rw [List.flatten_singleton]

/-- What is read when all addresses can be computed. -/
theorem readFiles_eq_some {inputs : List MergeableFile} {records : List Addressed} :
    readFiles inputs = some records ↔ Readable inputs ∧ records = inputRecords inputs := by
  have flat : (inputs.map fun file => file.pieces.map Piece.record).flatten =
      inputRecords inputs := by
    rw [inputRecords, pieces, List.map_flatMap, List.flatMap_def]
  unfold readFiles
  simp only [Option.map_eq_some_iff, inputs_eq_some]
  constructor
  · rintro ⟨_, ⟨readable, rfl⟩, rfl⟩
    exact ⟨readable, flat⟩
  · rintro ⟨readable, rfl⟩
    exact ⟨_, ⟨readable, rfl⟩, flat⟩

end Reading

section Scan

/-- The scan goes from record to record. -/
theorem patchRecords_cons_iff {patches : List Patch} {record : Addressed}
    {records patched : List Addressed} :
    patchRecords patches (record :: records) = some patched ↔
      ∃ value later rest, applyPatch record.1 record.2 patches = some (value, later) ∧
        patchRecords later records = some rest ∧ (record.1, value) :: rest = patched := by
  obtain ⟨addr, value⟩ := record
  simp only [patchRecords, Option.bind_eq_bind, Option.bind_eq_some_iff, Option.some.injEq,
    Prod.exists]
  constructor
  · rintro ⟨value, later, applied, rest, scanned, whole⟩
    exact ⟨value, later, rest, applied, scanned, whole⟩
  · rintro ⟨value, later, rest, applied, scanned, whole⟩
    exact ⟨value, later, applied, rest, scanned, whole⟩

theorem patchRecords_cons_of_applied {patches later : List Patch} {record first : Addressed}
    {value : Payload} (applied : applyPatch record.1 record.2 patches = some (value, later))
    {records rest : List Addressed} :
    patchRecords patches (record :: records) = some (first :: rest) ↔
      (record.1, value) = first ∧ patchRecords later records = some rest := by
  rw [patchRecords_cons_iff, applied]
  constructor
  · rintro ⟨_, _, _, ⟨⟩, scanned, ⟨⟩⟩
    exact ⟨rfl, scanned⟩
  · rintro ⟨rfl, scanned⟩
    exact ⟨value, later, rest, rfl, scanned, rfl⟩

section Record

variable {addr : UInt32} {value patched : Payload} {patches later : List Patch}

theorem applyPatch_inside {patch : Patch} (fits : finish (addr, value) < 2 ^ 32)
    (inside : Inside (addr, value) patch.1) (patches : List Patch) :
    applyPatch addr value (patch :: patches) =
      some (value.set (patch.1 - addr).toNat patch.2, patches) := by
  rw [applyPatch_cons, if_pos fits, if_pos inside]

theorem applyPatch_outside {patch : Patch} (fits : finish (addr, value) < 2 ^ 32)
    (outside : ¬ Inside (addr, value) patch.1) (patches : List Patch) :
    applyPatch addr value (patch :: patches) = some (value, patch :: patches) := by
  rw [applyPatch_cons, if_pos fits, if_neg outside]

/-- What becomes of a record: there is no patch, or the next is in it, or not. -/
inductive Applies (addr : UInt32) (value : Payload) : List Patch → Payload → List Patch → Prop
  | done : Applies addr value [] value []
  | inside {patch : Patch} (patches : List Patch) (fits : finish (addr, value) < 2 ^ 32)
      (inside : Inside (addr, value) patch.1) :
      Applies addr value (patch :: patches) (value.set (patch.1 - addr).toNat patch.2) patches
  | outside {patch : Patch} (patches : List Patch) (fits : finish (addr, value) < 2 ^ 32)
      (outside : ¬ Inside (addr, value) patch.1) :
      Applies addr value (patch :: patches) value (patch :: patches)

theorem applies_of_applyPatch (applied : applyPatch addr value patches = some (patched, later)) :
    Applies addr value patches patched later := by
  cases patches with
  | nil =>
      cases applied
      exact .done
  | cons patch patches =>
      rw [applyPatch_cons] at applied
      split at applied
      · next fits =>
          split at applied
          · next inside =>
              cases applied
              exact .inside _ fits inside
          · next outside =>
              cases applied
              exact .outside patches fits outside
      · cases applied

theorem finish_eq {other : Payload} (length : other.length = value.length) :
    finish (addr, other) = finish (addr, value) := congrArg (addr.toNat + ·) length

theorem inside_congr {other : Payload} (length : other.length = value.length)
    (address : UInt32) : Inside (addr, other) address ↔ Inside (addr, value) address := by
  unfold Inside
  rw [finish_eq length]

theorem length_set (value : Payload) (index : ℕ) (byte : UInt8) :
    (value.set index byte).length = value.length := List.length_set

theorem set_set (value : Payload) (index : ℕ) (byte : UInt8) :
    (value.set index byte).set index byte = value.set index byte :=
  Subtype.ext (List.set_set ..)

/-- How many patches a record takes depends on its length alone. -/
theorem applyPatch_congr {other : Payload} (length : other.length = value.length)
    (applied : applyPatch addr value patches = some (patched, later)) :
    ∃ result, applyPatch addr other patches = some (result, later) := by
  cases applies_of_applyPatch applied with
  | done => exact ⟨other, rfl⟩
  | inside patches fits inside =>
      exact ⟨_, applyPatch_inside ((finish_eq length).trans_lt fits)
        ((inside_congr length _).mpr inside) _⟩
  | outside patches fits outside =>
      exact ⟨other, applyPatch_outside ((finish_eq length).trans_lt fits)
        (fun inside => outside ((inside_congr length _).mp inside)) patches⟩

/-- A patch keeps the length. -/
theorem applyPatch_length (applied : applyPatch addr value patches = some (patched, later)) :
    patched.length = value.length := by
  cases applies_of_applyPatch applied with
  | inside patches fits inside => exact length_set ..
  | _ => rfl

/-- A patch changes nothing the second time. -/
theorem applyPatch_again (applied : applyPatch addr value patches = some (patched, later)) :
    applyPatch addr patched patches = some (patched, later) := by
  have length := applyPatch_length applied
  cases applies_of_applyPatch applied with
  | inside patches fits inside =>
      rw [applyPatch_inside ((finish_eq length).trans_lt fits)
        ((inside_congr length _).mpr inside), set_set]
  | _ => exact applied

/-- A record that holds no patch takes none. -/
theorem applyPatch_bystander (applied : applyPatch addr value patches = some (patched, later))
    (bystander : ∀ patch ∈ patches, ¬ Inside (addr, value) patch.1) :
    patched = value ∧ later = patches := by
  cases applies_of_applyPatch applied with
  | inside patches fits inside => exact absurd inside (bystander _ (List.mem_cons_self ..))
  | _ => exact ⟨rfl, rfl⟩

/-- The patches that are left are among the patches. -/
theorem subset_of_applyPatch (applied : applyPatch addr value patches = some (patched, later)) :
    later ⊆ patches := by
  cases applies_of_applyPatch applied with
  | inside patches fits inside => exact List.subset_cons_self ..
  | _ => exact List.Subset.refl _

end Record

/-- All that the scan sees of a record. -/
def shape (record : Addressed) : UInt32 × ℕ := (record.1, record.2.length)

/-- The scan keeps the shapes. -/
theorem patchRecords_shapes {patches : List Patch} {records patched : List Addressed}
    (scanned : patchRecords patches records = some patched) :
    patched.map shape = records.map shape := by
  induction records generalizing patches patched with
  | nil =>
      cases scanned
      rfl
  | cons record records ih =>
      obtain ⟨value, later, rest, applied, others, rfl⟩ := patchRecords_cons_iff.mp scanned
      have length := applyPatch_length applied
      rw [List.map_cons, List.map_cons, ih others]
      exact congrArg (fun length => (record.1, length) :: _) length

/-- Whether the scan overflows depends on the shapes alone. -/
theorem patchRecords_isSome_of_shapes {patches : List Patch} {records others : List Addressed}
    (same : records.map shape = others.map shape)
    (scans : (patchRecords patches records).isSome) : (patchRecords patches others).isSome := by
  induction records generalizing patches others with
  | nil =>
      obtain rfl := List.map_eq_nil_iff.mp same.symm
      exact scans
  | cons record records ih =>
      cases others with
      | nil => cases same
      | cons other others =>
          obtain ⟨head, tail⟩ := List.cons.inj same
          obtain ⟨start, length⟩ := Prod.mk.inj head
          obtain ⟨patched, scanned⟩ := Option.isSome_iff_exists.mp scans
          obtain ⟨value, later, rest, applied, scanned, -⟩ := patchRecords_cons_iff.mp scanned
          obtain ⟨result, found⟩ := applyPatch_congr length.symm applied
          obtain ⟨rest, scanned⟩ := Option.isSome_iff_exists.mp
            (ih tail (Option.isSome_of_eq_some scanned))
          rw [start] at found
          exact Option.isSome_of_eq_some
            (patchRecords_cons_iff.mpr ⟨result, later, rest, found, scanned, rfl⟩)

/-- A second scan changes nothing. -/
theorem patchRecords_again {patches : List Patch} {records patched : List Addressed}
    (scanned : patchRecords patches records = some patched) :
    patchRecords patches patched = some patched := by
  induction records generalizing patches patched with
  | nil =>
      cases scanned
      rfl
  | cons record records ih =>
      obtain ⟨value, later, rest, applied, others, rfl⟩ := patchRecords_cons_iff.mp scanned
      exact patchRecords_cons_iff.mpr
        ⟨value, later, rest, applyPatch_again applied, ih others, rfl⟩

/-- **Bystanders.** Leave out records that hold no patch, and the scan does to the
others what it did with them in between. -/
theorem patchRecords_iff_selected {Index : Type*} (before after : Index → Addressed)
    (selected : Index → Bool) {patches : List Patch} {list : List Index}
    (bystanders : ∀ index ∈ list, selected index = false →
      ∀ patch ∈ patches, ¬ Inside (before index) patch.1)
    (scans : (patchRecords patches (list.map before)).isSome) :
    patchRecords patches (list.map before) = some (list.map after) ↔
      patchRecords patches ((list.filter selected).map before) =
          some ((list.filter selected).map after) ∧
        ∀ index ∈ list, selected index = false → before index = after index := by
  induction list generalizing patches with
  | nil =>
      simp only [List.filter_nil, List.map_nil, List.not_mem_nil, IsEmpty.forall_iff,
        implies_true, and_true]
  | cons index list ih =>
      obtain ⟨here, others⟩ := List.forall_mem_cons.mp bystanders
      obtain ⟨patched, scanned⟩ := Option.isSome_iff_exists.mp scans
      obtain ⟨value, later, rest, applied, scanned, -⟩ := patchRecords_cons_iff.mp scanned
      have fewer : ∀ index ∈ list, selected index = false →
          ∀ patch ∈ later, ¬ Inside (before index) patch.1 :=
        fun index present unselected patch member =>
          others index present unselected patch (subset_of_applyPatch applied member)
      have tail := ih fewer (Option.isSome_of_eq_some scanned)
      rw [List.map_cons, List.map_cons, patchRecords_cons_of_applied applied, tail,
        List.forall_mem_cons]
      cases marked : selected index with
      | true =>
          rw [List.filter_cons_of_pos marked, List.map_cons, List.map_cons,
            patchRecords_cons_of_applied applied]
          simp only [Bool.true_eq_false, false_implies, true_and, and_assoc]
      | false =>
          obtain ⟨rfl, rfl⟩ := applyPatch_bystander applied (here marked)
          rw [List.filter_cons_of_neg (Bool.eq_false_iff.mp marked)]
          simp only [Prod.mk.eta, forall_const]
          exact and_left_comm

end Scan

/-- What becomes of a list is what becomes of a selection from it, and the rest unchanged. -/
theorem mem_map_selected {Index : Type*} {before after : Index → Addressed}
    {selected : Index → Bool} {list : List Index}
    (kept : ∀ index ∈ list, selected index = false → before index = after index)
    {record : Addressed} :
    record ∈ list.map after ↔ record ∈ (list.filter selected).map after ∨
      ∃ index ∈ list, selected index = false ∧ before index = record := by
  constructor
  · intro present
    obtain ⟨index, member, rfl⟩ := List.mem_map.mp present
    cases mark : selected index with
    | true => exact Or.inl (List.mem_map_of_mem (List.mem_filter.mpr ⟨member, mark⟩))
    | false => exact Or.inr ⟨index, member, mark, kept index member mark⟩
  · rintro (present | ⟨index, member, mark, rfl⟩)
    · obtain ⟨index, member, rfl⟩ := List.mem_map.mp present
      exact List.mem_map_of_mem (List.mem_filter.mp member).1
    · rw [kept index member mark]
      exact List.mem_map_of_mem member

/-- Leave out records that hold no patch: they are all that is missing. -/
theorem scan_without {patches : List Patch} {tagged : List (Addressed × Bool)}
    {patched : List Addressed}
    (scanned : patchRecords patches (sortByKey (tagged.map Prod.fst)) = some patched)
    (bystanders : ∀ record, (record, false) ∈ tagged →
      ∀ patch ∈ patches, ¬ Inside record patch.1) :
    ∃ rest, patchRecords patches (sortByKey ((tagged.filter Prod.snd).map Prod.fst)) = some rest ∧
      ∀ record, record ∈ patched ↔ record ∈ rest ∨ (record, false) ∈ tagged := by
  let sorted := StableSort.sortBy (fun entry => startOf entry.1) tagged
  let list := sorted.zip patched
  let before : (Addressed × Bool) × Addressed → Addressed := fun index => index.1.1
  let selected : (Addressed × Bool) × Addressed → Bool := fun index => index.1.2
  have firsts : sorted.map Prod.fst = sortByKey (tagged.map Prod.fst) :=
    StableSort.map_sortBy _ startOf Prod.fst fun _ _ => rfl
  have length : sorted.length = patched.length := by
    have shapes := congrArg List.length (patchRecords_shapes scanned)
    have heads := congrArg List.length firsts
    simp only [List.length_map] at shapes heads
    exact heads.trans shapes.symm
  have entries : list.map Prod.fst = sorted := List.map_fst_zip length.le
  have results : list.map Prod.snd = patched := List.map_snd_zip length.ge
  have records : list.map before = sortByKey (tagged.map Prod.fst) := by
    rw [← firsts, ← entries, List.map_map]
    rfl
  have mem_tagged : ∀ entry, entry ∈ tagged ↔ ∃ index ∈ list, index.1 = entry := by
    intro entry
    rw [← List.mem_map, entries]
    exact (StableSort.sortBy_perm _ _).mem_iff.symm
  have alone : ∀ index ∈ list, selected index = false →
      ∀ patch ∈ patches, ¬ Inside (before index) patch.1 := by
    rintro ⟨⟨record, mark⟩, after⟩ present rfl
    exact bystanders record ((mem_tagged _).mpr ⟨_, present, rfl⟩)
  have whole : patchRecords patches (list.map before) = some (list.map Prod.snd) := by
    rw [records, scanned, results]
  obtain ⟨part, kept⟩ := (patchRecords_iff_selected before Prod.snd selected alone
    (Option.isSome_of_eq_some whole)).mp whole
  have chosen : (list.filter selected).map before =
      sortByKey ((tagged.filter Prod.snd).map Prod.fst) := by
    rw [sortByKey_eq, ← StableSort.map_sortBy (fun entry => startOf entry.1) startOf Prod.fst
      fun _ _ => rfl, ← StableSort.filter_sortBy]
    change _ = (sorted.filter Prod.snd).map Prod.fst
    rw [← entries, List.filter_map, List.map_map]
    rfl
  refine ⟨_, chosen ▸ part, fun record => ?_⟩
  rw [← results, mem_map_selected kept, mem_tagged]
  refine or_congr_right (exists_congr fun index => and_congr_right fun _ => ⟨?_, ?_⟩)
  · rintro ⟨mark, here⟩
    exact Prod.ext here mark
  · intro same
    exact ⟨congrArg Prod.snd same, congrArg Prod.fst same⟩

section Stages

/-- The records of a stage in the middle of others, before and after it is patched. -/
def staged (before part patched after : List Addressed) : List (Addressed × Addressed) :=
  before.map (fun record => (record, record)) ++ part.zip patched ++
    after.map fun record => (record, record)

variable {before part patched after : List Addressed}

theorem staged_fst (length : part.length = patched.length) :
    (staged before part patched after).map Prod.fst = before ++ part ++ after := by
  simp only [staged, List.map_append, List.map_map, List.map_fst_zip length.le]
  exact congrArg₂ _ (congrArg (· ++ part) (List.map_id before)) (List.map_id after)

theorem staged_snd (length : part.length = patched.length) :
    (staged before part patched after).map Prod.snd = before ++ patched ++ after := by
  simp only [staged, List.map_append, List.map_map, List.map_snd_zip length.ge]
  exact congrArg₂ _ (congrArg (· ++ patched) (List.map_id before)) (List.map_id after)

theorem mem_staged {pair : Addressed × Addressed}
    (present : pair ∈ staged before part patched after) :
    pair.1 = pair.2 ∧ pair.1 ∈ before ++ after ∨ pair ∈ part.zip patched := by
  simp only [staged, List.mem_append, List.mem_map] at present
  rcases present with (⟨record, member, rfl⟩ | member) | ⟨record, member, rfl⟩
  · exact Or.inl ⟨rfl, List.mem_append_left _ member⟩
  · exact Or.inr member
  · exact Or.inl ⟨rfl, List.mem_append_right _ member⟩

theorem shape_of_mem_zip (same : patched.map shape = part.map shape) :
    ∀ pair ∈ part.zip patched, shape pair.1 = shape pair.2 := by
  have length : part.length = patched.length := by
    simpa only [List.length_map] using congrArg List.length same.symm
  apply List.map_inj_left.mp
  have firsts := congrArg (List.map shape) (List.map_fst_zip length.le)
  have seconds := congrArg (List.map shape) (List.map_snd_zip length.ge)
  rw [List.map_map] at firsts seconds
  exact firsts.trans (same.symm.trans seconds.symm)

/-- All records of the stage and around it, sorted by where they start. -/
abbrev sortedStaged (before part patched after : List Addressed) : List (Addressed × Addressed) :=
  StableSort.sortBy (fun pair => startOf pair.1) (staged before (sortByKey part) patched after)

theorem sortedStaged_fst (length : (sortByKey part).length = patched.length) :
    (sortedStaged before part patched after).map Prod.fst =
      sortByKey (before ++ part ++ after) := by
  rw [StableSort.map_sortBy _ startOf Prod.fst fun _ _ => rfl, staged_fst length, sortByKey_eq,
    sortByKey_eq, StableSort.sortBy_sorted_part]

theorem sortedStaged_snd (length : (sortByKey part).length = patched.length)
    (same : ∀ pair ∈ staged before (sortByKey part) patched after,
      shape pair.1 = shape pair.2) :
    (sortedStaged before part patched after).map Prod.snd =
      sortByKey (before ++ patched ++ after) := by
  rw [StableSort.map_sortBy _ startOf Prod.snd fun pair present => ?_, staged_snd length,
    sortByKey_eq]
  exact congrArg (fun shape => shape.1.toNat) (same pair present).symm

/-- Of what is selected nowhere but in the stage, sorting keeps the order. -/
theorem filter_sortedStaged (length : (sortByKey part).length = patched.length)
    {selected : Addressed × Addressed → Bool}
    (unselected : ∀ record ∈ before ++ after, selected (record, record) = false) :
    (sortedStaged before part patched after).filter selected =
      ((sortByKey part).zip patched).filter selected := by
  have inOrder : StableSort.Sorted (fun pair : Addressed × Addressed => startOf pair.1)
      ((sortByKey part).zip patched) := by
    have ordered := sortByKey_sorted part
    rw [← List.map_fst_zip length.le, List.pairwise_map] at ordered
    exact ordered
  have outer : ∀ records : List Addressed, records ⊆ before ++ after →
      (records.map fun record => (record, record)).filter selected = [] := by
    intro records subset
    refine List.filter_eq_nil_iff.mpr fun pair present => ?_
    obtain ⟨record, member, rfl⟩ := List.mem_map.mp present
    rw [unselected record (subset member)]
    exact Bool.false_ne_true
  rw [StableSort.filter_sortBy]
  simp only [staged, List.filter_append, outer before (List.subset_append_left ..),
    outer after (List.subset_append_right ..), List.nil_append, List.append_nil]
  exact StableSort.sortBy_of_sorted _ (inOrder.filter _)

/-- A stage that was scanned before the rest ends as in one scan of all records. -/
theorem scan_staged {patches : List Patch}
    (scanned : patchRecords patches (sortByKey part) = some patched)
    (apart : ∀ record ∈ before ++ after, ∀ patch ∈ patches, ¬ Inside record patch.1) :
    patchRecords patches (sortByKey (before ++ patched ++ after)) =
      patchRecords patches (sortByKey (before ++ part ++ after)) := by
  have shapes := patchRecords_shapes scanned
  have length : (sortByKey part).length = patched.length := by
    simpa only [List.length_map] using congrArg List.length shapes.symm
  let selected : Addressed × Addressed → Bool :=
    fun pair => patches.any fun patch => Inside pair.1 patch.1
  have same : ∀ pair ∈ staged before (sortByKey part) patched after,
      shape pair.1 = shape pair.2 := by
    intro pair present
    rcases mem_staged present with ⟨diagonal, -⟩ | member
    · rw [diagonal]
    · exact shape_of_mem_zip shapes pair member
  have alone : ∀ pair, selected pair = false → ∀ patch ∈ patches, ¬ Inside pair.1 patch.1 :=
    fun pair unselected patch member => of_decide_eq_false
      (Bool.eq_false_iff.mpr (List.any_eq_false.mp unselected patch member))
  have unselected : ∀ record ∈ before ++ after, selected (record, record) = false :=
    fun record present => List.any_eq_false.mpr fun patch member inside =>
      apart record present patch member (of_decide_eq_true inside)
  -- The scan of the stage is one of the records that hold a patch.
  have alike : patchRecords patches (((sortByKey part).zip patched).map Prod.fst) =
      some (((sortByKey part).zip patched).map Prod.snd) := by
    rwa [List.map_fst_zip length.le, List.map_snd_zip length.ge]
  obtain ⟨first, kept⟩ := (patchRecords_iff_selected Prod.fst Prod.snd selected
    (fun pair _ => alone pair) (Option.isSome_of_eq_some alike)).mp alike
  have member : ∀ pair ∈ sortedStaged before part patched after,
      pair ∈ staged before (sortByKey part) patched after :=
    fun pair present => (StableSort.sortBy_perm _ _).mem_iff.mp present
  rw [← sortedStaged_fst length, ← sortedStaged_snd length same]
  by_cases scans :
      (patchRecords patches ((sortedStaged before part patched after).map Prod.fst)).isSome
  · have whole :
        patchRecords patches ((sortedStaged before part patched after).map Prod.fst) =
          some ((sortedStaged before part patched after).map Prod.snd) := by
      rw [patchRecords_iff_selected Prod.fst Prod.snd selected (fun pair _ => alone pair) scans,
        filter_sortedStaged length unselected]
      refine ⟨first, fun pair present unselected => ?_⟩
      rcases mem_staged (member pair present) with ⟨diagonal, -⟩ | inside
      · exact diagonal
      · exact kept pair inside unselected
    rw [whole, patchRecords_again whole]
  · have overflows :
        ¬ (patchRecords patches ((sortedStaged before part patched after).map
          Prod.snd)).isSome := by
      refine fun scans' => scans (patchRecords_isSome_of_shapes ?_ scans')
      rw [List.map_map, List.map_map]
      exact List.map_congr_left fun pair present => (same pair (member pair present)).symm
    rw [Option.not_isSome_iff_eq_none] at scans overflows
    rw [scans, overflows]

/-- What a stage was merged to is merged with others as its files are. -/
theorem mergedRecords_staged {inputs : List MergeableFile} {patches : Option (List Patch)}
    {patched : List Addressed} {output : List Record}
    (emitted : mergedRecords inputs patches = some patched) (written : image patched = some output)
    (before after : List MergeableFile)
    (apart : ∀ record ∈ inputRecords before ++ inputRecords after,
      ∀ patch ∈ patches.getD [], ¬ Inside record patch.1) :
    mergedRecords (before ++ [.iHex output] ++ after) patches =
      mergedRecords (before ++ inputs ++ after) patches := by
  rw [mergedRecords_eq] at emitted
  obtain ⟨part, read, scanned⟩ := Option.bind_eq_some_iff.mp emitted
  simp only [mergedRecords_eq, readFiles_append, readFiles_iHex, iHexRecords_image written, read]
  cases found : readFiles before with
  | none => rfl
  | some early =>
      cases found' : readFiles after with
      | none => rfl
      | some late =>
          have bystanders : ∀ record ∈ early ++ late, ∀ patch ∈ (patches.getD []).reverse,
              ¬ Inside record patch.1 := by
            intro record present patch member
            rw [(readFiles_eq_some.mp found).2, (readFiles_eq_some.mp found').2] at present
            exact apart record present patch (List.mem_reverse.mp member)
          simp only [Option.bind_some, Option.map_some, scan_staged scanned bystanders]

/-- **Stages.** Suppose that a merge of some files, with some patches, is itself merged
with others, in whose records there is none of these patches. With the same patches,
the output is the one of all files together. -/
theorem mergeFiles_staged {inputs : List MergeableFile} {patches : Option (List Patch)}
    {output : List Record} (stage : mergeFiles inputs patches = some output)
    (before after : List MergeableFile)
    (apart : ∀ record ∈ inputRecords before ++ inputRecords after,
      ∀ patch ∈ patches.getD [], ¬ Inside record patch.1) :
    mergeFiles (before ++ [.iHex output] ++ after) patches =
      mergeFiles (before ++ inputs ++ after) patches := by
  rw [mergeFiles_eq] at stage
  obtain ⟨patched, emitted, written⟩ := Option.bind_eq_some_iff.mp stage
  rw [mergeFiles_eq, mergeFiles_eq, mergedRecords_staged emitted written before after apart]

end Stages

/-- **Order.** The order of the files does not matter where no two records start at
one address. -/
theorem mergeFiles_perm {first second : List MergeableFile} (same : first.Perm second)
    (distinct : ((inputRecords first).map startOf).Nodup) (patches : Option (List Patch)) :
    mergeFiles first patches = mergeFiles second patches := by
  have readable : Readable first ↔ Readable second :=
    forall_congr' fun file => imp_congr_left same.mem_iff
  have records : (inputRecords first).Perm (inputRecords second) :=
    (same.flatMap_right MergeableFile.pieces).map Piece.record
  have sorted : sortByKey (inputRecords first) = sortByKey (inputRecords second) :=
    StableSort.sortBy_congr startOf records distinct
  have reads : ∀ inputs, Readable inputs → readFiles inputs = some (inputRecords inputs) :=
    fun inputs readable => readFiles_eq_some.mpr ⟨readable, rfl⟩
  have fails : ∀ inputs, ¬ Readable inputs → readFiles inputs = none := by
    intro inputs unreadable
    refine Option.eq_none_iff_forall_ne_some.mpr fun records read => ?_
    exact unreadable (readFiles_eq_some.mp read).1
  rw [mergeFiles_eq, mergeFiles_eq, mergedRecords_eq, mergedRecords_eq]
  by_cases here : Readable first
  · rw [reads first here, reads second (readable.mp here), Option.bind_some, Option.bind_some,
      sorted]
  · rw [fails first here, fails second fun there => here (readable.mpr there)]

/-- Zeros at 0x3000, and a byte behind them. -/
private def zeros : MergeableFile := .binary (List.replicate 16 0) 0x3000

private def behind : MergeableFile := .binary [0xCD] 0x1B400

private def patchedZeros : List Record :=
  [.startLinearAddress 0, .data 0x3000 ⟨0 :: 0 :: 0 :: 0 :: 0 :: 0 :: 0 :: 0 :: 0 :: 0xB4 ::
    List.replicate 6 0, by decide⟩, .endOfFile]

private theorem patchedZeros_merged :
    mergeFiles [zeros] (some [(0x3009, 0xB4)]) = some patchedZeros := by
  decide +kernel

theorem mergeFiles_staged_zeros :
    mergeFiles ([] ++ [.iHex patchedZeros] ++ [behind]) (some [(0x3009, 0xB4)]) =
      mergeFiles ([] ++ [zeros] ++ [behind]) (some [(0x3009, 0xB4)]) := by
  apply mergeFiles_staged patchedZeros_merged
  have outside : ∀ record ∈ inputRecords [] ++ inputRecords [behind],
      ¬ Inside record 0x3009 := by decide +kernel
  intro record present patch given
  obtain rfl := List.mem_singleton.mp given
  exact outside record present

theorem mergeFiles_perm_zeros :
    mergeFiles [zeros, behind] (some [(0x3009, 0xB4)]) =
      mergeFiles [behind, zeros] (some [(0x3009, 0xB4)]) :=
  mergeFiles_perm (.swap behind zeros []) (by decide +kernel) _

end PrimeBle.Xtask
