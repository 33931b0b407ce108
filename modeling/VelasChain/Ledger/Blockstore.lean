import VelasChain.Lib.OrderedSet

/-!
# Inserting data shreds into the blockstore

`Blockstore::check_insert_data_shred` takes one data shred of a slot. Unless the shred is
trusted, it rejects a shred already present (`Exists`) and one that `should_insert_data_shred`
refuses (`InvalidShred`); otherwise `insert_data_shred` records its index, moves `consumed` past
the indices now received without a gap, and `update_completed_data_indexes` marks the index as
the end of a data set when the shred completes one, and returns the data sets, as ranges of
indices, that the shred completes.

The state of a slot is its `SlotMeta` and the set of data shred indices received. A data set of
the slot is a range `[a, b]` whose end `b` is marked completed, whose start `a` follows the
completed index before `b` (or is zero), and all of whose shreds are received (`CompleteRange`).
Over any run of untrusted insertions from a new slot (`insertDataShreds`), nothing panics,
`consumed` is the least index not received, the completed indices are the accepted indices of
shreds that complete a data set or the slot, and the ranges reported are each data set of the
slot once (`insert_data_shreds_reports_each_completed_set_once`); each insertion reports exactly
the data sets it completes. Slots and indices are naturals: the indices of a slot stay below
`MAX_DATA_SHREDS_PER_SLOT`, so `index + 1` does not wrap.
-/

namespace VelasChain.Ledger

open OrderedSet

/-- `SHRED_PAYLOAD_SIZE`: `PACKET_DATA_SIZE` less the nonce. -/
def shredPayloadSize : ℕ := 1280 - 40 - 8 - 4

/-- The fields of a data shred that its insertion reads. -/
structure DataShred where
  index : ℕ
  parentOffset : ℕ
  dataComplete : Bool
  lastInSlot : Bool
  size : ℕ
  payloadLen : ℕ
  deriving DecidableEq, Repr

/-- `shred.parent()` of a data shred of `slot`. -/
def DataShred.parent (shred : DataShred) (slot : ℕ) : Option ℕ :=
  if shred.parentOffset = 0 ∧ slot ≠ 0 then none
  else if shred.parentOffset ≤ slot then some (slot - shred.parentOffset) else none

/-- The fields of `SlotMeta` that inserting a data shred reads or writes. -/
structure SlotMeta where
  consumed : ℕ
  received : ℕ
  lastIndex : Option ℕ
  parentSlot : Option ℕ
  completedDataIndexes : Finset ℕ
  deriving DecidableEq

/-- `SlotMeta::new(slot, Some(parent_slot))`. -/
def SlotMeta.new (parentSlot : ℕ) : SlotMeta := ⟨0, 0, none, some parentSlot, ∅⟩

/-- A slot's meta and the indices of its data shreds received (`index_meta.data()`). -/
structure SlotState where
  slotMeta : SlotMeta
  dataIndex : Finset ℕ
  deriving DecidableEq

/-- `InsertDataShredError`. -/
inductive InsertDataShredError where
  | exists
  | invalidShred
  deriving DecidableEq, Repr

/-- `verify_shred_slots`: the parent is before the slot and not before the last root, except
for slot zero of a new ledger. -/
def verifyShredSlots (slot parentSlot lastRoot : ℕ) : Bool :=
  if slot = 0 ∧ lastRoot = 0 ∧ parentSlot = 0 then true
  else if parentSlot ≥ slot then false
  else if parentSlot < lastRoot then false
  else true

/-- `is_data_shred_present`. -/
def isDataShredPresent (shred : DataShred) (slotMeta : SlotMeta) (dataIndex : Finset ℕ) : Bool :=
  decide (shred.index < slotMeta.consumed) || decide (shred.index ∈ dataIndex)

/-- `should_insert_data_shred`. -/
def shouldInsertDataShred (slot lastRoot : ℕ) (shred : DataShred) (slotMeta : SlotMeta) : Bool :=
  if shred.size = 0 then false
  else if shred.payloadLen > shredPayloadSize then false
  else if (slotMeta.lastIndex.map fun ix => decide (shred.index ≥ ix)).getD false then false
  else if shred.lastInSlot ∧ shred.index < slotMeta.received then false
  else (slotMeta.parentSlot.map fun parentSlot => verifyShredSlots slot parentSlot lastRoot).getD
    false

/-- The loop of `insert_data_shred` that moves `consumed` on: the first index from `i` on that
has not been received. -/
def nextMissing (dataIndex : Finset ℕ) (i : ℕ) : ℕ :=
  if i ∈ dataIndex then nextMissing dataIndex (i + 1) else i
termination_by (dataIndex.filter (i ≤ ·)).card
decreasing_by
  apply Finset.card_lt_card
  refine Finset.ssubset_iff_of_subset (fun j hj => ?_) |>.mpr ⟨i, ?_, ?_⟩
  · simp only [Finset.mem_filter] at hj ⊢
    exact ⟨hj.1, by omega⟩
  · simpa using ‹i ∈ dataIndex›
  · simp

/-- `update_completed_data_indexes`: the completed indices with the new index added where it
ends a data set, and the data sets around the new index that are now received in full. -/
def updateCompletedDataIndexes (isLastInData : Bool) (newShredIndex : ℕ)
    (receivedDataShreds completedDataIndexes : Finset ℕ) : List (ℕ × ℕ) × Finset ℕ :=
  let startShredIndex := startAfter completedDataIndexes newShredIndex
  let completedDataIndexes :=
    if isLastInData then insert newShredIndex completedDataIndexes else completedDataIndexes
  -- consecutive entries `i, k` stand for the candidate range `[i, k)`
  let shredIndices := [startShredIndex] ++ (if isLastInData then [newShredIndex + 1] else []) ++
    ((nextFrom completedDataIndexes (newShredIndex + 1)).map (· + 1)).toList
  (((shredIndices.zip shredIndices.tail).filter fun ix =>
      countIn receivedDataShreds ix.1 ix.2 == ix.2 - ix.1).map fun ix => (ix.1, ix.2 - 1),
    completedDataIndexes)

/-- `update_slot_meta`. -/
def updateSlotMeta (isLastInSlot isLastInData : Bool) (slotMeta : SlotMeta) (index : ℕ)
    (newConsumed : ℕ) (receivedDataShreds : Finset ℕ) : SlotMeta × List (ℕ × ℕ) :=
  let lastIndex :=
    if isLastInSlot ∧ slotMeta.lastIndex.isNone then some index else slotMeta.lastIndex
  let (completedDataSets, completedDataIndexes) :=
    updateCompletedDataIndexes (isLastInSlot || isLastInData) index receivedDataShreds
      slotMeta.completedDataIndexes
  ({ slotMeta with
      received := max (index + 1) slotMeta.received
      consumed := newConsumed
      lastIndex := lastIndex
      completedDataIndexes := completedDataIndexes },
    completedDataSets)

/-- `insert_data_shred`; `none` where the assertion that the slot has a parent fires. -/
def insertDataShred (st : SlotState) (shred : DataShred) : Option (SlotState × List (ℕ × ℕ)) :=
  if st.slotMeta.parentSlot.isNone then none
  else
    let index := shred.index
    let newConsumed :=
      if st.slotMeta.consumed = index then nextMissing st.dataIndex (index + 1)
      else st.slotMeta.consumed
    let dataIndex := insert index st.dataIndex
    let (slotMeta, completedDataSets) :=
      updateSlotMeta shred.lastInSlot shred.dataComplete st.slotMeta index newConsumed dataIndex
    some (⟨slotMeta, dataIndex⟩, completedDataSets)

/-- `check_insert_data_shred` of a shred of `slot`; `none` where it panics. -/
def checkInsertDataShred (slot lastRoot : ℕ) (isTrusted : Bool) (st : SlotState)
    (shred : DataShred) : Option (Except InsertDataShredError (SlotState × List (ℕ × ℕ))) :=
  match shred.parent slot with
  | none => some (.error .invalidShred)
  | some _ =>
    if !isTrusted ∧ isDataShredPresent shred st.slotMeta st.dataIndex then
      some (.error .exists)
    else if !isTrusted ∧ !shouldInsertDataShred slot lastRoot shred st.slotMeta then
      some (.error .invalidShred)
    else (insertDataShred st shred).map .ok

/-- The shreds of a slot inserted one after another, untrusted, as `insert_shreds` does: a
rejected shred leaves the state as it is. The result is the final state, the shreds accepted
(`just_inserted_shreds`) and the completed data sets reported, in order; `none` where an
insertion panics. -/
def insertDataShreds (slot lastRoot : ℕ) :
    SlotState → List DataShred → Option (SlotState × List DataShred × List (ℕ × ℕ))
  | st, [] => some (st, [], [])
  | st, shred :: rest =>
    match checkInsertDataShred slot lastRoot false st shred with
    | none => none
    | some (.error _) => insertDataShreds slot lastRoot st rest
    | some (.ok (st', completedDataSets)) =>
      (insertDataShreds slot lastRoot st' rest).map fun r =>
        (r.1, shred :: r.2.1, completedDataSets ++ r.2.2)

/-- The scan of `get_completed_data_ranges`: each completed index ends a range that starts after
the one before. -/
def scanRanges : ℕ → List ℕ → List (ℕ × ℕ)
  | _, [] => []
  | begin, index :: rest => (begin, index) :: scanRanges (index + 1) rest

/-- `Blockstore::get_completed_data_ranges`; `none` where its assertion fires. -/
def getCompletedDataRanges (startIndex : ℕ) (completedDataIndexes : Finset ℕ) (consumed : ℕ) :
    Option (List (ℕ × ℕ)) :=
  if consumed ∈ completedDataIndexes then none
  else some (scanRanges startIndex
    ((completedDataIndexes.filter fun i => startIndex ≤ i ∧ i < consumed).sort (· ≤ ·)))

/-! ### Data sets -/

/-- `[r.1, r.2]` is a data set of a slot whose completed indices are `completed` and whose
received indices are `received`: its end is completed, it starts after the completed index before
its end, and all of its shreds are received. -/
structure CompleteRange (completed received : Finset ℕ) (r : ℕ × ℕ) : Prop where
  end_mem : r.2 ∈ completed
  start_eq : r.1 = startAfter completed r.2
  mem_received : ∀ i, r.1 ≤ i → i ≤ r.2 → i ∈ received

instance (completed received : Finset ℕ) (r : ℕ × ℕ) :
    Decidable (CompleteRange completed received r) :=
  decidable_of_iff (r.2 ∈ completed ∧ r.1 = startAfter completed r.2 ∧
      ∀ i ∈ Finset.Icc r.1 r.2, i ∈ received)
    ⟨fun ⟨h₁, h₂, h₃⟩ => ⟨h₁, h₂, fun i hi hi' => h₃ i (Finset.mem_Icc.mpr ⟨hi, hi'⟩)⟩,
      fun ⟨h₁, h₂, h₃⟩ => ⟨h₁, h₂, fun i hi => h₃ i (Finset.mem_Icc.mp hi).1
        (Finset.mem_Icc.mp hi).2⟩⟩

section Update

variable {completed received : Finset ℕ} {n : ℕ} {isLastInData : Bool}

/-- The completed indices after the update. -/
def updatedCompleted (isLastInData : Bool) (n : ℕ) (completed : Finset ℕ) : Finset ℕ :=
  if isLastInData then insert n completed else completed

/-- The ends of the data sets that the new index `n` may complete: `n` itself where it ends a
data set, and the next completed index after it. -/
def candidateEnds (isLastInData : Bool) (n : ℕ) (completed : Finset ℕ) : List ℕ :=
  (if isLastInData then [n] else []) ++ (nextFrom completed (n + 1)).toList

lemma updateCompletedDataIndexes_snd :
    (updateCompletedDataIndexes isLastInData n received completed).2 =
      updatedCompleted isLastInData n completed := rfl

/-- With no completed index between `n` and the next one after it, the data set ending there
starts where one ending at `n` would. -/
lemma startAfter_of_nextFrom {c : ℕ} (hnC : n ∉ completed)
    (hc : nextFrom completed (n + 1) = some c) :
    startAfter completed c = startAfter completed n := by
  obtain ⟨-, hnc, hleast⟩ := nextFrom_eq_some_iff.mp hc
  apply startAfter_eq_of_forall (by omega)
  intro d hd hnd
  have hne : d ≠ n := fun h => hnC (h ▸ hd)
  exact hleast d hd (by omega)

/-- The update reports, among the data sets ending at a candidate end, those received in full. -/
lemma updateCompletedDataIndexes_fst (hnC : n ∉ completed) :
    (updateCompletedDataIndexes isLastInData n received completed).1 =
      ((candidateEnds isLastInData n completed).map fun b =>
          (startAfter (updatedCompleted isLastInData n completed) b, b)).filter fun r =>
        countIn received r.1 (r.2 + 1) == r.2 + 1 - r.1 := by
  have hS : startAfter (insert n completed) n = startAfter completed n :=
    startAfter_insert_of_le le_rfl
  cases isLastInData <;> cases hnx : nextFrom completed (n + 1) with
  | none =>
    simp [updateCompletedDataIndexes, candidateEnds, updatedCompleted, hnx,
      nextFrom_insert_of_lt (Nat.lt_add_one n), hS, List.filter_cons] <;>
    split_ifs <;> simp
  | some c =>
    have hc := startAfter_of_nextFrom hnC hnx
    have hnc := (nextFrom_eq_some_iff.mp hnx).2.1
    have hS' : startAfter (insert n completed) c = n + 1 := by
      rw [startAfter_insert, if_pos (by omega), hc]
      have := startAfter_le completed n
      omega
    simp [updateCompletedDataIndexes, candidateEnds, updatedCompleted, hnx,
      nextFrom_insert_of_lt (Nat.lt_add_one n), hS, hS', hc, List.filter_cons]
    split_ifs <;> simp

lemma mem_candidateEnds {b : ℕ} :
    b ∈ candidateEnds isLastInData n completed ↔
      (isLastInData = true ∧ b = n) ∨ nextFrom completed (n + 1) = some b := by
  cases isLastInData <;> cases h : nextFrom completed (n + 1) <;>
    simp [candidateEnds, h, eq_comm]

lemma mem_updatedCompleted_of_mem_candidateEnds {b : ℕ}
    (h : b ∈ candidateEnds isLastInData n completed) :
    b ∈ updatedCompleted isLastInData n completed := by
  rcases mem_candidateEnds.mp h with ⟨hflag, rfl⟩ | hc
  · simp [updatedCompleted, hflag]
  · have hb := (nextFrom_eq_some_iff.mp hc).1
    unfold updatedCompleted
    split_ifs
    · exact Finset.mem_insert_of_mem hb
    · exact hb

lemma nodup_candidateEnds : (candidateEnds isLastInData n completed).Nodup := by
  cases isLastInData <;> cases h : nextFrom completed (n + 1) with
  | none => simp [candidateEnds, h]
  | some c =>
    have hnc := (nextFrom_eq_some_iff.mp h).2.1
    simp [candidateEnds, h] <;> omega

/-- A data set stays one when a shred not yet received arrives. -/
lemma CompleteRange.update {r : ℕ × ℕ} (hnR : n ∉ received)
    (h : CompleteRange completed received r) :
    CompleteRange (updatedCompleted isLastInData n completed) (insert n received) r := by
  refine ⟨?_, ?_, fun i hi hi' => Finset.mem_insert_of_mem (h.mem_received i hi hi')⟩
  · unfold updatedCompleted
    split_ifs
    · exact Finset.mem_insert_of_mem h.end_mem
    · exact h.end_mem
  · unfold updatedCompleted
    split_ifs
    · rw [startAfter_insert]
      split_ifs with hlt
      · -- the new index is not received, so it lies before the data set
        have hbefore : ¬r.1 ≤ n := fun hle => hnR (h.mem_received n hle hlt.le)
        rw [← h.start_eq]
        omega
      · exact h.start_eq
    · exact h.start_eq

/-- A data set after the update was not one before exactly when it ends at a candidate end. -/
lemma not_completeRange_iff (hnR : n ∉ received) (hsub : completed ⊆ received) {r : ℕ × ℕ}
    (h : CompleteRange (updatedCompleted isLastInData n completed) (insert n received) r) :
    ¬CompleteRange completed received r ↔ r.2 ∈ candidateEnds isLastInData n completed := by
  obtain ⟨hend, hstart, hrecv⟩ := h
  have hnC : n ∉ completed := fun hn => hnR (hsub hn)
  rw [mem_candidateEnds]
  constructor
  · intro hold
    by_contra hcand
    simp only [not_or, not_and] at hcand
    apply hold
    have hb : r.2 ∈ completed := by
      unfold updatedCompleted at hend
      split_ifs at hend with hflag
      · exact (Finset.mem_insert.mp hend).resolve_left (hcand.1 hflag)
      · exact hend
    have hbn : r.2 ≠ n := fun h => hnC (h ▸ hb)
    rcases lt_or_gt_of_ne hbn with hlt | hgt
    · -- a data set ending before the new index does not see it
      have hS : startAfter (updatedCompleted isLastInData n completed) r.2 =
          startAfter completed r.2 := by
        unfold updatedCompleted
        split_ifs
        · exact startAfter_insert_of_le hlt.le
        · rfl
      refine ⟨hb, hstart.trans hS, fun i hi hi' => ?_⟩
      exact (Finset.mem_insert.mp (hrecv i hi hi')).resolve_left (by omega)
    · -- a data set ending past the next completed index after the new one starts after both
      obtain ⟨c, hc⟩ := Option.ne_none_iff_exists'.mp fun hnone =>
        absurd (nextFrom_eq_none_iff.mp hnone r.2 hb) (not_lt.mpr hgt)
      obtain ⟨hcC, -, hleast⟩ := nextFrom_eq_some_iff.mp hc
      have hcb : c < r.2 := lt_of_le_of_ne (hleast r.2 hb hgt) fun h => hcand.2 (h ▸ hc)
      have hpast : n + 1 < startAfter completed r.2 := by
        have := lt_startAfter_of_mem hcC hcb
        have := (nextFrom_eq_some_iff.mp hc).2.1
        omega
      have hS : startAfter (updatedCompleted isLastInData n completed) r.2 =
          startAfter completed r.2 := by
        unfold updatedCompleted
        split_ifs
        · rw [startAfter_insert, if_pos hgt]
          omega
        · rfl
      refine ⟨hb, hstart.trans hS, fun i hi hi' => ?_⟩
      have hni : i ≠ n := by
        rw [hstart, hS] at hi
        omega
      exact (Finset.mem_insert.mp (hrecv i hi hi')).resolve_left hni
  · rintro (⟨-, hbn⟩ | hc) hold
    · exact hnC (hbn ▸ hold.end_mem)
    · -- the data set before the update would hold the new index, which was not received
      have hS := startAfter_of_nextFrom hnC hc
      have hle := startAfter_le completed n
      have hnc := (nextFrom_eq_some_iff.mp hc).2.1
      exact hnR (hold.mem_received n (by rw [hold.start_eq, hS]; exact hle) (by omega))

/-- The update reports exactly the data sets that the new index completes. -/
lemma mem_updateCompletedDataIndexes_fst (hnR : n ∉ received) (hsub : completed ⊆ received)
    (r : ℕ × ℕ) :
    r ∈ (updateCompletedDataIndexes isLastInData n (insert n received) completed).1 ↔
      CompleteRange (updatedCompleted isLastInData n completed) (insert n received) r ∧
        ¬CompleteRange completed received r := by
  have hnC : n ∉ completed := fun hn => hnR (hsub hn)
  rw [updateCompletedDataIndexes_fst hnC, List.mem_filter, List.mem_map]
  constructor
  · rintro ⟨⟨b, hb, rfl⟩, hcount⟩
    have hall := countIn_eq_iff.mp (beq_iff_eq.mp hcount)
    have hnew : CompleteRange (updatedCompleted isLastInData n completed) (insert n received)
        (startAfter (updatedCompleted isLastInData n completed) b, b) :=
      ⟨mem_updatedCompleted_of_mem_candidateEnds hb, rfl, fun i hi hi' => hall i hi (by omega)⟩
    exact ⟨hnew, (not_completeRange_iff hnR hsub hnew).mpr hb⟩
  · rintro ⟨hnew, hold⟩
    refine ⟨⟨r.2, (not_completeRange_iff hnR hsub hnew).mp hold, Prod.ext hnew.start_eq.symm rfl⟩,
      beq_iff_eq.mpr (countIn_eq_iff.mpr fun i hi hi' => hnew.mem_received i hi (by omega))⟩

lemma nodup_updateCompletedDataIndexes_fst (hnC : n ∉ completed) :
    (updateCompletedDataIndexes isLastInData n received completed).1.Nodup := by
  rw [updateCompletedDataIndexes_fst hnC]
  apply List.Nodup.filter
  exact nodup_candidateEnds.map fun a b h => congrArg Prod.snd h

end Update

/-! ### Runs of insertions -/

lemma nextMissing_spec (dataIndex : Finset ℕ) (i : ℕ) :
    i ≤ nextMissing dataIndex i ∧ nextMissing dataIndex i ∉ dataIndex ∧
      ∀ j, i ≤ j → j < nextMissing dataIndex i → j ∈ dataIndex := by
  fun_induction nextMissing dataIndex i with
  | case1 i hi ih =>
    obtain ⟨hle, hnot, hall⟩ := ih
    refine ⟨by omega, hnot, fun j hij hj => ?_⟩
    rcases eq_or_lt_of_le hij with rfl | hlt
    · exact hi
    · exact hall j hlt hj
  | case2 i hi => exact ⟨le_rfl, hi, fun j hij hj => absurd hj (not_lt.mpr hij)⟩

/-- What every state of a slot that the insertions reach keeps: the completed indices are
received, and `consumed` is the least index not received. -/
structure SlotState.Inv (st : SlotState) : Prop where
  completed_subset : st.slotMeta.completedDataIndexes ⊆ st.dataIndex
  consumed_not_mem : st.slotMeta.consumed ∉ st.dataIndex
  mem_of_lt_consumed : ∀ i < st.slotMeta.consumed, i ∈ st.dataIndex

lemma SlotState.inv_new (parentSlot : ℕ) : SlotState.Inv ⟨SlotMeta.new parentSlot, ∅⟩ where
  completed_subset := Finset.Subset.refl _
  consumed_not_mem := Finset.notMem_empty _
  mem_of_lt_consumed _ h := absurd h (Nat.not_lt_zero _)

lemma parentSlot_isSome_of_shouldInsertDataShred {slot lastRoot : ℕ} {shred : DataShred}
    {slotMeta : SlotMeta} (h : shouldInsertDataShred slot lastRoot shred slotMeta = true) :
    slotMeta.parentSlot.isSome := by
  unfold shouldInsertDataShred at h
  split_ifs at h
  cases hp : slotMeta.parentSlot <;> simp_all

/-- An untrusted insertion never panics: the shred is refused before the assertion that the
slot has a parent could fire. -/
lemma checkInsertDataShred_ne_none (slot lastRoot : ℕ) (st : SlotState) (shred : DataShred) :
    checkInsertDataShred slot lastRoot false st shred ≠ none := by
  unfold checkInsertDataShred
  split
  · simp
  · split_ifs with hpresent hshould
    · simp
    · simp
    · have hp : st.slotMeta.parentSlot.isSome :=
        parentSlot_isSome_of_shouldInsertDataShred (by simpa using hshould)
      simp [insertDataShred, Option.isSome_iff_ne_none.mp hp]

@[simp] lemma updateSlotMeta_consumed (isLastInSlot isLastInData : Bool) (slotMeta : SlotMeta)
    (index newConsumed : ℕ) (received : Finset ℕ) :
    (updateSlotMeta isLastInSlot isLastInData slotMeta index newConsumed received).1.consumed =
      newConsumed := rfl

@[simp] lemma updateSlotMeta_completedDataIndexes (isLastInSlot isLastInData : Bool)
    (slotMeta : SlotMeta) (index newConsumed : ℕ) (received : Finset ℕ) :
    (updateSlotMeta isLastInSlot isLastInData slotMeta index newConsumed
        received).1.completedDataIndexes =
      updatedCompleted (isLastInSlot || isLastInData) index slotMeta.completedDataIndexes := rfl

@[simp] lemma updateSlotMeta_snd (isLastInSlot isLastInData : Bool) (slotMeta : SlotMeta)
    (index newConsumed : ℕ) (received : Finset ℕ) :
    (updateSlotMeta isLastInSlot isLastInData slotMeta index newConsumed received).2 =
      (updateCompletedDataIndexes (isLastInSlot || isLastInData) index received
        slotMeta.completedDataIndexes).1 := rfl

lemma insertDataShred_eq {st : SlotState} (shred : DataShred)
    (hp : st.slotMeta.parentSlot.isSome) :
    insertDataShred st shred =
      let newConsumed := if st.slotMeta.consumed = shred.index then
        nextMissing st.dataIndex (shred.index + 1) else st.slotMeta.consumed
      let r := updateSlotMeta shred.lastInSlot shred.dataComplete st.slotMeta shred.index
        newConsumed (insert shred.index st.dataIndex)
      some (⟨r.1, insert shred.index st.dataIndex⟩, r.2) := by
  unfold insertDataShred
  rw [if_neg (by simpa [Option.isSome_iff_ne_none] using hp)]

/-- An accepted untrusted shred is new and not below `consumed`, and its insertion adds its index
to those received, marks it completed where it ends a data set or the slot, moves `consumed`
past it where it was the first missing one, and reports what the update reports. -/
lemma checkInsertDataShred_eq_ok {slot lastRoot : ℕ} {st st' : SlotState} {shred : DataShred}
    {ranges : List (ℕ × ℕ)}
    (h : checkInsertDataShred slot lastRoot false st shred = some (.ok (st', ranges))) :
    ¬shred.index < st.slotMeta.consumed ∧ shred.index ∉ st.dataIndex ∧
      st'.dataIndex = insert shred.index st.dataIndex ∧
      st'.slotMeta.completedDataIndexes = updatedCompleted (shred.lastInSlot || shred.dataComplete)
        shred.index st.slotMeta.completedDataIndexes ∧
      st'.slotMeta.consumed = (if st.slotMeta.consumed = shred.index then
        nextMissing st.dataIndex (shred.index + 1) else st.slotMeta.consumed) ∧
      ranges = (updateCompletedDataIndexes (shred.lastInSlot || shred.dataComplete) shred.index
        (insert shred.index st.dataIndex) st.slotMeta.completedDataIndexes).1 := by
  unfold checkInsertDataShred at h
  split at h
  · simp at h
  · split_ifs at h with hpresent hshould
    · simp at h
    · simp at h
    · simp only [Bool.not_false, true_and, Bool.not_eq_true, isDataShredPresent,
        Bool.or_eq_false_iff, decide_eq_false_iff_not] at hpresent
      have hp := parentSlot_isSome_of_shouldInsertDataShred (by simpa using hshould)
      rw [insertDataShred_eq shred hp] at h
      simp only [Option.map_some, Option.some.injEq, Except.ok.injEq, Prod.mk.injEq] at h
      obtain ⟨rfl, rfl⟩ := h
      exact ⟨hpresent.1, hpresent.2, rfl, by simp, by simp, by simp⟩

/-- One accepted insertion keeps the invariant. -/
lemma SlotState.Inv.checkInsert {slot lastRoot : ℕ} {st st' : SlotState} {shred : DataShred}
    {ranges : List (ℕ × ℕ)} (hinv : st.Inv)
    (h : checkInsertDataShred slot lastRoot false st shred = some (.ok (st', ranges))) :
    st'.Inv := by
  obtain ⟨hge, hnew, hdata, hcompleted, hconsumed, -⟩ := checkInsertDataShred_eq_ok h
  refine ⟨?_, ?_, ?_⟩
  · rw [hcompleted, hdata]
    unfold updatedCompleted
    split_ifs
    · exact Finset.insert_subset_insert _ hinv.completed_subset
    · exact hinv.completed_subset.trans (Finset.subset_insert _ _)
  · rw [hconsumed, hdata]
    split_ifs with heq
    · -- the first missing index was the new one: the scan stops at the next missing one
      obtain ⟨hle, hnot, -⟩ := nextMissing_spec st.dataIndex (shred.index + 1)
      rw [Finset.mem_insert, not_or]
      exact ⟨by omega, hnot⟩
    · rw [Finset.mem_insert, not_or]
      exact ⟨heq, hinv.consumed_not_mem⟩
  · intro i hi
    rw [hdata]
    rw [hconsumed] at hi
    split_ifs at hi with heq
    · obtain ⟨-, -, hall⟩ := nextMissing_spec st.dataIndex (shred.index + 1)
      rcases lt_trichotomy i shred.index with hlt | rfl | hgt
      · exact Finset.mem_insert_of_mem (hinv.mem_of_lt_consumed i (by omega))
      · exact Finset.mem_insert_self _ _
      · exact Finset.mem_insert_of_mem (hall i hgt hi)
    · exact Finset.mem_insert_of_mem (hinv.mem_of_lt_consumed i hi)

/-- What a run of insertions from `st` to `st'` does: the invariant holds after it, the accepted
shreds are new and their indices distinct, the received and completed indices grow by theirs,
the data sets of `st` stay data sets, and the ranges reported are, once each, the data sets of
`st'` that were not data sets of `st`. -/
structure RunSpec (st st' : SlotState) (accepted : List DataShred) (reported : List (ℕ × ℕ)) :
    Prop where
  inv : st'.Inv
  dataIndex_eq : st'.dataIndex = st.dataIndex ∪ (accepted.map (·.index)).toFinset
  completed_eq : st'.slotMeta.completedDataIndexes = st.slotMeta.completedDataIndexes ∪
    ((accepted.filter fun s => s.lastInSlot || s.dataComplete).map (·.index)).toFinset
  nodup_accepted : (accepted.map (·.index)).Nodup
  accepted_new : ∀ s ∈ accepted, s.index ∉ st.dataIndex
  nodup_reported : reported.Nodup
  mem_reported : ∀ r, r ∈ reported ↔
    CompleteRange st'.slotMeta.completedDataIndexes st'.dataIndex r ∧
      ¬CompleteRange st.slotMeta.completedDataIndexes st.dataIndex r
  mono : ∀ r, CompleteRange st.slotMeta.completedDataIndexes st.dataIndex r →
    CompleteRange st'.slotMeta.completedDataIndexes st'.dataIndex r

lemma RunSpec.refl {st : SlotState} (hinv : st.Inv) : RunSpec st st [] [] where
  inv := hinv
  dataIndex_eq := by simp
  completed_eq := by simp
  nodup_accepted := List.nodup_nil
  accepted_new _ h := absurd h List.not_mem_nil
  nodup_reported := List.nodup_nil
  mem_reported _ := by simp
  mono _ h := h

/-- One accepted insertion is a run: it reports exactly the data sets it completes. -/
lemma RunSpec.checkInsert {slot lastRoot : ℕ} {st st' : SlotState} {shred : DataShred}
    {ranges : List (ℕ × ℕ)} (hinv : st.Inv)
    (h : checkInsertDataShred slot lastRoot false st shred = some (.ok (st', ranges))) :
    RunSpec st st' [shred] ranges := by
  obtain ⟨-, hnew, hdata, hcompleted, -, hranges⟩ := checkInsertDataShred_eq_ok h
  have hnC : shred.index ∉ st.slotMeta.completedDataIndexes :=
    fun hn => hnew (hinv.completed_subset hn)
  refine ⟨hinv.checkInsert h, ?_, ?_, by simp, by simpa using hnew, ?_, fun r => ?_, fun r hr => ?_⟩
  · rw [hdata]
    ext i
    simp
  · rw [hcompleted]
    unfold updatedCompleted
    ext i
    cases hflag : (shred.lastInSlot || shred.dataComplete) <;> simp [hflag]
  · rw [hranges]
    exact nodup_updateCompletedDataIndexes_fst hnC
  · rw [hranges, hcompleted, hdata]
    exact mem_updateCompletedDataIndexes_fst hnew hinv.completed_subset r
  · rw [hcompleted, hdata]
    exact hr.update hnew

/-- Two runs one after the other are a run. -/
lemma RunSpec.trans {st₀ st₁ st₂ : SlotState} {a₁ a₂ : List DataShred}
    {r₁ r₂ : List (ℕ × ℕ)} (h₁ : RunSpec st₀ st₁ a₁ r₁) (h₂ : RunSpec st₁ st₂ a₂ r₂) :
    RunSpec st₀ st₂ (a₁ ++ a₂) (r₁ ++ r₂) where
  inv := h₂.inv
  dataIndex_eq := by
    rw [h₂.dataIndex_eq, h₁.dataIndex_eq, List.map_append, List.toFinset_append,
      Finset.union_assoc]
  completed_eq := by
    rw [h₂.completed_eq, h₁.completed_eq, List.filter_append, List.map_append,
      List.toFinset_append, Finset.union_assoc]
  nodup_accepted := by
    rw [List.map_append, List.nodup_append]
    refine ⟨h₁.nodup_accepted, h₂.nodup_accepted, ?_⟩
    -- the first run's shreds are received when the second run starts, whose shreds are new
    intro x hx y hy hxy
    obtain ⟨s, hs, rfl⟩ := List.mem_map.mp hx
    obtain ⟨t, ht, rfl⟩ := List.mem_map.mp hy
    apply h₂.accepted_new t ht
    rw [← hxy, h₁.dataIndex_eq]
    exact Finset.mem_union_right _ (List.mem_toFinset.mpr hx)
  accepted_new s hs := by
    rcases List.mem_append.mp hs with hs | hs
    · exact h₁.accepted_new s hs
    · intro hmem
      apply h₂.accepted_new s hs
      rw [h₁.dataIndex_eq]
      exact Finset.mem_union_left _ hmem
  nodup_reported := by
    rw [List.nodup_append]
    refine ⟨h₁.nodup_reported, h₂.nodup_reported, fun x hx y hy hxy => ?_⟩
    exact ((h₂.mem_reported y).mp hy).2 (hxy ▸ ((h₁.mem_reported x).mp hx).1)
  mem_reported r := by
    rw [List.mem_append, h₁.mem_reported, h₂.mem_reported]
    constructor
    · rintro (⟨h1, h0⟩ | ⟨h2, h1⟩)
      · exact ⟨h₂.mono r h1, h0⟩
      · exact ⟨h2, fun h0 => h1 (h₁.mono r h0)⟩
    · rintro ⟨h2, h0⟩
      by_cases h1 : CompleteRange st₁.slotMeta.completedDataIndexes st₁.dataIndex r
      · exact .inl ⟨h1, h0⟩
      · exact .inr ⟨h2, h1⟩
  mono r h := h₂.mono r (h₁.mono r h)

/-- Any run of untrusted insertions from a state that keeps the invariant completes without a
panic, and is a run in the sense of `RunSpec`. -/
lemma insertDataShreds_spec (slot lastRoot : ℕ) (shreds : List DataShred) :
    ∀ st : SlotState, st.Inv → ∃ st' accepted reported,
      insertDataShreds slot lastRoot st shreds = some (st', accepted, reported) ∧
        RunSpec st st' accepted reported := by
  induction shreds with
  | nil => exact fun st hinv => ⟨st, [], [], rfl, RunSpec.refl hinv⟩
  | cons shred rest ih =>
    intro st hinv
    cases hcheck : checkInsertDataShred slot lastRoot false st shred with
    | none => exact absurd hcheck (checkInsertDataShred_ne_none slot lastRoot st shred)
    | some res =>
      cases res with
      | error e =>
        -- a refused shred leaves the state as it is
        obtain ⟨st', accepted, reported, hrun, hspec⟩ := ih st hinv
        exact ⟨st', accepted, reported, by simp [insertDataShreds, hcheck, hrun], hspec⟩
      | ok p =>
        obtain ⟨st₁, ranges⟩ := p
        have h₁ := RunSpec.checkInsert hinv hcheck
        obtain ⟨st', accepted, reported, hrun, hspec⟩ := ih st₁ h₁.inv
        exact ⟨st', shred :: accepted, ranges ++ reported,
          by simp [insertDataShreds, hcheck, hrun], h₁.trans hspec⟩

/-! ### Reading the completed data sets back -/

/-- Each range of the scan over the completed indices below `consumed`, in order, is a data set
of the slot. -/
lemma mem_scanRanges_completeRange {completed received : Finset ℕ} {consumed : ℕ}
    (hrecv : ∀ i < consumed, i ∈ received) (l : List ℕ) :
    ∀ begin, l.Pairwise (· < ·) → startAfter completed begin = begin →
      (∀ c, c ∈ l ↔ c ∈ completed ∧ begin ≤ c ∧ c < consumed) →
      ∀ r ∈ scanRanges begin l, CompleteRange completed received r := by
  induction l with
  | nil =>
    intro begin _ _ _ r hr
    simp [scanRanges] at hr
  | cons c rest ih =>
    intro begin hsorted hbegin hmem r hr
    obtain ⟨hc_rest, hrest⟩ := List.pairwise_cons.mp hsorted
    obtain ⟨hcC, hbc, hcc⟩ := (hmem c).mp List.mem_cons_self
    rw [scanRanges, List.mem_cons] at hr
    rcases hr with rfl | hr
    · -- the first range runs from `begin` to the first completed index
      refine ⟨hcC, ?_, fun i _ hi => hrecv i (by omega)⟩
      rw [startAfter_eq_of_forall hbc ?_, hbegin]
      intro d hd hbd
      by_cases hdc : d < consumed
      · rcases List.mem_cons.mp ((hmem d).mpr ⟨hd, hbd, hdc⟩) with rfl | hd'
        · exact le_rfl
        · exact (hc_rest d hd').le
      · omega
    · apply ih (c + 1) hrest (startAfter_succ_of_mem hcC) _ r hr
      intro x
      constructor
      · intro hx
        obtain ⟨hxC, -, hxc⟩ := (hmem x).mp (List.mem_cons_of_mem _ hx)
        exact ⟨hxC, hc_rest x hx, hxc⟩
      · rintro ⟨hxC, hcx, hxc⟩
        rcases List.mem_cons.mp ((hmem x).mpr ⟨hxC, by omega, hxc⟩) with rfl | hx
        · omega
        · exact hx

/-- In a state that keeps the invariant, the assertion of `get_completed_data_ranges` holds, and
every range it returns from index zero is a data set of the slot. -/
lemma getCompletedDataRanges_spec {st : SlotState} (hinv : st.Inv) :
    ∃ ranges, getCompletedDataRanges 0 st.slotMeta.completedDataIndexes st.slotMeta.consumed =
      some ranges ∧
      ∀ r ∈ ranges, CompleteRange st.slotMeta.completedDataIndexes st.dataIndex r := by
  have hnot : st.slotMeta.consumed ∉ st.slotMeta.completedDataIndexes :=
    fun h => hinv.consumed_not_mem (hinv.completed_subset h)
  refine ⟨_, by rw [getCompletedDataRanges, if_neg hnot], ?_⟩
  apply mem_scanRanges_completeRange hinv.mem_of_lt_consumed _ 0
    (Finset.sortedLT_sort _).pairwise (Nat.le_zero.mp (startAfter_le _ 0))
  intro c
  simp [Finset.mem_sort]

/-- Over any run of untrusted insertions of the data shreds of a slot into a new slot: nothing
panics; `consumed` is the least index not received; the received indices are those of the
accepted shreds, which are distinct, and the completed ones those of the accepted shreds that end
a data set or the slot; the ranges reported are the data sets of the slot, each once; the
assertion of `get_completed_data_ranges` holds and what it returns from index zero are data
sets; and the next insertion reports exactly the data sets it completes, each once. -/
theorem insert_data_shreds_reports_each_completed_set_once (slot lastRoot parentSlot : ℕ)
    (shreds : List DataShred) :
    ∃ st accepted reported,
      insertDataShreds slot lastRoot ⟨SlotMeta.new parentSlot, ∅⟩ shreds =
        some (st, accepted, reported) ∧
      st.slotMeta.consumed ∉ st.dataIndex ∧ (∀ i < st.slotMeta.consumed, i ∈ st.dataIndex) ∧
      st.dataIndex = (accepted.map (·.index)).toFinset ∧ (accepted.map (·.index)).Nodup ∧
      st.slotMeta.completedDataIndexes =
        ((accepted.filter fun s => s.lastInSlot || s.dataComplete).map (·.index)).toFinset ∧
      reported.Nodup ∧
      (∀ r, r ∈ reported ↔ CompleteRange st.slotMeta.completedDataIndexes st.dataIndex r) ∧
      (∃ ranges, getCompletedDataRanges 0 st.slotMeta.completedDataIndexes
          st.slotMeta.consumed = some ranges ∧
        ∀ r ∈ ranges, CompleteRange st.slotMeta.completedDataIndexes st.dataIndex r) ∧
      ∀ shred st' ranges,
        checkInsertDataShred slot lastRoot false st shred = some (.ok (st', ranges)) →
        ranges.Nodup ∧ ∀ r, r ∈ ranges ↔
          CompleteRange st'.slotMeta.completedDataIndexes st'.dataIndex r ∧
            ¬CompleteRange st.slotMeta.completedDataIndexes st.dataIndex r := by
  obtain ⟨st, accepted, reported, hrun, hspec⟩ :=
    insertDataShreds_spec slot lastRoot shreds _ (SlotState.inv_new parentSlot)
  -- a new slot has no data set
  have hnone : ∀ r, ¬CompleteRange (SlotMeta.new parentSlot).completedDataIndexes ∅ r :=
    fun r h => by simpa [SlotMeta.new] using h.end_mem
  refine ⟨st, accepted, reported, hrun, hspec.inv.consumed_not_mem,
    hspec.inv.mem_of_lt_consumed, by simpa using hspec.dataIndex_eq, hspec.nodup_accepted,
    by simpa [SlotMeta.new] using hspec.completed_eq, hspec.nodup_reported,
    fun r => by simpa [hnone r] using hspec.mem_reported r, getCompletedDataRanges_spec hspec.inv,
    fun shred st' ranges h => ?_⟩
  have hstep := RunSpec.checkInsert hspec.inv h
  exact ⟨hstep.nodup_reported, hstep.mem_reported⟩

/- The end of the first data set arrives before its start; the set is reported when its start
arrives, and the last shred of the slot is a data set of its own. -/
example :
    (insertDataShreds 5 0 ⟨SlotMeta.new 4, ∅⟩
      [⟨1, 1, true, false, 1, 100⟩, ⟨0, 1, false, false, 1, 100⟩,
        ⟨2, 1, false, true, 1, 100⟩]).map (·.2.2) = some [(0, 1), (2, 2)] := by
  decide +kernel

end VelasChain.Ledger
