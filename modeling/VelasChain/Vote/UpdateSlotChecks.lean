import VelasChain.Vote.SlotChecks
import VelasChain.Consensus.Tower
import VelasChain.Lib.BinarySearch

/-!
# The check of a vote state update against the slot hashes

`check_update_vote_state_slots_are_valid` merges the proposed lockouts, oldest first, with the
slot hashes, oldest first, after checking that the update is newer than the last vote and not
older than every slot hash. A proposed root older than every slot hash is first replaced by the
current root. The loop checks the root in its first iterations (`updateRootLoop`) and then the
lockouts (`updateLockoutsLoop`): a lockout older than every slot hash is passed over, and
filtered out afterwards unless the votes hold it; any other lockout must be one of the slot
hashes, in increasing order.

Every lockout at or above the oldest slot hash must be a slot hash and not below the root, a
lockout older than every slot hash needs a root at most the oldest slot hash, and a root at or
above the oldest slot hash must be a slot hash (`LoopFits`, proved of the two loops in
`updateLoop_spec`). With the slot hashes strictly decreasing and the votes sorted, the check
accepts exactly the updates that fit (`UpdateFits`), and returns the update with its root reset
and the lockouts the votes do not hold below the oldest slot hash filtered out; no assertion of
it ever fails (`check_update_vote_state_slots_are_valid_decides_fit`).
-/

namespace VelasChain.VoteProgram

open scoped List

open Consensus (VoteStateUpdate)

namespace VoteState

/-- `VoteState::contains_slot`: the binary search of the votes for a slot. The vote state is
read from its account, so its deque is one slice and the search is the slice's. -/
def containsSlot (vs : VoteState) (candidateSlot : Slot) : Bool :=
  (BinarySearch.searchBy (fun l => compare l.slot candidateSlot) vs.votes).isOk

/-- The iterations of the loop of `check_update_vote_state_slots_are_valid` once the root is
checked, its two indexes as what is left of the proposed lockouts (from `index`, after the
lockout of slot `previous`) and of the slot hashes, oldest first. It returns the index reached,
the slot hashes left and the indexes of the lockouts to filter out, or an error; `none` where an
assertion fails. `earliest` is the slot of the oldest slot hash and `total` their number. -/
def updateLockoutsLoop (vs : VoteState) (earliest : Slot) (total : ℕ) :
    Option Slot → ℕ → List Lockout → List (Slot × Hash) → List ℕ →
      Option (Except VoteError (ℕ × List (Slot × Hash) × List ℕ))
  | previous, index, lockout :: rest, (ancestorSlot, ancestorHash) :: older, toFilter =>
    if previous.any (lockout.slot ≤ ·) then some (.error .slotsNotOrdered)
    else
      match compare lockout.slot ancestorSlot with
      | .lt =>
        if older.length + 1 = total then
          -- older than every slot hash: filtered out unless the votes hold it
          if lockout.slot < earliest then
            updateLockoutsLoop vs earliest total (some lockout.slot) (index + 1) rest
              ((ancestorSlot, ancestorHash) :: older)
              (if !vs.containsSlot lockout.slot then toFilter ++ [index] else toFilter)
          else none
        else some (.error .slotsMismatch)
      | .gt => updateLockoutsLoop vs earliest total previous index (lockout :: rest) older toFilter
      | .eq => updateLockoutsLoop vs earliest total (some lockout.slot) (index + 1) rest older toFilter
  | _, index, _, slotHashes, toFilter => some (.ok (index, slotHashes, toFilter))
termination_by _ _ lockouts slotHashes _ => lockouts.length + slotHashes.length

/-- The first iterations of the loop, while the proposed root is checked: the root is compared
with the slot hashes from the oldest, and once it is found, or found older than every slot hash
(which only the current root can be), the lockouts are checked. -/
def updateRootLoop (vs : VoteState) (earliest : Slot) (total : ℕ) (lockouts : List Lockout)
    (root : Slot) : List (Slot × Hash) → Option (Except VoteError (ℕ × List (Slot × Hash) × List ℕ))
  | [] => some (.ok (0, [], []))
  | (ancestorSlot, ancestorHash) :: older =>
    if lockouts = [] then some (.ok (0, (ancestorSlot, ancestorHash) :: older, []))
    else
      match compare root ancestorSlot with
      | .lt =>
        if older.length + 1 = total then
          if root < earliest then
            match vs.rootSlot with
            | some currentRoot =>
              if currentRoot < earliest then
                updateLockoutsLoop vs earliest total none 0 lockouts
                  ((ancestorSlot, ancestorHash) :: older) []
              else none
            | none => none
          else none
        else some (.error .rootOnDifferentFork)
      | .gt => updateRootLoop vs earliest total lockouts root older
      | .eq =>
        updateLockoutsLoop vs earliest total none 0 lockouts ((ancestorSlot, ancestorHash) :: older)
          []

/-- The loop of the check from its start: the root iterations where the update has a root, the
lockout iterations otherwise. -/
def updateLoop (vs : VoteState) (earliest : Slot) (total : ℕ) (lockouts : List Lockout) :
    Option Slot → List (Slot × Hash) → Option (Except VoteError (ℕ × List (Slot × Hash) × List ℕ))
  | some root, slotHashes => vs.updateRootLoop earliest total lockouts root slotHashes
  | none, slotHashes => vs.updateLockoutsLoop earliest total none 0 lockouts slotHashes []

/-- The `retain` that filters the lockouts: it walks them with their index and the indexes to
filter in order, and drops a lockout whose index is the next one to filter. -/
def retainUnfiltered {α : Type*} : List ℕ → ℕ → List α → List α
  | _, _, [] => []
  | [], index, a :: as => a :: retainUnfiltered [] (index + 1) as
  | k :: ks, index, a :: as =>
    if index = k then retainUnfiltered ks (index + 1) as
    else a :: retainUnfiltered (k :: ks) (index + 1) as

/-- The proposed root, replaced by the current root when it is older than every slot hash. -/
def resetRoot (vs : VoteState) (earliest : Slot) : Option Slot → Option Slot
  | some root => if earliest > root then vs.rootSlot else some root
  | none => none

/-- `VoteState::check_update_vote_state_slots_are_valid`: the update with its root reset and its
lockouts filtered, or an error; `none` where an assertion fails. -/
def checkUpdateVoteStateSlotsAreValid (vs : VoteState) (update : VoteStateUpdate)
    (slotHashes : List (Slot × Hash)) : Option (Except VoteError VoteStateUpdate) :=
  match update.lockouts.getLast? with
  | none => some (.error .emptySlots)
  | some lastLockout =>
    if vs.lastVotedSlot.any (lastLockout.slot ≤ ·) then some (.error .voteTooOld)
    else
      match slotHashes.getLast? with
      | none => some (.error .slotsMismatch)
      | some (earliest, _) =>
        if lastLockout.slot < earliest then some (.error .voteTooOld)
        else
          let update := { update with root := vs.resetRoot earliest update.root }
          (vs.updateLoop earliest slotHashes.length update.lockouts update.root
              slotHashes.reverse).bind fun
            | .error e => some (.error e)
            | .ok (index, rest, toFilter) =>
              if index ≠ update.lockouts.length then some (.error .slotsMismatch)
              else
                match slotHashes[rest.length]? with
                | some (slot, hash) =>
                  -- `assert_eq!(last_vote_state_update_slot, slot_hashes[slot_hashes_index].0)`
                  if lastLockout.slot ≠ slot then none
                  else if hash ≠ update.hash then some (.error .slotHashMismatch)
                  else some (.ok { update with lockouts := retainUnfiltered toFilter 0 update.lockouts })
                | none => none

/-- A root in the slot hashes above a lockout at or above the oldest slot hash: the loop passes
the slot hash of slot 5 while it looks for the root 10, so the lockout 5 is then compared with
slot 10 and the check fails, although every lockout and the root are slot hashes, the lockouts
increase and slot 5 records the update's hash. -/
theorem update_with_lockout_below_its_root_is_rejected :
    (⟨[], none, [], ⟨0, 0⟩⟩ : VoteState).checkUpdateVoteStateSlotsAreValid
      ⟨[⟨5, 1⟩], some 10, 0, none⟩ [(10, 0), (5, 0), (3, 0)] = some (.error .slotsMismatch) := by
  decide +kernel

/-! ### The loops -/

/-- The indexes, counted from `index`, of the elements `p` holds of. -/
def indexesOf {α : Type*} (p : α → Bool) : ℕ → List α → List ℕ
  | _, [] => []
  | index, a :: as => (if p a then [index] else []) ++ indexesOf p (index + 1) as

/-- A lockout older than every slot hash that the votes do not hold: one the check filters out. -/
def belowUnheld (vs : VoteState) (earliest : Slot) (l : Lockout) : Bool :=
  decide (l.slot < earliest) && !vs.containsSlot l.slot

/-- The results of a loop that do not accept an update of `n` lockouts: an error, or an index
short of `n`. -/
def Rejects (n : ℕ) (r : Option (Except VoteError (ℕ × List (Slot × Hash) × List ℕ))) : Prop :=
  (∃ e, r = some (.error e)) ∨ ∃ i rest toFilter, i < n ∧ r = some (.ok (i, rest, toFilter))

/-- What the lockout iterations need of the lockouts left: their slots increase from `previous`,
and each is one of the slot hashes left or, while none has been passed, older than every slot
hash. -/
def LockoutsFit (earliest : Slot) (atStart : Prop) (previous : Option Slot) (ls : List Lockout)
    (hs : List (Slot × Hash)) : Prop :=
  (previous.toList ++ ls.map (·.slot)).Pairwise (· < ·) ∧
    ∀ l ∈ ls, (atStart ∧ l.slot < earliest) ∨ l.slot ∈ hs.map (·.1)

/-- What the whole loop needs of the lockouts and the (reset) root, against the slots of the
slot hashes: the lockouts increase; a lockout from `earliest` on is a slot and not below the
root; a lockout older than `earliest` needs the root at most `earliest`; and a root from
`earliest` on is a slot. -/
def LoopFits (earliest : Slot) (root : Option Slot) (lockouts : List Lockout) (slots : List Slot) :
    Prop :=
  (lockouts.map (·.slot)).Pairwise (· < ·) ∧
    (∀ l ∈ lockouts, earliest ≤ l.slot → l.slot ∈ slots ∧ root.all (· ≤ l.slot)) ∧
    (∀ l ∈ lockouts, l.slot < earliest → root.all (· ≤ earliest)) ∧
    root.all (fun r => r < earliest ∨ r ∈ slots)

lemma loopFits_congr {earliest : Slot} {root : Option Slot} {lockouts : List Lockout}
    {slots slots' : List Slot} (h : ∀ s, s ∈ slots ↔ s ∈ slots') :
    LoopFits earliest root lockouts slots ↔ LoopFits earliest root lockouts slots' := by
  simp only [LoopFits, h]

lemma pairwise_previous_cons_iff {previous : Option Slot} {x : Slot} {xs : List Slot} :
    (previous.toList ++ x :: xs).Pairwise (· < ·) ↔
      previous.all (· < x) ∧ (x :: xs).Pairwise (· < ·) := by
  cases previous with
  | none => simp
  | some p =>
    simp only [Option.toList_some, List.singleton_append, Option.all_some, decide_eq_true_eq]
    constructor
    · intro h
      exact ⟨List.rel_of_pairwise_cons h List.mem_cons_self, h.of_cons⟩
    · rintro ⟨hpx, hx⟩
      refine List.pairwise_cons.mpr ⟨fun y hy => ?_, hx⟩
      rcases List.mem_cons.mp hy with rfl | hy
      · exact hpx
      · exact lt_trans hpx (List.rel_of_pairwise_cons hx hy)

section Lockouts

variable (vs : VoteState) (earliest : Slot) (total : ℕ)

@[simp] lemma updateLockoutsLoop_nil (previous : Option Slot) (index : ℕ)
    (hs : List (Slot × Hash)) (toFilter : List ℕ) :
    vs.updateLockoutsLoop earliest total previous index [] hs toFilter =
      some (.ok (index, hs, toFilter)) := by
  rw [updateLockoutsLoop]
  intro _ _ _ _ _ hnil
  cases hnil

variable {earliest}

lemma slot_le_of_pairwise {previous : Option Slot} {l : Lockout} {rest : List Lockout}
    (h : (previous.toList ++ (l :: rest).map (·.slot)).Pairwise (· < ·)) :
    ∀ m ∈ l :: rest, l.slot ≤ m.slot := by
  rw [List.map_cons, pairwise_previous_cons_iff] at h
  intro m hm
  rcases List.mem_cons.mp hm with rfl | hm
  · exact le_rfl
  · exact le_of_lt (List.rel_of_pairwise_cons h.2 (List.mem_map_of_mem hm))

lemma not_lockoutsFit_of_any {atStart : Prop} {previous : Option Slot} {l : Lockout}
    {rest : List Lockout} {hs : List (Slot × Hash)} (h : previous.any (l.slot ≤ ·) = true) :
    ¬ LockoutsFit earliest atStart previous (l :: rest) hs := by
  rintro ⟨hpw, -⟩
  rw [List.map_cons, pairwise_previous_cons_iff] at hpw
  cases previous with
  | none => simp at h
  | some p =>
    simp only [Option.any_some, decide_eq_true_eq] at h
    simp only [Option.all_some, decide_eq_true_eq] at hpw
    exact absurd hpw.1 (not_lt.mpr h)

lemma all_lt_iff_not_any {previous : Option Slot} {s : Slot} :
    previous.all (· < s) = true ↔ ¬ previous.any (s ≤ ·) = true := by
  cases previous with
  | none => simp
  | some p => simp

/-- A lockout older than every slot hash, before any is passed, is passed over. -/
lemma lockoutsFit_skip {atStart : Prop} {previous : Option Slot} {l : Lockout}
    {rest : List Lockout} {hs : List (Slot × Hash)} (hprev : previous.all (· < l.slot))
    (hstart : atStart) (hl : l.slot < earliest) :
    LockoutsFit earliest atStart previous (l :: rest) hs ↔
      LockoutsFit earliest atStart (some l.slot) rest hs := by
  simp only [LockoutsFit, List.map_cons, pairwise_previous_cons_iff, hprev, true_and,
    Option.toList_some, List.singleton_append, List.forall_mem_cons]
  constructor
  · rintro ⟨hpw, -, hrest⟩
    exact ⟨hpw, hrest⟩
  · rintro ⟨hpw, hrest⟩
    exact ⟨hpw, Or.inl ⟨hstart, hl⟩, hrest⟩

/-- A slot hash below the next lockout is passed over, and so is never needed again. -/
lemma lockoutsFit_pass {atStart atStart' : Prop} {previous : Option Slot} {l : Lockout}
    {rest : List Lockout} {a : Slot} {ah : Hash} {older : List (Slot × Hash)} (hal : a < l.slot)
    (hea : earliest ≤ a) :
    LockoutsFit earliest atStart previous (l :: rest) ((a, ah) :: older) ↔
      LockoutsFit earliest atStart' previous (l :: rest) older := by
  constructor
  · rintro ⟨hpw, hmem⟩
    refine ⟨hpw, fun m hm => Or.inr ?_⟩
    have ham : a < m.slot := lt_of_lt_of_le hal (slot_le_of_pairwise hpw m hm)
    rcases hmem m hm with ⟨-, hlt⟩ | hin
    · exact absurd hlt (not_lt.mpr (hea.trans ham.le))
    · rcases List.mem_cons.mp hin with heq | hin
      · exact absurd heq (ne_of_gt ham)
      · exact hin
  · rintro ⟨hpw, hmem⟩
    refine ⟨hpw, fun m hm => ?_⟩
    have ham : a < m.slot := lt_of_lt_of_le hal (slot_le_of_pairwise hpw m hm)
    rcases hmem m hm with ⟨-, hlt⟩ | hin
    · exact absurd hlt (not_lt.mpr (hea.trans ham.le))
    · exact Or.inr (List.mem_cons_of_mem _ hin)

/-- A lockout that is the next slot hash consumes it. -/
lemma lockoutsFit_match {atStart atStart' : Prop} {previous : Option Slot} {l : Lockout}
    {rest : List Lockout} {ah : Hash} {older : List (Slot × Hash)}
    (hprev : previous.all (· < l.slot)) (hea : earliest ≤ l.slot) :
    LockoutsFit earliest atStart previous (l :: rest) ((l.slot, ah) :: older) ↔
      LockoutsFit earliest atStart' (some l.slot) rest older := by
  simp only [LockoutsFit, List.map_cons, pairwise_previous_cons_iff, hprev, true_and,
    Option.toList_some, List.singleton_append]
  constructor
  · rintro ⟨hpw, hmem⟩
    refine ⟨hpw, fun m hm => Or.inr ?_⟩
    have hlm := List.rel_of_pairwise_cons hpw (List.mem_map_of_mem hm)
    rcases hmem m (List.mem_cons_of_mem _ hm) with ⟨-, hlt⟩ | hin
    · exact absurd hlt (not_lt.mpr (hea.trans hlm.le))
    · rcases List.mem_cons.mp hin with heq | hin
      · exact absurd heq (ne_of_gt hlm)
      · exact hin
  · rintro ⟨hpw, hmem⟩
    refine ⟨hpw, fun m hm => ?_⟩
    rcases List.mem_cons.mp hm with rfl | hm
    · exact Or.inr List.mem_cons_self
    · have hlm := List.rel_of_pairwise_cons hpw (List.mem_map_of_mem hm)
      rcases hmem m hm with ⟨-, hlt⟩ | hin
      · exact absurd hlt (not_lt.mpr (hea.trans hlm.le))
      · exact Or.inr (List.mem_cons_of_mem _ hin)

/-- The lockout iterations accept exactly the lockouts that fit: then they reach the end of the
lockouts, add the indexes of those to filter out, and leave the slot hashes after the match of
the last lockout. -/
theorem updateLockoutsLoop_spec (htotal : 0 < total) (previous : Option Slot) (index : ℕ)
    (ls : List Lockout) (hs : List (Slot × Hash)) (toFilter : List ℕ) :
    (hs.map (·.1)).Pairwise (· < ·) → (∀ x ∈ hs, earliest ≤ x.1) → hs.length ≤ total →
    (hs.length = total → hs.head?.map (·.1) = some earliest) →
    (LockoutsFit earliest (hs.length = total) previous ls hs →
      ∃ rest, vs.updateLockoutsLoop earliest total previous index ls hs toFilter =
          some (.ok (index + ls.length, rest,
            toFilter ++ indexesOf (vs.belowUnheld earliest) index ls)) ∧
        ∀ l ∈ ls.getLast?, earliest ≤ l.slot → ∃ pre h, hs = pre ++ (l.slot, h) :: rest) ∧
    (¬ LockoutsFit earliest (hs.length = total) previous ls hs →
      Rejects (index + ls.length)
        (vs.updateLockoutsLoop earliest total previous index ls hs toFilter)) := by
  fun_induction vs.updateLockoutsLoop earliest total previous index ls hs toFilter with
  | case1 previous index l rest a ah older toFilter hprev =>
    intro _ _ _ _
    exact ⟨fun hfit => absurd hfit (not_lockoutsFit_of_any hprev), fun _ => Or.inl ⟨_, rfl⟩⟩
  | case2 previous index l rest a ah older toFilter hprev hcmp hstart' hl ih =>
    intro hsorted hlow hlen hstart
    have hat : ((a, ah) :: older).length = total := by simpa using hstart'
    have hiff : LockoutsFit earliest (((a, ah) :: older).length = total) previous (l :: rest)
        ((a, ah) :: older) ↔
        LockoutsFit earliest (((a, ah) :: older).length = total) (some l.slot) rest
          ((a, ah) :: older) :=
      lockoutsFit_skip (all_lt_iff_not_any.mpr hprev) hat hl
    obtain ⟨ihFit, ihRej⟩ := ih hsorted hlow hlen hstart
    have hlen' : index + 1 + rest.length = index + (l :: rest).length := by
      simp only [List.length_cons]
      omega
    refine ⟨fun hfit => ?_, fun hnfit => hlen' ▸ ihRej (fun h => hnfit (hiff.mpr h))⟩
    obtain ⟨rest', hr, hlast⟩ := ihFit (hiff.mp hfit)
    refine ⟨rest', ?_, fun m hm hm' => ?_⟩
    · rw [dite_eq_ite] at hr
      rw [hr, hlen']
      -- the lockout is filtered out exactly when the votes do not hold it
      cases hc : vs.containsSlot l.slot <;> simp [indexesOf, belowUnheld, hl, hc]
    · by_cases hrest : rest = []
      · subst hrest
        simp only [List.getLast?_singleton, Option.mem_def, Option.some.injEq] at hm
        subst hm
        exact absurd hl (not_lt.mpr hm')
      · rw [List.getLast?_cons_of_ne_nil hrest] at hm
        exact hlast m hm hm'
  | case3 previous index l rest a ah older toFilter hprev hcmp hstart' hl =>
    -- at the start the next slot hash is the oldest: the assertion holds
    intro _ _ _ hstart
    have ha : a = earliest := by simpa using hstart (by simpa using hstart')
    exact absurd (ha ▸ compare_lt_iff_lt.mp hcmp) hl
  | case4 previous index l rest a ah older toFilter hprev hcmp hstart' =>
    intro hsorted _ _ _
    refine ⟨fun hfit => False.elim ?_, fun _ => Or.inl ⟨_, rfl⟩⟩
    have hla := compare_lt_iff_lt.mp hcmp
    rcases hfit.2 l List.mem_cons_self with ⟨hat, -⟩ | hin
    · exact hstart' (by simpa using hat)
    · simp only [List.map_cons, List.mem_cons] at hin
      rcases hin with heq | hin
      · exact absurd heq (ne_of_lt hla)
      · exact absurd hla (not_lt.mpr (List.rel_of_pairwise_cons hsorted hin).le)
  | case5 previous index l rest a ah older toFilter hprev hcmp ih =>
    intro hsorted hlow hlen hstart
    have hiff : LockoutsFit earliest (((a, ah) :: older).length = total) previous (l :: rest)
        ((a, ah) :: older) ↔ LockoutsFit earliest (older.length = total) previous (l :: rest) older :=
      lockoutsFit_pass (compare_gt_iff_gt.mp hcmp) (hlow (a, ah) List.mem_cons_self)
    have hlen' : older.length + 1 ≤ total := by simpa using hlen
    obtain ⟨ihFit, ihRej⟩ := ih hsorted.of_cons (fun x hx => hlow x (List.mem_cons_of_mem _ hx))
      (by omega) (fun h => absurd h (by omega))
    refine ⟨fun hfit => ?_, fun hnfit => ihRej (fun h => hnfit (hiff.mpr h))⟩
    obtain ⟨rest', hr, hlast⟩ := ihFit (hiff.mp hfit)
    refine ⟨rest', hr, fun m hm hm' => ?_⟩
    obtain ⟨pre, h, hpre⟩ := hlast m hm hm'
    exact ⟨(a, ah) :: pre, h, by rw [hpre]; rfl⟩
  | case6 previous index l rest a ah older toFilter hprev hcmp ih =>
    intro hsorted hlow hlen hstart
    obtain rfl : l.slot = a := compare_eq_iff_eq.mp hcmp
    have hea : earliest ≤ l.slot := hlow (l.slot, ah) List.mem_cons_self
    have hiff : LockoutsFit earliest (((l.slot, ah) :: older).length = total) previous (l :: rest)
        ((l.slot, ah) :: older) ↔ LockoutsFit earliest (older.length = total) (some l.slot) rest older :=
      lockoutsFit_match (all_lt_iff_not_any.mpr hprev) hea
    have hlen'' : older.length + 1 ≤ total := by simpa using hlen
    obtain ⟨ihFit, ihRej⟩ := ih hsorted.of_cons (fun x hx => hlow x (List.mem_cons_of_mem _ hx))
      (by omega) (fun h => absurd h (by omega))
    have hlen' : index + 1 + rest.length = index + (l :: rest).length := by
      simp only [List.length_cons]
      omega
    have hfilter : indexesOf (vs.belowUnheld earliest) index (l :: rest) =
        indexesOf (vs.belowUnheld earliest) (index + 1) rest := by
      simp [indexesOf, belowUnheld, not_lt.mpr hea]
    refine ⟨fun hfit => ?_, fun hnfit => hlen' ▸ ihRej (fun h => hnfit (hiff.mpr h))⟩
    obtain ⟨rest', hr, hlast⟩ := ihFit (hiff.mp hfit)
    refine ⟨rest', by rw [hr, hlen', hfilter], fun m hm hm' => ?_⟩
    by_cases hrest : rest = []
    · -- the last lockout is this one, matched by the slot hash just passed
      subst hrest
      rw [updateLockoutsLoop_nil] at hr
      simp only [Option.some.injEq, Except.ok.injEq, Prod.mk.injEq] at hr
      obtain ⟨-, hrest', -⟩ := hr
      subst hrest'
      simp only [List.getLast?_singleton, Option.mem_def, Option.some.injEq] at hm
      subst hm
      exact ⟨[], ah, rfl⟩
    · rw [List.getLast?_cons_of_ne_nil hrest] at hm
      obtain ⟨pre, h, hpre⟩ := hlast m hm hm'
      exact ⟨(l.slot, ah) :: pre, h, by rw [hpre]; rfl⟩
  | case7 previous index ls hs toFilter hnot =>
    intro _ _ _ _
    cases ls with
    | nil =>
      have hfit : LockoutsFit earliest (hs.length = total) previous [] hs :=
        ⟨by cases previous <;> simp, fun m hm => absurd hm List.not_mem_nil⟩
      exact ⟨fun _ => ⟨hs, by simp [indexesOf], fun m hm => by simp at hm⟩,
        fun hnfit => absurd hfit hnfit⟩
    | cons l rest =>
      cases hs with
      | cons x older => exact (hnot l rest x.1 x.2 older rfl rfl).elim
      | nil =>
        -- the slot hashes ran out before the lockouts
        refine ⟨fun hfit => ?_, fun _ => Or.inr ⟨index, [], toFilter, by simp, rfl⟩⟩
        rcases hfit.2 l List.mem_cons_self with ⟨hat, -⟩ | hin
        · simp only [List.length_nil] at hat
          omega
        · simp at hin

end Lockouts

section Root

variable (vs : VoteState) {earliest : Slot} {total : ℕ} {lockouts : List Lockout}

/-- A root at or above the oldest slot hash: the root iterations pass the slot hashes below it
and hand the lockout iterations the slot hashes from its match on; a root that is no slot hash
is rejected. -/
theorem updateRootLoop_spec (hne : lockouts ≠ []) {root : Slot} (hroot : earliest ≤ root)
    (hs : List (Slot × Hash)) :
    (hs.map (·.1)).Pairwise (· < ·) → (∀ x ∈ hs, earliest ≤ x.1) → hs.length ≤ total →
    (hs.length = total → hs.head?.map (·.1) = some earliest) →
    (root ∈ hs.map (·.1) → ∃ pre h rest, hs = pre ++ (root, h) :: rest ∧ (∀ x ∈ pre, x.1 < root) ∧
      vs.updateRootLoop earliest total lockouts root hs =
        vs.updateLockoutsLoop earliest total none 0 lockouts ((root, h) :: rest) []) ∧
    (root ∉ hs.map (·.1) →
      Rejects lockouts.length (vs.updateRootLoop earliest total lockouts root hs)) := by
  induction hs with
  | nil =>
    intro _ _ _ _
    refine ⟨fun h => absurd h List.not_mem_nil, fun _ => Or.inr ⟨0, [], [], ?_, rfl⟩⟩
    exact List.length_pos_of_ne_nil hne
  | cons x older ih =>
    obtain ⟨a, ah⟩ := x
    intro hsorted hlow hlen hstart
    rw [updateRootLoop, if_neg hne]
    rcases hcmp : compare root a with _ | _ | _
    · -- below the next slot hash, so below all that are left
      have hra : root < a := compare_lt_iff_lt.mp hcmp
      have hnot : root ∉ ((a, ah) :: older).map (·.1) := by
        simp only [List.map_cons, List.mem_cons, not_or]
        exact ⟨ne_of_lt hra, fun hin => absurd hra (not_lt.mpr (List.rel_of_pairwise_cons hsorted hin).le)⟩
      refine ⟨fun h => absurd h hnot, fun _ => ?_⟩
      by_cases hat : older.length + 1 = total
      · -- at the start the next slot hash is the oldest, which the root is not below
        have ha : a = earliest := by simpa using hstart (by simpa using hat)
        exact absurd hroot (not_le.mpr (ha ▸ hra))
      · dsimp only
        rw [if_neg hat]
        exact Or.inl ⟨_, rfl⟩
    · obtain rfl : root = a := compare_eq_iff_eq.mp hcmp
      refine ⟨fun _ => ⟨[], ah, older, rfl, fun x hx => absurd hx List.not_mem_nil, rfl⟩,
        fun hnot => absurd List.mem_cons_self hnot⟩
    · have har : a < root := compare_gt_iff_gt.mp hcmp
      have hlen' : older.length + 1 ≤ total := by simpa using hlen
      obtain ⟨ihIn, ihOut⟩ := ih hsorted.of_cons (fun x hx => hlow x (List.mem_cons_of_mem _ hx))
        (by omega) (fun h => absurd h (by omega))
      have hmem : root ∈ ((a, ah) :: older).map (·.1) ↔ root ∈ older.map (·.1) := by
        simp only [List.map_cons, List.mem_cons, or_iff_right_iff_imp]
        exact fun heq => absurd heq (ne_of_gt har)
      refine ⟨fun hin => ?_, fun hnot => ihOut (fun h => hnot (hmem.mpr h))⟩
      obtain ⟨pre, h, rest, hpre, hlt, hloop⟩ := ihIn (hmem.mp hin)
      refine ⟨(a, ah) :: pre, h, rest, by rw [hpre]; rfl, ?_, hloop⟩
      intro x hx
      rcases List.mem_cons.mp hx with rfl | hx
      · exact har
      · exact hlt x hx

lemma rootSlot_of_resetRoot {proposed : Option Slot} {root : Slot}
    (h : vs.resetRoot earliest proposed = some root) (hlt : root < earliest) :
    vs.rootSlot = some root := by
  cases proposed with
  | none => simp [resetRoot] at h
  | some r =>
    simp only [resetRoot] at h
    split_ifs at h with hr
    · exact h
    · simp only [Option.some.injEq] at h
      subst h
      exact absurd hlt hr

/-- A root older than every slot hash is the current root: the first iteration checks it
against the oldest slot hash and hands all the slot hashes to the lockout iterations. -/
lemma updateRootLoop_of_lt (hne : lockouts ≠ []) {root : Slot} (hcur : vs.rootSlot = some root)
    (hlt : root < earliest) {hs : List (Slot × Hash)} (hfull : hs.length = total)
    (hhead : hs.head?.map (·.1) = some earliest) :
    vs.updateRootLoop earliest total lockouts root hs =
      vs.updateLockoutsLoop earliest total none 0 lockouts hs [] := by
  cases hs with
  | nil => simp at hhead
  | cons x older =>
    obtain ⟨a, ah⟩ := x
    obtain rfl : a = earliest := by simpa using hhead
    have hat : older.length + 1 = total := by simpa using hfull
    rw [updateRootLoop, if_neg hne, compare_lt_iff_lt.mpr hlt]
    simp [hat, hlt, hcur]

/-- From its match on, the slot hashes left are those of the history not below the root. -/
lemma mem_cons_iff_of_suffix {root s : Slot} {h : Hash} {pre rest : List (Slot × Hash)}
    (hsorted : (((root, h) :: rest).map (·.1)).Pairwise (· < ·)) (hpre : ∀ x ∈ pre, x.1 < root) :
    s ∈ ((root, h) :: rest).map (·.1) ↔ s ∈ (pre ++ (root, h) :: rest).map (·.1) ∧ root ≤ s := by
  constructor
  · intro hs
    refine ⟨List.map_append ▸ List.mem_append_right _ hs, ?_⟩
    rcases List.mem_cons.mp hs with rfl | hs
    · exact le_rfl
    · exact (List.rel_of_pairwise_cons hsorted hs).le
  · rintro ⟨hs, hle⟩
    rw [List.map_append, List.mem_append] at hs
    rcases hs with hs | hs
    · obtain ⟨x, hx, rfl⟩ := List.mem_map.mp hs
      exact absurd (hpre x hx) (not_lt.mpr hle)
    · exact hs

/-- At the start, with no root or a root older than every slot hash, the lockout iterations
need exactly what the whole loop needs. -/
lemma lockoutsFit_iff_loopFits_of_start {atStart : Prop} (hat : atStart) {root : Option Slot}
    (hroot : root.all (· < earliest)) {hs : List (Slot × Hash)} :
    LockoutsFit earliest atStart none lockouts hs ↔
      LoopFits earliest root lockouts (hs.map (·.1)) := by
  have hle : ∀ s, earliest ≤ s → root.all (· ≤ s) := fun s hs => by
    cases root with
    | none => rfl
    | some r => simpa using ((by simpa using hroot : r < earliest).trans_le hs).le
  simp only [LockoutsFit, LoopFits, Option.toList_none, List.nil_append]
  constructor
  · rintro ⟨hpw, hmem⟩
    refine ⟨hpw, fun l hl hel => ⟨?_, hle _ hel⟩, fun _ _ _ => hle _ le_rfl, ?_⟩
    · rcases hmem l hl with ⟨-, hlt⟩ | hin
      · exact absurd hlt (not_lt.mpr hel)
      · exact hin
    · cases root with
      | none => rfl
      | some r => simpa using Or.inl (by simpa using hroot)
  · rintro ⟨hpw, hrec, -, -⟩
    refine ⟨hpw, fun l hl => ?_⟩
    by_cases hlt : l.slot < earliest
    · exact Or.inl ⟨hat, hlt⟩
    · exact Or.inr (hrec l hl (not_lt.mp hlt)).1

/-- From the match of a root, the lockout iterations need exactly what the whole loop needs. -/
lemma lockoutsFit_iff_loopFits_of_match {atStart : Prop} {root : Slot}
    (hat : atStart ↔ root ≤ earliest) {pre rest : List (Slot × Hash)} {h : Hash}
    (hsorted : (((root, h) :: rest).map (·.1)).Pairwise (· < ·)) (hpre : ∀ x ∈ pre, x.1 < root) :
    LockoutsFit earliest atStart none lockouts ((root, h) :: rest) ↔
      LoopFits earliest (some root) lockouts ((pre ++ (root, h) :: rest).map (·.1)) := by
  have hmem : ∀ s, s ∈ ((root, h) :: rest).map (·.1) ↔
      s ∈ (pre ++ (root, h) :: rest).map (·.1) ∧ root ≤ s :=
    fun _ => mem_cons_iff_of_suffix hsorted hpre
  simp only [LockoutsFit, LoopFits, Option.toList_none, List.nil_append, Option.all_some,
    decide_eq_true_eq]
  constructor
  · rintro ⟨hpw, hfit⟩
    refine ⟨hpw, fun l hl hel => ?_, fun l hl hlt => ?_, Or.inr ((hmem root).mp
      List.mem_cons_self).1⟩
    · rcases hfit l hl with ⟨-, hlt⟩ | hin
      · exact absurd hlt (not_lt.mpr hel)
      · exact (hmem _).mp hin
    · rcases hfit l hl with ⟨hstart, -⟩ | hin
      · exact hat.mp hstart
      · exact ((hmem _).mp hin).2.trans hlt.le
  · rintro ⟨hpw, hrec, hold, -⟩
    refine ⟨hpw, fun l hl => ?_⟩
    by_cases hlt : l.slot < earliest
    · exact Or.inl ⟨hat.mpr (hold l hl hlt), hlt⟩
    · exact Or.inr ((hmem _).mpr (hrec l hl (not_lt.mp hlt)))

lemma total_pos_of_head {hs : List (Slot × Hash)} (hfull : hs.length = total)
    (hhead : hs.head?.map (·.1) = some earliest) : 0 < total := by
  cases hs with
  | nil => simp at hhead
  | cons x older => simp [← hfull]

/-- The lockout iterations from the start of the slot hashes, with no root or a root older than
every slot hash. -/
lemma updateLockoutsLoop_start_spec {root : Option Slot} (hroot : root.all (· < earliest))
    {hs : List (Slot × Hash)} (hsorted : (hs.map (·.1)).Pairwise (· < ·))
    (hlow : ∀ x ∈ hs, earliest ≤ x.1) (hfull : hs.length = total)
    (hhead : hs.head?.map (·.1) = some earliest) :
    (LoopFits earliest root lockouts (hs.map (·.1)) →
      ∃ rest, vs.updateLockoutsLoop earliest total none 0 lockouts hs [] =
          some (.ok (lockouts.length, rest, indexesOf (vs.belowUnheld earliest) 0 lockouts)) ∧
        ∀ l ∈ lockouts.getLast?, earliest ≤ l.slot → ∃ pre h, hs = pre ++ (l.slot, h) :: rest) ∧
    (¬ LoopFits earliest root lockouts (hs.map (·.1)) →
      Rejects lockouts.length (vs.updateLockoutsLoop earliest total none 0 lockouts hs [])) := by
  have hiff : LockoutsFit earliest (hs.length = total) none lockouts hs ↔
      LoopFits earliest root lockouts (hs.map (·.1)) :=
    lockoutsFit_iff_loopFits_of_start hfull hroot
  obtain ⟨hfit, hrej⟩ := vs.updateLockoutsLoop_spec total (total_pos_of_head hfull hhead) none 0
    lockouts hs [] hsorted hlow hfull.le (fun _ => hhead)
  simp only [Nat.zero_add, List.nil_append] at hfit hrej
  exact ⟨fun h => hfit (hiff.mpr h), fun h => hrej (fun h' => h (hiff.mp h'))⟩

/-- The loop accepts exactly the lockouts and root that fit: then it reaches the end of the
lockouts with the indexes of those to filter out, and leaves the slot hashes after the match of
the last lockout; otherwise it rejects. -/
theorem updateLoop_spec (hne : lockouts ≠ []) {root : Option Slot}
    (hroot : ∀ r ∈ root, r < earliest → vs.rootSlot = some r) {hs : List (Slot × Hash)}
    (hsorted : (hs.map (·.1)).Pairwise (· < ·)) (hlow : ∀ x ∈ hs, earliest ≤ x.1)
    (hfull : hs.length = total) (hhead : hs.head?.map (·.1) = some earliest) :
    (LoopFits earliest root lockouts (hs.map (·.1)) →
      ∃ rest, vs.updateLoop earliest total lockouts root hs =
          some (.ok (lockouts.length, rest, indexesOf (vs.belowUnheld earliest) 0 lockouts)) ∧
        ∀ l ∈ lockouts.getLast?, earliest ≤ l.slot → ∃ pre h, hs = pre ++ (l.slot, h) :: rest) ∧
    (¬ LoopFits earliest root lockouts (hs.map (·.1)) →
      Rejects lockouts.length (vs.updateLoop earliest total lockouts root hs)) := by
  have htotal := total_pos_of_head hfull hhead
  cases root with
  | none => exact vs.updateLockoutsLoop_start_spec rfl hsorted hlow hfull hhead
  | some r =>
    by_cases hlt : r < earliest
    · rw [updateLoop, updateRootLoop_of_lt vs hne (hroot r rfl hlt) hlt hfull hhead]
      exact vs.updateLockoutsLoop_start_spec (by simpa using hlt) hsorted hlow hfull hhead
    have hle : earliest ≤ r := not_lt.mp hlt
    obtain ⟨hin, hout⟩ := vs.updateRootLoop_spec hne hle hs hsorted hlow hfull.le (fun _ => hhead)
    by_cases hr : r ∉ hs.map (·.1)
    · refine ⟨fun hfit => absurd hfit.2.2.2 ?_, fun _ => hout hr⟩
      simp only [Option.all_some, decide_eq_true_eq, not_or]
      exact ⟨hlt, hr⟩
    obtain ⟨pre, h, rest, rfl, hpre, hloop⟩ := hin (not_not.mp hr)
    rw [updateLoop, hloop]
    -- the slot hashes from the match of the root on are what the lockout iterations assume
    have hsorted' : (((r, h) :: rest).map (·.1)).Pairwise (· < ·) := by
      rw [List.map_append, List.pairwise_append] at hsorted
      exact hsorted.2.1
    have hpreNil : pre = [] ↔ r ≤ earliest := by
      constructor
      · rintro rfl
        have hre : r = earliest := by simpa using hhead
        exact hre.le
      · intro hre
        cases pre with
        | nil => rfl
        | cons x pre' =>
          exact absurd (hlow x (by simp)) (not_le.mpr ((hpre x List.mem_cons_self).trans_le hre))
    have hat : ((r, h) :: rest).length = total ↔ r ≤ earliest := by
      rw [← hpreNil, ← hfull, List.length_append, ← List.length_eq_zero_iff]
      constructor <;> intro <;> omega
    have hiff : LockoutsFit earliest (((r, h) :: rest).length = total) none lockouts ((r, h) :: rest) ↔
        LoopFits earliest (some r) lockouts ((pre ++ (r, h) :: rest).map (·.1)) :=
      lockoutsFit_iff_loopFits_of_match hat hsorted' hpre
    obtain ⟨hfit, hrej⟩ := vs.updateLockoutsLoop_spec total htotal none 0 lockouts ((r, h) :: rest)
      [] hsorted' (fun x hx => hlow x (List.mem_append_right _ hx))
      (by rw [← hfull, List.length_append]; omega)
      (fun hlen => by simpa using le_antisymm (hat.mp hlen) hle)
    simp only [Nat.zero_add, List.nil_append] at hfit hrej
    refine ⟨fun hfit' => ?_, fun hnfit => hrej (fun h' => hnfit (hiff.mp h'))⟩
    obtain ⟨rest', hr', hlast⟩ := hfit (hiff.mpr hfit')
    refine ⟨rest', hr', fun l hl hel => ?_⟩
    obtain ⟨pre', h', hpre'⟩ := hlast l hl hel
    exact ⟨pre ++ pre', h', by rw [hpre', List.append_assoc]⟩

end Root

/-! ### The filter -/

lemma le_of_mem_indexesOf {α : Type*} {p : α → Bool} {k : ℕ} (as : List α) :
    ∀ {index : ℕ}, k ∈ indexesOf p index as → index ≤ k := by
  induction as with
  | nil => exact fun h => absurd h List.not_mem_nil
  | cons a as ih =>
    intro index h
    rw [indexesOf, List.mem_append] at h
    rcases h with h | h
    · split_ifs at h
      · exact (List.mem_singleton.mp h).ge
      · exact absurd h List.not_mem_nil
    · exact Nat.le_of_succ_le (ih h)

lemma retainUnfiltered_cons_of_lt {α : Type*} {ks : List ℕ} {index : ℕ} (a : α) (as : List α)
    (h : ∀ k ∈ ks, index < k) :
    retainUnfiltered ks index (a :: as) = a :: retainUnfiltered ks (index + 1) as := by
  cases ks with
  | nil => rw [retainUnfiltered]
  | cons k ks => rw [retainUnfiltered, if_neg (ne_of_lt (h k List.mem_cons_self))]

/-- Retaining by the indexes of the elements `p` holds of drops exactly those elements. -/
lemma retainUnfiltered_indexesOf {α : Type*} (p : α → Bool) (as : List α) (index : ℕ) :
    retainUnfiltered (indexesOf p index as) index as = as.filter (fun a => !p a) := by
  induction as generalizing index with
  | nil => cases h : indexesOf p index [] <;> rfl
  | cons a as ih =>
    have hlt : ∀ k ∈ indexesOf p (index + 1) as, index < k := fun k hk => le_of_mem_indexesOf as hk
    cases hp : p a
    · simp only [indexesOf, hp, Bool.false_eq_true, if_false, List.nil_append]
      rw [retainUnfiltered_cons_of_lt a as hlt, ih, List.filter_cons_of_pos (by simp [hp])]
    · simp only [indexesOf, hp, if_true, List.singleton_append]
      rw [retainUnfiltered, if_pos rfl, ih, List.filter_cons_of_neg (by simp [hp])]

/-- On sorted votes the binary search finds a slot exactly when a vote holds it. -/
lemma containsSlot_iff (vs : VoteState) (hvotes : vs.votes.Pairwise (fun a b => a.slot ≤ b.slot))
    (s : Slot) : vs.containsSlot s = true ↔ ∃ v ∈ vs.votes, v.slot = s :=
  BinarySearch.isOk_searchBy_iff hvotes

/-! ### The check -/

section Check

variable {slotHashes : List (Slot × Hash)}

/-- Slot hashes strictly decreasing, read from the oldest, are what the loop assumes: increasing,
none older than the oldest, and the oldest first. -/
lemma reverse_slotHashes (hsorted : (slotHashes.map (·.1)).Pairwise (· > ·)) {earliest : Slot}
    {eh : Hash} (hlast : slotHashes.getLast? = some (earliest, eh)) :
    (slotHashes.reverse.map (·.1)).Pairwise (· < ·) ∧ (∀ x ∈ slotHashes.reverse, earliest ≤ x.1) ∧
      slotHashes.reverse.head?.map (·.1) = some earliest := by
  obtain ⟨init, rfl⟩ := List.getLast?_eq_some_iff.mp hlast
  refine ⟨by rw [List.map_reverse, List.pairwise_reverse]; exact hsorted, fun x hx => ?_, by simp⟩
  rw [List.map_append, List.pairwise_append] at hsorted
  rcases List.mem_append.mp (List.mem_reverse.mp hx) with hx | hx
  · exact (hsorted.2.2 _ (List.mem_map_of_mem hx) _ List.mem_cons_self).le
  · rw [List.mem_singleton.mp hx]

/-- The slot hash just before what the loop leaves, in the history newest first. -/
lemma getElem?_length_of_reverse_eq {pre rest : List (Slot × Hash)} {x : Slot × Hash}
    (h : slotHashes.reverse = pre ++ x :: rest) : slotHashes[rest.length]? = some x := by
  rw [← List.reverse_reverse slotHashes, h]
  simp

/-- The updates the check accepts against slot hashes whose oldest slot is `earliest`: the last
lockout is newer than the last vote, not older than `earliest`, and recorded in the slot hashes
with the update's hash; and the lockouts and the root, reset when older than `earliest`, fit the
slots of the slot hashes. -/
def UpdateFits (vs : VoteState) (update : VoteStateUpdate) (slotHashes : List (Slot × Hash))
    (earliest : Slot) : Prop :=
  (∃ last ∈ update.lockouts.getLast?, vs.lastVotedSlot.all (· < last.slot) ∧
      earliest ≤ last.slot ∧ (last.slot, update.hash) ∈ slotHashes) ∧
    LoopFits earliest (vs.resetRoot earliest update.root) update.lockouts (slotHashes.map (·.1))

lemma error_spec {e : VoteError} {P : VoteStateUpdate → Prop} (h : ∀ u, ¬ P u) :
    (some (.error e) : Option (Except VoteError VoteStateUpdate)) ≠ none ∧
      ∀ u, (some (.error e) : Option (Except VoteError VoteStateUpdate)) = some (.ok u) ↔ P u :=
  ⟨Option.some_ne_none _, fun u => ⟨fun h' => absurd h' (by simp), fun hp => absurd hp (h u)⟩⟩

/-- On slot hashes strictly decreasing and sorted votes the check never panics, and accepts
exactly the updates that fit, with the root reset and the lockouts below the oldest slot hash
that no vote holds filtered out. -/
theorem check_update_vote_state_slots_are_valid_decides_fit (vs : VoteState)
    (update : VoteStateUpdate) (slotHashes : List (Slot × Hash))
    (hsorted : (slotHashes.map (·.1)).Pairwise (· > ·))
    (hvotes : vs.votes.Pairwise (fun a b => a.slot ≤ b.slot)) :
    vs.checkUpdateVoteStateSlotsAreValid update slotHashes ≠ none ∧
      ∀ update', vs.checkUpdateVoteStateSlotsAreValid update slotHashes = some (.ok update') ↔
        ∃ earliest ∈ slotHashes.getLast?.map (·.1), vs.UpdateFits update slotHashes earliest ∧
          update' = { update with
            root := vs.resetRoot earliest update.root
            lockouts := update.lockouts.filter fun l =>
              decide (earliest ≤ l.slot ∨ ∃ v ∈ vs.votes, v.slot = l.slot) } := by
  cases hlast : update.lockouts.getLast? with
  | none =>
    simp only [checkUpdateVoteStateSlotsAreValid, hlast]
    refine error_spec fun u' => ?_
    rintro ⟨earliest, -, ⟨⟨last, hl, -⟩, -⟩, -⟩
    simp [hlast] at hl
  | some last =>
  -- what an update that fits says of its last lockout
  have hfits : ∀ earliest, vs.UpdateFits update slotHashes earliest →
      vs.lastVotedSlot.all (· < last.slot) ∧ earliest ≤ last.slot ∧
        (last.slot, update.hash) ∈ slotHashes := by
    rintro earliest ⟨⟨last', hlast', hfit⟩, -⟩
    obtain rfl : last = last' := Option.some.inj (hlast.symm.trans hlast')
    exact hfit
  by_cases hold : vs.lastVotedSlot.any (last.slot ≤ ·)
  · simp only [checkUpdateVoteStateSlotsAreValid, hlast, hold, if_true]
    refine error_spec fun u' => ?_
    rintro ⟨earliest, -, hfit, -⟩
    exact all_lt_iff_not_any.mp (hfits earliest hfit).1 hold
  cases hsh : slotHashes.getLast? with
  | none =>
    simp only [checkUpdateVoteStateSlotsAreValid, hlast, hold, hsh, Bool.false_eq_true, if_false]
    refine error_spec fun u' => ?_
    rintro ⟨earliest, hE, -⟩
    simp at hE
  | some eh =>
  obtain ⟨earliest, eh⟩ := eh
  have hE : ∀ e, e ∈ (some (earliest, eh)).map (·.1) ↔ e = earliest := by simp [eq_comm]
  simp only [hE, exists_eq_left]
  by_cases hlt : last.slot < earliest
  · simp only [checkUpdateVoteStateSlotsAreValid, hlast, hold, hsh, hlt, Bool.false_eq_true,
      if_false, if_true]
    refine error_spec fun u' => ?_
    rintro ⟨hfit, -⟩
    exact absurd (hfits earliest hfit).2.1 (not_le.mpr hlt)
  simp only [checkUpdateVoteStateSlotsAreValid, hlast, hold, hsh, hlt, Bool.false_eq_true,
    if_false]
  -- the loop, over the slot hashes from the oldest
  have hne : update.lockouts ≠ [] := fun h => by simp [h] at hlast
  obtain ⟨hsortedH, hlowH, hheadH⟩ := reverse_slotHashes hsorted hsh
  have hslots : ∀ s, s ∈ slotHashes.reverse.map (·.1) ↔ s ∈ slotHashes.map (·.1) := by simp
  have hroot : ∀ r ∈ vs.resetRoot earliest update.root, r < earliest → vs.rootSlot = some r :=
    fun _ hr hlt => vs.rootSlot_of_resetRoot hr hlt
  obtain ⟨hfit, hrej⟩ := vs.updateLoop_spec hne hroot hsortedH hlowH List.length_reverse hheadH
  rw [loopFits_congr hslots] at hfit hrej
  by_cases hf : LoopFits earliest (vs.resetRoot earliest update.root) update.lockouts
    (slotHashes.map (·.1))
  swap
  · -- rejected by the loop
    rcases hrej hf with ⟨e, he⟩ | ⟨i, rest, toFilter, hi, he⟩
    · rw [he]
      exact error_spec fun _ h => hf h.1.2
    · rw [he]
      simp only [Option.bind_some, ne_eq, Nat.ne_of_lt hi, not_false_eq_true, if_true]
      exact error_spec fun _ h => hf h.1.2
  obtain ⟨rest, hloop, hmatch⟩ := hfit hf
  obtain ⟨pre, h, hpre⟩ := hmatch last hlast (not_lt.mp hlt)
  rw [hloop]
  simp only [Option.bind_some, ne_eq, not_true_eq_false, if_false,
    getElem?_length_of_reverse_eq hpre]
  -- the slot hash matched by the last lockout, and its hash
  have hmem : (last.slot, h) ∈ slotHashes := by
    rw [← List.mem_reverse, hpre]
    simp
  have hhash : (last.slot, update.hash) ∈ slotHashes ↔ h = update.hash :=
    mem_slotHashes_iff slotHashes hsorted hmem update.hash
  by_cases hh : h = update.hash
  swap
  · rw [if_pos hh]
    exact error_spec fun _ hu => hh (hhash.mp (hfits earliest hu.1).2.2)
  rw [if_neg (not_not.mpr hh)]
  have hfilter : retainUnfiltered (indexesOf (vs.belowUnheld earliest) 0 update.lockouts) 0
      update.lockouts = update.lockouts.filter fun l =>
        decide (earliest ≤ l.slot ∨ ∃ v ∈ vs.votes, v.slot = l.slot) := by
    rw [retainUnfiltered_indexesOf]
    refine List.filter_congr fun l _ => ?_
    have hc : vs.containsSlot l.slot = decide (∃ v ∈ vs.votes, v.slot = l.slot) := by
      rw [Bool.eq_iff_iff, containsSlot_iff vs hvotes, decide_eq_true_iff]
    have hd : (!decide (l.slot < earliest)) = decide (earliest ≤ l.slot) := by
      rw [← decide_not]
      simp only [not_lt]
    simp only [belowUnheld, Bool.not_and, Bool.not_not, hc, hd, Bool.decide_or]
  have hupdate : vs.UpdateFits update slotHashes earliest :=
    ⟨⟨last, hlast, all_lt_iff_not_any.mpr hold, not_lt.mp hlt, hhash.mpr hh⟩, hf⟩
  rw [hfilter]
  refine ⟨Option.some_ne_none _, fun u' => ?_⟩
  simp only [Option.some.injEq, Except.ok.injEq, hupdate, true_and]
  exact eq_comm

/-- Slot hashes of slots 6, 5 and 4: the root 0 stays the current root, the lockout 1 that the
votes hold is kept, the lockout 2 they do not hold is filtered out, and the last lockout 5 is
matched with the update's hash. -/
theorem check_update_accepts_update_filtering_unheld_slot :
    (([(6, 7), (5, 0), (4, 0)] : List (Slot × Hash)).map (·.1)).Pairwise (· > ·) ∧
      ([⟨1, 4⟩] : List Lockout).Pairwise (fun a b => a.slot ≤ b.slot) ∧
      (⟨[⟨1, 4⟩], some 0, [], ⟨0, 0⟩⟩ : VoteState).checkUpdateVoteStateSlotsAreValid
          ⟨[⟨1, 3⟩, ⟨2, 2⟩, ⟨5, 1⟩], some 0, 0, none⟩ [(6, 7), (5, 0), (4, 0)] ≠ none ∧
      ∀ update', (⟨[⟨1, 4⟩], some 0, [], ⟨0, 0⟩⟩ : VoteState).checkUpdateVoteStateSlotsAreValid
          ⟨[⟨1, 3⟩, ⟨2, 2⟩, ⟨5, 1⟩], some 0, 0, none⟩ [(6, 7), (5, 0), (4, 0)] = some (.ok update') ↔
        ∃ earliest ∈ ([(6, 7), (5, 0), (4, 0)] : List (Slot × Hash)).getLast?.map (·.1),
          (⟨[⟨1, 4⟩], some 0, [], ⟨0, 0⟩⟩ : VoteState).UpdateFits
              ⟨[⟨1, 3⟩, ⟨2, 2⟩, ⟨5, 1⟩], some 0, 0, none⟩ [(6, 7), (5, 0), (4, 0)] earliest ∧
            update' = { (⟨[⟨1, 3⟩, ⟨2, 2⟩, ⟨5, 1⟩], some 0, 0, none⟩ : VoteStateUpdate) with
              root := (⟨[⟨1, 4⟩], some 0, [], ⟨0, 0⟩⟩ : VoteState).resetRoot earliest (some 0)
              lockouts := ([⟨1, 3⟩, ⟨2, 2⟩, ⟨5, 1⟩] : List Lockout).filter fun l =>
                decide (earliest ≤ l.slot ∨ ∃ v ∈ [(⟨1, 4⟩ : Lockout)], v.slot = l.slot) } :=
  have hsorted : (([(6, 7), (5, 0), (4, 0)] : List (Slot × Hash)).map (·.1)).Pairwise (· > ·) := by
    decide
  have hvotes : ([⟨1, 4⟩] : List Lockout).Pairwise (fun a b => a.slot ≤ b.slot) := by decide
  ⟨hsorted, hvotes, check_update_vote_state_slots_are_valid_decides_fit _ _ _ hsorted hvotes⟩

example : (⟨[⟨1, 4⟩], some 0, [], ⟨0, 0⟩⟩ : VoteState).checkUpdateVoteStateSlotsAreValid
    ⟨[⟨1, 3⟩, ⟨2, 2⟩, ⟨5, 1⟩], some 0, 0, none⟩ [(6, 7), (5, 0), (4, 0)] =
      some (.ok ⟨[⟨1, 3⟩, ⟨5, 1⟩], some 0, 0, none⟩) := by
  decide +kernel

end Check

end VoteState

end VelasChain.VoteProgram
