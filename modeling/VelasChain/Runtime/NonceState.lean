import VelasChain.Runtime.StatusCache
import Mathlib.Logic.Relation

/-!
# Nonce accounts

The state of a nonce account (`sdk/program/src/nonce/state`) and the check a durable
transaction makes of it (`nonce_account::verify_nonce_account`). An account's data is modelled
as what `state::<Versions>` reads from it: the nonce versions, or `none` when the data does not
deserialize. `hashDurableNonce b` stands for `hashv(&[DURABLE_NONCE_HASH_PREFIX, b])`.

What the replay protection rests on is the durable nonce a system-owned account holds
(`Account.storedNonce`). Every write the runtime makes changes it by a `NonceStep`: drop it,
advance it to the durable nonce of the current blockhash, or upgrade a legacy one into its own
domain. An invariant of durable nonces (`NonceOk`) that the advanced nonce satisfies and that
upgrading keeps (`NonceOk.Closed`) then holds after any run of such writes (`NonceOk.run`).
-/

namespace VelasChain.Runtime.Nonce

/-- `nonce::state::Data`, its fee calculator given by its lamports per signature. -/
structure Data (Key : Type) where
  authority : Key
  durableNonce : Hash
  lamportsPerSignature : ℕ
  deriving DecidableEq, Repr

/-- `nonce::state::State`. -/
inductive State (Key : Type) where
  | uninitialized
  | initialized (data : Data Key)
  deriving DecidableEq, Repr

/-- `nonce::state::Versions`: a legacy nonce is a blockhash, a current one is in its own
domain. -/
inductive Versions (Key : Type) where
  | legacy (state : State Key)
  | current (state : State Key)
  deriving DecidableEq, Repr

/-- `State::size()`, the serialized size of the versions. -/
def stateSize : ℕ := 80

/-- `DurableNonce::from_blockhash`. -/
def durableNonceFromBlockhash (hashDurableNonce : Hash → Hash) (blockhash : Hash)
    (separateDomains : Bool) : Hash :=
  if separateDomains then hashDurableNonce blockhash else blockhash

variable {Key : Type}

/-- The check of `Versions::verify_recent_blockhash` on the state. -/
def State.verifyRecentBlockhash (recentBlockhash : Hash) : State Key → Option (Data Key)
  | .uninitialized => none
  | .initialized data => if recentBlockhash = data.durableNonce then some data else none

namespace Versions

/-- `Versions::new`. -/
def new (state : State Key) (separateDomains : Bool) : Versions Key :=
  if separateDomains then .current state else .legacy state

/-- `Versions::state`. -/
def state : Versions Key → State Key
  | .legacy state => state
  | .current state => state

/-- `Versions::separate_domains`. -/
def separateDomains : Versions Key → Bool
  | .legacy _ => false
  | .current _ => true

/-- `Versions::verify_recent_blockhash`: legacy nonces do not verify once the domains are
separate. -/
def verifyRecentBlockhash (versions : Versions Key) (recentBlockhash : Hash)
    (separateDomains : Bool) : Option (Data Key) :=
  match versions with
  | .legacy state => if separateDomains then none else state.verifyRecentBlockhash recentBlockhash
  | .current state => state.verifyRecentBlockhash recentBlockhash

/-- `Versions::upgrade`: a legacy nonce moves into its own domain. -/
def upgrade (hashDurableNonce : Hash → Hash) : Versions Key → Option (Versions Key)
  | .legacy .uninitialized => none
  | .legacy (.initialized data) => some (.current (.initialized
      { data with durableNonce := durableNonceFromBlockhash hashDurableNonce data.durableNonce true }))
  | .current _ => none

/-- The durable nonce the versions hold, with whether it is in its own domain. -/
def durableNonce : Versions Key → Option (Bool × Hash)
  | .legacy (.initialized data) => some (false, data.durableNonce)
  | .current (.initialized data) => some (true, data.durableNonce)
  | _ => none

@[simp] lemma durableNonce_new_initialized (data : Data Key) (separateDomains : Bool) :
    (new (.initialized data) separateDomains).durableNonce =
      some (separateDomains, data.durableNonce) := by
  cases separateDomains <;> rfl

@[simp] lemma durableNonce_new_uninitialized (separateDomains : Bool) :
    (new (.uninitialized : State Key) separateDomains).durableNonce = none := by
  cases separateDomains <;> rfl

/-- A verified nonce is the durable nonce the versions hold, in its own domain once the domains
are separate. -/
lemma durableNonce_of_verifyRecentBlockhash {versions : Versions Key} {recentBlockhash : Hash}
    {separateDomains : Bool} {data : Data Key}
    (h : versions.verifyRecentBlockhash recentBlockhash separateDomains = some data) :
    ∃ separate, versions.durableNonce = some (separate, recentBlockhash) ∧
      (separateDomains = true → separate = true) := by
  cases versions with
  | legacy state =>
    cases separateDomains
    · cases state with
      | uninitialized => cases h
      | initialized d =>
        simp only [verifyRecentBlockhash, State.verifyRecentBlockhash, Bool.false_eq_true,
          if_false] at h
        split_ifs at h with heq
        exact ⟨false, by simp [durableNonce, heq], by simp⟩
    · simp [verifyRecentBlockhash] at h
  | current state =>
    cases state with
    | uninitialized => cases h
    | initialized d =>
      simp only [verifyRecentBlockhash, State.verifyRecentBlockhash] at h
      split_ifs at h with heq
      exact ⟨true, by simp [durableNonce, heq], fun _ => rfl⟩

/-- An initialized state holds its durable nonce, in the domain of its version. -/
lemma durableNonce_of_state {versions : Versions Key} {data : Data Key}
    (h : versions.state = .initialized data) :
    versions.durableNonce = some (versions.separateDomains, data.durableNonce) := by
  cases versions <;> simp_all [state, durableNonce, separateDomains]

/-- Upgrading moves a legacy durable nonce into its own domain. -/
lemma durableNonce_upgrade {hashDurableNonce : Hash → Hash} {versions versions' : Versions Key}
    (h : versions.upgrade hashDurableNonce = some versions') :
    ∃ d, versions.durableNonce = some (false, d) ∧
      versions'.durableNonce = some (true, hashDurableNonce d) := by
  match versions, h with
  | .legacy (.initialized data), h =>
    simp only [upgrade, Option.some.injEq] at h
    subst h
    exact ⟨data.durableNonce, rfl, rfl⟩

end Versions

/-- `AccountSharedData`, its data read as nonce versions. -/
structure Account (Key : Type) where
  lamports : ℕ
  owner : Key
  dataLen : ℕ
  data : Option (Versions Key)
  deriving DecidableEq, Repr

variable [DecidableEq Key]

/-- The durable nonce a system-owned account holds; an account of another owner holds none. -/
def Account.storedNonce (systemProgramId : Key) (account : Account Key) : Option (Bool × Hash) :=
  if account.owner = systemProgramId then account.data.bind Versions.durableNonce else none

/-- `nonce_account::verify_nonce_account`. -/
def verifyNonceAccount (systemProgramId : Key) (account : Account Key) (recentBlockhash : Hash)
    (separateDomains : Bool) : Option (Data Key) :=
  if account.owner = systemProgramId then
    account.data.bind fun versions => versions.verifyRecentBlockhash recentBlockhash separateDomains
  else none

/-- Once the domains are separate, an account verifies a durable transaction only if it holds
the transaction's blockhash as a current durable nonce. -/
theorem storedNonce_of_verifyNonceAccount {systemProgramId : Key} {account : Account Key}
    {recentBlockhash : Hash} {data : Data Key}
    (h : verifyNonceAccount systemProgramId account recentBlockhash true = some data) :
    account.storedNonce systemProgramId = some (true, recentBlockhash) := by
  unfold verifyNonceAccount at h
  split_ifs at h with howner
  obtain ⟨versions, hdata, hverify⟩ := Option.bind_eq_some_iff.mp h
  obtain ⟨separate, hnonce, hsep⟩ := Versions.durableNonce_of_verifyRecentBlockhash hverify
  rw [hsep rfl] at hnonce
  simp [Account.storedNonce, howner, hdata, hnonce]

/-- The durable nonce held by the account at a position of a list, none past its end. -/
def nonceAt (systemProgramId : Key) (accounts : List (Account Key)) (i : ℕ) :
    Option (Bool × Hash) :=
  (accounts[i]?).bind fun account => account.storedNonce systemProgramId

lemma nonceAt_set (systemProgramId : Key) (accounts : List (Account Key)) (i j : ℕ)
    (account : Account Key) :
    nonceAt systemProgramId (accounts.set j account) i =
      if i = j ∧ j < accounts.length then account.storedNonce systemProgramId
      else nonceAt systemProgramId accounts i := by
  unfold nonceAt
  by_cases hij : i = j
  · subst hij
    by_cases hlt : i < accounts.length
    · simp [hlt]
    · simp [hlt]
  · simp [hij, List.getElem?_set_ne (Ne.symm hij)]

/-! ### What a write can do to a durable nonce -/

/-- What one write of the runtime can do to the durable nonce an account holds: drop it,
advance it to `next` (the durable nonce of the current blockhash, with its domain), or upgrade a
legacy nonce into its own domain. -/
inductive NonceStep (hashDurableNonce : Hash → Hash) (next : Bool × Hash) :
    Option (Bool × Hash) → Option (Bool × Hash) → Prop
  | drop (n) : NonceStep hashDurableNonce next n none
  | advance (n) : NonceStep hashDurableNonce next n (some next)
  | upgrade (d) : NonceStep hashDurableNonce next (some (false, d)) (some (true, hashDurableNonce d))

/-- An invariant of durable nonces: a legacy one satisfies `legacyOk`, a current one
`currentOk`. -/
def NonceOk (legacyOk currentOk : Hash → Prop) : Option (Bool × Hash) → Prop
  | some (false, d) => legacyOk d
  | some (true, d) => currentOk d
  | none => True

/-- The writes advancing to `next` keep `NonceOk` when `next` satisfies it and upgrading a
legacy nonce does. -/
structure NonceOk.Closed (legacyOk currentOk : Hash → Prop) (hashDurableNonce : Hash → Hash)
    (next : Bool × Hash) : Prop where
  advance : NonceOk legacyOk currentOk (some next)
  upgrade : ∀ d, legacyOk d → currentOk (hashDurableNonce d)

section Closed

variable {legacyOk currentOk : Hash → Prop} {hashDurableNonce : Hash → Hash} {next : Bool × Hash}

omit [DecidableEq Key] in
theorem NonceOk.step (hc : NonceOk.Closed legacyOk currentOk hashDurableNonce next)
    {n n' : Option (Bool × Hash)} (h : NonceStep hashDurableNonce next n n')
    (hn : NonceOk legacyOk currentOk n) : NonceOk legacyOk currentOk n' := by
  cases h with
  | drop => trivial
  | advance => exact hc.advance
  | upgrade d => exact hc.upgrade d hn

omit [DecidableEq Key] in
/-- A run of writes keeps a closed invariant. -/
theorem NonceOk.run (hc : NonceOk.Closed legacyOk currentOk hashDurableNonce next)
    {n n' : Option (Bool × Hash)} (h : Relation.ReflTransGen (NonceStep hashDurableNonce next) n n')
    (hn : NonceOk legacyOk currentOk n) : NonceOk legacyOk currentOk n' := by
  induction h with
  | refl => exact hn
  | tail _ hstep ih => exact NonceOk.step hc hstep ih

end Closed

/-- How the durable nonces of a transaction's accounts moved from one list to another: the
list keeps its length and each position's nonce moved by steps of `step`. -/
def NonceRun (systemProgramId : Key) (step : Option (Bool × Hash) → Option (Bool × Hash) → Prop)
    (accounts accounts' : List (Account Key)) : Prop :=
  accounts'.length = accounts.length ∧
    ∀ i, Relation.ReflTransGen step (nonceAt systemProgramId accounts i)
      (nonceAt systemProgramId accounts' i)

namespace NonceRun

variable {systemProgramId : Key} {step : Option (Bool × Hash) → Option (Bool × Hash) → Prop}
  {accounts accounts' accounts'' : List (Account Key)}

lemma refl (accounts : List (Account Key)) : NonceRun systemProgramId step accounts accounts :=
  ⟨rfl, fun _ => Relation.ReflTransGen.refl⟩

lemma trans (h : NonceRun systemProgramId step accounts accounts')
    (h' : NonceRun systemProgramId step accounts' accounts'') :
    NonceRun systemProgramId step accounts accounts'' :=
  ⟨h'.1.trans h.1, fun i => (h.2 i).trans (h'.2 i)⟩

/-- Writing one position keeps the others. -/
lemma set {j : ℕ} {account : Account Key}
    (hstep : Relation.ReflTransGen step (nonceAt systemProgramId accounts j)
      (account.storedNonce systemProgramId)) :
    NonceRun systemProgramId step accounts (accounts.set j account) := by
  refine ⟨List.length_set .., fun i => ?_⟩
  rw [nonceAt_set]
  split_ifs with hij
  · rw [hij.1]
    exact hstep
  · exact Relation.ReflTransGen.refl

end NonceRun

end VelasChain.Runtime.Nonce
