import VelasChain.Evm.Precompiles
import VelasChain.Lib.Except
import VelasChain.Lib.SquareMultiply
import Mathlib.Data.List.Basic
import Mathlib.Data.Nat.Bitwise
import Mathlib.Data.Nat.Digits.Lemmas
import Mathlib.Algebra.Group.Basic

/-!
# What the precompiles compute

The implementations of `compatibility.rs` beside the prices: `EcRecover`, `Sha256`,
`Ripemd160`, `Modexp`, the three bn128 precompiles and `Blake2F` (`Identity` is in
`VelasChain.Evm.Precompiles`). The hash functions, the recovery of a secp256k1 key and the
bn128 group operations are parameters, taken as the functions they compute (`Hashes`,
`Bn128`); the parsing of the input, the checks and the assembly of the output are the code's.

`Modexp` computes `base ^ exp % modulus`, written big-endian in exactly `mod_len` bytes: its
inner loop is the square-and-multiply loop of `SquareMultiply` over the bits of the exponent.
Two implementations answer otherwise than the Ethereum precompiles they stand for.
`EcRecover` takes `v` through `TransactionSignature::standard_v`, which accepts every `v` above
36 as well, so `v = 37` recovers as `v = 27` where Ethereum answers nothing. `Bn128Pairing`
writes its answer word and then copies the first 32 bytes of the input over it, so every
nonempty input it accepts is answered with its own first 32 bytes.
-/

namespace VelasChain.Evm

open Except SquareMultiply

/-- The variants of `PrecompileErrors` these implementations return. -/
inductive PrecompileErrors where
  | parsePointError (message : String)
  | parseCoordinateError (message : String)
  | badInputLength (length : ℕ)
  | incorrectBlockIndicator
  deriving DecidableEq, Repr

/-- The hash functions and the key recovery the precompiles call, as the functions they
compute. `recover hash recId r s` is `SECP256K1.recover` of the message `hash` and the compact
signature `(r, s)` with recovery id `recId`, followed by `addr_from_public_key`: the 20 bytes of
the address, or `none` where `to_recoverable_signature` or the recovery fails. `compress` is
`eip_152::compress` of the state, the message block, the offset, the final-block flag and the
number of rounds. -/
structure Hashes where
  sha256 : List UInt8 → List UInt8
  ripemd160 : List UInt8 → List UInt8
  recover : List UInt8 → ℕ → ℕ → ℕ → Option (List UInt8)
  compress : (Fin 8 → ℕ) → (Fin 16 → ℕ) → ℕ × ℕ → Bool → ℕ → (Fin 8 → ℕ)

/-! ### Big-endian bytes -/

lemma foldl_bytesToNat (a : ℕ) (bytes : List UInt8) :
    bytes.foldl (fun acc b => acc * 256 + b.toNat) a = a * 256 ^ bytes.length + bytesToNat bytes := by
  induction bytes generalizing a with
  | nil => simp [bytesToNat]
  | cons b bytes ih =>
    have hcons : bytesToNat (b :: bytes) = b.toNat * 256 ^ bytes.length + bytesToNat bytes := by
      rw [bytesToNat, List.foldl_cons, ih, Nat.zero_mul, Nat.zero_add]
    rw [List.foldl_cons, ih, hcons, List.length_cons, Nat.pow_succ]
    ring

@[simp] lemma bytesToNat_nil : bytesToNat [] = 0 := rfl

lemma bytesToNat_cons (b : UInt8) (bytes : List UInt8) :
    bytesToNat (b :: bytes) = b.toNat * 256 ^ bytes.length + bytesToNat bytes := by
  rw [bytesToNat, List.foldl_cons, foldl_bytesToNat, Nat.zero_mul, Nat.zero_add]

lemma bytesToNat_append (l l' : List UInt8) :
    bytesToNat (l ++ l') = bytesToNat l * 256 ^ l'.length + bytesToNat l' := by
  rw [bytesToNat, List.foldl_append, foldl_bytesToNat]
  rfl

lemma bytesToNat_lt (bytes : List UInt8) : bytesToNat bytes < 256 ^ bytes.length := by
  induction bytes with
  | nil => simp
  | cons b bytes ih =>
    have hb := b.toNat_lt
    rw [bytesToNat_cons, List.length_cons, Nat.pow_succ]
    nlinarith

/-- Leading zero bytes spell nothing. -/
lemma bytesToNat_replicate_append (k : ℕ) (bytes : List UInt8) :
    bytesToNat (List.replicate k 0 ++ bytes) = bytesToNat bytes := by
  induction k with
  | zero => rfl
  | succ k ih => rw [List.replicate_succ, List.cons_append, bytesToNat_cons, ih]; simp

lemma bytesToNat_dropWhile_zero (bytes : List UInt8) :
    bytesToNat (bytes.dropWhile (· = 0)) = bytesToNat bytes := by
  induction bytes with
  | nil => rfl
  | cons b bytes ih =>
    rw [List.dropWhile_cons]
    by_cases hb : b = 0
    · simp [hb, ih, bytesToNat_cons]
    · simp [hb]

@[simp] lemma length_zeroExtended (source : List UInt8) (n : ℕ) :
    (zeroExtended source n).length = n := by
  simp only [zeroExtended, List.length_append, List.length_take, List.length_replicate]
  omega

lemma foldr_ofDigits (ds : List ℕ) (h : ∀ d ∈ ds, d < 256) :
    ds.foldr (fun d acc => acc * 256 + (UInt8.ofNat d).toNat) 0 = Nat.ofDigits 256 ds := by
  induction ds with
  | nil => rfl
  | cons d ds ih =>
    have hd : d < 256 := h d List.mem_cons_self
    rw [List.foldr_cons, ih fun d' hd' => h d' (List.mem_cons_of_mem d hd'), Nat.ofDigits_cons,
      UInt8.toNat_ofNat_of_lt' hd]
    ring

/-- `BigUint::to_bytes_be` spells the number it writes. -/
lemma bytesToNat_toBytesBE (r : ℕ) : bytesToNat (toBytesBE r) = r := by
  unfold toBytesBE
  split_ifs with hr
  · simp [hr, bytesToNat]
  · rw [bytesToNat, List.foldl_map, List.foldl_reverse,
      foldr_ofDigits _ fun d hd => Nat.digits_lt_base (by norm_num) hd, Nat.ofDigits_digits]

lemma length_toBytesBE_le {r n : ℕ} (hr : r < 256 ^ n) (hn : 0 < n) : (toBytesBE r).length ≤ n := by
  unfold toBytesBE
  split_ifs
  · exact hn
  · simpa using (Nat.digits_length_le_iff (by norm_num) r).mpr hr

/-! ### `EcRecover` -/

/-- The order `n` of secp256k1, the bound `is_valid` puts on `r` and `s`. -/
def secp256k1Order : ℕ := 0xfffffffffffffffffffffffffffffffebaaedce6af48a03bbfd25e8cd0364141

/-- `TransactionSignature`, with `r` and `s` the numbers their bytes spell (`H256` compares its
bytes in that order). -/
structure TransactionSignature where
  v : ℕ
  r : ℕ
  s : ℕ

/-- `TransactionSignature::standard_v`: the recovery id, and `4` for a `v` it does not know. -/
def TransactionSignature.standardV (sig : TransactionSignature) : ℕ :=
  if sig.v = 27 ∨ sig.v = 28 ∨ sig.v > 36 then (sig.v - 1) % 2 else 4

/-- `TransactionSignature::is_valid`. -/
def TransactionSignature.isValid (sig : TransactionSignature) : Bool :=
  sig.standardV ≤ 1 && sig.r < secp256k1Order && sig.r > 0 && sig.s < secp256k1Order && sig.s > 0

/-- The word `k` of the input cut or zero-padded to 128 bytes. -/
def EcRecover.word (source : List UInt8) (k : ℕ) : List UInt8 :=
  ((zeroExtended source 128).drop (32 * k)).take 32

/-- `EcRecover::implementation`: the message hash, `v`, `r` and `s` are the four words of the
input; `v` must fit its last byte, and anything but a recovered address gives empty output. -/
def EcRecover.implementation (c : Hashes) (source : List UInt8) :
    Except PrecompileErrors (List UInt8) :=
  let v := EcRecover.word source 1
  let sig : TransactionSignature :=
    ⟨(v.getD 31 0).toNat, bytesToNat (EcRecover.word source 2), bytesToNat (EcRecover.word source 3)⟩
  if v.take 31 ≠ List.replicate 31 0 then .ok []
  else if !sig.isValid then .ok []
  else match c.recover (EcRecover.word source 0) sig.standardV sig.r sig.s with
    | some addr => .ok (List.replicate 12 0 ++ addr)
    | none => .ok []

/-- The Ethereum `ecrecover`: `v` must be 27 or 28 and `r` and `s` in `1 .. n - 1`; the answer
is the address recovered with recovery id `v - 27`, left-padded to 32 bytes, and empty
otherwise. -/
def ecRecoverSpec (c : Hashes) (source : List UInt8) : List UInt8 :=
  let v := bytesToNat (EcRecover.word source 1)
  let r := bytesToNat (EcRecover.word source 2)
  let s := bytesToNat (EcRecover.word source 3)
  if (v = 27 ∨ v = 28) ∧ 0 < r ∧ r < secp256k1Order ∧ 0 < s ∧ s < secp256k1Order then
    match c.recover (EcRecover.word source 0) (v - 27) r s with
    | some addr => List.replicate 12 0 ++ addr
    | none => []
  else []

lemma length_word (source : List UInt8) (k : ℕ) (hk : k < 4) :
    (EcRecover.word source k).length = 32 := by
  simp only [EcRecover.word, List.length_take, List.length_drop, length_zeroExtended]
  omega

lemma bytesToNat_eq_zero_iff (bytes : List UInt8) :
    bytesToNat bytes = 0 ↔ bytes = List.replicate bytes.length 0 := by
  induction bytes with
  | nil => simp
  | cons b bytes ih =>
    rw [bytesToNat_cons, List.length_cons, List.replicate_succ, List.cons.injEq, ← ih,
      Nat.add_eq_zero_iff, Nat.mul_eq_zero, ← UInt8.toNat_inj]
    simp

/-- A word of 32 bytes spells its first 31 bytes, shifted by a byte, and its last byte. -/
lemma bytesToNat_word {w : List UInt8} (hw : w.length = 32) :
    bytesToNat w = bytesToNat (w.take 31) * 256 + (w.getD 31 0).toNat := by
  obtain ⟨a, ha⟩ : ∃ a, w.drop 31 = [a] := List.length_eq_one_iff.mp (by simp [hw])
  have hsplit : w = w.take 31 ++ [a] := by rw [← ha, List.take_append_drop]
  have hlast : w.getD 31 0 = a := by
    rw [hsplit]
    simp [List.getD_eq_getElem?_getD, hw]
  conv_lhs => rw [hsplit]
  rw [bytesToNat_append, hlast]
  simp [bytesToNat_cons]

lemma standardV_of_le {sig : TransactionSignature} (hv : sig.v ≤ 36) :
    sig.standardV = if sig.v = 27 ∨ sig.v = 28 then sig.v - 27 else 4 := by
  unfold TransactionSignature.standardV
  by_cases h : sig.v = 27 ∨ sig.v = 28
  · rw [if_pos (Or.elim h Or.inl fun h => Or.inr (Or.inl h)), if_pos h]
    omega
  · rw [if_neg (by omega), if_neg h]

lemma isValid_iff (sig : TransactionSignature) :
    sig.isValid = true ↔ sig.standardV ≤ 1 ∧
      (0 < sig.r ∧ sig.r < secp256k1Order ∧ 0 < sig.s ∧ sig.s < secp256k1Order) := by
  simp only [TransactionSignature.isValid, Bool.and_eq_true, decide_eq_true_eq, gt_iff_lt]
  tauto

/-- For every `v` up to 36 `EcRecover` answers as Ethereum's `ecrecover`. -/
theorem EcRecover.implementation_of_le (c : Hashes) (source : List UInt8)
    (hv : bytesToNat (EcRecover.word source 1) ≤ 36) :
    EcRecover.implementation c source = .ok (ecRecoverSpec c source) := by
  have hw := bytesToNat_word (length_word source 1 (by norm_num))
  have hzero : bytesToNat ((EcRecover.word source 1).take 31) = 0 := by omega
  have hhigh : (EcRecover.word source 1).take 31 = List.replicate 31 0 := by
    simpa [length_word] using (bytesToNat_eq_zero_iff _).mp hzero
  have hlast : ((EcRecover.word source 1).getD 31 0).toNat = bytesToNat (EcRecover.word source 1) := by
    omega
  unfold EcRecover.implementation ecRecoverSpec
  simp only [hhigh, ne_eq, not_true_eq_false, if_false, hlast]
  generalize bytesToNat (EcRecover.word source 1) = v at hv ⊢
  generalize bytesToNat (EcRecover.word source 2) = r
  generalize bytesToNat (EcRecover.word source 3) = s
  generalize EcRecover.word source 0 = hash
  have hstd : (⟨v, r, s⟩ : TransactionSignature).standardV =
      if v = 27 ∨ v = 28 then v - 27 else 4 := standardV_of_le hv
  by_cases hv' : v = 27 ∨ v = 28
  · -- the recovery id is `v - 27`, and both check the same ranges of `r` and `s`
    rw [if_pos hv'] at hstd
    by_cases hrs : 0 < r ∧ r < secp256k1Order ∧ 0 < s ∧ s < secp256k1Order
    · have hvalid : (⟨v, r, s⟩ : TransactionSignature).isValid = true :=
        (isValid_iff _).mpr ⟨by rw [hstd]; omega, hrs⟩
      simp only [hvalid, Bool.not_true, Bool.false_eq_true, if_false, if_pos (And.intro hv' hrs),
        hstd]
      cases c.recover hash (v - 27) r s <;> rfl
    · have hvalid : (⟨v, r, s⟩ : TransactionSignature).isValid = false := by
        rw [← Bool.not_eq_true, isValid_iff]
        exact fun h => hrs h.2
      simp only [hvalid, Bool.not_false, if_true, if_neg fun h : _ ∧ _ => hrs h.2]
  · have hvalid : (⟨v, r, s⟩ : TransactionSignature).isValid = false := by
      rw [← Bool.not_eq_true, isValid_iff, hstd, if_neg hv']
      exact fun h => absurd h.1 (by decide)
    simp only [hvalid, Bool.not_false, if_true, if_neg fun h : _ ∧ _ => hv' h.1]

/-- The input of `ecrecover` with the zero message hash, the given `v`, and `r = s = 1`. -/
def sigInput (v : UInt8) : List UInt8 :=
  List.replicate 63 0 ++ [v] ++ List.replicate 31 0 ++ [1] ++ List.replicate 31 0 ++ [1]

lemma word_sigInput (v : UInt8) :
    EcRecover.word (sigInput v) 0 = List.replicate 32 0 ∧
      EcRecover.word (sigInput v) 1 = List.replicate 31 0 ++ [v] ∧
      EcRecover.word (sigInput v) 2 = List.replicate 31 0 ++ [1] ∧
      EcRecover.word (sigInput v) 3 = List.replicate 31 0 ++ [1] := by
  simp [EcRecover.word, sigInput, zeroExtended]

/-- At `v = 37` Ethereum's `ecrecover` answers nothing, and `EcRecover` answers as at `v = 27`,
where it answers as Ethereum: the address recovered with recovery id 0. -/
theorem ecrecover_accepts_v_thirty_seven (c : Hashes) :
    ecRecoverSpec c (sigInput 37) = [] ∧
      EcRecover.implementation c (sigInput 37) = EcRecover.implementation c (sigInput 27) ∧
      EcRecover.implementation c (sigInput 27) = .ok (ecRecoverSpec c (sigInput 27)) := by
  obtain ⟨h0, h1, h2, h3⟩ := word_sigInput 37
  obtain ⟨h0', h1', h2', h3'⟩ := word_sigInput 27
  have hv : ∀ v : UInt8, bytesToNat (List.replicate 31 0 ++ [v]) = v.toNat := fun v => by
    simp [bytesToNat_cons]
  refine ⟨?_, ?_, EcRecover.implementation_of_le c _ (by rw [h1', hv]; decide)⟩
  · simp only [ecRecoverSpec, h1, hv]
    rfl
  · simp only [EcRecover.implementation, h0, h1, h2, h3, h0', h1', h2', h3']
    rfl

/-! ### `Modexp` -/

namespace Modexp

/-- The Ethereum `modexp`: `base ^ exp % modulus`, and zero for a modulus of at most one. -/
def spec (base exp modulus : ℕ) : ℕ := if modulus ≤ 1 then 0 else base ^ exp % modulus

/-- The mask `1 << 7` shifted right `k` times selects bit `7 - k`. -/
lemma and_mask_pos_iff (n : ℕ) {k : ℕ} (hk : k < 8) : n &&& (128 >>> k) > 0 ↔ n.testBit (7 - k) := by
  have hmask : 128 >>> k = 2 ^ (7 - k) := by
    rw [Nat.shiftRight_eq_div_pow, show 128 = 2 ^ 7 by norm_num, Nat.pow_div (by omega) (by norm_num)]
  rw [hmask, Nat.and_two_pow]
  cases n.testBit (7 - k) <;> simp

/-- The inner loop over one exponent byte is the square-and-multiply loop over its eight bits. -/
lemma digitStep_eq (base modulus : ℕ) (digit : UInt8) (result : ℕ) :
    digitStep base modulus digit result = (bitsOf 8 digit.toNat).foldl (step base modulus) result := by
  rw [digitStep, bitsOf, List.foldl_map]
  apply List.foldl_ext
  intro r k hk
  have hk : k < 8 := List.mem_range.mp hk
  by_cases hbit : digit.toNat.testBit (7 - k)
  · simp [step, hbit, (and_mask_pos_iff digit.toNat hk).mpr hbit]
  · simp [step, hbit, mt (and_mask_pos_iff digit.toNat hk).mp hbit]

lemma ofBits_flatMap_bitsOf (exp : List UInt8) :
    ofBits (exp.flatMap fun d => bitsOf 8 d.toNat) = bytesToNat exp := by
  induction exp with
  | nil => rfl
  | cons d exp ih =>
    have hlen : (exp.flatMap fun d => bitsOf 8 d.toNat).length = 8 * exp.length := by
      simp [List.length_flatMap, Nat.mul_comm]
    rw [List.flatMap_cons, ofBits_append, ofBits_bitsOf d.toNat_lt, hlen, ih, bytesToNat_cons,
      Nat.pow_mul]

/-- `modexp` computes the Ethereum `modexp` of the number its exponent bytes spell. -/
theorem modexp_eq (base : ℕ) (exp : List UInt8) (modulus : ℕ) :
    modexp base exp modulus = spec base (bytesToNat exp) modulus := by
  unfold modexp spec
  by_cases hm : modulus ≤ 1
  · rw [if_pos hm, if_pos hm]
  rw [if_neg hm, if_neg hm, ← bytesToNat_dropWhile_zero exp]
  have hm0 : 0 < modulus := by omega
  -- the exponent without its leading zero bytes: empty, or led by a nonzero byte
  generalize hdrop : List.dropWhile (fun x => decide (x = 0)) exp = e
  cases e with
  | nil => simp [Nat.mod_eq_of_lt (show 1 < modulus by omega)]
  | cons d t =>
    have hd : d ≠ 0 := by
      have := List.head_dropWhile_not (· = 0) (l := exp) (by simp [hdrop])
      simpa [hdrop] using this
    have hpos : 0 < bytesToNat (d :: t) := by
      have : 0 < d.toNat := Nat.pos_of_ne_zero (by simpa [← UInt8.toNat_inj] using hd)
      rw [bytesToNat_cons]
      exact Nat.add_pos_left (Nat.mul_pos this (Nat.pow_pos (by norm_num))) _
    simp only [List.cons_ne_nil, if_false]
    by_cases hb : base = 0
    · rw [if_pos hb, hb, Nat.zero_pow hpos, Nat.zero_mod]
    rw [if_neg hb]
    by_cases hbm : base % modulus = 0
    · rw [if_pos hbm, Nat.pow_mod, hbm, Nat.zero_pow hpos, Nat.zero_mod]
    rw [if_neg hbm]
    -- the loop over the bytes is the loop over all their bits
    have hbits : ((d :: t).flatMap fun d => bitsOf 8 d.toNat) ≠ [] := by
      simp [bitsOf, List.range_succ]
    simp only [digitStep_eq]
    rw [← List.foldl_flatMap, foldl_step_one hm0 hbits, ofBits_flatMap_bitsOf, ← Nat.pow_mod]

lemma spec_lt {base exp modulus n : ℕ} (hm : modulus < 256 ^ n) : spec base exp modulus < 256 ^ n := by
  unfold spec
  split_ifs with h
  · exact Nat.pow_pos (by norm_num)
  · exact (Nat.mod_lt _ (by omega)).trans hm

/-- A result below `256 ^ modLen`, left-padded as `Modexp::implementation` pads it, takes
exactly `modLen` bytes and spells the result. -/
lemma padded_output {r modLen : ℕ} (hr : r < 256 ^ modLen) :
    let bytes := toBytesBE r
    let output := if bytes.length ≤ modLen then List.replicate (modLen - bytes.length) 0 ++ bytes
      else List.replicate modLen 0
    output.length = modLen ∧ bytesToNat output = r := by
  intro bytes output
  rcases Nat.eq_zero_or_pos modLen with rfl | hpos
  · -- no room at all: the result is zero and the output empty
    obtain rfl : r = 0 := by simpa using hr
    simp [output, bytes, toBytesBE]
  · have hle : bytes.length ≤ modLen := length_toBytesBE_le hr hpos
    simp only [output, if_pos hle, List.length_append, List.length_replicate,
      bytesToNat_replicate_append, bytes, bytesToNat_toBytesBE]
    exact ⟨Nat.sub_add_cancel hle, trivial⟩

/-- `Modexp::implementation` answers the Ethereum `modexp` of the operands it reads from the
zero-extended input, big-endian in exactly `mod_len` bytes. -/
theorem implementation_eq_spec {source : List UInt8} {baseLen expLen modLen : ℕ}
    (hlens : readLens source = (baseLen, expLen, modLen)) :
    ∃ output, implementation source = .ok output ∧ output.length = modLen ∧
      bytesToNat output = spec (bytesToNat (zeroExtended (source.drop 96) baseLen))
        (bytesToNat (zeroExtended ((source.drop 96).drop baseLen) expLen))
        (bytesToNat (zeroExtended (((source.drop 96).drop baseLen).drop expLen) modLen)) := by
  generalize hmodulus : bytesToNat (zeroExtended (((source.drop 96).drop baseLen).drop expLen) modLen) = modulus
  have hmod : modulus < 256 ^ modLen := by
    simpa [← hmodulus] using bytesToNat_lt (zeroExtended (((source.drop 96).drop baseLen).drop expLen) modLen)
  simp only [implementation, hlens, hmodulus]
  -- with both lengths zero the code skips the computation, and the modulus read is zero
  have hr : (if baseLen = 0 ∧ modLen = 0 then 0
      else modexp (bytesToNat (zeroExtended (source.drop 96) baseLen))
        (zeroExtended ((source.drop 96).drop baseLen) expLen) modulus) =
      spec (bytesToNat (zeroExtended (source.drop 96) baseLen))
        (bytesToNat (zeroExtended ((source.drop 96).drop baseLen) expLen)) modulus := by
    split_ifs with h0
    · obtain ⟨-, rfl⟩ := h0
      rw [← hmodulus]
      simp [spec, zeroExtended]
    · exact modexp_eq _ _ _
  rw [hr]
  exact ⟨_, rfl, padded_output (spec_lt hmod)⟩

end Modexp

/-! ### `Sha256` and `Ripemd160` -/

/-- `Sha256::implementation`: the digest of the input. -/
def Sha256.implementation (c : Hashes) (source : List UInt8) : Except PrecompileErrors (List UInt8) :=
  .ok (c.sha256 source)

/-- `Ripemd160::implementation`: the digest of the input, after twelve zero bytes. -/
def Ripemd160.implementation (c : Hashes) (source : List UInt8) :
    Except PrecompileErrors (List UInt8) :=
  .ok (List.replicate 12 0 ++ c.ripemd160 source)

/-! ### The bn128 precompiles -/

/-- The operations of `substrate_bn` the bn128 precompiles call, over the base field `Fq`, the
scalars `Fr`, the groups `G1` and `G2` and the target group `Gt`. Field elements are read from
32 big-endian bytes and fail at or above the modulus, and 32 zero bytes are read as zero. Points
are built from affine coordinates and fail off the curve; a point of `G2` has coordinates in
`Fq2 = Fq × Fq`. A point of `G1` has affine coordinates unless it is at infinity. The pairing is
bilinear; only its additivity in the first argument is used here. -/
structure Bn128 (Fq Fr G1 G2 Gt : Type) [Zero Fq] [AddCommGroup G1] [AddCommGroup G2]
    [CommGroup Gt] where
  fqFromSlice : List UInt8 → Option Fq
  frFromSlice : List UInt8 → Option Fr
  fqToBigEndian : Fq → List UInt8
  affineG1 : Fq → Fq → Option G1
  affineG2 : Fq × Fq → Fq × Fq → Option G2
  fromJacobian : G1 → Option (Fq × Fq)
  mulFr : G1 → Fr → G1
  pairing : G1 → G2 → Gt
  fqFromSlice_zero : fqFromSlice (List.replicate 32 0) = some 0
  pairing_add_left : ∀ a a' b, pairing (a + a') b = pairing a b * pairing a' b

section Bn128

variable {Fq Fr G1 G2 Gt : Type} [Zero Fq] [AddCommGroup G1] [AddCommGroup G2] [CommGroup Gt]
  (c : Bn128 Fq Fr G1 G2 Gt)

lemma Bn128.pairing_zero_left (b : G2) : c.pairing 0 b = 1 := by
  have h := c.pairing_add_left 0 0 b
  rw [add_zero] at h
  exact left_eq_mul.mp h

variable [DecidableEq Fq] [DecidableEq Gt]

/-- `read_point`: two coordinates of 32 bytes from the zero-extended input, `(0, 0)` being the
point at infinity. -/
def readPoint (input : List UInt8) : Except PrecompileErrors G1 := do
  let px ← okOr (.parsePointError "Invalid point x coordinate") (c.fqFromSlice (zeroExtended input 32))
  let py ← okOr (.parsePointError "Invalid point y coordinate")
    (c.fqFromSlice (zeroExtended (input.drop 32) 32))
  if px = 0 ∧ py = 0 then pure 0
  else okOr (.parsePointError "Invalid curve point") (c.affineG1 px py)

/-- `read_fr`: a scalar of 32 bytes from the zero-extended input. -/
def readFr (input : List UInt8) : Except PrecompileErrors Fr :=
  okOr (.parsePointError "Invalid field element") (c.frFromSlice (zeroExtended input 32))

/-- A point of `G1` as the two precompiles write it: its affine coordinates, or 64 zero bytes
at infinity. -/
def encodeG1 (p : G1) : List UInt8 :=
  match c.fromJacobian p with
  | some (x, y) => c.fqToBigEndian x ++ c.fqToBigEndian y
  | none => List.replicate 64 0

/-- `Bn128Add::implementation`: the sum of two points read from the zero-extended input. -/
def Bn128Add.implementation (source : List UInt8) : Except PrecompileErrors (List UInt8) := do
  let p1 ← readPoint c source
  let p2 ← readPoint c (source.drop 64)
  pure (encodeG1 c (p1 + p2))

/-- `Bn128Mul::implementation`: a point times a scalar, read from the zero-extended input. -/
def Bn128Mul.implementation (source : List UInt8) : Except PrecompileErrors (List UInt8) := do
  let p ← readPoint c source
  let fr ← readFr c (source.drop 64)
  pure (encodeG1 c (c.mulFr p fr))

/-- The pairs of a `Bn128Pairing` input, 192 bytes each. -/
def Bn128Pairing.pairs (source : List UInt8) : List (List UInt8) :=
  (List.range (source.length / 192)).map fun idx => (source.drop (idx * 192)).take 192

/-- `Fq::from_slice` of the coordinate `k` of a pair, failing with the coordinate's message. -/
def readCoordinate (chunk : List UInt8) (k : ℕ) (message : String) :
    Except PrecompileErrors Fq :=
  okOr (.parseCoordinateError message) (c.fqFromSlice ((chunk.drop (32 * k)).take 32))

/-- One pair of `Bn128Pairing`: a point `a` of `G1` and a point `b` of `G2`, each zero when all
its coordinates are, and otherwise checked to be on the curve. -/
def Bn128Pairing.readPair (chunk : List UInt8) : Except PrecompileErrors (G1 × G2) := do
  let ax ← readCoordinate c chunk 0 "Invalid a argument x coordinate"
  let ay ← readCoordinate c chunk 1 "Invalid a argument y coordinate"
  let baY ← readCoordinate c chunk 2 "Invalid b argument imaginary coeff x coordinate"
  let baX ← readCoordinate c chunk 3 "Invalid b argument imaginary coeff y coordinate"
  let bbY ← readCoordinate c chunk 4 "Invalid b argument real coeff x coordinate"
  let bbX ← readCoordinate c chunk 5 "Invalid b argument real coeff y coordinate"
  let b ← if (baX, baY) = 0 ∧ (bbX, bbY) = 0 then pure 0
    else okOr (.parseCoordinateError "Invalid b argument - not on curve") <|
      c.affineG2 (baX, baY) (bbX, bbY)
  let a ← if ax = 0 ∧ ay = 0 then pure 0
    else okOr (.parseCoordinateError "Invalid a argument - not on curve") (c.affineG1 ax ay)
  pure (a, b)

/-- The error of an input whose length is not a multiple of 192. -/
def Bn128Pairing.lengthError : PrecompileErrors :=
  .parsePointError "Invalid input length, must be multiple of 192 (3 * (32*2))"

/-- `Bn128Pairing::implementation`: the answer word is 1 when the product of the pairings is the
identity of `Gt`, and the first `min(32, len)` bytes of the input are then copied over it. -/
def Bn128Pairing.implementation (source : List UInt8) : Except PrecompileErrors (List UInt8) := do
  failIf (source.length % 192 ≠ 0) Bn128Pairing.lengthError
  let retVal ← if source = [] then pure 1 else do
    let vals ← (Bn128Pairing.pairs source).mapM (Bn128Pairing.readPair c)
    let mul := vals.foldl (fun s ab => s * c.pairing ab.1 ab.2) 1
    pure (if mul = 1 then 1 else 0)
  let result : List UInt8 := List.replicate 31 0 ++ [UInt8.ofNat retVal]
  let max := min result.length source.length
  pure (source.take max ++ result.drop max)

/-- The Ethereum `ecPairing`: the input is a list of pairs of 192 bytes, each read and checked
as the code reads it, and the answer is the word 1 when the product of the pairings is the
identity of `Gt`, and 0 otherwise. -/
def pairingSpec (source : List UInt8) : Except PrecompileErrors (List UInt8) := do
  failIf (source.length % 192 ≠ 0) Bn128Pairing.lengthError
  let vals ← (Bn128Pairing.pairs source).mapM (Bn128Pairing.readPair c)
  pure (List.replicate 31 0 ++ [if (vals.map fun ab => c.pairing ab.1 ab.2).prod = 1 then 1 else 0])

/-- `Bn128Pairing` fails exactly where Ethereum's `ecPairing` fails. It gives Ethereum's answer
for the empty input, and to every other input it accepts it answers the input's first 32
bytes. -/
theorem Bn128Pairing.implementation_eq (source : List UInt8) :
    Bn128Pairing.implementation c source =
      (pairingSpec c source).map fun answer => if source = [] then answer else source.take 32 := by
  unfold Bn128Pairing.implementation pairingSpec
  by_cases hlen : source.length % 192 ≠ 0
  · simp [failIf, hlen, bind, Except.bind, Except.map]
  by_cases hnil : source = []
  · subst hnil
    simp [failIf, Bn128Pairing.pairs, bind, Except.bind, pure, Except.pure, Except.map]
  -- a nonempty input of whole pairs is at least 192 bytes long
  have hlong : 32 ≤ source.length := by
    have : 0 < source.length := List.length_pos_of_ne_nil hnil
    omega
  simp only [failIf, hlen, if_false, hnil]
  cases (Bn128Pairing.pairs source).mapM (Bn128Pairing.readPair c) with
  | error e => rfl
  | ok vals =>
    simp [bind, Except.bind, pure, Except.pure, Except.map, Nat.min_eq_left hlong]

/-- Two points at infinity, 192 zero bytes. The pairing of the points is the identity of `Gt`,
so Ethereum answers the word 1; the code answers 32 zero bytes, copied from its input. -/
theorem pairing_of_points_at_infinity_answers_zero :
    pairingSpec c (List.replicate 192 0) = .ok (List.replicate 31 0 ++ [1]) ∧
      Bn128Pairing.implementation c (List.replicate 192 0) = .ok (List.replicate 32 0) := by
  have hcoord : ∀ k < 6, ∀ message,
      readCoordinate c (List.replicate 192 0) k message = .ok 0 := by
    intro k hk message
    have hslice : ((List.replicate 192 (0 : UInt8)).drop (32 * k)).take 32 = List.replicate 32 0 := by
      rw [List.drop_replicate, List.take_replicate, Nat.min_eq_left (by omega)]
    rw [readCoordinate, hslice, c.fqFromSlice_zero]
    rfl
  have hpair : Bn128Pairing.readPair c (List.replicate 192 0) = .ok (0, 0) := by
    unfold Bn128Pairing.readPair
    rw [hcoord 0 (by norm_num), hcoord 1 (by norm_num), hcoord 2 (by norm_num),
      hcoord 3 (by norm_num), hcoord 4 (by norm_num), hcoord 5 (by norm_num)]
    simp [bind, Except.bind, pure, Except.pure]
  have hpairs : Bn128Pairing.pairs (List.replicate 192 (0 : UInt8)) = [List.replicate 192 0] := by
    simp only [Bn128Pairing.pairs, List.length_replicate, Nat.div_self (show 0 < 192 by norm_num),
      List.range_one, List.map_cons, List.map_nil, Nat.zero_mul, List.drop_zero, List.take_replicate,
      min_self]
  have hspec : pairingSpec c (List.replicate 192 0) = .ok (List.replicate 31 0 ++ [1]) := by
    simp only [pairingSpec, failIf, List.length_replicate, Nat.mod_self, ne_eq, not_true_eq_false,
      if_false, hpairs, List.mapM_cons, List.mapM_nil, hpair]
    simp [bind, Except.bind, pure, Except.pure, c.pairing_zero_left]
  refine ⟨hspec, ?_⟩
  rw [Bn128Pairing.implementation_eq, hspec]
  simp only [Except.map, List.replicate_eq_nil_iff, OfNat.ofNat_ne_zero, if_false, List.take_replicate]
  rfl

end Bn128

/-! ### `Blake2F` -/

/-- `BLAKE2_F_ARG_LEN`. -/
def Blake2F.argLen : ℕ := 213

/-- Word `i` after the rounds of a `Blake2F` input: eight bytes read as a little-endian `u64`. -/
def Blake2F.word (source : List UInt8) (i : ℕ) : ℕ :=
  bytesToNat ((source.drop (4 + 8 * i)).take 8).reverse

/-- `u64::to_le_bytes`. -/
def u64ToLeBytes (w : ℕ) : List UInt8 := (List.range 8).map fun i => UInt8.ofNat (w / 256 ^ i)

/-- `Blake2F::implementation`: the rounds as a big-endian `u32`, then the state `h`, the
message block `m` and the offset `t` as little-endian `u64` words, and the final-block flag,
which must be 0 or 1. The compressed state is written out little-endian. -/
def Blake2F.implementation (c : Hashes) (source : List UInt8) :
    Except PrecompileErrors (List UInt8) := do
  failIf (source.length ≠ Blake2F.argLen) (.badInputLength source.length)
  let rounds := bytesToNat (source.take 4)
  let h : Fin 8 → ℕ := fun i => Blake2F.word source i
  let m : Fin 16 → ℕ := fun i => Blake2F.word source (8 + i)
  let t := (Blake2F.word source 24, Blake2F.word source 25)
  let f ← if source.getLast? = some 1 then pure true
    else if source.getLast? = some 0 then pure false
    else Except.error .incorrectBlockIndicator
  pure ((List.ofFn (c.compress h m t f rounds)).flatMap u64ToLeBytes)

/-- `Blake2F` fails exactly on an input that is not 213 bytes long or whose final-block flag is
neither 0 nor 1, and otherwise answers 64 bytes. -/
theorem Blake2F.implementation_ok_iff (c : Hashes) (source : List UInt8) :
    (∃ output, Blake2F.implementation c source = .ok output ∧ output.length = 64) ↔
      source.length = Blake2F.argLen ∧ (source.getLast? = some 0 ∨ source.getLast? = some 1) := by
  have hlen64 : ∀ state : Fin 8 → ℕ, ((List.ofFn state).flatMap u64ToLeBytes).length = 64 := by
    intro state
    simp [u64ToLeBytes]
  unfold Blake2F.implementation
  by_cases hlen : source.length = Blake2F.argLen
  · by_cases h1 : source.getLast? = some 1
    · simp only [failIf, hlen, h1, ne_eq, not_true_eq_false, if_false, if_true, bind, Except.bind,
        pure, Except.pure, Except.ok.injEq, exists_eq_left', hlen64, or_true, and_self]
    · by_cases h0 : source.getLast? = some 0
      · have hflag : (some (0 : UInt8) = some 1) = False := eq_false (by decide)
        simp only [failIf, hlen, h0, hflag, ne_eq, not_true_eq_false, if_false, if_true, bind,
          Except.bind, pure, Except.pure, Except.ok.injEq, exists_eq_left', hlen64, true_or, and_self]
      · simp [failIf, hlen, h0, h1, bind, Except.bind]
  · simp [failIf, hlen, bind, Except.bind]

end VelasChain.Evm
