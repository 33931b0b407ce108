import Mathlib

/-!
# Precompile prices, and when the price is charged

`build_precompile_map` registers a `price` and an `implementation` for each precompile,
and `execute_precompile` runs the implementation and returns the price as the cost of the
call. `OwnedPrecompile::execute` calls that closure and only afterwards `record_cost`, which
fails with `OutOfGas` when the cost exceeds the gas of the call. Whatever the
implementation allocates is therefore allocated before the call is charged.

The prices of every precompile of both maps are embedded, and the implementations of
`Identity` and `Modexp`; the others call hash and curve libraries outside the repository.
-/

namespace VelasChain.Evm

/-- `u64::MAX`. -/
def u64Max : Nat := 2 ^ 64 - 1

/-- The big-endian value of a byte string (`U256::from_big_endian`, `BigUint::from_bytes_be`). -/
def bytesToNat (bytes : List UInt8) : Nat :=
  bytes.foldl (fun acc b => acc * 256 + b.toNat) 0

/-- `BigUint::to_bytes_be`: the shortest big-endian bytes of a number, `[0]` for zero. -/
def toBytesBE (r : Nat) : List UInt8 :=
  if r = 0 then [0] else (Nat.digits 256 r).reverse.map UInt8.ofNat

/-- `n` bytes read from `source.chain(io::repeat(0))`: the bytes present, then zeros. -/
def zeroExtended (source : List UInt8) (n : Nat) : List UInt8 :=
  source.take n ++ List.replicate (n - source.length) 0

/-- `words`: the number of whole words of `word_len` bytes in the input. -/
def words (source : List UInt8) (wordLen : Nat) : Nat :=
  source.length / wordLen

/-! ### Prices of `PRECOMPILES_MAP` and `PRECOMPILES_MAP_DEPRECATED` -/

/-- `Identity::price`. -/
def Identity.price (source : List UInt8) : Nat := 15 + 3 * words source 32

/-- `Sha256::price`. -/
def Sha256.price (source : List UInt8) : Nat := 60 + 12 * words source 32

/-- `Ripemd160::price`. -/
def Ripemd160.price (source : List UInt8) : Nat := 600 + 120 * words source 32

/-- `EcRecover::price`. -/
def EcRecover.price (_source : List UInt8) : Nat := 3000

/-- `Bn128Add::price`. -/
def Bn128Add.price (_source : List UInt8) : Nat := 150

/-- `Bn128Mul::price`. -/
def Bn128Mul.price (_source : List UInt8) : Nat := 6000

/-- `Bn128Pairing::price`. -/
def Bn128Pairing.price (source : List UInt8) : Nat := 45000 + 34000 * words source 192

/-- `Blake2F::price`: one gas per round, the rounds read as a big-endian `u32`. -/
def Blake2F.price (source : List UInt8) : Nat :=
  if source.length < 4 then 0 else bytesToNat (source.take 4)

/-- `deprecated::EcRecover::price`. -/
def Deprecated.EcRecover.price (source : List UInt8) : Nat := 60 + 12 * words source 32

/-- `deprecated::Ripemd160::price`. -/
def Deprecated.Ripemd160.price (source : List UInt8) : Nat := 60 + 12 * words source 32

/-! ### `Modexp` -/

namespace Modexp

/-- `u32::max_value() / 2`, the largest length `check_input_boundaries` lets through. -/
def maxLen : Nat := (2 ^ 32 - 1) / 2

/-- `parse_input` of `Modexp::price`: the three declared lengths as `U256`, and the first
word of the exponent read from the input (zero when the base reaches past its end). The
`u64` additions wrap, as the release build does. -/
def parseInput (input : List UInt8) : Nat × Nat × Nat × Nat :=
  let baseLen := bytesToNat (zeroExtended input 32)
  let expLen := bytesToNat (zeroExtended (input.drop 32) 32)
  let modLen := bytesToNat (zeroExtended (input.drop 64) 32)
  let baseLow := baseLen % 2 ^ 64
  let expLow :=
    if (baseLow + 96) % 2 ^ 64 ≥ input.length then 0
    else bytesToNat (zeroExtended (input.drop ((96 + baseLow) % 2 ^ 64)) (min (expLen % 2 ^ 64) 32))
  (baseLen, expLen, expLow, modLen)

/-- `check_input_boundaries`. -/
def checkInputBoundaries (baseLen expLen modLen : Nat) : Option Nat :=
  if modLen = 0 ∧ baseLen = 0 then some 0
  else if baseLen > maxLen ∨ modLen > maxLen ∨ expLen > maxLen then some u64Max
  else none

/-- `adjusted_exp_len`: `255 - leading_zeros` is the index of the top bit. -/
def adjustedExpLen (len : Nat) (expLow : Nat) : Nat :=
  let bitIndex := if expLow = 0 then 0 else Nat.log2 expLow
  if len ≤ 32 then bitIndex else 8 * (len - 32) + bitIndex

/-- `mult_complexity`. Below `maxLen` none of its `u64` operations overflows or underflows. -/
def multComplexity (x : Nat) : Nat :=
  if x ≤ 64 then x * x
  else if x ≤ 1024 then x * x / 4 + 96 * x - 3072
  else x * x / 16 + 480 * x - 199680

/-- `Modexp::price`: an `overflowing_mul` that overflows `u64` gives `u64::MAX`. -/
def price (source : List UInt8) : Nat :=
  let (baseLen, expLen, expLow, modLen) := parseInput source
  match checkInputBoundaries baseLen expLen modLen with
  | some cost => cost
  | none =>
    let gas := multComplexity (max modLen baseLen) * max (adjustedExpLen expLen expLow) 1
    if gas > u64Max then u64Max else gas / 20

/-- The lengths as the implementation's `read_len` takes them: the last eight bytes of each
header word, as a `usize`. -/
def readLens (source : List UInt8) : Nat × Nat × Nat :=
  (bytesToNat (zeroExtended source 32) % 2 ^ 64,
   bytesToNat (zeroExtended (source.drop 32) 32) % 2 ^ 64,
   bytesToNat (zeroExtended (source.drop 64) 32) % 2 ^ 64)

/-- The inner loop of `modexp` for one exponent byte: square, and multiply by the base when
the bit under the mask is set, from the top bit down. -/
def digitStep (base modulus : Nat) (digit : UInt8) (result : Nat) : Nat :=
  (List.range 8).foldl
    (fun r k =>
      let r := r * r % modulus
      if digit.toNat &&& (128 >>> k) > 0 then r * base % modulus else r)
    result

/-- `modexp`: left-to-right binary exponentiation over the exponent bytes. -/
def modexp (base : Nat) (exp : List UInt8) (modulus : Nat) : Nat :=
  if modulus ≤ 1 then 0
  else
    let exp := exp.dropWhile (· = 0)
    if exp = [] then 1
    else if base = 0 then 0
    else
      let base := base % modulus
      if base = 0 then 0
      else exp.foldl (fun result digit => digitStep base modulus digit result) 1

/-- `Modexp::implementation`: read base, exponent and modulus of the declared lengths from
the zero-extended input, and write the result left-padded to `mod_len` bytes. -/
def implementation (source : List UInt8) : Except String (List UInt8) :=
  let (baseLen, expLen, modLen) := readLens source
  let r :=
    if baseLen = 0 ∧ modLen = 0 then 0
    else
      let rest := source.drop 96
      let base := bytesToNat (zeroExtended rest baseLen)
      let exp := zeroExtended (rest.drop baseLen) expLen
      let modulus := bytesToNat (zeroExtended ((rest.drop baseLen).drop expLen) modLen)
      modexp base exp modulus
  let bytes := toBytesBE r
  .ok (if bytes.length ≤ modLen then List.replicate (modLen - bytes.length) 0 ++ bytes
    else List.replicate modLen 0)

/-- The bytes `Modexp::implementation` allocates: `buf` of the largest declared length,
`exp_buf` and the output of `mod_len` bytes; only the (empty) output when base and modulus
are empty. -/
def allocated (source : List UInt8) : Nat :=
  let (baseLen, expLen, modLen) := readLens source
  if baseLen = 0 ∧ modLen = 0 then 0 else max modLen (max baseLen expLen) + expLen + modLen

end Modexp

/-! ### Running a precompile -/

/-- A registered precompile: its price, its implementation, and the bytes the
implementation allocates. -/
structure Precompile where
  price : List UInt8 → Nat
  implementation : List UInt8 → Except String (List UInt8)
  allocated : List UInt8 → Nat

/-- `Modexp` as registered in `PRECOMPILES_MAP`. -/
def Modexp.precompile : Precompile :=
  ⟨Modexp.price, Modexp.implementation, Modexp.allocated⟩

/-- `Identity` as registered in both maps: the output is a copy of the input. -/
def Identity.precompile : Precompile :=
  ⟨Identity.price, fun source => .ok source, List.length⟩

/-- `ExitError` as `OwnedPrecompile::execute` can end a precompile call. -/
inductive ExitError where
  | outOfGas
  | other (message : String)

/-- A call of a precompile: its result, and the bytes allocated before the charge. -/
structure PrecompileRun where
  result : Except ExitError (List UInt8)
  allocated : Nat

/-- `execute_precompile::<T>`: the implementation's output, and the price as the cost. -/
def executePrecompile (p : Precompile) (source : List UInt8) :
    Except String (List UInt8 × Nat) := do
  let gasUsed := p.price source
  let bytes ← p.implementation source
  pure (bytes, gasUsed)

/-- `PrecompileSet for OwnedPrecompile::execute`: the closure runs to its end, then
`record_cost` fails if the cost exceeds the gas limit of the call. -/
def ownedExecute (p : Precompile) (input : List UInt8) (gasLimit : Nat) : PrecompileRun where
  result :=
    match executePrecompile p input with
    | .ok (output, cost) => if cost ≤ gasLimit then .ok output else .error .outOfGas
    | .error message => .error (.other message)
  allocated := p.allocated input

/-- `Modexp::implementation` never fails. -/
lemma Modexp.implementation_ok (source : List UInt8) :
    ∃ output, Modexp.implementation source = .ok output :=
  ⟨_, rfl⟩

/-- The charge comes after the work: when the price of a call exceeds its gas limit and the
implementation succeeds, the call ends in `OutOfGas` with all that the implementation
allocated already allocated. -/
theorem ownedExecute_of_lt_price (p : Precompile) (input : List UInt8) (gasLimit : Nat)
    (output : List UInt8) (hok : p.implementation input = .ok output)
    (hlt : gasLimit < p.price input) :
    ownedExecute p input gasLimit = ⟨.error .outOfGas, p.allocated input⟩ := by
  have hcost : ¬ p.price input ≤ gasLimit := Nat.not_le.mpr hlt
  simp [ownedExecute, executePrecompile, hok, bind, Except.bind, pure, Except.pure, hcost]

/-- A `Modexp` input that is a header alone, 96 bytes, declaring a one-byte base, an empty
exponent and a modulus of `2^31` bytes. -/
def hugeModulusInput : List UInt8 :=
  List.replicate 31 0 ++ [1] ++ List.replicate 60 0 ++ [0x80, 0, 0, 0]

/-- That input is priced `u64::MAX`, so a call with the block gas limit ends in `OutOfGas`,
after the implementation has allocated `2^32` bytes for its buffers. -/
theorem modexp_allocates_before_charge :
    hugeModulusInput.length = 96 ∧ Modexp.price hugeModulusInput = u64Max ∧
      ownedExecute Modexp.precompile hugeModulusInput 300000000 = ⟨.error .outOfGas, 2 ^ 32⟩ := by
  have hprice : Modexp.price hugeModulusInput = u64Max := by decide
  have halloc : Modexp.allocated hugeModulusInput = 2 ^ 32 := by decide
  obtain ⟨output, hok⟩ := Modexp.implementation_ok hugeModulusInput
  refine ⟨rfl, hprice, ?_⟩
  rw [ownedExecute_of_lt_price Modexp.precompile hugeModulusInput _ output hok
    (by simp only [Modexp.precompile, hprice, u64Max]; omega)]
  simp only [Modexp.precompile, halloc]

/-- `words` rounds down where the Ethereum price counts started words: for every input whose
length is not a multiple of 32, `Sha256::price` is 12 below `60 + 12 * ceil(len / 32)`. -/
theorem sha256_price_add_twelve (source : List UInt8) (h : source.length % 32 ≠ 0) :
    Sha256.price source + 12 = 60 + 12 * ((source.length + 31) / 32) := by
  simp only [Sha256.price, words]
  omega

end VelasChain.Evm
