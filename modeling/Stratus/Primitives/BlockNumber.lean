import Stratus.Primitives.BigDecimal

/-!
# Block numbers

`src/src/eth/primitives/block_number.rs:40–89`. A block number is a 64-bit unsigned value;
its hash is keccak-256 of its 8-byte big-endian encoding (`From<BlockNumber> for [u8; 8]`,
line 173), and `prev` is the only guarded subtraction. Keccak-256 is the external
`ethers_core::utils::keccak256` and is a parameter of every statement that hashes.

In Postgres a block number is a `NUMERIC`, written as its value and read back through the text
of a `BigDecimal` (lines 135–141, 182–199).
-/

namespace Stratus.BlockNumber

/-- `BlockNumber::ZERO`. -/
def ZERO : BlockNumber := 0

/-- `BlockNumber::is_zero`, line 65. -/
def isZero (n : BlockNumber) : Bool := n == 0

/-- `BlockNumber::prev`, lines 51–57: `None` at zero, else the `U64` difference. -/
def prev (n : BlockNumber) : Option BlockNumber :=
  if n.isZero then none else some (n - 1)

/-- `From<BlockNumber> for [u8; 8]`, line 173: `as_u64().to_be_bytes()`, most significant
byte first. -/
def toBeBytes (n : BlockNumber) : List UInt8 :=
  List.ofFn fun i : Fin 8 => UInt8.ofNat (n.toNat / 256 ^ (7 - i.val) % 256)

/-- `BlockNumber::hash`, lines 46–48: keccak-256 of the big-endian encoding. -/
def hash (keccak256 : List UInt8 → Hash) (n : BlockNumber) : Hash :=
  keccak256 (toBeBytes n)

/-- Reading bytes back most significant first, the inverse of `to_be_bytes`. -/
def ofBeBytes (bytes : List UInt8) : Nat :=
  bytes.foldl (fun acc b => acc * 256 + b.toNat) 0

private theorem toNat_byte (x : Nat) : (UInt8.ofNat (x % 256)).toNat = x % 256 :=
  UInt8.toNat_ofNat_of_lt (Nat.mod_lt _ (by decide))

private theorem div_pow_succ (x k : Nat) :
    x / 256 ^ (k + 1) * 256 + x / 256 ^ k % 256 = x / 256 ^ k := by
  rw [Nat.pow_succ, ← Nat.div_div_eq_div_mul]
  exact Nat.div_add_mod' _ _

/-- The encoding is always eight bytes long. -/
theorem length_toBeBytes (n : BlockNumber) : (toBeBytes n).length = 8 :=
  List.length_ofFn _

/-- The big-endian encoding loses nothing: it decodes to the number itself. -/
theorem ofBeBytes_toBeBytes (n : BlockNumber) : ofBeBytes (toBeBytes n) = n.toNat := by
  have hn : n.toNat / 256 ^ 7 < 256 := Nat.div_lt_of_lt_mul n.toNat_lt_size
  simp only [ofBeBytes, toBeBytes, List.ofFn_succ, List.ofFn_zero, List.foldl_cons,
    List.foldl_nil, toNat_byte, Fin.val_zero, Fin.val_succ, Nat.zero_mul, Nat.zero_add,
    Nat.reduceAdd, Nat.reduceSub]
  -- each byte and the number above it recombine, from the most significant byte down
  rw [Nat.mod_eq_of_lt hn]
  simp only [div_pow_succ]
  rw [Nat.pow_zero, Nat.div_one]

/-- Distinct block numbers hash distinct preimages. -/
theorem toBeBytes_injective : Function.Injective toBeBytes := by
  intro m n h
  apply UInt64.toNat.inj
  rw [← ofBeBytes_toBeBytes m, ← ofBeBytes_toBeBytes n, h]

/-- `prev` of a non-zero number is its predecessor, including near `U64::MAX`. -/
theorem prev_of_ne_zero {n : BlockNumber} (h : n ≠ 0) :
    prev n = some (n - 1) ∧ (n - 1).toNat = n.toNat - 1 := by
  have h1 : (1 : UInt64) ≤ n := by
    rw [UInt64.le_def, BitVec.le_def]
    have : n.toNat ≠ 0 := fun h0 => h (UInt64.toNat.inj h0)
    simp only [UInt64.toBitVec_ofNat, BitVec.toNat_ofNat]
    change 1 ≤ n.toNat
    omega
  refine ⟨by simp [prev, isZero, h], UInt64.toNat_sub_of_le n 1 h1⟩

/-- `prev` of zero is `None`. -/
@[simp] theorem prev_zero : prev 0 = none := rfl

/-- `TryFrom<BlockNumber> for i64`, lines 165–170: fails above `i64::MAX` with the message of
`TryFromIntError`. -/
def toI64 (n : BlockNumber) : Except String Int :=
  if n.toNat < 2 ^ 63 then .ok n.toNat else .error "out of range integral type conversion attempted"

/-- `TryFrom<BigDecimal> for BlockNumber`, lines 135–141: `to_string` parsed by
`U64::from_str_radix(_, 10)`. -/
def tryFromBigDecimal (value : BigDecimal) : Except String BlockNumber :=
  u64FromStrRadix value.toNumeral

open BigDecimal in
/-- On a value without digits after the point, the conversion succeeds exactly when the text
writes its zeros out, and gives the block number of its value. -/
theorem tryFromBigDecimal_eq_ok_iff {d : BigDecimal} (hs : d.scale ≤ 0) (n : BlockNumber) :
    tryFromBigDecimal d = .ok n ↔ d.scale.natAbs ≤ EXPONENTIAL_FORMAT_TRAILING_ZERO_THRESHOLD ∧
      d.intVal * 10 ^ d.scale.natAbs = n.toNat := by
  rw [tryFromBigDecimal, u64FromStrRadix_eq_ok_iff, toNumeral, if_neg (not_lt.mpr hs)]
  split_ifs with h
  · exact iff_of_false nofun fun h' => absurd h'.1 (not_le.mpr h)
  · have hp : (0 : Int) < 10 ^ d.scale.natAbs := by positivity
    rw [Numeral.plain.injEq, decide_eq_false_iff_not, and_iff_right (not_lt.mp h), not_lt]
    constructor
    · rintro ⟨hi, he⟩
      rw [← Int.natAbs_of_nonneg hi, ← he]
      push_cast
      rfl
    · intro he
      have hi : 0 ≤ d.intVal := nonneg_of_mul_nonneg_left (he ▸ Int.ofNat_zero_le _) hp
      refine ⟨hi, Int.ofNat_inj.mp ?_⟩
      push_cast [Int.natAbs_of_nonneg hi]
      exact he

/-- An integer at scale `0` converts exactly to the block number of its value. -/
theorem tryFromBigDecimal_ofInt (v : Int) (n : BlockNumber) :
    tryFromBigDecimal (.ofInt v) = .ok n ↔ v = n.toNat := by
  rw [tryFromBigDecimal_eq_ok_iff le_rfl]
  simp [BigDecimal.ofInt]

/-- `sqlx::Encode<Postgres>`, lines 195–199: the `u64` value as a `NUMERIC`. -/
def encode (n : BlockNumber) : Int := n.toNat

/-- `sqlx::Decode<Postgres>`, lines 182–187: a `NUMERIC` decoded as a `BigDecimal` and read
back through `TryFrom<BigDecimal>`. -/
def decode (value : Int) : Except String BlockNumber :=
  tryFromBigDecimal (.ofNumeric value)

/-- The Postgres column round trip: decoding a `NUMERIC` succeeds exactly on the encodings of
block numbers other than the non-zero multiples of `10 ^ 16`, which `to_string` writes with an
exponent, and returns the block number encoded. -/
theorem decode_eq_ok_iff (value : Int) (n : BlockNumber) :
    decode value = .ok n ↔ encode n = value ∧ ¬(value ≠ 0 ∧ (10 : Int) ^ 16 ∣ value) := by
  obtain ⟨hs, hs0⟩ := BigDecimal.ofNumeric_scale value
  rw [decode, tryFromBigDecimal_eq_ok_iff hs0, BigDecimal.intVal_mul_ofNumeric, hs, encode, eq_comm,
    and_comm]
  refine and_congr_right fun _ => ?_
  rw [show (10 : Int) ^ 16 = ((10 ^ 16 : Nat) : Int) by norm_num, Int.natCast_dvd,
    ← Int.natAbs_ne_zero, ← BigDecimal.four_le_zeroGroups_iff,
    BigDecimal.EXPONENTIAL_FORMAT_TRAILING_ZERO_THRESHOLD]
  omega

example : decode (10 ^ 16) = .error "invalid block number" ∧
    decode (10 ^ 16 + 1) = .ok (10 ^ 16 + 1) := ⟨rfl, rfl⟩

end Stratus.BlockNumber
