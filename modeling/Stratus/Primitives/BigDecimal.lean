import Stratus.Primitives.Basic

/-!
# `NUMERIC` values as `sqlx` and `bigdecimal` hand them to the code

`block_number.rs:135–141,182–199` and `postgres_permanent.rs:85–97,731–740` read a `NUMERIC`
as a `BigDecimal` and convert it through its decimal text. The crates that do so are not in the
source. On integral values this module models `sqlx`'s `NUMERIC` decode, `BigDecimal`'s `+` and
`Display` (`bigdecimal` 0.4 with its default thresholds) and `uint`'s `from_str_radix`, one stage
each.
-/

namespace Stratus

/-- `BigDecimal` of the `bigdecimal` crate: the value `intVal * 10 ^ (-scale)`. -/
structure BigDecimal where
  intVal : Int
  scale : Int
  deriving DecidableEq, Repr

namespace BigDecimal

/-- `BigDecimal::from` an integer: the integer at scale `0`. -/
def ofInt (v : Int) : BigDecimal := ⟨v, 0⟩

/-- `Add for BigDecimal`: a zero operand gives the other one; otherwise the operand of the
smaller scale is brought to the larger one before the digits are added. -/
def add (a b : BigDecimal) : BigDecimal :=
  if b.intVal = 0 then a
  else if a.intVal = 0 then b
  else if a.scale ≤ b.scale then ⟨a.intVal * 10 ^ (b.scale - a.scale).toNat + b.intVal, b.scale⟩
  else ⟨a.intVal + b.intVal * 10 ^ (a.scale - b.scale).toNat, a.scale⟩

/-- The number of base-10000 zero digits that end `n`, none for `0`; `n` bounds the recursion. -/
def zeroGroups (n : Nat) : Nat := go n n
where
  /-- The count, with `fuel` steps left. -/
  go : Nat → Nat → Nat
    | 0, _ => 0
    | fuel + 1, n => if n ≠ 0 ∧ n % 10000 = 0 then go fuel (n / 10000) + 1 else 0

/-- `Decode<Postgres> for BigDecimal` of `sqlx` on an integral `NUMERIC`: Postgres sends the
base-10000 digits without the zero digits that end them, and `sqlx` keeps the sign and the
digits sent, at scale `-4` for each digit dropped; zero decodes at scale `0`. -/
def ofNumeric (v : Int) : BigDecimal :=
  let groups := zeroGroups v.natAbs
  let magnitude : Int := (v.natAbs / 10000 ^ groups : Nat)
  ⟨if v < 0 then -magnitude else magnitude, -((4 * groups : Nat) : Int)⟩

/-- The text `BigDecimal::to_string` writes, as far as a reader of digits tells texts apart: an
integer numeral with its sign, one with an exponent (`1e+16`), or one with a decimal point. -/
inductive Numeral where
  | plain (negative : Bool) (digits : Nat)
  | exponential (negative : Bool) (mantissa exponent : Nat)
  | fractional
  deriving DecidableEq, Repr

/-- `bigdecimal`'s default `EXPONENTIAL_FORMAT_TRAILING_ZERO_THRESHOLD`. -/
def EXPONENTIAL_FORMAT_TRAILING_ZERO_THRESHOLD : Nat := 15

/-- `Display for BigDecimal` (`bigdecimal` 0.4): a positive scale writes digits after a point;
a negative one writes its zeros out unless there are more than
`EXPONENTIAL_FORMAT_TRAILING_ZERO_THRESHOLD` of them, when it writes an exponent. -/
def toNumeral (d : BigDecimal) : Numeral :=
  if 0 < d.scale then .fractional
  else if EXPONENTIAL_FORMAT_TRAILING_ZERO_THRESHOLD < d.scale.natAbs then
    .exponential (decide (d.intVal < 0)) d.intVal.natAbs d.scale.natAbs
  else .plain (decide (d.intVal < 0)) (d.intVal.natAbs * 10 ^ d.scale.natAbs)

/-- With enough fuel, the powers of 10000 dividing `n` are those up to the count. -/
theorem pow_dvd_iff_le_go : ∀ (fuel n k : Nat), n ≠ 0 → n ≤ fuel →
    (10000 ^ k ∣ n ↔ k ≤ zeroGroups.go fuel n)
  | 0, n, _, h0, hn => absurd (Nat.le_zero.mp hn) h0
  | fuel + 1, n, 0, _, _ => by simp
  | fuel + 1, n, k + 1, h0, hn => by
    rw [zeroGroups.go]
    by_cases hm : n % 10000 = 0
    · have hq : n / 10000 ≠ 0 := fun h => h0 (by omega)
      rw [if_pos ⟨h0, hm⟩, Nat.add_le_add_iff_right,
        ← pow_dvd_iff_le_go fuel (n / 10000) k hq (by omega), pow_succ,
        Nat.dvd_div_iff_mul_dvd (Nat.dvd_of_mod_eq_zero hm), Nat.mul_comm]
    · rw [if_neg fun h => hm h.2]
      simp only [Nat.le_zero, Nat.add_one_ne_zero, iff_false]
      exact fun h => hm (Nat.mod_eq_zero_of_dvd ((dvd_pow_self 10000 k.succ_ne_zero).trans h))

/-- The power of 10000 counted divides the number. -/
theorem pow_zeroGroups_dvd (n : Nat) : 10000 ^ zeroGroups n ∣ n := by
  rcases Nat.eq_zero_or_pos n with rfl | hn
  · exact dvd_zero _
  · exact (pow_dvd_iff_le_go n n _ hn.ne' le_rfl).mpr le_rfl

/-- Four or more zero digits end exactly the non-zero multiples of `10 ^ 16`. -/
theorem four_le_zeroGroups_iff (n : Nat) : 4 ≤ zeroGroups n ↔ n ≠ 0 ∧ 10 ^ 16 ∣ n := by
  rcases Nat.eq_zero_or_pos n with rfl | hn
  · exact iff_of_false (by decide) fun h => h.1 rfl
  · rw [show (10 : Nat) ^ 16 = 10000 ^ 4 by norm_num, pow_dvd_iff_le_go n n 4 hn.ne' le_rfl]
    exact ⟨fun h => ⟨hn.ne', h⟩, And.right⟩

/-- A decoded `NUMERIC` has no digits after the point, and four zeros per dropped digit. -/
theorem ofNumeric_scale (v : Int) : (ofNumeric v).scale.natAbs = 4 * zeroGroups v.natAbs ∧
    (ofNumeric v).scale ≤ 0 := by
  simp only [ofNumeric]
  omega

/-- Decoding a `NUMERIC` keeps its value. -/
theorem intVal_mul_ofNumeric (v : Int) :
    (ofNumeric v).intVal * 10 ^ (ofNumeric v).scale.natAbs = v := by
  have hp : (10 : Int) ^ (4 * zeroGroups v.natAbs) = ((10000 ^ zeroGroups v.natAbs : Nat) : Int) := by
    rw [pow_mul]
    norm_num
  have hm : ((v.natAbs / 10000 ^ zeroGroups v.natAbs : Nat) : Int) * (10000 ^ zeroGroups v.natAbs : Nat)
      = v.natAbs := by
    rw [← Nat.cast_mul, Nat.div_mul_cancel (pow_zeroGroups_dvd _)]
  rw [(ofNumeric_scale v).1, hp]
  simp only [ofNumeric]
  split_ifs
  · rw [neg_mul, hm]
    omega
  · rw [hm]
    omega

/-- Adding one to a decoded `NUMERIC` gives the successor at scale `0`: a negative scale is
brought up to the integer's. -/
theorem ofNumeric_add_one (v : Int) : (ofNumeric v).add (ofInt 1) = ofInt (v + 1) := by
  have hv := intVal_mul_ofNumeric v
  obtain ⟨_, hs0⟩ := ofNumeric_scale v
  simp only [add, ofInt, one_ne_zero, if_false]
  split_ifs with h0
  · rw [h0, zero_mul] at hv
    subst hv
    rfl
  · rw [show (0 - (ofNumeric v).scale).toNat = (ofNumeric v).scale.natAbs by omega, hv]

end BigDecimal

open BigDecimal

/-- `U64::from_str_radix(text, 10)` of the `uint` crate: the value of an integer numeral without
sign below `2 ^ 64`; a sign, a point or an exponent is an invalid character, and a larger value
overflows. Its error texts are not modelled. -/
def u64FromStrRadix : Numeral → Except String UInt64
  | .plain false digits =>
    if digits < 2 ^ 64 then .ok (UInt64.ofNat digits) else .error "invalid block number"
  | _ => .error "invalid block number"

/-- The parser reads exactly the unsigned numerals of `U64` values. -/
theorem u64FromStrRadix_eq_ok_iff (text : Numeral) (n : UInt64) :
    u64FromStrRadix text = .ok n ↔ text = .plain false n.toNat := by
  match text with
  | .plain false digits =>
    have hn := n.toNat_lt_size
    simp only [u64FromStrRadix, Numeral.plain.injEq, true_and]
    split_ifs with h
    · rw [Except.ok.injEq]
      exact ⟨fun e => e ▸ (UInt64.toNat_ofNat_of_lt h).symm,
        fun e => UInt64.toNat.inj (by rw [UInt64.toNat_ofNat_of_lt h, e])⟩
    · exact iff_of_false nofun fun e => h (by simp only [UInt64.size] at hn; omega)
  | .plain true _ | .exponential .. | .fractional => exact iff_of_false nofun nofun

end Stratus
