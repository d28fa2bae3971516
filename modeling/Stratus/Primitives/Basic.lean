import Mathlib

/-!
# Fixed-width primitive values

The newtypes of `src/src/eth/primitives` that the modelled functions read, each as the
fixed-width type of its Rust payload. Hashes and addresses are opaque byte strings; the
numeric ones keep the width of their `U64`, `u64` or `U256` payload, so that every model
ranges over exactly the values the code can hold.
-/

namespace Stratus

/-- `Address(H160)`: a 20-byte account identifier. -/
abbrev Address := BitVec 160

/-- `Hash(H256)`: a 32-byte hash (block, transaction or trie root). -/
abbrev Hash := BitVec 256

/-- `SlotIndex(U256)`: the key of a storage slot under an account. -/
abbrev SlotIndex := BitVec 256

/-- `SlotValue(U256)`. -/
abbrev SlotValue := BitVec 256

/-- `Wei(U256)`: an account balance. -/
abbrev Wei := BitVec 256

/-- `Nonce(U64)`. -/
abbrev Nonce := UInt64

/-- `Index(u64)`: the position of a transaction in its block, or of a log. -/
abbrev Index := UInt64

/-- `BlockNumber(U64)`; its operations are in `Stratus.Primitives.BlockNumber`. -/
abbrev BlockNumber := UInt64

/-- `Gas(U64)`. -/
abbrev Gas := UInt64

/-- `Size(U64)`. -/
abbrev Size := UInt64

/-- `UnixTime(u64)`: seconds since the epoch. -/
abbrev UnixTime := UInt64

/-- `Difficulty(U256)`. -/
abbrev Difficulty := BitVec 256

/-- `MinerNonce(H64)`. -/
abbrev MinerNonce := BitVec 64

/-- `LogsBloom(Bloom)`: the 256-byte bloom filter. -/
abbrev LogsBloom := BitVec 2048

/-- `Bytes(Vec<u8>)`. -/
abbrev Bytes := List UInt8

/-- `ethereum_types::U256`, the width of every quantity in the upstream block schema. -/
abbrev U256 := BitVec 256

/-- The order of the 64-bit newtypes is the order of their values. -/
theorem UInt64.lt_iff_toNat_lt (a b : UInt64) : a < b ↔ a.toNat < b.toNat := by
  rw [UInt64.lt_def, BitVec.lt_def]; rfl

theorem UInt64.le_iff_toNat_le (a b : UInt64) : a ≤ b ↔ a.toNat ≤ b.toNat := by
  rw [UInt64.le_def, BitVec.le_def]; rfl

theorem UInt64.eq_iff_toNat_eq (a b : UInt64) : a = b ↔ a.toNat = b.toNat :=
  ⟨congrArg _, UInt64.toNat.inj⟩

/-- Zero-extension `From<U64> for U256`, used for every 64-bit quantity the encoder emits. -/
def U256.ofU64 (n : UInt64) : U256 := BitVec.ofNat 256 n.toNat

/-- `TryFrom<U256>` for the 64-bit newtypes: fails exactly when the value needs more than
64 bits. -/
def U256.toU64 (u : U256) : Except String UInt64 :=
  if u.toNat < 2 ^ 64 then .ok (UInt64.ofNat u.toNat) else .error "integer overflow"

/-- Every 64-bit value comes back from its zero-extension. -/
@[simp] theorem U256.toU64_ofU64 (n : UInt64) : U256.toU64 (U256.ofU64 n) = .ok n := by
  have hn : n.toNat < 2 ^ 64 := n.toNat_lt_size
  have hlt : n.toNat < 2 ^ 256 := by omega
  simp only [toU64, ofU64, BitVec.toNat_ofNat, Nat.mod_eq_of_lt hlt, hn, ↓reduceIte]
  exact congrArg Except.ok (UInt64.toNat.inj (UInt64.toNat_ofNat_of_lt hn))

end Stratus
