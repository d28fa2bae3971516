import Stratus.Primitives.BlockNumber

/-!
# Block headers and their upstream encoding

`src/src/eth/primitives/block_header.rs`. `BlockHeader::new` (lines 62–79) mints a local
header whose hash and parent hash are block-number hashes; `From<BlockHeader> for EthersBlock`
(lines 110–159) is the encoding served over JSON-RPC, and `TryFrom<&ExternalBlock> for
BlockHeader` (lines 165–189) reads an upstream block back. The encoder writes constants for
several fields, so the round trip is exact only on the others (`tryFrom_ofBlockHeader`).
Keccak-256 and `Address::COINBASE` are outside the source and are parameters.
-/

namespace Stratus

/-- `HASH_EMPTY_UNCLES`, line 29. -/
def HASH_EMPTY_UNCLES : Hash :=
  0x1dcc4de8dec75d7aab85b567b6ccd41ad312451b948a7413f0a142fd40d49347#256

/-- `HASH_EMPTY_TRIE`, line 32. -/
def HASH_EMPTY_TRIE : Hash :=
  0x56e81f171bcc55a6ff8345e692c0f86e5b48e01b996cadc001622fb5e363b421#256

/-- `BlockHeader`, lines 34–54, with every field. -/
structure BlockHeader where
  number : BlockNumber
  hash : Hash
  transactionsRoot : Hash
  gasUsed : Gas
  gasLimit : Gas
  bloom : LogsBloom
  timestamp : UnixTime
  parentHash : Hash
  author : Address
  extraData : Bytes
  miner : Address
  difficulty : Difficulty
  receiptsRoot : Hash
  uncleHash : Hash
  size : Size
  stateRoot : Hash
  totalDifficulty : Difficulty
  nonce : MinerNonce
  deriving DecidableEq, Repr

namespace BlockHeader

/-- `BlockHeader::new`, lines 58–79: the header of a locally mined block. -/
def new (keccak256 : List UInt8 → Hash) (number : BlockNumber) (timestamp : UnixTime) :
    BlockHeader where
  number := number
  hash := BlockNumber.hash keccak256 number
  transactionsRoot := HASH_EMPTY_TRIE
  gasUsed := 0
  gasLimit := 0
  bloom := 0
  timestamp := timestamp
  parentHash := ((BlockNumber.prev number).map (BlockNumber.hash keccak256)).getD 0
  author := 0
  extraData := []
  miner := 0
  difficulty := 0
  receiptsRoot := HASH_EMPTY_TRIE
  uncleHash := HASH_EMPTY_UNCLES
  size := 0
  stateRoot := HASH_EMPTY_TRIE
  totalDifficulty := 0
  nonce := 0

/-- Locally mined headers form a hash chain: the parent hash of header `n` is the hash of
header `n - 1` whatever the two timestamps, and the genesis parent hash is zero. -/
theorem new_parentHash_chain (keccak256 : List UInt8 → Hash) (n : BlockNumber)
    (t t' : UnixTime) (hn : n ≠ 0) :
    (new keccak256 n t).parentHash = (new keccak256 (n - 1) t').hash ∧
      (new keccak256 0 t).parentHash = 0 := by
  refine ⟨?_, rfl⟩
  simp [new, (BlockNumber.prev_of_ne_zero hn).1]

/-- Block 1 links to block 0, under a stand-in hash that reads the eight bytes back, so that
distinct block numbers hash apart. -/
theorem new_parentHash_chain_one :
    (1 : BlockNumber) ≠ 0 ∧
      ((new (fun bytes => BitVec.ofNat 256 (BlockNumber.ofBeBytes bytes)) 1 1234567891).parentHash =
          (new (fun bytes => BitVec.ofNat 256 (BlockNumber.ofBeBytes bytes)) (1 - 1)
            1234567890).hash ∧
        (new (fun bytes => BitVec.ofNat 256 (BlockNumber.ofBeBytes bytes)) 0
          1234567891).parentHash = 0) :=
  ⟨by decide, new_parentHash_chain _ 1 1234567891 1234567890 (by decide)⟩

end BlockHeader

/-- The fields of `ethers_core::types::Block` that the encoder writes and the decoder reads;
the transaction list, mix hash, seal fields, base fee, blob, withdrawal and beacon fields are
never read back and are left out. -/
structure EthersBlock where
  hash : Option Hash
  number : Option BlockNumber
  parentHash : Hash
  unclesHash : Hash
  author : Option Address
  stateRoot : Hash
  transactionsRoot : Hash
  receiptsRoot : Hash
  gasUsed : U256
  gasLimit : U256
  extraData : Bytes
  logsBloom : Option LogsBloom
  timestamp : U256
  difficulty : U256
  totalDifficulty : Option U256
  size : Option U256
  nonce : Option MinerNonce
  deriving DecidableEq, Repr

/-- `From<BlockHeader> for EthersBlock`, lines 110–159. `Address::COINBASE` is a parameter. -/
def EthersBlock.ofBlockHeader (COINBASE : Address) (header : BlockHeader) : EthersBlock where
  hash := some header.hash
  number := some header.number
  parentHash := header.parentHash
  unclesHash := HASH_EMPTY_UNCLES
  author := some COINBASE
  stateRoot := header.stateRoot
  transactionsRoot := header.transactionsRoot
  receiptsRoot := HASH_EMPTY_TRIE
  gasUsed := U256.ofU64 header.gasUsed
  gasLimit := U256.ofU64 100000000
  extraData := []
  logsBloom := some header.bloom
  timestamp := U256.ofU64 header.timestamp
  difficulty := 0
  totalDifficulty := some 0
  size := some (U256.ofU64 header.size)
  nonce := some 0

/-- `ExternalBlock(EthersBlock<ExternalTransaction>)`: fields are read through `Deref`. -/
structure ExternalBlock where
  inner : EthersBlock

namespace ExternalBlock

/-- Modelled from the spec: `ExternalBlock::number` (external_block.rs is not in the
source) reads the `number` field, which an upstream block always carries. -/
def number (b : ExternalBlock) : Except String BlockNumber :=
  match b.inner.number with
  | some n => .ok n
  | none => .error "external block without number"

/-- Modelled from the spec: `ExternalBlock::hash` reads the `hash` field. -/
def hash (b : ExternalBlock) : Except String Hash :=
  match b.inner.hash with
  | some h => .ok h
  | none => .error "external block without hash"

/-- Modelled from the spec: `ExternalBlock::author` reads the `author` field, zero when
absent. -/
def author (b : ExternalBlock) : Address := b.inner.author.getD 0

end ExternalBlock

/-- `TryFrom<&ExternalBlock> for BlockHeader`, lines 165–189. The `U256` to 64-bit
conversions of gas, size and timestamp are the fallible steps. -/
def BlockHeader.tryFromExternalBlock (value : ExternalBlock) : Except String BlockHeader := do
  let number ← value.number
  let hash ← value.hash
  let gasUsed ← U256.toU64 value.inner.gasUsed
  let gasLimit ← U256.toU64 value.inner.gasLimit
  let size ← U256.toU64 (value.inner.size.getD 0)
  let timestamp ← U256.toU64 value.inner.timestamp
  pure
    { number, hash, gasUsed, gasLimit, size, timestamp
      transactionsRoot := value.inner.transactionsRoot
      bloom := value.inner.logsBloom.getD 0
      parentHash := value.inner.parentHash
      author := value.author
      extraData := value.inner.extraData
      miner := value.inner.author.getD 0
      difficulty := value.inner.difficulty
      receiptsRoot := value.inner.receiptsRoot
      uncleHash := value.inner.unclesHash
      stateRoot := value.inner.stateRoot
      totalDifficulty := value.inner.totalDifficulty.getD 0
      nonce := value.inner.nonce.getD 0 }

namespace BlockHeader

/-- Every header decodes back from its encoding, with exactly the fields the encoder writes
as constants replaced: receipts root, gas limit, author, miner and extra data, besides the
difficulty, uncle-hash and nonce sentinels. -/
theorem tryFrom_ofBlockHeader (COINBASE : Address) (h : BlockHeader) :
    tryFromExternalBlock ⟨EthersBlock.ofBlockHeader COINBASE h⟩ =
      .ok { h with
        receiptsRoot := HASH_EMPTY_TRIE, gasLimit := 100000000, author := COINBASE,
        miner := COINBASE, extraData := [], difficulty := 0, uncleHash := HASH_EMPTY_UNCLES,
        totalDifficulty := 0, nonce := 0 } := by
  simp [tryFromExternalBlock, EthersBlock.ofBlockHeader, ExternalBlock.number,
    ExternalBlock.hash, ExternalBlock.author]
  rfl

/-- The header with the four always-constant sentinels cleared. -/
def withoutSentinels (h : BlockHeader) : BlockHeader :=
  { h with difficulty := 0, totalDifficulty := 0, nonce := 0, uncleHash := 0 }

/-- The encoding does not round-trip every non-sentinel field: a header with gas limit 0
(such as every header from `BlockHeader::new`) comes back with gas limit `100_000_000`. -/
theorem not_roundTrip_gasLimit :
    ¬ ∀ (COINBASE : Address) (h : BlockHeader),
      (tryFromExternalBlock ⟨EthersBlock.ofBlockHeader COINBASE h⟩).map withoutSentinels =
        .ok h.withoutSentinels := by
  intro hall
  have h := congrArg (fun r => r.toOption.map gasLimit) (hall 0 (new (fun _ => 0) 0 0))
  revert h
  decide

end BlockHeader

end Stratus
