import Stratus.Primitives.Basic
import Stratus.Primitives.BigDecimal
import Stratus.Primitives.BlockNumber
import Stratus.Primitives.BlockHeader
import Stratus.Primitives.Transaction
import Stratus.Relayer.StableDag
import Stratus.Relayer.TransactionDag
import Stratus.Relayer.TakeRoots
import Stratus.Relayer.Construction
import Stratus.Relayer.Waves
import Stratus.Relayer.Layering
import Stratus.Storage.Rocks.State
import Stratus.Storage.Rocks.SaveBlock
import Stratus.Storage.Rocks.Counter
import Stratus.Storage.Rocks.Indexes
import Stratus.Storage.Rocks.Tps
import Stratus.Storage.Postgres.ReadBlock
import Stratus.Storage.Postgres.ReadTransaction
import Stratus.Storage.Postgres.Store
import Stratus.Storage.Postgres.SaveBlock
import Stratus.Storage.Backends
import Stratus.Consensus.AppendEntries
