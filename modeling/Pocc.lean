import Pocc.Lib.Bytes
import Pocc.Lib.SortedMap
import Pocc.Lib.KeyedSum
import Pocc.Lib.Fallible
import Pocc.Lib.StoreProg
import Pocc.Lib.CacheKV
import Pocc.Lib.Ring
import Pocc.Store.CacheKV
import Pocc.Types.Error
import Pocc.Types.Dec
import Pocc.Types.Coin
import Pocc.Types.CoinAlgebra
import Pocc.Types.DecCoin
import Pocc.Auth.Account
import Pocc.Bank.Keeper
import Pocc.Supply.Keeper
import Pocc.Distribution.FeePool
import Pocc.Token.Keeper
import Pocc.Bank.Handler
import Pocc.Supply.Conservation
import Pocc.Store.Gas
import Pocc.Baseapp.RunTx
import Pocc.Token.Authority
import Pocc.Staking.Types
import Pocc.Staking.Store
import Pocc.Staking.Keeper
import Pocc.Staking.Slash
import Pocc.Staking.ValStateChange
import Pocc.Staking.Handler
import Pocc.Staking.Chain
import Pocc.Staking.Invariant
import Pocc.Staking.PowerIndex
import Pocc.Distribution.Allocation
import Pocc.Staking.Commission
import Pocc.Staking.SlashPanic
import Pocc.Staking.Hooks
import Pocc.Slashing.Keeper
import Pocc.Slashing.Liveness
import Pocc.Auth.Vesting
import Pocc.Auth.Ante
import Pocc.Bank.MultiSend
import Pocc.Types.DecQuo
import Pocc.Mint.Abci
import Pocc.Mint.Schedule
import Pocc.Staking.ExchangeRate
import Pocc.Gov.Tally
import Pocc.Lib.Assoc
import Pocc.Store.CacheIterator
import Pocc.Lib.ByteOrder
import Pocc.Lib.GoText
import Pocc.Staking.Keys
import Pocc.Types.DecString
import Pocc.Staking.CompleteUnbonding
import Pocc.Store.Prefix
import Pocc.Types.DecCoinTruncate
import Pocc.Lib.Calendar
import Pocc.Lib.Heap
import Pocc.Lib.TimeQueue
import Pocc.Staking.Frozen
import Pocc.Staking.Queue
import Pocc.Staking.ValidatorCache
import Pocc.Distribution.Keeper
import Pocc.Staking.Shares
import Pocc.Distribution.References
import Pocc.Distribution.Chain
