import Sharecoin.Chain.EpochRequests
import Sharecoin.Rpc.MiningProperties
import Sharecoin.Rpc.RandomBeaconProperties
import Sharecoin.Validation.ChainCoins
import Sharecoin.Net.HeadersSyncComplete
import Sharecoin.Net.HeadersSyncLength
import Sharecoin.Node.TxOrphanageLimits
import Sharecoin.Validation.ChainSelection
import Sharecoin.Psbt.AddInput
import Sharecoin.Psbt.CombineOrder
import Sharecoin.Wallet.FeeSubtraction
import Sharecoin.Node.PruneLimits
import Sharecoin.Net.AddrManCheck
import Sharecoin.Pow.ProofCheck
import Sharecoin.Pow.LwmaBounds
import Sharecoin.Chain.VersionBitsProperties
import Sharecoin.Wallet.CoinSelectionProperties
import Sharecoin.Script.TaprootSignatureHash
import Sharecoin.Script.ScriptNum
import Sharecoin.Util.FeeFracMath
import Sharecoin.Util.Asmap
import Sharecoin.Util.CompareChunks
import Sharecoin.CuckooCache
import Sharecoin.Validation.LockTimes
