import Tempo.Block.Sections
import Tempo.Consensus.StreamSoundness
import Tempo.DebankRpc.Lookups
import Tempo.Dex.TickBitmap
import Tempo.FeeManager.Dilution
import Tempo.FeeManager.Reservation
import Tempo.Guard.Custody
import Tempo.Handler.MultiCall
import Tempo.Keychain.LimitViews
import Tempo.Keychain.InlineAuthorization
import Tempo.Keychain.ScopeRefinement
import Tempo.Nonce.Replay
import Tempo.Replay.ExpiringNonce
import Tempo.Replay.Shapes
import Tempo.Reserve.Custody
import Tempo.StorageCredits.Runs
import Tempo.Tip20.RewardSolvency
import Tempo.Tip403.Authorization
import Tempo.Tip403.PolicyBindings
import Tempo.Transaction.Quorum
import Tempo.Transaction.RoundTrip
import Tempo.TxPool.AmmCache
import Tempo.Validators.History
import Tempo.Validators.Migration
import Tempo.ZoneNode.ExclusiveProduction
import Tempo.ZoneRpc.LogIdentity
import Tempo.Zones.Capacity
import Tempo.Zones.Roles
