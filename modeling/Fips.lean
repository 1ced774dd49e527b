import Fips.Bloom.Aggregation
import Fips.Bloom.Deadlines
import Fips.Dataplane.Fairness
import Fips.Dataplane.ReassemblyMixing
import Fips.Dataplane.ShardRuns
import Fips.Dataplane.WorkerQueue
import Fips.Limits.Forwarding
import Fips.Lookup.RecentRuns
import Fips.Noise.KeySchedule
import Fips.Noise.Session
import Fips.Noise.Transactional
import Fips.Peer.IndexRuns
import Fips.Rekey.Splits
import Fips.Relay.Buyer.Runs
import Fips.Relay.Conservative
import Fips.Routing.PathMtu
import Fips.Transport.CreditRuns
import Fips.Tree.Dampening
import Fips.Tree.Greedy
import Fips.Tree.Honest
import Fips.Tun.Ipv6Shim
import Fips.Tun.Prepare
import Fips.Tun.TcpMss
import Fips.Mmp.Estimators
import Fips.Relay.Selection
