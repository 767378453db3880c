import NebulaToken.Ports.Deadlines
import NebulaToken.Ports.RubyStores
import NebulaToken.Ports.RubyStrings
import NebulaToken.Safety.Availability
import NebulaToken.Safety.Chain
import NebulaToken.Safety.Collection
import NebulaToken.Safety.ConcurrentRevocation
import NebulaToken.Safety.Conflict
import NebulaToken.Safety.Deadline
import NebulaToken.Safety.Deployment
import NebulaToken.Safety.Fleet
import NebulaToken.Safety.Gate
import NebulaToken.Safety.GraceRetry
import NebulaToken.Safety.IdleDeadline
import NebulaToken.Safety.Minting
import NebulaToken.Safety.NoFork
import NebulaToken.Safety.ReuseDetection
import NebulaToken.Safety.Revocation
import NebulaToken.Safety.Schema
import NebulaToken.Safety.SenderBinding
import NebulaToken.Safety.Sessions
import NebulaToken.Store.BulkRevocation
import NebulaToken.Store.CSharp
