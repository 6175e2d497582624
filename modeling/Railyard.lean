import Railyard.Access.Apart
import Railyard.Access.Binding
import Railyard.Access.BodyHash
import Railyard.Access.Ingress
import Railyard.Access.Isolation
import Railyard.Access.Removal
import Railyard.Access.Scoped
import Railyard.Client.Access
import Railyard.Client.Alike
import Railyard.Client.Bindings
import Railyard.Client.Commands
import Railyard.Client.Deeds
import Railyard.Client.Deployment
import Railyard.Client.Identities
import Railyard.Client.KeyFiles
import Railyard.Client.Mirror
import Railyard.Client.Names
import Railyard.Client.Nearest
import Railyard.Client.Pruning
import Railyard.Client.Refinement
import Railyard.Client.Relink
import Railyard.Client.Removal
import Railyard.Client.Signing
import Railyard.Client.Target
import Railyard.Data.Base64
import Railyard.Data.Encoding
import Railyard.Data.JsonText
import Railyard.Data.PercentEncoding
import Railyard.Data.ReplayWindow
import Railyard.Data.Table
import Railyard.Effects.Alone
import Railyard.Effects.Interleaving
import Railyard.Effects.Restart
import Railyard.Effects.Serial
import Railyard.Enrolment.Accounts
import Railyard.Enrolment.Blob
import Railyard.Enrolment.Integrity
import Railyard.Enrolment.Redemption
import Railyard.Enrolment.Restarts
import Railyard.Manifest.Cycles
import Railyard.Manifest.Paths
import Railyard.Manifest.References
import Railyard.Manifest.RoundTrip
import Railyard.Manifest.Scanning
import Railyard.Manifest.StartOrder
import Railyard.Manifest.Volumes
import Railyard.Replay.Concurrent
import Railyard.Replay.Restarts
import Railyard.Server.Proxy
import Railyard.Server.Restart
import Railyard.Storage.Answers
import Railyard.Storage.Confinement
import Railyard.Storage.Conflicts
import Railyard.Storage.Listing
import Railyard.Storage.Receipt
import Railyard.Storage.Releases
import Railyard.Storage.Restarts
import Railyard.Storage.Truth
