import Medea.Properties.SingleAction
import Medea.Properties.Cordon
import Medea.Properties.Convergence
import Medea.Properties.ReadyHost
import Medea.Properties.Snapshots
import Medea.Properties.Disabling
import Medea.Properties.Unarmed
import Medea.Properties.Kubernetes
import Medea.Properties.Resume
import Medea.Properties.Halting
import Medea.Properties.Authorization
import Medea.Properties.Pausing
import Medea.Properties.Requests
import Medea.Properties.Budget
import Medea.Properties.UndoSnapshot
import Medea.Properties.Deletion
import Medea.Properties.RoundTrip
import Medea.Properties.ObservedState
import Medea.Properties.Bookkeeping
import Medea.Properties.OneProvisioning
import Medea.Properties.OwnNode
import Medea.Properties.KubeEndpoint
import Medea.Properties.InstallerImage
import Medea.Properties.Draining
import Medea.Properties.Seeding
import Medea.Properties.PassBounds
import Medea.Properties.ScaleIn
import Medea.Properties.Refreshing
import Medea.Properties.BootChain
import Medea.Properties.BringUp
import Medea.Properties.WatchSnapshot
import Medea.Properties.WatchStream
import Medea.Properties.CredentialFiles
import Medea.Properties.Milestones
import Medea.Properties.Reconnect
