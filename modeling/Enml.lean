import Enml.OsKeys.Service
import Enml.OsUi.Motion
import Enml.Safety.AdmissionPriority
import Enml.Safety.AtomicReplacement
import Enml.Safety.Attestation
import Enml.Safety.BootState
import Enml.Safety.BoundedTree
import Enml.Safety.ClientFault
import Enml.Safety.CollectionSession
import Enml.Safety.ConnectionAdmission
import Enml.Safety.ConnectionSession
import Enml.Safety.Continuations
import Enml.Safety.Correlation
import Enml.Safety.DamageCoverage
import Enml.Safety.DeviceAccess
import Enml.Safety.Duress
import Enml.Safety.EarlyTimer
import Enml.Safety.ExactRevocation
import Enml.Safety.FailedCalls
import Enml.Safety.FaultTrace
import Enml.Safety.GeneratedCodec
import Enml.Safety.GeneratedNames
import Enml.Safety.GuardPage
import Enml.Safety.ImageEntry
import Enml.Safety.InclusionProof
import Enml.Safety.InputTarget
import Enml.Safety.InterruptConservation
import Enml.Safety.KeyAuthority
import Enml.Safety.KeyLifetime
import Enml.Safety.ManifestExactness
import Enml.Safety.ObjectAuthority
import Enml.Safety.OrphanSpace
import Enml.Safety.PackageExactness
import Enml.Safety.PacketConservation
import Enml.Safety.PaintOrder
import Enml.Safety.Partition
import Enml.Safety.PrincipalExactness
import Enml.Safety.ProcessIdentity
import Enml.Safety.QueueOrder
import Enml.Safety.RefusedSwitch
import Enml.Safety.ReservedMemory
import Enml.Safety.RpcErrors
import Enml.Safety.SlotExhaustion
import Enml.Safety.SnapshotRestore
import Enml.Safety.StrandedCaller
import Enml.Safety.UnlockHistory
