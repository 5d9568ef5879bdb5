import Silk.GoNetAddress
import Silk.GoNetParse
import Silk.GoNetRoundTrip
import Silk.GoNetRange
import Silk.ResumptionInterleaving
import Silk.ControllerDatabase
import Silk.LeaserCIDRPool
import Silk.LeaserOverlay
import Silk.LeaserController
import Silk.LeaserGeometry
import Silk.ResumptionSequential
import Silk.LeaserRules
import Silk.LeaserSharing
import Silk.LeaserAtomic
import Silk.LeaserAllocation
import Silk.LeaserExclusivity
import Silk.LeaserFreshness
import Silk.LeaserReclaim
import Silk.LeaserContention
import Silk.LeaserReconfiguration
import Silk.LeaserMembership
import Silk.LeaserRenewal
import Silk.LeaserHosts
import Silk.LeaserFailure
import Silk.LeaserConfirmation
import Silk.DaemonInstallation
import Silk.DaemonConvergence
import Silk.LeaserValidity
import Silk.DaemonHost
import Silk.ResumptionTriple
import Silk.DaemonVtep
import Silk.DaemonStart
import Silk.DaemonRecovery
import Silk.StoppingLoop
import Silk.DaemonPlanner
import Silk.SortedMap
import Silk.DatastorePool
import Silk.DatastoreFailure
import Silk.ResumptionLock
import Silk.DatastoreRefinement
import Silk.DaemonConfinement
import Silk.LeaserEnumeration
import Silk.ControllerConfig
import Silk.LeaserConstruction
import Silk.LeaserPrefixLengths
import Silk.LeaserClassification
import Silk.CniFlannel
import Silk.CniNames
import Silk.CniLinks
import Silk.CniBasicSetup
import Silk.CniPlugin
import Silk.CniKernel
import Silk.CniTeardown
import Silk.CniMetadata
import Silk.GoJsonRecord
import Silk.ControllerClient
import Silk.ControllerNetwork
import Silk.DaemonForwarding
import Silk.DaemonStabilization
import Silk.FleetForwarding
import Silk.FleetRecovery
import Silk.CellAgreement
import Silk.ControllerTenancy
import Silk.DaemonOccupancy
import Silk.FleetExclusivity
import Silk.CniDiscovery
import Silk.CellContainers
