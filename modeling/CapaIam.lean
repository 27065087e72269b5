import CapaIam.Key
import CapaIam.Store
import CapaIam.World
import CapaIam.MachineTemplate
import CapaIam.ManagedControlPlane
import CapaIam.System
import CapaIam.Frame
import CapaIam.WellFormed
import CapaIam.Ownership
import CapaIam.LostUpdate
import CapaIam.SharedRole
import CapaIam.NoLeak
import CapaIam.DeletionStall
import CapaIam.Termination
import CapaIam.Progress
import CapaIam.DeleteProgress
import CapaIam.ControlPlaneProgress
import CapaIam.WaitFree
import CapaIam.Converge
import CapaIam.Isolation
import CapaIam.NonInterference
import CapaIam.ControlPlaneIsolation
import CapaIam.Independence
import CapaIam.Unclaimed
import CapaIam.ClusterRelease
