import Pocketboot.AbSlots.AllOrNothing
import Pocketboot.AbSlots.PairEffect
import Pocketboot.SpinTable.Parking
import Pocketboot.DeviceTree.Blob
import Pocketboot.DeviceTree.Walk
import Pocketboot.DeviceTree.Strings
import Pocketboot.DeviceTree.Reader
import Pocketboot.Fastboot.Framing
import Pocketboot.Fastboot.StagingDiscipline
import Pocketboot.Fastboot.SparseBounds
import Pocketboot.BootMenu.Selection
import Pocketboot.BootMenu.Discovery
import Pocketboot.BootMenu.NestedExtents
import Pocketboot.BootMenu.BootPaths
import Pocketboot.BootMenu.Expansion
import Pocketboot.Adb.Answers
import Pocketboot.Adb.SyncRefines
import Pocketboot.Adb.SyncTransfer
import Pocketboot.Kexec.Chosen
import Pocketboot.Kexec.LoadPlacement
import Pocketboot.Kexec.ReservedTree
import Pocketboot.Kexec.SpinTableTotality
import Pocketboot.Kexec.MemoryReturns
import Pocketboot.Kexec.TreeWrite
import Pocketboot.Kexec.Pruned
import Pocketboot.Kexec.RawImage
import Pocketboot.Kexec.Placement
import Pocketboot.Kexec.Iomem
import Pocketboot.Fastboot.DownloadGrammar
import Pocketboot.Kmsg.Backlog
import Pocketboot.Kmsg.Unescape
import Pocketboot.Image.VendorTables
import Pocketboot.Image.Cpio
import Pocketboot.Adb.FreshIds
import Pocketboot.Preboot.Lookup
import Pocketboot.DtboMask.Exact
import Pocketboot.Kexec.Handoff
import Pocketboot.Kexec.Regraft
import Pocketboot.Kexec.KexecImage
import Pocketboot.Kexec.LiveContract
