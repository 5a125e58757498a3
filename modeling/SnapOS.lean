import SnapOS.Acpi
import SnapOS.AhciRead
import SnapOS.AllocRange
import SnapOS.BootDir
import SnapOS.CanonicalMap
import SnapOS.CoresTable
import SnapOS.CurrentTask
import SnapOS.DentryCache
import SnapOS.DirectMap
import SnapOS.DirSearch
import SnapOS.ElfImage
import SnapOS.ElfSpace
import SnapOS.Ext2Agree
import SnapOS.FilePosition
import SnapOS.KernelImage
import SnapOS.Keyboard
import SnapOS.KmallocFailure
import SnapOS.Lists
import SnapOS.MmPut
import SnapOS.PartitionRead
import SnapOS.PathFold
import SnapOS.ReadFailure
import SnapOS.RootInode
import SnapOS.RoundRobin
import SnapOS.SectorAddress
import SnapOS.Stepwise
import SnapOS.Syscall
import SnapOS.TtyBounce
import SnapOS.TtyCalls
import SnapOS.Vga
import SnapOS.VmmInit
