import HyperCog.Virtio.Transport
import HyperCog.Virtio.Interrupt
import HyperCog.Vsock.Credit
import HyperCog.Vsock.ReplyRing
import HyperCog.Vsock.Drain
import HyperCog.P9.Forward
import HyperCog.Blockif.Geometry
import HyperCog.Blockif.Readonly
import HyperCog.Vtblk.Range
import HyperCog.Vtblk.Status
import HyperCog.Ahci.Diskless
import HyperCog.Ahci.Seamless
import HyperCog.Ahci.Limits
import HyperCog.Vmm.Callouts
import HyperCog.Vmm.Trigger
import HyperCog.Vmm.Rendezvous
import HyperCog.Vmm.LongMode
import HyperCog.Pci.Intx
import HyperCog.Pci.Msi
import HyperCog.Pci.Window
import HyperCog.Mem.Dispatch
import HyperCog.Vmm.Periodic
import HyperCog.Vmm.Acknowledge
import HyperCog.Vmm.PicLines
import HyperCog.Vmm.RtcTime
import HyperCog.Vmm.Gla
import HyperCog.Vmm.TaskFaults
import HyperCog.Vmm.Segments
import HyperCog.Cog.Knowledge
import HyperCog.Cog.Response
import HyperCog.Io.Mevent
import HyperCog.Io.Inout
import HyperCog.Vtnet.Header
