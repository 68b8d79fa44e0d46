import LkHv.Kernel.Event
import LkHv.Kernel.PortDelivery
import LkHv.Kernel.PageList
import LkHv.Kernel.Semaphore
import LkHv.Kernel.Mutex
import LkHv.Kernel.TimerSmp
import LkHv.Thread.Fpu
import LkHv.Thread.Wakeup
import LkHv.Stage2.SoftWalk
import LkHv.Stage2.Tlb
import LkHv.Stage2.Alias
import LkHv.Stage2.Vmid
import LkHv.Kernel.VmmMapped
import LkHv.Mem.MapAll
import LkHv.Mem.Alloc
import LkHv.Mem.Restart
import LkHv.Bcache.Consistent
import LkHv.Event.Sgi
import LkHv.Trap.Sync
import LkHv.Vgic.Dist
import LkHv.Vgic.Order
import LkHv.Vgic.Assign
import LkHv.Vgic.Route
import LkHv.Vgic.RoundTrip
import LkHv.Vgic.PendRegs
import LkHv.Vgic.Kept
import LkHv.Heap.Buckets
import LkHv.Dev.Virtio
import LkHv.Fs.SpifsCommit
import LkHv.Ptable.Flash
import LkHv.Bootimage.Open
import LkHv.Fs.Memfs
import LkHv.Klog.Buffers
import LkHv.Net.Tftp
import LkHv.Dev.VirtioNet
import LkHv.Dev.VirtioBlock
import LkHv.Net.TcpReceive
import LkHv.Kernel.PmmArenas
import LkHv.Kernel.PmmRun
import LkHv.Thread.TopThread
import LkHv.Vcpu.Context
import LkHv.Vcpu.Vtimer
import LkHv.Kernel.NovmMap
import LkHv.Boot.Bootargs
import LkHv.Boot.VmBounds
import LkHv.Vcpu.Psci
import LkHv.Vgic.Affinity
import LkHv.Dev.TimerConversion
import LkHv.Bio.Deblock
import LkHv.Fs.Normalize
import LkHv.Fs.Resolve
import LkHv.Elf.Load
import LkHv.Heap.MiniheapRealloc
import LkHv.Net.Checksum
import LkHv.Sysparam.Scan
import LkHv.Ptable.Room
import LkHv.Libc.Mem
