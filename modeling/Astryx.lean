import Astryx.Vma.Placement
import Astryx.Paging.Isolation
import Astryx.Kernel.Confinement
import Astryx.Shm.Ownership
import Astryx.Futex.Waiters
import Astryx.Heap.Partition
import Astryx.Pmm.Accounting
import Astryx.Pmm.DeferredFree
import Astryx.Rss.Slots
import Astryx.Unix.Ownership
import Astryx.Tcp.HalfClose
import Astryx.Vfs.Coherence
import Astryx.Vfs.Lifetime
import Astryx.Vfs.FileLocks
import Astryx.Vfs.Append
import Astryx.Vfs.Resolve
import Astryx.Ext2.Allocation
import Astryx.Ext2.Removal
import Astryx.Ext2.Dentries
import Astryx.Sched.Visibility
import Astryx.Tlb.Quarantine
import Astryx.Tlb.Flushing
import Astryx.Ke.Wakeups
import Astryx.Ke.Conservation
import Astryx.PageCache.Sharing
import Astryx.Epoll.Edges
import Astryx.Paging.ForkFailure
import Astryx.Security.Token
import Astryx.Signal.Delivery
import Astryx.Ipc.Table
import Astryx.Epoll.Counters
import Astryx.Ntfs.Runs
