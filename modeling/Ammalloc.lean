import Ammalloc.Allocator
import Ammalloc.Allocator.Blocks
import Ammalloc.Allocator.Hardening
import Ammalloc.Allocator.Invariant
import Ammalloc.Allocator.Progress
import Ammalloc.Allocator.Purge
import Ammalloc.Allocator.Runs
import Ammalloc.Allocator.ScavengerThread
import Ammalloc.CentralCache
import Ammalloc.CentralCache.Calls
import Ammalloc.CentralCache.DrainBudget
import Ammalloc.CentralCache.Fetch
import Ammalloc.CentralCache.FetchProgress
import Ammalloc.CentralCache.Invariant
import Ammalloc.CentralCache.Progress
import Ammalloc.CentralCache.Release
import Ammalloc.CentralCache.TransferRing
import Ammalloc.CentralSystem
import Ammalloc.CentralSystem.Callers
import Ammalloc.CentralSystem.DrainLaw
import Ammalloc.CentralSystem.FetchDelivery
import Ammalloc.CentralSystem.Links
import Ammalloc.Config
import Ammalloc.FreeList
import Ammalloc.FreeList.Canonical
import Ammalloc.FreeList.Chains
import Ammalloc.FreeList.Intrusive
import Ammalloc.FreeList.Quota
import Ammalloc.FreeList.Refinement
import Ammalloc.FrontEnd
import Ammalloc.FrontEnd.TrimContract
import Ammalloc.FrontEnd.TrimRequest
import Ammalloc.HugePageCache
import Ammalloc.HugePageCache.Concurrent
import Ammalloc.HugePageCache.Linearizable
import Ammalloc.Lib.AccessProgram
import Ammalloc.Lib.ByteMemory
import Ammalloc.Lib.Checked
import Ammalloc.Lib.Coverage
import Ammalloc.Lib.ExtentMap
import Ammalloc.Lib.FamilySum
import Ammalloc.Lib.Linearization
import Ammalloc.Lib.LinkedRing
import Ammalloc.Lib.LinkedStack
import Ammalloc.Lib.LockProgram
import Ammalloc.Lib.Machine
import Ammalloc.Lib.Ownership
import Ammalloc.Lib.RelyGuarantee
import Ammalloc.Lib.RingBuffer
import Ammalloc.Lib.WordBitmap
import Ammalloc.Locking
import Ammalloc.ObjectPool
import Ammalloc.ObjectPool.Slots
import Ammalloc.PageAllocator
import Ammalloc.PageAllocator.Accounting
import Ammalloc.PageAllocator.Concurrent
import Ammalloc.PageAllocator.Ledger
import Ammalloc.PageAllocator.Program
import Ammalloc.PageCache
import Ammalloc.PageCache.Alloc
import Ammalloc.PageCache.Invariant
import Ammalloc.PageCache.Outcome
import Ammalloc.PageCache.Release
import Ammalloc.PageCache.Shards
import Ammalloc.PageMap
import Ammalloc.PageMap.Concurrent
import Ammalloc.PageMap.Growth
import Ammalloc.PageMap.Memory
import Ammalloc.PageMap.Protocol
import Ammalloc.PageMap.Refinement
import Ammalloc.PageSystem
import Ammalloc.PageSystem.AllocSpan
import Ammalloc.PageSystem.Legacy
import Ammalloc.PageSystem.Publication
import Ammalloc.PageSystem.ReleaseSpan
import Ammalloc.PageSystem.SetSpan
import Ammalloc.RuntimeConfig
import Ammalloc.Scavenger
import Ammalloc.ShardSystem
import Ammalloc.SizeClass
import Ammalloc.SizeClass.Ladder
import Ammalloc.Span
import Ammalloc.Span.Hardened
import Ammalloc.Span.Layout
import Ammalloc.Span.Objects
import Ammalloc.Span.SpanList
import Ammalloc.Span.SpanListRuns
import Ammalloc.SpinLock
import Ammalloc.ThreadCache
import Ammalloc.ThreadCache.Invariant
import Ammalloc.ThreadCache.Objects
