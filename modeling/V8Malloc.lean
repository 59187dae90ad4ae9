import V8Malloc.PageHeap.Validate
import V8Malloc.PageHeap.SeqlockRuns
import V8Malloc.PageHeap.Anchor
import V8Malloc.PageHeap.FailedAlloc
import V8Malloc.PageHeap.Tally
import V8Malloc.PageHeap.Fork
import V8Malloc.NumaPool.Runs
import V8Malloc.Pprof.Profile
import V8Malloc.BuddyPool.Idle
import V8Malloc.Slab.PageRuns
import V8Malloc.LargeRegions
import V8Malloc.LargeEviction
import V8Malloc.Cache.CoreSteps
import V8Malloc.Cache.RemoteFree
import V8Malloc.Dispatch.Alignment
import V8Malloc.Dispatch.Routing
import V8Malloc.Api.Histogram
import V8Malloc.Api.ReleaseThread
import V8Malloc.Api.ReallocContents
import V8Malloc.Slab.BatchRefines
import V8Malloc.Slab.DrainedRuns
import V8Malloc.Api.BinBounds
import V8Malloc.Api.FastPaths
import V8Malloc.Api.DoubleFree
import V8Malloc.Api.PtrInfo
import V8Malloc.Cache.Averages
import V8Malloc.Cache.GcTicks
import V8Malloc.Api.Guarantees
