import BusTub.Lib.StepSystem
import BusTub.Lib.Loop
import BusTub.Lib.Command
import BusTub.Lib.HashPartition
import BusTub.Common
import BusTub.Buffer.LRUReplacer
import BusTub.Buffer.Instance
import BusTub.Buffer.Effect
import BusTub.Buffer.Invariant
import BusTub.Buffer.Pins
import BusTub.Buffer.Content
import BusTub.Buffer.Reopen
import BusTub.Page.Bucket
import BusTub.Page.BucketSpec
import BusTub.Page.Directory
import BusTub.Page.DirectorySpec
import BusTub.Page.Integrity
import BusTub.Table.HashTable
import BusTub.Table.PageStore
import BusTub.Table.Entries
import BusTub.Table.Spread
import BusTub.Table.Discipline
import BusTub.Table.Asserts
import BusTub.Table.Reference
import BusTub.Table.Calls
import BusTub.Lib.AtomicObject
import BusTub.Lib.History
import BusTub.Table.Concurrent
import BusTub.Table.OverPool
import BusTub.Table.Builds
import BusTub.Buffer.Eviction
import BusTub.Page.BucketSet
import BusTub.Page.BucketScans
import BusTub.Lib.Memory
import BusTub.Page.BucketBytes
import BusTub.Buffer.Writes
import BusTub.Buffer.Parallel
import BusTub.Buffer.ParallelThreads
import BusTub.Table.Completes
import BusTub.Lib.Interface
import BusTub.Table.Callers
import BusTub.Table.Latches
import BusTub.Table.Views
import BusTub.Table.Seats
import BusTub.Table.Pinned
import BusTub.Buffer.Victims
import BusTub.Table.Evicted
import BusTub.Table.Regroups
import BusTub.Table.Rounds
import BusTub.Lib.Siblings
import BusTub.Table.Leftovers
import BusTub.Table.Balanced
import BusTub.Table.Construction
import BusTub.Table.Exhausted
import BusTub.Buffer.AnyCalls
import BusTub.Buffer.PageIds
import BusTub.Buffer.ParallelNew
import BusTub.Lib.Cells
import BusTub.Table.Footprint
import BusTub.Lib.Potential
import BusTub.Table.Progress
import BusTub.Table.ConcurrentPool
import BusTub.Table.Tables
import BusTub.Lib.Crowds
import BusTub.Table.Canonical
import BusTub.Lib.LruCache
import BusTub.Buffer.PageCache
import BusTub.Buffer.LargerPool
import BusTub.Lib.Recency
import BusTub.Buffer.Paging
import BusTub.Buffer.OtherDisk
import BusTub.Buffer.Shards
import BusTub.Lib.Account
import BusTub.Buffer.SharedPages
import BusTub.Lib.MemoryView
import BusTub.Lib.Costs
import BusTub.Table.DiskCalls
import BusTub.Page.BucketMemory
import BusTub.Page.BucketRuns
import BusTub.Table.Looks
import BusTub.Table.Standings
import BusTub.Table.Linearized
