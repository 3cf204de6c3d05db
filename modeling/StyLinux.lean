import StyLinux.Lib.Run
import StyLinux.Lib.Tiling
import StyLinux.Malloc.Heap
import StyLinux.Malloc.Layout
import StyLinux.Malloc.Release
import StyLinux.Malloc.Search
import StyLinux.Malloc.Vika4
import StyLinux.Malloc.Client
import StyLinux.Malloc.Vika4Runs
import StyLinux.Malloc.Vika5
import StyLinux.Malloc.Vika5Calls
import StyLinux.Malloc.Vika5Runs
import StyLinux.Malloc.NullResult
import StyLinux.Malloc.Sbrk
import StyLinux.Scheduler.Invariant
import StyLinux.Scheduler.Starvation
import StyLinux.Lib.Masks
import StyLinux.Lib.Simulation
import StyLinux.Paging.Model
import StyLinux.Paging.Operations
import StyLinux.Paging.AddressSpace
import StyLinux.Copy.Model
import StyLinux.Copy.Contents
import StyLinux.Paging.Accessed
import StyLinux.Scheduler.IdleReset
import StyLinux.Malloc.Coalesced
import StyLinux.ProducerConsumer.Interleavings
import StyLinux.Mqueue.Model
import StyLinux.Mqueue.Server
import StyLinux.Lib.Scan
import StyLinux.PageTrace.Model
import StyLinux.PageTrace.Export
import StyLinux.Malloc.Savesol
import StyLinux.Malloc.SavesolCalls
import StyLinux.Malloc.SavesolRuns
import StyLinux.Malloc.Agreement
import StyLinux.Lib.Mutex
import StyLinux.Malloc.Vika9
import StyLinux.Malloc.Vika9Threads
import StyLinux.Malloc.Vika9Alone
import StyLinux.Lib.Total
import StyLinux.ProducerConsumer.Locked
import StyLinux.ProducerConsumer.Threads
import StyLinux.Pipe.Execute
import StyLinux.Malloc.BestFitRuns
import StyLinux.Malloc.Recorded
import StyLinux.Malloc.SbrkFailure
import StyLinux.Malloc.Strategies
import StyLinux.Malloc.Statistics
import StyLinux.Malloc.SavesolMarks
import StyLinux.Scheduler.Dispatch
import StyLinux.Scheduler.Allocation
import StyLinux.Paging.ErrorValue
import StyLinux.Paging.Ownership
import StyLinux.Copy.ShortWrites
import StyLinux.Lib.CValues
import StyLinux.Lib.Numeral
import StyLinux.ParseInt.Model
import StyLinux.ParseInt.Range
import StyLinux.PageTrace.Reader
import StyLinux.PageTrace.Search
import StyLinux.Pipe.Descriptors
import StyLinux.Lib.Forest
import StyLinux.Ls.Model
import StyLinux.Ls.Listing
import StyLinux.Lib.Fifo
import StyLinux.Lib.Linked
import StyLinux.RoundRobin.Lists
import StyLinux.RoundRobin.States
import StyLinux.RoundRobin.Rotation
import StyLinux.Scheduler.Queue
import StyLinux.Lib.Eratosthenes
import StyLinux.Sieve.Model
import StyLinux.Sieve.Primes
import StyLinux.Dump.Model
import StyLinux.Lib.MaximalRuns
import StyLinux.Dump.Strings
import StyLinux.Ls.Links
import StyLinux.Lib.Caching
import StyLinux.PageTrace.Policies
import StyLinux.PageTrace.Clock
import StyLinux.Mqueue.Completion
import StyLinux.ProducerConsumer.Progress
import StyLinux.PageTrace.Series
import StyLinux.Lib.MutexProgress
import StyLinux.Synchronization2.Value
import StyLinux.Malloc.AllocatorTest
import StyLinux.Malloc.FakeHeap
import StyLinux.Malloc.Kept
import StyLinux.Malloc.Vika9Refines
import StyLinux.Lib.SortedForest
import StyLinux.Ls.Sorted
import StyLinux.Pipeline.Delivery
import StyLinux.Pipeline.Completion
import StyLinux.Copy.Holes
import StyLinux.Paging.Dump
import StyLinux.ParseInt.Numerals
import StyLinux.Scheduler.BoundedWait
