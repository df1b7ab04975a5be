import Spheres.Benchmark.ArgumentOrder
import Spheres.Benchmark.Baseline
import Spheres.Benchmark.CopyVectors
import Spheres.Benchmark.DistanceQuality
import Spheres.Benchmark.Fvecs
import Spheres.Benchmark.Ingest
import Spheres.Benchmark.ParseArgv
import Spheres.Benchmark.Recall
import Spheres.Benchmark.RecallSummary
import Spheres.Benchmark.Run
import Spheres.Benchmark.SpheresRun
import Spheres.Benchmark.WriteJson
import Spheres.Distance.PageBound
import Spheres.Distance.UnitVectors
import Spheres.Execution.BulkLoad
import Spheres.Execution.Caches
import Spheres.Execution.Cascade
import Spheres.Execution.CaseTable
import Spheres.Execution.Filling
import Spheres.Execution.Insert
import Spheres.Execution.InsertExact
import Spheres.Execution.InsertRun
import Spheres.Execution.MappedInsert
import Spheres.Execution.MappedRuns
import Spheres.Execution.Placement
import Spheres.Execution.Prefill
import Spheres.Execution.PrefillExact
import Spheres.Interface.CacheCoherence
import Spheres.Interface.Calls
import Spheres.Interface.Database
import Spheres.Interface.ExactSearch
import Spheres.Interface.FillAgreement
import Spheres.Interface.FindKNearest
import Spheres.Interface.FindKNearestBatch
import Spheres.Interface.IdealStore
import Spheres.Interface.Lifetimes
import Spheres.Interface.LoadAgreement
import Spheres.Interface.LoadTermination
import Spheres.Interface.Metrics
import Spheres.Interface.PageRadii
import Spheres.Interface.ParallelLoad
import Spheres.Interface.PooledQueries
import Spheres.Interface.Prefill
import Spheres.Interface.ProbeBudget
import Spheres.Interface.PruneCount
import Spheres.Interface.Requests
import Spheres.Interface.SingleThreadedLoad
import Spheres.Interface.Slices
import Spheres.Interface.SoundSearch
import Spheres.Library.Assignments
import Spheres.Library.BinaryCopy
import Spheres.Library.BinaryHeap
import Spheres.Library.Cells
import Spheres.Library.EraseIf
import Spheres.Library.Exchange
import Spheres.Library.ForRange
import Spheres.Library.Framing
import Spheres.Library.Json
import Spheres.Library.Mean
import Spheres.Library.Memory
import Spheres.Library.MorselCounter
import Spheres.Library.MorselEvents
import Spheres.Library.MorselLoop
import Spheres.Library.MorselProgress
import Spheres.Library.MorselRows
import Spheres.Library.MorselVisits
import Spheres.Library.OrderStatistics
import Spheres.Library.Outcome
import Spheres.Library.PairMerging
import Spheres.Library.Repeat
import Spheres.Library.Rounds
import Spheres.Library.Rows
import Spheres.Library.Selection
import Spheres.Library.SizeT
import Spheres.Library.Steps
import Spheres.Library.StringViews
import Spheres.Library.Trail
import Spheres.Library.TwoRuns
import Spheres.Library.WrappedCounter
import Spheres.Parallel.BatchPrefill
import Spheres.Parallel.CandidateLists
import Spheres.Parallel.FillDistToAnchor
import Spheres.Parallel.FindKnn
import Spheres.Parallel.FindKnnBatch
import Spheres.Parallel.Interference
import Spheres.Parallel.LocalHeap
import Spheres.Parallel.PageFates
import Spheres.Parallel.PageScan
import Spheres.Parallel.PoolBodies
import Spheres.Parallel.ThreadPool
import Spheres.Parallel.ThreadPoolRuns
import Spheres.Parallel.WorkerSpans
import Spheres.Qwen.ByteAlphabet
import Spheres.Qwen.EndTokens
import Spheres.Qwen.Layer
import Spheres.Qwen.LayerRun
import Spheres.Qwen.Math
import Spheres.Qwen.Mixing
import Spheres.Qwen.PlainPass
import Spheres.Qwen.Projections
import Spheres.Qwen.Rotations
import Spheres.Qwen.Softmax
import Spheres.Qwen.Tensor
import Spheres.Qwen.Tokenizer
import Spheres.Qwen.Tokens
import Spheres.Qwen.Transformer
import Spheres.Qwen.Uninitialised
import Spheres.Storage.AddressSpace
import Spheres.Storage.ArrayView
import Spheres.Storage.Files
import Spheres.Storage.PageBytes
import Spheres.Storage.PageLayout
