import S3Archive.Base.Bytes
import S3Archive.Base.Reader
import S3Archive.Base.Greedy
import S3Archive.Base.Offsets
import S3Archive.Base.Upload
import S3Archive.Base.Run
import S3Archive.Base.Collect
import S3Archive.Base.Matching
import S3Archive.Zip.Record
import S3Archive.JrodonV3.ZipFormat
import S3Archive.JrodonV3.ZipRoundTrip
import S3Archive.JrodonV3.ZipLayout
import S3Archive.JrodonV3.Plan
import S3Archive.JrodonV3.PartJob
import S3Archive.JrodonV3.PartBuilder
import S3Archive.JrodonV3.PartOutput
import S3Archive.JrodonV3.JobList
import S3Archive.JrodonV3.Legality
import S3Archive.JrodonV3.Archive
import S3Archive.JrodonV3.LocalExec
import S3Archive.JrodonV3.LocalInvariant
import S3Archive.JrodonV3.LocalProgress
import S3Archive.JrodonV3.PlannedJobs
import S3Archive.JrodonV3.DirectoryOrder
import S3Archive.JrodonV3.MemoryBudget
import S3Archive.JrodonV3.Batching
import S3Archive.JrodonV3.FanOut
import S3Archive.JrodonV3.Delegation
import S3Archive.JrodonV3.FanOutInvariant
import S3Archive.JrodonV3.FanOutRefinement
import S3Archive.FigmentEngine.ZipFormat
import S3Archive.FigmentEngine.ZipRoundTrip
import S3Archive.FigmentEngine.Plan
import S3Archive.FigmentEngine.Rounds
import S3Archive.FigmentEngine.Archive
import S3Archive.FigmentEngine.Assemble
import S3Archive.FigmentEngine.SingleArchive
import S3Archive.FigmentEngine.SingleLegality
import S3Archive.FigmentEngineChain.PlanChain
import S3Archive.FigmentEngineChain.Buckets
import S3Archive.FigmentEngineChain.AssembleChain
import S3Archive.FigmentEngineChain.ChainInvariant
import S3Archive.FigmentEngineChain.ChainArchive
import S3Archive.FigmentEngineChain.ChainLegality
import S3Archive.Base.Memory
import S3Archive.Jrodon.SlabRing
import S3Archive.Jrodon.SlabRingInvariant
import S3Archive.Jrodon.SlabRingLossless
import S3Archive.Jrodon.Pipeline
import S3Archive.Zip.Directory
import S3Archive.SebstoTs.ZipFormat
import S3Archive.Base.Guarded
import S3Archive.SebstoTs.ZipStage
import S3Archive.SebstoSwift.ZipFormat
import S3Archive.SebstoSwift.ZipStage
import S3Archive.Base.Chunks
import S3Archive.JNicholson.Storage
import S3Archive.Zip.Stored
import S3Archive.JNicholson.ZipWriter
import S3Archive.JNicholson.ArchiveFormat
import S3Archive.JNicholson.RoundTrip
import S3Archive.JNicholson.Workers
import S3Archive.JNicholson.SlabOwnership
import S3Archive.SebstoTs.ChunkProducer
import S3Archive.SebstoTs.UploadStage
import S3Archive.SebstoTs.Pipeline
import S3Archive.SebstoTs.PipelineTermination
import S3Archive.SebstoTs.PipelineProgress
import S3Archive.SebstoSwift.Pipeline
import S3Archive.SebstoSwift.PipelineTermination
import S3Archive.SebstoSwift.PipelineProgress
import S3Archive.SebstoC.ZipWriter
import S3Archive.SebstoC.ZipLayout
import S3Archive.SebstoC.RoundTrip
import S3Archive.SebstoC.UploadBatch
import S3Archive.SebstoC.ZipperInvariant
import S3Archive.SebstoC.ZipperCompleteness
import S3Archive.SebstoC.EndOfFile
import S3Archive.JrodonV3.PartialCopies
import S3Archive.Base.Base64
import S3Archive.FigmentEngine.Crc
import S3Archive.JrodonV3.Dispatch
import S3Archive.Base.TokenBucket
import S3Archive.FigmentEngine.SingleMinimality
import S3Archive.FigmentEngineChain.RateLimit
import S3Archive.Base.Notify
import S3Archive.FigmentEngineChain.CrcGate
import S3Archive.ControlLambda.S3ObjectProxy
import S3Archive.ControlLambda.WindowedReader
import S3Archive.SebstoPy.MuxerFed
import S3Archive.Base.ReflectedCrc
import S3Archive.SebstoSwift.CRC32
import S3Archive.FillBucket.SampleSize
import S3Archive.ControlLambda.ValidateArchive
import S3Archive.Sebsto.SemaphoreRuns
import S3Archive.SebstoPy.MultipartSink
import S3Archive.JNicholson.RawS3
import S3Archive.FigmentEngineChain.Priority
import S3Archive.Jrodon.SlabRingFlush
import S3Archive.ControlLambda.EndOfObject
import S3Archive.Base.Stream
import S3Archive.Sebsto.ChunkProducer
import S3Archive.Sebsto.ChunkDelivery
import S3Archive.SebstoC.UploadBuffer
import S3Archive.Base.Markup
import S3Archive.SebstoC.ObjectListing
import S3Archive.SebstoC.ListingPages
import S3Archive.Base.Json
import S3Archive.SebstoC.JsonReader
import S3Archive.SebstoC.JsonLookup
import S3Archive.Base.Write
import S3Archive.JrodonV3.SliceDump
import S3Archive.JrodonV3.SharedBuf
import S3Archive.ControlLambda.WindowLookups
import S3Archive.FigmentEngine.Reading
import S3Archive.Base.RetryPool
import S3Archive.FigmentEngine.AssembleRun
import S3Archive.FigmentEngine.AssembleInvariant
import S3Archive.FigmentEngine.AssembleProgress
import S3Archive.Base.Bucket
import S3Archive.FigmentEngine.Listing
import S3Archive.FigmentEngine.StreamFallback
import S3Archive.FigmentEngine.Handler
import S3Archive.FigmentEngineChain.Handler
import S3Archive.FillBucket.Empty
import S3Archive.FillBucket.Fill
import S3Archive.ControlLambda.Validate
import S3Archive.Benching.Verdict
import S3Archive.JrodonV3.Reading
import S3Archive.JrodonV3.Handler
import S3Archive.JNicholson.Job
import S3Archive.JNicholson.Handler
import S3Archive.SebstoSwift.Job
import S3Archive.SebstoTs.Job
import S3Archive.SebstoC.Invocation
import S3Archive.Jrodon.SlabRingProgress
