import TelemetrixDb.Foundation.Transition
import TelemetrixDb.Foundation.Execution
import TelemetrixDb.Foundation.ExecutionRefinement
import TelemetrixDb.Foundation.Monitor
import TelemetrixDb.Foundation.MonitorRules
import TelemetrixDb.Foundation.Program
import TelemetrixDb.Foundation.MonitorClients
import TelemetrixDb.Foundation.ClientProgress
import TelemetrixDb.Foundation.FairClients
import TelemetrixDb.Foundation.SharedProgress
import TelemetrixDb.Foundation.LockSections
import TelemetrixDb.Foundation.LockSerialization
import TelemetrixDb.Foundation.LockLinearization
import TelemetrixDb.Foundation.CMachine
import TelemetrixDb.Foundation.CFloat
import TelemetrixDb.Foundation.CString
import TelemetrixDb.Foundation.InputStream
import TelemetrixDb.Foundation.LastBinding
import TelemetrixDb.Foundation.Heap
import TelemetrixDb.Foundation.CircularIndex
import TelemetrixDb.Foundation.CircularWindow
import TelemetrixDb.Ring.RingBuffer
import TelemetrixDb.Ring.ClosableQueue
import TelemetrixDb.Ring.Refinement
import TelemetrixDb.Ring.Wakeup
import TelemetrixDb.Ring.Shutdown
import TelemetrixDb.Ring.Safety
import TelemetrixDb.Ring.Progress
import TelemetrixDb.Ring.Traffic
import TelemetrixDb.Ring.Lifecycle
import TelemetrixDb.Ring.BufferBenchmark
import TelemetrixDb.Storage.Arena
import TelemetrixDb.Storage.Update
import TelemetrixDb.Storage.History
import TelemetrixDb.Storage.Reading
import TelemetrixDb.Storage.Routing
import TelemetrixDb.Storage.Concurrency
import TelemetrixDb.Storage.Progress
import TelemetrixDb.Storage.Linearization
import TelemetrixDb.Storage.SharedBucket
import TelemetrixDb.Ingestion.Feed
import TelemetrixDb.Ingestion.Parser
import TelemetrixDb.Ingestion.Flatten
import TelemetrixDb.Ingestion.Fetcher
import TelemetrixDb.Engine.Threads
import TelemetrixDb.Engine.Producer
import TelemetrixDb.Engine.Consumer
import TelemetrixDb.Engine.Pipeline
import TelemetrixDb.Engine.Sentinels
import TelemetrixDb.Engine.Progress
import TelemetrixDb.Engine.Display
import TelemetrixDb.Engine.Delivery
import TelemetrixDb.Engine.FeedDelivery
import TelemetrixDb.Engine.StoreDelivery
import TelemetrixDb.Engine.Texts
import TelemetrixDb.Engine.WindDown
import TelemetrixDb.Engine.Replay
import TelemetrixDb.Engine.MainLoop
import TelemetrixDb.StaticData.Loader
import TelemetrixDb.StaticData.RowLocality
import TelemetrixDb.StaticData.StaleNames
import TelemetrixDb.StaticData.QuotedCsv
import TelemetrixDb.Engine.StaticNames
import TelemetrixDb.Engine.FetchLedger
import TelemetrixDb.Engine.HeapThreads
import TelemetrixDb.Engine.HeapCode
import TelemetrixDb.Engine.HeapEngine
import TelemetrixDb.Engine.HeapLiveness
