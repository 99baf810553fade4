import Bigpipe.Proofs.ThreadPoolRestart
import Bigpipe.Proofs.ThreadPoolCycles
import Bigpipe.Proofs.ConfigErrors
import Bigpipe.Proofs.BlockingQueue
import Bigpipe.Proofs.RequestBody
import Bigpipe.Proofs.Recovery
import Bigpipe.Proofs.Polling
import Bigpipe.Proofs.CalcPartition
import Bigpipe.Proofs.Reservations
import Bigpipe.Proofs.Startup
import Bigpipe.Proofs.AccessControl
import Bigpipe.Proofs.ConfigFormat
import Bigpipe.Proofs.ConsumeLoop
import Bigpipe.Proofs.Workers
import Bigpipe.Proofs.Limits
import Bigpipe.Proofs.RpcCallback
import Bigpipe.Proofs.Partitions
import Bigpipe.Proofs.AsyncClient
import Bigpipe.Proofs.ProducerLifecycle
import Bigpipe.Proofs.Wakeups
import Bigpipe.Proofs.BoundedBlockingQueue
import Bigpipe.Proofs.RequestMessage
import Bigpipe.Proofs.RateLimit
import Bigpipe.Proofs.CircuitBreaker
import Bigpipe.Proofs.HealthStats
import Bigpipe.Proofs.ThreadPoolStop
import Bigpipe.Proofs.ProducerReturns
import Bigpipe.Proofs.ProducerProgress
import Bigpipe.Proofs.ThreadPoolReturns
import Bigpipe.Proofs.ThreadPoolProgress
import Bigpipe.Proofs.PartitionOrder
import Bigpipe.Proofs.Requests
import Bigpipe.Proofs.ThreadPoolOrder
import Bigpipe.Proofs.Responses
import Bigpipe.Proofs.LimitedClient
import Bigpipe.Proofs.Process
import Bigpipe.Proofs.ThreadPoolCallers
import Bigpipe.Proofs.Calls
import Bigpipe.Proofs.Delivery
import Bigpipe.Proofs.ConfigRoundTrip
import Bigpipe.Proofs.ConsumerReturns
import Bigpipe.Proofs.ProcessReturns
import Bigpipe.Proofs.Answers
import Bigpipe.Proofs.EndToEnd
import Bigpipe.Proofs.Reports
