import Delivery.Encoding
import Delivery.Watermark
import Delivery.WatermarkRuns
import Delivery.Dispatch
import Delivery.Store
import Delivery.StakingQueue
import Delivery.StakingQueueRuns
import Delivery.QueueRefinement
import Delivery.Validators
import Delivery.ValidatorIndex
import Delivery.Proposer
import Delivery.ValidatorScan
import Delivery.Interleavings
import Delivery.TronClient
import Delivery.ListenerRuns
