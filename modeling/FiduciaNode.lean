import FiduciaNode.Consensus.Theorems.Cluster.Durability
import FiduciaNode.Consensus.Theorems.Exchange.Convergence
import FiduciaNode.Consensus.Theorems.FailClosed
import FiduciaNode.Consensus.Theorems.ProtocolGate
import FiduciaNode.Consensus.Theorems.Watch
import FiduciaNode.Http.Theorems.Address
import FiduciaNode.Http.Theorems.Delivery
import FiduciaNode.Http.Theorems.KvValues
import FiduciaNode.Http.Theorems.Responses
import FiduciaNode.Persist.Theorems.Codec
import FiduciaNode.Primitives.Theorems.QueueCodec
import FiduciaNode.State.Theorems.Agreement
import FiduciaNode.State.Theorems.Budgets
import FiduciaNode.State.Theorems.CompareAndSet
import FiduciaNode.State.Theorems.Decisions
import FiduciaNode.State.Theorems.Effects
import FiduciaNode.State.Theorems.Fifo
import FiduciaNode.State.Theorems.Handoffs
import FiduciaNode.State.Theorems.Idempotency
import FiduciaNode.State.Theorems.Identity
import FiduciaNode.State.Theorems.LiveViews
import FiduciaNode.State.Theorems.ManualRuns
import FiduciaNode.State.Theorems.Refusals
import FiduciaNode.State.Theorems.SemaphoreRestore
import FiduciaNode.State.Theorems.SlidingWindow
import FiduciaNode.State.Theorems.Tasks
import FiduciaNode.State.Theorems.Tokens
