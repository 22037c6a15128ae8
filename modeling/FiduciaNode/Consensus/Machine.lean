import FiduciaNode.Consensus.Actor
import FiduciaNode.State.Theorems.CommandProtocol

-- The parser of snapshots and the writer.
class StoreCodec extends SnapshotCodec where
  toVec : Store → Option (List UInt8)

-- The queries of a store.
class StoreReads where
  Response : Type
  read     : Store → ReadRequest → Response

-- A codec and queries for closed runs.
@[reducible]
def StoreCodec.fixed : StoreCodec where
  fromSlice _ := .ok Store.sampleImage
  toVec _     := some []

@[reducible]
def StoreReads.fixed : StoreReads where
  Response := Unit
  read _ _ := ()

namespace Store

variable [External] [StoreCodec] [StoreReads]

def snapshot (s : Store) : Option (List UInt8) := do
  let payload ← StoreCodec.toVec s
  if s.commandProtocol = Command.legacyCommandProtocol then some payload
  else if s.commandProtocol = Command.lockCommandProtocol then
    some (previousProtocolSnapshotMagic ++ payload)
  else if s.commandProtocol = Command.currentCommandProtocol then
    some (currentProtocolSnapshotMagic ++ payload)
  else none

-- The store as the state machine of a shard.
@[reducible]
def machine (o : IterOrder) : StateMachine Store where
  new                    := .empty
  applyAt                := applyAt o
  commandProtocol s      := s.commandProtocol
  snapshot               := snapshot
  restore                := decodeSnapshot o
  Response               := StoreReads.Response
  read                   := StoreReads.read
  protocol_mono _ _ _    := le_applyAt_commandProtocol
  protocol_activated s n := applyAt_activates s o n

end Store
