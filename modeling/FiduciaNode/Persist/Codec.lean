import FiduciaNode.Consensus.Messages
import FiduciaNode.Primitives.Text

open Text

-- How the commands of the other routes are written and read, which is not followed here.
class OtherCommands where
  write : Command → Text
  read  : Text → Option Command

namespace DecisionPolicy

instance : Write DecisionPolicy where
  write
    | .plurality minVotes => object [("kind", string "plurality"), ("min_votes", write minVotes)]
    | .threshold requiredWeight =>
      object [("kind", string "threshold"), ("required_weight", write requiredWeight)]
    | .unanimous minVotes => object [("kind", string "unanimous"), ("min_votes", write minVotes)]

instance : Read DecisionPolicy where
  read t := do
    let kind : String ← t.field "kind"
    match kind with
    | "plurality" => some (.plurality (← t.field "min_votes"))
    | "threshold" => some (.threshold (← t.field "required_weight"))
    | "unanimous" => some (.unanimous (← t.field "min_votes"))
    | _ => none
  leftOut := none

end DecisionPolicy

namespace Command

-- The fields of a command stand next to its operation.
def tagged (op : String) (fields : List (String × Text)) : Text :=
  object (("op", string op) :: fields)

variable [OtherCommands]

def toText : Command → Text
  | taskCreate name taskType payload deadlineMs => tagged "task_create" [
      ("name", write name), ("task_type", write taskType), ("payload", write payload),
      ("deadline_ms", write deadlineMs)
    ]
  | taskClaim name worker ttlMs => tagged "task_claim" [
      ("name", write name), ("worker", write worker), ("ttl_ms", write ttlMs)
    ]
  | taskProgress name worker fencingToken percent checkpoint => tagged "task_progress" [
      ("name", write name), ("worker", write worker), ("fencing_token", write fencingToken),
      ("percent", write percent), ("checkpoint", write checkpoint)
    ]
  | taskComplete name worker fencingToken result => tagged "task_complete" [
      ("name", write name), ("worker", write worker), ("fencing_token", write fencingToken),
      ("result", write result)
    ]
  | taskFail name worker fencingToken retryable => tagged "task_fail" [
      ("name", write name), ("worker", write worker), ("fencing_token", write fencingToken),
      ("retryable", write retryable)
    ]
  | taskCancel name => tagged "task_cancel" [("name", write name)]
  | effectPrepare name effectType payload risk idempotencyKey requiredApprovals => tagged "effect_prepare" [
      ("name", write name), ("effect_type", write effectType), ("payload", write payload),
      ("risk", write risk), ("idempotency_key", write idempotencyKey),
      ("required_approvals", write requiredApprovals)
    ]
  | effectApprove name principal => tagged "effect_approve" [
      ("name", write name), ("principal", write principal)
    ]
  | effectCommit name result => tagged "effect_commit" [("name", write name), ("result", write result)]
  | effectAbort name => tagged "effect_abort" [("name", write name)]
  | handoffOffer name resource fromOwner toOwner fromToken context ttlMs => tagged "handoff_offer" [
      ("name", write name), ("resource", write resource), ("from", write fromOwner), ("to", write toOwner),
      ("from_token", write fromToken), ("context", write context), ("ttl_ms", write ttlMs)
    ]
  | handoffAccept name toOwner => tagged "handoff_accept" [("name", write name), ("to", write toOwner)]
  | handoffReject name toOwner => tagged "handoff_reject" [("name", write name), ("to", write toOwner)]
  | decisionPropose name question options policy deadlineMs => tagged "decision_propose" [
      ("name", write name), ("question", write question), ("options", write options),
      ("policy", write policy), ("deadline_ms", write deadlineMs)
    ]
  | decisionVote name voter option confidence weight veto evidence => tagged "decision_vote" [
      ("name", write name), ("voter", write voter), ("option", write option),
      ("confidence", write confidence), ("weight", write weight), ("veto", write veto),
      ("evidence", write evidence)
    ]
  | claimAssert name subject predicate value confidence author evidence validUntilMs =>
    tagged "claim_assert" [
      ("name", write name), ("subject", write subject), ("predicate", write predicate),
      ("value", write value), ("confidence", write confidence), ("author", write author),
      ("evidence", write evidence), ("valid_until_ms", write validUntilMs)
    ]
  | claimSupport name agent => tagged "claim_support" [("name", write name), ("agent", write agent)]
  | claimContest name agent reason => tagged "claim_contest" [
      ("name", write name), ("agent", write agent), ("reason", write reason)
    ]
  | claimResolve name accepted => tagged "claim_resolve" [
      ("name", write name), ("accepted", write accepted)
    ]
  | claimSupersede name supersededBy => tagged "claim_supersede" [
      ("name", write name), ("superseded_by", write supersededBy)
    ]
  | c => OtherCommands.write c

instance : Write Command where
  write := toText

-- The reader of each operation.
def readers : List (String × (Text → Option Command)) := [
    ("task_create", fun t => do
      some (.taskCreate (← t.field "name") (← t.field "task_type") (← t.field "payload")
        (← t.field "deadline_ms"))),
    ("task_claim", fun t => do some (.taskClaim (← t.field "name") (← t.field "worker") (← t.field "ttl_ms"))),
    ("task_progress", fun t => do
      some (.taskProgress (← t.field "name") (← t.field "worker") (← t.field "fencing_token")
        (← t.field "percent") (← t.field "checkpoint"))),
    ("task_complete", fun t => do
      some (.taskComplete (← t.field "name") (← t.field "worker") (← t.field "fencing_token")
        (← t.field "result"))),
    ("task_fail", fun t => do
      some (.taskFail (← t.field "name") (← t.field "worker") (← t.field "fencing_token")
        (← t.field "retryable"))),
    ("task_cancel", fun t => do some (.taskCancel (← t.field "name"))),
    ("effect_prepare", fun t => do
      some (.effectPrepare (← t.field "name") (← t.field "effect_type") (← t.field "payload")
        (← t.field "risk") (← t.field "idempotency_key") (← t.field "required_approvals"))),
    ("effect_approve", fun t => do some (.effectApprove (← t.field "name") (← t.field "principal"))),
    ("effect_commit", fun t => do some (.effectCommit (← t.field "name") (← t.field "result"))),
    ("effect_abort", fun t => do some (.effectAbort (← t.field "name"))),
    ("handoff_offer", fun t => do
      some (.handoffOffer (← t.field "name") (← t.field "resource") (← t.field "from") (← t.field "to")
        (← t.field "from_token") (← t.field "context") (← t.field "ttl_ms"))),
    ("handoff_accept", fun t => do some (.handoffAccept (← t.field "name") (← t.field "to"))),
    ("handoff_reject", fun t => do some (.handoffReject (← t.field "name") (← t.field "to"))),
    ("decision_propose", fun t => do
      some (.decisionPropose (← t.field "name") (← t.field "question") (← t.field "options")
        (← t.field "policy") (← t.field "deadline_ms"))),
    ("decision_vote", fun t => do
      some (.decisionVote (← t.field "name") (← t.field "voter") (← t.field "option")
        (← t.field "confidence") (← t.field "weight") (← t.field "veto") (← t.field "evidence"))),
    ("claim_assert", fun t => do
      some (.claimAssert (← t.field "name") (← t.field "subject") (← t.field "predicate")
        (← t.field "value") (← t.field "confidence") (← t.field "author") (← t.field "evidence")
        (← t.field "valid_until_ms"))),
    ("claim_support", fun t => do some (.claimSupport (← t.field "name") (← t.field "agent"))),
    ("claim_contest", fun t => do
      some (.claimContest (← t.field "name") (← t.field "agent") (← t.field "reason"))),
    ("claim_resolve", fun t => do some (.claimResolve (← t.field "name") (← t.field "accepted"))),
    ("claim_supersede", fun t => do some (.claimSupersede (← t.field "name") (← t.field "superseded_by")))
  ]

def ofText (t : Text) : Option Command := do
  match readers.lookup (← t.field "op") with
  | some reader => reader t
  | none => OtherCommands.read t

instance : Read Command where
  read    := ofText
  leftOut := none

end Command

namespace LogEntry

variable [OtherCommands]

def toText (entry : LogEntry) : Text :=
  object [
    ("term", write entry.term), ("index", write entry.index),
    ("proposed_at_ms", write entry.proposedAtMs), ("command", write entry.command)
  ]

-- Only the time may be left out.
def ofText (t : Text) : Option LogEntry := do
  some {
    term := ← t.field "term", index := ← t.field "index", proposedAtMs := ← t.fieldOr "proposed_at_ms" 0
    command := ← t.field "command"
  }

-- What is read of the text that is written for the entry.
def readBack (entry : LogEntry) : Option LogEntry := do
  ofText (← parse entry.toText)

end LogEntry
