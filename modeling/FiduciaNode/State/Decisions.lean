import FiduciaNode.State.Tasks

inductive DecisionStatus
  | open
  | resolved
  | vetoed
  | timedOut
  deriving DecidableEq

structure DecisionTally where
  option : String
  weight : Nat

structure DecisionVoteView where
  voter      : String
  option     : Option String
  confidence : Float32
  weight     : Nat
  veto       : Bool
  evidence   : List String

structure DecisionState where
  name       : String
  question   : String
  options    : List String
  policy     : DecisionPolicy
  status     : DecisionStatus
  winner     : Option String
  tallies    : List DecisionTally
  votes      : List DecisionVoteView
  deadlineMs : Option Nat
  generation : Nat

structure DecisionVoteRecord where
  option     : Option String
  confidence : Float32
  weight     : Nat
  veto       : Bool
  evidence   : List String

structure DecisionRecord where
  question   : String
  options    : List String
  policy     : DecisionPolicy
  votes      : BTreeMap String DecisionVoteRecord
  deadlineMs : Option Nat
  generation : Nat

abbrev Decisions := HashMap String DecisionRecord

instance : Serialize DecisionPolicy where
  toValue
    | .plurality minVotes => json [("kind", "plurality"), ("min_votes", minVotes)]
    | .threshold requiredWeight => json [("kind", "threshold"), ("required_weight", requiredWeight)]
    | .unanimous minVotes => json [("kind", "unanimous"), ("min_votes", minVotes)]

instance : Serialize DecisionStatus where
  toValue
    | .open => "open"
    | .resolved => "resolved"
    | .vetoed => "vetoed"
    | .timedOut => "timed_out"

instance : Serialize DecisionTally where
  toValue t := json [("option", t.option), ("weight", t.weight)]

instance : Serialize DecisionVoteView where
  toValue v := json [
    ("voter", v.voter), ("option", v.option), ("confidence", v.confidence), ("weight", v.weight),
    ("veto", v.veto), ("evidence", v.evidence)
  ]

instance : Serialize DecisionState where
  toValue d := json [
    ("name", d.name), ("question", d.question), ("options", d.options), ("policy", d.policy),
    ("status", d.status), ("winner", d.winner), ("tallies", d.tallies), ("votes", d.votes),
    ("deadline_ms", d.deadlineMs), ("generation", d.generation)
  ]

namespace DecisionRecord

-- The weight of each option, over the votes that neither veto nor abstain, sorted by option.
def tallies (d : DecisionRecord) : List (String × Nat) :=
  let sums : BTreeMap String Nat := d.votes.values.foldl (fun sums vote =>
    match vote.veto, vote.option with
    | false, some option => sums.insert option (U64.saturatingAdd (sums.getD option 0) vote.weight)
    | _, _ => sums) ∅
  sums.toList

def cast (d : DecisionRecord) : Nat :=
  d.votes.values.countP fun vote => !vote.veto && vote.option.isSome

-- The heaviest option. Among equals it is the least one.
def top (d : DecisionRecord) : Option (String × Nat) :=
  d.tallies.foldl (fun best t =>
    match best with
    | none => some t
    | some b =>
      if (compare b.2 t.2).then (compare t.1 b.1) |>.isLE then some t else some b) none

def resolve (d : DecisionRecord) (now : Nat) : DecisionStatus × Option String :=
  let deadlinePassed := d.deadlineMs.any (· ≤ now)
  let unmet : DecisionStatus × Option String :=
    if deadlinePassed then (.timedOut, none) else (.open, none)
  if d.votes.values.any (·.veto) then
    (.vetoed, none)
  else
    match d.policy with
    | .plurality minVotes =>
      if d.cast ≥ minVotes || (deadlinePassed && d.cast > 0) then
        match d.top with
        | some (option, _) => (.resolved, some option)
        | none => (.open, none)
      else unmet
    | .threshold requiredWeight =>
      match d.tallies.find? fun (_, weight) => weight ≥ requiredWeight with
      | some (option, _) => (.resolved, some option)
      | none => unmet
    | .unanimous minVotes =>
      if d.cast ≥ minVotes && d.tallies.length = 1
      then (.resolved, d.top.map Prod.fst)
      else unmet

def view (d : DecisionRecord) (name : String) (now : Nat) : DecisionState where
  name       := name
  question   := d.question
  options    := d.options
  policy     := d.policy
  status     := (d.resolve now).1
  winner     := (d.resolve now).2
  tallies    := d.tallies.map fun (option, weight) => { option, weight }
  votes      := d.votes.toList.map fun (voter, vote) => {
    voter, option := vote.option, confidence := vote.confidence, weight := vote.weight
    veto := vote.veto, evidence := vote.evidence
  }
  deadlineMs := d.deadlineMs
  generation := d.generation

end DecisionRecord

namespace Decisions

def applyDecisionPropose
    (decisions : Decisions) (now : Nat) (name question : String) (options : List String)
    (policy : DecisionPolicy) (deadlineMs : Option Nat) : Decisions × Value :=
  match decisions[name]? with
  | some existing =>
    (decisions, json [("ok", true), ("created", false), ("decision", existing.view name now)])
  | none =>
    let record : DecisionRecord := {
      question, options, policy, votes := ∅, deadlineMs, generation := 1
    }
    (decisions.insert name record, json [
      ("ok", true), ("created", true), ("decision", record.view name now)
    ])

def applyDecisionVote
    (decisions : Decisions) (now : Nat) (name voter : String) (option : Option String)
    (confidence : Float32) (weight : Nat) (veto : Bool) (evidence : List String) :
    Decisions × Value :=
  match decisions[name]? with
  | none => (decisions, notFound)
  | some record =>
    if option.any (!record.options.contains ·) then
      (decisions, json [
        ("ok", false), ("reason", "unknown_option"), ("decision", record.view name now)
      ])
    else
      let vote : DecisionVoteRecord := { option, confidence, weight, veto, evidence }
      let record := { record with
        votes := record.votes.insert voter vote, generation := record.generation + 1
      }
      (decisions.insert name record, json [("ok", true), ("decision", record.view name now)])

end Decisions
