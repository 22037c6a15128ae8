import FiduciaNode.Primitives.Integer

def maxFencingToken : Nat := 9007199254740991

-- The counter from which every fencing token of a shard is minted.
-- `minted` is a history variable: the tokens minted so far, the latest first. Nothing reads it.
structure FencingCounter where
  nextFencingToken : Nat
  minted           : List Nat
  deriving DecidableEq

namespace FencingCounter

def zero : FencingCounter where
  nextFencingToken := 0
  minted := []

def mint (c : FencingCounter) (token : Nat) : FencingCounter where
  nextFencingToken := token
  minted := token :: c.minted

def nextToken (c : FencingCounter) : Option (Nat × FencingCounter) := do
  let next ← U64.checkedAdd c.nextFencingToken 1
  if next > maxFencingToken then none else some (next, c.mint next)

def mintTokenAbove (c : FencingCounter) (floor : Nat) : Option (Nat × FencingCounter) :=
  if floor ≥ maxFencingToken then none else do
    let next ← U64.checkedAdd (max c.nextFencingToken floor) 1
    if next > maxFencingToken then none else some (next, c.mint next)

end FencingCounter
