import Slotted.Error
namespace Slotted

inductive Container where
  | hashSet | hashMap | treeSet | treeMap
deriving DecidableEq, Repr

def Container.name : Container → String
  | hashSet => "HashSet"
  | hashMap => "HashMap"
  | treeSet => "TreeSet"
  | treeMap => "TreeMap"

inductive Growth where
  | withCapacity | insert | insertWith | ofArray
deriving DecidableEq, Repr

def Growth.name : Growth → String
  | withCapacity => "with_capacity"
  | insert => "insert"
  | insertWith => "insert_with"
  | ofArray => "from"

inductive Agreement where
  | chainHead | parentOwnsChild | builtHash | movedRoot | movedChild
deriving DecidableEq, Repr

def Agreement.note : Agreement → String
  | chainHead => ": chain head mismatch"
  | parentOwnsChild => ": parent does not own child"
  | builtHash => ": insert_with: hash mismatch"
  | movedRoot | movedChild => ""

inductive Fault where
  -- raised by a caller's own rule, probe or builder
  | caller (message : String)
  -- a lookup from inside a callback of the same container
  | busy
  | keyNotFound (container : Container)
  | growth (container : Container) (call : Growth) (error : CapacityError)
  | disagreement (what : Agreement) (left right : Nat)
  | emptySlot
  | slotOutOfRange (size index : Nat)
  | noBuckets
  | subtraction
  | addition
  | sentinelMissing
  | poolFull
  | sentinelHandle
  | detachIdle
  | reattachLive
  | discardLive
  | detachedEmpty
  -- links that lead round in a circle
  | endless
deriving DecidableEq, Repr

def Fault.message : Fault → String
  | caller message => message
  | busy => "reentrancy detected: container accessed from inside its own functor"
  | keyNotFound container => container.name ++ ": key not found"
  | growth container call error => container.name ++ "::" ++ call.name ++ ": " ++ error.message
  | disagreement what left right =>
    "assertion `left == right` failed" ++ what.note ++ "\n  left: " ++ toString left ++
      "\n right: " ++ toString right
  | emptySlot => "linked slot must hold a value"
  | slotOutOfRange size index =>
    "index out of bounds: the len is " ++ toString size ++ " but the index is " ++ toString index
  | noBuckets => "attempt to calculate the remainder with a divisor of zero"
  | subtraction => "attempt to subtract with overflow"
  | addition => "attempt to add with overflow"
  | sentinelMissing => "sentinel missing"
  | poolFull => "push into a full arena"
  | sentinelHandle => "sentinel slot has no handle"
  | detachIdle => "assertion failed: slot.active && slot.value.is_some()"
  | reattachLive => "assertion failed: !slot.active && slot.value.is_some()"
  | discardLive => "assertion failed: !slot.active"
  | detachedEmpty => "detached slot must hold its value"
  | endless => "links form a cycle"

end Slotted
