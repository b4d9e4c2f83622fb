import Slotted.Inspect
import Slotted.Limits
namespace Slotted

inductive CapacityError where
  | belowLen (requested len : Nat)
  | overflow (requested : Nat)
  | allocFailed (slots : Nat)
deriving DecidableEq, Repr

namespace CapacityError

def kind : CapacityError → String
  | belowLen .. => "BelowLen"
  | overflow .. => "CapacityOverflow"
  | allocFailed .. => "AllocFailed"

def message : CapacityError → String
  | belowLen requested len =>
    "requested capacity " ++ toString requested ++ " is below the live element count " ++ toString len
  | overflow requested =>
    "requested capacity " ++ toString requested ++ " exceeds the maximum of " ++ toString maxCapacity
  | allocFailed slots => "allocation of " ++ toString slots ++ " slots failed"

def inspect (e : CapacityError) : String :=
  match e with
  | belowLen requested len =>
    Inspect.fields e.kind [("requested", toString requested), ("len", toString len)]
  | overflow requested => Inspect.wrapped e.kind (toString requested)
  | allocFailed slots => Inspect.fields e.kind [("slots", toString slots)]

end CapacityError

structure Rejected (α : Type) where
  error : CapacityError
  value : α
deriving DecidableEq, Repr

namespace Rejected

def message (r : Rejected α) : String := "insert failed: " ++ r.error.message

def inspect (render : α → String) (r : Rejected α) : String :=
  Inspect.fields "InsertError" [("error", r.error.inspect), ("value", render r.value)]

end Rejected

inductive CheckError where
  | sentinelActive
  | countMismatch (recorded actual : Nat)
  | unreachable (slot : Nat)
  | revisited (slot : Nat)
  | inactiveLinked (slot : Nat)
  | brokenLink (slot : Nat)
  | wrongBucket (slot found expected : Nat)
  | staleHash (slot : Nat)
  | badBalance (slot : Nat) (stored actual : Int)
  | unordered (slot : Nat)
deriving DecidableEq, Repr

namespace CheckError

def kind : CheckError → String
  | sentinelActive => "SentinelActive"
  | countMismatch .. => "CountMismatch"
  | unreachable _ => "Unreachable"
  | revisited _ => "Revisited"
  | inactiveLinked _ => "InactiveLinked"
  | brokenLink _ => "BrokenLink"
  | wrongBucket .. => "WrongBucket"
  | staleHash _ => "StaleHash"
  | badBalance .. => "BadBalance"
  | unordered _ => "Unordered"

def message : CheckError → String
  | sentinelActive => "sentinel slot 0 is active"
  | countMismatch recorded actual =>
    "recorded count " ++ toString recorded ++ " differs from " ++ toString actual ++ " active slots"
  | unreachable slot => "slot " ++ toString slot ++ " is active but unreachable from the index"
  | revisited slot => "slot " ++ toString slot ++ " is reachable more than once"
  | inactiveLinked slot => "slot " ++ toString slot ++ " is linked but inactive"
  | brokenLink slot => "broken back link at slot " ++ toString slot
  | wrongBucket slot found expected =>
    "slot " ++ toString slot ++ " sits in bucket " ++ toString found ++
      " but its hash selects bucket " ++ toString expected
  | staleHash slot => "slot " ++ toString slot ++ " caches a stale hash"
  | badBalance slot stored actual =>
    "slot " ++ toString slot ++ " stores balance " ++ toString stored ++
      ", height difference is " ++ toString actual
  | unordered slot => "in-order traversal is not strictly increasing at slot " ++ toString slot

def inspect (e : CheckError) : String :=
  match e with
  | sentinelActive => e.kind
  | countMismatch recorded actual =>
    Inspect.fields e.kind [("recorded", toString recorded), ("actual", toString actual)]
  | wrongBucket slot found expected =>
    Inspect.fields e.kind
      [("slot", toString slot), ("found", toString found), ("expected", toString expected)]
  | badBalance slot stored actual =>
    Inspect.fields e.kind
      [("slot", toString slot), ("stored", toString stored), ("actual", toString actual)]
  | unreachable slot | revisited slot | inactiveLinked slot | brokenLink slot | staleHash slot
  | unordered slot => Inspect.wrapped e.kind (toString slot)

end CheckError
end Slotted
