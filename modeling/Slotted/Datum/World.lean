import Slotted.Datum.Scheme
namespace Slotted

structure World where
  -- a rule that meets this datum faults
  poison : Option Datum
  logging : Bool
  -- first arguments of logged calls, the latest first
  log : List Datum
  -- what a probe was shown, the latest first
  shown : List Datum
  -- how often a scripted probe has answered
  answers : Nat
  built : Bool
deriving Inhabited

namespace World

def fresh : World := ⟨none, false, [], [], 0, false⟩

def rested (w : World) : World := { w with shown := [], answers := 0, built := false }

def plenty : Nat := 4000000000

instance : Allocator World where
  grant
    | .slots total, w => (total ≤ plenty, w)
    | .buckets _, w => (true, w)

variable {κ : Type}

def look : Query κ World World := return (← get).world

def alter (f : World → World) : Query κ World Unit := modify fun gate => { gate with world := f gate.world }

def taste (data : List Datum) : Query κ World Unit := do
  if let some poison := (← look).poison then
    if data.any (·.same poison) then throw (.caller "functor poisoned")

def record (value : Datum) : Query κ World Unit :=
  alter fun w => if w.logging then { w with log := value :: w.log } else w

-- A scheme as a rule that obeys the poison and the log; the plain scheme knows neither.
def hashRule (scheme : Scheme) : HashRule κ World Datum :=
  if scheme = .std then scheme.hashing.rule
  else {
    hash := fun value => do
      taste [value]
      return scheme.hash value
    equal := fun a b => do
      record a
      taste [a, b]
      return scheme.equal a b }

def orderRule (scheme : Scheme) : OrderRule κ World Datum :=
  if scheme = .std then scheme.ordering.rule
  else {
    compare := fun a b => do
      record a
      taste [a, b]
      return scheme.compare a b }

def logged {β : Type} (search : Query κ World β) : Query κ World (β × List Datum) := do
  alter fun w => { w with logging := true, log := [] }
  let result ← search
  let log := (← look).log.reverse
  alter fun w => { w with logging := false, log := [] }
  return (result, log)

def noting {α β : Type} (view : α → Datum) (probe : α → Query κ World β) (value : α) : Query κ World β := do
  alter fun w => { w with shown := view value :: w.shown }
  probe value

def comparisons {β : Type} (probe : Probe κ World Datum) (search : Probe κ World Datum → Query κ World β) :
    Query κ World Nat := do
  alter fun w => { w with shown := [] }
  let _ ← search { probe with order := noting id probe.order }
  return (← look).shown.length

-- Answers from a list whatever it is shown; the last answer repeats.
def scripted {α : Type} (answers : Array Ordering) : Probe κ World α where
  order _ := do
    let n := (← look).answers
    alter fun w => { w with answers := n + 1 }
    return answers.getD n (answers.back?.getD .eq)
  memory := answers.size

def builder {β : Type} (value : Option β) : Query κ World β := do
  alter fun w => { w with built := true }
  match value with
  | some value => return value
  | none => throw (.caller "make failed")

end World
end Slotted
