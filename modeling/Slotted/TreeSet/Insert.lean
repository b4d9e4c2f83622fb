import Slotted.TreeSet.Lookup
namespace Slotted.TreeSet

variable {α ω : Type} [Allocator ω]

-- The place to hang a new element at. A second answer counts only if it names a place at all.
def placeAgain (probe : Probe (TreeSet α) ω α) (renumbered : Bool) (parent : Nat) (side : Side) :
    Query (TreeSet α) ω (Nat × Side) := do
  if renumbered then
    match ← locate probe with
    | .vacant parent side => return (parent, side)
    | .found _ => return (parent, side)
  else return (parent, side)

def linkNew (value : α) (parent : Nat) (side : Side) : Edit (TreeSet α) Nat := do
  let i ← Store.onPool (Pool.push value default)
  attach i parent side
  return i

variable (rule : OrderRule (TreeSet α) ω α)

-- The handle of the stored element and whether it is the new one. A refused value is handed back.
def tryInsert (value : α) : Update (TreeSet α) ω (Except (Rejected α) (Handle × Bool)) := do
  match ← Update.ask (locate (rule.probe value)) with
  | .found i => return .ok (← Handle.ofIndex i, false)
  | .vacant parent side =>
    match ← Store.makeRoom with
    | .error error => return .error ⟨error, value⟩
    | .ok renumbered =>
      let (parent, side) ← Update.ask (placeAgain (rule.probe value) renumbered parent side)
      return .ok (← Handle.ofIndex (← Update.edit (linkNew value parent side)), true)

def insert (value : α) : Update (TreeSet α) ω (Handle × Bool) := do
  match ← tryInsert rule value with
  | .ok result => return result
  | .error refused => throw (.growth .treeSet .insert refused.error)

-- Builds the element only if the probe finds none, and hangs it where the probe led.
def insertWith (probe : Probe (TreeSet α) ω α) (make : Query (TreeSet α) ω α) :
    Update (TreeSet α) ω (Handle × Bool) := do
  match ← Update.ask (locate probe) with
  | .found i => return (← Handle.ofIndex i, false)
  | .vacant parent side =>
    match ← Store.makeRoom with
    | .error error => throw (.growth .treeSet .insertWith error)
    | .ok renumbered =>
      let (parent, side) ← Update.ask (placeAgain probe renumbered parent side)
      let value ← Update.ask make
      return (← Handle.ofIndex (← Update.edit (linkNew value parent side)), true)

def extend (values : List α) : Update (TreeSet α) ω Unit := values.forM fun value => do let _ ← insert rule value

end Slotted.TreeSet
