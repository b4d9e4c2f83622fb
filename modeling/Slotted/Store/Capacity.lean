import Slotted.Store.Compact
namespace Slotted.Store

variable {ι α μ ω : Type} [Inhabited μ] [Index ι μ] [Allocator ω]

def secure (needed : Bool) (request : Request) : Update (Store ι α μ) ω Bool :=
  if needed then Update.reserve request else pure true

def adopt (slots : Nat) : Edit (Store ι α μ) Unit := do
  modify fun s => { s with pool := s.pool.setCapacity slots }
  Index.resized slots

-- The buckets are reserved first, then the slots, then both are put to use.
def resizeSlots (slots : Nat) : Update (Store ι α μ) ω (Except CapacityError Unit) := do
  let width := Index.width (← get).store.index slots
  unless ← secure (0 < width) (.buckets width) do return .error (.allocFailed slots)
  if let some error := (← get).store.pool.refusal slots then return .error error
  unless ← secure ((← get).store.pool.wants slots) (.slots slots) do return .error (.allocFailed slots)
  Update.edit (adopt slots)
  return .ok ()

-- Sets the element capacity. Tombstones that would not fit are closed up first.
def resize (capacity : Nat) : Update (Store ι α μ) ω (Except CapacityError Unit) := do
  let len := (← get).store.len
  if capacity < len then return .error (.belowLen capacity len)
  if maxCapacity < capacity then return .error (.overflow capacity)
  if slotsFor capacity < (← get).store.pool.next then Update.edit reorder
  resizeSlots (slotsFor capacity)

-- Makes sure that so many more elements fit without growing again.
def reserve (additional : Nat) : Update (Store ι α μ) ω (Except CapacityError Unit) := do
  let capacity := (← get).store.capacity
  let used := (← get).store.pool.next - 1
  let needed := saturatingAdd (← get).store.len additional
  if saturatingAdd used additional ≤ capacity then return .ok ()
  else if needed ≤ capacity then
    Update.edit reorder
    return .ok ()
  else resize (max needed (grownSlots (← get).store.pool.capacity - 1))

-- Makes room for one element and tells whether the slots were renumbered on the way.
def makeRoom : Update (Store ι α μ) ω (Except CapacityError Bool) := do
  let slots := (← get).store.pool.capacity
  if !(← get).store.pool.isFull then return .ok false
  else if 0 < (← (← get).store.pool.tombstones) && (← get).store.len * 2 ≤ slots then
    Update.edit compact
    return .ok true
  else if grownSlots slots ≤ slots then return .error (.overflow slots)
  else return (← resizeSlots (grownSlots slots)).map fun _ => false

end Slotted.Store
