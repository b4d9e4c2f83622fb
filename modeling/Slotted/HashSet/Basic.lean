import Slotted.HashSet.Insert
namespace Slotted

structure HashConfig where
  capacity : Nat
  loadFactor : Nat
deriving DecidableEq, Repr

namespace HashConfig

def default : HashConfig := ⟨0, defaultLoadFactor⟩

def withCapacity (capacity : Nat) : HashConfig := { default with capacity := capacity }

def validated (c : HashConfig) : Except CapacityError HashConfig :=
  if maxCapacity < c.capacity then .error (.overflow c.capacity)
  else .ok { c with loadFactor := clampLoadFactor c.loadFactor }

def inspect (c : HashConfig) : String :=
  Inspect.fields "HashConfig" [("capacity", toString c.capacity), ("load_factor", toString c.loadFactor)]

end HashConfig

namespace HashSet

variable {α ω : Type}

def empty (loadFactor : Nat) : HashSet α := ⟨Pool.empty, Buckets.empty loadFactor⟩

def bucketCount (s : HashSet α) : Nat := s.index.heads.size

def loadFactor (s : HashSet α) : Nat := s.index.loadFactor

def inspect (element : α → String) (s : HashSet α) : String :=
  Inspect.braced (s.pool.entries.map fun (_, value) => element value)

abbrev Step (α : Type) := Pool α ChainLink → Pool.Cursor → Except Fault (Option (Handle × α) × Pool.Cursor)

-- One step of a walk that changes the element it comes to. Slots stay where they are, so the walk is not
-- disturbed; a changed hash shows only after a rehash. Since a walk comes to no slot twice, whatever a caller with a
-- memory of its own does on the way is one change for each slot.
def stepChanging (step : Step α) (change : Nat → α → α) (c : Pool.Cursor) :
    Edit (HashSet α) (Option (Handle × α) × Pool.Cursor) := do
  match ← step (← get).pool c with
  | (some (h, _), rest) => return ((← Store.modifyAt h (change h.index)).map (h, ·), rest)
  | (none, rest) => return (none, rest)

def configure [Allocator ω] (config : HashConfig) : Update (HashSet α) ω (Except CapacityError Unit) := do
  match config.validated with
  | .error error => return .error error
  | .ok config =>
    modify fun session => { session with store := empty config.loadFactor }
    if config.capacity = 0 then return .ok ()
    Store.resizeSlots (config.capacity + 1)

def withCapacity [Allocator ω] (capacity : Nat) : Update (HashSet α) ω Unit := do
  if let .error error := ← configure (HashConfig.withCapacity capacity) then
    throw (.growth .hashSet .withCapacity error)

def ofArray [Allocator ω] (rule : HashRule (HashSet α) ω α) (container : Container) (values : List α) :
    Update (HashSet α) ω Unit := do
  if let .error error := ← Store.reserve values.length then throw (.growth container .ofArray error)
  extend rule values

end HashSet
end Slotted
