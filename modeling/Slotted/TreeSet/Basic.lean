import Slotted.TreeSet.Insert
namespace Slotted

structure TreeConfig where
  capacity : Nat
deriving DecidableEq, Repr

namespace TreeConfig

def default : TreeConfig := ⟨0⟩

def withCapacity (capacity : Nat) : TreeConfig := ⟨capacity⟩

def validated (c : TreeConfig) : Except CapacityError TreeConfig :=
  if maxCapacity < c.capacity then .error (.overflow c.capacity) else .ok c

def inspect (c : TreeConfig) : String := Inspect.fields "TreeConfig" [("capacity", toString c.capacity)]

end TreeConfig

namespace TreeSet

variable {α ω : Type}

def empty : TreeSet α := ⟨Pool.empty, ⟨0⟩⟩

def inspect (element : α → String) (s : TreeSet α) : Except Fault String :=
  return Inspect.braced ((← s.entries).map fun (_, value) => element value)

def configure [Allocator ω] (config : TreeConfig) : Update (TreeSet α) ω (Except CapacityError Unit) := do
  match config.validated with
  | .error error => return .error error
  | .ok config =>
    modify fun session => { session with store := empty }
    if config.capacity = 0 then return .ok ()
    Store.resizeSlots (config.capacity + 1)

def withCapacity [Allocator ω] (capacity : Nat) : Update (TreeSet α) ω Unit := do
  if let .error error := ← configure (TreeConfig.withCapacity capacity) then
    throw (.growth .treeSet .withCapacity error)

def ofArray [Allocator ω] (rule : OrderRule (TreeSet α) ω α) (container : Container) (values : List α) :
    Update (TreeSet α) ω Unit := do
  if let .error error := ← Store.reserve values.length then throw (.growth container .ofArray error)
  extend rule values

end TreeSet
end Slotted
