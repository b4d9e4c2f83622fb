import Slotted.Action.Map
namespace Slotted

variable {α κ ν ω : Type}

inductive HashSetAction (α ω : Type) where
  | common (action : SetAction α)
  | findBy (hash : UInt32) (accepts : α → Query (HashSet α) ω Bool)
  | insertWith (hash : UInt32) (accepts : α → Query (HashSet α) ω Bool) (make : Query (HashSet α) ω α)
  | rehash
  -- a walk that changes every element it comes to, by its slot
  | walkChanging (change : Nat → α → α) (strides : List Stride)

inductive HashMapAction (κ ν ω : Type) where
  | common (action : MapAction (HashMap κ ν) κ ν ω)
  | rehash
  | walkChanging (change : Nat → ν → ν) (strides : List Stride)

variable [Allocator ω]

def HashSet.act (rule : HashRule (HashSet α) ω α) : HashSetAction α ω → Update (HashSet α) ω (Reply α)
  | .common action => (HashSet.access rule).run action
  | .findBy hash accepts => return .found (← Update.ask (HashSet.findBy hash accepts))
  | .insertWith hash accepts make => do
    let (h, fresh) ← HashSet.insertWith rule hash accepts make
    return .placed h fresh
  | .rehash => do
    HashSet.rehash rule
    return .done
  | .walkChanging change strides => return .walked (← (HashSet.changingWalker change).run strides)

def HashMap.act (rule : HashRule (HashMap κ ν) ω κ) : HashMapAction κ ν ω → Update (HashMap κ ν) ω (MapReply κ ν)
  | .common action => (HashMap.access rule).run action
  | .rehash => do
    HashMap.rehash rule
    return .entries .done
  | .walkChanging change strides =>
    return .entries (.walked (← (HashSet.changingWalker fun i => Entry.mapValue (change i)).run strides))

end Slotted
