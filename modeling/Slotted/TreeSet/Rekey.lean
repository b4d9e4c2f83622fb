import Slotted.TreeSet.Lookup
namespace Slotted.TreeSet

variable {α ω : Type} (rule : OrderRule (TreeSet α) ω α)

-- An equal element stored meanwhile wins, and the detached one is dropped. Otherwise it keeps its slot.
def reinsert (d : Detached) : Update (TreeSet α) ω (Handle × Bool) := do
  let value ← (← get).store.detachedValue d
  match ← Update.ask (locate (rule.probe value)) with
  | .found i =>
    Update.edit (Store.drop d)
    return (← Handle.ofIndex i, false)
  | .vacant parent side =>
    Update.edit (Store.onPool (Pool.reattach d.slot))
    Update.edit (attach d.slot parent side)
    return (← Handle.ofIndex d.slot, true)

end Slotted.TreeSet
