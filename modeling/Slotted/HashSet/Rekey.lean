import Slotted.HashSet.Lookup
namespace Slotted.HashSet

variable {α ω : Type} (rule : HashRule (HashSet α) ω α)

-- An equal element stored meanwhile wins, and the detached one is dropped. Otherwise it keeps its slot.
def reinsert (d : Detached) : Update (HashSet α) ω (Handle × Bool) := do
  let value ← (← get).store.detachedValue d
  let hash ← Update.ask (hashOf rule value)
  match ← Update.ask (findHashed hash (rule.equal · value)) with
  | some i =>
    Update.edit (Store.drop d)
    return (← Handle.ofIndex i, false)
  | none =>
    Update.edit (Store.onPool (Pool.reattach d.slot))
    Update.edit (linkHead d.slot hash)
    return (← Handle.ofIndex d.slot, true)

def refreshHash (i : Nat) : Update (HashSet α) ω Unit := do
  match (← get).store.pool.get? i with
  | none => return ()
  | some value =>
    let hash ← Update.ask (rule.hash value)
    Update.edit (Store.onPool (Pool.modifyLink i fun link => { link with hash := hash }))

-- The chains are rebuilt only after the last hash. A fault on the way leaves the old chains.
def rehash : Update (HashSet α) ω Unit := do
  Update.guarded ((List.range (← get).store.pool.slots.size).forM (refreshHash rule))
  Update.edit rebucket

end Slotted.HashSet
