import Slotted.HashSet.Lookup
namespace Slotted.HashSet

variable {α ω : Type}

def linkNew (hash : UInt32) (value : α) : Edit (HashSet α) Nat := do
  let i ← Store.onPool (Pool.push value default)
  linkHead i hash
  return i

variable [Allocator ω] (rule : HashRule (HashSet α) ω α)

-- The handle of the stored element and whether it is the new one. A refused value is handed back.
def tryInsert (value : α) : Update (HashSet α) ω (Except (Rejected α) (Handle × Bool)) := do
  let hash ← Update.ask (hashOf rule value)
  match ← Update.ask (findHashed hash (rule.equal · value)) with
  | some i => return .ok (← Handle.ofIndex i, false)
  | none =>
    match ← Store.makeRoom with
    | .error error => return .error ⟨error, value⟩
    | .ok _ => return .ok (← Handle.ofIndex (← Update.edit (linkNew hash value)), true)

def insert (value : α) : Update (HashSet α) ω (Handle × Bool) := do
  match ← tryInsert rule value with
  | .ok result => return result
  | .error refused => throw (.growth .hashSet .insert refused.error)

-- Builds the element only if none is accepted. The built element must have the hash that was looked under.
def insertWith (hash : UInt32) (accepts : α → Query (HashSet α) ω Bool) (make : Query (HashSet α) ω α) :
    Update (HashSet α) ω (Handle × Bool) := do
  match ← Update.ask (findHashed hash accepts) with
  | some i => return (← Handle.ofIndex i, false)
  | none =>
    if let .error error := ← Store.makeRoom then throw (.growth .hashSet .insertWith error)
    let value ← Update.ask make
    let built ← Update.ask (hashOf rule value)
    unless built = hash do throw (.disagreement .builtHash built.toNat hash.toNat)
    return (← Handle.ofIndex (← Update.edit (linkNew hash value)), true)

def extend (values : List α) : Update (HashSet α) ω Unit := values.forM fun value => do let _ ← insert rule value

end Slotted.HashSet
