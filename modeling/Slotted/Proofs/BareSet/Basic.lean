import Slotted.Action.Set
import Slotted.Proofs.Store.Booked
namespace Slotted

structure Boundless where

instance : Allocator Boundless where
  grant _ world := (true, world)

abbrev BareSet (α : Type) := Store (Unindexed Unit) α Unit

namespace BareSet

variable {α μ ω : Type}

def empty : BareSet α := ⟨Pool.empty, ⟨⟩⟩

def seek (accepted : α → Bool) (p : Pool α μ) : Option Handle :=
  ((List.range p.slots.size).find? fun i => (p.get? i).any accepted).bind Handle.ofIndex?

def find (same : α → α → Bool) (value : α) : Query (BareSet α) ω (Option Handle) :=
  return seek (same · value) (← read).pool

def walker : Walker (BareSet α) ω Pool.Cursor (Handle × α) where
  start := return (← get).store.pool.cursor
  front c := do Pool.Cursor.next (← get).store.pool c
  back c := do Pool.Cursor.nextBack (← get).store.pool c
  left c := c.remaining

def reinsert (same : α → α → Bool) (d : Detached) : Update (BareSet α) ω (Handle × Bool) := do
  let value ← (← get).store.detachedValue d
  match ← Update.ask (find same value) with
  | some h =>
    Update.edit (Store.drop d)
    return (h, false)
  | none =>
    Update.edit (Store.onPool (Pool.reattach d.slot))
    return (← Handle.ofIndex d.slot, true)

variable [Allocator ω]

def tryInsert (same : α → α → Bool) (value : α) : Update (BareSet α) ω (Except (Rejected α) (Handle × Bool)) := do
  match ← Update.ask (find same value) with
  | some h => return .ok (h, false)
  | none =>
    match ← Store.makeRoom with
    | .error error => return .error ⟨error, value⟩
    | .ok _ => return .ok (← Handle.ofIndex (← Update.edit (Store.onPool (Pool.push value ()))), true)

def insert (name : Container) (same : α → α → Bool) (value : α) : Update (BareSet α) ω (Handle × Bool) := do
  match ← tryInsert same value with
  | .ok result => return result
  | .error refused => throw (.growth name .insert refused.error)

def access (name : Container) (same : α → α → Bool) : Access (Unindexed Unit) α Unit ω where
  find := find same
  insert := insert name same
  tryInsert := tryInsert same
  reinsert := reinsert same
  walk := walker.run
  list := return (← read).pool.entries.map (·.2)
  -- there is nothing that could be broken
  check := return .ok ()

def configure (capacity : Nat) : Update (BareSet α) ω (Except CapacityError Unit) := do
  if maxCapacity < capacity then return .error (.overflow capacity)
  modify fun session => { session with store := empty }
  if capacity = 0 then return .ok ()
  Store.resizeSlots (capacity + 1)

end BareSet
end Slotted
