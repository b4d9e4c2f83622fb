import Slotted.Store.Compact
namespace Slotted

-- An element out of the structure but still in its slot. Its container is at rest until the element is put
-- back or dropped.
structure Detached where
  slot : Nat
deriving DecidableEq, Repr

def Detached.inspect (value : String) : String := Inspect.wrapped "Detached" value

namespace Store

variable {ι α μ : Type} [Inhabited μ] [Index ι μ]

-- The element leaves a tombstone behind. A handle of nothing removes nothing.
def remove (h : Handle) : Edit (Store ι α μ) (Option α) := do
  if (← get).pool.isActive h.index then
    Index.unlink h.index
    onPool (Pool.take h.index)
  else return none

def take {ω : Type} (search : Query (Store ι α μ) ω (Option Handle)) : Update (Store ι α μ) ω (Option α) := do
  match ← Update.ask search with
  | some h => Update.edit (remove h)
  | none => return none

def extract (h : Handle) : Edit (Store ι α μ) (Option Detached) := do
  if (← get).pool.isActive h.index then
    Index.unlink h.index
    onPool (Pool.detach h.index)
    return some ⟨h.index⟩
  else return none

def detachedValue (s : Store ι α μ) (d : Detached) : Except Fault α := s.pool.value d.slot

def modifyDetached (d : Detached) (change : α → α) : Edit (Store ι α μ) Unit :=
  onPool (Pool.modifyValue d.slot change)

def release (d : Detached) : Edit (Store ι α μ) α := do
  match ← onPool (Pool.discard d.slot) with
  | some value => return value
  | none => throw .detachedEmpty

def drop (d : Detached) : Edit (Store ι α μ) Unit := do
  let _ ← onPool (Pool.discard d.slot)

end Store
end Slotted
