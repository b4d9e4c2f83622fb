import Slotted.TreeSet.Link
namespace Slotted

namespace Pool

variable {α : Type} (p : Pool α TreeLink)

-- The last node on one side of the subtree at `i`; 0 for an empty subtree.
def extremeFrom (side : Side) : Nat → Nat → Except Fault Nat
  | fuel, i => do
    if i = 0 then return 0
    let child := (← p.link i).child side
    if child = 0 then return i
    match fuel with
    | 0 => throw .endless
    | fuel + 1 => extremeFrom side fuel child

def lowestFrom : Nat → Nat → Except Fault Nat := p.extremeFrom .left

-- Up from `child` until it hangs on the far side; the parent reached there is the neighbour.
def climb (side : Side) : Nat → Nat → Nat → Except Fault Nat
  | fuel, child, parent => do
    if parent = 0 then return 0
    let link ← p.link parent
    if link.child side ≠ child then return parent
    match fuel with
    | 0 => throw .endless
    | fuel + 1 => climb side fuel parent link.parent

-- The next node in order on one side: down into the subtree there, or up.
def neighbour (side : Side) (i : Nat) : Except Fault Nat := do
  let link ← p.link i
  if link.child side ≠ 0 then p.extremeFrom side.other p.walkLimit (link.child side)
  else p.climb side p.walkLimit i link.parent

end Pool

namespace TreeSet

variable {α : Type} (s : TreeSet α)

def extremeSlot (side : Side) : Except Fault Nat := s.pool.extremeFrom side s.pool.walkLimit s.index.slot

def extreme (side : Side) : Except Fault (Option α) := return s.pool.get? (← s.extremeSlot side)

-- The handle next to a live one in order. A handle of nothing has no neighbours.
def neighbourOf (side : Side) (h : Handle) : Except Fault (Option Handle) := do
  if s.pool.isActive h.index then return Handle.ofIndex? (← s.pool.neighbour side h.index) else return none

def nextOf (h : Handle) : Except Fault (Option Handle) := s.neighbourOf .right h

def prevOf (h : Handle) : Except Fault (Option Handle) := s.neighbourOf .left h

-- Nodes in order from either end; what both ends have passed is counted off.
structure Cursor where
  front : Nat
  back : Nat
  remaining : Nat
deriving DecidableEq, Repr

def cursor : Except Fault Cursor := return ⟨← s.extremeSlot .left, ← s.extremeSlot .right, s.len⟩

namespace Cursor

def next (c : Cursor) : Except Fault (Option (Handle × α) × Cursor) := do
  if c.remaining = 0 then return (none, c)
  let rest := { c with front := ← s.pool.neighbour .right c.front, remaining := c.remaining - 1 }
  let value ← s.pool.value c.front
  return (some (← Handle.ofIndex c.front, value), rest)

def nextBack (c : Cursor) : Except Fault (Option (Handle × α) × Cursor) := do
  if c.remaining = 0 then return (none, c)
  let rest := { c with back := ← s.pool.neighbour .left c.back, remaining := c.remaining - 1 }
  let value ← s.pool.value c.back
  return (some (← Handle.ofIndex c.back, value), rest)

def drain (c : Cursor) : Nat → Except Fault (List (Handle × α))
  | 0 => return []
  | n + 1 => do
    match ← next s c with
    | (none, _) => return []
    | (some entry, rest) => return entry :: (← drain rest n)

end Cursor

def entries : Except Fault (List (Handle × α)) := do (← s.cursor).drain s s.len

-- Changes every element in order, each by what is meant for its slot, and lists them as they were.
def updateFrom (change : Nat → α → α) : Nat → Nat → Edit (TreeSet α) (List α)
  | fuel, i => do
    if i = 0 then return []
    match fuel with
    | 0 => throw .endless
    | fuel + 1 =>
      let value ← (← get).pool.value i
      Store.onPool (Pool.modifyValue i (change i))
      return value :: (← updateFrom change fuel (← (← get).pool.neighbour .right i))

def updateAll (change : Nat → α → α) : Edit (TreeSet α) (List α) := do
  updateFrom change (← get).pool.walkLimit (← (← get).extremeSlot .left)

end TreeSet
end Slotted
