import Slotted.Pool.Basic
namespace Slotted.Pool

variable {α μ : Type}

-- Slots from `front` up to but excluding `back` are still to be looked at, and `remaining` of them are live.
structure Cursor where
  front : Nat
  back : Nat
  remaining : Nat
deriving DecidableEq, Repr

def cursor (p : Pool α μ) : Cursor := ⟨0, p.slots.size, p.count⟩

namespace Cursor

-- One element fewer to come, and its number must be a handle.
def yield (c : Cursor) (i : Nat) (value : α) : Except Fault (Option (Handle × α) × Cursor) := do
  if c.remaining = 0 then throw .subtraction
  return (some (← Handle.ofIndex i, value), { c with remaining := c.remaining - 1 })

def next (p : Pool α μ) (c : Cursor) : Except Fault (Option (Handle × α) × Cursor) :=
  if _h : c.front < c.back then
    let rest := { c with front := c.front + 1 }
    match p.get? c.front with
    | some value => rest.yield c.front value
    | none => next p rest
  else .ok (none, c)
termination_by c.back - c.front
decreasing_by omega

def nextBack (p : Pool α μ) (c : Cursor) : Except Fault (Option (Handle × α) × Cursor) :=
  if _h : c.front < c.back then
    let rest := { c with back := c.back - 1 }
    match p.get? (c.back - 1) with
    | some value => rest.yield (c.back - 1) value
    | none => nextBack p rest
  else .ok (none, c)
termination_by c.back - c.front
decreasing_by omega

end Cursor
end Slotted.Pool
