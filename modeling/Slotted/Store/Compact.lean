import Slotted.Store.Basic
namespace Slotted

def Pool.swap {α μ : Type} (p : Pool α μ) (i j : Nat) : Pool α μ := { p with slots := p.slots.swapIfInBounds i j }

def Pool.dropTail {α μ : Type} (p : Pool α μ) : Pool α μ := { p with slots := p.slots.take (p.count + 1) }

namespace Store

variable {ι α μ : Type}

-- `lo` passes over live slots, `hi` over idle ones; where both stop, the live slot moves down. The hook runs
-- after each move, with the vacated number and the new one.
def closeGaps (relocate : Nat → Nat → Edit (Store ι α μ) Unit) (lo hi : Nat) : Edit (Store ι α μ) Unit := do
  if _h : lo < hi then
    if (← get).pool.isActive lo then closeGaps relocate (lo + 1) hi
    else if !(← get).pool.isActive hi then closeGaps relocate lo (hi - 1)
    else
      modify fun s => { s with pool := s.pool.swap lo hi }
      relocate hi lo
      closeGaps relocate (lo + 1) (hi - 1)
termination_by hi - lo

def compactWith (relocate : Nat → Nat → Edit (Store ι α μ) Unit) : Edit (Store ι α μ) Unit := do
  let size := (← get).pool.slots.size
  if 1 < size then
    closeGaps relocate 1 (size - 1)
    modify fun s => { s with pool := s.pool.dropTail }

variable [Inhabited μ] [Index ι μ]

def compact : Edit (Store ι α μ) Unit := do
  compactWith Index.moved
  Index.settled

-- Gives the live elements the numbers 1 to the length. Without tombstones nothing moves.
def reorder : Edit (Store ι α μ) Unit := do
  if (← (← get).pool.tombstones) ≠ 0 then compact

end Store
end Slotted
