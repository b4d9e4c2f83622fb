import Slotted.Pool.Capacity
import Slotted.Pool.Cursor
namespace Slotted

structure Store (ι α μ : Type) where
  pool : Pool α μ
  index : ι

-- What the shared parts ask of an index.
class Index (ι : Type) (μ : outParam Type) [Inhabited μ] where
  -- buckets needed beside this many slots
  width : ι → Nat → Nat
  -- a live slot was moved by compaction, and the old number is now idle
  moved {α : Type} (source target : Nat) : Edit (Store ι α μ) Unit
  -- compaction is over
  settled {α : Type} : Edit (Store ι α μ) Unit
  -- the pool took on a new size
  resized {α : Type} (slots : Nat) : Edit (Store ι α μ) Unit
  -- a live slot leaves the structure
  unlink {α : Type} (i : Nat) : Edit (Store ι α μ) Unit
  -- every element is gone
  cleared : ι → ι

namespace Store

variable {ι α μ : Type}

def onPool {β : Type} (change : Edit (Pool α μ) β) : Edit (Store ι α μ) β := fun ⟨pool, index⟩ =>
  match change pool with
  | .ok value pool => .ok value ⟨pool, index⟩
  | .error fault pool => .error fault ⟨pool, index⟩

def len (s : Store ι α μ) : Nat := s.pool.count

def isEmpty (s : Store ι α μ) : Bool := s.len = 0

def capacity (s : Store ι α μ) : Nat := s.pool.capacity - 1

-- A number past the end, a tombstone and the reserved slot all resolve to nothing.
def get? (s : Store ι α μ) (h : Handle) : Option α := s.pool.get? h.index

-- Changes a live element in place. The caller answers for what the index believes about it.
def modifyAt (h : Handle) (change : α → α) : Edit (Store ι α μ) (Option α) := do
  match (← get).get? h with
  | none => return none
  | some _ =>
    onPool (Pool.modifyValue h.index change)
    return (← get).get? h

def clear [Inhabited μ] [Index ι μ] (s : Store ι α μ) : Store ι α μ := ⟨s.pool.clear, Index.cleared s.index⟩

-- A value together with the place it was read from, if it was read from this container.
structure Loan (α : Type) where
  value : α
  slot : Option Nat

def Loan.outside (value : α) : Loan α := ⟨value, none⟩

def lend (s : Store ι α μ) (h : Handle) : Option (Loan α) := (s.get? h).map (⟨·, some h.index⟩)

def handleOf (s : Store ι α μ) (loan : Loan α) : Except Fault (Option Handle) :=
  match loan.slot with
  | none => .ok none
  | some i => if (s.pool.get? i).isSome then some <$> Handle.ofIndex i else .ok none

end Store

def Session.copy {κ ω : Type} (s : Session κ ω) : Session κ ω := { s with gate := { s.gate with busy := false } }

end Slotted
