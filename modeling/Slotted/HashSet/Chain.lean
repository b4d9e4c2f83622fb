import Slotted.Store.Removal
import Slotted.Store.Capacity
namespace Slotted

structure ChainLink where
  prev : Nat
  next : Nat
  hash : UInt32
deriving DecidableEq, Repr, Inhabited

-- The first slot of each chain, 0 for an empty one, and how many buckets a pool of slots gets.
structure Buckets where
  heads : Array Nat
  loadFactor : Nat
deriving DecidableEq, Repr

namespace Buckets

def empty (loadFactor : Nat) : Buckets := ⟨#[], loadFactor⟩

def select (b : Buckets) (hash : UInt32) : Except Fault Nat :=
  if b.heads.isEmpty then .error .noBuckets else .ok (hash.toNat % b.heads.size)

def head (b : Buckets) (bucket : Nat) : Nat := b.heads.getD bucket 0

def setHead (b : Buckets) (bucket i : Nat) : Buckets := { b with heads := b.heads.setIfInBounds bucket i }

def cleared (b : Buckets) : Buckets := { b with heads := Array.replicate b.heads.size 0 }

def sized (b : Buckets) (slots : Nat) : Buckets :=
  { b with heads := Array.replicate (bucketCount b.loadFactor slots) 0 }

end Buckets

abbrev HashSet (α : Type) := Store Buckets α ChainLink

namespace HashSet

variable {α : Type}

def setHead (bucket i : Nat) : Edit (HashSet α) Unit := modify fun s => { s with index := s.index.setHead bucket i }

-- A new element comes first in its chain.
def linkHead (i : Nat) (hash : UInt32) : Edit (HashSet α) Unit := do
  let bucket ← (← get).index.select hash
  let head := (← get).index.head bucket
  Store.onPool (Pool.setLink i ⟨0, head, hash⟩)
  if head ≠ 0 then Store.onPool (Pool.modifyLink head fun link => { link with prev := i })
  setHead bucket i

-- The remembered hash finds the bucket, even if the element has changed since.
def unlink (i : Nat) : Edit (HashSet α) Unit := do
  let ⟨prev, next, hash⟩ ← (← get).pool.link i
  if prev ≠ 0 then Store.onPool (Pool.modifyLink prev fun link => { link with next := next })
  else
    let bucket ← (← get).index.select hash
    let head := (← get).index.head bucket
    unless head = i do throw (.disagreement .chainHead head i)
    setHead bucket next
  if next ≠ 0 then Store.onPool (Pool.modifyLink next fun link => { link with prev := prev })
  Store.onPool (Pool.setLink i ⟨0, 0, hash⟩)

def linkRemembered (i : Nat) : Edit (HashSet α) Unit := do
  if (← get).pool.isActive i then linkHead i (← (← get).pool.link i).hash

-- Rebuilds every chain. Slots are taken in rising order, so the highest ends up first.
def rebucket : Edit (HashSet α) Unit := do
  modify fun s => { s with index := s.index.cleared }
  unless (← get).index.heads.isEmpty do
    (List.range' 1 ((← get).pool.next - 1)).forM linkRemembered

end HashSet

instance : Index Buckets ChainLink where
  width b slots := bucketCount b.loadFactor slots
  moved _ _ := pure ()
  settled := HashSet.rebucket
  resized slots := do
    modify fun s => { s with index := s.index.sized slots }
    HashSet.rebucket
  unlink := HashSet.unlink
  cleared := Buckets.cleared

end Slotted
