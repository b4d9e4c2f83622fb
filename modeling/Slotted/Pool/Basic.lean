import Slotted.Session
namespace Slotted

-- The link belongs to whatever index is threaded through the slots.
structure Slot (α μ : Type) where
  active : Bool
  link : μ
  value : Option α
deriving DecidableEq, Repr

-- The reserved slot holds no value and takes part in no structure.
def Slot.sentinel {α μ : Type} [Inhabited μ] : Slot α μ := ⟨false, default, none⟩

-- The capacity counts the reserved slot too and is 0 until something is allocated.
structure Pool (α μ : Type) where
  slots : Array (Slot α μ)
  capacity : Nat
  count : Nat
deriving Repr

namespace Pool

variable {α μ : Type}

def empty : Pool α μ := ⟨#[], 0, 0⟩

-- The slot that the next new element gets.
def next (p : Pool α μ) : Nat := max p.slots.size 1

def tombstones (p : Pool α μ) : Except Fault Nat :=
  if p.count ≤ p.next - 1 then .ok (p.next - 1 - p.count) else .error .subtraction

-- A full pool must grow or be compacted before it takes another element.
def isFull (p : Pool α μ) : Bool := p.capacity ≤ p.next

def isActive (p : Pool α μ) (i : Nat) : Bool := p.slots[i]?.any (·.active)

def get? (p : Pool α μ) (i : Nat) : Option α :=
  match p.slots[i]? with
  | some slot => if slot.active then slot.value else none
  | none => none

def outOfRange (p : Pool α μ) (i : Nat) : Fault := .slotOutOfRange p.slots.size i

def value (p : Pool α μ) (i : Nat) : Except Fault α :=
  match p.slots[i]? with
  | some ⟨_, _, some value⟩ => .ok value
  | some ⟨_, _, none⟩ => .error .emptySlot
  | none => .error (p.outOfRange i)

def link (p : Pool α μ) (i : Nat) : Except Fault μ :=
  match p.slots[i]? with
  | some slot => .ok slot.link
  | none => .error (p.outOfRange i)

-- How far a walk along links may go. One that goes by the slot it is on, or by that and the one before, and
-- takes more steps than there are slots goes round in a circle for ever.
def walkLimit (p : Pool α μ) : Nat := p.slots.size + 1

def modifySlot (i : Nat) (f : Slot α μ → Slot α μ) : Edit (Pool α μ) Unit := fun p =>
  if i < p.slots.size then .ok () { p with slots := p.slots.modify i f } else .error (p.outOfRange i) p

def modifyLink (i : Nat) (f : μ → μ) : Edit (Pool α μ) Unit :=
  modifySlot i fun slot => { slot with link := f slot.link }

def setLink (i : Nat) (link : μ) : Edit (Pool α μ) Unit := modifyLink i fun _ => link

def modifyValue (i : Nat) (f : α → α) : Edit (Pool α μ) Unit := do
  let _ ← (← get).value i
  modifySlot i fun slot => { slot with value := slot.value.map f }

def addToCount : Edit (Pool α μ) Unit := modify fun p => { p with count := p.count + 1 }

def takeFromCount : Edit (Pool α μ) Unit := fun p =>
  if p.count = 0 then .error .subtraction p else .ok () { p with count := p.count - 1 }

def push (value : α) (link : μ) : Edit (Pool α μ) Nat := fun p =>
  if p.slots.isEmpty then .error .sentinelMissing p
  else if p.isFull then .error .poolFull p
  else
    let i := p.slots.size
    .ok i { p with slots := p.slots.push ⟨true, link, some value⟩, count := p.count + 1 }

def take (i : Nat) : Edit (Pool α μ) (Option α) := do
  if (← get).isActive i then
    modifySlot i fun slot => { slot with active := false }
    takeFromCount
    let value := (← get).slots[i]?.bind (·.value)
    modifySlot i fun slot => { slot with value := none }
    return value
  else
    return none

def detach (i : Nat) : Edit (Pool α μ) Unit := do
  match (← get).slots[i]? with
  | none => throw ((← get).outOfRange i)
  | some slot =>
    unless slot.active && slot.value.isSome do throw .detachIdle
    modifySlot i fun slot => { slot with active := false }
    takeFromCount

def reattach (i : Nat) : Edit (Pool α μ) Unit := do
  match (← get).slots[i]? with
  | none => throw ((← get).outOfRange i)
  | some slot =>
    unless !slot.active && slot.value.isSome do throw .reattachLive
    modifySlot i fun slot => { slot with active := true }
    addToCount

-- Moves the value out of a detached slot, which is then a tombstone.
def discard (i : Nat) : Edit (Pool α μ) (Option α) := do
  match (← get).slots[i]? with
  | none => throw ((← get).outOfRange i)
  | some slot =>
    if slot.active then throw .discardLive
    modifySlot i fun slot => { slot with value := none }
    return slot.value

def clear (p : Pool α μ) : Pool α μ :=
  { p with slots := (p.slots.take 1).modify 0 fun slot => { slot with active := false }, count := 0 }

def entries (p : Pool α μ) : List (Nat × α) :=
  p.slots.toList.zipIdx.filterMap fun (slot, i) => if slot.active then slot.value.map (i, ·) else none

end Pool
end Slotted
