import Slotted.Store.Removal
import Slotted.Store.Capacity
namespace Slotted

inductive Side where
  | left | right
deriving DecidableEq, Repr

namespace Side

def other : Side → Side
  | left => right
  | right => left

-- A balance is the right height less the left one, so the right side counts up.
def sign : Side → Int
  | left => -1
  | right => 1

theorem other_other (side : Side) : side.other.other = side := by cases side <;> rfl

theorem sign_other (side : Side) : side.other.sign = -side.sign := by cases side <;> rfl

end Side

structure TreeLink where
  parent : Nat
  left : Nat
  right : Nat
  balance : Int
deriving DecidableEq, Repr, Inhabited

namespace TreeLink

def child (link : TreeLink) : Side → Nat
  | .left => link.left
  | .right => link.right

def setChild (link : TreeLink) (side : Side) (i : Nat) : TreeLink :=
  match side with
  | .left => { link with left := i }
  | .right => { link with right := i }

theorem child_setChild (link : TreeLink) (side : Side) (i : Nat) :
    (link.setChild side i).child side = i ∧ (link.setChild side i).child side.other = link.child side.other := by
  cases side <;> exact ⟨rfl, rfl⟩

-- The side on which a child hangs. A slot that is no child at all counts as right.
def sideOf (link : TreeLink) (i : Nat) : Side := if link.left = i then .left else .right

end TreeLink

structure Root where
  slot : Nat
deriving DecidableEq, Repr

abbrev TreeSet (α : Type) := Store Root α TreeLink

namespace TreeSet

variable {α : Type}

def link (i : Nat) : Edit (TreeSet α) TreeLink := do (← get).pool.link i

def modifyLink (i : Nat) (f : TreeLink → TreeLink) : Edit (TreeSet α) Unit := Store.onPool (Pool.modifyLink i f)

def setRoot (i : Nat) : Edit (TreeSet α) Unit := modify fun s => { s with index := ⟨i⟩ }

def setChild (i : Nat) (side : Side) (child : Nat) : Edit (TreeSet α) Unit := modifyLink i (·.setChild side child)

def setParent (i parent : Nat) : Edit (TreeSet α) Unit :=
  if i = 0 then pure () else modifyLink i fun link => { link with parent := parent }

def setBalance (i : Nat) (balance : Int) : Edit (TreeSet α) Unit :=
  modifyLink i fun link => { link with balance := balance }

-- Balances are stored in eight bits.
def shiftBalance (i : Nat) (change : Int) : Edit (TreeSet α) Int := do
  let balance := (← link i).balance + change
  if balance < -128 || 127 < balance then throw .addition
  setBalance i balance
  return balance

-- Puts one child in the place of another. Without a parent the new one is the root.
def replaceChild (owns : Agreement) (parent old new : Nat) : Edit (TreeSet α) Unit := do
  if parent = 0 then setRoot new
  else
    let link ← link parent
    if link.left = old then setChild parent .left new
    else
      unless link.right = old do throw (.disagreement owns link.right old)
      setChild parent .right new

end TreeSet
end Slotted
