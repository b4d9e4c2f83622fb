import Slotted.HashSet.Basic
import Slotted.TreeSet.Basic
namespace Slotted

inductive Stride where
  | front | back
  -- asks only how many are left
  | count
deriving DecidableEq, Repr

inductive Walked (β : Type) where
  | item (item : Option β)
  | left (count : Nat)
deriving Repr

structure Walker (κ ω γ β : Type) where
  start : Update κ ω γ
  front : γ → Update κ ω (Option β × γ)
  back : γ → Update κ ω (Option β × γ)
  left : γ → Nat

namespace Walker

variable {κ ω γ β : Type}

def runFrom (w : Walker κ ω γ β) (c : γ) : List Stride → Update κ ω (List (Walked β))
  | [] => return []
  | .count :: strides => return .left (w.left c) :: (← w.runFrom c strides)
  | .front :: strides => do
    let (item, c) ← w.front c
    return .item item :: (← w.runFrom c strides)
  | .back :: strides => do
    let (item, c) ← w.back c
    return .item item :: (← w.runFrom c strides)

def run (w : Walker κ ω γ β) (strides : List Stride) : Update κ ω (List (Walked β)) := do
  w.runFrom (← w.start) strides

end Walker

variable {α ω : Type}

-- A hash set is walked in slot order, a tree set in its own order.
def HashSet.walker : Walker (HashSet α) ω Pool.Cursor (Handle × α) where
  start := return (← get).store.pool.cursor
  front c := do Pool.Cursor.next (← get).store.pool c
  back c := do Pool.Cursor.nextBack (← get).store.pool c
  left c := c.remaining

def HashSet.changingWalker (change : Nat → α → α) : Walker (HashSet α) ω Pool.Cursor (Handle × α) where
  start := return (← get).store.pool.cursor
  front c := Update.edit (HashSet.stepChanging Pool.Cursor.next change c)
  back c := Update.edit (HashSet.stepChanging Pool.Cursor.nextBack change c)
  left c := c.remaining

def TreeSet.walker : Walker (TreeSet α) ω TreeSet.Cursor (Handle × α) where
  start := do (← get).store.cursor
  front c := do TreeSet.Cursor.next (← get).store c
  back c := do TreeSet.Cursor.nextBack (← get).store c
  left c := c.remaining

end Slotted
