import Slotted.HashSet.Chain
import Slotted.Rule
namespace Slotted.HashSet

variable {α ω : Type}

def hashOf (rule : HashRule (HashSet α) ω α) (value : α) : Query (HashSet α) ω UInt32 :=
  (rule.hash value).guarded

-- The first slot from `i` on that is linked under this hash and is accepted.
def walk (hash : UInt32) (accepts : α → Query (HashSet α) ω Bool) : Nat → Nat → Query (HashSet α) ω (Option Nat)
  | fuel, i => do
    if i = 0 then return none
    match fuel with
    | 0 => throw .endless
    | fuel + 1 =>
      let link ← (← read).pool.link i
      if link.hash = hash then
        if ← accepts (← (← read).pool.value i) then return some i
      walk hash accepts fuel link.next

-- Nothing is looked at, and no flag is raised, while there are no buckets.
def findHashed (hash : UInt32) (accepts : α → Query (HashSet α) ω Bool) : Query (HashSet α) ω (Option Nat) := do
  if (← read).index.heads.isEmpty then return none
  Query.guarded do
    let bucket ← (← read).index.select hash
    walk hash accepts (← read).pool.walkLimit ((← read).index.head bucket)

-- Lookup under a hash worked out by the caller, which must be the hash of whatever is accepted.
def findBy (hash : UInt32) (accepts : α → Query (HashSet α) ω Bool) : Query (HashSet α) ω (Option Handle) := do
  match ← findHashed hash accepts with
  | some i => return some (← Handle.ofIndex i)
  | none => return none

def find (rule : HashRule (HashSet α) ω α) (value : α) : Query (HashSet α) ω (Option Handle) := do
  let hash ← hashOf rule value
  findBy hash (rule.equal · value)

def contains (rule : HashRule (HashSet α) ω α) (value : α) : Query (HashSet α) ω Bool :=
  return (← find rule value).isSome

-- Same size, and every element of the other set is found in this one, by this one's rule.
def sameElements (other : HashSet α) (rule : HashRule (HashSet α) ω α) : Query (HashSet α) ω Bool := do
  if other.len ≠ (← read).len then return false
  other.pool.entries.allM fun (_, value) => contains rule value

end Slotted.HashSet
