import Slotted.TreeSet.Balance
import Slotted.Rule
namespace Slotted.TreeSet

variable {α ω : Type}

-- Where a descent ends: at an element, or at the place where one would hang.
inductive Place where
  | found (slot : Nat)
  | vacant (parent : Nat) (side : Side)
deriving DecidableEq, Repr

def descend (order : α → Query (TreeSet α) ω Ordering) : Nat → Nat → Nat → Side → Query (TreeSet α) ω Place
  | fuel, parent, n, side => do
    if n = 0 then return .vacant parent side
    match fuel with
    | 0 => throw .endless
    | fuel + 1 =>
      let link ← (← read).pool.link n
      match ← order (← (← read).pool.value n) with
      | .eq => return .found n
      | .gt => descend order fuel n link.left .left
      | .lt => descend order fuel n link.right .right

def locate (probe : Probe (TreeSet α) ω α) : Query (TreeSet α) ω Place := Query.guarded do
  descend probe.order (probe.memory + (← read).pool.walkLimit) 0 (← read).index.slot .right

-- The last node on the search path that lies on the wanted side of the target. An inclusive descent stops at
-- an equal element; otherwise it passes equal ones on the far side.
def boundFrom (wanted : Side) (inclusive : Bool) (order : α → Query (TreeSet α) ω Ordering) :
    Nat → Nat → Nat → Query (TreeSet α) ω Nat
  | fuel, best, n => do
    if n = 0 then return best
    match fuel with
    | 0 => throw .endless
    | fuel + 1 =>
      let link ← (← read).pool.link n
      match ← order (← (← read).pool.value n) with
      | .eq => if inclusive then return n else boundFrom wanted inclusive order fuel best (link.child wanted)
      | .lt => boundFrom wanted inclusive order fuel (if wanted = .left then n else best) link.right
      | .gt => boundFrom wanted inclusive order fuel (if wanted = .right then n else best) link.left

def bound (wanted : Side) (inclusive : Bool) (probe : Probe (TreeSet α) ω α) :
    Query (TreeSet α) ω (Option Handle) := do
  let best ← Query.guarded do
    boundFrom wanted inclusive probe.order (probe.memory + (← read).pool.walkLimit) 0 (← read).index.slot
  return Handle.ofIndex? best

def findBy (probe : Probe (TreeSet α) ω α) : Query (TreeSet α) ω (Option Handle) := do
  match ← locate probe with
  | .found i => return some (← Handle.ofIndex i)
  | .vacant .. => return none

-- The last element below the target, at most it, and so on upwards.
def lowerBy (probe : Probe (TreeSet α) ω α) : Query (TreeSet α) ω (Option Handle) := bound .left false probe

def floorBy (probe : Probe (TreeSet α) ω α) : Query (TreeSet α) ω (Option Handle) := bound .left true probe

def ceilBy (probe : Probe (TreeSet α) ω α) : Query (TreeSet α) ω (Option Handle) := bound .right true probe

def higherBy (probe : Probe (TreeSet α) ω α) : Query (TreeSet α) ω (Option Handle) := bound .right false probe

variable (rule : OrderRule (TreeSet α) ω α)

def find (value : α) : Query (TreeSet α) ω (Option Handle) := findBy (rule.probe value)

def contains (value : α) : Query (TreeSet α) ω Bool := return (← find rule value).isSome

-- What a navigator's handle resolves to.
def resolved (search : Query (TreeSet α) ω (Option Handle)) : Query (TreeSet α) ω (Option α) := do
  match ← search with
  | some h => return (← read).get? h
  | none => return none

-- The last element on the wanted side of a value, whether or not the value is stored itself.
def near (wanted : Side) (inclusive : Bool) (value : α) : Query (TreeSet α) ω (Option α) :=
  resolved (bound wanted inclusive (rule.probe value))

def lower (value : α) : Query (TreeSet α) ω (Option α) := near rule .left false value

-- Asks about the elements in order, about each before the walk goes on.
def visit {β : Type} (ask : α → Query (TreeSet α) ω β) : Nat → Cursor → Query (TreeSet α) ω (List β)
  | 0, _ => return []
  | n + 1, c => do
    let (some (_, value), rest) ← Cursor.next (← read) c | return []
    return (← ask value) :: (← visit ask n rest)

def askEach {β : Type} (ask : α → Query (TreeSet α) ω β) : Query (TreeSet α) ω (List β) := do
  visit ask (← read).len (← (← read).cursor)

-- Both trees in step, compared pair by pair until one ends. No flag is raised.
def agree (same : α → α → Query (TreeSet α) ω Bool) (other : TreeSet α) :
    Nat → Cursor → Cursor → Query (TreeSet α) ω Bool
  | 0, _, _ => return true
  | n + 1, mine, theirs => do
    let (some (_, a), mine) ← Cursor.next (← read) mine | return true
    let (some (_, b), theirs) ← Cursor.next other theirs | return true
    if ← same a b then agree same other n mine theirs else return false

-- Same size and, in order, the same elements in the eyes of this set's rule.
def sameElementsBy (same : α → α → Query (TreeSet α) ω Bool) (other : TreeSet α) : Query (TreeSet α) ω Bool := do
  let s ← read
  if s.len ≠ other.len then return false
  agree same other s.len (← s.cursor) (← other.cursor)

def sameElements (other : TreeSet α) : Query (TreeSet α) ω Bool :=
  sameElementsBy (fun a b => return (← rule.compare a b) = .eq) other

end Slotted.TreeSet
