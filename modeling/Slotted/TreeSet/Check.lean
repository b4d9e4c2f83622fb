import Slotted.TreeSet.Lookup
import Slotted.Store.Audit
namespace Slotted.TreeSet

variable {α ω : Type}

-- The height of the subtree at `n`, which must hang under `parent`, and the slots seen so far. Going deeper
-- than there are slots can only revisit one.
def checkSubtree (p : Pool α TreeLink) : Nat → Nat → Nat → Array Bool → Except CheckError (Nat × Array Bool)
  | fuel, parent, n, seen => do
    if n = 0 then return (0, seen)
    match p.slots[n]? with
    | none => throw (.brokenLink parent)
    | some slot =>
      if !slot.active then throw (.inactiveLinked n)
      if seen.getD n false then throw (.revisited n)
      match fuel with
      | 0 => throw (.revisited n)
      | fuel + 1 =>
        if slot.link.parent ≠ parent then throw (.brokenLink n)
        let (left, seen) ← checkSubtree p fuel n slot.link.left (seen.setIfInBounds n true)
        let (right, seen) ← checkSubtree p fuel n slot.link.right seen
        let difference : Int := right - left
        if difference ≠ slot.link.balance || 1 < difference.natAbs then
          throw (.badBalance n slot.link.balance difference)
        return (1 + max left right, seen)

def checkShape (s : TreeSet α) : Except CheckError Unit := do
  s.pool.checkCount
  let unseen := Array.replicate s.pool.slots.size false
  let (_, seen) ← checkSubtree s.pool s.pool.slots.size 0 s.index.slot unseen
  s.pool.checkReached seen

variable (rule : OrderRule (TreeSet α) ω α)

def checkOrder : Nat → Nat → Nat → Audit (TreeSet α) ω Unit
  | fuel, prev, i => do
    if i = 0 then return ()
    match fuel with
    | 0 => throwThe Fault .endless
    | fuel + 1 =>
      let p := (← read).pool
      if prev ≠ 0 then
        if (← rule.compare (← p.value prev) (← p.value i)) ≠ .lt then throw (.unordered i)
      checkOrder fuel i (← p.neighbour .right i)

def audit : Audit (TreeSet α) ω Unit := do
  let s ← read
  ExceptT.mk (pure (checkShape s))
  ExceptT.mk (Query.guarded (do checkOrder rule s.pool.walkLimit 0 (← s.extremeSlot .left) : Audit (TreeSet α) ω Unit).run)

def check : Query (TreeSet α) ω (Except CheckError Unit) := (audit rule).run

end Slotted.TreeSet
