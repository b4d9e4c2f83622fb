import Slotted.HashSet.Lookup
import Slotted.Store.Audit
namespace Slotted

namespace HashSet

variable {α ω : Type} (rule : HashRule (HashSet α) ω α)

-- One slot of a chain, behind slot `prev`. Tells the slot that follows.
def checkLinked (bucket prev i : Nat) (seen : Array Bool) : Audit (HashSet α) ω Nat := do
  match (← read).pool.slots[i]? with
  | none => throw (.brokenLink prev)
  | some slot =>
    if !slot.active then throw (.inactiveLinked i)
    if seen.getD i false then throw (.revisited i)
    if slot.link.prev ≠ prev then throw (.brokenLink i)
    let expected ← (← read).index.select slot.link.hash
    if expected ≠ bucket then throw (.wrongBucket i bucket expected)
    let hash ← hashOf rule (← (← read).pool.value i)
    if hash ≠ slot.link.hash then throw (.staleHash i)
    return slot.link.next

-- One chain from slot `i` on, behind slot `prev`. More steps than slots can only revisit one.
def checkChain (bucket : Nat) : Nat → Nat → Nat → Array Bool → Audit (HashSet α) ω (Array Bool)
  | fuel, prev, i, seen => do
    if i = 0 then return seen
    match fuel with
    | 0 => throw (.revisited i)
    | fuel + 1 =>
      let next ← checkLinked rule bucket prev i seen
      checkChain bucket fuel i next (seen.setIfInBounds i true)

def audit : Audit (HashSet α) ω Unit := do
  let s ← read
  ExceptT.mk (pure s.pool.checkCount)
  let unseen := Array.replicate s.pool.slots.size false
  let seen ← s.index.heads.toList.zipIdx.foldlM
    (fun seen (head, bucket) => checkChain rule bucket s.pool.walkLimit 0 head seen) unseen
  ExceptT.mk (pure (s.pool.checkReached seen))

def check : Query (HashSet α) ω (Except CheckError Unit) := (audit rule).run

end HashSet
end Slotted
