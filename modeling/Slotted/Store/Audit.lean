import Slotted.Store.Basic
namespace Slotted

-- A check reports the first broken promise; a rule's own fault still ends it.
abbrev Audit (κ ω : Type) : Type → Type := ExceptT CheckError (Query κ ω)

-- What holds for every index: slot 0 is idle and the count is the number of live slots.
def Pool.checkCount {α μ : Type} (p : Pool α μ) : Except CheckError Unit :=
  let actual := p.slots.countP (·.active)
  if p.isActive 0 then .error .sentinelActive
  else if actual ≠ p.count then .error (.countMismatch p.count actual)
  else .ok ()

-- Every live slot was reached; the first that was not is reported.
def Pool.checkReached {α μ : Type} (p : Pool α μ) (seen : Array Bool) : Except CheckError Unit :=
  if seen.countP id = p.slots.countP (·.active) then .ok ()
  else
    let lost := (List.range' 1 (p.slots.size - 1)).find? fun i => p.isActive i && !seen.getD i false
    .error (.unreachable (lost.getD 0))

end Slotted
