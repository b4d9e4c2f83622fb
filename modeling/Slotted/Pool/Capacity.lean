import Slotted.Pool.Basic
namespace Slotted.Pool

variable {α μ : Type}

-- A new size must fit 32-bit slot numbers and may cut off neither a live element nor a tombstone. Only an
-- empty pool may give everything back.
def refusal (p : Pool α μ) (slots : Nat) : Option CapacityError :=
  if maxCapacity + 1 < slots then some (.overflow (slots - 1))
  else if slots - 1 < p.count then some (.belowLen (slots - 1) p.count)
  else if slots < p.slots.size && !(slots = 0 && p.count = 0) then some (.belowLen (slots - 1) (p.next - 1))
  else none

-- Memory is asked for only when the array has to be longer than it is.
def wants (p : Pool α μ) (slots : Nat) : Bool := p.slots.size < slots

-- Takes on a size that was not refused.
def setCapacity [Inhabited μ] (p : Pool α μ) (slots : Nat) : Pool α μ :=
  if slots = 0 then { p with slots := #[], capacity := 0 }
  else if p.slots.isEmpty then { p with slots := #[.sentinel], capacity := slots }
  else { p with capacity := slots }

end Slotted.Pool
