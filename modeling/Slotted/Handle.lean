import Slotted.Inspect
namespace Slotted

structure Handle where
  index : Nat
  pos : 0 < index
deriving DecidableEq, Repr

namespace Handle

def ofIndex? (index : Nat) : Option Handle := if h : 0 < index then some ⟨index, h⟩ else none

theorem ofIndex?_index (h : Handle) : ofIndex? h.index = some h := by simp [ofIndex?, h.pos]

def compare (a b : Handle) : Ordering := Ord.compare a.index b.index

-- Of two equal handles the second is kept.
def max (a b : Handle) : Handle := if b.index < a.index then a else b

def inspect (h : Handle) : String := Inspect.wrapped "Handle" (toString h.index)

theorem ext_index {a b : Handle} (same : a.index = b.index) : a = b := by
  cases a; cases b; simp_all

end Handle
end Slotted
