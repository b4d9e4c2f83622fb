import Slotted.Session
namespace Slotted

structure HashRule (κ ω α : Type) where
  hash : α → Query κ ω UInt32
  equal : α → α → Query κ ω Bool

structure OrderRule (κ ω α : Type) where
  compare : α → α → Query κ ω Ordering

-- How a stored element orders against a target. The first `memory` answers may depend on more than the element
-- that is shown; after them the element alone decides, so a search that then meets one twice never ends.
structure Probe (κ ω α : Type) where
  order : α → Query κ ω Ordering
  memory : Nat

def OrderRule.probe {κ ω α : Type} (rule : OrderRule κ ω α) (value : α) : Probe κ ω α where
  order element := rule.compare element value
  memory := 0

-- A rule that always answers the same and cannot fault.
structure PureHash (α : Type) where
  hash : α → UInt32
  equal : α → α → Bool

structure PureOrder (α : Type) where
  compare : α → α → Ordering

namespace PureHash

variable {κ ω α : Type}

def rule (r : PureHash α) : HashRule κ ω α where
  hash value := pure (r.hash value)
  equal a b := pure (r.equal a b)

-- Equality sorts elements into classes, and a class hashes as one.
structure Lawful (r : PureHash α) : Prop where
  refl : ∀ a, r.equal a a = true
  symm : ∀ a b, r.equal a b = true → r.equal b a = true
  trans : ∀ a b c, r.equal a b = true → r.equal b c = true → r.equal a c = true
  hash : ∀ a b, r.equal a b = true → r.hash a = r.hash b

theorem Lawful.alike {r : PureHash α} (lawful : r.Lawful) : Equivalence (r.equal · · = true) :=
  ⟨lawful.refl, @lawful.symm, @lawful.trans⟩

-- Any hash will do where only what is the same thing is equal.
theorem lawful_beq [BEq α] [LawfulBEq α] (hash : α → UInt32) : (⟨hash, (· == ·)⟩ : PureHash α).Lawful where
  refl _ := beq_self_eq_true _
  symm _ _ alike := BEq.symm alike
  trans _ _ _ alike alike' := BEq.trans alike alike'
  hash _ _ alike := congrArg hash (eq_of_beq alike)

end PureHash

namespace PureOrder

variable {κ ω α : Type}

def rule (r : PureOrder α) : OrderRule κ ω α where
  compare a b := pure (r.compare a b)

def reverse (r : PureOrder α) : PureOrder α where
  compare a b := r.compare b a

-- A strict total order on classes of elements that compare equal.
structure Lawful (r : PureOrder α) : Prop where
  swap : ∀ a b, r.compare b a = (r.compare a b).swap
  trans : ∀ a b c, r.compare a b = .lt → r.compare b c = .lt → r.compare a c = .lt
  class_left : ∀ a b c, r.compare a b = .eq → r.compare a c = r.compare b c

end PureOrder

-- 64-bit hashes are folded by laying the upper half over the lower.
def foldHash (h : UInt64) : UInt32 := (h ^^^ (h >>> 32)).toUInt32

end Slotted
