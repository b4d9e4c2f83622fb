import Slotted.Rule
import Slotted.Error
namespace Slotted

structure Entry (κ ν : Type) where
  key : κ
  value : ν
deriving DecidableEq, Repr

namespace Entry

variable {κ ν : Type}

def ofPair (pair : κ × ν) : Entry κ ν := ⟨pair.1, pair.2⟩

def toPair (e : Entry κ ν) : κ × ν := (e.key, e.value)

def mapValue (change : ν → ν) (e : Entry κ ν) : Entry κ ν := { e with value := change e.value }

def same (equal : κ → κ → Bool) (a b : Entry κ ν) : Bool := equal a.key b.key

-- Keys such as floating-point numbers may be incomparable.
def order (compare : κ → κ → Option Ordering) (a b : Entry κ ν) : Option Ordering := compare a.key b.key

-- Of two entries with equal keys the second is kept.
def max (compare : κ → κ → Ordering) (a b : Entry κ ν) : Entry κ ν :=
  if compare a.key b.key = .gt then a else b

def inspect (key : κ → String) (value : ν → String) (e : Entry κ ν) : String :=
  Inspect.fields "KeyValue" [("key", key e.key), ("value", value e.value)]

def inspectPair (key : κ → String) (value : ν → String) (e : Entry κ ν) : String :=
  Inspect.pair (key e.key) (value e.value)

end Entry

-- Incomparable keys stand in no relation at all.
namespace Relation

def lt (order : Option Ordering) : Bool := order = some .lt

def le (order : Option Ordering) : Bool := order = some .lt || order = some .eq

def gt (order : Option Ordering) : Bool := order = some .gt

def ge (order : Option Ordering) : Bool := order = some .gt || order = some .eq

end Relation

-- IEEE order: nothing compares with what is no number, and both zeros are equal.
def compareFloats (a b : Float) : Option Ordering :=
  if a < b then some .lt else if b < a then some .gt else if a == b then some .eq else none

variable {σ ω κ ν : Type}

def HashRule.onKeys (rule : HashRule σ ω κ) : HashRule σ ω (Entry κ ν) where
  hash entry := rule.hash entry.key
  equal a b := rule.equal a.key b.key

def OrderRule.onKeys (rule : OrderRule σ ω κ) : OrderRule σ ω (Entry κ ν) where
  compare a b := rule.compare a.key b.key

def PureHash.onKeys (rule : PureHash κ) : PureHash (Entry κ ν) where
  hash entry := rule.hash entry.key
  equal a b := rule.equal a.key b.key

def PureOrder.onKeys (rule : PureOrder κ) : PureOrder (Entry κ ν) where
  compare a b := rule.compare a.key b.key

end Slotted
