import Slotted.Action.Map
namespace Slotted

variable {α κ ν ω : Type}

inductive TreeSetAction (α ω : Type) where
  | common (action : SetAction α)
  | findBy (probe : Probe (TreeSet α) ω α)
  | bound (wanted : Side) (inclusive : Bool) (probe : Probe (TreeSet α) ω α)
  | insertWith (probe : Probe (TreeSet α) ω α) (make : Query (TreeSet α) ω α)
  | near (wanted : Side) (inclusive : Bool) (value : α)
  | extreme (side : Side)
  | neighbour (side : Side) (h : Handle)
  | updateAll (change : Nat → α → α)

inductive TreeMapAction (κ ν ω : Type) where
  | common (action : MapAction (TreeMap κ ν) κ ν ω)
  | near (wanted : Side) (inclusive : Bool) (key : κ)
  | extreme (side : Side)
  | neighbour (side : Side) (h : Handle)
  | pop (side : Side)
  | updateAll (change : Nat → ν → ν)

variable [Allocator ω]

def TreeSet.act (rule : OrderRule (TreeSet α) ω α) : TreeSetAction α ω → Update (TreeSet α) ω (Reply α)
  | .common action => (TreeSet.access rule).run action
  | .findBy probe => return .found (← Update.ask (TreeSet.findBy probe))
  | .bound wanted inclusive probe => return .found (← Update.ask (TreeSet.bound wanted inclusive probe))
  | .insertWith probe make => do
    let (h, fresh) ← TreeSet.insertWith probe make
    return .placed h fresh
  | .near wanted inclusive value => return .element (← Update.ask (TreeSet.near rule wanted inclusive value))
  | .extreme side => return .element (← TreeSet.extreme (← get).store side)
  | .neighbour side h => return .found (← TreeSet.neighbourOf (← get).store side h)
  | .updateAll change => return .listed (← Update.edit (TreeSet.updateAll change))

def TreeMap.act (rule : OrderRule (TreeMap κ ν) ω κ) : TreeMapAction κ ν ω → Update (TreeMap κ ν) ω (MapReply κ ν)
  | .common action => (TreeMap.access rule).run action
  | .near wanted inclusive key =>
    return .entries (.element (← Update.ask (TreeMap.near rule wanted inclusive key)))
  | .extreme side => return .entries (.element (← TreeSet.extreme (← get).store side))
  | .neighbour side h => return .entries (.found (← TreeSet.neighbourOf (← get).store side h))
  | .pop side => return .entries (.element (← Update.edit (TreeMap.pop side)))
  | .updateAll change => return .entries (.listed (← Update.edit (TreeMap.updateAll change)))

end Slotted
