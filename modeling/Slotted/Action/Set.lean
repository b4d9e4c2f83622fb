import Slotted.Action.Walk
import Slotted.HashSet.Rekey
import Slotted.HashSet.Check
import Slotted.TreeSet.Rekey
import Slotted.TreeSet.Check
namespace Slotted

-- What becomes of an element that was taken out of its structure. A shown element is dropped after the look.
inductive Ending where
  | reinsert | release | drop | peek
deriving DecidableEq, Repr

inductive Ended (α : Type) where
  | reinserted (h : Handle) (fresh : Bool)
  | released (value : α)
  | dropped
  | shown (value : α)
deriving Repr

inductive SetAction (α : Type) where
  | insert (value : α)
  | tryInsert (value : α)
  | extend (values : List α)
  | find (value : α)
  | contains (value : α)
  | get (h : Handle)
  | change (h : Handle) (change : α → α)
  -- the handle of a value read from the set, or of one that never was in it
  | handleOf (h : Handle)
  | handleOfOther (value : α)
  | remove (h : Handle)
  | take (value : α)
  | takeAll (values : List α)
  | extract (h : Handle) (change : α → α) (ending : Ending)
  | extractEqual (value : α) (change : α → α) (ending : Ending)
  | walk (strides : List Stride)
  | list
  | isEmpty
  | check
  | reorder
  | clear
  | resize (capacity : Nat)
  | reserve (additional : Nat)

inductive Reply (α : Type) where
  | done
  | placed (h : Handle) (fresh : Bool)
  | refused (error : CapacityError)
  | found (h : Option Handle)
  | holds (answer : Bool)
  | element (value : Option α)
  | count (n : Nat)
  | ended (was : α) (got : Ended α)
  | walked (items : List (Walked (Handle × α)))
  | listed (items : List α)
  | room (answer : Except CapacityError Unit)
  | checked (answer : Except CheckError Unit)

-- What an index and a rule bring to a set: how to look an element up, put one in, walk and check.
structure Access (ι α μ ω : Type) where
  find : α → Query (Store ι α μ) ω (Option Handle)
  insert : α → Update (Store ι α μ) ω (Handle × Bool)
  tryInsert : α → Update (Store ι α μ) ω (Except (Rejected α) (Handle × Bool))
  reinsert : Detached → Update (Store ι α μ) ω (Handle × Bool)
  walk : List Stride → Update (Store ι α μ) ω (List (Walked (Handle × α)))
  list : Query (Store ι α μ) ω (List α)
  check : Query (Store ι α μ) ω (Except CheckError Unit)

def HashSet.access {α ω : Type} [Allocator ω] (rule : HashRule (HashSet α) ω α) : Access Buckets α ChainLink ω where
  find := HashSet.find rule
  insert := HashSet.insert rule
  tryInsert := HashSet.tryInsert rule
  reinsert := HashSet.reinsert rule
  walk := HashSet.walker.run
  list := return (← read).pool.entries.map (·.2)
  check := HashSet.check rule

def TreeSet.access {α ω : Type} [Allocator ω] (rule : OrderRule (TreeSet α) ω α) : Access Root α TreeLink ω where
  find := TreeSet.find rule
  insert := TreeSet.insert rule
  tryInsert := TreeSet.tryInsert rule
  reinsert := TreeSet.reinsert rule
  walk := TreeSet.walker.run
  list := return (← TreeSet.entries (← read)).map (·.2)
  check := TreeSet.check rule

namespace Access

variable {ι α μ ω : Type} [Inhabited μ] [Index ι μ] [Allocator ω] (access : Access ι α μ ω)

def takeEach {β γ : Type} (take : β → Update (Store ι α μ) ω (Option γ)) : List β → Update (Store ι α μ) ω Nat
  | [] => return 0
  | value :: values => do
    let taken ← take value
    return (if taken.isSome then 1 else 0) + (← takeEach take values)

def finish (d : Detached) : Ending → Update (Store ι α μ) ω (Ended α)
  | .reinsert => do
    let (h, fresh) ← access.reinsert d
    return .reinserted h fresh
  | .release => return .released (← Update.edit (Store.release d))
  | .drop => do
    Update.edit (Store.drop d)
    return .dropped
  | .peek => do
    let value ← (← get).store.detachedValue d
    Update.edit (Store.drop d)
    return .shown value

def settle (change : α → α) (ending : Ending) : Option Detached → Update (Store ι α μ) ω (Reply α)
  | none => return .element none
  | some d => do
    let was ← (← get).store.detachedValue d
    Update.edit (Store.modifyDetached d change)
    return .ended was (← access.finish d ending)

def run : SetAction α → Update (Store ι α μ) ω (Reply α)
  | .insert value => do
    let (h, fresh) ← access.insert value
    return .placed h fresh
  | .tryInsert value => do
    match ← access.tryInsert value with
    | .ok (h, fresh) => return .placed h fresh
    | .error refused => return .refused refused.error
  | .extend values => do
    values.forM fun value => do let _ ← access.insert value
    return .done
  | .find value => return .found (← Update.ask (access.find value))
  | .contains value => return .holds (← Update.ask (access.find value)).isSome
  | .get h => return .element ((← get).store.get? h)
  | .change h change => return .element (← Update.edit (Store.modifyAt h change))
  | .handleOf h => do
    match (← get).store.lend h with
    | some loan => return .found (← (← get).store.handleOf loan)
    | none => return .found none
  | .handleOfOther value => return .found (← (← get).store.handleOf (Store.Loan.outside value))
  | .remove h => return .element (← Update.edit (Store.remove h))
  | .take value => return .element (← Store.take (access.find value))
  | .takeAll values => return .count (← takeEach (fun value => Store.take (access.find value)) values)
  | .extract h change ending => do access.settle change ending (← Update.edit (Store.extract h))
  | .extractEqual value change ending => do
    match ← Update.ask (access.find value) with
    | some h => access.settle change ending (← Update.edit (Store.extract h))
    | none => return .element none
  | .walk strides => return .walked (← access.walk strides)
  | .list => return .listed (← Update.ask access.list)
  | .isEmpty => return .holds (← get).store.isEmpty
  | .check => return .checked (← Update.ask access.check)
  | .reorder => do
    Update.edit Store.reorder
    return .done
  | .clear => do
    modify fun session => { session with store := session.store.clear }
    return .done
  | .resize capacity => return .room (← Store.resize capacity)
  | .reserve additional => return .room (← Store.reserve additional)

end Access
end Slotted
