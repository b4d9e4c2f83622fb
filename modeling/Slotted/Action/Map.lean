import Slotted.Action.Set
import Slotted.HashMap
import Slotted.TreeMap
namespace Slotted

-- A builder of values runs as a query on a container of kind `σ`.
inductive MapAction (σ κ ν ω : Type) where
  | entries (action : SetAction (Entry κ ν))
  | find (key : κ)
  | containsKey (key : κ)
  | get (key : κ)
  | getEntry (key : κ)
  | index (key : κ)
  | update (key : κ) (change : ν → ν)
  | updateAt (h : Handle) (change : ν → ν)
  | replace (key : κ) (value : ν)
  -- the value under a key, built first if there is none, and then changed in place
  | fetch (key : κ) (make : Query σ ω ν) (change : ν → ν)
  | remove (key : κ)
  | removeEntry (key : κ)
  | removeAll (keys : List κ)
  | extract (key : κ) (change : Entry κ ν → Entry κ ν) (ending : Ending)

inductive MapReply (κ ν : Type) where
  | entries (reply : Reply (Entry κ ν))
  | value (value : Option ν)
  | fetched (stored : ν) (after : Option ν)

structure KeyedAccess (ι κ ν μ ω : Type) where
  container : Container
  entries : Access ι (Entry κ ν) μ ω
  find : κ → Query (Store ι (Entry κ ν) μ) ω (Option Handle)
  getOrInsertWith : κ → Query (Store ι (Entry κ ν) μ) ω ν → Update (Store ι (Entry κ ν) μ) ω (Handle × ν)

def HashMap.access {κ ν ω : Type} [Allocator ω] (rule : HashRule (HashMap κ ν) ω κ) :
    KeyedAccess Buckets κ ν ChainLink ω where
  container := .hashMap
  entries := HashSet.access rule.onKeys
  find := HashMap.find rule
  getOrInsertWith := HashMap.getOrInsertWith rule

def TreeMap.access {κ ν ω : Type} [Allocator ω] (rule : OrderRule (TreeMap κ ν) ω κ) :
    KeyedAccess Root κ ν TreeLink ω where
  container := .treeMap
  entries := TreeSet.access rule.onKeys
  find := TreeMap.find rule
  getOrInsertWith := TreeMap.getOrInsertWith rule

namespace KeyedAccess

variable {ι κ ν μ ω : Type} [Inhabited μ] [Index ι μ] [Allocator ω] (access : KeyedAccess ι κ ν μ ω)

def run : MapAction (Store ι (Entry κ ν) μ) κ ν ω → Update (Store ι (Entry κ ν) μ) ω (MapReply κ ν)
  | .entries action => return .entries (← access.entries.run action)
  | .find key => return .entries (.found (← Update.ask (access.find key)))
  | .containsKey key => return .entries (.holds (← Update.ask (access.find key)).isSome)
  | .get key => return .value (← Update.ask (Keyed.get? (access.find key)))
  | .getEntry key => return .entries (.element (← Update.ask (Keyed.getEntry? (access.find key))))
  | .index key => return .value (some (← Update.ask (Keyed.index (access.find key) access.container)))
  | .update key change => return .value (← Keyed.update (access.find key) change)
  | .updateAt h change => return .entries (.element (← Update.edit (Keyed.modifyAt h change)))
  | .replace key value =>
    return .value (← Keyed.replace (access.find key) (access.entries.insert ⟨key, value⟩) value)
  | .fetch key make change => do
    let (h, stored) ← access.getOrInsertWith key make
    let after ← Update.edit (Keyed.modifyAt h change)
    return .fetched stored (after.map (·.value))
  | .remove key => return .value (← Keyed.remove (access.find key))
  | .removeEntry key => return .entries (.element (← Keyed.removeEntry (access.find key)))
  | .removeAll keys =>
    return .entries (.count (← Access.takeEach (fun key => Keyed.remove (access.find key)) keys))
  | .extract key change ending => do
    return .entries (← access.entries.settle change ending (← Keyed.extract (access.find key)))

end KeyedAccess
end Slotted
