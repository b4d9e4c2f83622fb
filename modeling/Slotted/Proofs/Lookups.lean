import Slotted.HashMap
import Slotted.Proofs.HashSet.Stepwise
import Slotted.Proofs.Nested
import Slotted.Proofs.TreeSet.Stepwise
namespace Slotted

open Store Update Query

variable {ι μ α κ ν β γ ω : Type}

-- All that a map offers to look up by key, and the same from another search.
inductive Keyed.Lookup (container : Container) (search search' : Search ι κ ν μ ω) :
    {β : Type} → Query (Store ι (Entry κ ν) μ) ω β → Query (Store ι (Entry κ ν) μ) ω β → Prop where
  | find : Lookup container search search' search search'
  | containsKey : Lookup container search search' (return (← search).isSome) (return (← search').isSome)
  | get : Lookup container search search' (get? search) (get? search')
  | getEntry : Lookup container search search' (Keyed.getEntry? search) (Keyed.getEntry? search')
  | index : Lookup container search search' (index search container) (index search' container)

-- All lookups of a container, paired with those that run callers' code that is alike.
inductive HashSet.Lookup (alike : ∀ {β : Type}, Query (HashSet α) ω β → Query (HashSet α) ω β → Prop) :
    {β : Type} → Query (HashSet α) ω β → Query (HashSet α) ω β → Prop where
  | find {rule rule' : HashRule (HashSet α) ω α} (value : α) : rule.Alike alike rule' →
    Lookup alike (find rule value) (find rule' value)
  | contains {rule rule' : HashRule (HashSet α) ω α} (value : α) : rule.Alike alike rule' →
    Lookup alike (contains rule value) (contains rule' value)
  | findBy (hash : UInt32) {accepts accepts' : α → Query (HashSet α) ω Bool} :
    (∀ element, alike (accepts element) (accepts' element)) → Lookup alike (findBy hash accepts) (findBy hash accepts')

inductive HashMap.Lookup (alike : ∀ {β : Type}, Query (HashMap κ ν) ω β → Query (HashMap κ ν) ω β → Prop) :
    {β : Type} → Query (HashMap κ ν) ω β → Query (HashMap κ ν) ω β → Prop where
  | keyed {β : Type} {rule rule' : HashRule (HashMap κ ν) ω κ} {real ideal : Query (HashMap κ ν) ω β} (key : κ) :
    rule.Alike alike rule' → Keyed.Lookup .hashMap (find rule key) (find rule' key) real ideal → Lookup alike real ideal

inductive TreeSet.Lookup (alike : ∀ {β : Type}, Query (TreeSet α) ω β → Query (TreeSet α) ω β → Prop) :
    {β : Type} → Query (TreeSet α) ω β → Query (TreeSet α) ω β → Prop where
  | find {rule rule' : OrderRule (TreeSet α) ω α} (value : α) : rule.Alike alike rule' →
    Lookup alike (find rule value) (find rule' value)
  | contains {rule rule' : OrderRule (TreeSet α) ω α} (value : α) : rule.Alike alike rule' →
    Lookup alike (contains rule value) (contains rule' value)
  | findBy {probe probe' : Probe (TreeSet α) ω α} : probe.Alike alike probe' →
    Lookup alike (findBy probe) (findBy probe')
  | bound (wanted : Side) (inclusive : Bool) {probe probe' : Probe (TreeSet α) ω α} : probe.Alike alike probe' →
    Lookup alike (bound wanted inclusive probe) (bound wanted inclusive probe')
  | near (wanted : Side) (inclusive : Bool) {rule rule' : OrderRule (TreeSet α) ω α} (value : α) :
    rule.Alike alike rule' → Lookup alike (near rule wanted inclusive value) (near rule' wanted inclusive value)

inductive TreeMap.Lookup (alike : ∀ {β : Type}, Query (TreeMap κ ν) ω β → Query (TreeMap κ ν) ω β → Prop) :
    {β : Type} → Query (TreeMap κ ν) ω β → Query (TreeMap κ ν) ω β → Prop where
  | keyed {β : Type} {rule rule' : OrderRule (TreeMap κ ν) ω κ} {real ideal : Query (TreeMap κ ν) ω β} (key : κ) :
    rule.Alike alike rule' → Keyed.Lookup .treeMap (find rule key) (find rule' key) real ideal → Lookup alike real ideal
  | near (wanted : Side) (inclusive : Bool) {rule rule' : OrderRule (TreeMap κ ν) ω κ} (key : κ) :
    rule.Alike alike rule' → Lookup alike (near rule wanted inclusive key) (near rule' wanted inclusive key)

section Alike

variable {inner outer : ∀ {β : Type}, Query (Store ι (Entry κ ν) μ) ω β → Query (Store ι (Entry κ ν) μ) ω β → Prop}

theorem Keyed.Lookup.alike {container : Container} {search search' : Search ι κ ν μ ω}
    {real ideal : Query (Store ι (Entry κ ν) μ) ω β} (lookup : Keyed.Lookup container search search' real ideal)
    (outside : Stepwise outer) (same : outer search search')
    (missing : ∀ {β : Type}, outer (throw (.keyNotFound container) : Query _ ω β) (throw (.keyNotFound container))) :
    outer real ideal := by
  cases lookup with
  | find => exact same
  | containsKey => exact outside.bind same fun _ => outside.pure _
  | get => exact get_alike outside _ _ same
  | getEntry => exact getEntry_alike outside _ _ same
  | index => exact index_alike outside _ _ same container missing

theorem Keyed.Lookup.barred {container : Container} {search search' : Search ι κ ν μ ω}
    {real ideal : Query (Store ι (Entry κ ν) μ) ω β} {store : Store ι (Entry κ ν) μ}
    (lookup : Keyed.Lookup container search search' real ideal) (barred : Barred store search) : Barred store real := by
  cases lookup with
  | find => exact barred
  | containsKey => exact barred.bind _
  | get => exact (barred.bind _).bind _
  | getEntry => exact barred.bind _
  | index => exact ((barred.bind _).bind _).bind _

end Alike

namespace HashSet

variable {inner outer : ∀ {β : Type}, Query (HashSet α) ω β → Query (HashSet α) ω β → Prop}
  {real ideal : Query (HashSet α) ω β}

theorem Lookup.alike (lookup : Lookup inner real ideal) (encloses : Encloses inner outer) : outer real ideal := by
  cases lookup with
  | find value same => exact find_alike encloses same value
  | contains value same => exact contains_alike encloses same value
  | findBy hash accepted => exact findBy_alike encloses _ _ accepted

theorem find_barred (store : HashSet α) (rule : HashRule (HashSet α) ω α) (value : α) : Barred store (find rule value) :=
  (barred_guarded _).bind _

theorem contains_barred (store : HashSet α) (rule : HashRule (HashSet α) ω α) (value : α) :
    Barred store (contains rule value) := (find_barred store rule value).bind _

-- A lookup under a given hash looks for buckets before it raises the flag.
theorem Lookup.barred {store : HashSet α} (lookup : Lookup inner real ideal) (filled : store.index.heads.isEmpty = false) :
    Barred store real := by
  cases lookup with
  | find value _ => exact find_barred store _ value
  | contains value _ => exact contains_barred store _ value
  | findBy hash _ =>
    refine Barred.bind (fun gate raised => ?_) _
    rw [findHashed, bind_run, read_run]
    dsimp only
    rw [filled]
    exact barred_guarded _ gate raised

theorem findBy_bucketless {store : HashSet α} (bare : store.index.heads.isEmpty = true) (hash : UInt32)
    (accepts : α → Query (HashSet α) ω Bool) (gate : Gate ω) : findBy hash accepts store gate = .ok none gate := by
  rw [findBy, bind_run, findHashed, bind_run, read_run]
  dsimp only
  rw [bare]
  rfl

end HashSet

namespace HashMap

variable {inner outer : ∀ {β : Type}, Query (HashMap κ ν) ω β → Query (HashMap κ ν) ω β → Prop}
  {real ideal : Query (HashMap κ ν) ω β}

theorem Lookup.alike (lookup : Lookup inner real ideal) (encloses : Encloses inner outer)
    (missing : ∀ {β : Type}, outer (throw (.keyNotFound .hashMap) : Query _ ω β) (throw (.keyNotFound .hashMap))) :
    outer real ideal := by
  cases lookup with
  | keyed key same lookup => exact lookup.alike encloses.outside (find_alike encloses same key) missing

theorem Lookup.barred {store : HashMap κ ν} (lookup : Lookup inner real ideal) : Barred store real := by
  cases lookup with
  | keyed key same lookup => exact lookup.barred ((barred_guarded _).bind _)

end HashMap

namespace TreeSet

variable {inner outer : ∀ {β : Type}, Query (TreeSet α) ω β → Query (TreeSet α) ω β → Prop}
  {real ideal : Query (TreeSet α) ω β}

theorem Lookup.alike (lookup : Lookup inner real ideal) (encloses : Encloses inner outer) : outer real ideal := by
  cases lookup with
  | find value same => exact find_alike encloses same value
  | contains value same => exact contains_alike encloses same value
  | findBy same => exact findBy_alike encloses same
  | bound wanted inclusive same => exact bound_alike encloses same wanted inclusive
  | near wanted inclusive value same => exact near_alike encloses same wanted inclusive value

theorem Lookup.barred {store : TreeSet α} (lookup : Lookup inner real ideal) : Barred store real := by
  cases lookup with
  | find value same => exact (barred_guarded _).bind _
  | contains value same => exact ((barred_guarded _).bind _).bind _
  | findBy same => exact (barred_guarded _).bind _
  | bound wanted inclusive same => exact (barred_guarded _).bind _
  | near wanted inclusive value same => exact ((barred_guarded _).bind _).bind _

end TreeSet

namespace TreeMap

variable {inner outer : ∀ {β : Type}, Query (TreeMap κ ν) ω β → Query (TreeMap κ ν) ω β → Prop}
  {real ideal : Query (TreeMap κ ν) ω β}

theorem Lookup.alike (lookup : Lookup inner real ideal) (encloses : Encloses inner outer)
    (missing : ∀ {β : Type}, outer (throw (.keyNotFound .treeMap) : Query _ ω β) (throw (.keyNotFound .treeMap))) :
    outer real ideal := by
  cases lookup with
  | keyed key same lookup => exact lookup.alike encloses.outside (find_alike encloses same key) missing
  | near wanted inclusive key same => exact near_alike encloses same wanted inclusive key

theorem Lookup.barred {store : TreeMap κ ν} (lookup : Lookup inner real ideal) : Barred store real := by
  cases lookup with
  | keyed key same lookup => exact lookup.barred ((barred_guarded _).bind _)
  | near wanted inclusive key same => exact ((barred_guarded _).bind _).bind _

end TreeMap
end Slotted
