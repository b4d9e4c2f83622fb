import Slotted.Entry
import Slotted.Store.Removal
namespace Slotted.Keyed

variable {ι κ ν μ ω : Type}

abbrev Search (ι κ ν μ ω : Type) := Query (Store ι (Entry κ ν) μ) ω (Option Handle)

variable (search : Search ι κ ν μ ω)

def getEntry? : Query (Store ι (Entry κ ν) μ) ω (Option (Entry κ ν)) := do
  match ← search with
  | some h => return (← read).get? h
  | none => return none

def get? : Query (Store ι (Entry κ ν) μ) ω (Option ν) := return (← getEntry? search).map (·.value)

def index (container : Container) : Query (Store ι (Entry κ ν) μ) ω ν := do
  match ← get? search with
  | some value => return value
  | none => throw (.keyNotFound container)

def modifyAt (h : Handle) (change : ν → ν) : Edit (Store ι (Entry κ ν) μ) (Option (Entry κ ν)) :=
  Store.modifyAt h (Entry.mapValue change)

def update (change : ν → ν) : Update (Store ι (Entry κ ν) μ) ω (Option ν) := do
  match ← Update.ask search with
  | some h => return (← Update.edit (modifyAt h change)).map (·.value)
  | none => return none

-- Overwrites the value under a stored key and returns the old one; an absent key is inserted.
def replace (insert : Update (Store ι (Entry κ ν) μ) ω (Handle × Bool)) (value : ν) :
    Update (Store ι (Entry κ ν) μ) ω (Option ν) := do
  match ← Update.ask search with
  | some h =>
    let old := (← get).store.get? h
    let _ ← Update.edit (modifyAt h fun _ => value)
    return old.map (·.value)
  | none =>
    let _ ← insert
    return none

def stored (insertion : Update (Store ι (Entry κ ν) μ) ω (Handle × Bool)) :
    Update (Store ι (Entry κ ν) μ) ω (Handle × ν) := do
  let (h, _) ← insertion
  return (h, (← (← get).store.pool.value h.index).value)

variable [Inhabited μ] [Index ι μ]

def removeEntry : Update (Store ι (Entry κ ν) μ) ω (Option (Entry κ ν)) := Store.take search

def remove : Update (Store ι (Entry κ ν) μ) ω (Option ν) := return (← removeEntry search).map (·.value)

def extract : Update (Store ι (Entry κ ν) μ) ω (Option Detached) := do
  match ← Update.ask search with
  | some h => Update.edit (Store.extract h)
  | none => return none

end Slotted.Keyed
