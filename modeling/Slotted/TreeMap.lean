import Slotted.Keyed
import Slotted.TreeSet.Basic
import Slotted.TreeSet.Rekey
import Slotted.TreeSet.Check
namespace Slotted

abbrev TreeMap (κ ν : Type) := TreeSet (Entry κ ν)

namespace TreeMap

variable {κ ν ω : Type} (rule : OrderRule (TreeMap κ ν) ω κ)

def probe (key : κ) : Probe (TreeMap κ ν) ω (Entry κ ν) where
  order entry := rule.compare entry.key key
  memory := 0

def find (key : κ) : Query (TreeMap κ ν) ω (Option Handle) := TreeSet.findBy (probe rule key)

def containsKey (key : κ) : Query (TreeMap κ ν) ω Bool := return (← find rule key).isSome

-- The last entry on the wanted side of a key, whether or not the key is stored itself.
def near (wanted : Side) (inclusive : Bool) (key : κ) : Query (TreeMap κ ν) ω (Option (Entry κ ν)) :=
  TreeSet.resolved (TreeSet.bound wanted inclusive (probe rule key))

def pop (side : Side) : Edit (TreeMap κ ν) (Option (Entry κ ν)) := do
  let s ← get
  let cursor ← s.cursor
  let (first, _) ← match side with
    | .left => TreeSet.Cursor.next s cursor
    | .right => TreeSet.Cursor.nextBack s cursor
  match first with
  | some (h, _) => Store.remove h
  | none => return none

-- Changes every value in key order and lists the entries as they were.
def updateAll (change : Nat → ν → ν) : Edit (TreeMap κ ν) (List (Entry κ ν)) :=
  TreeSet.updateAll fun i => Entry.mapValue (change i)

def check : Query (TreeMap κ ν) ω (Except CheckError Unit) := TreeSet.check rule.onKeys

def sameEntries (sameValue : ν → ν → Bool) (other : TreeMap κ ν) : Query (TreeMap κ ν) ω Bool :=
  TreeSet.sameElementsBy
    (fun a b => do
      if (← rule.compare a.key b.key) = .eq then return sameValue a.value b.value else return false) other

variable [Allocator ω]

-- The handle and value under the key, built first if there is none.
def getOrInsertWith (key : κ) (make : Query (TreeMap κ ν) ω ν) : Update (TreeMap κ ν) ω (Handle × ν) :=
  Keyed.stored (TreeSet.insertWith (probe rule key) (return ⟨key, ← make⟩))

def extend (pairs : List (κ × ν)) : Update (TreeMap κ ν) ω Unit :=
  TreeSet.extend rule.onKeys (pairs.map Entry.ofPair)

def ofArray (pairs : List (κ × ν)) : Update (TreeMap κ ν) ω Unit :=
  TreeSet.ofArray rule.onKeys .treeMap (pairs.map Entry.ofPair)

end TreeMap
end Slotted
