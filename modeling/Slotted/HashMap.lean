import Slotted.Keyed
import Slotted.HashSet.Basic
import Slotted.HashSet.Rekey
import Slotted.HashSet.Check
namespace Slotted

abbrev HashMap (κ ν : Type) := HashSet (Entry κ ν)

namespace HashMap

variable {κ ν ω : Type} (rule : HashRule (HashMap κ ν) ω κ)

def keyHash (key : κ) : Query (HashMap κ ν) ω UInt32 := (rule.hash key).guarded

def find (key : κ) : Query (HashMap κ ν) ω (Option Handle) := do
  let hash ← keyHash rule key
  HashSet.findBy hash fun entry => rule.equal entry.key key

def get? (key : κ) : Query (HashMap κ ν) ω (Option ν) := Keyed.get? (find rule key)

def rehash : Update (HashMap κ ν) ω Unit := HashSet.rehash rule.onKeys

def check : Query (HashMap κ ν) ω (Except CheckError Unit) := HashSet.check rule.onKeys

-- Same size, and every key of the other map has the same value in this one.
def sameEntries (sameValue : ν → ν → Bool) (other : HashMap κ ν) : Query (HashMap κ ν) ω Bool := do
  if other.len ≠ (← read).len then return false
  other.pool.entries.allM fun (_, entry) => return (← get? rule entry.key).any (sameValue · entry.value)

variable [Allocator ω]

-- The handle and value under the key, built first if there is none.
def getOrInsertWith (key : κ) (make : Query (HashMap κ ν) ω ν) : Update (HashMap κ ν) ω (Handle × ν) := do
  let hash ← Update.ask (keyHash rule key)
  Keyed.stored (HashSet.insertWith rule.onKeys hash (fun entry => rule.equal entry.key key)
    (return ⟨key, ← make⟩))

def extend (pairs : List (κ × ν)) : Update (HashMap κ ν) ω Unit :=
  HashSet.extend rule.onKeys (pairs.map Entry.ofPair)

def ofArray (pairs : List (κ × ν)) : Update (HashMap κ ν) ω Unit :=
  HashSet.ofArray rule.onKeys .hashMap (pairs.map Entry.ofPair)

end HashMap
end Slotted
