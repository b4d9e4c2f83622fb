import Slotted.Proofs.Callers
import Slotted.Proofs.HashSet.Stepwise
namespace Slotted.HashSet

open Query

variable {α ω : Type} {blame : Fault → Prop} {rule : HashRule (HashSet α) ω α} {r : PureHash α}

theorem findHashed_follows {hash : UInt32} {accepts accepts' : α → Query (HashSet α) ω Bool}
    (follows : ∀ value, (accepts value).Follows blame (accepts' value)) :
    (findHashed hash accepts).Follows blame (findHashed hash accepts') := findHashed_alike follows_encloses _ _ follows

theorem findBy_follows {hash : UInt32} {accepts accepts' : α → Query (HashSet α) ω Bool}
    (follows : ∀ value, (accepts value).Follows blame (accepts' value)) :
    (findBy hash accepts).Follows blame (findBy hash accepts') := findBy_alike follows_encloses _ _ follows

variable (follows : rule.Follows blame r)
include follows

theorem hashOf_follows (value : α) : (hashOf rule value).Follows blame (hashOf r.rule value) :=
  hashOf_alike follows_encloses follows.alike value

theorem find_follows (value : α) : (find rule value).Follows blame (find r.rule value) :=
  find_alike follows_encloses follows.alike value

theorem check_follows : (check rule).Follows blame (check r.rule) := check_alike follows_encloses follows.alike

end Slotted.HashSet
