import Slotted.Proofs.Callers
import Slotted.Proofs.TreeSet.Stepwise
namespace Slotted.TreeSet

open Query

variable {α ω : Type} {blame : Fault → Prop} {probe : Probe (TreeSet α) ω α} {f : α → Ordering}

abbrev ideal (f : α → Ordering) (memory : Nat) : Probe (TreeSet α) ω α := ⟨fun value => pure (f value), memory⟩

theorem ideal_alike (follows : probe.Follows blame f) : probe.Alike (Query.Follows blame) (ideal f probe.memory) :=
  ⟨follows, rfl⟩

theorem locate_follows (follows : probe.Follows blame f) : (locate probe).Follows blame (locate (ideal f probe.memory)) :=
  locate_alike follows_encloses (ideal_alike follows)

theorem findBy_follows (follows : probe.Follows blame f) : (findBy probe).Follows blame (findBy (ideal f probe.memory)) :=
  findBy_alike follows_encloses (ideal_alike follows)

theorem placeAgain_follows (follows : probe.Follows blame f) (renumbered : Bool) (parent : Nat) (side : Side) :
    (placeAgain probe renumbered parent side).Follows blame (placeAgain (ideal f probe.memory) renumbered parent side) :=
  placeAgain_alike follows_encloses (ideal_alike follows) renumbered parent side

theorem bound_follows (follows : probe.Follows blame f) (wanted : Side) (inclusive : Bool) :
    (bound wanted inclusive probe).Follows blame (bound wanted inclusive (ideal f probe.memory)) :=
  bound_alike follows_encloses (ideal_alike follows) wanted inclusive

theorem resolved_follows (follows : probe.Follows blame f) (wanted : Side) (inclusive : Bool) :
    (resolved (bound wanted inclusive probe)).Follows blame (resolved (bound wanted inclusive (ideal f probe.memory))) :=
  resolved_alike follows_encloses (ideal_alike follows) wanted inclusive

variable {rule : OrderRule (TreeSet α) ω α} {r : PureOrder α} (follows : rule.Follows blame r)
include follows

theorem find_follows (value : α) : (find rule value).Follows blame (find r.rule value) := findBy_follows (follows.probe value)

theorem check_follows : (check rule).Follows blame (check r.rule) := check_alike follows_encloses follows

end Slotted.TreeSet
