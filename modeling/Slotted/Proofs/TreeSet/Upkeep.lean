import Slotted.Proofs.Action.Upkeep
import Slotted.Action.Tree
namespace Slotted

def TreeSetAction.Adds {α ω : Type} : TreeSetAction α ω → Prop
  | .common action => action.Adds
  | .insertWith .. => True
  | _ => False

def TreeSetAction.Resizes {α ω : Type} : TreeSetAction α ω → Prop
  | .common action => action.Resizes
  | _ => False

namespace TreeSet

open Store

variable {α ω : Type} {n : Nat} (rule : OrderRule (TreeSet α) ω α)

theorem attach_upholds (i parent : Nat) (side : Side) : Upholds (BookedAt n) (attach (α := α) i parent side) :=
  linking_upholds (attach_relinks i parent side) (.trivial _)

theorem linkNew_upholds (value : α) (parent : Nat) (side : Side) : Upholds (BookedAt n) (linkNew value parent side) := by
  refine Upholds.bind (onPool_upholds (Pool.push_upholds value default)) fun i => ?_
  exact Upholds.bind (attach_upholds i parent side) fun _ => .pure _

theorem reinsert_upholds (d : Detached) (positive : 0 < d.slot) : Guards (BookedAt n) (reinsert rule d) := by
  refine Upholds.bind .get fun s => Upholds.bind (.lift _) fun value => Upholds.bind (Update.guards_ask _) fun place => ?_
  cases place with
  | found i => exact Upholds.bind (Update.guards_edit (bookedAt_workings.drop d)) fun _ => Handle.upholds_ofIndex i _
  | vacant parent side =>
    refine Upholds.bind (Update.guards_edit (onPool_upholds (Pool.reattach_upholds positive))) fun _ => ?_
    exact Upholds.bind (Update.guards_edit (attach_upholds _ parent side)) fun _ => Handle.upholds_ofIndex _ _

theorem walk_upholds (strides : List Stride) : Guards (BookedAt n) ((walker : Walker (TreeSet α) ω _ _).run strides) := by
  intro s booked
  refine Walker.run_keeps (fun _ booked => ?_) (fun c => ?_) (fun c => ?_) strides booked
  · exact Upholds.bind .get (fun _ => .lift _) _ booked
  · exact Upholds.bind .get fun _ => .lift _
  · exact Upholds.bind .get fun _ => .lift _

theorem updateFrom_upholds (change : Nat → α → α) (fuel i : Nat) : Upholds (BookedAt n) (updateFrom change fuel i) := by
  induction fuel generalizing i with
  | zero =>
    unfold updateFrom
    split
    · exact .pure _
    · exact .throw _
  | succ fuel ih =>
    unfold updateFrom
    split
    · exact .pure _
    · refine Upholds.bind .get fun s => Upholds.bind (.lift _) fun value => ?_
      refine Upholds.bind (onPool_upholds (Pool.modifyValue_upholds i (change i))) fun _ => ?_
      exact Upholds.bind .get fun s => Upholds.bind (.lift _) fun next => Upholds.bind (ih next) fun _ => .pure _

theorem updateAll_upholds (change : Nat → α → α) : Upholds (BookedAt n) (updateAll change) :=
  Upholds.bind .get fun _ => Upholds.bind .get fun _ => Upholds.bind (.lift _) fun i => updateFrom_upholds change _ i

variable [Allocator ω]

section Additions

-- An insertion may ask, make room and link a new element, and upholds what all of these do.
variable {holds : TreeSet α → Prop} (room : Guards holds (makeRoom : Update (TreeSet α) ω (Except CapacityError Bool)))
  (links : ∀ value parent side, Upholds holds (linkNew (α := α) value parent side))
include links

omit [Allocator ω] in
theorem linkedNew_upholds {γ : Type} (value : α) (place : Nat × Side) (answer : Handle → γ) :
    Guards holds (do return answer (← Handle.ofIndex (← Update.edit (linkNew value place.1 place.2))) :
      Update (TreeSet α) ω γ) :=
  Upholds.bind (Update.guards_edit (links value place.1 place.2)) fun i => Handle.upholds_ofIndex i answer

include room

theorem tryInsert_upholds (value : α) : Guards holds (tryInsert rule value) := by
  refine Upholds.bind (Update.guards_ask _) fun place => ?_
  cases place with
  | found i => exact Handle.upholds_ofIndex i _
  | vacant parent side =>
    refine Upholds.bind room fun answer => ?_
    cases answer with
    | error error => exact .pure _
    | ok renumbered => exact Upholds.bind (Update.guards_ask _) fun place => linkedNew_upholds links value place _

theorem insert_upholds (value : α) : Guards holds (insert rule value) := by
  refine Upholds.bind (tryInsert_upholds rule room links value) fun answer => ?_
  cases answer with
  | ok placed => exact .pure _
  | error refused => exact .throw _

theorem insertWith_upholds (probe : Probe (TreeSet α) ω α) (make : Query (TreeSet α) ω α) :
    Guards holds (insertWith probe make) := by
  refine Upholds.bind (Update.guards_ask _) fun place => ?_
  cases place with
  | found i => exact Handle.upholds_ofIndex i _
  | vacant parent side =>
    refine Upholds.bind room fun answer => ?_
    cases answer with
    | error error => exact .throw _
    | ok renumbered =>
      refine Upholds.bind (Update.guards_ask _) fun place => ?_
      exact Upholds.bind (Update.guards_ask make) fun value => linkedNew_upholds links value place _

theorem act_adds (action : TreeSetAction α ω) (adds : action.Adds) : Guards holds (act rule action) := by
  cases action with
  | common action =>
    exact Access.run_adds (insert_upholds rule room links) (tryInsert_upholds rule room links) action adds
  | insertWith probe make => exact Upholds.bind (insertWith_upholds room links probe make) fun _ => .pure _
  | _ => exact adds.elim

end Additions

theorem newly_upholds (value : α) (parent : Nat) (side : Side) : Upholds Booked (linkNew value parent side) :=
  upholds_booked fun _ => linkNew_upholds value parent side

theorem access_orderly : (access rule).Orderly where
  insert := insert_upholds rule makeRoom_upholds newly_upholds
  tryInsert := tryInsert_upholds rule makeRoom_upholds newly_upholds
  sparing _ := ⟨bookedAt_workings, reinsert_upholds rule, walk_upholds⟩

theorem act_stays (action : TreeSetAction α ω) (adds : ¬ action.Adds) (resizes : ¬ action.Resizes) :
    Guards (BookedAt n) (act rule action) := by
  cases action with
  | common action => exact Access.run_stays ((access_orderly rule).sparing n) action adds resizes
  | findBy probe => exact Upholds.bind (Update.guards_ask _) fun _ => .pure _
  | bound wanted inclusive probe => exact Upholds.bind (Update.guards_ask _) fun _ => .pure _
  | insertWith probe make => exact absurd trivial adds
  | near wanted inclusive value => exact Upholds.bind (Update.guards_ask _) fun _ => .pure _
  | extreme side => exact Upholds.bind .get fun _ => Upholds.bind (.lift _) fun _ => .pure _
  | neighbour side h => exact Upholds.bind .get fun _ => Upholds.bind (.lift _) fun _ => .pure _
  | updateAll change => exact Upholds.bind (Update.guards_edit (updateAll_upholds change)) fun _ => .pure _

theorem act_upholds (action : TreeSetAction α ω) : Guards Booked (act rule action) := by
  cases action with
  | common action => exact Access.run_upholds (access_orderly rule) action
  | insertWith probe make => exact act_adds rule makeRoom_upholds newly_upholds _ trivial
  | _ => exact guards_booked fun _ => act_stays rule _ not_false not_false

end TreeSet

namespace TreeMap

open Store

variable {κ ν ω : Type} {n : Nat} [Allocator ω] (rule : OrderRule (TreeMap κ ν) ω κ)

theorem pop_upholds (side : Side) : Upholds (BookedAt n) (pop (κ := κ) (ν := ν) side) := by
  refine Upholds.bind .get fun s => Upholds.bind (.lift _) fun c => ?_
  cases side with
  | left =>
    refine Upholds.bind (.lift _) ?_
    rintro ⟨_ | first, _⟩
    · exact .pure _
    · exact bookedAt_workings.remove _
  | right =>
    refine Upholds.bind (.lift _) ?_
    rintro ⟨_ | first, _⟩
    · exact .pure _
    · exact bookedAt_workings.remove _

theorem act_upholds (action : TreeMapAction κ ν ω) : Guards Booked (act rule action) := by
  cases action with
  | common action =>
    refine KeyedAccess.run_upholds (TreeSet.access_orderly rule.onKeys) (fun key make => ?_) action
    exact KeyedAccess.stored_upholds (TreeSet.insertWith_upholds makeRoom_upholds TreeSet.newly_upholds _ _)
  | near wanted inclusive key => exact Upholds.bind (Update.guards_ask _) fun _ => .pure _
  | extreme side => exact Upholds.bind .get fun _ => Upholds.bind (.lift _) fun _ => .pure _
  | neighbour side h => exact Upholds.bind .get fun _ => Upholds.bind (.lift _) fun _ => .pure _
  | pop side => exact guards_booked fun _ => Upholds.bind (Update.guards_edit (pop_upholds side)) fun _ => .pure _
  | updateAll change =>
    exact guards_booked fun _ => Upholds.bind (Update.guards_edit (TreeSet.updateAll_upholds _)) fun _ => .pure _

end TreeMap
end Slotted
