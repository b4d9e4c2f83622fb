import Slotted.Proofs.Action.Upkeep
import Slotted.Action.Hash
namespace Slotted

def HashSetAction.Adds {α ω : Type} : HashSetAction α ω → Prop
  | .common action => action.Adds
  | .insertWith .. => True
  | _ => False

def HashSetAction.Resizes {α ω : Type} : HashSetAction α ω → Prop
  | .common action => action.Resizes
  | _ => False

namespace HashSet

open Store

variable {α ω : Type} {n : Nat} (rule : HashRule (HashSet α) ω α)

theorem linkHead_upholds (i : Nat) (hash : UInt32) : Upholds (BookedAt n) (linkHead (α := α) i hash) :=
  linking_upholds (linkHead_relinks i hash) (wide_of_laid fun _ => linkHead_laid i hash)

theorem rebucket_upholds : Upholds (BookedAt n) (rebucket (α := α)) :=
  linking_upholds rebucket_relinks (wide_of_laid fun _ => rebucket_laid)

theorem linkNew_upholds (hash : UInt32) (value : α) : Upholds (BookedAt n) (linkNew hash value) := by
  refine Upholds.bind (onPool_upholds (Pool.push_upholds value default)) fun i => ?_
  exact Upholds.bind (linkHead_upholds i hash) fun _ => .pure _

structure Hooks (holds : HashSet α → Prop) : Prop where
  workings : Workings holds
  linkHead : ∀ i hash, Upholds holds (linkHead i hash)
  rebucket : Upholds holds rebucket
  refresh : ∀ i (f : ChainLink → ChainLink), Upholds holds (onPool (Pool.modifyLink i f))
  reattach : ∀ i, 0 < i → Upholds holds (onPool (Pool.reattach i))

theorem bookedAt_hooks : Hooks (BookedAt (α := α) (ι := Buckets) n) where
  workings := bookedAt_workings
  linkHead := linkHead_upholds
  rebucket := rebucket_upholds
  refresh i f := linking_upholds (.onLink i f) (wide_of_laid fun _ => onPool_laid _)
  reattach _ positive := onPool_upholds (Pool.reattach_upholds positive)

section Hooks

variable {holds : HashSet α → Prop} (hooks : Hooks holds)
include hooks

theorem reinsert_upholds (d : Detached) (positive : 0 < d.slot) : Guards holds (reinsert rule d) := by
  refine Upholds.bind .get fun s => Upholds.bind (.lift _) fun value => ?_
  refine Upholds.bind (Update.guards_ask _) fun hash => Upholds.bind (Update.guards_ask _) fun found => ?_
  cases found with
  | some i => exact Upholds.bind (Update.guards_edit (hooks.workings.drop d)) fun _ => Handle.upholds_ofIndex i _
  | none =>
    refine Upholds.bind (Update.guards_edit (hooks.reattach _ positive)) fun _ => ?_
    exact Upholds.bind (Update.guards_edit (hooks.linkHead _ hash)) fun _ => Handle.upholds_ofIndex _ _

theorem refreshHash_upholds (i : Nat) : Guards holds (refreshHash rule i) := by
  refine Upholds.bind .get fun s => ?_
  split
  · exact .pure _
  · exact Upholds.bind (Update.guards_ask _) fun hash => Update.guards_edit (hooks.refresh i _)

theorem rehash_upholds : Guards holds (rehash rule) := by
  refine Upholds.bind .get fun s => Upholds.bind ?_ fun _ => Update.guards_edit hooks.rebucket
  exact Update.guards_guarded (.each (refreshHash_upholds rule hooks) _)

theorem stepChanging_upholds (step : Step α) (change : Nat → α → α) (c : Pool.Cursor) :
    Upholds holds (stepChanging step change c) := by
  refine Upholds.bind .get fun s => Upholds.bind (.lift _) fun met => ?_
  split
  · exact Upholds.bind (hooks.workings.modifyAt _ _) fun _ => .pure _
  · exact .pure _

theorem changing_upholds (change : Nat → α → α) (strides : List Stride) :
    Guards (ω := ω) holds ((changingWalker change).run strides) := by
  intro s now
  refine Walker.run_keeps (fun _ now => now) (fun c => ?_) (fun c => ?_) strides now
  · exact Update.guards_edit (stepChanging_upholds hooks Pool.Cursor.next change c)
  · exact Update.guards_edit (stepChanging_upholds hooks Pool.Cursor.nextBack change c)

end Hooks

theorem walk_upholds {holds : HashSet α → Prop} (strides : List Stride) :
    Guards holds ((walker : Walker (HashSet α) ω _ _).run strides) := by
  intro s now
  refine Walker.run_keeps (fun _ now => now) (fun c => ?_) (fun c => ?_) strides now
  · exact Upholds.bind .get fun _ => .lift _
  · exact Upholds.bind .get fun _ => .lift _

theorem Hooks.sparing {holds : HashSet α → Prop} (hooks : Hooks holds) [Allocator ω] : (access rule).Sparing holds :=
  ⟨hooks.workings, reinsert_upholds rule hooks, walk_upholds⟩

variable [Allocator ω]

section Additions

-- An insertion may ask, make room and link a new element, and upholds what all of these do.
variable {holds : HashSet α → Prop} (room : Guards holds (makeRoom : Update (HashSet α) ω (Except CapacityError Bool)))
  (links : ∀ hash value, Upholds holds (linkNew (α := α) hash value))
include links

omit [Allocator ω] in
theorem linkedNew_upholds {γ : Type} (hash : UInt32) (value : α) (answer : Handle → γ) :
    Guards holds (do return answer (← Handle.ofIndex (← Update.edit (linkNew hash value))) : Update (HashSet α) ω γ) :=
  Upholds.bind (Update.guards_edit (links hash value)) fun i => Handle.upholds_ofIndex i answer

include room

theorem tryInsert_upholds (value : α) : Guards holds (tryInsert rule value) := by
  refine Upholds.bind (Update.guards_ask _) fun hash => Upholds.bind (Update.guards_ask _) fun found => ?_
  cases found with
  | some i => exact Handle.upholds_ofIndex i _
  | none =>
    refine Upholds.bind room fun answer => ?_
    cases answer with
    | error error => exact .pure _
    | ok renumbered => exact linkedNew_upholds links hash value _

theorem insert_upholds (value : α) : Guards holds (insert rule value) := by
  refine Upholds.bind (tryInsert_upholds rule room links value) fun answer => ?_
  cases answer with
  | ok placed => exact .pure _
  | error refused => exact .throw _

theorem insertWith_upholds (hash : UInt32) (accepts : α → Query (HashSet α) ω Bool) (make : Query (HashSet α) ω α) :
    Guards holds (insertWith rule hash accepts make) := by
  refine Upholds.bind (Update.guards_ask _) fun found => ?_
  cases found with
  | some i => exact Handle.upholds_ofIndex i _
  | none =>
    refine Upholds.bind room fun answer => ?_
    cases answer with
    | error error => exact .throw_bind _ _
    | ok renumbered =>
      refine Upholds.bind (Update.guards_ask make) fun value => Upholds.bind (Update.guards_ask _) fun built => ?_
      split
      · exact linkedNew_upholds links hash value _
      · exact .throw_bind _ _

theorem act_adds (action : HashSetAction α ω) (adds : action.Adds) : Guards holds (act rule action) := by
  cases action with
  | common action =>
    exact Access.run_adds (insert_upholds rule room links) (tryInsert_upholds rule room links) action adds
  | insertWith hash accepts make =>
    exact Upholds.bind (insertWith_upholds rule room links hash accepts make) fun _ => .pure _
  | _ => exact adds.elim

end Additions

theorem newly_upholds (hash : UInt32) (value : α) : Upholds Booked (linkNew hash value) :=
  upholds_booked fun _ => linkNew_upholds hash value

theorem access_orderly : (access rule).Orderly where
  insert := insert_upholds rule makeRoom_upholds newly_upholds
  tryInsert := tryInsert_upholds rule makeRoom_upholds newly_upholds
  sparing _ := bookedAt_hooks.sparing rule

theorem act_stays {holds : HashSet α → Prop} (hooks : Hooks holds) (action : HashSetAction α ω) (adds : ¬ action.Adds)
    (resizes : ¬ action.Resizes) : Guards holds (act rule action) := by
  cases action with
  | common action => exact Access.run_stays (hooks.sparing rule) action adds resizes
  | findBy hash accepts => exact Upholds.bind (Update.guards_ask _) fun _ => .pure _
  | insertWith hash accepts make => exact absurd trivial adds
  | rehash => exact Upholds.bind (rehash_upholds rule hooks) fun _ => .pure _
  | walkChanging change strides => exact Upholds.bind (changing_upholds hooks change strides) fun _ => .pure _

theorem act_upholds (action : HashSetAction α ω) : Guards Booked (act rule action) := by
  cases action with
  | common action => exact Access.run_upholds (access_orderly rule) action
  | insertWith hash accepts make => exact act_adds rule makeRoom_upholds newly_upholds _ trivial
  | _ => exact guards_booked fun _ => act_stays rule bookedAt_hooks _ not_false not_false

end HashSet

namespace HashMap

open Store

variable {κ ν ω : Type} [Allocator ω] (rule : HashRule (HashMap κ ν) ω κ)

theorem getOrInsertWith_upholds (key : κ) (make : Query (HashMap κ ν) ω ν) : Guards Booked (getOrInsertWith rule key make) :=
  Upholds.bind (Update.guards_ask _) fun hash =>
    KeyedAccess.stored_upholds (HashSet.insertWith_upholds _ makeRoom_upholds HashSet.newly_upholds hash _ _)

theorem act_upholds (action : HashMapAction κ ν ω) : Guards Booked (act rule action) := by
  cases action with
  | common action =>
    exact KeyedAccess.run_upholds (HashSet.access_orderly rule.onKeys) (getOrInsertWith_upholds rule) action
  | rehash => exact guards_booked fun _ => Upholds.bind (HashSet.rehash_upholds rule.onKeys HashSet.bookedAt_hooks) fun _ => .pure _
  | walkChanging change strides =>
    exact guards_booked fun _ => Upholds.bind (HashSet.changing_upholds HashSet.bookedAt_hooks _ strides) fun _ => .pure _

end HashMap
end Slotted
