import Slotted.Proofs.Store.Upkeep
import Slotted.Proofs.Action.Standing
import Slotted.Action.Map
namespace Slotted

open Store

variable {ι α κ ν μ ω β γ : Type} [Inhabited μ] [Index ι μ]

def SetAction.Adds : SetAction α → Prop
  | .insert _ | .tryInsert _ | .extend _ => True
  | _ => False

-- Asks for a size. All other actions that add nothing leave the size as it is, even if they go wrong.
def SetAction.Resizes : SetAction α → Prop
  | .resize _ | .reserve _ => True
  | _ => False

namespace Access

variable {access : Access ι α μ ω}

-- What all parts of the actions keep, apart from those that ask for room.
structure Sparing (access : Access ι α μ ω) (holds : Store ι α μ → Prop) : Prop where
  workings : Workings holds
  reinsert : ∀ d, 0 < d.slot → Guards holds (access.reinsert d)
  walk : ∀ strides, Guards holds (access.walk strides)

omit [Inhabited μ] [Index ι μ] in
theorem takeEach_upholds {holds : Session (Store ι α μ) ω → Prop} {take : β → Update (Store ι α μ) ω (Option γ)}
    (one : ∀ value, Upholds holds (take value)) (values : List β) : Upholds holds (takeEach take values) := by
  induction values with
  | nil => exact .pure _
  | cons value values ih => exact Upholds.bind (one value) fun _ => Upholds.bind ih fun _ => .pure _

theorem run_adds [Allocator ω] {holds : Store ι α μ → Prop} (insert : ∀ value, Guards holds (access.insert value))
    (tryInsert : ∀ value, Guards holds (access.tryInsert value)) (action : SetAction α) (adds : action.Adds) :
    Guards holds (access.run action) := by
  cases action with
  | insert value => exact Upholds.bind (insert value) fun _ => .pure _
  | tryInsert value =>
    refine Upholds.bind (tryInsert value) fun answer => ?_
    cases answer with
    | ok placed => exact .pure _
    | error refused => exact .pure _
  | extend values =>
    exact Upholds.bind (.each (fun value => Upholds.bind (insert value) fun _ => .pure _) values) fun _ => .pure _
  | _ => exact adds.elim

variable {holds : Store ι α μ → Prop}

def Extracts (holds : Store ι α μ → Prop) (extract : Update (Store ι α μ) ω (Option Detached)) : Prop := ∀ s, holds s.store →
  Ends extract s (fun found after => holds after.store ∧ ∀ d, found = some d → 0 < d.slot) fun _ after => holds after.store

theorem extract_extracts (workings : Workings holds) (h : Handle) :
    Extracts holds (Update.edit (Store.extract h) : Update (Store ι α μ) ω (Option Detached)) := by
  intro s now
  rw [Update.ends_edit]
  exact workings.extract h now

section Sparing

variable (sparing : access.Sparing holds)
include sparing

theorem finish_upholds (d : Detached) (positive : 0 < d.slot) (ending : Ending) :
    Guards holds (access.finish d ending) := by
  cases ending with
  | reinsert => exact Upholds.bind (sparing.reinsert d positive) fun _ => .pure _
  | release => exact Upholds.bind (Update.guards_edit (sparing.workings.release d)) fun _ => .pure _
  | drop => exact Upholds.bind (Update.guards_edit (sparing.workings.drop d)) fun _ => .pure _
  | peek =>
    refine Upholds.bind .get fun s => Upholds.bind (.lift _) fun value => ?_
    exact Upholds.bind (Update.guards_edit (sparing.workings.drop d)) fun _ => .pure _

theorem settle_upholds (change : α → α) (ending : Ending) (found : Option Detached) (positive : ∀ d, found = some d → 0 < d.slot) :
    Guards holds (access.settle change ending found) := by
  cases found with
  | none => exact .pure _
  | some d =>
    refine Upholds.bind .get fun s => Upholds.bind (.lift _) fun was => ?_
    refine Upholds.bind (Update.guards_edit (sparing.workings.modifyDetached d change)) fun _ => ?_
    exact Upholds.bind (finish_upholds sparing d (positive d rfl) ending) fun _ => .pure _

theorem settled_upholds {extract : Update (Store ι α μ) ω (Option Detached)} (extracts : Extracts holds extract)
    (change : α → α) (ending : Ending) : Guards holds (do access.settle change ending (← extract)) := by
  intro s now
  refine Ends.bind (extracts s now) ?_
  intro found middle told
  exact settle_upholds sparing change ending found told.2 middle told.1

variable [Allocator ω]

theorem run_stays (action : SetAction α) (adds : ¬ action.Adds) (resizes : ¬ action.Resizes) :
    Guards holds (access.run action) := by
  have asked : ∀ {β : Type} (query : Query (Store ι α μ) ω β) (answer : β → Reply α),
      Guards holds (do return answer (← Update.ask query)) :=
    fun query _ => Upholds.bind (Update.guards_ask query) fun _ => .pure _
  cases action with
  | insert _ | tryInsert _ | extend _ => exact absurd trivial adds
  | resize _ | reserve _ => exact absurd trivial resizes
  | find value => exact asked _ _
  | contains value => exact asked _ _
  | get h => exact Upholds.bind .get fun _ => .pure _
  | change h change => exact Upholds.bind (Update.guards_edit (sparing.workings.modifyAt h change)) fun _ => .pure _
  | handleOf h =>
    refine Upholds.bind .get fun s => ?_
    split
    · exact Upholds.bind .get fun _ => Upholds.bind (.lift _) fun _ => .pure _
    · exact .pure _
  | handleOfOther value => exact Upholds.bind .get fun _ => Upholds.bind (.lift _) fun _ => .pure _
  | remove h => exact Upholds.bind (Update.guards_edit (sparing.workings.remove h)) fun _ => .pure _
  | take value => exact Upholds.bind (sparing.workings.take _) fun _ => .pure _
  | takeAll values => exact Upholds.bind (takeEach_upholds (fun value => sparing.workings.take _) values) fun _ => .pure _
  | extract h change ending => exact settled_upholds sparing (extract_extracts sparing.workings h) change ending
  | extractEqual value change ending =>
    refine Upholds.bind (Update.guards_ask _) fun found => ?_
    cases found with
    | none => exact .pure _
    | some h => exact settled_upholds sparing (extract_extracts sparing.workings h) change ending
  | walk strides => exact Upholds.bind (sparing.walk strides) fun _ => .pure _
  | list => exact asked _ _
  | isEmpty => exact Upholds.bind .get fun _ => .pure _
  | check => exact asked _ _
  | reorder => exact Upholds.bind (Update.guards_edit (reorder_upholds sparing.workings.compact)) fun _ => .pure _
  | clear => exact Upholds.bind (.modify fun s now => sparing.workings.clear s.store now) fun _ => .pure _

end Sparing

variable [FittingIndex ι μ]

structure Orderly (access : Access ι α μ ω) : Prop where
  insert : ∀ value, Guards Booked (access.insert value)
  tryInsert : ∀ value, Guards Booked (access.tryInsert value)
  sparing : ∀ n, Sparing access (BookedAt n)

theorem run_upholds [Allocator ω] (orderly : access.Orderly) (action : SetAction α) : Guards Booked (access.run action) := by
  cases action with
  | insert _ | tryInsert _ | extend _ => exact run_adds orderly.insert orderly.tryInsert _ trivial
  | resize capacity => exact Upholds.bind (resize_upholds capacity) fun _ => .pure _
  | reserve additional => exact Upholds.bind (reserve_upholds additional) fun _ => .pure _
  | _ => exact guards_booked fun _ => run_stays (orderly.sparing _) _ not_false not_false

end Access

namespace KeyedAccess

variable [FittingIndex ι μ] {access : KeyedAccess ι κ ν μ ω} {n : Nat}

theorem update_upholds (search : Keyed.Search ι κ ν μ ω) (change : ν → ν) :
    Guards (BookedAt n) (Keyed.update search change) := by
  refine Upholds.bind (Update.guards_ask search) fun found => ?_
  cases found with
  | none => exact .pure _
  | some h => exact Upholds.bind (Update.guards_edit (bookedAt_workings.modifyAt h _)) fun _ => .pure _

theorem replace_upholds (search : Keyed.Search ι κ ν μ ω) {insert : Update (Store ι (Entry κ ν) μ) ω (Handle × Bool)}
    (inserts : Guards Booked insert) (value : ν) : Guards Booked (Keyed.replace search insert value) := by
  refine Upholds.bind (Update.guards_ask search) fun found => ?_
  cases found with
  | none => exact Upholds.bind inserts fun _ => .pure _
  | some h =>
    refine Upholds.bind .get fun s => ?_
    exact Upholds.bind (Update.guards_edit (upholds_booked fun _ => bookedAt_workings.modifyAt h _)) fun _ => .pure _

theorem stored_upholds {insertion : Update (Store ι (Entry κ ν) μ) ω (Handle × Bool)} (inserts : Guards Booked insertion) :
    Guards Booked (Keyed.stored insertion) :=
  Upholds.bind inserts fun _ => Upholds.bind .get fun _ => Upholds.bind (.lift _) fun _ => .pure _

theorem extract_extracts (search : Keyed.Search ι κ ν μ ω) : Access.Extracts (BookedAt n) (Keyed.extract search) := by
  intro s booked
  refine Ends.bind (Update.guards_ask search s booked) ?_
  intro found middle booked
  cases found with
  | none => exact ⟨booked, fun d none => by cases none⟩
  | some h => exact Access.extract_extracts bookedAt_workings h middle booked

theorem remove_upholds (search : Keyed.Search ι κ ν μ ω) : Guards (BookedAt n) (Keyed.remove search) :=
  Upholds.bind (bookedAt_workings.take search) fun _ => .pure _

variable [Allocator ω]

theorem run_upholds (orderly : access.entries.Orderly)
    (fetches : ∀ key make, Guards Booked (access.getOrInsertWith key make))
    (action : MapAction (Store ι (Entry κ ν) μ) κ ν ω) : Guards Booked (access.run action) := by
  have asked : ∀ {β : Type} (query : Query (Store ι (Entry κ ν) μ) ω β) (answer : β → MapReply κ ν),
      Guards Booked (do return answer (← Update.ask query)) :=
    fun query _ => Upholds.bind (Update.guards_ask query) fun _ => .pure _
  cases action with
  | entries action => exact Upholds.bind (Access.run_upholds orderly action) fun _ => .pure _
  | find key => exact asked _ _
  | containsKey key => exact asked _ _
  | get key => exact asked _ _
  | getEntry key => exact asked _ _
  | index key => exact asked _ _
  | update key change => exact guards_booked fun _ => Upholds.bind (update_upholds _ change) fun _ => .pure _
  | updateAt h change =>
    exact guards_booked fun _ => Upholds.bind (Update.guards_edit (bookedAt_workings.modifyAt h _)) fun _ => .pure _
  | replace key value => exact Upholds.bind (replace_upholds _ (orderly.insert _) value) fun _ => .pure _
  | fetch key make change =>
    refine Upholds.bind (fetches key make) fun _ => ?_
    exact Upholds.bind (Update.guards_edit (upholds_booked fun _ => bookedAt_workings.modifyAt _ _)) fun _ => .pure _
  | remove key => exact guards_booked fun _ => Upholds.bind (remove_upholds _) fun _ => .pure _
  | removeEntry key => exact guards_booked fun _ => Upholds.bind (bookedAt_workings.take _) fun _ => .pure _
  | removeAll keys =>
    exact guards_booked fun _ => Upholds.bind (Access.takeEach_upholds (fun key => remove_upholds _) keys) fun _ => .pure _
  | extract key change ending =>
    refine guards_booked fun n s booked => ?_
    refine Ends.bind (extract_extracts (access.find key) s booked) fun found middle told => ?_
    exact Upholds.bind (Access.settle_upholds (orderly.sparing n) change ending found told.2) (fun _ => .pure _) middle told.1

end KeyedAccess
end Slotted
