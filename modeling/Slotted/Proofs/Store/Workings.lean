import Slotted.Proofs.Store.Capacity
import Slotted.Proofs.Store.Gaps
import Slotted.Store.Removal
namespace Slotted.Store

variable {ι α μ ω : Type} [Inhabited μ] [Index ι μ] {s : Store ι α μ} {holds : Store ι α μ → Prop}

theorem compact_keeps (swapped : ∀ s i j, holds s → holds { s with pool := s.pool.swap i j })
    (dropped : ∀ s, holds s → holds { s with pool := s.pool.dropTail }) (moved : ∀ i j, Upholds holds (Index.moved i j))
    (settled : Upholds holds Index.settled) : Upholds holds (compact : Edit (Store ι α μ) Unit) := by
  refine Upholds.bind (Upholds.bind .get fun s => ?_) fun _ => settled
  dsimp only
  split
  · refine Upholds.bind ?_ fun _ => .modify dropped
    exact closeGaps_keeps swapped moved _ _
  · exact .pure _

-- What a pool and an index do in the course of the operations. A property that all of it keeps is kept by them.
structure Workings (holds : Store ι α μ → Prop) : Prop where
  unlink : ∀ i, Upholds holds (Index.unlink i)
  vacate : ∀ i, Upholds holds (onPool (Pool.take i))
  detach : ∀ i, Upholds holds (onPool (Pool.detach i))
  discard : ∀ i, Upholds holds (onPool (Pool.discard i))
  modifyValue : ∀ i change, Upholds holds (onPool (Pool.modifyValue i change))
  compact : Upholds holds compact
  clear : ∀ s, holds s → holds s.clear

theorem reorder_upholds (compacts : Upholds holds (compact : Edit (Store ι α μ) Unit)) :
    Upholds holds (reorder : Edit (Store ι α μ) Unit) := by
  refine Upholds.bind .get fun s => Upholds.bind (.lift _) fun tombstones => ?_
  split
  · exact compacts
  · exact .pure _

namespace Workings

variable (workings : Workings holds)
include workings

theorem remove (h : Handle) : Upholds holds (remove h : Edit (Store ι α μ) (Option α)) := by
  refine Upholds.bind .get fun s => ?_
  split
  · exact Upholds.bind (workings.unlink _) fun _ => workings.vacate _
  · exact .pure _

theorem extract (h : Handle) (now : holds s) :
    Ends (extract h) s (fun found after => holds after ∧ ∀ d, found = some d → 0 < d.slot) fun _ after => holds after := by
  rw [Store.extract, ends_bind, ends_get]
  split
  · refine Ends.bind (workings.unlink h.index s now) fun _ middle now => ?_
    refine Ends.bind (workings.detach h.index middle now) fun _ after now => ?_
    refine ⟨now, ?_⟩
    intro d same
    cases same
    exact h.pos
  · refine ⟨now, ?_⟩
    intro d same
    cases same

theorem modifyAt (h : Handle) (change : α → α) : Upholds holds (modifyAt h change : Edit (Store ι α μ) (Option α)) := by
  refine Upholds.bind .get fun s => ?_
  split
  · exact .pure _
  · exact Upholds.bind (workings.modifyValue _ _) fun _ => Upholds.bind .get fun _ => .pure _

theorem modifyDetached (d : Detached) (change : α → α) :
    Upholds holds (modifyDetached d change : Edit (Store ι α μ) Unit) := workings.modifyValue _ _

theorem drop (d : Detached) : Upholds holds (drop d : Edit (Store ι α μ) Unit) :=
  Upholds.bind (workings.discard _) fun _ => .pure _

theorem release (d : Detached) : Upholds holds (release d : Edit (Store ι α μ) α) := by
  refine Upholds.bind (workings.discard _) fun found => ?_
  cases found with
  | none => exact .throw _
  | some value => exact .pure _

theorem take (search : Query (Store ι α μ) ω (Option Handle)) : Guards holds (take search) := by
  refine Upholds.bind (Update.guards_ask search) fun found => ?_
  cases found with
  | none => exact .pure _
  | some h => exact Update.guards_edit (workings.remove h)

end Workings

section Room

variable [Allocator ω]

omit [Inhabited μ] [Index ι μ] in
theorem secure_upholds (needed : Bool) (request : Request) :
    Guards holds (secure needed request : Update (Store ι α μ) ω Bool) := by
  intro s now
  refine (secure_returns needed request s).ends ?_
  intro _ after same
  change holds after.store
  rw [same.1]
  exact now

theorem resizeSlots_guards {slots : Nat} (adopts : Upholds holds (adopt slots : Edit (Store ι α μ) Unit)) :
    Guards holds (resizeSlots slots : Update (Store ι α μ) ω (Except CapacityError Unit)) := by
  refine Upholds.bind .get fun s => Upholds.bind (secure_upholds _ _) fun granted => ?_
  split
  · refine Upholds.bind .get fun s => ?_
    split
    · exact .pure _
    · refine Upholds.bind .get fun s => Upholds.bind (secure_upholds _ _) fun granted => ?_
      split
      · exact Upholds.bind (Update.guards_edit adopts) fun _ => .pure _
      · exact .pure _
  · exact .pure _

theorem resize_guards (compacts : Upholds holds (compact : Edit (Store ι α μ) Unit)) {capacity : Nat}
    (resizes : Guards holds (resizeSlots (slotsFor capacity) : Update (Store ι α μ) ω _)) :
    Guards holds (resize capacity : Update (Store ι α μ) ω (Except CapacityError Unit)) := by
  refine Upholds.bind .get fun s => ?_
  dsimp only
  split
  · exact .pure _
  · split
    · exact .pure _
    · refine Upholds.bind .get fun s => ?_
      split
      · exact Upholds.bind (Update.guards_edit (reorder_upholds compacts)) fun _ => resizes
      · exact resizes

theorem reserve_guards (compacts : Upholds holds (compact : Edit (Store ι α μ) Unit)) (additional : Nat)
    (resizes : ∀ capacity, Guards holds (resizeSlots (slotsFor capacity) : Update (Store ι α μ) ω _)) :
    Guards holds (reserve additional : Update (Store ι α μ) ω (Except CapacityError Unit)) := by
  refine Upholds.bind .get fun s => Upholds.bind .get fun s => Upholds.bind .get fun s => ?_
  dsimp only
  split
  · exact .pure _
  · split
    · exact Upholds.bind (Update.guards_edit (reorder_upholds compacts)) fun _ => .pure _
    · exact Upholds.bind .get fun s => resize_guards compacts (resizes _)

theorem makeRoom_guards (compacts : Upholds holds (compact : Edit (Store ι α μ) Unit))
    (resizes : ∀ slots, Guards holds (resizeSlots (grownSlots slots) : Update (Store ι α μ) ω _)) :
    Guards holds (makeRoom : Update (Store ι α μ) ω (Except CapacityError Bool)) := by
  refine Upholds.bind .get fun s => Upholds.bind .get fun s => ?_
  split
  · exact .pure _
  · refine Upholds.bind .get fun s => Upholds.bind (.lift _) fun tombstones => Upholds.bind .get fun s => ?_
    split
    · exact Upholds.bind (Update.guards_edit compacts) fun _ => .pure _
    · split
      · exact .pure _
      · exact Upholds.bind (resizes _) fun _ => .pure _

theorem begin_guards {nothing : Store ι α μ} {capacity : Nat} (first : holds nothing)
    (resizes : capacity ≠ 0 → Guards holds (resizeSlots (capacity + 1) : Update (Store ι α μ) ω _))
    (s : Session (Store ι α μ) ω) :
    Always (do
        modify fun session => { session with store := nothing }
        if capacity = 0 then return .ok ()
        Store.resizeSlots (capacity + 1) : Update (Store ι α μ) ω (Except CapacityError Unit)) s
      fun after => holds after.store := by
  rw [Always, ends_bind, ends_modify]
  split
  · exact first
  · rename_i some
    exact resizes some ⟨nothing, s.gate⟩ first

end Room
end Slotted.Store
