import Slotted.Proofs.BareSet.View
namespace Slotted

-- Every request for memory is granted.
def Generous (ω : Type) [Allocator ω] : Prop := ∀ request (world : ω), (Allocator.grant request world).1 = true

theorem Boundless.generous : Generous Boundless := fun _ _ => rfl

variable {ι α β μ ω : Type} {s : Store ι α μ}

theorem Pool.swap_bare (p : Pool α μ) (i j : Nat) : p.bare.swap i j = (p.swap i j).bare := by
  rw [swap, swap, bare, bare, Pool.mk.injEq]
  refine ⟨Array.ext_getElem? fun k => ?_, rfl, rfl⟩
  simp only [Array.getElem?_map, Array.swapIfInBounds_def, Array.size_map]
  split
  · split
    · simp only [Array.getElem?_swap, Array.getElem?_map, Array.getElem_map]
      split
      · rfl
      · split <;> rfl
    · rw [Array.getElem?_map]
  · rw [Array.getElem?_map]

theorem Pool.dropTail_bare (p : Pool α μ) : p.bare.dropTail = p.dropTail.bare := by
  rw [dropTail, dropTail, bare, bare, Pool.mk.injEq]
  exact ⟨by simp [Array.take_eq_extract, Array.map_extract], rfl, rfl⟩

theorem Pool.clear_bare (p : Pool α μ) : p.bare.clear = p.clear.bare := by
  rw [clear, clear, bare, bare, Pool.mk.injEq]
  refine ⟨Array.ext_getElem? fun k => ?_, rfl, rfl⟩
  simp only [Array.getElem?_map, Array.getElem?_modify, Array.take_eq_extract]
  split
  · rw [← Array.map_extract, Array.getElem?_map]
    cases (p.slots.extract 0 1)[k]? <;> rfl
  · rw [← Array.map_extract, Array.getElem?_map]

theorem Pool.setCapacity_bare [Inhabited μ] (p : Pool α μ) (slots : Nat) : p.bare.setCapacity slots = (p.setCapacity slots).bare := by
  unfold setCapacity
  rw [isEmpty_bare]
  split
  · rw [bare, bare, Pool.mk.injEq]
    exact ⟨by simp, rfl, rfl⟩
  · split
    · rw [bare, bare, Pool.mk.injEq]
      exact ⟨by simp [Slot.bare, Slot.sentinel], rfl, rfl⟩
    · rfl

namespace Store

theorem pool_bare (s : Store ι α μ) : s.bare.pool = s.pool.bare := rfl

theorem len_bare (s : Store ι α μ) : s.bare.len = s.len := rfl

theorem room_bare (s : Store ι α μ) : s.bare.capacity = s.capacity := rfl

theorem get?_bare (s : Store ι α μ) (h : Handle) : s.bare.get? h = s.get? h := Pool.get?_bare s.pool h.index

theorem detachedValue_bare (s : Store ι α μ) (d : Detached) : s.bare.detachedValue d = s.detachedValue d :=
  Pool.value_bare s.pool d.slot

theorem lend_bare (s : Store ι α μ) (h : Handle) : s.bare.lend h = s.lend h := by rw [lend, lend, get?_bare]

theorem handleOf_bare (s : Store ι α μ) (loan : Loan α) : s.bare.handleOf loan = s.handleOf loan := by
  unfold handleOf
  cases loan.slot with
  | none => rfl
  | some i =>
    dsimp only
    rw [pool_bare, Pool.get?_bare]

theorem onPool_views {change : Edit (Pool α μ) β} {image : Edit (Pool α Unit) β}
    (views : Views Pool.bare change image s.pool) : Views bare (onPool change) (onPool image) s := by
  rw [Views, ends_onPool]
  refine Ends.returning views ?_
  intro value p told
  exact onPool_ok told

theorem release_views (d : Detached) (s : Store ι α μ) : Views bare (release d) (release d) s := by
  refine (onPool_views (Pool.discard_views _ _)).bind fun value _ _ => ?_
  cases value with
  | some value => exact Views.pure rfl
  | none => exact Views.stops _ _

theorem drop_views (d : Detached) (s : Store ι α μ) : Views bare (drop d) (drop d) s :=
  (onPool_views (Pool.discard_views _ _)).bind fun _ _ _ => Views.pure rfl

theorem onlyPool_views (f : Pool α μ → Pool α μ) (g : Pool α Unit → Pool α Unit) (s : Store ι α μ)
    (same : g s.pool.bare = (f s.pool).bare) :
    Views bare (modify fun s => { s with pool := f s.pool } : Edit (Store ι α μ) Unit)
      (modify fun s => { s with pool := g s.pool }) s := by
  refine Views.modifying ?_
  dsimp only [bare]
  rw [same]

variable [Inhabited μ]

theorem Relinks.unmoved {program : Edit (Store ι α μ) β} (relinks : Relinks program) (s : Store ι α μ) :
    Always program s (bare · = bare s) := by
  refine (relinks.always s).imp fun _ same => ?_
  rw [bare, bare, same.bare_eq]

theorem Relinks.views {program : Edit (Store ι α μ) Unit} (relinks : Relinks program) (s : Store ι α μ) :
    Views bare program (Pure.pure ()) s :=
  Ends.imp (relinks.unmoved s) (fun _ _ same => congrArg (EStateM.Result.ok ()) same.symm) fun _ _ _ => trivial

theorem append_views {further : Nat → Edit (Store ι α μ) Unit} (relinks : ∀ i, Relinks (further i)) (value : α) (link : μ)
    (s : Store ι α μ) :
    Views bare (do
      let i ← onPool (Pool.push value link)
      further i
      return i) (onPool (Pool.push value ())) s := by
  refine Ends.bind (onPool_views (Pool.push_views value link s.pool)) ?_
  intro i middle seen
  refine Ends.bind (Ends.faulting ((relinks i).unmoved middle) fun _ _ _ => trivial) ?_
  intro _ after same
  exact seen.trans (congrArg _ same.symm)

variable [Index ι μ]

theorem clear_bare (s : Store ι α μ) : s.bare.clear = s.clear.bare := by
  rw [clear, pool_bare, Pool.clear_bare]
  rfl

variable [LinkingIndex ι μ]

theorem remove_views (h : Handle) (s : Store ι α μ) : Views bare (remove h) (remove h) s := by
  refine Views.get ?_
  rw [pool_bare, Pool.isActive_bare]
  split
  · exact ((LinkingIndex.unlink h.index).views s).bind fun _ _ _ => onPool_views (Pool.take_views _ _)
  · exact Views.pure rfl

theorem extract_views (h : Handle) (s : Store ι α μ) : Views bare (extract h) (extract h) s := by
  refine Views.get ?_
  rw [pool_bare, Pool.isActive_bare]
  split
  · refine ((LinkingIndex.unlink h.index).views s).bind fun _ _ _ => ?_
    exact (onPool_views (Pool.detach_views _ _)).bind fun _ _ _ => Views.pure rfl
  · exact Views.pure rfl

theorem move_views (step : Nat × Nat) (s : Store ι α μ) : Views bare (move Index.moved step) (move Index.moved step) s :=
  (onlyPool_views (·.swap step.2 step.1) (·.swap step.2 step.1) s (Pool.swap_bare s.pool step.2 step.1)).bind fun _ _ _ =>
    (LinkingIndex.moved step.1 step.2).views _

theorem closeGaps_views (lo hi : Nat) (s : Store ι α μ) :
    Views bare (closeGaps Index.moved lo hi) (closeGaps Index.moved lo hi) s := by
  have closing : Closing Index.moved (fun lo' hi' (after : Store ι α μ) =>
      closeGaps Index.moved lo hi s.bare = closeGaps Index.moved lo' hi' after.bare) fun _ _ => True := by
    refine ⟨?_, ?_, ?_⟩
    · exact fun {lo hi after} same apart live => same.trans (closeGaps_up apart ((Pool.isActive_bare ..).trans live))
    · exact fun {lo hi after} same apart gap idle =>
        same.trans (closeGaps_down apart ((Pool.isActive_bare ..).trans gap) ((Pool.isActive_bare ..).trans idle))
    · intro lo hi middle same apart gap live
      refine (move_views (hi, lo) middle).returning ?_
      intro _ after seen
      rw [same, closeGaps_move apart ((Pool.isActive_bare ..).trans gap) ((Pool.isActive_bare ..).trans live), bind_ok seen]
  refine (closing.ends rfl).returning ?_
  intro _ after told
  obtain ⟨lo', hi', met, same⟩ := told
  exact same.trans (closeGaps_met met)

theorem compact_views (s : Store ι α μ) : Views bare compact compact s := by
  refine Views.bind (Views.get ?_) fun _ _ _ => LinkingIndex.settled.views _
  rw [pool_bare, Pool.size_bare]
  dsimp only
  split
  · exact (closeGaps_views _ _ s).bind fun _ after _ => onlyPool_views Pool.dropTail Pool.dropTail after (Pool.dropTail_bare after.pool)
  · exact Views.pure rfl

theorem reorder_views (s : Store ι α μ) : Views bare reorder reorder s := by
  refine Views.get (Views.lift (Pool.tombstones_bare s.pool) fun gaps _ => ?_)
  split
  · exact compact_views s
  · exact Views.pure rfl

theorem adopt_views (slots : Nat) (s : Store ι α μ) : Views bare (adopt slots) (adopt slots) s := by
  unfold adopt
  refine Views.bind (onlyPool_views (·.setCapacity slots) (·.setCapacity slots) s (Pool.setCapacity_bare s.pool slots)) fun _ _ _ => ?_
  exact (LinkingIndex.resized slots).views _

end Store

theorem Update.edit_views {s : Session (Store ι α μ) ω} {change : Edit (Store ι α μ) β} {image : Edit (BareSet α) β}
    (views : Views Store.bare change image s.store) : Views Session.bare (Update.edit change) (Update.edit image) s := by
  rw [Views, Update.ends_edit]
  refine Ends.returning views ?_
  intro value after told
  rw [Update.edit, Session.bare, told]
  rfl

theorem Update.ask_unmoved (query : Query (Store ι α μ) ω β) (s : Session (Store ι α μ) ω) :
    Always (Update.ask query) s (Session.bare · = s.bare) := by
  refine (Update.ask_keeps_store query).imp fun _ same => ?_
  rw [Session.bare, Session.bare, same]

theorem Update.edit_unmoved [Inhabited μ] {program : Edit (Store ι α μ) β} (relinks : Store.Relinks program)
    (s : Session (Store ι α μ) ω) : Always (Update.edit program) s (Session.bare · = s.bare) := by
  rw [Always, Update.ends_edit]
  refine (relinks.unmoved s.store).imp fun _ same => ?_
  rw [Session.bare, Session.bare, same]

namespace Store

theorem store_bare (s : Session (Store ι α μ) ω) : s.bare.store = s.store.bare := rfl

section Room

variable [Allocator ω] (generous : Generous ω)
include generous

theorem secure_views (needed needed' : Bool) (request request' : Request) (s : Session (Store ι α μ) ω) :
    Views Session.bare (secure needed request) (secure needed' request') s := by
  have granted : secure needed' request' s.bare = .ok true s.bare := by
    cases needed' <;> rfl
  cases needed with
  | false => exact Ends.of_ok rfl granted
  | true =>
    have kept : true = (Allocator.grant request s.gate.world).1 := (generous _ _).symm
    exact Ends.of_ok rfl (granted.trans (congrArg (EStateM.Result.ok · s.bare) kept))

variable [Inhabited μ] [Index ι μ] [LinkingIndex ι μ]

theorem resizeSlots_views (slots : Nat) (s : Session (Store ι α μ) ω) :
    Views Session.bare (resizeSlots slots) (resizeSlots slots) s := by
  refine Views.get ?_
  refine (secure_views generous _ _ _ _ s).bind fun granted s _ => ?_
  split
  · refine Views.get ?_
    rw [store_bare, pool_bare, Pool.refusal_bare]
    split
    · exact Views.pure rfl
    · refine Views.get ?_
      rw [store_bare, pool_bare, Pool.wants_bare]
      refine (secure_views generous _ _ _ _ s).bind fun granted s _ => ?_
      split
      · exact (Update.edit_views (adopt_views slots s.store)).bind fun _ _ _ => Views.pure rfl
      · exact Views.pure rfl
  · exact Views.pure rfl

theorem resize_views (capacity : Nat) (s : Session (Store ι α μ) ω) :
    Views Session.bare (resize capacity) (resize capacity) s := by
  refine Views.get ?_
  rw [store_bare, len_bare]
  dsimp only
  split
  · exact Views.pure rfl
  · split
    · exact Views.pure rfl
    · refine Views.get ?_
      rw [store_bare, pool_bare, Pool.next_bare]
      split
      · refine (Update.edit_views (reorder_views s.store)).bind fun _ _ _ => ?_
        exact resizeSlots_views generous _ _
      · exact resizeSlots_views generous _ _

theorem reserve_views (additional : Nat) (s : Session (Store ι α μ) ω) :
    Views Session.bare (reserve additional) (reserve additional) s := by
  refine Views.get (Views.get (Views.get ?_))
  rw [store_bare, len_bare, room_bare, pool_bare, Pool.next_bare]
  dsimp only
  split
  · exact Views.pure rfl
  · split
    · exact (Update.edit_views (reorder_views s.store)).bind fun _ _ _ => Views.pure rfl
    · exact Views.get (resize_views generous _ _)

theorem makeRoom_views (s : Session (Store ι α μ) ω) : Views Session.bare makeRoom makeRoom s := by
  refine Views.get (Views.get ?_)
  rw [store_bare, pool_bare, Pool.isFull_bare, Pool.capacity_bare]
  split
  · exact Views.pure rfl
  · refine Views.get (Views.lift (Pool.tombstones_bare s.store.pool) fun gaps _ => Views.get ?_)
    rw [store_bare, len_bare]
    split
    · exact (Update.edit_views (compact_views s.store)).bind fun _ _ _ => Views.pure rfl
    · split
      · exact Views.pure rfl
      · exact (resizeSlots_views generous _ _).bind fun _ _ _ => Views.pure rfl

end Room
end Store
end Slotted
