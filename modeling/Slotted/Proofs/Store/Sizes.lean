import Slotted.Proofs.Store.Grants
import Slotted.Proofs.Store.Refusal
namespace Slotted

theorem slotsFor_pred (capacity : Nat) : slotsFor capacity - 1 = capacity := by
  unfold slotsFor
  split <;> omega

namespace Store

open LawfulIndex

variable {ι α μ ω : Type} [Inhabited μ] [Index ι μ] [Allocator ω] {s : Session (Store ι α μ) ω} {capacity : Nat}

-- The requests that memory has nothing to do with.
structure Declines (capacity : Nat) (s : Session (Store ι α μ) ω) : Prop where
  short : capacity < s.store.len → resize capacity s = .ok (.error (.belowLen capacity s.store.len)) s
  excess : s.store.len ≤ capacity → maxCapacity < capacity → resize capacity s = .ok (.error (.overflow capacity)) s

theorem declines (capacity : Nat) (s : Session (Store ι α μ) ω) : Declines capacity s where
  short few := by
    rw [resize, get_bind]
    dsimp only
    rw [if_pos few]
    rfl
  excess enough many := by
    rw [resize, get_bind]
    dsimp only
    rw [if_neg (Nat.not_lt.mpr enough), if_pos many]
    rfl

-- A size was taken on, every element is still there, and unless it is the greatest size there are numbers left to give out.
structure Fitted (capacity : Nat) (s after : Store ι α μ) : Prop where
  sized : after.capacity = capacity
  len : after.len = s.len
  contents : after.pool.contents = s.pool.contents
  loose : capacity < maxCapacity → ¬ after.pool.Packed

variable [FittingIndex ι μ]

theorem adopt_fits {s : Store ι α μ} (booked : Booked s) (allowed : s.pool.refusal (slotsFor capacity) = none) :
    Ends (adopt (slotsFor capacity)) s (fun _ after => Fitted capacity s after) fun _ _ => True := by
  obtain ⟨live, sound⟩ := booked.pool
  obtain ⟨tidy, enumerates, _, relabels⟩ := sound.ready.setCapacity allowed
  have sized := Pool.setCapacity_capacity s.pool (slotsFor capacity)
  rw [adopt, ends_bind, ends_modify]
  refine (LinkingIndex.resized _ _).imp ?_ fun _ _ _ => trivial
  intro _ after same
  have fits := (same.tidy tidy).fits
  have slots : after.pool.capacity = slotsFor capacity := same.capacity.trans sized
  refine ⟨?_, same.count.trans relabels.count, ?_, ?_⟩
  · rw [Store.capacity, slots, slotsFor_pred]
  · refine (relabels.same_bodies same).contents_eq sound.enumerates ?_
    rw [List.map_id]
    exact same.enumerates enumerates
  · intro below packed
    have numbered := packed.numbered
    have counted := slotsFor_pred capacity
    unfold Pool.used Pool.next at numbered
    omega

variable (generous : Generous ω) (booked : Booked s.store) (enough : s.store.len ≤ capacity) (limited : capacity ≤ maxCapacity)
include generous booked enough limited

-- A request within the limits comes to adopting the size, with the gaps closed up before if the slots in use are too many.
theorem resize_adopts (holds done : Store ι α μ → Prop) {blames : Fault → Prop} (now : holds s.store)
    (packs : slotsFor capacity < s.store.pool.next →
      Ends reorder s.store (fun _ middle => holds middle) fun fault _ => blames fault)
    (adopts : ∀ middle, holds middle → middle.pool.refusal (slotsFor capacity) = none →
      Ends (adopt (slotsFor capacity)) middle (fun _ after => done after) fun fault _ => blames fault) :
    Ends (resize capacity) s (fun answer after => answer = .ok () ∧ done after.store ∧ after.gate.busy = s.gate.busy)
      fun fault _ => blames fault := by
  rw [resize, ends_bind, ends_get]
  dsimp only
  rw [if_neg (Nat.not_lt.mpr enough), if_neg (Nat.not_lt.mpr limited), ends_bind, ends_get]
  split
  · rename_i narrow
    rw [ends_bind, Update.ends_edit]
    refine ((packs narrow).both (reorder_packs booked)).imp ?_ fun _ _ told => told.1
    intro _ middle told
    obtain ⟨held, packed⟩ := told
    have allowed := packed.allows enough limited
    exact resizeSlots_adopts generous (s := ⟨middle, s.gate⟩) allowed (adopts middle held allowed)
  · rename_i wide
    obtain ⟨live, sound⟩ := booked.pool
    have fewer : s.store.pool.count < s.store.pool.next := sound.count_lt
    have allowed := Pool.refusal_of_wide fewer (Nat.not_lt.mp wide) limited
    exact resizeSlots_adopts generous allowed (adopts s.store now allowed)

theorem resize_fits : Ends (resize capacity) s
    (fun answer after => answer = .ok () ∧ Fitted capacity s.store after.store ∧ after.gate.busy = s.gate.busy)
    fun _ _ => True := by
  refine resize_adopts generous booked enough limited
    (fun middle => Booked middle ∧ middle.len = s.store.len ∧ middle.pool.contents = s.store.pool.contents)
    (fun after => Fitted capacity s.store after) ⟨booked, rfl, rfl⟩ (fun _ => ?_) ?_
  · refine (Ends.both (reorder_packs booked) (reorder_upholds (upholds_booked fun _ => compact_upholds) _ booked)).imp ?_
      fun _ _ _ => trivial
    exact fun _ middle told => ⟨told.2, told.1.count, told.1.contents⟩
  · intro middle held allowed
    obtain ⟨booked, len, contents⟩ := held
    refine (adopt_fits booked allowed).returning fun _ after fitted => ?_
    exact ⟨fitted.sized, fitted.len.trans len, fitted.contents.trans contents, fitted.loose⟩

end Store
end Slotted
