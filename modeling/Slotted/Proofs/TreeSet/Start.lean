import Slotted.Proofs.TreeSet.Moved
import Slotted.Proofs.Store.Capacity
import Slotted.TreeSet.Basic
namespace Slotted.TreeSet

open Store

variable {α ω : Type}

theorem empty_sound : Sound Tree.nil (empty : TreeSet α) := .of_empty ⟨rfl, trivial, trivial⟩ rfl

theorem configure_returns [Allocator ω] (config : TreeConfig) (s : Session (TreeSet α) ω) :
    Returns (configure config) s fun answer after => answer = .ok () →
      Sound Tree.nil after.store ∧ after.gate.busy = s.gate.busy := by
  rw [configure]
  cases config.validated with
  | error error => exact fun told => by cases told
  | ok config =>
    dsimp only
    rw [Returns, ends_bind, ends_modify]
    split
    · exact fun _ => ⟨empty_sound, rfl⟩
    · refine (resizeSlots_returns (s := { s with store := empty }) empty_sound _).returning ?_
      intro answer after ends same
      obtain ⟨resized, gate⟩ := ends
      subst same
      exact ⟨resized.1.sound, gate⟩

end Slotted.TreeSet
