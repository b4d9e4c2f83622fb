import Slotted.Proofs.HashSet.Rebucket
import Slotted.Proofs.Store.Capacity
import Slotted.HashSet.Basic
namespace Slotted.HashSet

open Store

variable {α ω : Type}

theorem empty_sound (loadFactor : Nat) : Sound [] (empty loadFactor : HashSet α) :=
  .of_empty ⟨_, .bare rfl fun k inside => absurd inside (Nat.not_lt_zero k)⟩ rfl

theorem configure_returns [Allocator ω] (config : HashConfig) (s : Session (HashSet α) ω) :
    Returns (configure config) s fun answer after => answer = .ok () →
      Sound [] after.store ∧ after.gate.busy = s.gate.busy := by
  rw [configure]
  cases config.validated with
  | error error => exact fun told => by cases told
  | ok config =>
    dsimp only
    rw [Returns, ends_bind, ends_modify]
    split
    · exact fun _ => ⟨empty_sound _, rfl⟩
    · refine (resizeSlots_returns (s := { s with store := empty config.loadFactor }) (empty_sound _) _).returning ?_
      intro answer after ends same
      obtain ⟨resized, gate⟩ := ends
      subst same
      refine ⟨?_, gate⟩
      have carries := resized.1
      exact carries.sound

end Slotted.HashSet
