import Slotted.Proofs.Upholds
import Slotted.Store.Compact
namespace Slotted.Store

variable {ι α μ : Type} {relocate : Nat → Nat → Edit (Store ι α μ) Unit} {lo hi : Nat} {s : Store ι α μ}

-- One move, from where a slot stands to where it goes, with the hook behind it.
def move (relocate : Nat → Nat → Edit (Store ι α μ) Unit) (step : Nat × Nat) : Edit (Store ι α μ) Unit := do
  modify fun s => { s with pool := s.pool.swap step.2 step.1 }
  relocate step.1 step.2

theorem closeGaps_met (met : ¬ lo < hi) : closeGaps relocate lo hi s = .ok () s := by
  rw [closeGaps, dif_neg met]
  rfl

theorem closeGaps_up (apart : lo < hi) (live : s.pool.isActive lo = true) :
    closeGaps relocate lo hi s = closeGaps relocate (lo + 1) hi s := by
  rw [closeGaps, dif_pos apart, get_bind, if_pos live]

theorem closeGaps_down (apart : lo < hi) (gap : s.pool.isActive lo = false) (idle : s.pool.isActive hi = false) :
    closeGaps relocate lo hi s = closeGaps relocate lo (hi - 1) s := by
  rw [closeGaps, dif_pos apart, get_bind, gap, if_neg Bool.false_ne_true, get_bind, idle, if_pos Bool.not_false]

theorem closeGaps_move (apart : lo < hi) (gap : s.pool.isActive lo = false) (live : s.pool.isActive hi = true) :
    closeGaps relocate lo hi s = (move relocate (hi, lo) >>= fun _ => closeGaps relocate (lo + 1) (hi - 1)) s := by
  rw [closeGaps, dif_pos apart, get_bind, gap, if_neg Bool.false_ne_true, get_bind, live, if_neg (by decide)]
  rfl

-- What stays true from one turn of the loop to the next. Only a hook can break it off.
structure Closing (relocate : Nat → Nat → Edit (Store ι α μ) Unit) (holds : Nat → Nat → Store ι α μ → Prop)
    (faults : Fault → Store ι α μ → Prop) : Prop where
  up : ∀ {lo hi s}, holds lo hi s → lo < hi → s.pool.isActive lo = true → holds (lo + 1) hi s
  down : ∀ {lo hi s}, holds lo hi s → lo < hi → s.pool.isActive lo = false → s.pool.isActive hi = false →
    holds lo (hi - 1) s
  move : ∀ {lo hi s}, holds lo hi s → lo < hi → s.pool.isActive lo = false → s.pool.isActive hi = true →
    Ends (move relocate (hi, lo)) s (fun _ after => holds (lo + 1) (hi - 1) after) faults

-- The induction is on how far the two ends are apart.
theorem Closing.ends {holds : Nat → Nat → Store ι α μ → Prop} {faults : Fault → Store ι α μ → Prop}
    (closing : Closing relocate holds faults) (now : holds lo hi s) :
    Ends (closeGaps relocate lo hi) s (fun _ after => ∃ lo hi, ¬ lo < hi ∧ holds lo hi after) faults := by
  induction distance : hi - lo using Nat.strongRecOn generalizing lo hi s with
  | _ n ih =>
    by_cases apart : lo < hi
    · cases gap : s.pool.isActive lo with
      | true =>
        rw [Ends, closeGaps_up apart gap]
        exact ih (hi - (lo + 1)) (by omega) (closing.up now apart gap) rfl
      | false =>
        cases live : s.pool.isActive hi with
        | false =>
          rw [Ends, closeGaps_down apart gap live]
          exact ih (hi - 1 - lo) (by omega) (closing.down now apart gap live) rfl
        | true =>
          rw [Ends, closeGaps_move apart gap live]
          refine Ends.bind (closing.move now apart gap live) fun _ after now => ?_
          exact ih (hi - 1 - (lo + 1)) (by omega) now rfl
    · exact Ends.of_ok (closeGaps_met apart) ⟨lo, hi, apart, now⟩

theorem closeGaps_keeps {holds : Store ι α μ → Prop}
    (swapped : ∀ s i j, holds s → holds { s with pool := s.pool.swap i j })
    (hooked : ∀ source target, Upholds holds (relocate source target)) (lo hi : Nat) :
    Upholds holds (closeGaps relocate lo hi) := by
  intro s now
  have closing : Closing relocate (fun _ _ => holds) fun _ => holds := by
    refine ⟨fun now _ _ => now, fun now _ _ _ => now, fun now _ _ _ => ?_⟩
    exact Upholds.bind (.modify fun s now => swapped s _ _ now) (fun _ => hooked _ _) _ now
  refine (closing.ends now).returning ?_
  intro _ after told
  obtain ⟨_, _, _, now⟩ := told
  exact now

end Slotted.Store
