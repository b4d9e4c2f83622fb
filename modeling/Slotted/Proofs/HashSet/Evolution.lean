import Slotted.Proofs.HashSet.Rekey
import Slotted.Proofs.Action.Evolution
import Slotted.Proofs.Action.Walk
import Slotted.Proofs.Action.History
import Slotted.Action.Hash
namespace Slotted

namespace HashSetAction

variable {α ω : Type}

def moves : HashSetAction α ω → Prop
  | .common action => action.moves
  | .insertWith .. => True
  | _ => False

-- Slots whose element an action changes in place, by what it answers.
def touches : HashSetAction α ω → Except Fault (Reply α) → Nat → Prop
  | .common action, _ => action.touches
  | .walkChanging _ _, .ok (.walked items) => fun i => ∃ h value, .item (some (h, value)) ∈ items ∧ h.index = i
  | _, _ => fun _ => False

end HashSetAction

namespace HashSet

open Store

variable {α ω : Type} {order : List Nat} {r : PureHash α} {s : Session (HashSet α) ω}

def own (r : PureHash α) (value : α) (remembered : UInt32) : Prop := remembered = r.hash value

theorem Inserts.evolves {hash : UInt32} {accepted : α → Bool} {value : α} {s after : HashSet α}
    {answer : Except CapacityError (Handle × Bool)} (inserts : Inserts hash accepted value order s after answer)
    (sound : Sound order s) (mine : hash = r.hash value) : Evolves (own r) True untouched s after := by
  rcases answer with error | ⟨h, fresh⟩
  · obtain ⟨_, rfl, _⟩ := inserts
    exact .stay sound
  · cases fresh with
    | false =>
      obtain ⟨rfl, _⟩ := inserts
      exact .stay sound
    | true =>
      obtain ⟨_, remembered, ρ, order', adds⟩ := inserts
      exact .of_adds adds (remembered.trans mine)

theorem Reinserts.evolves {hash : UInt32} {accepted : α → Bool} {value : α} {i : Nat} {s after : HashSet α}
    {placed : Handle × Bool} (reinserts : Reinserts hash accepted i value order s after placed)
    (mine : hash = r.hash value) : Evolves (own r) False untouched s after := by
  obtain ⟨h, fresh⟩ := placed
  cases fresh with
  | false =>
    obtain ⟨_, sound, same⟩ := reinserts
    exact .of_same_live sound same
  | true =>
    obtain ⟨_, _, remembered, order', adds⟩ := reinserts
    exact .of_adds_id adds (remembered.trans mine)

theorem access_steady [Allocator ω] (r : PureHash α) : (access (ω := ω) r.rule).Steady (own r) := by
  refine ⟨?_, ?_, ?_, ?_⟩
  · intro order s value sound
    refine (insert_ends sound value).imp (fun _ after ends => ends.1.evolves sound rfl) ?_
    intro fault after told
    rcases told with barred | ⟨error, _, inserts, _⟩
    · exact .of_barred barred sound
    · exact inserts.evolves sound rfl
  · intro order s value sound
    exact (tryInsert_ends sound value).imp (fun _ after ends => ends.1.evolves sound rfl)
      fun _ after barred => .of_barred barred sound
  · intro order i value s loose
    exact (reinsert_ends loose).imp (fun _ after ends => ends.1.evolves rfl)
      fun _ after barred => .of_barred barred loose.sound
  · intro order s strides sound
    exact Ends.of_ok (walker_run sound strides) rfl

theorem Rehashes.evolves {s after : HashSet α} (rehashes : Rehashes r order s after) :
    Evolves (own r) False untouched s after :=
  ⟨⟨order, rehashes.sound⟩, fun i value held => .inl (rehashes.fresh i value held)⟩

theorem act_evolves [Allocator ω] (action : HashSetAction α ω) (sound : Sound order s.store) :
    Evolves (own r) action.moves (action.touches (s.perform (act r.rule action)).1) s.store
      (s.perform (act r.rule action)).2.store := by
  -- most actions touch the same slots whatever they answer
  have settled : ∀ {program : Update (HashSet α) ω (Reply α)} {moves : Prop} {touched : Nat → Prop}
      {touches : Except Fault (Reply α) → Nat → Prop}, (∀ answer, touches answer = touched) →
      Always program s (fun after => Evolves (own r) moves touched s.store after.store) →
      Evolves (own r) moves (touches (s.perform program).1) s.store (s.perform program).2.store := by
    intro program moves touched touches same always
    rw [same]
    exact Session.perform_tells (fun _ after => Evolves (own r) moves touched s.store after.store) always
  cases action with
  | common action =>
    exact settled (fun _ => rfl) (Access.run_evolves (access_steady r) action sound)
  | findBy hash accepts =>
    exact settled (fun _ => rfl) ((Access.ask_evolves sound _).then fun _ _ evolved => evolved)
  | insertWith hash accepts make =>
    have inserted : Always (insertWith r.rule hash accepts make) s fun after =>
        Evolves (own r) True untouched s.store after.store := by
      refine (insertWith_settles sound hash accepts make).imp ?_ ?_
      · intro placed after told
        rcases told with same | ⟨ρ, i, value, order', adds, remembered⟩
        · rw [same]
          exact .stay sound
        · exact .of_adds adds remembered
      · intro fault after told
        obtain ⟨ρ, carries⟩ := told
        exact .of_carries carries
    exact settled (fun _ => rfl) (inserted.then fun _ _ evolved => evolved)
  | rehash =>
    refine settled (fun _ => rfl) (Ends.bind ((rehash_ends sound).imp (fun _ _ ends => ends.1.evolves) ?_) ?_)
    · exact fun _ _ barred => .of_barred barred sound
    · exact fun _ _ evolved => evolved
  | walkChanging change strides =>
    have walked : Returns (act r.rule (.walkChanging change strides)) s fun answer after =>
        ∃ items, answer = .walked items ∧ Evolves (own r) False (named items) s.store after.store := by
      refine Returns.bind (changingWalker_rewalks (amendable_sound order) strides sound sound.cursor_tracks) ?_
      exact fun items after rewalks => ⟨items, rfl, .of_amends rewalks.kept rewalks.amends⟩
    refine Session.perform_tells (fun answer after => Evolves (own r) False (HashSetAction.touches
      (.walkChanging change strides) answer) s.store after.store) (walked.ends ?_)
    intro _ after told
    obtain ⟨items, rfl, evolved⟩ := told
    exact evolved

end HashSet
end Slotted
