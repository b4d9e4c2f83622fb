import Slotted.Datum.World
import Slotted.Proofs.HashSet.Check
import Slotted.Proofs.HashSet.Evolution
import Slotted.Proofs.HashSet.Start
namespace Slotted.HashSet

open Store

variable {α ω : Type}

-- From every head leads a finite chain, the chains share no slot, and together they hold the live slots.
def WellChained (s : HashSet α) : Prop :=
  ∃ chains live, Chains chains live s.pool s.index ∧ s.pool.Enumerates live

-- An element has left, and the others are where they were.
structure Unlinks (h : Handle) (s left : HashSet α) : Prop where
  gone : left.get? h = none
  others : ∀ other, other ≠ h → left.get? other = s.get? other
  chained : WellChained left

theorem wellChained {order : List Nat} {s : HashSet α} (sound : Sound order s) : WellChained s := by
  obtain ⟨chains, linked⟩ := sound.threads
  exact ⟨chains, order, linked, sound.enumerates⟩

theorem unlinks_of_parts {order rest : List Nat} {s left : HashSet α} {h : Handle}
    (parts : Parts h.index order rest s left) (sound : Sound order s) : Unlinks h s left := by
  refine ⟨parts.gone sound, ?_, wellChained parts.sound⟩
  intro other apart
  exact parts.held other.index fun same => apart (Handle.ext_index same)

variable [Allocator ω]

-- Changed in place by some action, and from then on the same element, still remembered under a hash not its own.
inductive Outdated (r : PureHash α) (start : Session (HashSet α) ω) : List (HashSetAction α ω) → Nat → Prop where
  | changed {actions : List (HashSetAction α ω)} {action : HashSetAction α ω} {i : Nat} :
    action.touches ((Session.performed (act r.rule) actions start).perform (act r.rule action)).1 i →
    Stale r (Session.performed (act r.rule) (actions ++ [action]) start).store.pool i →
    Outdated r start (actions ++ [action]) i
  -- only an action that may renumber finds it under another number
  | kept {actions : List (HashSetAction α ω)} {action : HashSetAction α ω} {i j : Nat} :
    Outdated r start actions j → action.moves ∨ j = i →
    (Session.performed (act r.rule) actions start).store.pool.get? j =
      (Session.performed (act r.rule) (actions ++ [action]) start).store.pool.get? i →
    ((Session.performed (act r.rule) actions start).store.pool.linkAt j).hash =
      ((Session.performed (act r.rule) (actions ++ [action]) start).store.pool.linkAt i).hash →
    Stale r (Session.performed (act r.rule) (actions ++ [action]) start).store.pool i →
    Outdated r start (actions ++ [action]) i

theorem performed_sound {order : List Nat} {r : PureHash α} {start : Session (HashSet α) ω} (sound : Sound order start.store)
    (actions : List (HashSetAction α ω)) : ∃ order', Sound order' (Session.performed (act r.rule) actions start).store := by
  have kept : ∀ action ∈ actions, ∀ s : Session (HashSet α) ω, (∃ order', Sound order' s.store) →
      ∃ order', Sound order' (s.perform (act r.rule action)).2.store := by
    intro action _ s ends
    obtain ⟨order', sound'⟩ := ends
    exact (act_evolves (r := r) action sound').sound
  exact Session.performed_keeps ⟨order, sound⟩ actions kept

-- The induction is on the history from its end.
theorem stale_outdated {r : PureHash α} {start : Session (HashSet α) ω} (sound : Sound [] start.store)
    (actions : List (HashSetAction α ω)) (i : Nat)
    (stale : Stale r (Session.performed (act r.rule) actions start).store.pool i) : Outdated r start actions i := by
  induction actions using List.reverseRecOn generalizing i with
  | nil =>
    obtain ⟨value, held, _⟩ := stale
    exact absurd (sound.mem_iff.mpr ⟨value, held⟩) List.not_mem_nil
  | append_singleton actions action ih =>
    obtain ⟨order, before⟩ := performed_sound (r := r) sound actions
    have evolved := act_evolves (r := r) action before
    rw [← Session.performed_concat] at evolved
    obtain ⟨value, held, other⟩ := id stale
    rcases evolved.origin i value held with fresh | touched | ⟨j, near, there, kept⟩
    · exact absurd fresh other
    · exact .changed touched stale
    · have remembered : ((Session.performed (act r.rule) actions start).store.pool.linkAt j).hash =
          ((Session.performed (act r.rule) (actions ++ [action]) start).store.pool.linkAt i).hash := kept
      exact .kept (ih j ⟨value, there, remembered ▸ other⟩) near (there.trans held.symm) remembered stale

-- After any history the chains stand. So the check finds at most an outdated hash, and whatever a handle names leaves
-- alone, however outdated its own hash may be.
theorem history_keeps_chains (r : PureHash α) (config : HashConfig) (origin start : Session (HashSet α) ω)
    (configured : configure config origin = .ok (.ok ()) start) (actions : List (HashSetAction α ω)) :
    let after := (Session.performed (act r.rule) actions start).store
    WellChained after ∧
      (∀ gate : Gate ω, gate.busy = false → ∃ verdict, check r.rule after gate = .ok verdict gate ∧
        (verdict = .ok () ∨ ∃ i, verdict = .error (.staleHash i) ∧ Outdated r start actions i)) ∧
      ∀ h, match after.get? h with
        | some value =>
          Returns (remove h) after (fun answer left => answer = some value ∧ Unlinks h after left) ∧
          Returns (extract h) after fun answer left => answer = some ⟨h.index⟩ ∧
            left.detachedValue ⟨h.index⟩ = .ok value ∧ Unlinks h after left
        | none => remove h after = .ok none after ∧ extract h after = .ok none after := by
  have empty := ((configure_returns config origin).returned configured rfl).1
  obtain ⟨order, sound⟩ := performed_sound (r := r) empty actions
  refine ⟨wellChained sound, ?_, ?_⟩
  · intro gate lowered
    obtain ⟨verdict, ran, verdicts⟩ := check_run (r := r) sound lowered
    refine ⟨verdict, ran, verdicts.imp id ?_⟩
    intro given
    obtain ⟨i, blamed, stale⟩ := given
    exact ⟨i, blamed, stale_outdated empty actions i stale⟩
  · intro h
    split
    · rename_i value held
      refine ⟨(remove_returns sound held).returning ?_, (extract_returns sound held).returning ?_⟩
      · intro answer left ends
        obtain ⟨rfl, rest, parts⟩ := ends
        exact ⟨rfl, unlinks_of_parts parts sound⟩
      · intro answer left ends
        obtain ⟨rfl, rest, parts, loose⟩ := ends
        exact ⟨rfl, loose.value_eq, unlinks_of_parts parts sound⟩
    · rename_i absent
      exact ⟨remove_none absent sound, extract_none absent sound⟩

-- With a rule that is no equivalence and elements changed under it.
theorem history_keeps_chains_of_numbers :
    let r : PureHash Nat := ⟨fun n => UInt32.ofNat n, fun _ _ => false⟩
    let origin : Session (HashSet Nat) World := ⟨empty 0, false, World.fresh⟩
    let start : Session (HashSet Nat) World := ⟨⟨⟨#[.sentinel], 5, 0⟩, ⟨#[0, 0, 0], 60⟩⟩, false, World.fresh⟩
    configure ⟨4, 60⟩ origin = .ok (.ok ()) start ∧
      WellChained (Session.performed (act r.rule)
        [.common (.extend [3, 6, 9, 3]), .common (.change ⟨2, Nat.two_pos⟩ (· + 1)), .common (.remove ⟨2, Nat.two_pos⟩)]
        start).store := by
  intro r origin start
  have configured : configure ⟨4, 60⟩ origin = .ok (.ok ()) start := by with_unfolding_all rfl
  exact ⟨configured, (history_keeps_chains r _ origin start configured _).1⟩

end Slotted.HashSet
