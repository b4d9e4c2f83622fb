import Slotted.Datum.World
import Slotted.Proofs.Action.Evolution
import Slotted.Proofs.Action.History
import Slotted.Proofs.TreeSet.Check
import Slotted.Proofs.TreeSet.Insert
import Slotted.Proofs.TreeSet.Start
import Slotted.Action.Tree
namespace Slotted

-- A probe of the caller's own is asked twice about the same tree, so it must not change its mind. Searches that change
-- nothing may ask whatever they like.
def TreeSetAction.Steadfast {α ω : Type} : TreeSetAction α ω → Prop
  | .insertWith probe _ => ∃ f : α → Ordering, probe.order = fun stored => pure (f stored)
  | _ => True

namespace TreeSet

open Store

variable {α ω : Type} {r : PureOrder α} {t : Tree}

-- The live slots are the nodes of one binary tree, hung up by its links in both directions from a root without a parent,
-- and each balance is the difference of heights and at most one.
def WellGrown (s : TreeSet α) : Prop := ∃ t : Tree, Rooted t s.pool s.index ∧ s.pool.Enumerates t.slots

theorem wellGrown {s : TreeSet α} (sound : Sound t s) : WellGrown s := ⟨t, sound.threads, sound.enumerates⟩

-- Nothing is remembered of an element, so nothing can be wrong about it.
def unremembered (_ : α) (_ : Unit) : Prop := True

theorem Inserts.evolves {f : α → Ordering} {value : α} {s after : TreeSet α} {answer : Except CapacityError (Handle × Bool)}
    (inserts : Inserts f value t s after answer) (sound : Sound t s) : Evolves unremembered True untouched s after := by
  cases answer with
  | error error =>
    rw [inserts.2.1]
    exact .stay sound
  | ok placed =>
    obtain ⟨h, fresh⟩ := placed
    cases fresh with
    | false =>
      rw [inserts.1]
      exact .stay sound
    | true =>
      obtain ⟨_, ρ, t', lands⟩ := inserts
      exact .of_adds lands.adds trivial

theorem Reinserts.evolves {f : α → Ordering} {value : α} {i : Nat} {s after : TreeSet α} {placed : Handle × Bool}
    (reinserts : Reinserts f i value t s after placed) : Evolves unremembered False untouched s after := by
  obtain ⟨h, fresh⟩ := placed
  cases fresh with
  | false =>
    obtain ⟨_, sound, same⟩ := reinserts
    exact .of_same_live sound same
  | true =>
    obtain ⟨_, _, t', lands⟩ := reinserts
    exact .of_adds_id lands.adds trivial

variable [Allocator ω]

theorem access_steady (r : PureOrder α) : (access (ω := ω) r.rule).Steady unremembered := by
  refine ⟨?_, ?_, ?_, ?_⟩
  · intro t s value sound
    refine (insert_ends sound value).imp (fun _ after ends => ends.1.evolves sound) ?_
    intro fault after ends
    cases ends with
    | inl barred => exact .of_barred barred sound
    | inr refused =>
      obtain ⟨error, _, inserts, _⟩ := refused
      exact inserts.evolves sound
  · intro t s value sound
    exact (tryInsert_ends sound value).imp (fun _ after ends => ends.1.evolves sound)
      fun _ after barred => .of_barred barred sound
  · intro t i value s loose
    exact (reinsert_ends loose).imp (fun _ after ends => ends.1.evolves) fun _ after barred => .of_barred barred loose.sound
  · intro t s strides sound
    exact Ends.of_ok (walker_run sound strides) rfl

theorem act_sound {s : Session (TreeSet α) ω} (action : TreeSetAction α ω) (steadfast : action.Steadfast)
    (sound : Sound t s.store) : Always (act r.rule action) s fun after => ∃ t', Sound t' after.store := by
  have stay : ∀ after : Session (TreeSet α) ω, after.store = s.store → ∃ t', Sound t' after.store := by
    intro after same
    rw [same]
    exact ⟨t, sound⟩
  have asked : ∀ {β : Type} (query : Query (TreeSet α) ω β) (answer : β → Reply α),
      Always (do return answer (← Update.ask query)) s fun after => ∃ t', Sound t' after.store := by
    intro β query answer
    exact ((Update.ask_keeps_store query).imp stay).then fun _ _ kept => kept
  have read : ∀ {β : Type} (read : Except Fault β) (answer : β → Reply α),
      Always (do return answer (← (liftM read : Update (TreeSet α) ω β))) s fun after => ∃ t', Sound t' after.store := by
    intro β read answer
    have same : Always (liftM read : Update (TreeSet α) ω β) s (· = s) := always_lift read
    exact (same.imp fun after same => stay after (by rw [same])).then fun _ _ kept => kept
  cases action with
  | common action =>
    exact (Access.run_evolves (access_steady r) action sound).imp fun after evolved => evolved.sound
  | findBy probe => exact asked _ _
  | bound wanted inclusive probe => exact asked _ _
  | insertWith probe make =>
    obtain ⟨f, order⟩ := steadfast
    obtain ⟨_, memory⟩ := probe
    cases order
    have inserted : Always (insertWith ⟨fun stored => pure (f stored), memory⟩ make) s
        fun after => ∃ t', Sound t' after.store := by
      refine (insertWith_settles sound f memory make).imp ?_ ?_
      · intro placed after ends
        obtain ⟨value, inserts⟩ := ends
        exact (inserts.evolves sound).sound
      · intro fault after ends
        obtain ⟨ρ, carries⟩ := ends
        exact ⟨_, carries.sound⟩
    exact inserted.then fun _ _ kept => kept
  | near wanted inclusive value => exact asked _ _
  | extreme side => exact read _ _
  | neighbour side h => exact read _ _
  | updateAll change =>
    obtain ⟨after, ran, sound', _⟩ := updateAll_run sound change
    rw [act, Always, ends_bind, Update.ends_edit]
    exact Ends.of_ok ran ⟨t, sound'⟩

-- After any history the tree stands and is balanced. So the check has at most a complaint about the order.
theorem history_keeps_balance (r : PureOrder α) (config : TreeConfig) (origin start : Session (TreeSet α) ω)
    (configured : configure config origin = .ok (.ok ()) start) (actions : List (TreeSetAction α ω))
    (steadfast : ∀ action ∈ actions, action.Steadfast) :
    let after := (Session.performed (act r.rule) actions start).store
    WellGrown after ∧ ∀ gate : Gate ω, gate.busy = false →
      ∃ verdict, check r.rule after gate = .ok verdict gate ∧ (verdict = .ok () ∨ ∃ i, verdict = .error (.unordered i)) := by
  have empty := ((configure_returns config origin).returned configured rfl).1
  have kept : ∀ action ∈ actions, ∀ s : Session (TreeSet α) ω, (∃ t, Sound t s.store) →
      ∃ t, Sound t (s.perform (act r.rule action)).2.store := by
    intro action member s before
    obtain ⟨t, sound⟩ := before
    exact Session.perform_tells (fun _ after => ∃ t', Sound t' after.store)
      (act_sound (r := r) action (steadfast action member) sound)
  have first : ∃ t, Sound t start.store := ⟨.nil, empty⟩
  obtain ⟨t, sound⟩ := Session.performed_keeps first actions kept
  refine ⟨wellGrown sound, ?_⟩
  intro gate lowered
  obtain ⟨verdict, ran, verdicts⟩ := check_run (r := r) sound lowered
  refine ⟨verdict, ran, verdicts.imp id ?_⟩
  intro blamed
  obtain ⟨i, told, _⟩ := blamed
  exact ⟨i, told⟩

-- With a rule that calls everything less, a probe that calls everything greater, and an element changed under them.
theorem history_keeps_balance_of_numbers :
    let r : PureOrder Nat := ⟨fun _ _ => .lt⟩
    let origin : Session (TreeSet Nat) World := ⟨empty, false, World.fresh⟩
    let start : Session (TreeSet Nat) World := ⟨⟨⟨#[.sentinel], 5, 0⟩, ⟨0⟩⟩, false, World.fresh⟩
    let actions : List (TreeSetAction Nat World) := [.common (.extend [3, 6, 9, 3]),
      .insertWith ⟨fun _ => pure .gt, 0⟩ (pure 5), .common (.change ⟨2, Nat.two_pos⟩ (· + 7)),
      .common (.remove ⟨2, Nat.two_pos⟩)]
    configure ⟨4⟩ origin = .ok (.ok ()) start ∧ (∀ action ∈ actions, action.Steadfast) ∧
      WellGrown (Session.performed (act r.rule) actions start).store := by
  intro r origin start actions
  have configured : configure ⟨4⟩ origin = .ok (.ok ()) start := rfl
  have steadfast : ∀ action ∈ actions, action.Steadfast := by
    intro action member
    simp only [actions, List.mem_cons, List.not_mem_nil, or_false] at member
    rcases member with rfl | rfl | rfl | rfl
    · trivial
    · exact ⟨fun _ => .gt, rfl⟩
    · trivial
    · trivial
  exact ⟨configured, steadfast, (history_keeps_balance r _ origin start configured actions steadfast).1⟩

end TreeSet
end Slotted
