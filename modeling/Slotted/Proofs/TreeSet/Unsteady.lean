import Slotted.Proofs.Handles
import Slotted.Proofs.Reached
import Slotted.Proofs.TreeSet.Placement
import Slotted.Proofs.TreeSet.Resilience
import Slotted.Proofs.TreeSet.Structure
namespace Slotted

variable {α ω : Type}

namespace Query

variable {κ β : Type} {store : κ}

theorem calm_guarded (query : Query κ ω β) : query.guarded.Calm (fun _ => True) store := by
  intro gate lowered
  refine ends_guarded lowered ?_
  unfold Ends
  cases query store { gate with busy := true } with
  | ok value after => rfl
  | error fault after => exact ⟨trivial, rfl⟩

theorem calm_lift (read : Except Fault β) : (liftM read : Query κ ω β).Calm (fun _ => True) store := by
  intro gate lowered
  cases read with
  | ok value => exact Ends.of_ok rfl lowered
  | error fault => exact Ends.of_error rfl ⟨trivial, lowered⟩

end Query

variable [Allocator ω]

-- An insertion finds its place, and its builder hands the flag back as it got it. Nothing is asked of any other action.
def TreeSetAction.Places (s : Session (TreeSet α) ω) : TreeSetAction α ω → Prop
  | .insertWith probe make => ¬ TreeSet.Misplaces probe s ∧ make.Careful fun _ => True
  | _ => True

namespace TreeSet

open Store Session

variable {rule : OrderRule (TreeSet α) ω α} {r : PureOrder α} {s : Session (TreeSet α) ω} {t : Tree}
  {probe : Probe (TreeSet α) ω α} {make : Query (TreeSet α) ω α}

omit [Allocator ω] in
theorem findBy_calm (probe : Probe (TreeSet α) ω α) (store : TreeSet α) : (findBy probe).Calm (fun _ => True) store := by
  refine (Query.calm_guarded _).bind fun place => ?_
  cases place with
  | found i => exact (Query.calm_lift _).bind fun h => Query.calm_pure _
  | vacant parent side => exact Query.calm_pure _

omit [Allocator ω] in
theorem bound_calm (wanted : Side) (inclusive : Bool) (probe : Probe (TreeSet α) ω α) (store : TreeSet α) :
    (bound wanted inclusive probe).Calm (fun _ => True) store :=
  (Query.calm_guarded _).bind fun _ => Query.calm_pure _

omit [Allocator ω] in
theorem Joins.sound {after : TreeSet α} {placed : Handle × Bool} (joins : Joins probe make t s.store after placed)
    (sound : Sound t s.store) : ∃ t', Sound t' after := by
  obtain ⟨h, fresh⟩ := placed
  cases fresh with
  | false => exact ⟨t, joins.1.symm ▸ sound⟩
  | true =>
    obtain ⟨value, ρ, t', _, adds⟩ := joins
    exact ⟨t', adds.sound⟩

theorem act_places (follows : rule.Follows (fun _ => True) r) (action : TreeSetAction α ω) (places : action.Places s)
    (settled : Settled unpromised s) : Always (act rule action) s (Settled unpromised) := by
  have fairly : action.Fair (fun _ => True) → Always (act rule action) s (Settled unpromised) := fun fair =>
    (act_settles follows action fair settled).faulting fun _ _ told => told.2
  cases action with
  | findBy probe => exact (Access.ask_resilient _ settled (findBy_calm probe _)).faulting fun _ _ told => told.2.holds
  | bound wanted inclusive probe =>
    exact (Access.ask_resilient _ settled (bound_calm wanted inclusive probe _)).faulting fun _ _ told => told.2.holds
  | insertWith probe make =>
    obtain ⟨⟨t, proper⟩, lowered⟩ := settled
    obtain ⟨placing, careful⟩ := places
    refine Ends.bind ((insertWith_joins proper.sound lowered placing).faulting ?_) ?_
    · intro _ after told
      obtain ⟨ρ, carries⟩ := told.1.carries
      exact ⟨⟨_, carries.sound, trivial⟩, told.2 careful⟩
    · intro placed after told
      obtain ⟨t', sound⟩ := told.1.sound proper.sound
      exact ⟨⟨t', sound, trivial⟩, told.2 careful⟩
  | _ => exact fairly trivial

-- Some history leads there in which every insertion found its place.
def Tended (rule : OrderRule (TreeSet α) ω α) (s : Session (TreeSet α) ω) : Prop :=
  ∃ config origin start actions, origin.gate.busy = false ∧ configure config origin = .ok (.ok ()) start ∧
    Throughout (act rule) (fun s action => action.Places s) actions start ∧ s = performed (act rule) actions start

theorem Tended.settled (tended : Tended rule s) (follows : rule.Follows (fun _ => True) r) : Settled unpromised s := by
  obtain ⟨config, origin, start, actions, lowered, configured, places, rfl⟩ := tended
  obtain ⟨sound, gate⟩ := (configure_returns config origin).returned configured rfl
  have first : Settled unpromised start := ⟨⟨_, sound, trivial⟩, gate.trans lowered⟩
  exact throughout_keeps first places fun s action settled places => perform_keeps (act_places follows action places settled)

theorem Tended.reached (tended : Tended rule s) : TreeSet.Reached (act rule) (fun _ => True) s := by
  obtain ⟨config, origin, start, actions, lowered, configured, _, rfl⟩ := tended
  exact ⟨config, origin, start, actions, lowered, configured, fun _ _ => trivial, rfl⟩

theorem Tended.grown (tended : Tended rule s) (follows : rule.Follows (fun _ => True) r) : WellGrown s.store := by
  obtain ⟨⟨t, proper⟩, _⟩ := tended.settled follows
  exact wellGrown proper.sound

theorem Misplaces.searches (misplaces : Misplaces probe s) (settled : Settled unpromised s) :
    ∃ (t : Tree) (ρ : Nat → Nat) (parent : Nat) (side : Side) (first : Gate ω) (middle : Session (TreeSet α) ω) (i : Nat)
      (last : Gate ω), Sound t s.store ∧ locate probe s.store s.gate = .ok (.vacant parent side) first ∧
      Carries ρ t s.store middle.store ∧ middle.gate.busy = false ∧
      locate probe middle.store middle.gate = .ok (.found i) last := by
  obtain ⟨⟨t, proper⟩, lowered⟩ := settled
  obtain ⟨parent, side, first, middle, i, last, ran, roomy, found, _⟩ := misplaces
  have flag := ((locate_stops proper.sound lowered).returned ran).2
  obtain ⟨⟨_, _, ρ, carries, _⟩, flag'⟩ := (makeRoom_returns (s := ⟨s.store, first⟩) proper.sound).returned roomy
  exact ⟨t, ρ, parent, side, first, middle, i, last, proper.sound, ran, carries, flag'.trans flag, found⟩

theorem not_misplaces_of_unequal (settled : Settled unpromised s)
    (apart : ∀ element, ¬ (probe.order element).Gives .eq) : ¬ Misplaces probe s := by
  intro misplaces
  obtain ⟨t, ρ, _, _, _, middle, i, last, _, _, carries, lowered, found⟩ := misplaces.searches settled
  obtain ⟨stored, _, equal⟩ := ((locate_stops carries.sound lowered).returned found).1
  exact apart stored equal

-- A probe that answers by the element alone, if it answers, comes to the same place again.
theorem not_misplaces_of_follows {blame : Fault → Prop} {f : α → Ordering} (settled : Settled unpromised s)
    (follows : probe.Follows blame f) : ¬ Misplaces probe s := by
  intro misplaces
  obtain ⟨t, ρ, parent, side, first, middle, i, last, sound, ran, carries, lowered, found⟩ := misplaces.searches settled
  have answers : ∀ {t : Tree} {store : TreeSet α} {gate : Gate ω}, Sound t store → gate.busy = false → ∀ {place left},
      locate probe store gate = .ok place left → sought f t store.pool = place := by
    intro t store gate sound lowered place left ran
    have ideal := (locate_answers sound f probe.memory).lowered lowered
    exact ((locate_follows follows store gate gate _ _ rfl ideal).2.returned ran).1.symm
  obtain ⟨path, _, _, again⟩ := sought_again (answers sound settled.lowered ran) carries
  cases again.symm.trans (answers carries.sound lowered found)

-- Callers whose code answers consistently tend their sets, whatever else they do.
theorem tended_of_reached (follows : rule.Follows (fun _ => True) r)
    (reached : TreeSet.Reached (act rule) (·.Fair fun _ => True) s) : Tended rule s := by
  obtain ⟨config, origin, start, actions, lowered, configured, fair, rfl⟩ := reached
  refine ⟨config, origin, start, actions, lowered, configured, ?_, rfl⟩
  obtain ⟨sound, gate⟩ := (configure_returns config origin).returned configured rfl
  have settled : Settled unpromised start := ⟨⟨_, sound, trivial⟩, gate.trans lowered⟩
  clear configured sound gate
  induction actions generalizing start with
  | nil => exact trivial
  | cons action actions ih =>
    obtain ⟨first, rest⟩ := List.forall_mem_cons.mp fair
    have places : action.Places start := by
      cases action with
      | insertWith probe make =>
        obtain ⟨⟨f, answers⟩, careful⟩ := first
        exact ⟨not_misplaces_of_follows settled answers, careful⟩
      | _ => trivial
    exact ⟨places, ih _ rest (perform_keeps (act_places follows action places settled))⟩

-- The tree stands, so that a check has at most a complaint about the order.
def Whole (r : PureOrder α) (s : Session (TreeSet α) ω) : Prop :=
  WellGrown s.store ∧ ∀ gate : Gate ω, gate.busy = false → ∃ verdict, check r.rule s.store gate = .ok verdict gate ∧
    (verdict = .ok () ∨ ∃ i, verdict = .error (.unordered i))

omit [Allocator ω] in
theorem whole (r : PureOrder α) (sound : Sound t s.store) : Whole r s := by
  refine ⟨wellGrown sound, fun gate lowered => ?_⟩
  obtain ⟨verdict, ran, verdicts⟩ := check_run (r := r) sound lowered
  refine ⟨verdict, ran, verdicts.imp id ?_⟩
  intro blamed
  obtain ⟨i, told, _⟩ := blamed
  exact ⟨i, told⟩

-- Whatever a probe answers, to the same element now this and now that: an insertion finds an element that it called equal
-- or puts in the one that was built, and the tree stands. Only code of the callers can break it off, and then no element is
-- lost. The place found first must not be kept, though, when the slots were renumbered and the second search finds an
-- element, unless its old numbers happen to name a place that is empty.
theorem insertWith_keeps_whole (generous : Generous ω) (follows : rule.Follows (fun _ => True) r) (tended : Tended rule s)
    (few : s.store.len < maxCapacity / 2) (probe : Probe (TreeSet α) ω α) (make : Query (TreeSet α) ω α)
    (placing : ¬ Misplaces probe s) :
    (∀ placed after, insertWith probe make s = .ok placed after → Whole r after ∧ match placed with
      | (h, false) => after.store = s.store ∧ ∃ stored, s.store.get? h = some stored ∧ (probe.order stored).Gives .eq
      | (h, true) => ∃ value, make.Gives value ∧ after.store.get? h = some value ∧
          after.store.pool.contents = value ::ₘ s.store.pool.contents) ∧
    ∀ fault after, insertWith probe make s = .error fault after → (probe.Raises fault ∨ make.Raises fault) ∧ Whole r after ∧
      after.store.pool.contents = s.store.pool.contents := by
  obtain ⟨⟨t, proper⟩, lowered⟩ := tended.settled follows
  have sound := proper.sound
  have ends : Ends (insertWith probe make) s _ _ := insertWith_joins sound lowered placing
  constructor
  · intro placed after ran
    obtain ⟨joins, _⟩ := ends.returned ran
    obtain ⟨t', sound'⟩ := joins.sound sound
    refine ⟨whole r sound', ?_⟩
    obtain ⟨h, fresh⟩ := placed
    cases fresh with
    | false => exact joins
    | true =>
      obtain ⟨value, ρ, t', gives, adds⟩ := joins
      exact ⟨value, gives, adds.here, adds.contents_eq sound⟩
  · intro fault after ran
    obtain ⟨⟨blamed, ρ, carries⟩, _⟩ := ends.faulted ran
    refine ⟨?_, whole r carries.sound, carries.contents_eq sound⟩
    rcases blamed with probed | made | ⟨error, first, middle, refused, _⟩
    · exact .inl probed
    · exact .inr made
    · obtain ⟨renumbered, granted⟩ := (makeRoom_grants generous (s := ⟨s.store, first⟩) sound few).returned refused
      cases granted

end TreeSet

-- A world that grants everything and has the answers of a probe ready.
structure Script where
  left : List Ordering

instance : Allocator Script where
  grant _ script := (true, script)

namespace Script

theorem generous : Generous Script := fun _ _ => rfl

-- Reads out so many answers whatever it is shown, and then calls everything less.
def probe (answers : Nat) : Probe (TreeSet α) Script α where
  order _ := do
    match (← get).world.left with
    | [] => return .lt
    | answer :: left =>
      modify fun gate => { gate with world := ⟨left⟩ }
      return answer
  memory := answers

end Script

namespace TreeSet

open Store Session

-- Both searches of an insertion into a full set see another set, so that the answers are turned round in between. They are
-- never that something is equal.
theorem insertWith_keeps_whole_of_numbers :
    let r : PureOrder Nat := ⟨compare⟩
    let start : Session (TreeSet Nat) Script := ⟨⟨⟨#[.sentinel], 3, 0⟩, ⟨0⟩⟩, false, ⟨[]⟩⟩
    let probe : Probe (TreeSet Nat) Script Nat := ⟨fun _ => do if (← read).pool.isFull then return .lt else return .gt, 1⟩
    let actions : List (TreeSetAction Nat Script) := [.insertWith probe (pure 1), .common (.insert 2), .common (.take 1)]
    let s := performed (act r.rule) actions start
    Generous Script ∧ Tended r.rule s ∧ s.store.len < maxCapacity / 2 ∧ ¬ Misplaces probe s ∧
      ∃ h after, insertWith probe (pure 3) s = .ok (h, true) after ∧ Whole r after ∧
        ∃ value, after.store.get? h = some value ∧ after.store.pool.contents = value ::ₘ s.store.pool.contents := by
  intro r start probe actions s
  have apart : ∀ element, ¬ (probe.order element).Gives .eq := by
    intro element gives
    obtain ⟨store, gate, after, ran⟩ := gives
    have answered : (if store.pool.isFull then .ok .lt gate else .ok .gt gate) =
        (.ok .eq after : EStateM.Result Fault (Gate Script) Ordering) := by
      rw [← ran]
      change _ = (if store.pool.isFull then pure .lt else pure .gt : Query (TreeSet Nat) Script Ordering) store gate
      split <;> rfl
    split at answered <;> cases answered
  have configured : configure ⟨2⟩ (⟨empty, false, ⟨[]⟩⟩ : Session (TreeSet Nat) Script) = .ok (.ok ()) start := rfl
  have begun : Settled unpromised start := ⟨⟨_, ((configure_returns _ _).returned configured rfl).1, trivial⟩, rfl⟩
  have tended : Tended r.rule s :=
    ⟨⟨2⟩, ⟨empty, false, ⟨[]⟩⟩, start, actions, rfl, configured,
      ⟨⟨not_misplaces_of_unequal begun apart, Query.careful_pure 1⟩, trivial, trivial, trivial⟩, rfl⟩
  have placing : ¬ Misplaces probe s := not_misplaces_of_unequal (tended.settled r.rule_follows) apart
  have few : s.store.len < maxCapacity / 2 := by decide +kernel
  have answer : (s.perform (insertWith probe (pure 3))).1 = .ok (⟨2, Nat.two_pos⟩, true) := by decide +kernel
  obtain ⟨h, after, ran⟩ : ∃ h after, insertWith probe (pure 3) s = .ok (h, true) after := ⟨_, _, returned_of_perform answer⟩
  have told := (insertWith_keeps_whole Script.generous r.rule_follows tended few probe (pure 3) placing).1 _ _ ran
  obtain ⟨whole, value, _, here, contents⟩ := told
  exact ⟨Script.generous, tended, few, placing, h, after, ran, whole, value, here, contents⟩

-- The second search finds the one element that is left, and the place below its old number is kept. In three slots the
-- number is given to the new element, which then hangs below itself; in four it is past the end, and nobody is to blame.
theorem insertWith_misplaced :
    let r : PureOrder Nat := ⟨compare⟩
    let start : Nat → Session (TreeSet Nat) Script := fun slots => ⟨⟨⟨#[.sentinel], slots, 0⟩, ⟨0⟩⟩, false, ⟨[.lt, .eq]⟩⟩
    let actions : List (TreeSetAction Nat Script) := [.common (.extend [1, 2]), .common (.take 1)]
    let actions' : List (TreeSetAction Nat Script) := [.common (.extend [1, 2, 3]), .common (.takeAll [1, 2])]
    let s := performed (act r.rule) actions (start 3)
    let s' := performed (act r.rule) actions' (start 4)
    let done := s.perform (insertWith (Script.probe 2) (pure 3))
    let done' := s'.perform (insertWith (Script.probe 2) (pure 4))
    Generous Script ∧ (Tended r.rule s ∧ s.store.len < maxCapacity / 2 ∧ done.1 = .ok (⟨2, Nat.two_pos⟩, true) ∧
        (check r.rule done.2.store).run' done.2.gate = some (.error (.unreachable 2))) ∧
      Tended r.rule s' ∧ s'.store.len < maxCapacity / 2 ∧ done'.1 = .error (.slotOutOfRange 3 3) := by
  intro r start actions actions' s s' done done'
  have tended : Tended r.rule s :=
    ⟨⟨2⟩, ⟨empty, false, ⟨[.lt, .eq]⟩⟩, start 3, actions, rfl, rfl, ⟨trivial, trivial, trivial⟩, rfl⟩
  have tended' : Tended r.rule s' :=
    ⟨⟨3⟩, ⟨empty, false, ⟨[.lt, .eq]⟩⟩, start 4, actions', rfl, rfl, ⟨trivial, trivial, trivial⟩, rfl⟩
  exact ⟨Script.generous, ⟨tended, by decide +kernel, by decide +kernel, by decide +kernel⟩, tended', by decide +kernel,
    by decide +kernel⟩

end TreeSet
end Slotted
