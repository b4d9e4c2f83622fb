import Slotted.Proofs.Ends
import Slotted.Proofs.Stepwise
namespace Slotted

variable {κ ω α β γ ν : Type} {blame : Fault → Prop}

namespace Query

-- Where the ideal query answers, the real one answers the same or raises a fault that is the callers' to answer for. The
-- flag is left as it was found, as any lookup from inside leaves it.
def Follows (blame : Fault → Prop) (real ideal : Query κ ω β) : Prop :=
  ∀ store (gate given : Gate ω) value left, gate.busy = given.busy → ideal store given = .ok value left →
    left.busy = given.busy ∧ Ends (real store) gate (fun answer after => answer = value ∧ after.busy = gate.busy)
      fun fault after => blame fault ∧ after.busy = gate.busy

-- Code that comes to no good end but by the callers' fault.
def Careful (blame : Fault → Prop) (query : Query κ ω β) : Prop :=
  ∀ store gate, Ends (query store) gate (fun _ after => after.busy = gate.busy)
    fun fault after => blame fault ∧ after.busy = gate.busy

variable {real ideal : Query κ ω β}

theorem follows_self {query : Query κ ω β}
    (silent : ∀ store gate value left, query store gate = .ok value left → left = gate ∧ ∀ other, query store other = .ok value other) :
    query.Follows blame query := by
  intro store gate given value left _ ran
  obtain ⟨same, always⟩ := silent store given value left ran
  rw [same]
  exact ⟨rfl, Ends.of_ok (always gate) ⟨rfl, rfl⟩⟩

theorem follows_pure (value : β) : (pure value : Query κ ω β).Follows blame (pure value) := by
  refine follows_self ?_
  intro store gate told left ran
  cases ran
  exact ⟨rfl, fun _ => rfl⟩

theorem follows_read : (read : Query κ ω κ).Follows blame read := by
  refine follows_self ?_
  intro store gate told left ran
  cases ran
  exact ⟨rfl, fun _ => rfl⟩

theorem follows_throw (fault : Fault) : (throw fault : Query κ ω β).Follows blame (throw fault) := by
  refine follows_self ?_
  intro store gate told left ran
  cases ran

theorem Follows.bind {first first' : Query κ ω γ} {rest rest' : γ → Query κ ω β} (follows : first.Follows blame first')
    (further : ∀ value, (rest value).Follows blame (rest' value)) : (first >>= rest).Follows blame (first' >>= rest') := by
  intro store gate given value left flags ran
  rw [bind_run] at ran
  cases begun : first' store given with
  | error fault middle =>
    rw [begun] at ran
    cases ran
  | ok told middle =>
    rw [begun] at ran
    obtain ⟨kept, ends⟩ := follows store gate given told middle flags begun
    constructor
    · exact (further told store middle middle value left rfl ran).1.trans kept
    · unfold Ends at ends ⊢
      rw [bind_run]
      cases real : first store gate with
      | error fault after =>
        rw [real] at ends
        exact ends
      | ok answer after =>
        rw [real] at ends
        obtain ⟨rfl, still⟩ := ends
        have later := (further answer store after middle value left (still.trans (flags.trans kept.symm)) ran).2
        rw [still] at later
        exact later

theorem Follows.guarded (follows : real.Follows blame ideal) : real.guarded.Follows blame ideal.guarded := by
  intro store gate given value left flags ran
  obtain ⟨busy, world⟩ := gate
  obtain ⟨busy', world'⟩ := given
  cases flags
  cases busy with
  | true => cases ran
  | false =>
    unfold Query.guarded at ran ⊢
    simp only [Bool.false_eq_true, if_false] at ran
    cases begun : ideal store ⟨true, world'⟩ with
    | error fault middle =>
      rw [begun] at ran
      cases ran
    | ok told middle =>
      rw [begun] at ran
      cases ran
      have ends := (follows store ⟨true, world⟩ ⟨true, world'⟩ _ middle rfl begun).2
      refine ⟨rfl, ?_⟩
      unfold Ends at ends ⊢
      simp only [Bool.false_eq_true, if_false]
      cases ended : real store ⟨true, world⟩ with
      | ok answer after =>
        rw [ended] at ends
        exact ⟨ends.1, rfl⟩
      | error fault after =>
        rw [ended] at ends
        exact ⟨ends.1, rfl⟩

theorem follows_stepwise : Stepwise (Follows blame : ∀ {β : Type}, Query κ ω β → Query κ ω β → Prop) :=
  ⟨follows_pure, follows_read, fun _ => follows_throw _, Follows.bind⟩

theorem follows_encloses : Encloses (Follows blame : ∀ {β : Type}, Query κ ω β → Query κ ω β → Prop) (Follows blame) :=
  ⟨follows_stepwise, follows_stepwise, Follows.guarded⟩

theorem Follows.ends {value : β} {s : Session κ ω} (follows : real.Follows blame ideal)
    (ran : ideal s.store s.gate = .ok value s.gate) :
    Ends (Update.ask real) s
      (fun answer after => answer = value ∧ after.store = s.store ∧ after.gate.busy = s.gate.busy)
      fun fault after => blame fault ∧ after.store = s.store ∧ after.gate.busy = s.gate.busy := by
  rw [Update.ends_ask]
  refine (follows s.store s.gate s.gate value s.gate rfl ran).2.imp ?_ ?_
  · exact fun answer after told => ⟨told.1, rfl, told.2⟩
  · exact fun fault after told => ⟨told.1, rfl, told.2⟩

theorem Follows.asks {value : β} {s : Session κ ω} (follows : real.Follows blame ideal) (lowered : s.gate.busy = false)
    (ran : ideal s.store s.gate = .ok value s.gate) :
    Ends (Update.ask real) s (fun answer after => answer = value ∧ after.store = s.store ∧ after.gate.busy = false)
      fun fault after => blame fault ∧ after.store = s.store ∧ after.gate.busy = false := by
  have ends := follows.ends ran
  rwa [lowered] at ends

theorem Follows.asks_then {value : β} {s : Session κ ω} {rest : β → Update κ ω γ} {returns : γ → Session κ ω → Prop}
    {faults : Fault → Session κ ω → Prop} (follows : real.Follows blame ideal) (lowered : s.gate.busy = false)
    (ran : ideal s.store s.gate = .ok value s.gate)
    (blamed : ∀ fault after, blame fault → after.store = s.store → after.gate.busy = false → faults fault after)
    (further : ∀ gate : Gate ω, gate.busy = false → Ends (rest value) ⟨s.store, gate⟩ returns faults) :
    Ends (Update.ask real >>= rest) s returns faults := by
  refine Ends.bind ((follows.asks lowered ran).faulting ?_) ?_
  · exact fun fault after told => blamed fault after told.1 told.2.1 told.2.2
  · intro answer after told
    obtain ⟨store, gate⟩ := after
    obtain ⟨rfl, same, lowered⟩ := told
    dsimp only at same
    rw [same]
    exact further gate lowered

theorem Careful.bind {first : Query κ ω γ} {rest : γ → Query κ ω β} (careful : first.Careful blame)
    (further : ∀ value, (rest value).Careful blame) : (first >>= rest).Careful blame := by
  intro store gate
  have ends := careful store gate
  unfold Ends at ends ⊢
  rw [bind_run]
  cases begun : first store gate with
  | error fault after =>
    rw [begun] at ends
    exact ends
  | ok value after =>
    rw [begun] at ends
    have later := further value store after
    rw [ends] at later
    exact later

theorem careful_pure (value : β) : (pure value : Query κ ω β).Careful blame := fun _ _ => Ends.of_ok rfl rfl

theorem Follows.careful {value : β} (follows : real.Follows blame (pure value)) : real.Careful blame := by
  intro store gate
  exact (follows store gate gate value gate rfl rfl).2.imp (fun _ _ told => told.2) fun _ _ told => told

-- Asked of this container while nobody looks, it comes to no bad end but by the callers' fault.
def Calm (blame : Fault → Prop) (query : Query κ ω β) (store : κ) : Prop :=
  ∀ gate, gate.busy = false → Ends (query store) gate (fun _ after => after.busy = false)
    fun fault after => blame fault ∧ after.busy = false

variable {store : κ}

theorem Careful.calm (careful : real.Careful blame) (store : κ) : real.Calm blame store := by
  intro gate lowered
  have ends := careful store gate
  rwa [lowered] at ends

theorem Follows.calm (follows : real.Follows blame ideal)
    (answers : ∀ gate : Gate ω, gate.busy = false → ∃ value, ideal store gate = .ok value gate) : real.Calm blame store := by
  intro gate lowered
  obtain ⟨value, ran⟩ := answers gate lowered
  have ends := (follows store gate gate value gate rfl ran).2
  rw [lowered] at ends
  exact ends.imp (fun _ _ told => told.2) fun _ _ told => told

theorem calm_pure (value : β) : (pure value : Query κ ω β).Calm blame store := fun _ lowered => Ends.of_ok rfl lowered

theorem Calm.bind {first : Query κ ω γ} {rest : γ → Query κ ω β} (calm : first.Calm blame store)
    (further : ∀ value, (rest value).Calm blame store) : (first >>= rest).Calm blame store :=
  fun gate lowered => Ends.bind (calm gate lowered) fun value after lowered => further value after lowered

theorem Calm.read {rest : κ → Query κ ω β} (calm : (rest store).Calm blame store) :
    (MonadReaderOf.read >>= rest : Query κ ω β).Calm blame store := calm

theorem Calm.lifted {value : γ} {rest : γ → Query κ ω β} (calm : (rest value).Calm blame store) :
    ((liftM (.ok value : Except Fault γ) : Query κ ω γ) >>= rest).Calm blame store := calm

theorem calm_allM {items : List γ} {asks : γ → Query κ ω Bool} (calm : ∀ item, (asks item).Calm blame store) :
    (items.allM asks).Calm blame store := by
  induction items with
  | nil => exact calm_pure true
  | cons item items ih =>
    refine (calm item).bind fun answer => ?_
    cases answer with
    | false => exact calm_pure false
    | true => exact ih

theorem Calm.asks {s : Session κ ω} (calm : real.Calm blame s.store) (lowered : s.gate.busy = false) :
    Ends (Update.ask real) s (fun _ after => after.store = s.store ∧ after.gate.busy = false)
      fun fault after => blame fault ∧ after.store = s.store ∧ after.gate.busy = false := by
  rw [Update.ends_ask]
  refine (calm s.gate lowered).imp ?_ ?_
  · exact fun _ after lowered => ⟨rfl, lowered⟩
  · exact fun fault after told => ⟨told.1, rfl, told.2⟩

end Query

-- A rule that answers like a pure one, if it answers.
structure HashRule.Follows (blame : Fault → Prop) (rule : HashRule κ ω α) (r : PureHash α) : Prop where
  hash : ∀ value, (rule.hash value).Follows blame (pure (r.hash value))
  equal : ∀ a b, (rule.equal a b).Follows blame (pure (r.equal a b))

def OrderRule.Follows (blame : Fault → Prop) (rule : OrderRule κ ω α) (r : PureOrder α) : Prop :=
  ∀ a b, (rule.compare a b).Follows blame (pure (r.compare a b))

def Probe.Follows (blame : Fault → Prop) (probe : Probe κ ω α) (f : α → Ordering) : Prop :=
  ∀ value, (probe.order value).Follows blame (pure (f value))

open Query

theorem PureHash.rule_follows (r : PureHash α) : (r.rule : HashRule κ ω α).Follows blame r :=
  ⟨fun _ => follows_pure _, fun _ _ => follows_pure _⟩

theorem PureOrder.rule_follows (r : PureOrder α) : (r.rule : OrderRule κ ω α).Follows blame r :=
  fun _ _ => follows_pure _

theorem HashRule.Follows.alike {rule : HashRule κ ω α} {r : PureHash α} (follows : rule.Follows blame r) :
    rule.Alike (Query.Follows blame) r.rule := ⟨follows.hash, follows.equal⟩

theorem HashRule.Follows.onKeys {rule : HashRule κ ω α} {r : PureHash α} (follows : rule.Follows blame r) :
    (rule.onKeys : HashRule κ ω (Entry α ν)).Follows blame r.onKeys :=
  ⟨fun entry => follows.hash entry.key, fun a b => follows.equal a.key b.key⟩

theorem OrderRule.Follows.onKeys {rule : OrderRule κ ω α} {r : PureOrder α} (follows : rule.Follows blame r) :
    (rule.onKeys : OrderRule κ ω (Entry α ν)).Follows blame r.onKeys :=
  fun a b => follows a.key b.key

theorem OrderRule.Follows.probe {rule : OrderRule κ ω α} {r : PureOrder α} (follows : rule.Follows blame r) (value : α) :
    (rule.probe value).Follows blame (r.compare · value) := fun stored => follows stored value

end Slotted
