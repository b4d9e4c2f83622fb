import Slotted.Proofs.Action.History
import Slotted.Proofs.HashSet.Mirror
import Slotted.Proofs.TreeSet.Mirror
namespace Slotted

open Store Session

variable {α ω ω' : Type} [Allocator ω] [Allocator ω']

-- A failed growth names the container that it befell.
def Fault.under (name : Container) : Fault → Fault
  | .growth _ call error => .growth name call error
  | fault => fault

-- Sizes, and what each handle resolves to, are all the same.
structure Twins {ι κ μ ν : Type} (s : Store ι α μ) (t : Store κ α ν) : Prop where
  len : s.len = t.len
  capacity : s.capacity = t.capacity
  held : ∀ h, s.get? h = t.get? h

omit [Allocator ω] [Allocator ω'] in
theorem Twins.of_bare {ι κ μ ν : Type} {s : Store ι α μ} {t : Store κ α ν} (same : s.bare = t.bare) : Twins s t := by
  refine ⟨?_, ?_, fun h => ?_⟩
  · rw [← len_bare, same, len_bare]
  · rw [← room_bare, same, room_bare]
  · rw [← get?_bare, same, get?_bare]

theorem BareSet.configure_forgets {capacity : Nat} {s s' t t' : Session (BareSet α) ω}
    (configured : configure capacity s = .ok (.ok ()) t) (configured' : configure capacity s' = .ok (.ok ()) t')
    (gate : s.gate = s'.gate) : t = t' := by
  have same : configure capacity s = configure capacity s' := by
    unfold configure at configured ⊢
    by_cases exceeds : maxCapacity < capacity
    · rw [if_pos exceeds] at configured
      cases configured
    · rw [if_neg exceeds]
      change (if capacity = 0 then _ else _ : Update (BareSet α) ω _) ⟨empty, s.gate⟩ = _
      rw [gate]
      rfl
  cases configured.symm.trans (same.trans configured')
  rfl

theorem begin_views {ι μ : Type} [Inhabited μ] [Index ι μ] [LawfulIndex ι μ] [LinkingIndex ι μ] (generous : Generous ω)
    {nothing : Store ι α μ} (bare : nothing.bare = BareSet.empty) (capacity : Nat) (s : Session (Store ι α μ) ω) :
    Views Session.bare (do
        modify fun session => { session with store := nothing }
        if capacity = 0 then return .ok ()
        Store.resizeSlots (capacity + 1))
      (do
        modify fun session => { session with store := BareSet.empty }
        if capacity = 0 then return .ok ()
        Store.resizeSlots (capacity + 1)) s := by
  refine Views.bind (Views.modifying ?_) fun _ after _ => ?_
  · rw [Session.bare, Session.bare, bare]
  · split
    · exact Views.pure rfl
    · exact resizeSlots_views generous _ after

namespace HashSet

theorem configure_views (generous : Generous ω) (config : HashConfig) (s : Session (HashSet α) ω) :
    Views Session.bare (configure config) (BareSet.configure config.capacity) s := by
  unfold configure BareSet.configure HashConfig.validated
  by_cases exceeds : maxCapacity < config.capacity
  · rw [if_pos exceeds, if_pos exceeds]
    exact Views.pure rfl
  · rw [if_neg exceeds, if_neg exceeds]
    refine begin_views generous ?_ config.capacity s
    rw [Store.bare, empty, Pool.empty_bare, BareSet.empty]

theorem configure_settled {r : PureHash α} {config : HashConfig} {origin start : Session (HashSet α) ω}
    (lowered : origin.gate.busy = false) (configured : configure config origin = .ok (.ok ()) start) :
    Settled (Distinct r) start := by
  obtain ⟨sound, gate⟩ := (configure_returns config origin).returned configured rfl
  exact ⟨⟨[], sound, fun _ none => absurd none List.not_mem_nil, .nil⟩, gate.trans lowered⟩

theorem history_bare {r : PureHash α} {s : Session (HashSet α) ω} (lawful : r.Lawful) (generous : Generous ω)
    (settled : Settled (Distinct r) s) {actions : List (SetAction α)} (shared : ∀ action ∈ actions, action.Shared) :
    performAll (BareSet.access .treeSet r.equal).run actions s.bare =
      ((performAll (fun action => act r.rule (.common action)) actions s).1.map (·.mapError (Fault.under .treeSet)),
        (performed (fun action => act r.rule (.common action)) actions s).bare) :=
  Access.performAll_mirrors (access_exact lawful) (access_mirrored lawful generous fun _ => rfl) generous actions shared
    settled

end HashSet

namespace TreeSet

theorem configure_views (generous : Generous ω) (config : TreeConfig) (s : Session (TreeSet α) ω) :
    Views Session.bare (configure config) (BareSet.configure config.capacity) s := by
  unfold configure BareSet.configure TreeConfig.validated
  by_cases exceeds : maxCapacity < config.capacity
  · rw [if_pos exceeds, if_pos exceeds]
    exact Views.pure rfl
  · rw [if_neg exceeds, if_neg exceeds]
    refine begin_views generous ?_ config.capacity s
    rw [Store.bare, empty, Pool.empty_bare, BareSet.empty]

theorem configure_settled {c : PureOrder α} {config : TreeConfig} {origin start : Session (TreeSet α) ω}
    (lowered : origin.gate.busy = false) (configured : configure config origin = .ok (.ok ()) start) :
    Settled (Ascending c) start := by
  obtain ⟨sound, gate⟩ := (configure_returns config origin).returned configured rfl
  exact ⟨⟨.nil, sound, .nil⟩, gate.trans lowered⟩

theorem history_bare {c : PureOrder α} {same : α → α → Bool} {s : Session (TreeSet α) ω} (lawful : c.Lawful)
    (alike : ∀ a b, same a b = true ↔ c.compare a b = .eq) (generous : Generous ω) (settled : Settled (Ascending c) s)
    {actions : List (SetAction α)} (shared : ∀ action ∈ actions, action.Shared) :
    performAll (BareSet.access .treeSet same).run actions s.bare =
      ((performAll (fun action => act c.rule (.common action)) actions s).1,
        (performed (fun action => act c.rule (.common action)) actions s).bare) := by
  have mirrored : (access (ω := ω) c.rule).Mirrored (Ascending c) id .treeSet same :=
    access_mirrored lawful alike generous fun _ => rfl
  have mirrors := Access.performAll_mirrors (access_exactly lawful alike) mirrored generous actions shared settled
  rw [answers_unrenamed] at mirrors
  exact mirrors

end TreeSet

-- From empty, by whatever both can do: as long as memory is granted, every answer is the same, and after every step so are
-- the sizes and the element under every handle. The one fault there is, an insertion beyond all limits, names its container.
theorem sets_are_one_machine (r : PureHash α) (c : PureOrder α) (hashing : r.Lawful) (ordering : c.Lawful)
    (alike : ∀ a b, r.equal a b = true ↔ c.compare a b = .eq) (generous : Generous ω) (generous' : Generous ω')
    (capacity loadFactor : Nat) (origin start : Session (HashSet α) ω) (origin' start' : Session (TreeSet α) ω')
    (lowered : origin.gate.busy = false) (lowered' : origin'.gate.busy = false)
    (configured : HashSet.configure ⟨capacity, loadFactor⟩ origin = .ok (.ok ()) start)
    (configured' : TreeSet.configure ⟨capacity⟩ origin' = .ok (.ok ()) start')
    (actions : List (SetAction α)) (shared : ∀ action ∈ actions, action.Shared) :
    let hashed := fun action => HashSet.act r.rule (.common action)
    let sorted := fun action => TreeSet.act c.rule (.common action)
    (performAll hashed actions start).1.map (·.mapError (Fault.under .treeSet)) = (performAll sorted actions start').1 ∧
      (∀ fault, .error fault ∈ (performAll hashed actions start).1 → ∃ error, fault = .growth .hashSet .insert error) ∧
      ∀ n, Twins (performed hashed (actions.take n) start).store (performed sorted (actions.take n) start').store := by
  intro hashed sorted
  have settled : Settled (HashSet.Distinct r) start := HashSet.configure_settled lowered configured
  have settled' : Settled (TreeSet.Ascending c) start' := TreeSet.configure_settled lowered' configured'
  have first : start.bare = start'.bare := BareSet.configure_forgets
    ((HashSet.configure_views generous _ origin).returned configured)
    ((TreeSet.configure_views generous' _ origin').returned configured') rfl
  have common : ∀ actions : List (SetAction α), (∀ action ∈ actions, action.Shared) →
      (performAll hashed actions start).1.map (·.mapError (Fault.under .treeSet)) = (performAll sorted actions start').1 ∧
        (performed hashed actions start).bare = (performed sorted actions start').bare := by
    intro actions shared
    have mirrored := HashSet.history_bare hashing generous settled shared
    have mirrored' := TreeSet.history_bare ordering alike generous' settled' shared
    exact Prod.mk.inj (mirrored.symm.trans (first ▸ mirrored'))
  refine ⟨(common actions shared).1, fun fault failed => ?_, fun n => ?_⟩
  · exact Access.performAll_blames (HashSet.access_exact hashing) actions shared settled failed
  · have before := (common (actions.take n) fun action member => shared action (List.mem_of_mem_take member)).2
    exact Twins.of_bare (congrArg Session.store before)

-- Numbers in colliding buckets and in their own order: slots are vacated and run out, and handles are renumbered.
theorem sets_are_one_machine_of_numbers :
    let r : PureHash Nat := ⟨fun n => UInt32.ofNat (n % 3), fun a b => a == b⟩
    let c : PureOrder Nat := ⟨compare⟩
    let origin : Session (HashSet Nat) Boundless := ⟨HashSet.empty 0, false, ⟨⟩⟩
    let origin' : Session (TreeSet Nat) Boundless := ⟨TreeSet.empty, false, ⟨⟩⟩
    let start : Session (HashSet Nat) Boundless := ⟨⟨⟨#[.sentinel], 5, 0⟩, ⟨#[0, 0, 0], 60⟩⟩, false, ⟨⟩⟩
    let start' : Session (TreeSet Nat) Boundless := ⟨⟨⟨#[.sentinel], 5, 0⟩, ⟨0⟩⟩, false, ⟨⟩⟩
    let actions : List (SetAction Nat) := [.extend [6, 3, 9], .tryInsert 3, .extract ⟨1, Nat.one_pos⟩ (· + 1) .reinsert,
      .remove ⟨2, Nat.two_pos⟩, .insert 12, .insert 15, .resize 2, .reorder, .reserve 6, .take 9, .clear]
    let hashed := fun action => HashSet.act r.rule (.common action)
    let sorted := fun action => TreeSet.act c.rule (.common action)
    r.Lawful ∧ c.Lawful ∧ (∀ a b, r.equal a b = true ↔ c.compare a b = .eq) ∧ Generous Boundless ∧
      HashSet.configure ⟨4, 60⟩ origin = .ok (.ok ()) start ∧ TreeSet.configure ⟨4⟩ origin' = .ok (.ok ()) start' ∧
      (performAll hashed actions start).1.map (·.mapError (Fault.under .treeSet)) = (performAll sorted actions start').1 ∧
      Twins (performed hashed (actions.take 6) start).store (performed sorted (actions.take 6) start').store := by
  intro r c origin origin' start start' actions hashed sorted
  have hashing : r.Lawful := by
    refine ⟨?_, ?_, ?_, ?_⟩ <;> simp +contextual [r]
  have alike : ∀ a b, r.equal a b = true ↔ c.compare a b = .eq :=
    fun a b => beq_iff_eq.trans Nat.compare_eq_eq.symm
  have configured : HashSet.configure ⟨4, 60⟩ origin = .ok (.ok ()) start := by with_unfolding_all rfl
  have configured' : TreeSet.configure ⟨4⟩ origin' = .ok (.ok ()) start' := rfl
  have shared : ∀ action ∈ actions, action.Shared := by
    intro action member
    simp only [actions, List.mem_cons, List.not_mem_nil, or_false] at member
    rcases member with rfl | rfl | rfl | rfl | rfl | rfl | rfl | rfl | rfl | rfl | rfl <;> trivial
  have told := sets_are_one_machine r c hashing PureOrder.lawful_numbers alike Boundless.generous Boundless.generous 4 60
    origin start origin' start' rfl rfl configured configured' actions shared
  exact ⟨hashing, PureOrder.lawful_numbers, alike, Boundless.generous, configured, configured', told.1, told.2.2 6⟩

end Slotted
