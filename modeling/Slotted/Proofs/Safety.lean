import Slotted.Datum.World
import Slotted.Proofs.HashMap.Resilience
import Slotted.Proofs.TreeMap.Resilience
import Slotted.Proofs.Reached
namespace Slotted

variable {α κ ν ω β γ : Type}

-- Raised by code of the callers.
def Raised (fault : Fault) : Prop := ∃ message, fault = .caller message

-- The numbers of a pool stay within their limits, and what is live holds a value.
structure Pool.InBounds {μ : Type} (p : Pool α μ) : Prop where
  counted : p.count ≤ p.next - 1
  allotted : p.next ≤ max p.capacity 1
  limited : p.capacity ≤ maxCapacity + 1
  numbered : p.slots.size < 2 ^ 32
  filled : ∀ i, p.isActive i = true → ∃ value, p.get? i = some value

theorem Store.Sound.inBounds {ι μ : Type} [Inhabited μ] [Index ι μ] [lawful : LawfulIndex ι μ] {t : lawful.Shape}
    {s : Store ι α μ} (sound : Sound t s) : s.pool.InBounds := by
  have fewer := sound.count_lt
  have fits := sound.tidy.fits
  have limit := sound.tidy.limit
  refine ⟨by omega, ?_, limit, ?_, sound.tidy.filled⟩
  · rw [Pool.next]
    omega
  · rw [maxCapacity] at limit
    omega

open Store Session

-- In this state all numbers are in bounds, and the faults of the next action, of filling the container from an array and
-- of comparing it with its like are documented ones.
structure Sheltered {ι μ δ : Type} (act : γ → Update (Store ι α μ) ω β) (fair : γ → Prop) (mayFault : γ → Fault → Prop)
    (ofArray : List δ → Update (Store ι α μ) ω Unit) (collecting inserting : Container)
    (like : Session (Store ι α μ) ω → Prop) (same : Store ι α μ → Query (Store ι α μ) ω Bool)
    (s : Session (Store ι α μ) ω) : Prop where
  inBounds : s.store.pool.InBounds
  acts : ∀ action fault after, fair action → act action s = .error fault after → Raised fault ∨ mayFault action fault
  collects : ∀ values fault after, ofArray values s = .error fault after →
    ∃ error, fault = .growth collecting .ofArray error ∨ fault = .growth inserting .insert error
  compares : ∀ other, like other → ∀ fault after, Update.ask (same other.store) s ≠ .error fault after

section Sheltered

variable {ι μ : Type} [Inhabited μ] [Index ι μ] [lawful : LawfulIndex ι μ] [Allocator ω]
  {s after : Session (Store ι α μ) ω} {fault : Fault}

theorem ofArray_faults {access : Access ι α μ ω} {inserting : Container}
    (resilient : access.Resilient (fun _ => False) unpromised inserting) (settled : Settled unpromised s)
    (collecting : Container) (values : List α) (ran : (do
        if let .error error := ← Store.reserve values.length then throw (.growth collecting .ofArray error)
        values.forM fun value => do let _ ← access.insert value : Update (Store ι α μ) ω Unit) s = .error fault after) :
    ∃ error, fault = .growth collecting .ofArray error ∨ fault = .growth inserting .insert error := by
  have told := (Access.ofArray_resilient resilient collecting values settled).faulted ran
  rcases told.1 with none | ⟨error, collects⟩ | ⟨error, inserts⟩
  · exact none.elim
  · exact ⟨error, .inl collects⟩
  · exact ⟨error, .inr inserts⟩

omit [Allocator ω] in
theorem calm_never_faults {query : Query (Store ι α μ) ω Bool} (settled : Settled unpromised s)
    (calm : query.Calm (fun _ => False) s.store) : Update.ask query s ≠ .error fault after :=
  fun ran => ((calm.asks settled.lowered).faulted ran).1

end Sheltered

variable [Allocator ω]

theorem HashSet.reached_settled {r : PureHash α} {s : Session (HashSet α) ω}
    (reached : HashSet.Reached (HashSet.act r.rule) (·.Fair Raised) s) : Settled unpromised s := by
  refine reached.keeps (fun start sound lowered => ⟨⟨_, sound, trivial⟩, lowered⟩) ?_
  intro action fair s settled
  exact perform_keeps ((HashSet.act_settles action fair settled).faulting fun _ _ told => told.2)

theorem HashMap.reached_settled {r : PureHash κ} {s : Session (HashMap κ ν) ω}
    (reached : HashSet.Reached (HashMap.act r.rule) (·.Fair Raised) s) : Settled unpromised s := by
  refine reached.keeps (fun start sound lowered => ⟨⟨_, sound, trivial⟩, lowered⟩) ?_
  intro action fair s settled
  exact perform_keeps ((HashMap.act_settles action fair settled).faulting fun _ _ told => told.2)

theorem TreeSet.reached_settled {rule : OrderRule (TreeSet α) ω α} {r : PureOrder α} {blame : Fault → Prop}
    {s : Session (TreeSet α) ω} (follows : rule.Follows blame r)
    (reached : TreeSet.Reached (TreeSet.act rule) (·.Fair blame) s) : Settled unpromised s := by
  refine reached.keeps (fun start sound lowered => ⟨⟨_, sound, trivial⟩, lowered⟩) ?_
  intro action fair s settled
  exact perform_keeps ((TreeSet.act_settles follows action fair settled).faulting fun _ _ told => told.2)

theorem TreeMap.reached_settled {rule : OrderRule (TreeMap κ ν) ω κ} {r : PureOrder κ} {blame : Fault → Prop}
    {s : Session (TreeMap κ ν) ω} (follows : rule.Follows blame r)
    (reached : TreeSet.Reached (TreeMap.act rule) (·.Fair blame) s) : Settled unpromised s := by
  refine reached.keeps (fun start sound lowered => ⟨⟨_, sound, trivial⟩, lowered⟩) ?_
  intro action fair s settled
  exact perform_keeps ((TreeMap.act_settles follows action fair settled).faulting fun _ _ told => told.2)

theorem HashSet.sheltered (r : PureHash α) {s : Session (HashSet α) ω} (settled : Settled unpromised s) :
    Sheltered (HashSet.act r.rule) (·.Fair Raised) (·.MayFault r) (HashSet.ofArray r.rule .hashSet) .hashSet .hashSet
      (HashSet.Reached (HashSet.act r.rule) (·.Fair Raised)) (HashSet.sameElements · r.rule) s where
  inBounds := by
    obtain ⟨order, proper⟩ := settled.proper
    exact proper.sound.inBounds
  acts action _ _ fair ran := ((HashSet.act_settles action fair settled).faulted ran).1
  collects values _ _ ran :=
    ofArray_faults (HashSet.access_resilient r.rule_follows (HashSet.welcomes_unpromised r)) settled .hashSet values ran
  compares other _ _ _ := calm_never_faults settled (HashSet.sameElements_calm r.rule_follows settled other.store)

theorem HashMap.sheltered (r : PureHash κ) (sameValue : ν → ν → Bool) {s : Session (HashMap κ ν) ω}
    (settled : Settled unpromised s) :
    Sheltered (HashMap.act r.rule) (·.Fair Raised) HashMapAction.MayFault (HashMap.ofArray r.rule) .hashMap .hashSet
      (HashSet.Reached (HashMap.act r.rule) (·.Fair Raised)) (HashMap.sameEntries r.rule sameValue) s where
  inBounds := by
    obtain ⟨order, proper⟩ := settled.proper
    exact proper.sound.inBounds
  acts action _ _ fair ran := ((HashMap.act_settles action fair settled).faulted ran).1
  collects pairs _ _ ran := ofArray_faults (HashSet.access_resilient r.onKeys.rule_follows
    (HashSet.welcomes_unpromised r.onKeys)) settled .hashMap (pairs.map Entry.ofPair) ran
  compares other _ _ _ := calm_never_faults settled (HashMap.sameEntries_calm r.rule_follows settled sameValue other.store)

theorem TreeSet.sheltered (r : PureOrder α) {s : Session (TreeSet α) ω} (settled : Settled unpromised s) :
    Sheltered (TreeSet.act r.rule) (·.Fair Raised) TreeSetAction.MayFault (TreeSet.ofArray r.rule .treeSet) .treeSet .treeSet
      (TreeSet.Reached (TreeSet.act r.rule) (·.Fair Raised)) (TreeSet.sameElements r.rule) s where
  inBounds := by
    obtain ⟨t, proper⟩ := settled.proper
    exact proper.sound.inBounds
  acts action _ _ fair ran := ((TreeSet.act_settles r.rule_follows action fair settled).faulted ran).1
  collects values _ _ ran :=
    ofArray_faults (TreeSet.access_resilient r.rule_follows (TreeSet.welcomes_unpromised r)) settled .treeSet values ran
  compares other reached _ _ := by
    obtain ⟨t, proper⟩ := (TreeSet.reached_settled r.rule_follows reached).proper
    refine calm_never_faults settled (TreeSet.sameElementsBy_calm (fun a b => ?_) settled proper.sound)
    exact Query.careful_pure _

theorem TreeMap.sheltered (r : PureOrder κ) (sameValue : ν → ν → Bool) {s : Session (TreeMap κ ν) ω}
    (settled : Settled unpromised s) :
    Sheltered (TreeMap.act r.rule) (·.Fair Raised) TreeMapAction.MayFault (TreeMap.ofArray r.rule) .treeMap .treeSet
      (TreeSet.Reached (TreeMap.act r.rule) (·.Fair Raised)) (TreeMap.sameEntries r.rule sameValue) s where
  inBounds := by
    obtain ⟨t, proper⟩ := settled.proper
    exact proper.sound.inBounds
  acts action _ _ fair ran := ((TreeMap.act_settles r.rule_follows action fair settled).faulted ran).1
  collects pairs _ _ ran := ofArray_faults (TreeSet.access_resilient r.onKeys.rule_follows
    (TreeSet.welcomes_unpromised r.onKeys)) settled .treeMap (pairs.map Entry.ofPair) ran
  compares other reached _ _ := by
    obtain ⟨t, proper⟩ := (TreeMap.reached_settled r.rule_follows reached).proper
    refine calm_never_faults settled (TreeSet.sameElementsBy_calm (fun a b => ?_) settled proper.sound)
    refine (Query.careful_pure (r.compare a.key b.key)).bind fun answer => ?_
    split <;> exact Query.careful_pure _

-- Under any pure rule and after any history, callers' faults and refusals of memory among it, the container is in good
-- order, and so is a container that cannot be given the room it is asked to start with.
theorem faults_are_documented :
    (∀ (r : PureHash α) (s : Session (HashSet α) ω), HashSet.Reached (HashSet.act r.rule) (·.Fair Raised) s →
      Sheltered (HashSet.act r.rule) (·.Fair Raised) (·.MayFault r) (HashSet.ofArray r.rule .hashSet) .hashSet .hashSet
        (HashSet.Reached (HashSet.act r.rule) (·.Fair Raised)) (HashSet.sameElements · r.rule) s) ∧
    (∀ (r : PureHash κ) (sameValue : ν → ν → Bool) (s : Session (HashMap κ ν) ω),
      HashSet.Reached (HashMap.act r.rule) (·.Fair Raised) s →
      Sheltered (HashMap.act r.rule) (·.Fair Raised) HashMapAction.MayFault (HashMap.ofArray r.rule) .hashMap .hashSet
        (HashSet.Reached (HashMap.act r.rule) (·.Fair Raised)) (HashMap.sameEntries r.rule sameValue) s) ∧
    (∀ (r : PureOrder α) (s : Session (TreeSet α) ω), TreeSet.Reached (TreeSet.act r.rule) (·.Fair Raised) s →
      Sheltered (TreeSet.act r.rule) (·.Fair Raised) TreeSetAction.MayFault (TreeSet.ofArray r.rule .treeSet) .treeSet .treeSet
        (TreeSet.Reached (TreeSet.act r.rule) (·.Fair Raised)) (TreeSet.sameElements r.rule) s) ∧
    (∀ (r : PureOrder κ) (sameValue : ν → ν → Bool) (s : Session (TreeMap κ ν) ω),
      TreeSet.Reached (TreeMap.act r.rule) (·.Fair Raised) s →
      Sheltered (TreeMap.act r.rule) (·.Fair Raised) TreeMapAction.MayFault (TreeMap.ofArray r.rule) .treeMap .treeSet
        (TreeSet.Reached (TreeMap.act r.rule) (·.Fair Raised)) (TreeMap.sameEntries r.rule sameValue) s) ∧
    (∀ capacity (origin : Session (HashSet α) ω) fault after, HashSet.withCapacity capacity origin = .error fault after →
      ∃ error, fault = .growth .hashSet .withCapacity error) ∧
    ∀ capacity (origin : Session (TreeSet α) ω) fault after, TreeSet.withCapacity capacity origin = .error fault after →
      ∃ error, fault = .growth .treeSet .withCapacity error := by
  refine ⟨?_, ?_, ?_, ?_, ?_, ?_⟩
  · exact fun r s reached => HashSet.sheltered r (HashSet.reached_settled reached)
  · exact fun r sameValue s reached => HashMap.sheltered r sameValue (HashMap.reached_settled reached)
  · exact fun r s reached => TreeSet.sheltered r (TreeSet.reached_settled r.rule_follows reached)
  · exact fun r sameValue s reached => TreeMap.sheltered r sameValue (TreeMap.reached_settled r.rule_follows reached)
  · intro capacity origin fault after ran
    have told : Ends (HashSet.withCapacity capacity) origin (fun _ _ => True)
        fun fault _ => ∃ error, fault = .growth .hashSet .withCapacity error := by
      refine Returns.bind (HashSet.configure_returns (HashConfig.withCapacity capacity) origin) ?_
      intro answer after _
      cases answer with
      | error error => exact ⟨error, rfl⟩
      | ok _ => trivial
    exact told.faulted ran
  · intro capacity origin fault after ran
    have told : Ends (TreeSet.withCapacity capacity) origin (fun _ _ => True)
        fun fault _ => ∃ error, fault = .growth .treeSet .withCapacity error := by
      refine Returns.bind (TreeSet.configure_returns (TreeConfig.withCapacity capacity) origin) ?_
      intro answer after _
      cases answer with
      | error error => exact ⟨error, rfl⟩
      | ok _ => trivial
    exact told.faulted ran

-- A rule that is no equivalence and one that is no order. An element has been changed in place; one is built under the hash
-- of another, and a key is looked up that is not there.
theorem faults_are_documented_of_numbers :
    let r : PureHash Nat := ⟨fun n => UInt32.ofNat n, fun _ _ => false⟩
    let order : PureOrder Nat := ⟨fun _ _ => .lt⟩
    let chained : Session (HashSet Nat) World := ⟨⟨⟨#[.sentinel], 5, 0⟩, ⟨#[0, 0, 0], 60⟩⟩, false, World.fresh⟩
    let sorted : Session (TreeMap Nat Nat) World := ⟨⟨⟨#[.sentinel], 5, 0⟩, ⟨0⟩⟩, false, World.fresh⟩
    let s := performed (HashSet.act r.rule) [.common (.extend [3, 6, 3]), .common (.change ⟨2, Nat.two_pos⟩ (· + 1))] chained
    let m := performed (TreeMap.act order.rule) [.common (.entries (.extend [⟨3, 1⟩, ⟨6, 2⟩, ⟨3, 4⟩]))] sorted
    let building : HashSetAction Nat World := .insertWith 1 (fun _ => pure false) (pure 3)
    let missing : TreeMapAction Nat Nat World := .common (.index 5)
    s.store.pool.InBounds ∧
      (∃ fault after, HashSet.act r.rule building s = .error fault after ∧ (Raised fault ∨ building.MayFault r fault)) ∧
      ∃ fault after, TreeMap.act order.rule missing m = .error fault after ∧ (Raised fault ∨ missing.MayFault fault) := by
  intro r order chained sorted s m building missing
  have chains : HashSet.Reached (HashSet.act r.rule) (·.Fair Raised) s := by
    refine ⟨⟨4, 60⟩, ⟨HashSet.empty 0, false, World.fresh⟩, chained, _, rfl, ?_, ?_, rfl⟩
    · with_unfolding_all rfl
    · intro action member
      simp only [List.mem_cons, List.not_mem_nil, or_false] at member
      rcases member with rfl | rfl
      · trivial
      · trivial
  have grows : TreeSet.Reached (TreeMap.act order.rule) (·.Fair Raised) m := by
    refine ⟨⟨4⟩, ⟨TreeSet.empty, false, World.fresh⟩, sorted, _, rfl, rfl, ?_, rfl⟩
    intro action member
    cases List.mem_singleton.mp member
    trivial
  have documented := faults_are_documented (α := Nat) (κ := Nat) (ν := Nat) (ω := World)
  have hashes := documented.1 r s chains
  have sorts := documented.2.2.2.1 order (fun a b => a == b) m grows
  refine ⟨hashes.inBounds, ?_, ?_⟩
  · have fair : building.Fair Raised := ⟨⟨fun _ => false, fun _ => Query.follows_pure _⟩, Query.careful_pure _⟩
    have fails : (s.perform (HashSet.act r.rule building)).1.isOk = false := by decide +kernel
    obtain ⟨fault, after, ran⟩ := faulted_of_perform fails
    exact ⟨fault, after, ran, hashes.acts _ _ _ fair ran⟩
  · have fails : (m.perform (TreeMap.act order.rule missing)).1.isOk = false := by decide +kernel
    obtain ⟨fault, after, ran⟩ := faulted_of_perform fails
    exact ⟨fault, after, ran, sorts.acts _ _ _ trivial ran⟩

end Slotted
