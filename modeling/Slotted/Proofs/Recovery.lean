import Slotted.Datum.World
import Slotted.Proofs.HashMap.Resilience
import Slotted.Proofs.HashSet.Passed
import Slotted.Proofs.Reached
import Slotted.Proofs.TreeMap.Resilience
import Slotted.Proofs.TreeSet.Passed
namespace Slotted

open Store Session

variable {α κ ν ω : Type}

def anyFault : Fault → Prop := fun _ => True

-- Every action that a fault ends costs no more than it may, and so does filling the container from an array. A broken-off
-- comparison with another container costs nothing.
structure Recovers {ι μ β γ δ : Type} [Inhabited μ] [Index ι μ] [Allocator ω] (act : γ → Update (Store ι α μ) ω β)
    (fair : γ → Prop) (costs : Session (Store ι α μ) ω → Fault → γ → Prop) (access : Access ι α μ ω)
    (valid : Session (Store ι α μ) ω → Prop) (entry : δ → α) (ofArray : List δ → Update (Store ι α μ) ω Unit)
    (like : Session (Store ι α μ) ω → Prop) (same : Store ι α μ → Query (Store ι α μ) ω Bool)
    (s : Session (Store ι α μ) ω) : Prop where
  acts : ∀ action fault after, fair action → act action s = .error fault after → costs after fault action
  collects : ∀ values fault after, ofArray values s = .error fault after → ∃ answer middle,
    Store.reserve values.length s = .ok answer middle ∧ Spared valid s middle ∧
      (after = middle ∨ access.Costs valid middle after fault (.extend (values.map entry)))
  compares : ∀ other, like other → ∀ fault after, Update.ask (same other.store) s = .error fault after → Spared valid s after

-- A broken-off rehash moves nothing, and one that comes to its end afterwards makes up for it.
def HashSet.Rehashable (r : PureHash α) (rule : HashRule (HashSet α) ω α) (s : Session (HashSet α) ω) : Prop :=
  ∀ fault broken, HashSet.rehash rule s = .error fault broken →
    broken.store.pool.entries = s.store.pool.entries ∧ broken.store.len = s.store.len ∧
      broken.store.capacity = s.store.capacity ∧
      ∀ again : HashRule (HashSet α) ω α, again.Follows anyFault r → ∀ after, HashSet.rehash again broken = .ok () after →
        HashSet.Valid r after ∧ after.store.pool.entries = s.store.pool.entries

theorem HashSet.rehashable {r : PureHash α} {rule : HashRule (HashSet α) ω α} {s : Session (HashSet α) ω}
    (follows : rule.Follows anyFault r) (settled : Settled (HashSet.Fresh r) s) : HashSet.Rehashable r rule s := by
  intro fault broken ran
  obtain ⟨_, worn, lowered⟩ := (HashSet.rehash_resilient follows settled).faulted ran
  refine ⟨worn.bodies.entries_eq, worn.bodies.count, congrArg (· - 1) worn.bodies.capacity, ?_⟩
  intro again follows' after ended
  obtain ⟨⟨order, proper⟩, _⟩ := settled
  obtain ⟨rehashes, flag⟩ := (HashSet.rehash_follows follows' proper.sound worn).returned ended
  exact ⟨HashSet.valid_of_settled ⟨⟨order, rehashes.proper⟩, flag.trans lowered⟩, rehashes.bodies.entries_eq⟩

section Parts

variable {ι μ δ : Type} [Inhabited μ] [Index ι μ] [lawful : LawfulIndex ι μ] [Allocator ω]
  {promise : List (α × lawful.Memory) → Prop} {s after : Session (Store ι α μ) ω} {fault : Fault}

theorem ofArray_costs {access : Access ι α μ ω} {inserting : Container} {valid : Session (Store ι α μ) ω → Prop}
    (resilient : access.Resilient anyFault promise inserting) (settled : Settled promise s)
    (upright : ∀ after, Settled promise after → valid after) (collecting : Container) (values : List α) (ran : (do
        if let .error error := ← Store.reserve values.length then throw (.growth collecting .ofArray error)
        values.forM fun value => do let _ ← access.insert value : Update (Store ι α μ) ω Unit) s = .error fault after) :
    ∃ answer middle, Store.reserve values.length s = .ok answer middle ∧ Spared valid s middle ∧
      (after = middle ∨ access.Costs valid middle after fault (.extend values)) := by
  obtain ⟨_, answer, middle, reserved, spared, ends⟩ :=
    (Access.ofArray_resilient resilient collecting values settled).faulted ran
  exact ⟨answer, middle, reserved, spared.imp upright, ends.imp id (Access.Costs.imp upright)⟩

omit [Allocator ω] in
theorem comparison_costs {valid : Session (Store ι α μ) ω → Prop} {query : Query (Store ι α μ) ω Bool}
    (settled : Settled promise s) (upright : ∀ after, Settled promise after → valid after)
    (calm : query.Calm anyFault s.store) (ran : Update.ask query s = .error fault after) : Spared valid s after := by
  obtain ⟨_, same, lowered⟩ := (calm.asks settled.lowered).faulted ran
  exact (Spared.same settled same lowered).imp upright

end Parts

variable [Allocator ω]

-- Any containers of the kind may be compared with hash sets and maps; a tree is walked, so that it has to be valid itself.
abbrev HashSet.Endures (r : PureHash α) (rule : HashRule (HashSet α) ω α) (s : Session (HashSet α) ω) : Prop :=
  Recovers (HashSet.act rule) (·.Fair anyFault) (HashSet.Costs rule (HashSet.Valid r) s) (HashSet.access rule)
    (HashSet.Valid r) id (HashSet.ofArray rule .hashSet) (fun _ => True) (HashSet.sameElements · rule) s

abbrev HashMap.Endures (r : PureHash κ) (rule : HashRule (HashMap κ ν) ω κ) (sameValue : ν → ν → Bool)
    (s : Session (HashMap κ ν) ω) : Prop :=
  Recovers (HashMap.act rule) (·.Fair anyFault) (HashMap.Costs rule (HashSet.Valid r.onKeys) s) (HashMap.access rule).entries
    (HashSet.Valid r.onKeys) Entry.ofPair (HashMap.ofArray rule) (fun _ => True) (HashMap.sameEntries rule sameValue) s

abbrev TreeSet.Endures (r : PureOrder α) (rule : OrderRule (TreeSet α) ω α) (s : Session (TreeSet α) ω) : Prop :=
  Recovers (TreeSet.act rule) (·.Fair anyFault) (TreeSet.Costs rule (TreeSet.Valid r) s) (TreeSet.access rule)
    (TreeSet.Valid r) id (TreeSet.ofArray rule .treeSet)
    (fun other => TreeSet.Reached (TreeSet.act rule) (fun _ => True) other ∧ TreeSet.Valid r other)
    (TreeSet.sameElements rule) s

abbrev TreeMap.Endures (r : PureOrder κ) (rule : OrderRule (TreeMap κ ν) ω κ) (sameValue : ν → ν → Bool)
    (s : Session (TreeMap κ ν) ω) : Prop :=
  Recovers (TreeMap.act rule) (·.Fair anyFault) (TreeMap.Costs rule (TreeSet.Valid r.onKeys) s) (TreeMap.access rule).entries
    (TreeSet.Valid r.onKeys) Entry.ofPair (TreeMap.ofArray rule)
    (fun other => TreeSet.Reached (TreeMap.act rule) (fun _ => True) other ∧ TreeSet.Valid r.onKeys other)
    (TreeMap.sameEntries rule sameValue) s

theorem HashSet.endures {r : PureHash α} {rule : HashRule (HashSet α) ω α} {s : Session (HashSet α) ω}
    (follows : rule.Follows anyFault r) (settled : Settled (HashSet.Fresh r) s) :
    HashSet.Endures r rule s where
  acts action fault after fair ran := by
    have told := (HashSet.act_resilient follows (HashSet.welcomes_fresh r) action fair settled).faulted ran
    exact told.2.imp fun _ settled => HashSet.valid_of_settled settled
  collects values fault after ran := by
    rw [List.map_id]
    exact ofArray_costs (HashSet.access_resilient follows (HashSet.welcomes_fresh r)) settled
      (fun _ settled => HashSet.valid_of_settled settled) .hashSet values ran
  compares other _ fault after ran := comparison_costs settled (fun _ settled => HashSet.valid_of_settled settled)
    (HashSet.sameElements_calm follows settled other.store) ran

theorem HashMap.endures {r : PureHash κ} {rule : HashRule (HashMap κ ν) ω κ} {s : Session (HashMap κ ν) ω}
    (sameValue : ν → ν → Bool) (follows : rule.Follows anyFault r) (settled : Settled (HashSet.Fresh r.onKeys) s) :
    HashMap.Endures r rule sameValue s where
  acts action fault after fair ran := by
    have told := (HashMap.act_resilient follows (HashSet.welcomes_fresh r.onKeys) action fair settled).faulted ran
    exact told.2.imp fun _ settled => HashSet.valid_of_settled settled
  collects values fault after ran := by
    rw [← List.length_map Entry.ofPair]
    exact ofArray_costs (HashSet.access_resilient follows.onKeys (HashSet.welcomes_fresh r.onKeys)) settled
      (fun _ settled => HashSet.valid_of_settled settled) .hashMap (values.map Entry.ofPair) ran
  compares other _ fault after ran := comparison_costs settled (fun _ settled => HashSet.valid_of_settled settled)
    (HashMap.sameEntries_calm follows settled sameValue other.store) ran

theorem TreeSet.endures {r : PureOrder α} {rule : OrderRule (TreeSet α) ω α} {s : Session (TreeSet α) ω} (lawful : r.Lawful)
    (follows : rule.Follows anyFault r) (settled : Settled (TreeSet.Ascending r) s) :
    TreeSet.Endures r rule s where
  acts action fault after fair ran := by
    have told := (TreeSet.act_resilient follows (TreeSet.welcomes_ascending lawful) action fair settled).faulted ran
    exact told.2.imp fun _ settled => TreeSet.valid_of_settled lawful settled
  collects values fault after ran := by
    rw [List.map_id]
    exact ofArray_costs (TreeSet.access_resilient follows (TreeSet.welcomes_ascending lawful)) settled
      (fun _ settled => TreeSet.valid_of_settled lawful settled) .treeSet values ran
  compares other like fault after ran := by
    obtain ⟨t, proper⟩ := (like.2.settled lawful like.1.booked).proper
    refine comparison_costs settled (fun _ settled => TreeSet.valid_of_settled lawful settled)
      (TreeSet.sameElementsBy_calm (fun a b => ?_) settled proper.sound) ran
    exact (follows a b).careful.bind fun _ => Query.careful_pure _

theorem TreeMap.endures {r : PureOrder κ} {rule : OrderRule (TreeMap κ ν) ω κ} {s : Session (TreeMap κ ν) ω}
    (sameValue : ν → ν → Bool) (lawful : r.Lawful) (follows : rule.Follows anyFault r) (settled : Settled (TreeSet.Ascending r.onKeys) s) :
    TreeMap.Endures r rule sameValue s where
  acts action fault after fair ran := by
    have told := (TreeMap.act_resilient follows (TreeSet.welcomes_ascending lawful.onKeys) action fair settled).faulted ran
    exact told.2.imp fun _ settled => TreeSet.valid_of_settled lawful.onKeys settled
  collects values fault after ran := by
    rw [← List.length_map Entry.ofPair]
    exact ofArray_costs (TreeSet.access_resilient follows.onKeys (TreeSet.welcomes_ascending lawful.onKeys)) settled
      (fun _ settled => TreeSet.valid_of_settled lawful.onKeys settled) .treeMap (values.map Entry.ofPair) ran
  compares other like fault after ran := by
    obtain ⟨t, proper⟩ := (like.2.settled lawful.onKeys (TreeMap.reached_booked like.1)).proper
    refine comparison_costs settled (fun _ settled => TreeSet.valid_of_settled lawful.onKeys settled)
      (TreeSet.sameElementsBy_calm (fun a b => ?_) settled proper.sound) ran
    refine (follows a.key b.key).careful.bind fun answer => ?_
    split <;> exact Query.careful_pure _

-- However the state was come to, broken-off rehashes and rules that changed their minds among what led there: if it passes
-- its check now, no fault can make it fail the next one.
theorem faults_leave_valid :
    (∀ (r : PureHash α) (rule : HashRule (HashSet α) ω α) (s : Session (HashSet α) ω), rule.Follows anyFault r →
      HashSet.Reached (HashSet.act rule) (fun _ => True) s → HashSet.Valid r s →
      HashSet.Endures r rule s ∧ HashSet.Rehashable r rule s) ∧
    (∀ (r : PureHash κ) (rule : HashRule (HashMap κ ν) ω κ) (sameValue : ν → ν → Bool) (s : Session (HashMap κ ν) ω),
      rule.Follows anyFault r → HashSet.Reached (HashMap.act rule) (fun _ => True) s → HashSet.Valid r.onKeys s →
      HashMap.Endures r rule sameValue s ∧ HashSet.Rehashable r.onKeys rule.onKeys s) ∧
    (∀ (r : PureOrder α) (rule : OrderRule (TreeSet α) ω α) (s : Session (TreeSet α) ω), r.Lawful → rule.Follows anyFault r →
      TreeSet.Reached (TreeSet.act rule) (fun _ => True) s → TreeSet.Valid r s → TreeSet.Endures r rule s) ∧
    ∀ (r : PureOrder κ) (rule : OrderRule (TreeMap κ ν) ω κ) (sameValue : ν → ν → Bool) (s : Session (TreeMap κ ν) ω),
      r.Lawful → rule.Follows anyFault r → TreeSet.Reached (TreeMap.act rule) (fun _ => True) s →
      TreeSet.Valid r.onKeys s → TreeMap.Endures r rule sameValue s := by
  refine ⟨?_, ?_, ?_, ?_⟩
  · intro r rule s follows reached valid
    have settled := valid.settled reached.booked
    exact ⟨HashSet.endures follows settled, HashSet.rehashable follows settled⟩
  · intro r rule sameValue s follows reached valid
    have settled := valid.settled (HashMap.reached_booked reached)
    exact ⟨HashMap.endures sameValue follows settled, HashSet.rehashable follows.onKeys settled⟩
  · exact fun r rule s lawful follows reached valid => TreeSet.endures lawful follows (valid.settled lawful reached.booked)
  · exact fun r rule sameValue s lawful follows reached valid =>
      TreeMap.endures sameValue lawful follows (valid.settled lawful.onKeys (TreeMap.reached_booked reached))

-- Once a builder has failed, every call of these rules fails. An insertion into the set is broken off, and so is a rehash
-- that a tireless rule makes up for; an entry of the map is lost on its way back.
theorem faults_leave_valid_of_numbers :
    let r : PureHash Nat := ⟨fun n => UInt32.ofNat n, fun a b => a == b⟩
    let order : PureOrder Nat := ⟨compare⟩
    let rule : HashRule (HashSet Nat) World Nat :=
      ⟨fun n => do if (← World.look).built then throw (.caller "tired") else return r.hash n, fun a b => pure (r.equal a b)⟩
    let sorting : OrderRule (TreeMap Nat Nat) World Nat :=
      ⟨fun a b => do if (← World.look).built then throw (.caller "tired") else return order.compare a b⟩
    let chained : Session (HashSet Nat) World := ⟨⟨⟨#[.sentinel], 5, 0⟩, ⟨#[0, 0, 0], 60⟩⟩, false, World.fresh⟩
    let sorted : Session (TreeMap Nat Nat) World := ⟨⟨⟨#[.sentinel], 5, 0⟩, ⟨0⟩⟩, false, World.fresh⟩
    let s := performed (HashSet.act rule)
      [.common (.extend [3, 6, 9]), .insertWith 1 (fun _ => pure false) (World.builder none)] chained
    let m := performed (TreeMap.act sorting)
      [.common (.entries (.extend [⟨3, 1⟩, ⟨6, 2⟩])), .common (.fetch 7 (World.builder none) id)] sorted
    let h : Handle := ⟨2, Nat.two_pos⟩
    (∃ fault after, HashSet.act rule (.common (.insert 4)) s = .error fault after ∧ Spared (HashSet.Valid r) s after) ∧
      (∃ fault broken after, HashSet.rehash rule s = .error fault broken ∧ HashSet.rehash r.rule broken = .ok () after ∧
        HashSet.Valid r after) ∧
      ∃ fault after, TreeMap.act sorting (.common (.entries (.extract h id .reinsert))) m = .error fault after ∧
        Loses (TreeSet.Valid order.onKeys) h m after := by
  intro r order rule sorting chained sorted s m h
  have tiring : ∀ {σ β : Type} (value : β), Query.Follows anyFault
      (do if (← World.look).built then throw (.caller "tired") else return value : Query σ World β) (pure value) := by
    intro σ β value store gate given told left flags ran
    cases ran
    obtain ⟨busy, world⟩ := gate
    refine ⟨rfl, ?_⟩
    change Ends ((if world.built = true then throw (.caller "tired") else pure value : Query σ World β) store) ⟨busy, world⟩ _ _
    cases built : world.built with
    | true => exact Ends.of_error rfl ⟨trivial, rfl⟩
    | false => exact Ends.of_ok rfl ⟨rfl, rfl⟩
  have tires : rule.Follows anyFault r := ⟨fun n => tiring (r.hash n), fun _ _ => Query.follows_pure _⟩
  have sorts : sorting.Follows anyFault order := fun a b => tiring (order.compare a b)
  have lawful : order.Lawful := PureOrder.lawful_numbers
  have chains : HashSet.Reached (HashSet.act rule) (fun _ => True) s :=
    ⟨⟨4, 60⟩, ⟨HashSet.empty 0, false, World.fresh⟩, chained, _, rfl, by with_unfolding_all rfl, fun _ _ => trivial, rfl⟩
  have grows : TreeSet.Reached (TreeMap.act sorting) (fun _ => True) m :=
    ⟨⟨4⟩, ⟨TreeSet.empty, false, World.fresh⟩, sorted, _, rfl, rfl, fun _ _ => trivial, rfl⟩
  have valid : HashSet.Valid r s := by
    have passed : (HashSet.check r.rule s.store).run' s.gate = some (.ok ()) := by decide +kernel
    obtain ⟨left, ran⟩ := ran_of_run' passed
    exact HashSet.valid_of_check chains.booked (by decide +kernel) ran
  have upright : TreeSet.Valid order.onKeys m := by
    have passed : (TreeSet.check order.onKeys.rule m.store).run' m.gate = some (.ok ()) := by decide +kernel
    obtain ⟨left, ran⟩ := ran_of_run' passed
    exact TreeSet.valid_of_check lawful.onKeys (TreeMap.reached_booked grows) (by decide +kernel) ran
  have told := faults_leave_valid (α := Nat) (κ := Nat) (ν := Nat) (ω := World)
  obtain ⟨endures, rehashable⟩ := told.1 r rule s tires chains valid
  have restores := told.2.2.2 order sorting (fun a b => a == b) m lawful sorts grows upright
  refine ⟨?_, ?_, ?_⟩
  · have fails : (s.perform (HashSet.act rule (.common (.insert 4)))).1.isOk = false := by decide +kernel
    obtain ⟨fault, after, ran⟩ := faulted_of_perform fails
    exact ⟨fault, after, ran, endures.acts (.common (.insert 4)) fault after trivial ran⟩
  · have fails : (s.perform (HashSet.rehash rule)).1.isOk = false := by decide +kernel
    have mends : ((s.perform (HashSet.rehash rule)).2.perform (HashSet.rehash r.rule)).1.isOk = true := by decide +kernel
    obtain ⟨fault, broken, ran⟩ := faulted_of_perform fails
    obtain ⟨_, _, _, again⟩ := rehashable fault broken ran
    cases ended : HashSet.rehash r.rule broken with
    | error fault after => simp [perform, ran, ended, Except.isOk, Except.toBool] at mends
    | ok _ after => exact ⟨fault, broken, after, ran, ended, (again r.rule r.rule_follows after ended).1⟩
  · have fails : (m.perform (TreeMap.act sorting (.common (.entries (.extract h id .reinsert))))).1.isOk = false := by
      decide +kernel
    obtain ⟨fault, after, ran⟩ := faulted_of_perform fails
    have costs := restores.acts (.common (.entries (.extract h id .reinsert))) fault after trivial ran
    have loses : Ending.reinsert = .reinsert ∧ Loses (TreeSet.Valid order.onKeys) h m after := costs
    exact ⟨fault, after, ran, loses.2⟩

end Slotted
