import Slotted.Datum.World
import Slotted.Proofs.Action.Refinement
import Slotted.Proofs.HashSet.Check
import Slotted.Proofs.HashSet.Rekey
import Slotted.Proofs.HashSet.Start
import Slotted.Action.Hash
namespace Slotted.HashSet

open Store LawfulIndex

variable {α ω : Type} {r : PureHash α} {order : List Nat} {s : Session (HashSet α) ω} {value : α}

-- Each element is remembered under its own hash, and no two are equal.
structure Distinct (r : PureHash α) (bodies : List (α × UInt32)) : Prop where
  own : ∀ body ∈ bodies, body.2 = r.hash body.1
  apart : bodies.Pairwise fun a b => ¬ r.equal a.1 b.1 = true

theorem Distinct.inherited (r : PureHash α) : Inherited (Distinct r) :=
  fun sublist distinct => ⟨fun body member => distinct.own body (sublist.subset member), distinct.apart.sublist sublist⟩

theorem Found.none_accepted {hash : UInt32} {accepted : α → Bool} (sound : Sound order s.store)
    (own : ∀ body ∈ bodies order s.store, body.2 = r.hash body.1) (finds : Found hash accepted s.store.pool none)
    (alike : ∀ stored, accepted stored = true → r.hash stored = hash) :
    ∀ stored ∈ s.store.pool.contents, ¬ accepted stored = true := by
  intro stored member taken
  obtain ⟨i, held⟩ := Pool.mem_contents.mp member
  have remembered := own (stored, _) ((mem_bodies sound).mpr ⟨i, held, rfl⟩)
  have passed := finds i stored held (remembered.trans (alike stored taken))
  simp [taken] at passed

theorem Found.names {found : Option Nat} (lawful : r.Lawful) (sound : Sound order s.store)
    (own : ∀ body ∈ bodies order s.store, body.2 = r.hash body.1)
    (finds : Found (r.hash value) (r.equal · value) s.store.pool found) :
    match found with
      | some i => ∃ stored, r.equal stored value = true ∧ s.store.pool.get? i = some stored
      | none => Missing (r.equal · · = true) value s.store := by
  cases found with
  | some i =>
    obtain ⟨stored, held, _, alike⟩ := finds
    exact ⟨stored, alike, held⟩
  | none => exact finds.none_accepted sound own fun stored alike => lawful.hash stored value alike

theorem Found.sound {found : Option Nat} (lawful : r.Lawful) (proper : Proper (Distinct r) order s.store)
    (finds : Found (r.hash value) (r.equal · value) s.store.pool found) :
    match found with
      | some i => ∃ stored, r.equal stored value = true ∧ s.store.pool.get? i = some stored
      | none => Missing (r.equal · · = true) value s.store := by
  cases found <;> exact finds.names lawful proper.sound proper.body.own

theorem Distinct.adds {ρ : Nat → Nat} {i : Nat} {order' : List Nat} {before after : HashSet α} (lawful : r.Lawful)
    (proper : Proper (Distinct r) order before) (missing : Missing (r.equal · · = true) value before)
    (adds : Adds ρ i value order order' before after) (remembered : (after.pool.linkAt i).hash = r.hash value) :
    Proper (Distinct r) order' after := by
  have perm := adds.bodies_perm
  refine ⟨adds.sound, ?_, ?_⟩
  · intro body member
    rcases List.mem_cons.mp (perm.mem_iff.mp member) with rfl | member
    · exact remembered
    · exact proper.body.own body member
  · rw [perm.pairwise_iff fun differ alike => differ (lawful.symm _ _ alike)]
    refine List.pairwise_cons.mpr ⟨?_, proper.body.apart⟩
    intro body member alike
    obtain ⟨j, held, _⟩ := (mem_bodies proper.sound).mp member
    exact missing body.1 (Pool.mem_contents.mpr ⟨j, held⟩) (lawful.symm _ _ alike)

theorem Inserts.meets {after : Session (HashSet α) ω} {answer : Except CapacityError (Handle × Bool)} (lawful : r.Lawful)
    (proper : Proper (Distinct r) order s.store)
    (inserts : Inserts (r.hash value) (r.equal · value) value order s.store after.store answer) :
    (match answer with
      | .ok placed => Placed (r.equal · · = true) value s.store after.store placed.1 placed.2
      | .error error => Refused (r.equal · · = true) value s.store after.store error) ∧
      ∃ order', Proper (Distinct r) order' after.store := by
  rcases answer with error | ⟨h, fresh⟩
  · obtain ⟨finds, same, full⟩ := inserts
    exact ⟨⟨finds.sound lawful proper, same, full⟩, order, same ▸ proper⟩
  · cases fresh with
    | false =>
      obtain ⟨same, finds⟩ := inserts
      obtain ⟨stored, alike, held⟩ := finds.sound lawful proper
      exact ⟨⟨by rw [same], stored, alike, same ▸ held⟩, order, same ▸ proper⟩
    | true =>
      obtain ⟨finds, remembered, ρ, order', adds⟩ := inserts
      have missing := finds.sound lawful proper
      exact ⟨⟨missing, adds.contents_eq proper.sound, adds.here⟩, order', Distinct.adds lawful proper missing adds remembered⟩

theorem Reinserts.placed {i : Nat} {after : Session (HashSet α) ω} {placed : Handle × Bool} (lawful : r.Lawful)
    (sound : Sound order s.store) (own : ∀ body ∈ bodies order s.store, body.2 = r.hash body.1)
    (reinserts : Reinserts (r.hash value) (r.equal · value) i value order s.store after.store placed) :
    Placed (r.equal · · = true) value s.store after.store placed.1 placed.2 := by
  obtain ⟨h, fresh⟩ := placed
  cases fresh with
  | false =>
    obtain ⟨finds, _, same⟩ := reinserts
    obtain ⟨stored, alike, held⟩ := finds.names lawful sound own
    refine ⟨?_, stored, alike, (same.get? h.index).trans held⟩
    exact congrArg (fun entries => (entries.map (·.2) : Multiset α)) same.entries_eq
  | true =>
    obtain ⟨finds, rfl, _, order', adds⟩ := reinserts
    exact ⟨finds.names lawful sound own, adds.contents_eq sound, adds.here⟩

theorem Reinserts.meets {i : Nat} {after : Session (HashSet α) ω} {placed : Handle × Bool} (lawful : r.Lawful)
    (proper : Proper (Distinct r) order s.store)
    (reinserts : Reinserts (r.hash value) (r.equal · value) i value order s.store after.store placed) :
    Placed (r.equal · · = true) value s.store after.store placed.1 placed.2 ∧
      ∃ order', Proper (Distinct r) order' after.store := by
  refine ⟨reinserts.placed lawful proper.sound proper.body.own, ?_⟩
  obtain ⟨h, fresh⟩ := placed
  cases fresh with
  | false =>
    obtain ⟨_, sound, same⟩ := reinserts
    exact ⟨order, proper.same_live sound same⟩
  | true =>
    obtain ⟨finds, rfl, remembered, order', adds⟩ := reinserts
    exact ⟨order', Distinct.adds lawful proper (finds.sound lawful proper) adds remembered⟩

theorem lists_items (sound : Sound order s.store) : Lists (fun _ => True) s.store s.store.pool.items := by
  refine ⟨?_, fun entry member => Pool.mem_items.mp member, trivial⟩
  rw [Pool.items_values sound.tidy]
  rfl

theorem Rehashes.distinct {before after : HashSet α} (rehashes : Rehashes r order before after)
    (proper : Proper (Distinct r) order before) : Proper (Distinct r) order after := by
  have values : (Store.bodies order after).map (·.1) = (Store.bodies order before).map (·.1) := by
    rw [bodies_values, bodies_values]
    exact List.filterMap_congr fun i _ => rehashes.bodies.get? i
  refine ⟨rehashes.sound, ?_, ?_⟩
  · intro body member
    obtain ⟨i, held, remembered⟩ := (mem_bodies rehashes.sound).mp member
    exact remembered.symm.trans (rehashes.fresh i body.1 held)
  · have apart : ((Store.bodies order before).map (·.1)).Pairwise fun a b => ¬ r.equal a b = true :=
      List.pairwise_map.mpr proper.body.apart
    rw [← values] at apart
    exact List.pairwise_map.mp apart

theorem rehash_meets (settled : Settled (Distinct r) s) :
    Returns (rehash r.rule) s fun _ after => after.store.pool.contents = s.store.pool.contents ∧
      Settled (Distinct r) after := by
  obtain ⟨⟨order, proper⟩, lowered⟩ := settled
  refine (rehash_ends proper.sound).imp ?_ fun _ _ barred => Session.not_barred lowered barred
  intro _ after ends
  obtain ⟨rehashes, gate⟩ := ends
  refine ⟨?_, ⟨order, rehashes.distinct proper⟩, gate.trans lowered⟩
  rw [rehashes.sound.contents_eq, proper.sound.contents_eq]
  exact congrArg _ (List.filterMap_congr fun i _ => rehashes.bodies.get? i)

variable [Allocator ω]

theorem access_exact (lawful : r.Lawful) :
    (access (ω := ω) r.rule).Exact (Distinct r) (r.equal · · = true) (fun _ => True) .hashSet := by
  refine ⟨Distinct.inherited r, lawful.alike, ?_, ?_, ?_, ?_, ?_, ?_, ?_, ?_⟩
  · intro bodies distinct
    exact List.pairwise_map.mpr distinct.apart
  · intro s value settled
    obtain ⟨⟨order, proper⟩, lowered⟩ := settled
    obtain ⟨found, finds, answers⟩ := find_answers (ω := ω) (r := r) proper.sound value
    refine ⟨found, ?_, answers.ask_run lowered⟩
    cases found <;> exact finds.sound lawful proper
  · intro s value settled
    obtain ⟨⟨order, proper⟩, lowered⟩ := settled
    refine (insert_ends proper.sound value).imp ?_ ?_
    · intro placed after ends
      obtain ⟨inserts, gate⟩ := ends
      obtain ⟨placed, kept⟩ := inserts.meets lawful proper
      exact ⟨placed, kept, gate.trans lowered⟩
    · intro fault after ends
      rcases ends with barred | ⟨error, told, inserts, gate⟩
      · exact absurd barred (Session.not_barred lowered)
      · obtain ⟨refused, kept⟩ := inserts.meets lawful proper
        exact ⟨error, told, refused, kept, gate.trans lowered⟩
  · intro s value settled
    obtain ⟨⟨order, proper⟩, lowered⟩ := settled
    refine (tryInsert_ends proper.sound value).imp ?_ fun _ _ barred => Session.not_barred lowered barred
    intro answer after ends
    obtain ⟨inserts, _, gate⟩ := ends
    obtain ⟨told, kept⟩ := inserts.meets lawful proper
    refine ⟨?_, kept, gate.trans lowered⟩
    cases answer <;> exact told
  · intro order i value s loose body lowered
    refine (reinsert_ends loose).imp ?_ fun _ _ barred => Session.not_barred lowered barred
    intro placed after ends
    obtain ⟨reinserts, gate⟩ := ends
    obtain ⟨told, kept⟩ := reinserts.meets lawful ⟨loose.sound, body⟩
    exact ⟨told, kept, gate.trans lowered⟩
  · intro s strides settled
    obtain ⟨⟨order, proper⟩, lowered⟩ := settled
    exact ⟨_, lists_items proper.sound, walker_run proper.sound strides⟩
  · intro s settled
    obtain ⟨⟨order, proper⟩, lowered⟩ := settled
    refine ⟨_, lists_items proper.sound, ?_⟩
    rw [Pool.items_values proper.sound.tidy]
    rfl
  · intro s settled
    obtain ⟨⟨order, proper⟩, lowered⟩ := settled
    obtain ⟨verdict, ran, rfl | ⟨i, _, value, held, stale⟩⟩ := check_run (r := r) proper.sound lowered
    · change Update.ask (check r.rule) s = _
      rw [Update.ask, ran]
    · exact absurd (proper.body.own (value, _) ((mem_bodies proper.sound).mpr ⟨i, held, rfl⟩)) stale

-- What a caller may do without breaking the promise about the elements: nothing is changed in place, and whoever looks
-- under a hash of his own looks under that of the value.
inductive Keeping (r : PureHash α) : HashSetAction α ω → Prop where
  | common {action : SetAction α} : (∀ h change, action ≠ .change h change) → Keeping r (.common action)
  | findBy {value : α} : Keeping r (.findBy (r.hash value) fun stored => pure (r.equal stored value))
  | insertWith {value : α} :
    Keeping r (.insertWith (r.hash value) (fun stored => pure (r.equal stored value)) (pure value))
  | rehash : Keeping r .rehash

inductive Does (r : PureHash α) (before after : HashSet α) : HashSetAction α ω → Except Fault (Reply α) → Prop where
  | common {action : SetAction α} {answer : Except Fault (Reply α)} :
    Meets (r.equal · · = true) (fun _ => True) .hashSet before after action answer →
    Does r before after (.common action) answer
  | findBy {value : α} {found : Option Handle} : after = before → FoundIn (r.equal · · = true) value before found →
    Does r before after (.findBy (r.hash value) fun stored => pure (r.equal stored value)) (.ok (.found found))
  | insertWith {value : α} {h : Handle} {fresh : Bool} : Placed (r.equal · · = true) value before after h fresh →
    Does r before after (.insertWith (r.hash value) (fun stored => pure (r.equal stored value)) (pure value))
      (.ok (.placed h fresh))
  | refused {value : α} {error : CapacityError} : Refused (r.equal · · = true) value before after error →
    Does r before after (.insertWith (r.hash value) (fun stored => pure (r.equal stored value)) (pure value))
      (.error (.growth .hashSet .insertWith error))
  | rehash : after.pool.contents = before.pool.contents → Does r before after .rehash (.ok .done)

theorem act_does (lawful : r.Lawful) {action : HashSetAction α ω} (keeping : Keeping r action)
    (settled : Settled (Distinct r) s) :
    Ends (act r.rule action) s
      (fun reply after => Does r s.store after.store action (.ok reply) ∧ Settled (Distinct r) after)
      fun fault after => Does r s.store after.store action (.error fault) ∧ Settled (Distinct r) after := by
  obtain ⟨⟨order, proper⟩, lowered⟩ := id settled
  cases keeping with
  | common kept =>
    refine (Access.run_meets (access_exact lawful) _ kept settled).imp ?_ ?_
    · exact fun _ _ told => ⟨.common told.1, told.2⟩
    · exact fun _ _ told => ⟨.common told.1, told.2⟩
  | @findBy value =>
    obtain ⟨found, finds, answers⟩ := findBy_answers (ω := ω) proper.sound (r.hash value) (r.equal · value)
    rw [act, ends_bind]
    refine Ends.of_ok (answers.ask_run lowered) ⟨.findBy rfl ?_, settled⟩
    cases found <;> exact finds.sound lawful proper
  | @insertWith value =>
    refine Ends.bind ((insertWith_ends proper.sound lowered (r.equal · value) rfl).faulting ?_) ?_
    · intro _ after ends
      obtain ⟨error, rfl, inserts, lowered'⟩ := ends
      obtain ⟨refused, kept⟩ := inserts.meets lawful proper
      exact ⟨.refused refused, kept, lowered'⟩
    · intro answer after ends
      obtain ⟨h, fresh⟩ := answer
      obtain ⟨inserts, lowered'⟩ := ends
      obtain ⟨placed, kept⟩ := inserts.meets lawful proper
      exact ⟨.insertWith placed, kept, lowered'⟩
  | rehash => exact (rehash_meets settled).bind fun _ _ told => ⟨.rehash told.1, told.2⟩

theorem act_performed (lawful : r.Lawful) {action : HashSetAction α ω} (keeping : Keeping r action)
    (settled : Settled (Distinct r) s) :
    Does r s.store (s.perform (act r.rule action)).2.store action (s.perform (act r.rule action)).1 ∧
      Settled (Distinct r) (s.perform (act r.rule action)).2 :=
  Session.perform_tells (fun answer after => Does r s.store after.store action answer ∧
    Settled (Distinct r) after) (act_does lawful keeping settled)

-- From empty, by any such actions, and with memory refused at any point: the set holds each element once, counts them
-- rightly, and the next action does what it means.
theorem history_refines_set (r : PureHash α) (lawful : r.Lawful) (config : HashConfig) (origin start : Session (HashSet α) ω)
    (lowered : origin.gate.busy = false) (configured : configure config origin = .ok (.ok ()) start)
    (actions : List (HashSetAction α ω)) (keeping : ∀ action ∈ actions, Keeping r action) :
    let s := Session.performed (act r.rule) actions start
    start.store.pool.contents = 0 ∧ s.store.len = s.store.pool.contents.card ∧
      s.store.pool.contents.Pairwise (fun a b => ¬ r.equal a b = true) ∧
      ∀ action, Keeping r action →
        Does r s.store (s.perform (act r.rule action)).2.store action (s.perform (act r.rule action)).1 := by
  intro s
  obtain ⟨sound, gate⟩ := (configure_returns config origin).returned configured rfl
  have first : Settled (Distinct r) start :=
    ⟨⟨[], sound, fun _ none => absurd none List.not_mem_nil, .nil⟩, gate.trans lowered⟩
  have settled : Settled (Distinct r) s := Session.performed_keeps first actions fun action member s settled =>
    (act_performed lawful (keeping action member) settled).2
  obtain ⟨⟨order, proper⟩, _⟩ := id settled
  refine ⟨sound.contents_eq, proper.sound.card_eq.symm, ⟨_, proper.sound.contents_bodies, ?_⟩, ?_⟩
  · exact List.pairwise_map.mpr proper.body.apart
  · exact fun action keeping => (act_performed lawful keeping settled).1

-- Numbers that collide, one of them twice.
theorem history_refines_set_of_numbers :
    let r : PureHash Nat := ⟨fun n => UInt32.ofNat (n % 3), fun a b => a == b⟩
    let origin : Session (HashSet Nat) World := ⟨empty 0, false, World.fresh⟩
    let start : Session (HashSet Nat) World := ⟨⟨⟨#[.sentinel], 5, 0⟩, ⟨#[0, 0, 0], 60⟩⟩, false, World.fresh⟩
    let actions := [.common (.extend [3, 6, 9, 3]), .rehash, .common (.take 6)]
    r.Lawful ∧ configure ⟨4, 60⟩ origin = .ok (.ok ()) start ∧ (∀ action ∈ actions, Keeping r action) ∧
      (Session.performed (act r.rule) actions start).store.pool.contents.Pairwise fun a b => ¬ r.equal a b = true := by
  intro r origin start actions
  have lawful : r.Lawful := by
    refine ⟨?_, ?_, ?_, ?_⟩ <;> simp +contextual [r]
  have configured : configure ⟨4, 60⟩ origin = .ok (.ok ()) start := by with_unfolding_all rfl
  have keeping : ∀ action ∈ actions, Keeping r action := by
    intro action member
    simp only [actions, List.mem_cons, List.not_mem_nil, or_false] at member
    rcases member with rfl | rfl | rfl
    · exact .common fun _ _ same => by cases same
    · exact .rehash
    · exact .common fun _ _ same => by cases same
  exact ⟨lawful, configured, keeping, (history_refines_set r lawful _ origin start rfl configured actions keeping).2.2.1⟩

end Slotted.HashSet
