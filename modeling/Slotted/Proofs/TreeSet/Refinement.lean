import Slotted.Datum.World
import Slotted.Proofs.Action.Refinement
import Slotted.Proofs.TreeSet.Check
import Slotted.Proofs.TreeSet.Insert
import Slotted.Proofs.TreeSet.Start
import Slotted.Action.Tree
namespace Slotted

namespace PureOrder

variable {α : Type} {r : PureOrder α}

-- Elements in the order of the rule, no two of them equal.
def Ascends (r : PureOrder α) (values : List α) : Prop := values.Pairwise fun a b => r.compare a b = .lt

namespace Lawful

theorem refl (lawful : r.Lawful) (a : α) : r.compare a a = .eq := by
  have swapped := lawful.swap a a
  cases told : r.compare a a with
  | eq => rfl
  | lt => simp [told] at swapped
  | gt => simp [told] at swapped

theorem symm (lawful : r.Lawful) {a b : α} (same : r.compare a b = .eq) : r.compare b a = .eq := by
  rw [lawful.swap a b, same]
  rfl

theorem gt_iff (lawful : r.Lawful) {a b : α} : r.compare a b = .gt ↔ r.compare b a = .lt := by
  rw [lawful.swap a b]
  cases r.compare a b <;> simp

theorem alike (lawful : r.Lawful) : Equivalence (r.compare · · = .eq) := by
  refine ⟨lawful.refl, lawful.symm, ?_⟩
  intro a b c first second
  rw [lawful.class_left a b c first, second]

theorem rising (lawful : r.Lawful) {values : List α} (ascends : r.Ascends values) (value : α) :
    TreeSet.Rising (r.compare · value) values := by
  refine List.Pairwise.imp ?_ ascends
  intro a b less
  constructor
  · intro greater
    rw [lawful.gt_iff] at greater ⊢
    exact lawful.trans value a b greater less
  · exact lawful.trans a b value less

end Lawful

theorem lawful_numbers : (⟨Ord.compare⟩ : PureOrder Nat).Lawful where
  swap a b := (Nat.compare_swap a b).symm
  trans _ _ _ first second := Nat.compare_eq_lt.mpr ((Nat.compare_eq_lt.mp first).trans (Nat.compare_eq_lt.mp second))
  class_left a b c same := by
    cases Nat.compare_eq_eq.mp same
    rfl

end PureOrder

namespace TreeSet

open Store LawfulIndex

variable {α ω : Type} {r : PureOrder α} {t : Tree} {s : Session (TreeSet α) ω} {value : α}

def Ascending (r : PureOrder α) (bodies : List (α × Unit)) : Prop := r.Ascends (bodies.map (·.1))

theorem Ascending.inherited (r : PureOrder α) : Inherited (Ascending r) :=
  fun sublist ascending => List.Pairwise.sublist (sublist.map _) ascending

theorem ascending_iff {s : TreeSet α} : Ascending r (bodies t s) ↔ r.Ascends (t.slots.filterMap s.pool.get?) :=
  Iff.of_eq (congrArg r.Ascends (bodies_values t s))

theorem Misses.missing (lawful : r.Lawful) (proper : Proper (Ascending r) t s.store)
    (misses : Misses (r.compare · value) t s.store.pool) : Missing (r.compare · · = .eq) value s.store := by
  have apart := misses.splits proper.sound (lawful.rising (ascending_iff.mp proper.body) value)
  intro stored member
  rw [proper.sound.contents_eq] at member
  exact apart stored member

theorem Lands.proper {ρ : Nat → Nat} {i : Nat} {t' : Tree} {before after : TreeSet α} (lawful : r.Lawful)
    (proper : Proper (Ascending r) t before) (lands : Lands (r.compare · value) ρ i value t t' before after) :
    Proper (Ascending r) t' after := by
  have ascends := ascending_iff.mp proper.body
  obtain ⟨lower, upper, whole, grown, below, above⟩ := lands.splits proper.sound (lawful.rising ascends value)
  rw [whole] at ascends
  obtain ⟨first, last, across⟩ := List.pairwise_append.mp ascends
  refine ⟨lands.adds.sound, ascending_iff.mpr ?_⟩
  rw [grown]
  refine List.pairwise_append.mpr ⟨first, List.pairwise_cons.mpr ⟨?_, last⟩, ?_⟩
  · intro b member
    exact lawful.gt_iff.mp (above b member)
  · intro a left b right
    cases List.mem_cons.mp right with
    | inl same =>
      rw [same]
      exact below a left
    | inr right => exact across a left b right

theorem Inserts.meets {after : Session (TreeSet α) ω} {answer : Except CapacityError (Handle × Bool)} (lawful : r.Lawful)
    (proper : Proper (Ascending r) t s.store)
    (inserts : Inserts (r.compare · value) value t s.store after.store answer) :
    (match answer with
      | .ok placed => Placed (r.compare · · = .eq) value s.store after.store placed.1 placed.2
      | .error error => Refused (r.compare · · = .eq) value s.store after.store error) ∧
      ∃ t', Proper (Ascending r) t' after.store := by
  cases answer with
  | error error =>
    obtain ⟨misses, same, full⟩ := inserts
    exact ⟨⟨misses.missing lawful proper, same, full⟩, t, same ▸ proper⟩
  | ok placed =>
    obtain ⟨h, fresh⟩ := placed
    cases fresh with
    | false =>
      obtain ⟨same, stored, held, alike⟩ := inserts
      exact ⟨⟨by rw [same], stored, alike, same ▸ held⟩, t, same ▸ proper⟩
    | true =>
      obtain ⟨misses, ρ, t', lands⟩ := inserts
      have missing := misses.missing lawful proper
      exact ⟨⟨missing, lands.adds.contents_eq proper.sound, lands.adds.here⟩, t', lands.proper lawful proper⟩

theorem Reinserts.meets {i : Nat} {after : Session (TreeSet α) ω} {placed : Handle × Bool} (lawful : r.Lawful)
    (proper : Proper (Ascending r) t s.store)
    (reinserts : Reinserts (r.compare · value) i value t s.store after.store placed) :
    Placed (r.compare · · = .eq) value s.store after.store placed.1 placed.2 ∧ ∃ t', Proper (Ascending r) t' after.store := by
  obtain ⟨h, fresh⟩ := placed
  cases fresh with
  | false =>
    obtain ⟨found, sound, same⟩ := reinserts
    obtain ⟨stored, held, alike⟩ := found
    refine ⟨⟨?_, stored, alike, (same.get? h.index).trans held⟩, t, proper.same_live sound same⟩
    exact congrArg (fun entries => (entries.map (·.2) : Multiset α)) same.entries_eq
  | true =>
    obtain ⟨misses, same, t', lands⟩ := reinserts
    subst same
    have missing := misses.missing lawful proper
    exact ⟨⟨missing, lands.adds.contents_eq proper.sound, lands.adds.here⟩, t', lands.proper lawful proper⟩

theorem lists_listing {s : TreeSet α} (proper : Proper (Ascending r) t s) : Lists r.Ascends s (listing t s) := by
  have sound := proper.sound
  refine ⟨?_, ?_, ?_⟩
  · rw [listing_values sound, sound.contents_eq]
    rfl
  · intro entry member
    obtain ⟨i, _, found⟩ := List.mem_filterMap.mp member
    exact Pool.get?_of_item found
  · rw [listing_values sound]
    exact ascending_iff.mp proper.body

def Extremal (r : PureOrder α) (side : Side) (s : TreeSet α) : Option α → Prop
  | none => s.pool.contents = 0
  | some value => ∃ rest, s.pool.contents = value ::ₘ rest ∧ ∀ other ∈ rest,
    match side with
      | .left => r.compare value other = .lt
      | .right => r.compare other value = .lt

theorem extreme_run {s : TreeSet α} (proper : Proper (Ascending r) t s) (side : Side) :
    ∃ found, s.extreme side = .ok found ∧ Extremal r side s found := by
  have sound := proper.sound
  have ascends := ascending_iff.mp proper.body
  have contents : s.pool.contents = (t.slots.filterMap s.pool.get? : List α) := sound.contents_eq
  refine ⟨s.pool.get? (lastSlot (t.toward side)), ?_, ?_⟩
  · rw [extreme, extremeSlot_eq sound]
    rfl
  by_cases bare : t.slots = []
  · have absent : s.pool.get? 0 = none := by
      rw [sound.tidy.get?_none]
      exact sound.tidy.idle
    have none : lastSlot (t.toward side) = 0 := by cases side <;> simp [Tree.toward, lastSlot, bare]
    rw [none, absent]
    change s.pool.contents = 0
    rw [contents, bare]
    rfl
  cases side with
  | left =>
    cases slots : t.slots with
    | nil => exact absurd slots bare
    | cons i rest =>
      obtain ⟨value, _, held, _⟩ := item_eq sound (show i ∈ t.slots by simp [slots])
      have values : t.slots.filterMap s.pool.get? = value :: rest.filterMap s.pool.get? := by
        rw [slots, List.filterMap_cons, held]
      rw [values] at contents ascends
      rw [Tree.toward, lastSlot_reverse, slots, firstSlot, List.head?_cons, Option.getD_some, held]
      exact ⟨(rest.filterMap s.pool.get? : List α), contents, (List.pairwise_cons.mp ascends).1⟩
  | right =>
    cases slots : t.slots using List.reverseRecOn with
    | nil => exact absurd slots bare
    | append_singleton rest i _ =>
      obtain ⟨value, _, held, _⟩ := item_eq sound (show i ∈ t.slots by simp [slots])
      have values : t.slots.filterMap s.pool.get? = rest.filterMap s.pool.get? ++ [value] := by
        rw [slots, List.filterMap_append, List.filterMap_cons, held]
        rfl
      have last : lastSlot (t.toward .right) = i := by
        rw [Tree.toward, slots, lastSlot, List.getLast?_concat]
        rfl
      rw [values] at contents ascends
      rw [last, held]
      refine ⟨rest.filterMap s.pool.get?, ?_, ?_⟩
      · rw [contents]
        exact Multiset.coe_eq_coe.mpr (List.perm_append_singleton _ _)
      · exact fun other member => (List.pairwise_append.mp ascends).2.2 other member value List.mem_cons_self

variable [Allocator ω]

theorem access_exact (lawful : r.Lawful) :
    (access (ω := ω) r.rule).Exact (Ascending r) (r.compare · · = .eq) r.Ascends .treeSet := by
  refine ⟨Ascending.inherited r, lawful.alike, ?_, ?_, ?_, ?_, ?_, ?_, ?_, ?_⟩
  · intro bodies ascending
    refine List.Pairwise.imp ?_ ascending
    intro a b less equal
    simp [less] at equal
  · intro s value settled
    obtain ⟨⟨t, proper⟩, lowered⟩ := settled
    obtain ⟨found, answers, finds⟩ := findBy_answers (ω := ω) proper.sound (r.compare · value) 0
    refine ⟨found, ?_, answers.ask_run lowered⟩
    cases found with
    | none => exact finds.missing lawful proper
    | some h =>
      obtain ⟨stored, held, alike⟩ := finds
      exact ⟨stored, alike, held⟩
  · intro s value settled
    obtain ⟨⟨t, proper⟩, lowered⟩ := settled
    refine (insert_ends proper.sound value).imp ?_ ?_
    · intro placed after ends
      obtain ⟨inserts, gate⟩ := ends
      obtain ⟨placed, kept⟩ := inserts.meets lawful proper
      exact ⟨placed, kept, gate.trans lowered⟩
    · intro fault after ends
      cases ends with
      | inl barred => exact absurd barred (Session.not_barred lowered)
      | inr ends =>
        obtain ⟨error, told, inserts, gate⟩ := ends
        obtain ⟨refused, kept⟩ := inserts.meets lawful proper
        exact ⟨error, told, refused, kept, gate.trans lowered⟩
  · intro s value settled
    obtain ⟨⟨t, proper⟩, lowered⟩ := settled
    refine (tryInsert_ends proper.sound value).imp ?_ fun _ _ barred => Session.not_barred lowered barred
    intro answer after ends
    obtain ⟨inserts, _, gate⟩ := ends
    obtain ⟨told, kept⟩ := inserts.meets lawful proper
    refine ⟨?_, kept, gate.trans lowered⟩
    cases answer with
    | error refused => exact told
    | ok placed => exact told
  · intro t i value s loose body lowered
    refine (reinsert_ends loose).imp ?_ fun _ _ barred => Session.not_barred lowered barred
    intro placed after ends
    obtain ⟨reinserts, gate⟩ := ends
    obtain ⟨told, kept⟩ := reinserts.meets lawful ⟨loose.sound, body⟩
    exact ⟨told, kept, gate.trans lowered⟩
  · intro s strides settled
    obtain ⟨⟨t, proper⟩, lowered⟩ := settled
    exact ⟨_, lists_listing proper, walker_run proper.sound strides⟩
  · intro s settled
    obtain ⟨⟨t, proper⟩, lowered⟩ := settled
    refine ⟨_, lists_listing proper, ?_⟩
    have listed : (access (ω := ω) r.rule).list s.store s.gate = .ok ((listing t s.store).map (·.2)) s.gate := by
      change (do return (← entries (← read)).map (·.2) : Query (TreeSet α) ω (List α)) s.store s.gate = _
      rw [Query.bind_run, Query.read_run]
      dsimp only
      rw [entries_eq proper.sound, Query.bind_run, Query.lift_run]
      rfl
    rw [Update.ask, listed]
  · intro s settled
    obtain ⟨⟨t, proper⟩, lowered⟩ := settled
    obtain ⟨verdict, ran, verdicts⟩ := check_run (r := r) proper.sound lowered
    cases verdicts with
    | inl told =>
      subst told
      change Update.ask (check r.rule) s = _
      rw [Update.ask, ran]
    | inr blamed =>
      obtain ⟨i, _, before, j, after, a, b, slots, left, right, differs⟩ := blamed
      have ascends := ascending_iff.mp proper.body
      have pair : (t.slots.filterMap s.store.pool.get?) = before.filterMap s.store.pool.get? ++ a :: b :: after.filterMap s.store.pool.get? := by
        rw [slots, List.filterMap_append, List.filterMap_cons, left, List.filterMap_cons, right]
      rw [pair] at ascends
      have less := (List.pairwise_cons.mp (List.pairwise_append.mp ascends).2.1).1 b List.mem_cons_self
      exact absurd less differs

-- What a caller may do without breaking the promise about the elements: nothing is changed in place, and whoever asks by
-- a probe of his own asks as the rule would.
inductive Keeping (r : PureOrder α) : TreeSetAction α ω → Prop where
  | common {action : SetAction α} : (∀ h change, action ≠ .change h change) → Keeping r (.common action)
  | findBy {value : α} {memory : Nat} : Keeping r (.findBy ⟨fun stored => pure (r.compare stored value), memory⟩)
  | insertWith {value : α} {memory : Nat} :
    Keeping r (.insertWith ⟨fun stored => pure (r.compare stored value), memory⟩ (pure value))
  | extreme {side : Side} : Keeping r (.extreme side)

inductive Does (r : PureOrder α) (before after : TreeSet α) : TreeSetAction α ω → Except Fault (Reply α) → Prop where
  | common {action : SetAction α} {answer : Except Fault (Reply α)} :
    Meets (r.compare · · = .eq) r.Ascends .treeSet before after action answer → Does r before after (.common action) answer
  | findBy {value : α} {memory : Nat} {found : Option Handle} : after = before →
    FoundIn (r.compare · · = .eq) value before found →
    Does r before after (.findBy ⟨fun stored => pure (r.compare stored value), memory⟩) (.ok (.found found))
  | insertWith {value : α} {memory : Nat} {h : Handle} {fresh : Bool} :
    Placed (r.compare · · = .eq) value before after h fresh →
    Does r before after (.insertWith ⟨fun stored => pure (r.compare stored value), memory⟩ (pure value))
      (.ok (.placed h fresh))
  | refused {value : α} {memory : Nat} {error : CapacityError} :
    Refused (r.compare · · = .eq) value before after error →
    Does r before after (.insertWith ⟨fun stored => pure (r.compare stored value), memory⟩ (pure value))
      (.error (.growth .treeSet .insertWith error))
  | extreme {side : Side} {found : Option α} : after = before → Extremal r side before found →
    Does r before after (.extreme side) (.ok (.element found))

theorem act_does (lawful : r.Lawful) {action : TreeSetAction α ω} (keeping : Keeping r action)
    (settled : Settled (Ascending r) s) :
    Ends (act r.rule action) s
      (fun reply after => Does r s.store after.store action (.ok reply) ∧ Settled (Ascending r) after)
      fun fault after => Does r s.store after.store action (.error fault) ∧ Settled (Ascending r) after := by
  obtain ⟨⟨t, proper⟩, lowered⟩ := id settled
  cases keeping with
  | common kept =>
    refine (Access.run_meets (access_exact lawful) _ kept settled).imp ?_ ?_
    · exact fun _ _ told => ⟨.common told.1, told.2⟩
    · exact fun _ _ told => ⟨.common told.1, told.2⟩
  | @findBy value memory =>
    obtain ⟨found, answers, finds⟩ := findBy_answers (ω := ω) proper.sound (r.compare · value) memory
    rw [act, ends_bind]
    refine Ends.of_ok (answers.ask_run lowered) ⟨.findBy rfl ?_, settled⟩
    cases found with
    | none => exact finds.missing lawful proper
    | some h =>
      obtain ⟨stored, held, alike⟩ := finds
      exact ⟨stored, alike, held⟩
  | @insertWith value memory =>
    refine Ends.bind ((insertWith_ends proper.sound lowered (r.compare · value) memory value).faulting ?_) ?_
    · intro fault after ends
      obtain ⟨error, told, inserts, lowered'⟩ := ends
      obtain ⟨refused, kept⟩ := inserts.meets lawful proper
      rw [told]
      exact ⟨.refused refused, kept, lowered'⟩
    · intro placed after ends
      obtain ⟨inserts, lowered'⟩ := ends
      obtain ⟨placed, kept⟩ := inserts.meets lawful proper
      exact ⟨.insertWith placed, kept, lowered'⟩
  | @extreme side =>
    obtain ⟨found, ran, extremal⟩ := extreme_run proper side
    rw [act, ends_bind, ends_get, ran, ends_bind, ends_lift]
    exact ⟨.extreme rfl extremal, settled⟩

theorem act_performed (lawful : r.Lawful) {action : TreeSetAction α ω} (keeping : Keeping r action)
    (settled : Settled (Ascending r) s) :
    Does r s.store (s.perform (act r.rule action)).2.store action (s.perform (act r.rule action)).1 ∧
      Settled (Ascending r) (s.perform (act r.rule action)).2 :=
  Session.perform_tells (fun answer after => Does r s.store after.store action answer ∧
    Settled (Ascending r) after) (act_does lawful keeping settled)

-- From empty, by any such actions, and with memory refused at any point: walked in order the set gives its elements as a
-- strictly increasing list, it counts them rightly, and the next action does what it means.
theorem history_refines_sorted_set (r : PureOrder α) (lawful : r.Lawful) (config : TreeConfig)
    (origin start : Session (TreeSet α) ω) (lowered : origin.gate.busy = false)
    (configured : configure config origin = .ok (.ok ()) start) (actions : List (TreeSetAction α ω))
    (keeping : ∀ action ∈ actions, Keeping r action) :
    let s := Session.performed (act r.rule) actions start
    start.store.pool.contents = 0 ∧ s.store.len = s.store.pool.contents.card ∧
      (∃ listing, s.store.entries = .ok listing ∧ Lists r.Ascends s.store listing) ∧
      ∀ action, Keeping r action →
        Does r s.store (s.perform (act r.rule action)).2.store action (s.perform (act r.rule action)).1 := by
  intro s
  obtain ⟨sound, gate⟩ := (configure_returns config origin).returned configured rfl
  have first : Settled (Ascending r) start := ⟨⟨.nil, sound, .nil⟩, gate.trans lowered⟩
  have settled : Settled (Ascending r) s := Session.performed_keeps first actions fun action member s settled =>
    (act_performed lawful (keeping action member) settled).2
  obtain ⟨⟨t, proper⟩, _⟩ := id settled
  refine ⟨sound.contents_eq, proper.sound.card_eq.symm, ⟨_, entries_eq proper.sound, lists_listing proper⟩, ?_⟩
  exact fun action keeping => (act_performed lawful keeping settled).1

-- Numbers in their own order, one of them twice and one put in by a probe.
theorem history_refines_sorted_set_of_numbers :
    let r : PureOrder Nat := ⟨compare⟩
    let origin : Session (TreeSet Nat) World := ⟨empty, false, World.fresh⟩
    let start : Session (TreeSet Nat) World := ⟨⟨⟨#[.sentinel], 5, 0⟩, ⟨0⟩⟩, false, World.fresh⟩
    let actions : List (TreeSetAction Nat World) := [.common (.extend [6, 3, 9, 3]),
      .insertWith ⟨fun stored => pure (compare stored 7), 0⟩ (pure 7), .common (.take 6), .extreme .left]
    r.Lawful ∧ configure ⟨4⟩ origin = .ok (.ok ()) start ∧ (∀ action ∈ actions, Keeping r action) ∧
      ∃ listing, (Session.performed (act r.rule) actions start).store.entries = .ok listing ∧
        Lists r.Ascends (Session.performed (act r.rule) actions start).store listing := by
  intro r origin start actions
  have lawful : r.Lawful := by
    refine ⟨?_, ?_, ?_⟩
    · exact fun a b => (Nat.compare_swap a b).symm
    · intro a b c first second
      exact Nat.compare_eq_lt.mpr ((Nat.compare_eq_lt.mp first).trans (Nat.compare_eq_lt.mp second))
    · intro a b c same
      cases Nat.compare_eq_eq.mp same
      rfl
  have configured : configure ⟨4⟩ origin = .ok (.ok ()) start := rfl
  have keeping : ∀ action ∈ actions, Keeping r action := by
    intro action member
    simp only [actions, List.mem_cons, List.not_mem_nil, or_false] at member
    rcases member with rfl | rfl | rfl | rfl
    · exact .common fun _ _ same => by cases same
    · exact .insertWith
    · exact .common fun _ _ same => by cases same
    · exact .extreme
  exact ⟨lawful, configured, keeping,
    (history_refines_sorted_set r lawful _ origin start rfl configured actions keeping).2.2.1⟩

end TreeSet
end Slotted
