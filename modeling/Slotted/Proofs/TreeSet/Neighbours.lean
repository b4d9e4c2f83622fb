import Slotted.Proofs.TreeSet.Navigation
namespace Slotted.TreeSet

open Store Session
open TreeMap (fromSide)

variable {α ω : Type}

-- From handle to handle towards a side, until there is no neighbour.
inductive Trail (s : TreeSet α) (side : Side) : Option Handle → List Handle → Prop where
  | ended : Trail s side none []
  | step {h : Handle} {next : Option Handle} {rest : List Handle} : s.neighbourOf side h = .ok next →
      Trail s side next rest → Trail s side (some h) (h :: rest)

-- What the neighbours are in a tree whose elements stand in this order.
structure Neighbours (s : TreeSet α) (order : List (Handle × α)) : Prop where
  listed : s.entries = .ok order
  next : ∀ before entry after, order = before ++ entry :: after → s.nextOf entry.1 = .ok (after.head?.map (·.1))
  prev : ∀ before entry after, order = before ++ entry :: after → s.prevOf entry.1 = .ok (before.getLast?.map (·.1))
  inverse : ∀ h k, s.nextOf h = .ok (some k) ↔ s.prevOf k = .ok (some h)
  onward : Trail s .right (order.head?.map (·.1)) (order.map (·.1))
  backward : Trail s .left (order.getLast?.map (·.1)) (order.reverse.map (·.1))

-- Each element is changed where it is, in order, and none moves.
def Revisits (change : Nat → α → α) (s : Session (TreeSet α) ω) (order : List (Handle × α)) : Prop :=
  ∃ after, Update.edit (updateAll change) s = .ok (order.map (·.2)) after ∧
    InOrder after.store (order.map (altered change)) ∧ after.gate = s.gate

section Sound

variable {t : Tree} {s : TreeSet α} {side : Side} {h k : Handle}

theorem neighbourOf_none (booked : s.pool.Booked) (none : s.get? h = none) (side : Side) :
    s.neighbourOf side h = .ok Option.none := by
  rw [neighbourOf, if_neg]
  · rfl
  · intro active
    obtain ⟨value, held⟩ := booked.within.1.filled _ active
    cases none.symm.trans held

theorem neighbourOf_beside (sound : Sound t s) (side : Side) {before after : List (Handle × α)} {entry : Handle × α}
    (split : fromSide side.other (listing t s) = before ++ entry :: after) :
    s.neighbourOf side entry.1 = .ok (after.head?.map (·.1)) := by
  have member : entry ∈ listing t s :=
    (TreeMap.fromSide_perm _ _).mem_iff.mp (split ▸ List.mem_append_right _ List.mem_cons_self)
  have active : s.pool.isActive entry.1.index = true :=
    Pool.isActive_of_get? (((inOrder sound).1.resolves entry).mp member)
  have slots := fromSide_listing sound side
  rw [split, List.map_append, List.map_cons] at slots
  rw [neighbourOf, if_pos active, neighbour_eq sound slots.symm]
  cases after with
  | nil => rfl
  | cons other after => exact congrArg Except.ok (Handle.ofIndex?_index other.1)

theorem trail_run (sound : Sound t s) (side : Side) (before : List (Handle × α)) {rest : List (Handle × α)}
    (split : fromSide side.other (listing t s) = before ++ rest) :
    Trail s side (rest.head?.map (·.1)) (rest.map (·.1)) := by
  induction rest generalizing before with
  | nil => exact .ended
  | cons entry rest ih => exact .step (neighbourOf_beside sound side split) (ih (before ++ [entry]) (by simp [split]))

theorem neighbourOf_back (sound : Sound t s) (side : Side) (beside : s.neighbourOf side h = .ok (some k)) :
    s.neighbourOf side.other k = .ok (some h) := by
  cases held : s.get? h with
  | none =>
    rw [neighbourOf_none (booked_of_sound sound).pool held] at beside
    cases beside
  | some value =>
    have member : (h, value) ∈ fromSide side.other (listing t s) :=
      (TreeMap.fromSide_perm _ _).mem_iff.mpr (((inOrder sound).1.resolves (h, value)).mpr held)
    obtain ⟨before, after, split⟩ := List.append_of_mem member
    rw [neighbourOf_beside sound side split] at beside
    cases after with
    | nil => cases beside
    | cons entry after =>
      cases beside
      have turned : fromSide side.other.other (listing t s) = after.reverse ++ entry :: (h, value) :: before.reverse := by
        have reversed := congrArg List.reverse split
        cases side <;> simpa [fromSide, Side.other] using reversed
      exact neighbourOf_beside sound side.other turned

theorem neighbours (sound : Sound t s) : Neighbours s (listing t s) := by
  refine ⟨entries_eq sound, ?_, ?_, ?_, trail_run sound .right [] rfl, ?_⟩
  · exact fun before entry after split => neighbourOf_beside sound .right split
  · intro before entry after split
    have reversed : fromSide Side.left.other (listing t s) = after.reverse ++ entry :: before.reverse := by
      simp [fromSide, Side.other, split]
    have beside := neighbourOf_beside sound .left reversed
    rwa [List.head?_reverse] at beside
  · exact fun h k => ⟨neighbourOf_back sound .right, neighbourOf_back sound .left⟩
  · have walked := trail_run sound .left [] (List.nil_append (listing t s).reverse).symm
    rwa [List.head?_reverse] at walked

theorem listing_amends {after : TreeSet α} {change : Nat → α → α} (amends : Amends change (· ∈ t.slots) s after) :
    listing t after = (listing t s).map (altered change) := by
  rw [listing, listing, List.map_filterMap]
  apply List.filterMap_congr
  intro i member
  rw [Pool.item, Pool.item, amends.touched i member, Handle.ofIndex?]
  by_cases positive : 0 < i
  · rw [dif_pos positive]
    cases s.pool.get? i <;> rfl
  · rw [dif_neg positive]
    rfl

theorem revisits {s : Session (TreeSet α) ω} (sound : Sound t s.store) (change : Nat → α → α) :
    Revisits change s (listing t s.store) := by
  obtain ⟨after, ran, sound', amends⟩ := updateAll_run sound change
  rw [← listing_values sound] at ran
  refine ⟨⟨after, s.gate⟩, Update.edit_ok ran, ?_, rfl⟩
  rw [← listing_amends amends]
  exact inOrder sound'

end Sound

variable [Allocator ω]

-- After any history and under any rule. A handle of nothing has no neighbours, whatever the links are. A tree has to stand
-- for the rest, which it does as long as its rule answers as some comparison would, if it answers, and no insertion was
-- misplaced.
theorem neighbours_match_order (rule : OrderRule (TreeSet α) ω α) (s : Session (TreeSet α) ω) :
    (TreeSet.Reached (act rule) (fun _ => True) s →
      (∀ h, s.store.get? h = none → s.store.nextOf h = .ok none ∧ s.store.prevOf h = .ok none) ∧
      (WellGrown s.store → ∃ order, InOrder s.store order ∧ Neighbours s.store order ∧
        ∀ change, Revisits change s order)) ∧
    ∀ r : PureOrder α, rule.Follows (fun _ => True) r → Tended rule s → WellGrown s.store := by
  refine ⟨fun reached => ⟨fun h none => ?_, fun grown => ?_⟩, fun r follows tended => tended.grown follows⟩
  · have booked := reached.booked.pool
    exact ⟨neighbourOf_none booked none .right, neighbourOf_none booked none .left⟩
  · obtain ⟨t, sound⟩ := reached.sound grown
    exact ⟨_, inOrder sound, neighbours sound, revisits sound⟩

-- A tree that lost its root, asked from each end, and about the slot of the root that was.
theorem neighbours_match_order_of_numbers :
    let r : PureOrder Nat := ⟨compare⟩
    let sorted : Session (TreeSet Nat) World := ⟨⟨⟨#[.sentinel], 5, 0⟩, ⟨0⟩⟩, false, World.fresh⟩
    let s := performed (act r.rule) [.common (.extend [6, 3, 9, 1]), .common (.take 6)] sorted
    (∃ order, InOrder s.store order ∧ Neighbours s.store order ∧ order.map (·.2) = [1, 3, 9] ∧
      Trail s.store .right (some ⟨4, by decide⟩) (order.map (·.1)) ∧ Revisits (fun i => (· + i)) s order) ∧
      s.store.nextOf ⟨1, Nat.one_pos⟩ = .ok none ∧ s.store.prevOf ⟨1, Nat.one_pos⟩ = .ok none := by
  intro r sorted s
  have tended : Tended r.rule s :=
    ⟨⟨4⟩, ⟨empty, false, World.fresh⟩, sorted, [.common (.extend [6, 3, 9, 1]), .common (.take 6)], rfl, rfl,
      ⟨trivial, trivial, trivial⟩, rfl⟩
  have matched := neighbours_match_order r.rule s
  obtain ⟨dead, alive⟩ := matched.1 tended.reached
  refine ⟨?_, dead ⟨1, Nat.one_pos⟩ (by decide +kernel)⟩
  obtain ⟨order, inOrder, neighbours, revisits⟩ := alive (matched.2 r r.rule_follows tended)
  have seen : s.store.entries.map (fun order => (order.head?.map (·.1.index), order.map (·.2))) = .ok (some 4, [1, 3, 9]) := by
    decide +kernel
  rw [neighbours.listed] at seen
  obtain ⟨head, values⟩ := Prod.mk.inj (Except.ok.inj seen)
  refine ⟨order, inOrder, neighbours, values, ?_, revisits fun i => (· + i)⟩
  have onward := neighbours.onward
  cases order with
  | nil => cases head
  | cons entry order =>
    have first : entry.1 = ⟨4, by decide⟩ := Handle.ext_index (Option.some.inj head)
    rwa [List.head?_cons, Option.map_some, first] at onward

-- An insertion was misplaced. Both elements are live, and neither is next to the other: the first has no neighbours, and
-- the second is its own, so that nobody comes to an end from there.
theorem neighbours_miss_misplaced :
    let r : PureOrder Nat := ⟨compare⟩
    let start : Session (TreeSet Nat) Script := ⟨⟨⟨#[.sentinel], 3, 0⟩, ⟨0⟩⟩, false, ⟨[.lt, .eq]⟩⟩
    let actions : List (TreeSetAction Nat Script) := [.common (.insert 1), .common (.insert 2), .common (.take 1),
      .insertWith (Script.probe 2) (pure 3)]
    let s := performed (act r.rule) actions start
    TreeSet.Reached (act r.rule) (fun _ => True) s ∧ s.store.get? ⟨1, Nat.one_pos⟩ = some 2 ∧
      s.store.get? ⟨2, Nat.two_pos⟩ = some 3 ∧ s.store.nextOf ⟨1, Nat.one_pos⟩ = .ok none ∧
      s.store.prevOf ⟨1, Nat.one_pos⟩ = .ok none ∧ s.store.nextOf ⟨2, Nat.two_pos⟩ = .ok (some ⟨2, Nat.two_pos⟩) ∧
      (∀ handles, ¬ Trail s.store .right (some ⟨2, Nat.two_pos⟩) handles) ∧
      (s.perform (Update.edit (updateAll fun _ => (· + 1)))).1 = .ok [2] := by
  intro r start actions s
  have itself : s.store.nextOf ⟨2, Nat.two_pos⟩ = .ok (some ⟨2, Nat.two_pos⟩) := by decide +kernel
  refine ⟨⟨⟨2⟩, ⟨empty, false, ⟨[.lt, .eq]⟩⟩, start, actions, rfl, rfl, fun _ _ => trivial, rfl⟩, by decide +kernel,
    by decide +kernel, by decide +kernel, by decide +kernel, itself, ?_, by decide +kernel⟩
  intro handles
  induction handles with
  | nil => nofun
  | cons h handles ih =>
    intro trail
    cases trail with
    | step found rest =>
      cases itself.symm.trans found
      exact ih rest

end Slotted.TreeSet
