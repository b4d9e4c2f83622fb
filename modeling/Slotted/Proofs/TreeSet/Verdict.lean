import Slotted.Proofs.TreeSet.Passed
namespace Slotted.TreeSet

open Audit

variable {α ω : Type} {r : PureOrder α} {s : TreeSet α} {p : Pool α TreeLink} {gate : Gate ω} {t : Tree}
  {fuel more parent n height : Nat} {seen seen' : Array Bool}

-- All that a check may ask of a tree. Its slots are the live ones, each of them once, and each value is called less than
-- the next in order.
structure Intact (r : PureOrder α) (t : Tree) (s : TreeSet α) : Prop where
  idle : s.pool.isActive 0 = false
  counted : s.pool.count = s.pool.slots.countP (·.active)
  rooted : Rooted t s.pool s.index
  enumerates : s.pool.Enumerates t.slots
  ascends : ∀ before j i after a b, t.slots = before ++ j :: i :: after → s.pool.get? j = some a → s.pool.get? i = some b →
    r.compare a b = .lt

theorem intact_iff : Intact r t s ↔ Upright t s ∧ ∀ i ∈ t.slots, ¬ Unordered r t s.pool i := by
  constructor
  · intro intact
    refine ⟨⟨intact.idle, intact.counted, intact.rooted, intact.enumerates⟩, fun i _ unordered => ?_⟩
    obtain ⟨before, j, after, a, b, split, left, right, differs⟩ := unordered
    exact differs (intact.ascends before j i after a b split left right)
  · intro given
    obtain ⟨upright, ordered⟩ := given
    refine ⟨upright.idle, upright.counted, upright.rooted, upright.enumerates, ?_⟩
    intro before j i after a b split left right
    by_contra differs
    exact ordered i (by simp [split]) ⟨before, j, after, a, b, split, left, right, differs⟩

theorem Intact.passes (intact : Intact r t s) (filled : s.pool.Filled) (lowered : gate.busy = false) :
    check r.rule s gate = .ok (.ok ()) gate := by
  obtain ⟨upright, ordered⟩ := intact_iff.mp intact
  exact (upright.check_ok_iff filled lowered).mpr ordered

-- Only a tree that stands is walked in order, so the walk comes to its end.
theorem audit_ends (filled : s.pool.Filled) (lowered : gate.busy = false) :
    Judges (audit r.rule) s gate (fun _ => ∃ t, Intact r t s) fun _ => True := by
  cases shape : checkShape s with
  | error error =>
    rw [audit, judges_read, shape]
    exact .inr ⟨error, rfl, trivial⟩
  | ok _ =>
    obtain ⟨t, upright⟩ := upright_of_shape shape
    refine (audit_judges upright filled lowered).imp (fun _ ordered => ?_) fun _ _ => trivial
    exact ⟨t, intact_iff.mpr ⟨upright, ordered⟩⟩

theorem checkSubtree_shrinks (size : seen.size = p.slots.size) (passed : checkSubtree p fuel parent n seen = .ok (height, seen')) :
    seen'.size = p.slots.size ∧ unmarked seen' ≤ unmarked seen := by
  induction fuel generalizing parent n height seen seen' with
  | zero =>
    by_cases none : n = 0
    · subst none
      unfold checkSubtree at passed
      cases passed
      exact ⟨size, le_rfl⟩
    · obtain ⟨_, _, _, _, impossible, _⟩ := checkSubtree_parts none passed
      cases impossible
  | succ fuel ih =>
    by_cases none : n = 0
    · subst none
      unfold checkSubtree at passed
      cases passed
      exact ⟨size, le_rfl⟩
    · obtain ⟨less, left, right, between, same, live, unseen, _, ranLeft, ranRight, _⟩ := checkSubtree_parts none passed
      cases same
      have marked := unmarked_mark (size ▸ Pool.isActive_lt live) unseen
      obtain ⟨sizeLeft, fewerLeft⟩ := ih (by rw [Array.size_setIfInBounds, size]) ranLeft
      obtain ⟨sizeRight, fewerRight⟩ := ih sizeLeft ranRight
      exact ⟨sizeRight, by omega⟩

theorem checkSubtree_shallow (shallow : ¬ (n ≠ 0 ∧ p.isActive n = true ∧ seen.getD n false = false)) :
    checkSubtree p fuel parent n seen = checkSubtree p more parent n seen := by
  unfold checkSubtree
  by_cases none : n = 0
  · rw [if_pos none, if_pos none]
  · rw [if_neg none, if_neg none]
    cases there : p.slots[n]? with
    | none => rfl
    | some slot =>
      cases active : slot.active with
      | false => simp [active]; rfl
      | true =>
        have seenBefore : seen.getD n false = true := by
          by_contra unseen
          exact shallow ⟨none, by simp [Pool.isActive, there, active], by simpa using unseen⟩
        simp [active, seenBefore]; rfl

-- With levels enough for every slot not yet seen, how many more there are is all one. The induction is on the levels.
theorem checkSubtree_allowance (size : seen.size = p.slots.size) (enough : unmarked seen ≤ fuel) (enough' : unmarked seen ≤ more) :
    checkSubtree p fuel parent n seen = checkSubtree p more parent n seen := by
  induction fuel generalizing more parent n seen with
  | zero =>
    refine checkSubtree_shallow fun deep => ?_
    have fewer := unmarked_mark (size ▸ Pool.isActive_lt deep.2.1) deep.2.2
    omega
  | succ fuel ih =>
    by_cases deep : n ≠ 0 ∧ p.isActive n = true ∧ seen.getD n false = false
    · obtain ⟨some, live, unseen⟩ := deep
      have inside := Pool.isActive_lt live
      have fewer := unmarked_mark (size ▸ inside) unseen
      have sizeMarked : (seen.setIfInBounds n true).size = p.slots.size := by rw [Array.size_setIfInBounds, size]
      obtain ⟨more, rfl⟩ := Nat.exists_eq_succ_of_ne_zero (show more ≠ 0 by omega)
      have left (k : Nat) : checkSubtree p fuel n k (seen.setIfInBounds n true) =
          checkSubtree p more n k (seen.setIfInBounds n true) := ih sizeMarked (by omega) (by omega)
      unfold checkSubtree
      rw [if_neg some, if_neg some, Array.getElem?_eq_getElem inside]
      simp only [left]
      cases ran : checkSubtree p more n p.slots[n].link.left (seen.setIfInBounds n true) with
      | error error => rfl
      | ok told =>
        obtain ⟨sizeLeft, fewerLeft⟩ := checkSubtree_shrinks sizeMarked ran
        have right : checkSubtree p fuel n p.slots[n].link.right told.2 = checkSubtree p more n p.slots[n].link.right told.2 :=
          ih sizeLeft (by omega) (by omega)
        simp only [bind, Except.bind, right]
    · exact checkSubtree_shallow deep

-- A check of any state comes to a verdict, and the verdict is good exactly when there is nothing to blame. The limit on the
-- levels is never what ends it: with any higher limit all goes the same.
theorem check_decides_tree (r : PureOrder α) (s : TreeSet α) (gate : Gate ω) (filled : s.pool.Filled)
    (lowered : gate.busy = false) :
    (∃ verdict, check r.rule s gate = .ok verdict gate ∧ (verdict = .ok () ↔ ∃ t, Intact r t s)) ∧
      ∀ parent n limit seen, seen.size = s.pool.slots.size → s.pool.slots.size ≤ limit →
        checkSubtree s.pool limit parent n seen = checkSubtree s.pool s.pool.slots.size parent n seen := by
  constructor
  · rcases audit_ends (r := r) filled lowered with ⟨_, ran, intact⟩ | ⟨error, ran, _⟩
    · exact ⟨_, ran, ⟨fun _ => intact, fun _ => rfl⟩⟩
    · refine ⟨_, ran, ⟨fun good => (nomatch good), fun given => ?_⟩⟩
      obtain ⟨t, intact⟩ := given
      cases ran.symm.trans (intact.passes filled lowered)
  · intro parent n limit seen size long
    have few : unmarked seen ≤ seen.size := Array.countP_le_size
    have enough : unmarked seen ≤ s.pool.slots.size := size ▸ few
    exact checkSubtree_allowance size (enough.trans long) enough

-- Two elements in order, and a root with one slot for both its children.
theorem check_decides_tree_of_numbers :
    let r : PureOrder Nat := ⟨fun a b => compare a b⟩
    let two (top below : TreeLink) : TreeSet Nat := ⟨⟨#[.sentinel, ⟨true, top, some 6⟩, ⟨true, below, some 8⟩], 3, 2⟩, ⟨1⟩⟩
    (∀ top below, (two top below).pool.Filled) ∧ (∃ t, Intact r t (two ⟨0, 0, 2, 1⟩ ⟨1, 0, 0, 0⟩)) ∧
      ¬ ∃ t, Intact r t (two ⟨0, 2, 2, 0⟩ ⟨1, 0, 0, 0⟩) := by
  intro r two
  have filled : ∀ top below, (two top below).pool.Filled := by
    intro top below i active
    have inside : i < 3 := Pool.isActive_lt active
    obtain rfl | rfl | rfl : i = 0 ∨ i = 1 ∨ i = 2 := by omega
    · cases active
    · exact ⟨6, rfl⟩
    · exact ⟨8, rfl⟩
  refine ⟨filled, ?_, fun given => ?_⟩
  · obtain ⟨⟨verdict, ran, decides⟩, _⟩ := check_decides_tree r (two ⟨0, 0, 2, 1⟩ ⟨1, 0, 0, 0⟩) ⟨false, ()⟩ (filled _ _) rfl
    have passed : check r.rule (two ⟨0, 0, 2, 1⟩ ⟨1, 0, 0, 0⟩) ⟨false, ()⟩ = .ok (.ok ()) ⟨false, ()⟩ := by
      with_unfolding_all rfl
    cases ran.symm.trans passed
    exact decides.mp rfl
  · obtain ⟨⟨verdict, ran, decides⟩, _⟩ := check_decides_tree r (two ⟨0, 2, 2, 0⟩ ⟨1, 0, 0, 0⟩) ⟨false, ()⟩ (filled _ _) rfl
    have blamed : check r.rule (two ⟨0, 2, 2, 0⟩ ⟨1, 0, 0, 0⟩) ⟨false, ()⟩ = .ok (.error (.revisited 2)) ⟨false, ()⟩ := by
      with_unfolding_all rfl
    cases ran.symm.trans blamed
    cases decides.mpr given

end Slotted.TreeSet
