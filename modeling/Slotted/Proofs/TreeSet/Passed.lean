import Slotted.Proofs.TreeSet.Check
import Slotted.Proofs.TreeSet.Resilience
import Slotted.Proofs.Store.Upkeep
namespace Slotted

open Store

theorem except_bind_ok {ε β γ : Type} {first : Except ε γ} {rest : γ → Except ε β} {value : β}
    (ran : (first >>= rest) = .ok value) : ∃ told, first = .ok told ∧ rest told = .ok value := by
  cases first with
  | error error => cases ran
  | ok told => exact ⟨told, rfl, ran⟩

theorem except_unless_ok {ε β γ : Type} {c : Prop} [Decidable c] {error : ε} {rest : γ → Except ε β} {further : Except ε β}
    {value : β} (ran : (if c then throw error >>= rest else further) = .ok value) : ¬ c ∧ further = .ok value := by
  split at ran
  · cases ran
  · exact ⟨‹_›, ran⟩

namespace TreeSet

variable {α ω : Type} {rule : OrderRule (TreeSet α) ω α} {s : TreeSet α} {p : Pool α TreeLink}
  {fuel parent n height : Nat} {seen seen' : Array Bool} {visited : Nat → Prop}

theorem checkSubtree_parts (some : n ≠ 0) (passed : checkSubtree p fuel parent n seen = .ok (height, seen')) :
    ∃ less left right between, fuel = less + 1 ∧ p.isActive n = true ∧ seen.getD n false = false ∧
      (p.linkAt n).parent = parent ∧
      checkSubtree p less n (p.linkAt n).left (seen.setIfInBounds n true) = .ok (left, between) ∧
      checkSubtree p less n (p.linkAt n).right between = .ok (right, seen') ∧
      (p.linkAt n).balance = (right : Int) - left ∧ ((right : Int) - left).natAbs ≤ 1 ∧ height = 1 + max left right := by
  unfold checkSubtree at passed
  rw [if_neg some] at passed
  cases there : p.slots[n]? with
  | none =>
    rw [there] at passed
    cases passed
  | some slot =>
    have linked : p.linkAt n = slot.link := by simp [Pool.linkAt, there]
    rw [there] at passed
    obtain ⟨active, passed⟩ := except_unless_ok passed
    obtain ⟨unseen, passed⟩ := except_unless_ok passed
    cases fuel with
    | zero => cases passed
    | succ less =>
      obtain ⟨up, passed⟩ := except_unless_ok passed
      obtain ⟨⟨left, between⟩, ranLeft, passed⟩ := except_bind_ok passed
      obtain ⟨⟨right, after⟩, ranRight, passed⟩ := except_bind_ok passed
      obtain ⟨even, passed⟩ := except_unless_ok passed
      cases passed
      rw [linked]
      refine ⟨less, left, right, between, rfl, ?_, by simpa using unseen, not_not.mp up, ranLeft, ranRight, ?_, ?_, rfl⟩
      · simpa [Pool.isActive, there] using active
      · simp at even
        omega
      · simp at even
        omega

structure Followed (p : Pool α TreeLink) (parent : Nat) (t : Tree) : Prop where
  hangs : Hangs p.linkAt parent t
  weighs : Weighs p.linkAt t
  nodup : t.slots.Nodup
  live : ∀ i ∈ t.slots, p.isActive i = true

-- A look at the subtree at `n` that came to its end, over slots not looked at before.
def LooksThrough (p : Pool α TreeLink) (parent n height : Nat) (visited : Nat → Prop) (seen' : Array Bool) : Prop :=
  ∃ t : Tree, t.top = n ∧ t.height = height ∧ Followed p parent t ∧ (∀ i ∈ t.slots, ¬ visited i) ∧
    Marks (fun i => visited i ∨ i ∈ t.slots) p.slots.size seen'

theorem LooksThrough.of_empty (marks : Marks visited p.slots.size seen)
    (passed : checkSubtree p fuel parent 0 seen = .ok (height, seen')) : LooksThrough p parent 0 height visited seen' := by
  unfold checkSubtree at passed
  cases passed
  refine ⟨.nil, rfl, rfl, ⟨trivial, trivial, List.nodup_nil, ?_⟩, ?_, marks.congr fun i => by simp [Tree.slots]⟩
  · exact fun _ none => absurd none List.not_mem_nil
  · exact fun _ none => absurd none List.not_mem_nil

theorem checkSubtree_vouches (marks : Marks visited p.slots.size seen)
    (passed : checkSubtree p fuel parent n seen = .ok (height, seen')) : LooksThrough p parent n height visited seen' := by
  induction fuel generalizing parent n height seen seen' visited with
  | zero =>
    by_cases none : n = 0
    · subst none
      exact .of_empty marks passed
    · obtain ⟨_, _, _, _, impossible, _⟩ := checkSubtree_parts none passed
      cases impossible
  | succ fuel ih =>
    by_cases none : n = 0
    · subst none
      exact .of_empty marks passed
    · obtain ⟨less, left, right, between, same, live, unseen, up, ranLeft, ranRight, balance, small, high⟩ :=
        checkSubtree_parts none passed
      cases same
      obtain ⟨lower, topLeft, heightLeft, followedLeft, apartLeft, marksLeft⟩ := ih (marks.mark n) ranLeft
      obtain ⟨upper, topRight, heightRight, followedRight, apartRight, marksRight⟩ := ih marksLeft ranRight
      have fresh : ¬ visited n := by
        rw [← marks.marked n (Pool.isActive_lt live), unseen]
        exact Bool.false_ne_true
      subst heightLeft heightRight
      refine ⟨.node lower n upper, rfl, high.symm, ⟨?_, ?_, ?_, ?_⟩, ?_, marksRight.congr fun i => ?_⟩
      · exact ⟨none, up, topLeft.symm, topRight.symm, followedLeft.hangs, followedRight.hangs⟩
      · exact ⟨balance, balance ▸ small, followedLeft.weighs, followedRight.weighs⟩
      · refine List.nodup_append.mpr ⟨followedLeft.nodup, List.nodup_cons.mpr ⟨?_, followedRight.nodup⟩, ?_⟩
        · exact fun member => apartRight n member (.inl (.inl rfl))
        · intro i member j other same
          subst same
          rcases List.mem_cons.mp other with rfl | later
          · exact apartLeft i member (.inl rfl)
          · exact apartRight i later (.inr member)
      · simp only [Tree.slots, List.mem_append, List.mem_cons]
        rintro i (member | rfl | member)
        · exact followedLeft.live i member
        · exact live
        · exact followedRight.live i member
      · simp only [Tree.slots, List.mem_append, List.mem_cons]
        rintro i (member | rfl | member) old
        · exact apartLeft i member (.inr old)
        · exact fresh old
        · exact apartRight i member (.inl (.inr old))
      · simp only [Tree.slots, List.mem_append, List.mem_cons]
        tauto

theorem upright_of_shape (passed : checkShape s = .ok ()) : ∃ t : Tree, Upright t s := by
  obtain ⟨_, counts, passed⟩ := except_bind_ok passed
  obtain ⟨⟨height, seen⟩, ran, passed⟩ := except_bind_ok passed
  obtain ⟨idle, counted⟩ := Pool.checkCount_ok_iff.mp counts
  obtain ⟨t, top, _, followed, _, marks⟩ := checkSubtree_vouches (Marks.none _) ran
  have marks : Marks (· ∈ t.slots) s.pool.slots.size seen := marks.congr fun i => by simp
  have covers := Pool.reached_of_check marks followed.live passed
  exact ⟨t, idle, counted, ⟨top.symm, followed.hangs, followed.weighs⟩, followed.nodup, fun i => (covers i).symm⟩

theorem sound_of_shape (booked : Booked s) (passed : checkShape s = .ok ()) : ∃ t : Tree, Sound t s := by
  obtain ⟨t, upright⟩ := upright_of_shape passed
  have counted : s.pool.count = t.slots.length := upright.counted.trans upright.enumerates.countP_eq
  exact ⟨t, booked.pool.within.1, upright.rooted, upright.enumerates, counted⟩

theorem sound_of_check (booked : Booked s) {gate left : Gate ω} (passed : check rule s gate = .ok (.ok ()) left) :
    ∃ t : Tree, Sound t s := by
  have shaped : Audit.Vouches (audit rule) s fun _ => checkShape s = .ok () :=
    Audit.Vouches.read ((Audit.vouches_verdict _).bind fun _ shape _ _ _ _ => shape)
  exact sound_of_shape booked (shaped gate () left passed)

-- Nobody looks at the set, and whoever checks it finds nothing to complain about.
structure Valid (r : PureOrder α) (s : Session (TreeSet α) ω) : Prop where
  lowered : s.gate.busy = false
  passes : ∀ gate : Gate ω, gate.busy = false → check r.rule s.store gate = .ok (.ok ()) gate

variable {r : PureOrder α} {t : Tree}

theorem values_split {j i : Nat} {before after : List Nat} {a b : α} (split : t.slots = before ++ j :: i :: after)
    (left : s.pool.get? j = some a) (right : s.pool.get? i = some b) :
    t.slots.filterMap s.pool.get? = before.filterMap s.pool.get? ++ a :: b :: after.filterMap s.pool.get? := by
  rw [split, List.filterMap_append, List.filterMap_cons_some left, List.filterMap_cons_some right]

-- Two values next to each other come from two slots next to each other, because every slot has one.
theorem slots_split {before after : List α} {a b : α} (sound : Sound t s)
    (split : t.slots.filterMap s.pool.get? = before ++ a :: b :: after) :
    ∃ before j i after, t.slots = before ++ j :: i :: after ∧ s.pool.get? j = some a ∧ s.pool.get? i = some b := by
  obtain ⟨front, back, whole, _, ends⟩ := List.filterMap_eq_append_iff.mp split
  obtain ⟨idle, j, rest, same, _, left, onward⟩ := List.filterMap_eq_cons_iff.mp ends
  obtain ⟨between, i, last, next, none, right, _⟩ := List.filterMap_eq_cons_iff.mp onward
  subst same next
  have nothing : between = [] := by
    apply List.eq_nil_iff_forall_not_mem.mpr
    intro k member
    have inside : k ∈ t.slots := by simp [whole, member]
    obtain ⟨value, held⟩ := sound.mem_iff.mp inside
    cases held.symm.trans (none k member)
  subst nothing
  exact ⟨front ++ idle, j, i, last, by simp [whole], left, right⟩

theorem chain_iff_ordered (sound : Sound t s) : (t.slots.filterMap s.pool.get?).IsChain (r.compare · · = .lt) ↔
    ∀ i ∈ t.slots, ¬ Unordered r t s.pool i := by
  rw [List.isChain_iff_forall_rel_of_append_cons_cons]
  constructor
  · intro ascends i _ unordered
    obtain ⟨before, j, after, a, b, split, left, right, differs⟩ := unordered
    exact differs (ascends (values_split split left right))
  · intro ordered a b before after split
    obtain ⟨front, j, i, back, whole, left, right⟩ := slots_split sound split
    by_contra differs
    exact ordered i (by simp [whole]) ⟨front, j, back, a, b, whole, left, right, differs⟩

theorem ascending_iff_ordered (lawful : r.Lawful) (sound : Sound t s) :
    Ascending r (bodies t s) ↔ ∀ i ∈ t.slots, ¬ Unordered r t s.pool i := by
  have transitive : Trans (fun a b => r.compare a b = .lt) (fun a b => r.compare a b = .lt) fun a b => r.compare a b = .lt :=
    ⟨lawful.trans _ _ _⟩
  rw [ascending_iff, ← chain_iff_ordered sound]
  exact List.isChain_iff_pairwise.symm

theorem settled_of_check {s : Session (TreeSet α) ω} (lawful : r.Lawful) (booked : Booked s.store)
    (lowered : s.gate.busy = false) {left : Gate ω} (passed : check r.rule s.store s.gate = .ok (.ok ()) left) :
    Settled (Ascending r) s := by
  obtain ⟨t, sound⟩ := sound_of_check booked passed
  obtain ⟨verdict, ran, _⟩ := check_run (r := r) sound lowered
  cases passed.symm.trans ran
  exact ⟨⟨t, sound, (ascending_iff_ordered lawful sound).mpr ((check_ok_iff sound lowered).mp ran)⟩, lowered⟩

theorem Valid.settled {s : Session (TreeSet α) ω} (lawful : r.Lawful) (valid : Valid r s) (booked : Booked s.store) :
    Settled (Ascending r) s := settled_of_check lawful booked valid.lowered (valid.passes s.gate valid.lowered)

theorem valid_of_settled {s : Session (TreeSet α) ω} (lawful : r.Lawful) (settled : Settled (Ascending r) s) : Valid r s := by
  obtain ⟨⟨t, proper⟩, lowered⟩ := settled
  refine ⟨lowered, fun gate down => (check_ok_iff proper.sound down).mpr ?_⟩
  exact (ascending_iff_ordered lawful proper.sound).mp proper.body

theorem valid_of_check {s : Session (TreeSet α) ω} (lawful : r.Lawful) (booked : Booked s.store) (lowered : s.gate.busy = false)
    {left : Gate ω} (passed : check r.rule s.store s.gate = .ok (.ok ()) left) : Valid r s :=
  valid_of_settled lawful (settled_of_check lawful booked lowered passed)

end TreeSet
end Slotted
