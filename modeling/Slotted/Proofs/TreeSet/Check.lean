import Slotted.Proofs.TreeSet.Order
import Slotted.Proofs.Store.Audit
import Slotted.TreeSet.Check
namespace Slotted.TreeSet

open Audit

variable {α ω : Type} {r : PureOrder α} {s : TreeSet α} {gate : Gate ω} {t : Tree} {parent fuel : Nat} {seen : Array Bool}
  {visited : Nat → Prop}

theorem checkSubtree_ok {p : Pool α TreeLink} (hangs : Hangs p.linkAt parent t) (weighs : Weighs p.linkAt t)
    (live : ∀ i ∈ t.slots, p.isActive i = true) (nodup : t.slots.Nodup) (fresh : ∀ i ∈ t.slots, ¬ visited i)
    (enough : t.height ≤ fuel) (marks : Marks visited p.slots.size seen) :
    ∃ seen', checkSubtree p fuel parent t.top seen = .ok (t.height, seen') ∧
      Marks (fun i => visited i ∨ i ∈ t.slots) p.slots.size seen' := by
  induction t generalizing parent fuel seen visited with
  | nil =>
    refine ⟨seen, ?_, marks.congr fun i => by simp [Tree.slots]⟩
    unfold checkSubtree
    rfl
  | node left n right ihl ihr =>
    obtain ⟨some, up, atLeft, atRight, lower, upper⟩ := hangs
    obtain ⟨balance, small, weighsLeft, weighsRight⟩ := weighs
    simp only [Tree.slots, List.nodup_append, List.nodup_cons, List.mem_append, List.mem_cons, Tree.height] at live nodup fresh enough
    obtain ⟨nodupLeft, ⟨absentRight, nodupRight⟩, apart⟩ := nodup
    have active := live n (.inr (.inl rfl))
    have inside := Pool.isActive_lt active
    have slot : p.slots[n]? = Option.some p.slots[n] := Array.getElem?_eq_getElem inside
    have linked : p.linkAt n = p.slots[n].link := by simp [Pool.linkAt, slot]
    have used : p.slots[n].active = true := by simpa [Pool.isActive, slot] using active
    have unseen : seen.getD n false = false := by
      have absent := fresh n (.inr (.inl rfl))
      rw [← marks.marked n inside] at absent
      simpa using absent
    cases fuel with
    | zero => omega
    | succ fuel =>
      obtain ⟨seenLeft, ranLeft, marksLeft⟩ := ihl lower weighsLeft (fun i member => live i (.inl member)) nodupLeft
        (fun i member => by
          intro given
          rcases given with rfl | old
          · exact apart i member i (.inl rfl) rfl
          · exact fresh i (.inl member) old) (show left.height ≤ fuel by omega) (marks.mark n)
      obtain ⟨seenRight, ranRight, marksRight⟩ := ihr upper weighsRight (fun i member => live i (.inr (.inr member)))
        nodupRight (fun i member => by
          intro given
          rcases given with (rfl | old) | lefts
          · exact absentRight member
          · exact fresh i (.inr (.inr member)) old
          · exact apart i lefts i (.inr member) rfl) (show right.height ≤ fuel by omega) marksLeft
      refine ⟨seenRight, ?_, marksRight.congr fun i => ?_⟩
      · rw [linked] at up atLeft atRight balance small
        have even : (decide ((right.height : Int) - left.height ≠ p.slots[n].link.balance) ||
            decide (1 < ((right.height : Int) - left.height).natAbs)) = false := by
          rw [← balance]
          simpa using small
        unfold checkSubtree
        rw [Tree.top, if_neg some, slot]
        dsimp only
        rw [used, unseen, up, atLeft, atRight, ranLeft]
        simp only [bind, Except.bind, ranRight, even, Bool.not_true, Bool.false_eq_true, if_false, ne_eq, not_true]
        rfl
      · simp only [Tree.slots, List.mem_append, List.mem_cons]
        tauto

-- Every live slot hangs in the tree once, whatever else is wrong with the set.
structure Upright (t : Tree) (s : TreeSet α) : Prop where
  idle : s.pool.isActive 0 = false
  counted : s.pool.count = s.pool.slots.countP (·.active)
  rooted : Rooted t s.pool s.index
  enumerates : s.pool.Enumerates t.slots

theorem upright (sound : Store.Sound t s) : Upright t s :=
  ⟨sound.tidy.idle, sound.counted.trans sound.enumerates.countP_eq.symm, sound.threads, sound.enumerates⟩

theorem Upright.planted (upright : Upright t s) : Planted t s where
  root := upright.rooted.root
  hangs := upright.rooted.hangs
  nodup := upright.enumerates.nodup
  inside i member := Pool.isActive_lt ((upright.enumerates.mem i).mp member)

theorem Upright.held (upright : Upright t s) (filled : s.pool.Filled) {i : Nat} (member : i ∈ t.slots) :
    i ≠ 0 ∧ ∃ value, s.pool.get? i = some value := by
  have active := (upright.enumerates.mem i).mp member
  refine ⟨fun none => ?_, filled i active⟩
  subst none
  exact Bool.false_ne_true (upright.idle.symm.trans active)

theorem checkShape_ok (upright : Upright t s) : checkShape s = .ok () := by
  have planted := upright.planted
  have enough : t.height ≤ s.pool.slots.size := (Tree.height_le t).trans planted.length_le
  obtain ⟨seen, ran, marks⟩ := checkSubtree_ok planted.hangs upright.rooted.weighs (fun i => (upright.enumerates.mem i).mp)
    planted.nodup (fun _ _ none => none) enough (Marks.none s.pool.slots.size)
  have reached : s.pool.checkReached seen = .ok () := by
    refine Pool.checkReached_ok (marks.congr fun i => ?_)
    rw [← upright.enumerates.mem, false_or]
  rw [checkShape, Pool.checkCount_ok_iff.mpr ⟨upright.idle, upright.counted⟩, planted.root]
  simp only [bind, Except.bind, ran]
  exact reached

def Unordered (r : PureOrder α) (t : Tree) (p : Pool α TreeLink) (i : Nat) : Prop :=
  ∃ before j after a b, t.slots = before ++ j :: i :: after ∧ p.get? j = some a ∧ p.get? i = some b ∧ r.compare a b ≠ .lt

def Blames (r : PureOrder α) (t : Tree) (p : Pool α TreeLink) (error : CheckError) : Prop :=
  ∃ i, error = .unordered i ∧ Unordered r t p i

theorem not_unordered {before after : List Nat} {i j : Nat} {a b : α} (nodup : t.slots.Nodup)
    (split : t.slots = before ++ j :: i :: after) (left : s.pool.get? j = some a) (right : s.pool.get? i = some b)
    (ascends : r.compare a b = .lt) : ¬ Unordered r t s.pool i := by
  intro unordered
  obtain ⟨before', j', after', a', b', split', left', right', differs⟩ := unordered
  have first : t.slots = (before ++ [j]) ++ i :: after := by rw [split]; simp
  have second : t.slots = (before' ++ [j']) ++ i :: after' := by rw [split']; simp
  have absent : ∀ {front back : List Nat}, t.slots = front ++ i :: back → i ∉ front ∧ i ∉ back := by
    intro front back whole
    rw [whole, List.nodup_append, List.nodup_cons] at nodup
    exact ⟨fun member => nodup.2.2 i member i List.mem_cons_self rfl, nodup.2.1.1⟩
  have same := ((List.append_cons_inj_of_notMem (absent first).1 (absent first).2).mp (first.symm.trans second)).1
  have equal : j = j' := by simpa using congrArg List.getLast? same
  subst equal
  cases left.symm.trans left'
  cases right.symm.trans right'
  exact differs ascends

theorem not_unordered_first {i : Nat} {slots : List Nat} (nodup : t.slots.Nodup) (split : t.slots = i :: slots) :
    ¬ Unordered r t s.pool i := by
  intro unordered
  obtain ⟨before, j, after, _, _, split', _⟩ := unordered
  rw [split] at nodup split'
  have member : i ∈ slots := by
    cases before with
    | nil =>
      injection split' with _ rest
      simp [rest]
    | cons first before =>
      injection split' with _ rest
      simp [rest]
  exact (List.nodup_cons.mp nodup).1 member

-- The induction is on what is still to come in order; the slot passed last is compared with the next.
theorem checkOrder_judges (before : List Nat) {slots : List Nat} (upright : Upright t s) (filled : s.pool.Filled)
    (split : t.slots = before ++ slots) (enough : slots.length ≤ fuel) :
    Judges (checkOrder r.rule fuel (lastSlot before) (firstSlot slots)) s gate
      (fun _ => ∀ i ∈ slots, ¬ Unordered r t s.pool i) (Blames r t s.pool) := by
  induction slots generalizing before fuel with
  | nil =>
    unfold checkOrder
    exact judges_pure fun _ none => absurd none List.not_mem_nil
  | cons i slots ih =>
    obtain ⟨some, value, held⟩ := upright.held filled (show i ∈ t.slots by simp [split])
    have onward : t.toward .right = before ++ i :: slots := split
    have turned := upright.planted.neighbour_eq onward
    have nodup := upright.planted.nodup
    have first : firstSlot (i :: slots) = i := rfl
    cases fuel with
    | zero => simp at enough
    | succ fuel =>
      have further (ordered : ¬ Unordered r t s.pool i) : Judges (checkOrder r.rule fuel i (firstSlot slots)) s gate
          (fun _ => ∀ j ∈ i :: slots, ¬ Unordered r t s.pool j) (Blames r t s.pool) := by
        have last : lastSlot (before ++ [i]) = i := by simp [lastSlot]
        have later := ih (before ++ [i]) (by simp [split]) (by simpa using enough)
        rw [last] at later
        exact later.imp (fun _ others => List.forall_mem_cons.mpr ⟨ordered, others⟩) fun _ blames => blames
      unfold checkOrder
      rw [first, if_neg some]
      dsimp only
      rw [judges_read]
      cases before using List.reverseRecOn with
      | nil =>
        have none : lastSlot [] = 0 := rfl
        rw [none, if_neg (not_not.mpr rfl), turned, judges_lift]
        exact further (not_unordered_first nodup split)
      | append_singleton before j _ =>
        obtain ⟨some', stored, held'⟩ := upright.held filled (show j ∈ t.slots by simp [split])
        have last : lastSlot (before ++ [j]) = j := by simp [lastSlot]
        have beside : t.slots = before ++ j :: i :: slots := by rw [split]; simp
        have compared : (r.rule.compare stored value : Query (TreeSet α) ω Ordering) s gate = .ok (r.compare stored value) gate := rfl
        rw [last, if_pos some', Pool.value_of_get? held', judges_lift, Pool.value_of_get? held, judges_lift,
          judges_query compared]
        by_cases ascends : r.compare stored value = .lt
        · rw [if_neg (not_not.mpr ascends), turned, judges_lift]
          exact further (not_unordered nodup beside held' held ascends)
        · rw [if_pos ascends]
          exact judges_throw_bind ⟨i, rfl, before, j, slots, stored, value, beside, held', held, ascends⟩

theorem audit_judges (upright : Upright t s) (filled : s.pool.Filled) (lowered : gate.busy = false) :
    Judges (audit r.rule) s gate (fun _ => ∀ i ∈ t.slots, ¬ Unordered r t s.pool i) (Blames r t s.pool) := by
  have enough : t.slots.length ≤ s.pool.walkLimit := upright.planted.length_le_walkLimit
  have first : s.extremeSlot .left = .ok (firstSlot t.slots) := by
    rw [upright.planted.extremeSlot_eq, Tree.toward, lastSlot_reverse]
  rw [audit, judges_read, checkShape_ok upright, judges_verdict, first]
  have ordered : Judges (checkOrder r.rule s.pool.walkLimit 0 (firstSlot t.slots)) s { gate with busy := true }
      (fun _ => ∀ i ∈ t.slots, ¬ Unordered r t s.pool i) (Blames r t s.pool) :=
    checkOrder_judges [] upright filled rfl enough
  exact ordered.guarded lowered

theorem check_run (sound : Store.Sound t s) (lowered : gate.busy = false) :
    ∃ verdict, check r.rule s gate = .ok verdict gate ∧
      (verdict = .ok () ∨ ∃ i, verdict = .error (.unordered i) ∧ Unordered r t s.pool i) := by
  rcases audit_judges (r := r) (upright sound) sound.tidy.filled lowered with ⟨_, ran, _⟩ | ⟨error, ran, i, blamed, unordered⟩
  · exact ⟨_, ran, .inl rfl⟩
  · exact ⟨_, ran, .inr ⟨i, by rw [blamed], unordered⟩⟩

-- A check says that all is well exactly when no two neighbours are out of order.
theorem Upright.check_ok_iff (upright : Upright t s) (filled : s.pool.Filled) (lowered : gate.busy = false) :
    check r.rule s gate = .ok (.ok ()) gate ↔ ∀ i ∈ t.slots, ¬ Unordered r t s.pool i := by
  rcases audit_judges (r := r) upright filled lowered with ⟨_, ran, ordered⟩ | ⟨error, ran, i, _, unordered⟩
  · exact ⟨fun _ => ordered, fun _ => ran⟩
  · constructor
    · intro passed
      cases passed.symm.trans ran
    · intro ordered
      obtain ⟨before, j, after, _, _, split, _⟩ := id unordered
      exact absurd unordered (ordered i (by rw [split]; simp))

theorem check_ok_iff (sound : Store.Sound t s) (lowered : gate.busy = false) :
    check r.rule s gate = .ok (.ok ()) gate ↔ ∀ i ∈ t.slots, ¬ Unordered r t s.pool i :=
  (upright sound).check_ok_iff sound.tidy.filled lowered

end Slotted.TreeSet
