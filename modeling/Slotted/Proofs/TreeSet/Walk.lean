import Slotted.Proofs.TreeSet.Links
import Slotted.TreeSet.Walk
namespace Slotted

-- The first or the last of a list of slots, 0 if there is none.
def firstSlot (slots : List Nat) : Nat := slots.head?.getD 0

def lastSlot (slots : List Nat) : Nat := slots.getLast?.getD 0

theorem lastSlot_reverse (slots : List Nat) : lastSlot slots.reverse = firstSlot slots := by
  rw [lastSlot, firstSlot, List.getLast?_reverse]

theorem firstSlot_append {slots more : List Nat} (some : slots ≠ []) : firstSlot (slots ++ more) = firstSlot slots := by
  cases slots with
  | nil => exact absurd rfl some
  | cons i slots => rfl

namespace Pool

variable {α : Type} {p : Pool α TreeLink} {t : Tree} {side : Side} {parent fuel : Nat}

theorem extremeFrom_run (hangs : Hangs p.linkAt parent t) (inside : ∀ i ∈ t.slots, i < p.slots.size)
    (enough : t.height ≤ fuel + 1) : p.extremeFrom side fuel t.top = .ok (lastSlot (t.toward side)) := by
  induction t using Tree.join_induction side generalizing parent fuel with
  | nil =>
    unfold extremeFrom
    simp [Tree.top, lastSlot, pure, Except.pure]
  | join near slot far ih _ =>
    obtain ⟨some, _, toNear, _, lower, _⟩ := hangs_join.mp hangs
    simp only [Tree.mem_join, Tree.height_join] at inside enough
    have here : p.link slot = .ok (p.linkAt slot) := Pool.link_eq (inside slot (.inl rfl))
    unfold extremeFrom
    simp only [Tree.top_join, if_neg some, here, toNear, bind, Except.bind]
    by_cases last : near.top = 0
    · have none : near = .nil := by
        cases near with
        | nil => rfl
        | node left i right => exact absurd last lower.1
      simp [none, Tree.top, Tree.toward_join, lastSlot, pure, Except.pure]
    · obtain ⟨near', far', shape⟩ := Tree.exists_join side last
      have high : 0 < near.height := by
        rw [shape, Tree.height_join]
        omega
      cases fuel with
      | zero => omega
      | succ fuel =>
        have deeper := ih lower (fun i member => inside i (.inr (.inl member))) (show near.height ≤ fuel + 1 by omega)
        simp only [if_neg last, deeper]
        have found : ∃ i, (near.toward side).getLast? = Option.some i := by
          rw [shape, Tree.toward_join]
          simp [List.getLast?_cons]
        obtain ⟨i, found⟩ := found
        simp [lastSlot, Tree.toward_join, List.getLast?_cons, found]

variable {path : List Crumb} {near far : Tree} {child i : Nat}

-- Up over every parent on the wanted side. The first one that lies beyond is the neighbour.
theorem climb_run (around : Around p.linkAt path child) (nodup : (child :: held path).Nodup)
    (inside : ∀ j ∈ held path, j < p.slots.size) (some : child ≠ 0) (enough : path.length ≤ fuel) :
    p.climb side fuel child (above path) = .ok (firstSlot (beyond side path)) := by
  induction path generalizing child fuel with
  | nil =>
    unfold climb
    rfl
  | cons c up ih =>
    obtain ⟨someC, parent, there, other, _, rest⟩ := around
    simp only [held, List.nodup_cons, List.mem_cons, List.mem_append, not_or] at nodup inside
    obtain ⟨⟨apart, apartSibling, _⟩, ⟨absentSibling, absentUp⟩, nodup⟩ := nodup
    have here : p.link c.slot = .ok (p.linkAt c.slot) := Pool.link_eq (inside c.slot (.inl rfl))
    have fresh : (c.slot :: held up).Nodup := List.nodup_cons.mpr ⟨absentUp, (List.nodup_append.mp nodup).2.1⟩
    unfold climb
    rw [above, if_neg someC, here]
    simp only [bind, Except.bind]
    by_cases turned : c.side = side
    · subst turned
      cases fuel with
      | zero => simp at enough
      | succ fuel =>
        have further := ih rest fresh (fun j member => inside j (.inr (.inr member))) someC (by simpa using enough)
        rw [if_neg (not_not.mpr there), parent, beyond, if_pos rfl]
        exact further
    · have beside : (p.linkAt c.slot).child side = c.sibling.top := by
        rw [← other, ← Side.eq_other (Ne.symm turned)]
      have unlike : (p.linkAt c.slot).child side ≠ child := by
        rw [beside]
        exact Tree.top_ne apartSibling some
      rw [if_pos unlike, beyond, if_neg turned]
      rfl

theorem neighbour_run (hangs : Hangs p.linkAt 0 (plug path (.join side near i far)))
    (nodup : (plug path (.join side near i far)).slots.Nodup)
    (inside : ∀ j ∈ (plug path (.join side near i far)).slots, j < p.slots.size) :
    p.neighbour side i = .ok (firstSlot (near.toward side ++ beyond side path)) := by
  obtain ⟨around, here⟩ := hangs_plug.mp hangs
  obtain ⟨some, parent, toNear, _, lower, _⟩ := hangs_join.mp here
  have fewer : (plug path (.join side near i far)).slots.length ≤ p.slots.size := by
    rw [← List.length_range (n := p.slots.size)]
    exact (nodup.subperm fun j member => List.mem_range.mpr (inside j member)).length_le
  have perm : (plug path (.join side near i far)).slots.Perm _ := slots_plug
  have node : (Tree.join side near i far).slots.Perm _ := Tree.slots_join
  have length := perm.length_eq
  rw [List.length_append, node.length_eq, List.length_cons, List.length_append] at length
  have parts := nodup_plug.mp nodup
  simp only [mem_plug, Tree.mem_join] at inside
  have here : p.link i = .ok (p.linkAt i) := Pool.link_eq (inside i (.inl (.inl rfl)))
  rw [neighbour, here]
  simp only [bind, Except.bind]
  rw [toNear]
  by_cases none : near.top = 0
  · have bare : near = .nil := by
      cases near with
      | nil => rfl
      | node left j right => exact absurd none lower.1
    have level := length_le_held path
    have fresh : (i :: held path).Nodup := by
      refine List.nodup_cons.mpr ⟨fun member => ?_, (List.nodup_append.mp parts).2.1⟩
      exact (List.nodup_append.mp parts).2.2 i (Tree.mem_join.mpr (.inl rfl)) i member rfl
    rw [Tree.top_join] at around
    rw [if_neg (not_not.mpr none), parent, bare, Tree.toward_nil, List.nil_append]
    refine climb_run around fresh (fun j member => inside j (.inr member)) some ?_
    rw [walkLimit]
    omega
  · have high := Tree.height_le near
    have enough : near.height ≤ p.walkLimit + 1 := by
      rw [walkLimit]
      omega
    have reached : p.extremeFrom side.other p.walkLimit near.top = .ok (lastSlot (near.toward side.other)) :=
      extremeFrom_run lower (fun j member => inside j (.inl (.inr (.inl member)))) enough
    have reversed : near.toward side.other = (near.toward side).reverse := by
      rw [← Tree.reverse_toward, Side.other_other]
    have some : near.toward side ≠ [] := List.ne_nil_of_mem (Tree.mem_toward.mpr (Tree.top_mem none))
    rw [if_pos none, reached, reversed, lastSlot_reverse, firstSlot_append some]

end Pool
end Slotted
