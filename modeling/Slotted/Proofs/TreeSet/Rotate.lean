import Slotted.Proofs.TreeSet.Limb
import Slotted.TreeSet.Balance
namespace Slotted.TreeSet

variable {α : Type} {s : TreeSet α} {d : Side} {path : List Crumb} {inner outer rest : Tree} {parent x z : Nat}

-- The shape around an edge from `x` down to `z`, which is turned so that `x` goes down on side `d`.
def leaning (d : Side) (inner : Tree) (z : Nat) (outer : Tree) (x : Nat) (rest : Tree) : Tree :=
  .join d.other (.join d inner z outer) x rest

theorem slots_leaning : (leaning d.other inner x rest z outer).slots = (leaning d inner z outer x rest).slots := by
  cases d <;> simp [leaning, Tree.join, Tree.slots, Side.other]

theorem leaning_perm : (leaning d inner z outer x rest).slots.Perm (x :: z :: (inner.slots ++ (outer.slots ++ rest.slots))) := by
  have upper : (leaning d inner z outer x rest).slots.Perm (x :: ((Tree.join d inner z outer).slots ++ rest.slots)) :=
    Tree.slots_join
  have lower : (Tree.join d inner z outer).slots.Perm (z :: (inner.slots ++ outer.slots)) := Tree.slots_join
  have whole := upper.trans ((lower.append_right rest.slots).cons x)
  simpa only [List.cons_append, List.append_assoc] using whole

theorem hangs_turned {links links' : Nat → TreeLink}
    (hangs : Hangs links parent (leaning d inner z outer x rest)) (nodup : (leaning d inner z outer x rest).slots.Nodup)
    (atX : links' x = { (links x).setChild d.other inner.top with parent := z })
    (atZ : links' z = { (links z).setChild d x with parent := parent })
    (atInner : inner.top ≠ 0 → links' inner.top = { links inner.top with parent := x })
    (others : ∀ j, j ≠ x → j ≠ z → j ≠ inner.top → links' j = links j) :
    Hangs links' parent (leaning d.other inner x rest z outer) := by
  obtain ⟨someX, _, _, toRest, lower, hangsRest⟩ := hangs_join.mp hangs
  obtain ⟨someZ, _, _, toOuter, hangsInner, hangsOuter⟩ := hangs_join.mp lower
  have apart := leaning_perm.nodup_iff.mp nodup
  simp only [List.nodup_cons, List.nodup_append, List.mem_cons, List.mem_append, not_or] at apart
  obtain ⟨⟨_, xInner, xOuter, xRest⟩, ⟨zInner, zOuter, zRest⟩, nodupInner, ⟨_, _, _⟩, innerElse⟩ := apart
  have same : ∀ {t : Tree}, Hangs links x t ∨ Hangs links z t → x ∉ t.slots → z ∉ t.slots →
      (∀ j ∈ t.slots, j ∉ inner.slots) → ∀ j ∈ t.slots, (links' j).lines = (links j).lines := by
    intro t hangs absentX absentZ outside j member
    have some : j ≠ 0 := hangs.elim (·.positive member) (·.positive member)
    rw [others j (fun same => absentX (same ▸ member)) (fun same => absentZ (same ▸ member))
      (Ne.symm (Tree.top_ne (outside j member) some))]
  have movedInner : Hangs links' x inner := by
    refine hangsInner.reparent nodupInner ?_ ?_
    · intro j member other
      rw [others j (fun same => xInner (same ▸ member)) (fun same => zInner (same ▸ member)) other]
    · intro some
      rw [atInner some]
      rfl
  have keptRest : Hangs links' x rest := hangsRest.frame (same (.inl hangsRest) xRest zRest fun j member inner =>
    innerElse j inner j (.inr member) rfl)
  have keptOuter : Hangs links' z outer := hangsOuter.frame (same (.inr hangsOuter) xOuter zOuter fun j member inner =>
    innerElse j inner j (.inl member) rfl)
  simp only [Side.other_other] at toRest
  have ne := Side.other_ne d
  refine hangs_join.mpr ⟨someZ, ?_, ?_, ?_, hangs_join.mpr ⟨someX, ?_, ?_, ?_, movedInner, ?_⟩, ?_⟩
  · rw [atZ]
  · rw [atZ, TreeLink.child_parent, Side.other_other, TreeLink.child_set, Tree.top_join]
  · rw [atZ, TreeLink.child_parent, Side.other_other, TreeLink.child_set_other ne, toOuter]
  · rw [atX]
  · rw [atX, TreeLink.child_parent, TreeLink.child_set]
  · rw [atX, TreeLink.child_parent, Side.other_other, TreeLink.child_set_other ne.symm, toRest]
  · exact keptRest
  · exact keptOuter

theorem rotate_regrows (limb : Limb parent (leaning d inner z outer x rest) s) :
    Returns (rotate d x) s fun _ after =>
      Regrown parent (leaning d inner z outer x rest) (leaning d.other inner x rest z outer) s after ∧
        ∀ j, (after.pool.linkAt j).balance = (s.pool.linkAt j).balance := by
  obtain ⟨someX, upX, toZ, _, lower, _⟩ := hangs_join.mp limb.hangs
  obtain ⟨someZ, _, toInner, _⟩ := hangs_join.mp lower
  simp only [Tree.top_join] at toZ
  have member : ∀ {j : Nat}, j ∈ (leaning d inner z outer x rest).slots ↔
      j = x ∨ j = z ∨ j ∈ inner.slots ∨ j ∈ outer.slots ∨ j ∈ rest.slots := fun {j} => by
    rw [leaning_perm.mem_iff]
    simp only [List.mem_cons, List.mem_append]
  have boundX := limb.inside x (member.mpr (.inl rfl))
  have boundZ := limb.inside z (member.mpr (.inr (.inl rfl)))
  have innerIn : inner.top ≠ 0 → inner.top ∈ (leaning d inner z outer x rest).slots := fun some =>
    member.mpr (.inr (.inr (.inl (Tree.top_mem some))))
  obtain ⟨s1, ran1, wired1⟩ := (Rewired.refl s).modify boundX someX (·.setChild d.other inner.top)
  obtain ⟨s2, ran2, wired2⟩ := wired1.reparent (fun some => limb.inside _ (innerIn some)) x
  obtain ⟨s3, ran3, wired3⟩ := wired2.modify boundZ someZ (·.setChild d x)
  obtain ⟨s4, ran4, wired4⟩ := wired3.modify boundX someX fun link => { link with parent := z }
  obtain ⟨s5, ran5, wired5⟩ := wired4.modify boundZ someZ fun link => { link with parent := parent }
  have ran : rotate d x s = replaceChild .parentOwnsChild parent x z s5 := by
    rw [rotate, bind_ok ((Rewired.refl s).link boundX)]
    dsimp only
    rw [toZ, bind_ok ((Rewired.refl s).link boundZ), toInner,
      bind_ok ((Rewired.refl s).link boundX), upX, bind_ok (show setChild x d.other inner.top s = _ from ran1), bind_ok ran2,
      bind_ok (show setChild z d x s2 = _ from ran3), bind_ok ran4, bind_ok ran5]
  have nodup := leaning_perm.nodup_iff.mp limb.nodup
  simp only [List.nodup_cons, List.mem_cons, List.mem_append, not_or] at nodup
  have apart : x ≠ z ∧ inner.top ≠ x ∧ inner.top ≠ z := by
    refine ⟨nodup.1.1, Tree.top_ne nodup.1.2.1 someX, Tree.top_ne nodup.2.1.1 someZ⟩
  have others : ∀ j, j ≠ x → j ≠ z → j ≠ inner.top → s5.pool.linkAt j = s.pool.linkAt j := by
    intro j apartX apartZ apartInner
    simp [wired5.links, adjust, apartX, apartZ, apartInner]
  have atX : s5.pool.linkAt x = { (s.pool.linkAt x).setChild d.other inner.top with parent := z } := by
    simp [wired5.links, adjust, someX, apart.1, Ne.symm apart.2.1]
  have atZ : s5.pool.linkAt z = { (s.pool.linkAt z).setChild d x with parent := parent } := by
    simp [wired5.links, adjust, someZ, Ne.symm apart.1, Ne.symm apart.2.2]
  have atInner : inner.top ≠ 0 → s5.pool.linkAt inner.top = { s.pool.linkAt inner.top with parent := x } := by
    intro some
    simp [wired5.links, adjust, some, apart.2.1, apart.2.2]
  have hangs' : Hangs s5.pool.linkAt parent (leaning d.other inner x rest z outer) :=
    hangs_turned limb.hangs limb.nodup atX atZ atInner others
  have kept : ∀ j, j ∉ (leaning d inner z outer x rest).slots → s5.pool.linkAt j = s.pool.linkAt j := by
    intro j absent
    have apartX : j ≠ x := fun same => absent (member.mpr (.inl same))
    have apartZ : j ≠ z := fun same => absent (member.mpr (.inr (.inl same)))
    by_cases none : inner.top = 0
    · simp [wired5.links, adjust, apartX, apartZ, none]
    · exact others j apartX apartZ fun same => absent (same ▸ innerIn none)
  have top : (leaning d inner z outer x rest).top = x := Tree.top_join
  have top' : (leaning d.other inner x rest z outer).top = z := Tree.top_join
  obtain ⟨after, hung, regrown, links⟩ := limb.replaced .parentOwnsChild wired5.bodies wired5.index kept hangs'
    slots_leaning
  rw [top, top'] at hung
  refine Ends.of_ok (ran.trans hung) ⟨regrown, fun j => ?_⟩
  rw [links]
  simp [wired5.links]

theorem leaning_other : leaning d.other inner z outer x rest = .join d (.join d outer z inner) x rest := by
  cases d <;> rfl

structure Restores (parent : Nat) (t t' : Tree) (s after : TreeSet α) : Prop extends Regrown parent t t' s after where
  weighs : Weighs after.pool.linkAt t'

theorem turn_ends {heavy : Side} {β : Type} {rest' : Edit (TreeSet α) β} {returns : β → TreeSet α → Prop}
    {faults : Fault → TreeSet α → Prop} {atX atZ : Int}
    (limb : Limb parent (.join heavy (.join heavy outer z inner) x rest) s)
    (weighsOuter : Weighs s.pool.linkAt outer) (weighsInner : Weighs s.pool.linkAt inner)
    (weighsRest : Weighs s.pool.linkAt rest) (heightsX : atX = heavy.sign * ((inner.height : Int) - rest.height))
    (heightsZ : atZ = heavy.other.sign * (((1 + max inner.height rest.height : Nat) : Int) - outer.height))
    (smallX : atX.natAbs ≤ 1) (smallZ : atZ.natAbs ≤ 1)
    (follows : ∀ after, Restores parent (.join heavy (.join heavy outer z inner) x rest)
      (.join heavy.other (.join heavy inner x rest) z outer) s after → Ends rest' after returns faults) :
    Ends (do
      rotate heavy.other x
      setBalance x atX
      setBalance z atZ
      rest') s returns faults := by
  have leans := limb
  rw [← leaning_other] at leans
  refine Returns.bind (rotate_regrows leans) ?_
  intro _ m ends
  obtain ⟨regrown, balances⟩ := ends
  rw [leaning_other] at regrown
  simp only [leaning, Side.other_other] at regrown
  obtain ⟨someX, _, _, _, lower, _⟩ := hangs_join.mp limb.hangs
  obtain ⟨someZ, _⟩ := hangs_join.mp lower
  have inside := regrown.limb.inside
  simp only [Tree.mem_join] at inside
  obtain ⟨m1, ran1, wired1⟩ := (Rewired.refl m).modify (inside x (by simp)) someX
    fun link => { link with balance := atX }
  obtain ⟨after, ran2, wired2⟩ := wired1.modify (inside z (by simp)) someZ
    fun link => { link with balance := atZ }
  rw [ends_bind]
  refine Ends.of_ok (show setBalance x _ m = _ from ran1) ?_
  rw [ends_bind]
  refine Ends.of_ok (show setBalance z _ m1 = _ from ran2) (follows after ?_)
  have nodup := leaning_perm.nodup_iff.mp leans.nodup
  simp only [List.nodup_cons, List.mem_cons, List.mem_append, not_or] at nodup
  obtain ⟨⟨apart, xInner, xOuter, xRest⟩, ⟨zInner, zOuter, zRest⟩, _⟩ := nodup
  have others : ∀ j, j ≠ x → j ≠ z → (after.pool.linkAt j).balance = (s.pool.linkAt j).balance := by
    intro j apartX apartZ
    rw [wired2.links, adjust_other apartZ, adjust_other apartX, balances]
  have kept : ∀ {t : Tree}, Weighs s.pool.linkAt t → x ∉ t.slots → z ∉ t.slots → Weighs after.pool.linkAt t := by
    intro t weighs absentX absentZ
    exact weighs.frame fun j member =>
      others j (fun same => absentX (same ▸ member)) fun same => absentZ (same ▸ member)
  refine ⟨regrown.relined wired2 (fun j => by simp) fun j absent => ?_, ?_⟩
  · simp only [Tree.mem_join, not_or] at absent
    rw [adjust_other absent.2.1.1, adjust_other absent.1]
  · have hereX : (after.pool.linkAt x).balance = atX := by
      rw [wired2.links, adjust_other apart, adjust_same someX]
    have hereZ : (after.pool.linkAt z).balance = atZ := by
      rw [wired2.links, adjust_same someZ]
    refine weighs_join.mpr ⟨?_, hereZ ▸ smallZ, weighs_join.mpr ⟨hereX.trans heightsX, hereX ▸ smallX, ?_, ?_⟩, ?_⟩
    · rw [hereZ, Tree.height_join, heightsZ]
    · exact kept weighsInner xInner zInner
    · exact kept weighsRest xRest zRest
    · exact kept weighsOuter xOuter zOuter

-- Two turns bring the inner grandchild up; it is in balance between the two.
theorem turns_ends {heavy : Side} {β : Type} {rest' : Edit (TreeSet α) β} {returns : β → TreeSet α → Prop}
    {faults : Fault → TreeSet α → Prop} {atX atZ : Int} {near far : Tree} {y : Nat}
    (limb : Limb parent (.join heavy (.join heavy outer z (.join heavy near y far)) x rest) s)
    (weighsOuter : Weighs s.pool.linkAt outer) (weighsNear : Weighs s.pool.linkAt near)
    (weighsFar : Weighs s.pool.linkAt far) (weighsRest : Weighs s.pool.linkAt rest)
    (heightsX : atX = heavy.sign * ((far.height : Int) - rest.height))
    (heightsZ : atZ = heavy.other.sign * ((near.height : Int) - outer.height))
    (level : max far.height rest.height = max near.height outer.height) (smallX : atX.natAbs ≤ 1)
    (smallZ : atZ.natAbs ≤ 1)
    (follows : ∀ after, Restores parent (.join heavy (.join heavy outer z (.join heavy near y far)) x rest)
      (.join heavy.other (.join heavy far x rest) y (.join heavy.other near z outer)) s after →
      Ends rest' after returns faults) :
    Ends (do
      rotate heavy z
      rotate heavy.other x
      setBalance x atX
      setBalance z atZ
      setBalance y 0
      rest') s returns faults := by
  -- the lower edge is turned first, under the upper node
  have lower : Limb x (leaning heavy near y far z outer) s := by
    have below := limb.below
    rwa [← Tree.join_other] at below
  refine Returns.bind (rotate_regrows lower) ?_
  intro _ m ends
  obtain ⟨below, balances⟩ := ends
  have beneath : Regrown x (.join heavy outer z (.join heavy near y far)) (.join heavy (.join heavy.other near z outer) y far) s m := by
    rw [leaning, Tree.join_other, leaning, Side.other_other] at below
    exact below
  obtain ⟨upper, around, index⟩ := limb.regrow (by rw [Tree.top_join]; exact (hangs_join.mp lower.hangs).1) beneath
  rw [← leaning_other] at upper
  refine Returns.bind (rotate_regrows upper) ?_
  intro _ m' ends
  obtain ⟨above, balances'⟩ := ends
  rw [leaning_other] at above
  simp only [leaning, Side.other_other] at above
  have regrown := above.over beneath around index
  have leans := limb.nodup
  rw [← leaning_other, leaning_perm.nodup_iff] at leans
  have deeper := leaning_perm.nodup_iff.mp lower.nodup
  simp only [List.nodup_cons, List.mem_cons, List.mem_append, Tree.mem_join, not_or] at leans deeper
  obtain ⟨⟨xz, ⟨xy, xNear, xFar⟩, xOuter, xRest⟩, ⟨⟨zy, zNear, zFar⟩, zOuter, zRest⟩, _⟩ := leans
  obtain ⟨_, ⟨yNear, yFar, yOuter⟩, _⟩ := deeper
  have yRest : y ∉ rest.slots := by
    have nodup := Tree.slots_join.nodup_iff.mp limb.nodup
    simp only [List.nodup_cons, List.nodup_append] at nodup
    exact fun member => nodup.2.2.2 y (by simp [Tree.mem_join]) y member rfl
  have inside := regrown.limb.inside
  simp only [Tree.mem_join] at inside
  obtain ⟨someY, _, _, _, hangsX, hangsZ⟩ := hangs_join.mp regrown.limb.hangs
  obtain ⟨someX, _⟩ := hangs_join.mp hangsX
  obtain ⟨someZ, _⟩ := hangs_join.mp hangsZ
  obtain ⟨m1, ran1, wired1⟩ := (Rewired.refl m').modify (inside x (by simp)) someX
    fun link => { link with balance := atX }
  obtain ⟨m2, ran2, wired2⟩ := wired1.modify (inside z (by simp)) someZ
    fun link => { link with balance := atZ }
  obtain ⟨after, ran3, wired3⟩ := wired2.modify (inside y (by simp)) someY fun link => { link with balance := 0 }
  rw [ends_bind]
  refine Ends.of_ok (show setBalance x _ m' = _ from ran1) ?_
  rw [ends_bind]
  refine Ends.of_ok (show setBalance z _ m1 = _ from ran2) ?_
  rw [ends_bind]
  refine Ends.of_ok (show setBalance y _ m2 = _ from ran3) (follows after ?_)
  have others : ∀ j, j ≠ x → j ≠ z → j ≠ y → (after.pool.linkAt j).balance = (s.pool.linkAt j).balance := by
    intro j apartX apartZ apartY
    rw [wired3.links, adjust_other apartY, adjust_other apartZ, adjust_other apartX, balances', balances]
  have kept : ∀ {t : Tree}, Weighs s.pool.linkAt t → x ∉ t.slots → z ∉ t.slots → y ∉ t.slots →
      Weighs after.pool.linkAt t := by
    intro t weighs absentX absentZ absentY
    exact weighs.frame fun j member => others j (fun same => absentX (same ▸ member))
      (fun same => absentZ (same ▸ member)) fun same => absentY (same ▸ member)
  have hereX : (after.pool.linkAt x).balance = atX := by
    rw [wired3.links, adjust_other xy, adjust_other xz, adjust_same someX]
  have hereZ : (after.pool.linkAt z).balance = atZ := by
    rw [wired3.links, adjust_other zy, adjust_same someZ]
  have hereY : (after.pool.linkAt y).balance = 0 := by
    rw [wired3.links, adjust_same someY]
  refine ⟨regrown.relined wired3 (fun j => by simp) fun j absent => ?_, ?_⟩
  · simp only [Tree.mem_join, not_or] at absent
    obtain ⟨apartX, ⟨apartZ, _, apartY, _⟩, _⟩ := absent
    rw [adjust_other apartY, adjust_other apartZ, adjust_other apartX]
  · refine weighs_join.mpr ⟨?_, hereY ▸ Nat.zero_le 1, weighs_join.mpr ⟨hereX.trans heightsX, hereX ▸ smallX, ?_, ?_⟩,
      weighs_join.mpr ⟨hereZ.trans heightsZ, hereZ ▸ smallZ, ?_, ?_⟩⟩
    · rw [hereY, Tree.height_join, Tree.height_join, level, Int.sub_self, Int.mul_zero]
    · exact kept weighsFar xFar zFar yFar
    · exact kept weighsRest xRest zRest yRest
    · exact kept weighsNear xNear zNear yNear
    · exact kept weighsOuter xOuter zOuter yOuter

theorem below_greater {near far top : Nat} (slight : ((near : Int) - far).natAbs ≤ 1) (greater : max near far = top) :
    (far : Int) - top = (if 0 < (near : Int) - far then -1 else 0) ∧
      (near : Int) - top = if (near : Int) - far < 0 then -1 else 0 := by
  constructor
  · split <;> omega
  · split <;> omega

-- The heavier side is two levels higher, and all below is in balance. Afterwards the whole is in balance, and lower by
-- a level unless the heavy child leaned to neither side.
theorem rebalance_mends {heavy : Side} {tall : Tree} (limb : Limb parent (.join heavy tall x rest) s)
    (weighs : Weighs s.pool.linkAt tall) (weighsRest : Weighs s.pool.linkAt rest) (two : tall.height = rest.height + 2)
    (tilted : (s.pool.linkAt x).balance = heavy.sign * 2) :
    Returns (rebalance x) s fun (top, shrank) after => ∃ t', Restores parent (.join heavy tall x rest) t' s after ∧
      top = t'.top ∧ t'.height = (if shrank then tall.height else tall.height + 1) ∧
      shrank = decide ((s.pool.linkAt tall.top).balance ≠ 0) := by
  obtain ⟨_, _, toZ, _, lower, _⟩ := hangs_join.mp limb.hangs
  have inside := limb.inside
  simp only [Tree.mem_join] at inside
  have side : (if 0 < (s.pool.linkAt x).balance then Side.right else .left) = heavy := by
    rw [tilted]
    cases heavy <;> rfl
  rcases Tree.join_cases heavy tall with rfl | ⟨outer, z, inner, rfl⟩
  · cases two
  obtain ⟨balance, small, weighsOuter, weighsInner⟩ := weighs_join.mp weighs
  obtain ⟨_, _, _, toInner, _, _⟩ := hangs_join.mp lower
  simp only [Tree.top_join, Tree.height_join, Tree.mem_join] at *
  have tilt := Side.sign_mul_self heavy ((outer.height : Int) - inner.height)
  rw [← balance] at tilt
  have slight := Side.natAbs_sign_mul heavy (s.pool.linkAt z).balance
  rw [tilt] at slight
  have boundX := inside x (by simp)
  have boundZ := inside z (by simp)
  rw [rebalance, Returns, ends_link boundX]
  dsimp only
  rw [side, ends_link boundX, toZ, ends_link boundZ, tilt]
  by_cases leans : 0 ≤ (outer.height : Int) - inner.height
  · rw [if_pos leans]
    by_cases level : (s.pool.linkAt z).balance = 0
    · rw [if_pos level]
      rw [level, Int.mul_zero] at tilt
      have lower : (inner.height : Int) - rest.height = 1 := by omega
      have upper : ((1 + max inner.height rest.height : Nat) : Int) - outer.height = 1 := by omega
      refine turn_ends limb weighsOuter weighsInner weighsRest ?_ ?_ ?_ ?_ ?_
      · rw [lower, Int.mul_one]
      · rw [upper, Int.mul_one, Side.sign_other]
      · cases heavy <;> exact Nat.le_refl 1
      · cases heavy <;> exact Nat.le_refl 1
      · intro after restores
        refine ⟨_, restores, by simp, ?_, by simp [level]⟩
        simp only [Tree.height_join, Bool.false_eq_true, if_false]
        omega
    · rw [if_neg level]
      have lower : (inner.height : Int) - rest.height = 0 := by omega
      have upper : ((1 + max inner.height rest.height : Nat) : Int) - outer.height = 0 := by omega
      refine turn_ends limb weighsOuter weighsInner weighsRest ?_ ?_ ?_ ?_ ?_
      · rw [lower, Int.mul_zero]
      · rw [upper, Int.mul_zero]
      · exact Nat.zero_le 1
      · exact Nat.zero_le 1
      · intro after restores
        refine ⟨_, restores, by simp, ?_, by simp [level]⟩
        simp only [Tree.height_join, if_true]
        omega
  · rw [if_neg leans]
    rcases Tree.join_cases heavy inner with rfl | ⟨near, y, far, rfl⟩
    · simp only [Tree.height] at leans
      omega
    obtain ⟨balanceY, smallY, weighsNear, weighsFar⟩ := weighs_join.mp weighsInner
    have tall : (Tree.join heavy near y far).height = 1 + max near.height far.height := Tree.height_join
    have boundY := inside y (by simp [Tree.mem_join])
    have tiltY := Side.sign_mul_self heavy ((near.height : Int) - far.height)
    have slightY := Side.natAbs_sign_mul heavy (s.pool.linkAt y).balance
    rw [← balanceY] at tiltY
    rw [tiltY] at slightY
    have level : (s.pool.linkAt z).balance ≠ 0 := by
      intro level
      rw [level, Int.mul_zero] at tilt
      omega
    rw [ends_link boundZ, toInner, Tree.top_join, ends_link boundY, tiltY]
    have outerEven : outer.height = rest.height := by omega
    have greater : max near.height far.height = rest.height := by omega
    obtain ⟨gapFar, gapNear⟩ := below_greater (slightY.trans_le smallY) greater
    refine turns_ends limb weighsOuter weighsNear weighsFar weighsRest ?_ ?_ ?_ ?_ ?_ ?_
    · rw [gapFar]
      split <;> simp
    · rw [outerEven, gapNear]
      split <;> simp [Side.sign_other]
    · omega
    · cases heavy <;> (split <;> decide)
    · cases heavy <;> (split <;> decide)
    · intro after restores
      refine ⟨_, restores, by simp, ?_, by simp [level]⟩
      simp only [Tree.height_join, if_true]
      omega

-- A node that is two levels out of balance over two subtrees that are in balance, wherever it hangs. In its place comes a
-- subtree in balance with the same slots in order, under the same parent or as the root. Outside only the line that leads
-- there is drawn anew, and the flag is up exactly if the subtree is a level lower than before.
theorem rebalance_restores {left right : Tree} (limb : Limb parent (.node left x right) s)
    (weighsLeft : Weighs s.pool.linkAt left) (weighsRight : Weighs s.pool.linkAt right)
    (tilted : (s.pool.linkAt x).balance = (right.height : Int) - left.height)
    (two : (s.pool.linkAt x).balance = 2 ∨ (s.pool.linkAt x).balance = -2) :
    ∃ t' shrank after, rebalance x s = .ok (t'.top, shrank) after ∧ Restores parent (.node left x right) t' s after ∧
      (shrank = true ↔ t'.height + 1 = (Tree.node left x right).height) ∧
      (shrank = false ↔ t'.height = (Tree.node left x right).height) := by
  have mended : Returns (rebalance x) s fun (top, shrank) after => ∃ t', Restores parent (.node left x right) t' s after ∧
      top = t'.top ∧ t'.height + (if shrank then 1 else 0) = (Tree.node left x right).height := by
    rcases two with two | two
    · have leans : Limb parent (.join .right right x left) s := limb
      refine (rebalance_mends leans weighsRight weighsLeft (by omega) (by rw [two]; rfl)).returning ?_
      intro (top, shrank) after ends
      obtain ⟨t', restores, named, height, _⟩ := ends
      refine ⟨t', restores, named, ?_⟩
      simp only [height, Tree.height]
      cases shrank <;> simp <;> omega
    · have leans : Limb parent (.join .left left x right) s := limb
      refine (rebalance_mends leans weighsLeft weighsRight (by omega) (by rw [two]; rfl)).returning ?_
      intro (top, shrank) after ends
      obtain ⟨t', restores, named, height, _⟩ := ends
      refine ⟨t', restores, named, ?_⟩
      simp only [height, Tree.height]
      cases shrank <;> simp <;> omega
  obtain ⟨answer, after, ran, ends⟩ := mended.exists
  obtain ⟨_, shrank⟩ := answer
  obtain ⟨t', restores, rfl, height⟩ := ends
  refine ⟨t', shrank, after, ran, restores, ?_⟩
  cases shrank <;> simp at height ⊢ <;> omega

-- Below slot 4 its left child 1 leans to the right, where the inner grandchild is alone; the other line of slot 4 leads
-- nowhere in the tree.
theorem rebalance_restores_of_numbers :
    let links : List TreeLink := [⟨0, 0, 0, 0⟩, ⟨4, 0, 3, 2⟩, ⟨3, 0, 0, 0⟩, ⟨1, 2, 0, -1⟩, ⟨0, 1, 9, 7⟩]
    let s : TreeSet Nat := ⟨⟨(links.map fun link => ⟨true, link, some link.parent⟩).toArray, 5, 4⟩, ⟨4⟩⟩
    ∃ t' shrank after, rebalance 1 s = .ok (t'.top, shrank) after ∧
      Restores 4 (.node .nil 1 (.node (.node .nil 2 .nil) 3 .nil)) t' s after ∧
      (shrank = true ↔ t'.height + 1 = 3) ∧ (shrank = false ↔ t'.height = 3) := by
  intro links s
  refine rebalance_restores ⟨?_, by decide, by decide, fun _ => ?_⟩ trivial ?_ rfl (.inl rfl)
  · simp only [Hangs]
    decide
  · exact ⟨by decide, .left, rfl⟩
  · simp only [Weighs]
    decide

-- A place is given a tree of the same order that is in balance, and no other balance is touched.
structure Mends (path : List Crumb) (t t' : Tree) (s after : TreeSet α) : Prop where
  planted : Planted (plug path t') after
  bodies : Pool.SameBodies (fun _ => ()) s.pool after.pool
  weighs : Weighs after.pool.linkAt t'
  slots : t'.slots = t.slots
  others : ∀ j, j ∉ t.slots → (after.pool.linkAt j).balance = (s.pool.linkAt j).balance

theorem rebalance_returns {heavy : Side} {tall : Tree} (planted : Planted (plug path (.join heavy tall x rest)) s)
    (weighs : Weighs s.pool.linkAt tall) (weighsRest : Weighs s.pool.linkAt rest) (two : tall.height = rest.height + 2)
    (tilted : (s.pool.linkAt x).balance = heavy.sign * 2) :
    Returns (rebalance x) s fun (top, shrank) after => ∃ t', Mends path (.join heavy tall x rest) t' s after ∧
      top = t'.top ∧ t'.height = (if shrank then tall.height else tall.height + 1) ∧
      shrank = decide ((s.pool.linkAt tall.top).balance ≠ 0) := by
  refine (rebalance_mends planted.limb weighs weighsRest two tilted).returning ?_
  intro (top, shrank) after ends
  obtain ⟨t', restores, answers⟩ := ends
  have someX : (Tree.join heavy tall x rest).top ≠ 0 := by
    rw [Tree.top_join]
    exact (hangs_join.mp planted.limb.hangs).1
  refine ⟨t', ⟨planted.regrown someX restores.toRegrown, restores.bodies, restores.weighs, restores.slots, ?_⟩, answers⟩
  intro j absent
  rw [restores.others j absent, balance_redraw]

end Slotted.TreeSet
