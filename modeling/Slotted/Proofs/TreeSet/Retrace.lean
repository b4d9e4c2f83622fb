import Mathlib.Tactic.Ring
import Slotted.Proofs.TreeSet.Rotate
namespace Slotted.TreeSet

variable {α : Type} {s after : TreeSet α} {path up : List Crumb} {c : Crumb} {t t' : Tree} {height fuel : Nat}

-- A tree in balance, with the slots in this order.
structure Evens (order : List Nat) (t : Tree) (s after : TreeSet α) : Prop where
  planted : Planted t after
  weighs : Weighs after.pool.linkAt t
  slots : t.slots = order
  bodies : Pool.SameBodies (fun _ => ()) s.pool after.pool

theorem Planted.length_le (planted : Planted t s) : t.slots.length ≤ s.pool.slots.size := by
  have fewer : t.slots.length ≤ (List.range s.pool.slots.size).length := by
    apply (planted.nodup.subperm _).length_le
    intro j member
    exact List.mem_range.mpr (planted.inside j member)
  rwa [List.length_range] at fewer

theorem Planted.length_le_walkLimit (planted : Planted t s) : t.slots.length ≤ s.pool.walkLimit :=
  planted.length_le.trans (Nat.le_succ _)

theorem Planted.height_le_walkLimit (planted : Planted t s) : t.height ≤ s.pool.walkLimit :=
  (Tree.height_le t).trans planted.length_le_walkLimit

theorem Planted.path_le (planted : Planted (plug path t) s) : path.length ≤ s.pool.slots.size := by
  have all := planted.length_le
  have along := length_le_held path
  rw [slots_plug.length_eq, List.length_append] at all
  omega

theorem Planted.apart (planted : Planted (plug (c :: up) t) s) :
    c.slot ∉ t.slots ∧ c.slot ∉ c.sibling.slots ∧ c.slot ∉ held up := by
  have nodup := List.perm_middle.nodup_iff.mp (nodup_plug.mp planted.nodup)
  simp only [List.nodup_cons, List.mem_append, not_or] at nodup
  exact nodup.1

theorem Planted.bound (planted : Planted (plug (c :: up) t) s) : c.slot ≠ 0 ∧ c.slot < s.pool.slots.size :=
  ⟨(hangs_plug.mp planted.hangs).1.1, planted.inside _ (mem_plug.mpr (.inr List.mem_cons_self))⟩

-- The node above the place has taken note of the new height; further up there is still the old one.
structure Shifted (c : Crumb) (up : List Crumb) (t : Tree) (height : Nat) (balance : Int) (s m : TreeSet α) : Prop where
  planted : Planted (plug (c :: up) t) m
  bodies : Pool.SameBodies (fun _ => ()) s.pool m.pool
  here : (m.pool.linkAt c.slot).balance = balance
  others : ∀ j, j ≠ c.slot → (m.pool.linkAt j).balance = (s.pool.linkAt j).balance
  weighs : Weighs m.pool.linkAt t
  sibling : Weighs m.pool.linkAt c.sibling
  bears : Bears m.pool.linkAt up (1 + max height c.sibling.height)

theorem shift_run {change balance : Int} (planted : Planted (plug (c :: up) t) s) (weighs : Weighs s.pool.linkAt t)
    (bears : Bears s.pool.linkAt (c :: up) height) (sum : (s.pool.linkAt c.slot).balance + change = balance)
    (small : balance.natAbs ≤ 2) :
    ∃ m, shiftBalance c.slot change s = .ok balance m ∧ Shifted c up t height balance s m := by
  obtain ⟨some, inside⟩ := planted.bound
  obtain ⟨absent, absentSibling, absentUp⟩ := planted.apart
  obtain ⟨_, _, sibling, bearsUp⟩ := bears
  obtain ⟨m, ran, wired⟩ := (Rewired.refl s).shift inside some sum small
  have others : ∀ j, j ≠ c.slot → (m.pool.linkAt j).balance = (s.pool.linkAt j).balance := by
    intro j other
    rw [wired.links, adjust_other other]
  refine ⟨m, ran, planted.relined wired fun j => by simp, wired.bodies, ?_, others, ?_, ?_, ?_⟩
  · rw [wired.links, adjust_same some]
  · exact weighs.frame fun j member => others j fun same => absent (same ▸ member)
  · exact sibling.frame fun j member => others j fun same => absentSibling (same ▸ member)
  · exact bearsUp.frame fun j member => others j fun same => absentUp (same ▸ member)

namespace Shifted

variable {m : TreeSet α} {balance : Int}

theorem node (shifted : Shifted c up t height balance s m)
    (difference : balance = c.side.sign * ((t.height : Int) - c.sibling.height)) (small : balance.natAbs ≤ 1) :
    Weighs m.pool.linkAt (.join c.side t c.slot c.sibling) :=
  weighs_join.mpr ⟨shifted.here.trans difference, by rwa [shifted.here], shifted.weighs, shifted.sibling⟩

theorem evens (shifted : Shifted c up t height balance s m)
    (difference : balance = c.side.sign * ((t.height : Int) - c.sibling.height)) (small : balance.natAbs ≤ 1)
    (kept : max t.height c.sibling.height = max height c.sibling.height) :
    Evens (plug (c :: up) t).slots (plug (c :: up) t) s m := by
  have bears := shifted.bears
  rw [← kept] at bears
  refine ⟨shifted.planted, weighs_plug.mpr ⟨⟨?_, ?_, shifted.sibling, bears⟩, shifted.weighs⟩, rfl, shifted.bodies⟩
  · rw [shifted.here, difference]
  · rwa [shifted.here]

end Shifted

theorem Mends.bears (mends : Mends path t t' s after) (bears : Bears s.pool.linkAt path height) :
    Bears after.pool.linkAt path height := by
  refine bears.frame fun j member => mends.others j fun inside => ?_
  have nodup := (List.nodup_append.mp (nodup_plug.mp mends.planted.nodup)).2.2
  rw [mends.slots] at nodup
  exact nodup j inside j member rfl

theorem Mends.evens (mends : Mends path t t' s after) (bears : Bears s.pool.linkAt path t'.height) :
    Evens (plug path t).slots (plug path t') s after :=
  ⟨mends.planted, weighs_plug.mpr ⟨mends.bears bears, mends.weighs⟩, slots_plug_congr mends.slots, mends.bodies⟩

theorem Evens.later {order : List Nat} {m : TreeSet α} (evens : Evens order t m after)
    (bodies : Pool.SameBodies (fun _ => ()) s.pool m.pool) : Evens order t s after :=
  ⟨evens.planted, evens.weighs, evens.slots, bodies.trans evens.bodies⟩

theorem Planted.top_bound (planted : Planted (plug path t) s) (high : 0 < t.height) :
    t.top ≠ 0 ∧ t.top < s.pool.slots.size ∧ (s.pool.linkAt t.top).parent = above path := by
  have hangs := (hangs_plug.mp planted.hangs).2
  cases t with
  | nil => exact absurd high (Nat.lt_irrefl 0)
  | node left i right =>
    obtain ⟨some, parent, _⟩ := hangs
    exact ⟨some, planted.inside i (mem_plug.mpr (.inl (by simp [Tree.slots]))), parent⟩

-- The tree at the place has grown by a level. The induction is on the path; a tree that has two levels leans to one
-- side, so that mending the node above it always takes the level back.
theorem retraceInsertion_returns (planted : Planted (plug path t) s) (weighs : Weighs s.pool.linkAt t)
    (bears : Bears s.pool.linkAt path height) (grown : t.height = height + 1)
    (leans : height = 0 ∨ (s.pool.linkAt t.top).balance ≠ 0) (enough : path.length ≤ fuel) :
    Returns (retraceInsertion fuel t.top) s fun _ after => ∃ t', Evens (plug path t).slots t' s after := by
  induction path generalizing t s height fuel with
  | nil =>
    have planted' : Planted (plug [] t) s := planted
    obtain ⟨_, inside, parent⟩ := planted'.top_bound (by omega)
    unfold retraceInsertion
    rw [Returns, ends_link inside, parent]
    exact ⟨t, planted, weighs, rfl, .refl _⟩
  | cons c up ih =>
    obtain ⟨some, inside, parent⟩ := planted.top_bound (by omega)
    obtain ⟨someC, boundC⟩ := planted.bound
    obtain ⟨balance, small, _, _⟩ := id bears
    have slight := Side.natAbs_sign_mul c.side ((height : Int) - c.sibling.height)
    have slight' := Side.natAbs_sign_mul c.side ((height : Int) - c.sibling.height + 1)
    rw [← balance] at slight
    have sum : (s.pool.linkAt c.slot).balance + c.side.sign = c.side.sign * ((height : Int) - c.sibling.height + 1) := by
      rw [balance, Int.mul_add, Int.mul_one]
    obtain ⟨m, ran, shifted⟩ := shift_run planted weighs bears sum (by omega)
    have absent := planted.apart.1
    cases fuel with
    | zero => cases enough
    | succ fuel =>
      unfold retraceInsertion
      rw [Returns, ends_link inside, parent, above, if_neg someC]
      dsimp only
      rw [ends_link boundC, planted.side_eq some, ends_bind]
      refine Ends.of_ok ran ?_
      have taller : (height : Int) - c.sibling.height + 1 = (t.height : Int) - c.sibling.height := by omega
      have difference := congrArg (c.side.sign * ·) taller
      by_cases even : (height : Int) - c.sibling.height + 1 = 0
      · rw [if_pos (by rw [even, Int.mul_zero])]
        exact ⟨_, shifted.evens difference (by omega) (by omega)⟩
      · rw [if_neg (by omega)]
        by_cases one : (height : Int) - c.sibling.height + 1 = 1
        · rw [if_pos (by simp only [Bool.or_eq_true, decide_eq_true_eq]; omega)]
          have grown' : (Tree.join c.side t c.slot c.sibling).height = 1 + max height c.sibling.height + 1 := by
            rw [Tree.height_join]
            omega
          have leans' : (m.pool.linkAt (Tree.join c.side t c.slot c.sibling).top).balance ≠ 0 := by
            rw [Tree.top_join, shifted.here]
            omega
          have stepped := ih shifted.planted (shifted.node difference (by omega)) shifted.bears grown' (.inr leans')
            (Nat.le_of_succ_le_succ enough)
          rw [Tree.top_join] at stepped
          refine stepped.returning ?_
          intro _ after ends
          obtain ⟨t', evens⟩ := ends
          exact ⟨t', evens.later shifted.bodies⟩
        · rw [if_neg (by simp only [Bool.or_eq_true, decide_eq_true_eq]; omega)]
          have two : (height : Int) - c.sibling.height + 1 = 2 := by omega
          have tilted : (m.pool.linkAt c.slot).balance = c.side.sign * 2 := by rw [shifted.here, two]
          have mended := rebalance_returns shifted.planted shifted.weighs shifted.sibling (by omega) tilted
          refine mended.bind ?_
          intro answer after ends
          obtain ⟨top, shrank⟩ := answer
          obtain ⟨t', mends, _, high, told⟩ := ends
          have leaned : (m.pool.linkAt t.top).balance ≠ 0 := by
            rw [shifted.others _ fun same => absent (same ▸ Tree.top_mem some)]
            exact leans.resolve_left (by omega)
          have shrinks : shrank = true := by simpa [leaned] using told
          rw [shrinks, if_pos rfl] at high
          have bears' : Bears m.pool.linkAt up t'.height := by
            have kept : t'.height = 1 + max height c.sibling.height := by omega
            rw [kept]
            exact shifted.bears
          exact ⟨_, (mends.evens bears').later shifted.bodies⟩

-- One step up after a loss: the node is left as it is or mended. Its new height tells whether it lost a level itself.
theorem settle_ends {β : Type} {rest : Nat × Bool → Edit (TreeSet α) β} {returns : β → TreeSet α → Prop}
    {faults : Fault → TreeSet α → Prop} {m : TreeSet α}
    (shifted : Shifted c up t (t.height + 1) (c.side.sign * ((t.height : Int) - c.sibling.height)) s m)
    (near : ((t.height : Int) + 1 - c.sibling.height).natAbs ≤ 1) (lost : (t.height : Int) - c.sibling.height ≠ -1)
    (follows : ∀ t' shrank after, Mends up (.join c.side t c.slot c.sibling) t' m after →
      t'.height + (if shrank then 1 else 0) = 1 + max (t.height + 1) c.sibling.height →
      Ends (rest (t'.top, shrank)) after returns faults) :
    Ends (if c.side.sign * ((t.height : Int) - c.sibling.height) = 0 then pure (c.slot, true) >>= rest
      else rebalance c.slot >>= rest) m returns faults := by
  have slight := Side.natAbs_sign_mul c.side ((t.height : Int) - c.sibling.height)
  by_cases even : (t.height : Int) - c.sibling.height = 0
  · rw [if_pos (by rw [even, Int.mul_zero])]
    have level : c.sibling.height = t.height := by omega
    have whole : Mends up (.join c.side t c.slot c.sibling) (.join c.side t c.slot c.sibling) m m :=
      ⟨shifted.planted, .refl _, shifted.node rfl (by omega), rfl, fun _ _ => rfl⟩
    have goes := follows _ true m whole (by rw [Tree.height_join, level, if_pos rfl]; omega)
    rw [Tree.top_join] at goes
    exact goes
  · rw [if_neg (by omega)]
    have two : (t.height : Int) - c.sibling.height = -2 := by omega
    have tilted : (m.pool.linkAt c.slot).balance = c.side.other.sign * 2 := by
      rw [shifted.here, two, Side.sign_other]
      ring
    have planted := shifted.planted
    rw [plug, ← Tree.join_other] at planted
    refine (rebalance_returns planted shifted.sibling shifted.weighs (by omega) tilted).bind ?_
    intro answer after ends
    obtain ⟨_, shrank⟩ := answer
    obtain ⟨t', mends, rfl, high, _⟩ := ends
    rw [Tree.join_other] at mends
    refine follows t' shrank after mends ?_
    rw [high]
    cases shrank <;> simp <;> omega

-- The tree at the place has lost a level. The induction is on the path.
theorem retraceRemoval_returns (planted : Planted (plug path t) s) (weighs : Weighs s.pool.linkAt t)
    (bears : Bears s.pool.linkAt path (t.height + 1)) (enough : path.length ≤ fuel) :
    Returns (retraceRemoval fuel (above path) (turn path)) s fun _ after => ∃ t', Evens (plug path t).slots t' s after := by
  induction path generalizing t s fuel with
  | nil =>
    unfold retraceRemoval
    exact ⟨t, planted, weighs, rfl, .refl _⟩
  | cons c up ih =>
    obtain ⟨someC, boundC⟩ := planted.bound
    obtain ⟨balance, small, _, _⟩ := id bears
    have parent : (s.pool.linkAt c.slot).parent = above up := (hangs_plug.mp planted.hangs).1.2.1
    have slight := Side.natAbs_sign_mul c.side (((t.height + 1 : Nat) : Int) - c.sibling.height)
    have slight' := Side.natAbs_sign_mul c.side ((t.height : Int) - c.sibling.height)
    rw [← balance] at slight
    have sum : (s.pool.linkAt c.slot).balance + -c.side.sign = c.side.sign * ((t.height : Int) - c.sibling.height) := by
      rw [balance]
      push_cast
      ring
    obtain ⟨m, ran, shifted⟩ := shift_run planted weighs bears sum (by omega)
    cases fuel with
    | zero => cases enough
    | succ fuel =>
      unfold retraceRemoval
      rw [above, turn, Returns, if_neg someC]
      dsimp only
      rw [ends_link boundC, parent, ends_bind]
      refine Ends.of_ok ran ?_
      by_cases one : (t.height : Int) - c.sibling.height = -1
      · rw [if_pos (by simp only [Bool.or_eq_true, decide_eq_true_eq]; omega)]
        exact ⟨_, shifted.evens rfl (by omega) (by omega)⟩
      · rw [if_neg (by simp only [Bool.or_eq_true, decide_eq_true_eq]; omega)]
        refine settle_ends shifted (by omega) one fun t' shrank after mends high => ?_
        have borne := shifted.bears
        rw [← high] at borne
        cases shrank with
        | false => exact ⟨_, (mends.evens borne).later shifted.bodies⟩
        | true =>
          cases up with
          | nil => exact ⟨_, (mends.evens trivial).later shifted.bodies⟩
          | cons d up =>
            obtain ⟨someD, boundD⟩ := mends.planted.bound
            have some : t'.top ≠ 0 := by
              refine (hangs_plug.mp mends.planted.hangs).2.top_ne (i := c.slot) ?_
              rw [mends.slots]
              exact Tree.mem_join.mpr (.inl rfl)
            rw [if_neg (by simp [above, someD]), above, ends_link boundD, mends.planted.side_eq some]
            refine (ih mends.planted mends.weighs (mends.bears borne) (Nat.le_of_succ_le_succ enough)).returning ?_
            intro _ after' ends
            obtain ⟨t'', evens⟩ := ends
            refine ⟨t'', evens.planted, evens.weighs, ?_, shifted.bodies.trans (mends.bodies.trans evens.bodies)⟩
            rw [evens.slots, slots_plug_congr mends.slots]
            rfl

end Slotted.TreeSet
