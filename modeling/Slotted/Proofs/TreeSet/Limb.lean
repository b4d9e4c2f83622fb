import Slotted.Proofs.TreeSet.Links
namespace Slotted

namespace TreeLink

variable {link : TreeLink} {side : Side} {i : Nat}

theorem sideOf_eq (there : link.child side = i) (apart : link.child side.other ≠ i) : link.sideOf i = side := by
  unfold sideOf
  cases side with
  | left => exact if_pos there
  | right => exact if_neg apart

end TreeLink

variable {links : Nat → TreeLink} {side : Side} {t : Tree} {parent : Nat}

theorem Hangs.child_mem (hangs : Hangs links parent t) {j : Nat} (member : j ∈ t.slots) (side : Side) :
    (links j).child side = 0 ∨ (links j).child side ∈ t.slots := by
  induction t using Tree.join_induction side generalizing parent with
  | nil => cases member
  | join near i far ihNear ihFar =>
    obtain ⟨_, _, toNear, _, hangsNear, hangsFar⟩ := hangs_join.mp hangs
    simp only [Tree.mem_join] at member ⊢
    rcases member with rfl | member | member
    · rw [toNear]
      by_cases none : near.top = 0
      · exact .inl none
      · exact .inr (.inr (.inl (Tree.top_mem none)))
    · exact (ihNear hangsNear member).imp id fun inner => .inr (.inl inner)
    · exact (ihFar hangsFar member).imp id fun inner => .inr (.inr inner)

theorem Hangs.child_ne_top (hangs : Hangs links parent t) (nodup : t.slots.Nodup) {j : Nat} (member : j ∈ t.slots)
    (side : Side) : (links j).child side ≠ t.top := by
  rcases Tree.join_cases side t with rfl | ⟨near, i, far, rfl⟩
  · cases member
  obtain ⟨some, _, toNear, _, hangsNear, hangsFar⟩ := hangs_join.mp hangs
  have apart := Tree.slots_join.nodup_iff.mp nodup
  simp only [List.nodup_cons, List.mem_append, not_or] at apart
  obtain ⟨⟨absentNear, absentFar⟩, _⟩ := apart
  rw [Tree.top_join]
  intro same
  rcases Tree.mem_join.mp member with rfl | member | member
  · exact Tree.top_ne absentNear some (toNear.symm.trans same)
  · rcases hangsNear.child_mem member side with none | inner
    · exact some (same.symm.trans none)
    · exact absentNear (same ▸ inner)
  · rcases hangsFar.child_mem member side with none | inner
    · exact some (same.symm.trans none)
    · exact absentFar (same ▸ inner)

theorem Tree.slots_join_congr {near near' far : Tree} {i : Nat} (same : near'.slots = near.slots) :
    (join side near' i far).slots = (join side near i far).slots := by
  cases side <;> simp [join, slots, same]

namespace TreeSet

variable {α : Type} {s m after : TreeSet α} {path : List Crumb} {t' near near' far : Tree} {x : Nat}

-- A subtree that hangs under this parent, and the parent names it as its child. Of the rest of the links nothing is said,
-- and without a parent nothing of the root.
structure Limb (parent : Nat) (t : Tree) (s : TreeSet α) : Prop where
  hangs : Hangs s.pool.linkAt parent t
  nodup : t.slots.Nodup
  inside : ∀ j ∈ t.slots, j < s.pool.slots.size
  owned : parent ≠ 0 → parent < s.pool.slots.size ∧ ∃ side, (s.pool.linkAt parent).child side = t.top

-- The line that leads from a parent to its child is drawn to another slot.
def redraw (links : Nat → TreeLink) (parent old new : Nat) : Nat → TreeLink :=
  adjust links parent fun link => link.setChild (link.sideOf old) new

-- Another subtree with the same slots in order, in the place of this one and with nothing else changed but the line that
-- leads there; at the top that is the root.
structure Regrown (parent : Nat) (t t' : Tree) (s after : TreeSet α) : Prop where
  limb : Limb parent t' after
  slots : t'.slots = t.slots
  bodies : Pool.SameBodies (fun _ => ()) s.pool after.pool
  index : after.index = if parent = 0 then ⟨t'.top⟩ else s.index
  others : ∀ j, j ∉ t.slots → after.pool.linkAt j = redraw s.pool.linkAt parent t.top t'.top j

theorem redraw_other {links : Nat → TreeLink} {parent old new j : Nat} (other : j ≠ parent) :
    redraw links parent old new j = links j := adjust_other other

theorem redraw_same {links : Nat → TreeLink} {parent old new : Nat} (some : parent ≠ 0) :
    redraw links parent old new parent = (links parent).setChild ((links parent).sideOf old) new := adjust_same some

@[simp] theorem balance_redraw (links : Nat → TreeLink) (parent old new j : Nat) :
    (redraw links parent old new j).balance = (links j).balance :=
  balance_adjust (fun _ => TreeLink.balance_set) j

namespace Limb

-- A parent inside its own subtree would name the top as its child, which no slot in there does.
theorem outside (limb : Limb parent t s) : parent ∉ t.slots := by
  intro member
  obtain ⟨_, side, there⟩ := limb.owned (limb.hangs.positive member)
  exact limb.hangs.child_ne_top limb.nodup member side there

theorem below (limb : Limb parent (.join side near x far) s) : Limb x near s := by
  obtain ⟨_, _, toNear, _, hangs, _⟩ := hangs_join.mp limb.hangs
  have nodup := Tree.slots_join.nodup_iff.mp limb.nodup
  simp only [List.nodup_cons, List.nodup_append] at nodup
  refine ⟨hangs, nodup.2.1, fun j member => limb.inside j (Tree.mem_join.mpr (.inr (.inl member))), fun _ => ⟨?_, side, toNear⟩⟩
  exact limb.inside x (Tree.mem_join.mpr (.inl rfl))

theorem regrow (limb : Limb parent (.join side near x far) s) (some : near.top ≠ 0) (regrown : Regrown x near near' s m) :
    Limb parent (.join side near' x far) m ∧
      (∀ j, j ∉ (Tree.join side near x far).slots → m.pool.linkAt j = s.pool.linkAt j) ∧ m.index = s.index := by
  obtain ⟨someX, up, toNear, toFar, _, hangsFar⟩ := hangs_join.mp limb.hangs
  have nodup := Tree.slots_join.nodup_iff.mp limb.nodup
  simp only [List.nodup_cons, List.nodup_append, List.mem_append, not_or] at nodup
  obtain ⟨⟨absentNear, absentFar⟩, _, _, apart⟩ := nodup
  have turned : (s.pool.linkAt x).sideOf near.top = side := by
    refine TreeLink.sideOf_eq toNear ?_
    rw [toFar]
    exact Tree.top_ne (fun member => apart _ (Tree.top_mem some) _ member rfl) some
  have here : m.pool.linkAt x = (s.pool.linkAt x).setChild side near'.top := by
    rw [regrown.others x absentNear, redraw_same someX, turned]
  have beside : ∀ j ∉ near.slots, j ≠ x → m.pool.linkAt j = s.pool.linkAt j := fun j absent other =>
    (regrown.others j absent).trans (redraw_other other)
  have others : ∀ j, j ∉ (Tree.join side near x far).slots → m.pool.linkAt j = s.pool.linkAt j := by
    intro j absent
    simp only [Tree.mem_join, not_or] at absent
    exact beside j absent.2.1 absent.1
  refine ⟨⟨hangs_join.mpr ⟨someX, ?_, ?_, ?_, regrown.limb.hangs, ?_⟩, ?_, ?_, ?_⟩, others, ?_⟩
  · rw [here, TreeLink.parent_set, up]
  · rw [here, TreeLink.child_set]
  · rw [here, TreeLink.child_set_other (Side.other_ne side), toFar]
  · refine hangsFar.frame fun j member => ?_
    rw [beside j (fun inner => apart j inner j member rfl) fun same => absentFar (same ▸ member)]
  · rw [Tree.slots_join_congr regrown.slots]
    exact limb.nodup
  · rw [Tree.slots_join_congr regrown.slots, regrown.bodies.size]
    exact limb.inside
  · intro given
    obtain ⟨bound, way, there⟩ := limb.owned given
    refine ⟨by rwa [regrown.bodies.size], way, ?_⟩
    rw [others parent limb.outside, there, Tree.top_join, Tree.top_join]
  · rw [regrown.index, if_neg someX]

theorem replaced (limb : Limb parent t s) (owns : Agreement)
    (bodies : Pool.SameBodies (fun _ => ()) s.pool m.pool) (index : m.index = s.index)
    (others : ∀ j, j ∉ t.slots → m.pool.linkAt j = s.pool.linkAt j) (hangs : Hangs m.pool.linkAt parent t')
    (slots : t'.slots = t.slots) :
    ∃ after, replaceChild owns parent t.top t'.top m = .ok () after ∧ Regrown parent t t' s after ∧
      after.pool.linkAt = redraw m.pool.linkAt parent t.top t'.top := by
  have outside := limb.outside
  have drawn : ∀ j, j ∉ t.slots → redraw m.pool.linkAt parent t.top t'.top j = redraw s.pool.linkAt parent t.top t'.top j := by
    intro j absent
    simp only [redraw, adjust, others j absent]
  by_cases none : parent = 0
  · refine ⟨⟨m.pool, ⟨t'.top⟩⟩, by rw [replaceChild, if_pos none]; rfl, ⟨⟨hangs, ?_, ?_, fun given => absurd none given⟩, slots,
      bodies, by rw [if_pos none], ?_⟩, ?_⟩
    · rw [slots]
      exact limb.nodup
    · rw [slots, bodies.size]
      exact limb.inside
    · intro j absent
      rw [← drawn j absent]
      simp [redraw, adjust, none]
    · funext j
      simp [redraw, adjust, none]
  · obtain ⟨bound, side, there⟩ := limb.owned none
    obtain ⟨after, ran, wired⟩ := (Rewired.refl m).modify (by rwa [bodies.size]) none
      (·.setChild ((m.pool.linkAt parent).sideOf t.top) t'.top)
    have links : after.pool.linkAt = redraw m.pool.linkAt parent t.top t'.top := by
      rw [wired.links]
      funext j
      simp only [redraw, adjust]
      split
      · rename_i here
        rw [here.1]
      · rfl
    refine ⟨after, ?_, ⟨⟨?_, ?_, ?_, ?_⟩, slots, bodies.trans wired.bodies, ?_, ?_⟩, links⟩
    · rw [replaceChild, if_neg none, bind_ok ((Rewired.refl m).link (by rwa [bodies.size]))]
      rw [← others parent outside] at there
      by_cases left : (m.pool.linkAt parent).left = t.top
      · rw [TreeLink.sideOf, if_pos left] at ran
        simp only [if_pos left]
        exact ran
      · rw [TreeLink.sideOf, if_neg left] at ran
        cases side with
        | left => exact absurd there left
        | right =>
          have right : (m.pool.linkAt parent).right = t.top := there
          simp only [if_neg left, if_pos right]
          exact ran
    · refine hangs.frame fun j member => ?_
      rw [slots] at member
      have apart : j ≠ parent := fun same => outside (same ▸ member)
      rw [links, redraw_other apart]
    · rw [slots]
      exact limb.nodup
    · rw [slots, wired.bodies.size, bodies.size]
      exact limb.inside
    · refine fun _ => ⟨by rwa [wired.bodies.size, bodies.size], (m.pool.linkAt parent).sideOf t.top, ?_⟩
      rw [links, redraw_same none, TreeLink.child_set]
    · rw [wired.index, index, if_neg none]
    · intro j absent
      rw [links, drawn j absent]

end Limb

theorem Regrown.relined (regrown : Regrown parent t t' s m) (wired : Rewired links m after)
    (lines : ∀ j, (links j).lines = (m.pool.linkAt j).lines) (others : ∀ j, j ∉ t.slots → links j = m.pool.linkAt j) :
    Regrown parent t t' s after := by
  obtain ⟨⟨hangs, nodup, inside, owned⟩, slots, bodies, index, around⟩ := regrown
  refine ⟨⟨?_, nodup, ?_, ?_⟩, slots, bodies.trans wired.bodies, wired.index.trans index, ?_⟩
  · rw [wired.links]
    exact hangs.frame fun j _ => lines j
  · rw [wired.bodies.size]
    exact inside
  · intro some
    obtain ⟨bound, side, there⟩ := owned some
    refine ⟨by rwa [wired.bodies.size], side, ?_⟩
    rw [wired.links, TreeLink.child_of_lines (lines parent), there]
  · intro j absent
    rw [wired.links, others j absent, around j absent]

theorem Regrown.over (above : Regrown parent (.join side near' x far) t' m after) (below : Regrown x near near' s m)
    (around : ∀ j, j ∉ (Tree.join side near x far).slots → m.pool.linkAt j = s.pool.linkAt j) (index : m.index = s.index) :
    Regrown parent (.join side near x far) t' s after := by
  have same := @Tree.slots_join_congr side near near' far x below.slots
  refine ⟨above.limb, above.slots.trans same, below.bodies.trans above.bodies, ?_, fun j absent => ?_⟩
  · rw [above.index, index]
  · rw [above.others j (by rwa [same]), Tree.top_join, Tree.top_join]
    simp only [redraw, adjust, around j absent]

namespace Planted

variable {c : Crumb} {up : List Crumb}

theorem side_eq (planted : Planted (plug (c :: up) t) s) (some : t.top ≠ 0) :
    (s.pool.linkAt c.slot).sideOf t.top = c.side := by
  obtain ⟨_, _, there, other, _⟩ := (hangs_plug.mp planted.hangs).1
  refine TreeLink.sideOf_eq there ?_
  rw [other]
  apply Tree.top_ne _ some
  intro member
  have nodup := (List.nodup_append.mp (nodup_plug.mp planted.nodup)).2.2
  exact nodup _ (Tree.top_mem some) _ (List.mem_cons_of_mem _ (List.mem_append_left _ member)) rfl

theorem limb (planted : Planted (plug path t) s) : Limb (above path) t s := by
  obtain ⟨around, hangs⟩ := hangs_plug.mp planted.hangs
  refine ⟨hangs, (List.nodup_append.mp (nodup_plug.mp planted.nodup)).1,
    fun j member => planted.inside j (mem_plug.mpr (.inl member)), ?_⟩
  intro some
  cases path with
  | nil => exact absurd rfl some
  | cons c up => exact ⟨planted.inside _ (mem_plug.mpr (.inr List.mem_cons_self)), c.side, around.2.2.1⟩

theorem regrown (planted : Planted (plug path t) s) (some : t.top ≠ 0) (regrown : Regrown (above path) t t' s after) :
    Planted (plug path t') after := by
  have nodup := nodup_plug.mp planted.nodup
  have outside : ∀ j ∈ held path, j ∉ t.slots := fun j member inner =>
    (List.nodup_append.mp nodup).2.2 j inner j member rfl
  refine planted.replaced ?_ ?_ ?_ regrown.limb.hangs ?_ ?_ regrown.bodies.size
  · rw [regrown.index]
    cases path with
    | nil => rfl
    | cons c up => rw [if_neg (List.cons_ne_nil c up), above, if_neg (hangs_plug.mp planted.hangs).1.1]
  · intro c up equal
    subst equal
    rw [regrown.others _ (outside _ List.mem_cons_self), above, redraw_same (hangs_plug.mp planted.hangs).1.1,
      planted.side_eq some]
  · intro j member other
    rw [regrown.others j (outside j member), redraw_other other]
  · rw [regrown.slots]
    exact nodup
  · rw [regrown.slots]
    exact fun j member => planted.inside j (mem_plug.mpr (.inl member))

end Planted
end TreeSet
end Slotted
