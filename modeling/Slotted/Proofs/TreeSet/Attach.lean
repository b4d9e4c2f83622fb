import Slotted.Proofs.TreeSet.Retrace
namespace Slotted.TreeSet

variable {α : Type} {s : TreeSet α} {path : List Crumb} {i : Nat}

theorem attach_returns (planted : Planted (plug path .nil) s) (weighs : Weighs s.pool.linkAt (plug path .nil))
    (absent : i ∉ (plug path .nil).slots) (some : i ≠ 0) (inside : i < s.pool.slots.size) :
    Returns (attach i (above path) (turn path)) s fun _ after =>
      ∃ t, Evens (plug path (.node .nil i .nil)).slots t s after := by
  obtain ⟨m, ran, wired⟩ := (Rewired.refl s).modify inside some fun _ => { (default : TreeLink) with parent := above path }
  have outside : i ∉ held path := fun member => absent (mem_plug.mpr (.inr member))
  have others : ∀ j ∈ held path, m.pool.linkAt j = s.pool.linkAt j := by
    intro j member
    have other : j ≠ i := fun same => outside (same ▸ member)
    rw [wired.links, adjust_other other]
  have here : m.pool.linkAt i = { (default : TreeLink) with parent := above path } := by
    rw [wired.links, adjust_same some]
  have leaf : Hangs m.pool.linkAt (above path) (.node .nil i .nil) := by
    refine ⟨some, ?_, ?_, ?_, trivial, trivial⟩
    · rw [here]
    · rw [here]
      rfl
    · rw [here]
      rfl
  have nodup : ((Tree.node .nil i .nil).slots ++ held path).Nodup := by
    have old := nodup_plug.mp planted.nodup
    simp only [Tree.slots, List.nil_append] at old
    exact List.nodup_cons.mpr ⟨outside, old⟩
  have within : ∀ j ∈ held path, j < m.pool.slots.size := by
    intro j member
    rw [wired.bodies.size]
    exact planted.inside j (mem_plug.mpr (.inr member))
  have hung : Planted (plug path (.node .nil i .nil)) (m.hang path i) := by
    refine planted.rehang wired.bodies wired.index (fun j member => by rw [others j member]) leaf nodup ?_
    intro j member
    simp only [Tree.slots, List.nil_append, List.mem_singleton] at member
    exact member ▸ inside
  have bodies : Pool.SameBodies (fun _ => ()) s.pool (m.hang path i).pool := wired.bodies.trans (hang_bodies within)
  have weighsLeaf : Weighs (m.hang path i).pool.linkAt (.node .nil i .nil) := by
    have level : ((m.hang path i).pool.linkAt i).balance = 0 := by
      rw [hang_balance within, here]
      rfl
    exact ⟨level, level ▸ Nat.zero_le 1, trivial, trivial⟩
  have bears : Bears (m.hang path i).pool.linkAt path 0 := by
    refine (weighs_plug.mp weighs).1.frame fun j member => ?_
    rw [hang_balance within, others j member]
  rw [attach, Returns, ends_bind]
  refine Ends.of_ok ran ?_
  cases path with
  | nil => exact ⟨_, hung, weighsLeaf, rfl, bodies⟩
  | cons c up =>
    have enough := hung.path_le
    have linked : setChild c.slot c.side i m = .ok () (m.hang (c :: up) i) :=
      Store.onLink_run (within c.slot List.mem_cons_self) _
    rw [above, turn, if_neg (hangs_plug.mp hung.hangs).1.1, ends_bind]
    refine Ends.of_ok linked ?_
    rw [ends_bind, ends_get]
    refine (retraceInsertion_returns hung weighsLeaf bears rfl (.inl rfl) ?_).returning ?_
    · unfold retraceLimit
      omega
    · intro _ after ends
      obtain ⟨t, evens⟩ := ends
      exact ⟨t, evens.later bodies⟩

end Slotted.TreeSet
