import Slotted.Proofs.TreeSet.Unlink
import Slotted.Proofs.Store.Compact
namespace Slotted

namespace TreeSet

variable {α : Type} {s : TreeSet α} {path : List Crumb} {left right t : Tree}

theorem linkAt_moved {source target : Nat} (planted : Planted (plug path (.node left source right)) s)
    (absent : target ∉ (plug path (.node left source right)).slots) (inside : target < s.pool.slots.size) :
    (s.pool.swap target source).linkAt target = s.pool.linkAt source ∧
      ∀ j ∈ left.slots ++ right.slots ++ held path, (s.pool.swap target source).linkAt j = s.pool.linkAt j := by
  have swapped := Pool.linkAt_swap inside (planted.inside source (mem_at.mpr (.inl rfl)))
  have absentSource := (nodup_at.mp planted.nodup).1
  refine ⟨?_, fun j member => ?_⟩
  · rw [swapped, if_neg fun same => absent (mem_at.mpr (.inl same)), if_pos rfl]
  · have notSource : j ≠ source := fun same => absentSource (same ▸ member)
    have notTarget : j ≠ target := fun same => absent (mem_at.mpr (.inr (same ▸ member)))
    rw [swapped, if_neg notSource, if_neg notTarget]

theorem told_returns (start : TreeSet α) {source target : Nat} (planted : Planted (plug path (.node left source right)) s)
    (weighs : Weighs s.pool.linkAt (plug path (.node left source right)))
    (absent : target ∉ (plug path (.node left source right)).slots) (some : target ≠ 0)
    (inside : target < s.pool.slots.size) (there : start.pool.linkAt target = s.pool.linkAt source)
    (untouched : ∀ j ∈ left.slots ++ right.slots ++ held path, start.pool.linkAt j = s.pool.linkAt j)
    (size : start.pool.slots.size = s.pool.slots.size) (index : start.index = s.index) :
    Returns (do
      setParent left.top target
      setParent right.top target) (start.hang path target) fun _ after =>
        Pool.SameBodies (fun _ => ()) start.pool after.pool ∧ Planted (plug path (.node left target right)) after ∧
          Weighs after.pool.linkAt (plug path (.node left target right)) := by
  have bound : ∀ j ∈ left.slots ++ right.slots ++ held path, j < start.pool.slots.size := by
    intro j member
    rw [size]
    exact planted.inside j (mem_at.mpr (.inr member))
  obtain ⟨_, absentRest⟩ := not_or.mp (mt mem_at.mpr absent)
  simp only [List.mem_append, not_or] at absentRest bound untouched
  obtain ⟨⟨absentLeft, absentRight⟩, _⟩ := absentRest
  have within : ∀ j ∈ held path, j < start.pool.slots.size := fun j member => bound j (.inr member)
  have hung := hang_bodies (i := target) within
  obtain ⟨m, ran, wired⟩ := (Rewired.refl (start.hang path target)).reparent (i := left.top) (fun some => by
    rw [hung.size]
    exact bound _ (.inl (.inl (Tree.top_mem some)))) target
  obtain ⟨after, ran', wired'⟩ := wired.reparent (i := right.top) (fun some => by
    rw [hung.size]
    exact bound _ (.inl (.inr (Tree.top_mem some)))) target
  have balances : ∀ j, (after.pool.linkAt j).balance = (start.pool.linkAt j).balance := by
    intro j
    rw [wired'.links, balance_reparent, balance_reparent, hang_balance within]
  have notLeft : target ≠ left.top := Ne.symm (Tree.top_ne absentLeft some)
  have notRight : target ≠ right.top := Ne.symm (Tree.top_ne absentRight some)
  have planted' : Planted (plug path (.node left target right)) after := by
    -- as if the line that leads to the place had not been drawn yet
    refine planted.succeeded (adjust (adjust start.pool.linkAt left.top fun link => { link with parent := target })
      right.top fun link => { link with parent := target }) absent some inside ?_ ?_ ?_ ?_ ?_ ?_ ?_
    · rw [adjust_other notRight, adjust_other notLeft, there]
    · intro t told some
      rcases told with rfl | rfl
      · rw [adjust_other (planted.tops_apart some), adjust_same some, untouched _ (.inl (.inl (Tree.top_mem some)))]
        rfl
      · have other : t.top ≠ left.top := fun same => planted.tops_apart (same ▸ some) same.symm
        rw [adjust_same some, adjust_other other, untouched _ (.inl (.inr (Tree.top_mem some)))]
        rfl
    · intro j member otherLeft otherRight
      simp only [List.mem_append] at member
      rw [adjust_other otherRight, adjust_other otherLeft, untouched j member]
    · rw [wired'.index, ← index]
      cases path <;> rfl
    · rw [wired'.bodies.size, hung.size, size]
    · intro c up same
      subst same
      have here : c.slot ∈ held (c :: up) := List.mem_cons_self
      obtain ⟨otherLeft, otherRight⟩ := planted.around_apart here
      rw [wired'.links, adjust_other otherRight, adjust_other otherLeft, adjust_other otherRight, adjust_other otherLeft,
        hang, Pool.linkAt_relink (within _ here), if_pos rfl]
    · intro j other
      simp only [wired'.links, adjust, linkAt_hang within other]
  have weighs' : Weighs after.pool.linkAt (plug path (.node left target right)) := by
    refine weighs_succeeded weighs ?_ fun j member => ?_
    · rw [balances, there]
    · simp only [List.mem_append] at member
      rw [balances, untouched j member]
  rw [Returns, ends_bind]
  refine Ends.of_ok ran ?_
  exact Ends.of_ok ran' ⟨hung.trans wired'.bodies, planted', weighs'⟩

theorem relinkMoved_returns {source target : Nat} (planted : Planted (plug path (.node left source right)) s)
    (weighs : Weighs s.pool.linkAt (plug path (.node left source right)))
    (absent : target ∉ (plug path (.node left source right)).slots) (some : target ≠ 0)
    (inside : target < s.pool.slots.size) :
    Returns (relinkMoved source target) ⟨s.pool.swap target source, s.index⟩ fun _ after =>
      Pool.SameBodies (fun _ => ()) (s.pool.swap target source) after.pool ∧
        Planted (plug path (.node left target right)) after ∧
        Weighs after.pool.linkAt (plug path (.node left target right)) := by
  obtain ⟨around, someS, up, atLeft, atRight, _, _⟩ := hangs_plug.mp planted.hangs
  obtain ⟨there, untouched⟩ := linkAt_moved planted absent inside
  have size : (s.pool.swap target source).slots.size = s.pool.slots.size := Pool.size_swap _ _ _
  have absentSource : source ∉ held path := fun member =>
    (nodup_at.mp planted.nodup).1 (List.mem_append_right _ member)
  have told := told_returns ⟨s.pool.swap target source, s.index⟩ planted weighs absent some inside there untouched
    size rfl
  have cut := replaceChild_run (s := ⟨s.pool.swap target source, s.index⟩) .movedChild target
    (around.frame fun j member => by rw [untouched j (List.mem_append_right _ member)]) (fun j member => by
      rw [size]
      exact planted.inside j (mem_plug.mpr (.inr member))) someS absentSource
  rw [relinkMoved, Returns, ends_link (by rwa [size]), there, up, atLeft, atRight]
  cases path with
  | nil =>
    have root : s.index.slot = source := planted.root
    rw [above, if_pos rfl, ends_bind, ends_get, if_pos root, ends_bind, setRoot, ends_modify]
    exact told
  | cons c up =>
    have someC : c.slot ≠ 0 := around.1
    rw [above, if_neg someC, ends_bind]
    exact Ends.of_ok cut told

-- The links and the root make this tree, and it is balanced.
structure Rooted (t : Tree) (p : Pool α TreeLink) (root : Root) : Prop where
  root : root.slot = t.top
  hangs : Hangs p.linkAt 0 t
  weighs : Weighs p.linkAt t

theorem Rooted.planted (rooted : Rooted t s.pool s.index) (linkable : s.pool.Linkable t.slots) : Planted t s :=
  ⟨rooted.root, rooted.hangs, linkable.nodup, fun j member => (linkable.inside j member).2⟩

theorem Rooted.frame {p q : Pool α TreeLink} {root : Root} (rooted : Rooted t p root)
    (same : ∀ i ∈ t.slots, q.linkAt i = p.linkAt i) : Rooted t q root := by
  refine ⟨rooted.root, rooted.hangs.frame fun j member => ?_, rooted.weighs.frame fun j member => ?_⟩
  · rw [same j member]
  · rw [same j member]

theorem moved_returns {source target : Nat} (rooted : Rooted t s.pool s.index) (linkable : s.pool.Linkable t.slots)
    (member : source ∈ t.slots) (absent : target ∉ t.slots) (positive : 0 < target)
    (inside : target < s.pool.slots.size) :
    Returns (relinkMoved source target) { s with pool := s.pool.swap target source } fun _ after =>
      Pool.SameBodies (fun _ => ()) (s.pool.swap target source) after.pool ∧
        Rooted (t.map fun i => if i = source then target else i) after.pool after.index := by
  obtain ⟨path, left, right, rfl⟩ := exists_path member
  have some : target ≠ 0 := by omega
  have renamed : (plug path (.node left source right)).map (fun i => if i = source then target else i) =
      plug path (.node left target right) := by
    have nodup := nodup_plug.mp linkable.nodup
    simp only [Tree.slots, List.nodup_append, List.nodup_cons, List.mem_append, List.mem_cons] at nodup
    obtain ⟨⟨_, ⟨absentRight, _⟩, apartLeft⟩, _, apart⟩ := nodup
    have others : ∀ t : Tree, source ∉ t.slots → t.map (fun i => if i = source then target else i) = t := by
      intro t absent
      refine Tree.map_same fun i inner => if_neg ?_
      intro equal
      subst equal
      exact absent inner
    rw [map_plug fun i inner => if_neg fun same => apart source (.inr (.inl rfl)) i inner same.symm, Tree.map, if_pos rfl,
      others left fun inner => apartLeft source inner source (.inl rfl) rfl, others right absentRight]
  refine (relinkMoved_returns (rooted.planted linkable) rooted.weighs absent some inside).returning ?_
  intro _ after told
  obtain ⟨bodies, planted, weighs⟩ := told
  rw [renamed]
  exact ⟨bodies, planted.root, planted.hangs, weighs⟩

end TreeSet

instance : LawfulIndex Root TreeLink where
  Memory := Unit
  keep _ := ()
  Shape := Tree
  slots := Tree.slots
  rename := Tree.map
  slots_rename := Tree.slots_map
  rename_same := Tree.map_same
  rename_rename := Tree.map_map
  Threads := TreeSet.Rooted
  frame rooted same _ := rooted.frame same
  -- every single move is mended on the spot
  Moving := TreeSet.Rooted
  moving rooted := rooted
  movingFrame rooted same _ := rooted.frame same
  moved := TreeSet.moved_returns
  settled rooted _ _ := ⟨.refl _, rooted⟩
  resized rooted same _ _ := ⟨.refl _, rooted.frame same⟩
  unlink := by
    intro α t s i rooted linkable member
    refine (TreeSet.unlink_returns (rooted.planted linkable) rooted.weighs member).returning ?_
    intro _ after told
    obtain ⟨t', planted, weighs, slots, bodies⟩ := told
    exact ⟨bodies, t', slots, planted.root, planted.hangs, weighs⟩
  cleared _ := ⟨.nil, rfl, rfl, trivial, trivial⟩

end Slotted
