import Slotted.Proofs.TreeSet.Retrace
import Slotted.Proofs.TreeSet.Walk
namespace Slotted.TreeSet

variable {α : Type} {s after : TreeSet α} {path : List Crumb} {left right t : Tree} {d e i parent : Nat}
  {links links' : Nat → TreeLink}

theorem Planted.frame (planted : Planted t s) (same : ∀ j ∈ t.slots, after.pool.linkAt j = s.pool.linkAt j)
    (index : after.index = s.index) (size : s.pool.slots.size ≤ after.pool.slots.size) : Planted t after := by
  refine ⟨by rw [index]; exact planted.root, planted.hangs.frame fun j member => by rw [same j member], planted.nodup, ?_⟩
  exact fun j member => Nat.lt_of_lt_of_le (planted.inside j member) size

theorem hangs_succeeded (hangs : Hangs links parent (.node left d right)) (nodup : (left.slots ++ right.slots).Nodup)
    (some : e ≠ 0) (here : (links' e).lines = (links d).lines)
    (tops : ∀ t, t = left ∨ t = right → t.top ≠ 0 → (links' t.top).lines = { (links t.top).lines with parent := e })
    (others : ∀ j ∈ left.slots ++ right.slots, j ≠ left.top → j ≠ right.top → (links' j).lines = (links j).lines) :
    Hangs links' parent (.node left e right) := by
  obtain ⟨_, up, atLeft, atRight, lower, upper⟩ := hangs
  obtain ⟨nodupLeft, nodupRight, apart⟩ := List.nodup_append.mp nodup
  refine ⟨some, (TreeLink.parent_of_lines here).trans up, (TreeLink.child_of_lines here .left).trans atLeft,
    (TreeLink.child_of_lines here .right).trans atRight, ?_, ?_⟩
  · refine lower.reparent nodupLeft (fun j member other => others j (List.mem_append_left _ member) other ?_)
      (tops left (.inl rfl))
    exact fun same => apart j member right.top (Tree.top_mem (same ▸ lower.positive member)) same
  · refine upper.reparent nodupRight (fun j member other => others j (List.mem_append_right _ member) ?_ other)
      (tops right (.inr rfl))
    exact fun same => apart left.top (Tree.top_mem (same ▸ upper.positive member)) j member same.symm

theorem weighs_succeeded (weighs : Weighs links (plug path (.node left d right)))
    (here : (links' e).balance = (links d).balance)
    (same : ∀ j ∈ left.slots ++ right.slots ++ held path, (links' j).balance = (links j).balance) :
    Weighs links' (plug path (.node left e right)) := by
  obtain ⟨bears, balance, small, lower, upper⟩ := weighs_plug.mp weighs
  simp only [List.mem_append] at same
  refine weighs_plug.mpr ⟨bears.frame fun j member => same j (.inr member), here.trans balance, here ▸ small, ?_, ?_⟩
  · exact lower.frame fun j member => same j (.inl (.inl member))
  · exact upper.frame fun j member => same j (.inl (.inr member))

theorem Planted.tops_apart (planted : Planted (plug path (.node left d right)) s) (some : left.top ≠ 0) :
    left.top ≠ right.top := by
  intro same
  have nodup := (List.nodup_append.mp (nodup_at.mp planted.nodup).2).1
  exact (List.nodup_append.mp nodup).2.2 _ (Tree.top_mem some) _ (Tree.top_mem (same ▸ some)) same

theorem Planted.around_apart (planted : Planted (plug path (.node left d right)) s) (member : i ∈ held path) :
    i ≠ left.top ∧ i ≠ right.top := by
  have apart := (List.nodup_append.mp (nodup_at.mp planted.nodup).2).2.2
  have positive : i ≠ 0 := planted.hangs.positive (mem_plug.mpr (.inr member))
  refine ⟨Ne.symm (Tree.top_ne ?_ positive), Ne.symm (Tree.top_ne ?_ positive)⟩
  · exact fun inner => apart i (List.mem_append_left _ inner) i member rfl
  · exact fun inner => apart i (List.mem_append_right _ inner) i member rfl

-- The place of a node is given to a slot outside the tree: first the links around it, then the line that leads there.
theorem Planted.succeeded (planted : Planted (plug path (.node left d right)) s) (drawn : Nat → TreeLink)
    (absent : e ∉ (plug path (.node left d right)).slots) (some : e ≠ 0) (inside : e < s.pool.slots.size)
    (here : (drawn e).lines = (s.pool.linkAt d).lines)
    (tops : ∀ t, t = left ∨ t = right → t.top ≠ 0 →
      (drawn t.top).lines = { (s.pool.linkAt t.top).lines with parent := e })
    (others : ∀ j ∈ left.slots ++ right.slots ++ held path, j ≠ left.top → j ≠ right.top →
      (drawn j).lines = (s.pool.linkAt j).lines)
    (index : after.index = if path = [] then ⟨e⟩ else s.index) (size : after.pool.slots.size = s.pool.slots.size)
    (place : ∀ c up, path = c :: up → (after.pool.linkAt c.slot).lines = ((drawn c.slot).setChild c.side e).lines)
    (elsewhere : ∀ j, j ≠ above path → (after.pool.linkAt j).lines = (drawn j).lines) :
    Planted (plug path (.node left e right)) after := by
  have hangs := (hangs_plug.mp planted.hangs).2
  have nodup := (nodup_at.mp planted.nodup).2
  obtain ⟨nodupBelow, _, apart⟩ := List.nodup_append.mp nodup
  have absentRest : e ∉ left.slots ++ right.slots ++ held path := fun member => absent (mem_at.mpr (.inr member))
  have around : ∀ j ∈ held path, (drawn j).lines = (s.pool.linkAt j).lines := by
    intro j member
    obtain ⟨notLeft, notRight⟩ := planted.around_apart member
    exact others j (List.mem_append_right _ member) notLeft notRight
  have hangs' : Hangs drawn (above path) (.node left e right) :=
    hangs_succeeded hangs nodupBelow some here tops fun j member => others j (List.mem_append_left _ member)
  refine planted.replaced index ?_ ?_ ?_ ?_ ?_ size
  · intro c up same
    subst same
    exact (place c up rfl).trans (TreeLink.lines_set (around c.slot List.mem_cons_self))
  · exact fun j member other => (elsewhere j other).trans (around j member)
  · refine hangs'.frame fun j member => elsewhere j (ne_above ?_ (hangs'.positive member))
    intro outside
    simp only [Tree.slots, List.mem_append, List.mem_cons] at member
    rcases member with member | same | member
    · exact apart j (List.mem_append_left _ member) j outside rfl
    · exact absentRest (same ▸ List.mem_append_right _ outside)
    · exact apart j (List.mem_append_right _ member) j outside rfl
  · exact nodup_plug.mp (nodup_at.mpr ⟨absentRest, nodup⟩)
  · intro j member
    rcases mem_at.mp (mem_plug.mpr (.inl member)) with same | member
    · exact same ▸ inside
    · exact planted.inside j (mem_at.mpr (.inr member))

theorem bears_succeeded {rpath : List Crumb} {side : Side} {sibling : Tree} {height : Nat}
    (bears : Bears links (rpath ++ ⟨side, d, sibling⟩ :: path) height) (here : (links' e).balance = (links d).balance)
    (same : ∀ j ∈ held rpath ++ (sibling.slots ++ held path), (links' j).balance = (links j).balance) :
    Bears links' (rpath ++ ⟨side, e, sibling⟩ :: path) height := by
  induction rpath generalizing height with
  | nil =>
    obtain ⟨balance, small, weighs, rest⟩ := bears
    simp only [held, List.nil_append, List.mem_append] at same
    refine ⟨here.trans balance, here ▸ small, ?_, ?_⟩
    · exact weighs.frame fun j member => same j (.inl member)
    · exact rest.frame fun j member => same j (.inr member)
  | cons c up ih =>
    obtain ⟨balance, small, weighs, rest⟩ := bears
    simp only [held, List.cons_append, List.mem_cons, List.append_assoc, List.mem_append] at same
    have kept := same c.slot (.inl rfl)
    refine ⟨kept.trans balance, kept ▸ small, ?_, ih rest ?_⟩
    · exact weighs.frame fun j member => same j (.inr (.inl member))
    · intro j member
      simp only [List.mem_append] at member
      exact same j (.inr (.inr member))

-- A node is out, and the place given is one level lower than the balances above it tell.
structure Lowers (order : List Nat) (start : Nat × Side) (path : List Crumb) (t : Tree) (s after : TreeSet α) :
    Prop where
  planted : Planted (plug path t) after
  bodies : Pool.SameBodies (fun _ => ()) s.pool after.pool
  weighs : Weighs after.pool.linkAt t
  bears : Bears after.pool.linkAt path (t.height + 1)
  slots : (plug path t).slots = order
  start : start = (above path, turn path)

theorem slots_erase (nodup : (plug path (.node left d right)).slots.Nodup) :
    (plug path (.node left d right)).slots.erase d =
      (beyond .left path).reverse ++ left.slots ++ (right.slots ++ beyond .right path) := by
  have shape : (plug path (.node left d right)).slots =
      ((beyond .left path).reverse ++ left.slots) ++ d :: (right.slots ++ beyond .right path) := by
    simp [slots_plug_eq, Tree.slots]
  rw [shape] at nodup ⊢
  have absent : d ∉ (beyond .left path).reverse ++ left.slots := fun member =>
    (List.nodup_append.mp nodup).2.2 d member d List.mem_cons_self rfl
  rw [List.erase_append_right _ absent, List.erase_cons_head]

theorem cutOut_single {only : Tree} (side : Side) (planted : Planted (plug path (.join side only d .nil)) s)
    (weighs : Weighs s.pool.linkAt (plug path (.join side only d .nil))) :
    Returns (cutOut d) s fun start after =>
      Lowers ((plug path (.join side only d .nil)).slots.erase d) start path only s after := by
  obtain ⟨around, hangs⟩ := hangs_plug.mp planted.hangs
  obtain ⟨someD, parent, toOnly, toNil, lower, _⟩ := hangs_join.mp hangs
  obtain ⟨bears, weighsHere⟩ := weighs_plug.mp weighs
  obtain ⟨_, _, weighsOnly, _⟩ := weighs_join.mp weighsHere
  have inside := planted.inside
  simp only [mem_plug, Tree.mem_join] at inside
  have perm : ((Tree.join side only d .nil).slots ++ held path).Perm (d :: (only.slots ++ held path)) := by
    have node : (Tree.join side only d .nil).slots.Perm (d :: (only.slots ++ Tree.nil.slots)) := Tree.slots_join
    simpa [Tree.slots] using node.append_right (held path)
  have nodup := perm.nodup_iff.mp (nodup_plug.mp planted.nodup)
  obtain ⟨absent, nodup⟩ := List.nodup_cons.mp nodup
  have order : (plug path (.join side only d .nil)).slots.erase d = (plug path only).slots := by
    have whole := planted.nodup
    cases side with
    | left =>
      rw [Tree.join, slots_erase whole]
      simp [slots_plug_eq, Tree.slots]
    | right =>
      rw [Tree.join, slots_erase whole]
      simp [slots_plug_eq, Tree.slots]
  obtain ⟨m, ran, wired⟩ := (Rewired.refl s).reparent (i := only.top)
    (fun some => inside _ (.inl (.inr (.inl (Tree.top_mem some))))) (above path)
  have others : ∀ j, j ≠ only.top → m.pool.linkAt j = s.pool.linkAt j := by
    intro j other
    rw [wired.links, adjust_other other]
  have outside : ∀ j ∈ held path, m.pool.linkAt j = s.pool.linkAt j := by
    intro j member
    refine others j (Ne.symm (Tree.top_ne ?_ (planted.hangs.positive (mem_plug.mpr (.inr member)))))
    exact fun inner => (List.nodup_append.mp nodup).2.2 j inner j member rfl
  have moved : Hangs m.pool.linkAt (above path) only := by
    refine lower.reparent (List.nodup_append.mp nodup).1 (fun j _ other => by rw [others j other]) fun some => ?_
    rw [wired.links, adjust_same some]
    rfl
  have within : ∀ j ∈ held path, j < m.pool.slots.size := by
    intro j member
    rw [wired.bodies.size]
    exact inside j (.inr member)
  have lines : ∀ j ∈ held path, (m.pool.linkAt j).lines = (s.pool.linkAt j).lines := fun j member => by rw [outside j member]
  have apart : d ∉ held path := fun member => absent (List.mem_append_right _ member)
  rw [Tree.top_join] at around
  have cut := replaceChild_run .parentOwnsChild only.top (around.frame lines) within someD apart
  have planted' : Planted (plug path only) (m.hang path only.top) :=
    planted.rehang wired.bodies wired.index lines moved nodup fun j member => inside j (.inl (.inr (.inl member)))
  have bodies : Pool.SameBodies (fun _ => ()) s.pool (m.hang path only.top).pool := wired.bodies.trans (hang_bodies within)
  have balances : ∀ j, ((m.hang path only.top).pool.linkAt j).balance = (s.pool.linkAt j).balance := by
    intro j
    rw [hang_balance within, wired.links, balance_reparent]
  have lowers : Lowers ((plug path (.join side only d .nil)).slots.erase d) (above path, turn path) path only s
      (m.hang path only.top) := by
    refine ⟨planted', bodies, weighsOnly.frame fun j _ => balances j, ?_, order.symm, rfl⟩
    have high : (Tree.join side only d .nil).height = only.height + 1 := by
      rw [Tree.height_join, Tree.height]
      omega
    rw [high] at bears
    exact bears.frame fun j _ => balances j
  rw [cutOut, Returns, ends_link (inside d (.inl (.inl rfl)))]
  generalize shape : s.pool.linkAt d = link at *
  obtain ⟨up, l, r, b⟩ := link
  have child : (decide (l ≠ 0) && decide (r ≠ 0)) = false ∧ (if l ≠ 0 then l else r) = only.top := by
    cases side <;> simp_all [TreeLink.child, Side.other, Tree.top]
  have same : up = above path := parent
  dsimp only
  rw [child.1, child.2, same]
  have ends : Returns (do
      setParent only.top (above path)
      replaceChild .parentOwnsChild (above path) d only.top
      pure (above path, turn path)) s fun start after =>
        Lowers ((plug path (.join side only d .nil)).slots.erase d) start path only s after := by
    rw [Returns, ends_bind]
    refine Ends.of_ok ran ?_
    rw [ends_bind]
    exact Ends.of_ok cut lowers
  cases path with
  | nil => exact ends
  | cons c up =>
    obtain ⟨someC, boundC⟩ := planted.bound
    have turned := planted.side_eq (by rwa [Tree.top_join])
    rw [Tree.top_join] at turned
    rw [if_neg Bool.false_ne_true, above, if_neg someC, ends_link boundC, turned]
    exact ends

theorem succeed_ends {β : Type} {rest : Edit (TreeSet α) β} {returns : β → TreeSet α → Prop}
    {faults : Fault → TreeSet α → Prop} {balance : Int} (planted : Planted (plug path (.node left d right)) s)
    (absent : e ∉ (plug path (.node left d right)).slots) (someE : e ≠ 0) (insideE : e < s.pool.slots.size)
    (follows : ∀ after, Planted (plug path (.node left e right)) after → Pool.SameBodies (fun _ => ()) s.pool after.pool →
      (after.pool.linkAt e).balance = balance →
      (∀ j, j ≠ e → (after.pool.linkAt j).balance = (s.pool.linkAt j).balance) → Ends rest after returns faults) :
    Ends (do
      modifyLink e fun _ => ⟨above path, left.top, right.top, balance⟩
      setParent left.top e
      setParent right.top e
      replaceChild .parentOwnsChild (above path) d e
      rest) s returns faults := by
  obtain ⟨around, someD, up, atLeft, atRight, _, _⟩ := hangs_plug.mp planted.hangs
  have inside : ∀ j ∈ left.slots ++ right.slots ++ held path, j < s.pool.slots.size := fun j member =>
    planted.inside j (mem_at.mpr (.inr member))
  have absentD := (nodup_at.mp planted.nodup).1
  obtain ⟨_, absentRest⟩ := not_or.mp (mt mem_at.mpr absent)
  simp only [List.mem_append, not_or] at absentD absentRest inside
  obtain ⟨⟨absentLeft, absentRight⟩, absentAround⟩ := absentRest
  have insideLeft : left.top ≠ 0 → left.top < s.pool.slots.size := fun some => inside _ (.inl (.inl (Tree.top_mem some)))
  have insideRight : right.top ≠ 0 → right.top < s.pool.slots.size := fun some => inside _ (.inl (.inr (Tree.top_mem some)))
  obtain ⟨m1, ran1, wired1⟩ := (Rewired.refl s).modify insideE someE fun _ => ⟨above path, left.top, right.top, balance⟩
  obtain ⟨m2, ran2, wired2⟩ := wired1.reparent insideLeft e
  obtain ⟨m3, ran3, wired3⟩ := wired2.reparent insideRight e
  have leftE : left.top ≠ e := Tree.top_ne absentLeft someE
  have rightE : right.top ≠ e := Tree.top_ne absentRight someE
  have here : m3.pool.linkAt e = ⟨above path, left.top, right.top, balance⟩ := by
    rw [wired3.links, adjust_other rightE.symm, adjust_other leftE.symm, adjust_same someE]
  have others : ∀ j, j ≠ e → j ≠ left.top → j ≠ right.top → m3.pool.linkAt j = s.pool.linkAt j := by
    intro j notE notLeft notRight
    rw [wired3.links, adjust_other notRight, adjust_other notLeft, adjust_other notE]
  have outside : ∀ j ∈ held path, (m3.pool.linkAt j).lines = (s.pool.linkAt j).lines := by
    intro j member
    obtain ⟨notLeft, notRight⟩ := planted.around_apart member
    rw [others j (fun same => absentAround (same ▸ member)) notLeft notRight]
  have within : ∀ j ∈ held path, j < m3.pool.slots.size := by
    intro j member
    rw [wired3.bodies.size]
    exact inside j (.inr member)
  have cut := replaceChild_run .parentOwnsChild e (around.frame outside) within someD absentD.2
  have planted' : Planted (plug path (.node left e right)) (m3.hang path e) := by
    refine planted.succeeded m3.pool.linkAt absent someE insideE ?_ ?_ ?_ ?_ ?_ ?_ fun j other => by rw [linkAt_hang within other]
    · rw [here]
      simp only [TreeLink.lines, up, atLeft, atRight]
    · intro t told some
      rcases told with rfl | rfl
      · rw [wired3.links, adjust_other (planted.tops_apart some), adjust_same some, adjust_other leftE]
        rfl
      · have notLeft : t.top ≠ left.top := fun same => planted.tops_apart (same ▸ some) same.symm
        rw [wired3.links, adjust_same some, adjust_other notLeft, adjust_other rightE]
        rfl
    · intro j member notLeft notRight
      rw [others j (fun same => ?_) notLeft notRight]
      exact absent (mem_at.mpr (.inr (same ▸ member)))
    · cases path with
      | nil => rfl
      | cons c up => exact wired3.index
    · exact (hang_bodies within).size.trans wired3.bodies.size
    · intro c up same
      subst same
      rw [hang, Pool.linkAt_relink (within c.slot List.mem_cons_self), if_pos rfl]
  rw [ends_bind]
  refine Ends.of_ok ran1 ?_
  rw [ends_bind]
  refine Ends.of_ok ran2 ?_
  rw [ends_bind]
  refine Ends.of_ok ran3 ?_
  rw [ends_bind]
  refine Ends.of_ok cut (follows _ planted' (wired3.bodies.trans (hang_bodies within)) ?_ fun j other => ?_)
  · rw [hang_balance within, here]
  · rw [hang_balance within, wired3.links, balance_reparent, balance_reparent, adjust_other other]

theorem pull_run {c : Crumb} {up : List Crumb} {far : Tree} (planted : Planted (plug (c :: up) (.join c.side .nil e far)) s) :
    ∃ m after, setChild c.slot c.side far.top s = .ok () m ∧ setParent far.top c.slot m = .ok () after ∧
      Planted (plug (c :: up) far) after ∧ Pool.SameBodies (fun _ => ()) s.pool after.pool ∧
      ∀ j, (after.pool.linkAt j).balance = (s.pool.linkAt j).balance := by
  obtain ⟨someC, boundC⟩ := planted.bound
  obtain ⟨_, _, _, _, _, lower⟩ := hangs_join.mp (hangs_plug.mp planted.hangs).2
  have inside := planted.inside
  simp only [mem_plug, Tree.mem_join] at inside
  have perm : ((Tree.join c.side .nil e far).slots ++ held (c :: up)).Perm (e :: (far.slots ++ held (c :: up))) := by
    have node : (Tree.join c.side .nil e far).slots.Perm (e :: (Tree.nil.slots ++ far.slots)) := Tree.slots_join
    simpa [Tree.slots] using node.append_right (held (c :: up))
  have nodup := (List.nodup_cons.mp (perm.nodup_iff.mp (nodup_plug.mp planted.nodup))).2
  obtain ⟨nodupFar, _, apart⟩ := List.nodup_append.mp nodup
  have notTop : ∀ j ∈ held (c :: up), j ≠ far.top := by
    intro j member
    have positive : j ≠ 0 := planted.hangs.positive (mem_plug.mpr (.inr member))
    exact Ne.symm (Tree.top_ne (fun inner => apart j inner j member rfl) positive)
  obtain ⟨m, ran, wired⟩ := (Rewired.refl s).modify boundC someC (·.setChild c.side far.top)
  obtain ⟨after, ran', wired'⟩ := wired.reparent (i := far.top)
    (fun some => inside _ (.inl (.inr (.inr (Tree.top_mem some))))) c.slot
  refine ⟨m, after, ran, ran', ?_, wired'.bodies, ?_⟩
  · refine planted.replaced wired'.index ?_ ?_ ?_ nodup (fun j member => inside j (.inl (.inr (.inr member))))
      wired'.bodies.size
    · intro d up' same
      cases same
      rw [wired'.links, adjust_other (notTop c.slot List.mem_cons_self), adjust_same someC]
    · intro j member other
      have apart : j ≠ c.slot := other
      rw [wired'.links, adjust_other (notTop j member), adjust_other apart]
    · refine lower.reparent nodupFar (fun j member other => ?_) fun some => ?_
      · have outside : j ≠ c.slot := apart j member c.slot List.mem_cons_self
        rw [wired'.links, adjust_other other, adjust_other outside]
      · rw [wired'.links, adjust_same some, adjust_other (notTop c.slot List.mem_cons_self).symm]
        rfl
  · intro j
    rw [wired'.links, balance_reparent, balance_setChild]

-- The successor is the right child itself: it comes up and keeps what hangs on its right.
theorem adopt_ends {β : Type} {rest : Edit (TreeSet α) β} {returns : β → TreeSet α → Prop}
    {faults : Fault → TreeSet α → Prop} {balance : Int} {far : Tree}
    (planted : Planted (plug path (.node left d (.node .nil e far))) s)
    (follows : ∀ after, Planted (plug path (.node left e far)) after → Pool.SameBodies (fun _ => ()) s.pool after.pool →
      (after.pool.linkAt e).balance = balance →
      (∀ j, j ≠ e → (after.pool.linkAt j).balance = (s.pool.linkAt j).balance) → Ends rest after returns faults) :
    Ends (do
      modifyLink e fun link => { link with parent := above path, left := left.top, balance := balance }
      setParent left.top e
      replaceChild .parentOwnsChild (above path) d e
      rest) s returns faults := by
  obtain ⟨around, hangs⟩ := hangs_plug.mp planted.hangs
  obtain ⟨someD, up, atLeft, atRight, lower, someE, _, _, toFar, _, upper⟩ := id hangs
  have inside := planted.inside
  simp only [mem_plug, Tree.slots, List.nil_append, List.mem_append, List.mem_cons] at inside
  obtain ⟨m1, ran1, wired1⟩ := (Rewired.refl s).modify (inside e (by simp)) someE
    fun link => { link with parent := above path, left := left.top, balance := balance }
  obtain ⟨m2, ran2, wired2⟩ := wired1.reparent (i := left.top) (fun some => inside _ (.inl (.inl (Tree.top_mem some)))) e
  obtain ⟨absentD, apartD⟩ := nodup_at.mp planted.nodup
  have parts : (e :: (left.slots ++ far.slots ++ held path)).Nodup := by
    refine List.Perm.nodup_iff ?_ |>.mp apartD
    simp only [Tree.slots, List.nil_append, List.append_assoc, List.cons_append]
    exact List.perm_middle
  obtain ⟨absentE, nodup⟩ := List.nodup_cons.mp parts
  obtain ⟨nodupBelow, _, below⟩ := List.nodup_append.mp nodup
  obtain ⟨nodupLeft, _, beside⟩ := List.nodup_append.mp nodupBelow
  simp only [List.mem_append, not_or] at absentD absentE below
  obtain ⟨⟨eLeft, eFar⟩, ePath⟩ := absentE
  have leftE : left.top ≠ e := Tree.top_ne eLeft someE
  have others : ∀ j, j ≠ e → j ≠ left.top → m2.pool.linkAt j = s.pool.linkAt j := by
    intro j notE notLeft
    rw [wired2.links, adjust_other notLeft, adjust_other notE]
  have here : m2.pool.linkAt e = { s.pool.linkAt e with parent := above path, left := left.top, balance := balance } := by
    rw [wired2.links, adjust_other leftE.symm, adjust_same someE]
  have apart : ∀ j, j ≠ 0 → j ∈ far.slots ∨ j ∈ held path → j ≠ left.top := by
    intro j positive member
    refine Ne.symm (Tree.top_ne (fun inner => ?_) positive)
    rcases member with member | member
    · exact beside j inner j member rfl
    · exact below j (.inl inner) j member rfl
  have hangs' : Hangs m2.pool.linkAt (above path) (.node left e far) := by
    refine ⟨someE, ?_, ?_, ?_, ?_, ?_⟩
    · rw [here]
    · rw [here]
    · rw [here]
      exact toFar
    · refine lower.reparent nodupLeft (fun j member other => ?_) fun some => ?_
      · have notE : j ≠ e := fun same => eLeft (same ▸ member)
        rw [others j notE other]
      · rw [wired2.links, adjust_same some, adjust_other leftE]
        rfl
    · refine upper.frame fun j member => ?_
      have notE : j ≠ e := fun same => eFar (same ▸ member)
      rw [others j notE (apart j (upper.positive member) (.inl member))]
  have outside : ∀ j ∈ held path, m2.pool.linkAt j = s.pool.linkAt j := by
    intro j member
    have notE : j ≠ e := fun same => ePath (same ▸ member)
    exact others j notE (apart j (planted.hangs.positive (mem_plug.mpr (.inr member))) (.inr member))
  have lines : ∀ j ∈ held path, (m2.pool.linkAt j).lines = (s.pool.linkAt j).lines := fun j member => by rw [outside j member]
  have within : ∀ j ∈ held path, j < m2.pool.slots.size := by
    intro j member
    rw [wired2.bodies.size]
    exact inside j (.inr member)
  have inside' : ∀ j ∈ (Tree.node left e far).slots, j < s.pool.slots.size := by
    intro j member
    simp only [Tree.slots, List.mem_append, List.mem_cons] at member
    apply inside j
    tauto
  have cut := replaceChild_run .parentOwnsChild e (around.frame lines) within someD absentD.2
  have nodup' := nodup_plug.mp (nodup_at.mpr (List.nodup_cons.mp parts))
  rw [ends_bind]
  refine Ends.of_ok ran1 ?_
  rw [ends_bind]
  refine Ends.of_ok ran2 ?_
  rw [ends_bind]
  refine Ends.of_ok cut (follows _ (planted.rehang wired2.bodies wired2.index lines hangs' nodup' inside')
    (wired2.bodies.trans (hang_bodies within)) ?_ fun j other => ?_)
  · rw [hang_balance within, here]
  · rw [hang_balance within, wired2.links, balance_reparent, adjust_other other]

-- The successor stands at the end of the way left in the right subtree, which may be its root.
theorem successor_eq {rpath : List Crumb} {far : Tree}
    (planted : Planted (plug path (.node left d (plug rpath (.join .left .nil e far)))) s)
    (oneWay : ∀ c ∈ rpath, c.side = .left) :
    s.pool.lowestFrom s.pool.walkLimit (plug rpath (.join .left .nil e far)).top = .ok e := by
  obtain ⟨_, _, _, _, _, upper⟩ := (hangs_plug.mp planted.hangs).2
  have inside : ∀ j ∈ (plug rpath (.join .left .nil e far)).slots, j < s.pool.slots.size := by
    intro j member
    refine planted.inside j (mem_plug.mpr (.inl ?_))
    simp [Tree.slots, member]
  have enough : (plug rpath (.join .left .nil e far)).height ≤ s.pool.walkLimit + 1 := by
    have all := planted.length_le_walkLimit
    have node : (plug path (.node left d (plug rpath (.join .left .nil e far)))).slots.Perm _ := slots_plug
    have sub := node.length_eq
    have part := Tree.height_le (plug rpath (.join .left .nil e far))
    simp only [Tree.slots, List.length_append, List.length_cons] at sub
    omega
  have last : lastSlot ((plug rpath (.join .left .nil e far)).toward .left) = e := by
    rw [toward_plug, beyond_one_way oneWay, Tree.toward_join]
    simp [lastSlot]
  rw [Pool.lowestFrom, Pool.extremeFrom_run upper inside enough, last]

-- The successor has taken the place of the node, so that its own place is the one that lost a level.
theorem Lowers.succeeded {rpath : List Crumb} {far : Tree}
    (planted : Planted (plug path (.node left d (plug rpath (.join .left .nil e far)))) s)
    (weighs : Weighs s.pool.linkAt (plug path (.node left d (plug rpath (.join .left .nil e far)))))
    (oneWay : ∀ c ∈ rpath, c.side = .left) (planted' : Planted (plug path (.node left e (plug rpath far))) after)
    (bodies : Pool.SameBodies (fun _ => ()) s.pool after.pool)
    (here : (after.pool.linkAt e).balance = (s.pool.linkAt d).balance)
    (others : ∀ j, j ≠ e → (after.pool.linkAt j).balance = (s.pool.linkAt j).balance) :
    Lowers ((plug path (.node left d (plug rpath (.join .left .nil e far)))).slots.erase d)
      (above (rpath ++ ⟨.right, e, left⟩ :: path), turn (rpath ++ ⟨.right, e, left⟩ :: path))
      (rpath ++ ⟨.right, e, left⟩ :: path) far s after := by
  have apart : ∀ j ∈ far.slots ++ (held rpath ++ (left.slots ++ held path)), j ≠ e := by
    have absent := (nodup_at.mp planted'.nodup).1
    intro j member same
    subst same
    simp only [List.mem_append, mem_plug] at absent member
    tauto
  have whole : plug path (.node left d (plug rpath (.join .left .nil e far))) =
      plug (rpath ++ ⟨.right, d, left⟩ :: path) (.join .left .nil e far) := by
    rw [plug_append]
    rfl
  rw [whole, weighs_plug, weighs_join, Tree.height_join] at weighs
  obtain ⟨bears, _, _, _, weighsFar⟩ := weighs
  have high : 1 + max Tree.nil.height far.height = far.height + 1 := by
    rw [Tree.height]
    omega
  rw [high] at bears
  refine ⟨?_, bodies, ?_, bears_succeeded bears here ?_, ?_, rfl⟩
  · rw [plug_append]
    exact planted'
  · exact weighsFar.frame fun j member => others j (apart j (List.mem_append_left _ member))
  · exact fun j member => others j (apart j (List.mem_append_right _ member))
  · rw [slots_erase planted.nodup, plug_append]
    have inner := beyond_one_way oneWay
    simp [plug, Tree.join, slots_plug_eq, Tree.slots, inner]

theorem cutOut_double {rpath : List Crumb} {far : Tree}
    (planted : Planted (plug path (.node left d (plug rpath (.join .left .nil e far)))) s)
    (weighs : Weighs s.pool.linkAt (plug path (.node left d (plug rpath (.join .left .nil e far)))))
    (someLeft : left.top ≠ 0) (oneWay : ∀ c ∈ rpath, c.side = .left) :
    Returns (cutOut d) s fun start after => ∃ path' t',
      Lowers ((plug path (.node left d (plug rpath (.join .left .nil e far)))).slots.erase d) start path' t' s after := by
  obtain ⟨_, someD, up, atLeft, atRight, lower, upper⟩ := hangs_plug.mp planted.hangs
  have someRight : (plug rpath (.join .left .nil e far)).top ≠ 0 := by
    refine upper.top_ne (i := e) (mem_plug.mpr (.inl ?_))
    exact Tree.mem_join.mpr (.inl rfl)
  have lowest := successor_eq planted oneWay
  have insideD := planted.inside d (mem_plug.mpr (.inl (by simp [Tree.slots])))
  rw [cutOut, Returns, ends_link insideD]
  generalize shape : s.pool.linkAt d = link at *
  obtain ⟨parent, l, r, balance⟩ := link
  dsimp only at up atLeft atRight ⊢
  rw [if_pos (by simp [atLeft, atRight, someLeft, someRight]), ends_bind, ends_get, ends_bind, ends_get, up, atLeft,
    atRight, lowest, ends_bind, ends_lift]
  cases rpath with
  | nil =>
    rw [if_pos (show e = (plug [] (.join .left .nil e far)).top from rfl)]
    refine adopt_ends planted fun after planted' bodies here others => ?_
    exact ⟨_, _, Lowers.succeeded planted weighs oneWay planted' bodies (by rw [here, shape]) others⟩
  | cons c up' =>
    obtain ⟨side, slot, sibling⟩ := c
    have turned : side = .left := oneWay _ List.mem_cons_self
    subst turned
    have inner : (plug (⟨.left, slot, sibling⟩ :: up') (.join .left .nil e far)).slots.Nodup := by
      have node := (List.nodup_append.mp (nodup_plug.mp planted.nodup)).1
      exact (List.nodup_cons.mp (List.nodup_append.mp node).2.1).2
    have apart : e ≠ (plug (⟨.left, slot, sibling⟩ :: up') (.join .left .nil e far)).top := by
      intro same
      have above := top_plug_mem ⟨.left, slot, sibling⟩ up' (.join .left .nil e far)
      have content : e ∈ (Tree.join .left .nil e far).slots := Tree.mem_join.mpr (.inl rfl)
      exact (List.nodup_append.mp (nodup_plug.mp inner)).2.2 e content _ above same
    have split := fun t => plug_append (⟨.left, slot, sibling⟩ :: up') (⟨.right, d, left⟩ :: path) t
    have whole : Planted (plug (⟨.left, slot, sibling⟩ :: (up' ++ ⟨.right, d, left⟩ :: path)) (.join .left .nil e far)) s := by
      rw [← List.cons_append, split]
      exact planted
    obtain ⟨someE, parentE, _, toFar, _, _⟩ := hangs_join.mp (hangs_plug.mp whole.hangs).2
    have insideE := whole.inside e (mem_plug.mpr (.inl (Tree.mem_join.mpr (.inl rfl))))
    obtain ⟨m1, m2, ran1, ran2, planted2, bodies2, balances2⟩ := pull_run whole
    rw [if_neg apart, ends_link insideE, parentE, show (s.pool.linkAt e).right = far.top from toFar, ends_bind]
    refine Ends.of_ok ran1 ?_
    rw [ends_bind]
    refine Ends.of_ok ran2 ?_
    rw [← List.cons_append, split] at planted2
    rw [top_plug_cons (.join .left .nil e far) far]
    refine succeed_ends planted2 ?_ someE ?_ fun after planted' bodies' here others => ?_
    · have perm : (Tree.join .left .nil e far).slots.Perm (e :: (Tree.nil.slots ++ far.slots)) := Tree.slots_join
      have nodup := ((perm.append_right _).nodup_iff).mp (nodup_plug.mp whole.nodup)
      have absent := (List.nodup_cons.mp nodup).1
      rw [← List.cons_append] at absent
      change e ∉ (plug (⟨.right, d, left⟩ :: path) (plug (⟨.left, slot, sibling⟩ :: up') far)).slots
      rw [← split, mem_plug]
      simpa [Tree.slots] using absent
    · rwa [bodies2.size]
    · refine ⟨_, _, Lowers.succeeded planted weighs oneWay planted' (bodies2.trans bodies') ?_ ?_⟩
      · rw [here, shape]
      · exact fun j other => (others j other).trans (balances2 j)

theorem cutOut_returns (planted : Planted t s) (weighs : Weighs s.pool.linkAt t) (member : d ∈ t.slots) :
    Returns (cutOut d) s fun start after => ∃ path' t', Lowers (t.slots.erase d) start path' t' s after := by
  obtain ⟨path, left, right, rfl⟩ := exists_path member
  by_cases noLeft : left = .nil
  · subst noLeft
    refine (cutOut_single .right planted weighs).returning ?_
    exact fun _ _ lowers => ⟨_, _, lowers⟩
  · by_cases noRight : right = .nil
    · subst noRight
      refine (cutOut_single .left planted weighs).returning ?_
      exact fun _ _ lowers => ⟨_, _, lowers⟩
    · obtain ⟨rpath, e, far, rfl, oneWay⟩ := exists_extreme .left noRight
      have someLeft : left.top ≠ 0 := by
        obtain ⟨_, _, _, _, _, lower, _⟩ := hangs_plug.mp planted.hangs
        cases left with
        | nil => exact absurd rfl noLeft
        | node _ _ _ => exact lower.1
      exact cutOut_double planted weighs someLeft oneWay

theorem unlink_returns (planted : Planted t s) (weighs : Weighs s.pool.linkAt t) (member : d ∈ t.slots) :
    Returns (unlink d) s fun _ after => ∃ t', Evens (t.slots.erase d) t' s after := by
  rw [unlink]
  refine (cutOut_returns planted weighs member).bind ?_
  intro _ m ends
  obtain ⟨path', t', lowers⟩ := ends
  obtain ⟨planted', bodies, weighs', bears, slots, rfl⟩ := lowers
  have someD : d ≠ 0 := planted.hangs.positive member
  have insideD : d < m.pool.slots.size := by
    rw [bodies.size]
    exact planted.inside d member
  have absent : ∀ j ∈ (plug path' t').slots, j ≠ d := by
    intro j inner
    rw [slots] at inner
    exact (planted.nodup.mem_erase_iff.mp inner).1
  obtain ⟨m', ran, wired⟩ := (Rewired.refl m).modify insideD someD fun _ => default
  have others : ∀ j ∈ (plug path' t').slots, m'.pool.linkAt j = m.pool.linkAt j := by
    intro j inner
    rw [wired.links, adjust_other (absent j inner)]
  have planted'' := planted'.frame others wired.index (Nat.le_of_eq wired.bodies.size.symm)
  have weighs'' : Weighs m'.pool.linkAt t' := weighs'.frame fun j inner => by
    rw [others j (mem_plug.mpr (.inl inner))]
  have bears'' : Bears m'.pool.linkAt path' (t'.height + 1) := bears.frame fun j around => by
    rw [others j (mem_plug.mpr (.inr around))]
  have enough := planted''.path_le
  dsimp only
  rw [ends_bind]
  refine Ends.of_ok ran ?_
  rw [ends_bind, ends_get]
  refine (retraceRemoval_returns planted'' weighs'' bears'' ?_).returning ?_
  · unfold retraceLimit
    omega
  · intro _ after ends
    obtain ⟨t'', evens⟩ := ends
    rw [slots] at evens
    exact ⟨t'', evens.later (bodies.trans wired.bodies)⟩

end Slotted.TreeSet
