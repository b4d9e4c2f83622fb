import Slotted.Proofs.TreeSet.Shape
import Slotted.Proofs.Store.Lawful
namespace Slotted

def TreeLink.lines (link : TreeLink) : TreeLink := { link with balance := 0 }

theorem TreeLink.parent_of_lines {a b : TreeLink} (same : a.lines = b.lines) : a.parent = b.parent :=
  congrArg (·.parent) same

theorem TreeLink.child_of_lines {a b : TreeLink} (same : a.lines = b.lines) (side : Side) : a.child side = b.child side := by
  cases side
  · exact congrArg (·.left) same
  · exact congrArg (·.right) same

namespace TreeLink

variable {link : TreeLink} {a b : Side} {i : Nat}

theorem child_set : (link.setChild a i).child a = i := (child_setChild link a i).1

theorem child_set_other (apart : b ≠ a) : (link.setChild a i).child b = link.child b := by
  cases Side.eq_other apart
  exact (child_setChild link a i).2

theorem lines_set {link' : TreeLink} (same : link.lines = link'.lines) :
    (link.setChild a i).lines = (link'.setChild a i).lines := by
  obtain ⟨parent, left, right, balance⟩ := link
  obtain ⟨parent', left', right', balance'⟩ := link'
  cases a <;> simp_all [lines, setChild]

theorem parent_set : (link.setChild a i).parent = link.parent := by cases a <;> rfl

theorem balance_set : (link.setChild a i).balance = link.balance := by cases a <;> rfl

theorem child_parent : { link with parent := i }.child a = link.child a := by cases a <;> rfl

end TreeLink

-- The tree hangs under a parent, and each child names its own.
def Hangs (links : Nat → TreeLink) : Nat → Tree → Prop
  | _, .nil => True
  | parent, .node left i right => i ≠ 0 ∧ (links i).parent = parent ∧ (links i).left = left.top ∧
      (links i).right = right.top ∧ Hangs links i left ∧ Hangs links i right

-- Every balance is the difference of heights, and at most one.
def Weighs (links : Nat → TreeLink) : Tree → Prop
  | .nil => True
  | .node left i right => (links i).balance = (right.height : Int) - left.height ∧ (links i).balance.natAbs ≤ 1 ∧
      Weighs links left ∧ Weighs links right

-- The tree around a place where this slot hangs.
def Around (links : Nat → TreeLink) : List Crumb → Nat → Prop
  | [], _ => True
  | c :: up, i => c.slot ≠ 0 ∧ (links c.slot).parent = above up ∧ (links c.slot).child c.side = i ∧
      (links c.slot).child c.side.other = c.sibling.top ∧ Hangs links c.slot c.sibling ∧ Around links up c.slot

-- The balances around a place, as if what is plugged in there had this height.
def Bears (links : Nat → TreeLink) : List Crumb → Nat → Prop
  | [], _ => True
  | c :: up, height => (links c.slot).balance = c.side.sign * ((height : Int) - c.sibling.height) ∧
      (links c.slot).balance.natAbs ≤ 1 ∧ Weighs links c.sibling ∧ Bears links up (1 + max height c.sibling.height)

variable {links links' : Nat → TreeLink} {side : Side} {near far t : Tree} {i parent height : Nat} {path up : List Crumb}
  {c : Crumb}

theorem hangs_join : Hangs links parent (.join side near i far) ↔ i ≠ 0 ∧ (links i).parent = parent ∧
    (links i).child side = near.top ∧ (links i).child side.other = far.top ∧ Hangs links i near ∧ Hangs links i far := by
  cases side
  · rfl
  · simp only [Tree.join, Hangs, TreeLink.child, Side.other]
    tauto

theorem weighs_join : Weighs links (.join side near i far) ↔
    (links i).balance = side.sign * ((near.height : Int) - far.height) ∧ (links i).balance.natAbs ≤ 1 ∧
      Weighs links near ∧ Weighs links far := by
  cases side
  · simp only [Tree.join, Weighs, Side.sign, Int.neg_mul, Int.one_mul, Int.neg_sub]
  · simp only [Tree.join, Weighs, Side.sign, Int.one_mul]
    tauto

theorem Side.sign_mul_self (side : Side) (n : Int) : side.sign * (side.sign * n) = n := by
  cases side <;> simp [Side.sign]

theorem Side.natAbs_sign_mul (side : Side) (n : Int) : (side.sign * n).natAbs = n.natAbs := by
  cases side <;> simp [Side.sign]

theorem hangs_plug : Hangs links 0 (plug path t) ↔ Around links path t.top ∧ Hangs links (above path) t := by
  induction path generalizing t with
  | nil => simp [plug, Around, above]
  | cons c up ih =>
    simp only [plug, ih, hangs_join, Tree.top_join, Around, above]
    tauto

theorem weighs_plug : Weighs links (plug path t) ↔ Bears links path t.height ∧ Weighs links t := by
  induction path generalizing t with
  | nil => simp [plug, Bears]
  | cons c up ih =>
    simp only [plug, ih, weighs_join, Tree.height_join, Bears]
    tauto

theorem Hangs.positive (hangs : Hangs links parent t) {j : Nat} (member : j ∈ t.slots) : j ≠ 0 := by
  induction t generalizing parent with
  | nil => cases member
  | node left i right ihl ihr =>
    obtain ⟨some, _, _, _, lower, upper⟩ := hangs
    simp only [Tree.slots, List.mem_append, List.mem_cons] at member
    rcases member with member | same | member
    · exact ihl lower member
    · exact same ▸ some
    · exact ihr upper member

theorem Hangs.top_ne (hangs : Hangs links parent t) (member : i ∈ t.slots) : t.top ≠ 0 := by
  cases t with
  | nil => cases member
  | node left j right => exact hangs.1

theorem Hangs.frame (hangs : Hangs links parent t) (same : ∀ j ∈ t.slots, (links' j).lines = (links j).lines) :
    Hangs links' parent t := by
  induction t generalizing parent with
  | nil => trivial
  | node left i right ihl ihr =>
    obtain ⟨some, up, atLeft, atRight, lower, upper⟩ := hangs
    obtain ⟨below, here, above⟩ := Tree.forall_node same
    refine ⟨some, (TreeLink.parent_of_lines here).trans up, (TreeLink.child_of_lines here .left).trans atLeft,
      (TreeLink.child_of_lines here .right).trans atRight, ihl lower below, ihr upper above⟩

theorem Hangs.reparent {parent' : Nat} (hangs : Hangs links parent t) (nodup : t.slots.Nodup)
    (others : ∀ j ∈ t.slots, j ≠ t.top → (links' j).lines = (links j).lines)
    (here : t.top ≠ 0 → (links' t.top).lines = { (links t.top).lines with parent := parent' }) :
    Hangs links' parent' t := by
  cases t with
  | nil => trivial
  | node left i right =>
    obtain ⟨some, _, atLeft, atRight, lower, upper⟩ := hangs
    have moved := here some
    simp only [Tree.slots, Tree.top, List.nodup_append, List.nodup_cons, List.mem_append, List.mem_cons] at nodup others moved
    obtain ⟨_, ⟨absent, _⟩, apart⟩ := nodup
    refine ⟨some, congrArg (·.parent) moved, (congrArg (·.left) moved).trans atLeft,
      (congrArg (·.right) moved).trans atRight, ?_, ?_⟩
    · exact lower.frame fun j member => others j (.inl member) (apart j member i (.inl rfl))
    · exact upper.frame fun j member => others j (.inr (.inr member)) fun same => absent (same ▸ member)

theorem Weighs.frame (weighs : Weighs links t) (same : ∀ j ∈ t.slots, (links' j).balance = (links j).balance) :
    Weighs links' t := by
  induction t with
  | nil => trivial
  | node left i right ihl ihr =>
    obtain ⟨here, small, lower, upper⟩ := weighs
    obtain ⟨below, kept, above⟩ := Tree.forall_node same
    exact ⟨kept.trans here, kept ▸ small, ihl lower below, ihr upper above⟩

theorem Around.frame (around : Around links path i) (same : ∀ j ∈ held path, (links' j).lines = (links j).lines) :
    Around links' path i := by
  induction path generalizing i with
  | nil => trivial
  | cons c up ih =>
    obtain ⟨some, parent, there, other, sibling, rest⟩ := around
    simp only [held, List.mem_cons, List.mem_append] at same
    have here := same c.slot (.inl rfl)
    refine ⟨some, (TreeLink.parent_of_lines here).trans parent, (TreeLink.child_of_lines here _).trans there,
      (TreeLink.child_of_lines here _).trans other, ?_, ?_⟩
    · exact sibling.frame fun j member => same j (.inr (.inl member))
    · exact ih rest fun j member => same j (.inr (.inr member))

theorem Bears.frame (bears : Bears links path height) (same : ∀ j ∈ held path, (links' j).balance = (links j).balance) :
    Bears links' path height := by
  induction path generalizing height with
  | nil => trivial
  | cons c up ih =>
    obtain ⟨here, small, sibling, rest⟩ := bears
    simp only [held, List.mem_cons, List.mem_append] at same
    have kept := same c.slot (.inl rfl)
    refine ⟨kept.trans here, kept ▸ small, ?_, ?_⟩
    · exact sibling.frame fun j member => same j (.inr (.inl member))
    · exact ih rest fun j member => same j (.inr (.inr member))

theorem Around.rehang {j : Nat} (around : Around links (c :: up) i) (nodup : (held (c :: up)).Nodup)
    (others : ∀ k ∈ held (c :: up), k ≠ c.slot → (links' k).lines = (links k).lines)
    (here : (links' c.slot).lines = ((links c.slot).setChild c.side j).lines) : Around links' (c :: up) j := by
  obtain ⟨some, parent, there, other, sibling, rest⟩ := around
  simp only [held, List.nodup_cons, List.mem_append, List.mem_cons] at nodup others
  obtain ⟨absent, _⟩ := nodup
  refine ⟨some, ((TreeLink.parent_of_lines here).trans TreeLink.parent_set).trans parent,
    (TreeLink.child_of_lines here _).trans TreeLink.child_set,
    ((TreeLink.child_of_lines here _).trans (TreeLink.child_set_other (Side.other_ne _))).trans other, ?_, ?_⟩
  · exact sibling.frame fun k member => others k (.inr (.inl member)) fun same => absent (.inl (same ▸ member))
  · exact rest.frame fun k member => others k (.inr (.inr member)) fun same => absent (.inr (same ▸ member))

namespace TreeSet

variable {α : Type} {s after : TreeSet α}

-- A tree in its container, as far as the lines go.
structure Planted (t : Tree) (s : TreeSet α) : Prop where
  root : s.index.slot = t.top
  hangs : Hangs s.pool.linkAt 0 t
  nodup : t.slots.Nodup
  inside : ∀ j ∈ t.slots, j < s.pool.slots.size

-- Links with one of them changed. The number 0 is no slot and keeps its link.
def adjust (links : Nat → TreeLink) (i : Nat) (f : TreeLink → TreeLink) : Nat → TreeLink :=
  fun j => if j = i ∧ j ≠ 0 then f (links j) else links j

theorem adjust_other {f : TreeLink → TreeLink} {j : Nat} (other : j ≠ i) : adjust links i f j = links j :=
  if_neg fun both => other both.1

theorem adjust_same {f : TreeLink → TreeLink} (some : i ≠ 0) : adjust links i f i = f (links i) := if_pos ⟨rfl, some⟩

theorem balance_adjust {f : TreeLink → TreeLink} (keeps : ∀ link, (f link).balance = link.balance) (j : Nat) :
    (adjust links i f j).balance = (links j).balance := by
  unfold adjust
  split
  · exact keeps _
  · rfl

@[simp] theorem balance_reparent (new j : Nat) :
    (adjust links i (fun link => { link with parent := new }) j).balance = (links j).balance :=
  balance_adjust (f := fun link => { link with parent := new }) (fun _ => rfl) j

@[simp] theorem lines_setBalance (balance : Int) (j : Nat) :
    (adjust links i (fun link => { link with balance := balance }) j).lines = (links j).lines := by
  unfold adjust
  split <;> rfl

@[simp] theorem balance_setChild (new j : Nat) :
    (adjust links i (·.setChild side new) j).balance = (links j).balance :=
  balance_adjust (fun _ => TreeLink.balance_set) j

-- The links have become these, and nothing else is different.
structure Rewired (links : Nat → TreeLink) (s after : TreeSet α) : Prop where
  links : after.pool.linkAt = links
  bodies : Pool.SameBodies (fun _ => ()) s.pool after.pool
  index : after.index = s.index

namespace Rewired

variable {middle : TreeSet α}

theorem refl (s : TreeSet α) : Rewired s.pool.linkAt s s := ⟨rfl, .refl _, rfl⟩

theorem link (wired : Rewired links s middle) (inside : i < s.pool.slots.size) :
    link i middle = .ok (links i) middle := by
  rw [TreeSet.link, get_bind, Pool.link_eq (by rwa [wired.bodies.size]), wired.links]
  rfl

theorem modify (wired : Rewired links s middle) (inside : i < s.pool.slots.size) (some : i ≠ 0)
    (f : TreeLink → TreeLink) : ∃ after, modifyLink i f middle = .ok () after ∧ Rewired (adjust links i f) s after := by
  have bound : i < middle.pool.slots.size := by rwa [wired.bodies.size]
  refine ⟨_, Store.onLink_run bound f, ?_, wired.bodies.trans (.relink _ bound rfl), wired.index⟩
  funext j
  rw [Pool.linkAt_relink bound, adjust, ← wired.links]
  by_cases same : j = i
  · simp [same, some]
  · simp [same, Ne.symm same]

theorem reparent (wired : Rewired links s middle) (inside : i ≠ 0 → i < s.pool.slots.size) (new : Nat) :
    ∃ after, setParent i new middle = .ok () after ∧
      Rewired (adjust links i fun link => { link with parent := new }) s after := by
  unfold setParent
  by_cases none : i = 0
  · refine ⟨middle, by rw [if_pos none]; rfl, ?_, wired.bodies, wired.index⟩
    funext j
    simp [adjust, none, wired.links]
  · rw [if_neg none]
    exact wired.modify (inside none) none _

theorem shift (wired : Rewired links s middle) (inside : i < s.pool.slots.size) (some : i ≠ 0) {change balance : Int}
    (sum : (links i).balance + change = balance) (small : balance.natAbs ≤ 2) :
    ∃ after, shiftBalance i change middle = .ok balance after ∧
      Rewired (adjust links i fun link => { link with balance := balance }) s after := by
  obtain ⟨after, ran, wired'⟩ := wired.modify inside some fun link => { link with balance := balance }
  refine ⟨after, ?_, wired'⟩
  have fits : (decide (balance < -128) || decide (127 < balance)) = false := by
    simp only [Bool.or_eq_false_iff, decide_eq_false_iff_not]
    omega
  rw [shiftBalance, bind_ok (wired.link inside), sum, fits]
  change (setBalance i balance >>= fun _ => pure balance) middle = _
  rw [bind_ok (show setBalance i balance middle = .ok () after from ran)]
  rfl

end Rewired

theorem ends_link {β : Type} {rest : TreeLink → Edit (TreeSet α) β} {returns : β → TreeSet α → Prop}
    {faults : Fault → TreeSet α → Prop} (inside : i < s.pool.slots.size) :
    Ends (TreeSet.link i >>= rest) s returns faults ↔ Ends (rest (s.pool.linkAt i)) s returns faults := by
  rw [Ends, bind_ok ((Rewired.refl s).link inside)]
  rfl

def hang (s : TreeSet α) : List Crumb → Nat → TreeSet α
  | [], i => ⟨s.pool, ⟨i⟩⟩
  | c :: _, i => ⟨s.pool.relink c.slot (·.setChild c.side i), s.index⟩

theorem replaceChild_run {old : Nat} (owns : Agreement) (new : Nat) (around : Around s.pool.linkAt path old)
    (inside : ∀ j ∈ held path, j < s.pool.slots.size) (some : old ≠ 0) (absent : old ∉ held path) :
    replaceChild owns (above path) old new s = .ok () (s.hang path new) := by
  cases path with
  | nil => rfl
  | cons c up =>
    obtain ⟨side, slot, sibling⟩ := c
    obtain ⟨positive, _, there, other, _, _⟩ := around
    have bound : slot < s.pool.slots.size := inside slot List.mem_cons_self
    rw [replaceChild, above, if_neg positive, bind_ok ((Rewired.refl s).link bound)]
    cases side with
    | left =>
      have owned : (s.pool.linkAt slot).left = old := there
      simp only [if_pos owned]
      exact Store.onLink_run bound _
    | right =>
      have owned : (s.pool.linkAt slot).right = old := there
      have apart : (s.pool.linkAt slot).left ≠ old := by
        intro same
        have top : sibling.top = old := other.symm.trans same
        apply absent
        simp only [held, List.mem_cons, List.mem_append]
        exact .inr (.inl (top ▸ Tree.top_mem (top.symm ▸ some)))
      simp only [if_neg apart, if_pos owned]
      exact Store.onLink_run bound _

theorem hang_bodies (inside : ∀ j ∈ held path, j < s.pool.slots.size) :
    Pool.SameBodies (fun _ => ()) s.pool (s.hang path i).pool := by
  cases path with
  | nil => exact .refl _
  | cons c up => exact .relink (f := (·.setChild c.side i)) _ (inside c.slot List.mem_cons_self) rfl

theorem hang_balance (inside : ∀ j ∈ held path, j < s.pool.slots.size) (j : Nat) :
    ((s.hang path i).pool.linkAt j).balance = (s.pool.linkAt j).balance := by
  cases path with
  | nil => rfl
  | cons c up =>
    rw [hang, Pool.linkAt_relink (inside c.slot List.mem_cons_self)]
    split
    · rename_i same
      subst same
      cases c.side <;> rfl
    · rfl

theorem linkAt_hang (inside : ∀ j ∈ held path, j < s.pool.slots.size) {j : Nat} (other : j ≠ above path) :
    (s.hang path i).pool.linkAt j = s.pool.linkAt j := by
  cases path with
  | nil => rfl
  | cons c up =>
    rw [hang, Pool.linkAt_relink (inside c.slot List.mem_cons_self)]
    exact if_neg (Ne.symm other)

theorem Planted.replaced {t' : Tree} (planted : Planted (plug path t) s)
    (index : after.index = if path = [] then ⟨t'.top⟩ else s.index)
    (here : ∀ c up, path = c :: up →
      (after.pool.linkAt c.slot).lines = ((s.pool.linkAt c.slot).setChild c.side t'.top).lines)
    (others : ∀ j ∈ held path, j ≠ above path → (after.pool.linkAt j).lines = (s.pool.linkAt j).lines)
    (hangs : Hangs after.pool.linkAt (above path) t') (nodup : (t'.slots ++ held path).Nodup)
    (inside : ∀ j ∈ t'.slots, j < s.pool.slots.size) (size : after.pool.slots.size = s.pool.slots.size) :
    Planted (plug path t') after := by
  refine ⟨?_, hangs_plug.mpr ⟨?_, hangs⟩, nodup_plug.mpr nodup, ?_⟩
  · cases path with
    | nil => rw [index, if_pos rfl, plug]
    | cons c up => rw [index, if_neg (List.cons_ne_nil c up), planted.root, top_plug_cons t t']
  · cases path with
    | nil => trivial
    | cons c up =>
      exact (hangs_plug.mp planted.hangs).1.rehang (List.nodup_append.mp nodup).2.1 others (here c up rfl)
  · intro j member
    rw [size]
    rcases mem_plug.mp member with member | member
    · exact inside j member
    · exact planted.inside j (mem_plug.mpr (.inr member))

theorem Planted.rehang {t' : Tree} {middle : TreeSet α} (planted : Planted (plug path t) s)
    (bodies : Pool.SameBodies (fun _ => ()) s.pool middle.pool) (index : middle.index = s.index)
    (around : ∀ j ∈ held path, (middle.pool.linkAt j).lines = (s.pool.linkAt j).lines)
    (hangs : Hangs middle.pool.linkAt (above path) t') (nodup : (t'.slots ++ held path).Nodup)
    (inside : ∀ j ∈ t'.slots, j < s.pool.slots.size) : Planted (plug path t') (middle.hang path t'.top) := by
  have within : ∀ j ∈ held path, j < middle.pool.slots.size := fun j member => by
    rw [bodies.size]
    exact planted.inside j (mem_plug.mpr (.inr member))
  have size : (middle.hang path t'.top).pool.slots.size = s.pool.slots.size :=
    (hang_bodies within).size.trans bodies.size
  have apart := (List.nodup_append.mp nodup).2.2
  refine planted.replaced ?_ ?_ ?_ ?_ nodup inside size
  · cases path with
    | nil => rfl
    | cons c up => exact index
  · intro c up equal
    subst equal
    rw [hang, Pool.linkAt_relink (within c.slot List.mem_cons_self), if_pos rfl]
    exact TreeLink.lines_set (around c.slot List.mem_cons_self)
  · intro j member other
    rw [linkAt_hang within other, around j member]
  · refine hangs.frame fun j member => ?_
    have positive := hangs.positive member
    rw [linkAt_hang within fun same => ?_]
    have some : above path ≠ 0 := same ▸ positive
    exact apart j member (above path) (above_mem some) same

theorem Planted.relined (planted : Planted t s) (wired : Rewired links s after)
    (same : ∀ j, (links j).lines = (s.pool.linkAt j).lines) : Planted t after := by
  refine ⟨by rw [wired.index]; exact planted.root, ?_, planted.nodup, ?_⟩
  · rw [wired.links]
    exact planted.hangs.frame fun j _ => same j
  · rw [wired.bodies.size]
    exact planted.inside

end TreeSet
end Slotted
