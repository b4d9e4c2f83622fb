import Mathlib.Data.List.Nodup
import Mathlib.Data.List.Perm.Basic
import Slotted.TreeSet.Link
namespace Slotted

namespace Side

theorem other_ne (side : Side) : side.other ≠ side := by cases side <;> decide

theorem eq_other {a b : Side} (apart : a ≠ b) : a = b.other := by
  cases a <;> cases b <;> first | rfl | exact absurd rfl apart

end Side

inductive Tree where
  | nil
  | node (left : Tree) (slot : Nat) (right : Tree)

namespace Tree

def slots : Tree → List Nat
  | nil => []
  | node left slot right => left.slots ++ slot :: right.slots

def height : Tree → Nat
  | nil => 0
  | node left _ right => 1 + max left.height right.height

def top : Tree → Nat
  | nil => 0
  | node _ slot _ => slot

def map (ρ : Nat → Nat) : Tree → Tree
  | nil => nil
  | node left slot right => node (left.map ρ) (ρ slot) (right.map ρ)

-- A node by sides: the near subtree hangs on the side named.
def join (side : Side) (near : Tree) (slot : Nat) (far : Tree) : Tree :=
  match side with
  | .left => node near slot far
  | .right => node far slot near

-- The slots as they come when one goes towards a side.
def toward (side : Side) (t : Tree) : List Nat :=
  match side with
  | .left => t.slots.reverse
  | .right => t.slots

variable {side : Side} {near far t : Tree} {slot : Nat} {ρ σ : Nat → Nat}

@[simp] theorem slots_map (ρ : Nat → Nat) (t : Tree) : (t.map ρ).slots = t.slots.map ρ := by
  induction t with
  | nil => rfl
  | node left slot right ihl ihr => simp [map, slots, ihl, ihr]

theorem map_same (same : ∀ i ∈ t.slots, ρ i = i) : t.map ρ = t := by
  induction t with
  | nil => rfl
  | node left slot right ihl ihr =>
    simp only [slots, List.mem_append, List.mem_cons] at same
    have lower := ihl fun i member => same i (.inl member)
    have upper := ihr fun i member => same i (.inr (.inr member))
    simp only [map, lower, upper, same slot (.inr (.inl rfl))]

@[simp] theorem map_id (t : Tree) : t.map id = t := map_same fun _ _ => rfl

theorem map_map (ρ σ : Nat → Nat) (t : Tree) : (t.map ρ).map σ = t.map (σ ∘ ρ) := by
  induction t with
  | nil => rfl
  | node left slot right ihl ihr => simp [map, ihl, ihr]

theorem top_mem (some : t.top ≠ 0) : t.top ∈ t.slots := by
  cases t with
  | nil => exact absurd rfl some
  | node left slot right => simp [top, slots]

theorem top_ne {i : Nat} (absent : i ∉ t.slots) (some : i ≠ 0) : t.top ≠ i := by
  intro same
  have here := top_mem (same ▸ some)
  exact absent (same ▸ here)

theorem forall_node {holds : Nat → Prop} {left right : Tree} {slot : Nat}
    (all : ∀ i ∈ (node left slot right).slots, holds i) :
    (∀ i ∈ left.slots, holds i) ∧ holds slot ∧ ∀ i ∈ right.slots, holds i := by
  simp only [slots, List.mem_append, List.mem_cons] at all
  exact ⟨fun i member => all i (.inl member), all slot (.inr (.inl rfl)), fun i member => all i (.inr (.inr member))⟩

theorem height_le (t : Tree) : t.height ≤ t.slots.length := by
  induction t with
  | nil => exact Nat.le_refl 0
  | node left slot right ihl ihr =>
    simp only [height, slots, List.length_append, List.length_cons]
    omega

@[simp] theorem top_join : (join side near slot far).top = slot := by cases side <;> rfl

@[simp] theorem height_join : (join side near slot far).height = 1 + max near.height far.height := by
  cases side
  · rfl
  · exact congrArg _ (Nat.max_comm _ _)

theorem slots_join : (join side near slot far).slots.Perm (slot :: (near.slots ++ far.slots)) := by
  cases side
  · exact List.perm_middle
  · exact List.perm_middle.trans (List.Perm.cons slot List.perm_append_comm)

theorem mem_join {i : Nat} : i ∈ (join side near slot far).slots ↔ i = slot ∨ i ∈ near.slots ∨ i ∈ far.slots := by
  rw [slots_join.mem_iff, List.mem_cons, List.mem_append]

theorem map_join : (join side near slot far).map ρ = join side (near.map ρ) (ρ slot) (far.map ρ) := by
  cases side <;> rfl

theorem join_other : join side.other near slot far = join side far slot near := by cases side <;> rfl

@[simp] theorem toward_nil : nil.toward side = [] := by cases side <;> rfl

theorem toward_join : (join side near slot far).toward side = far.toward side ++ slot :: near.toward side := by
  cases side <;> simp [join, toward, slots]

theorem reverse_toward : (t.toward side.other).reverse = t.toward side := by
  cases side <;> simp [toward, Side.other]

theorem mem_toward {i : Nat} : i ∈ t.toward side ↔ i ∈ t.slots := by
  cases side <;> simp [toward]

theorem nodup_toward : (t.toward side).Nodup ↔ t.slots.Nodup := by
  cases side <;> simp [toward]

theorem join_cases (side : Side) (t : Tree) : t = nil ∨ ∃ near slot far, t = join side near slot far := by
  cases t with
  | nil => exact .inl rfl
  | node left slot right =>
    cases side with
    | left => exact .inr ⟨left, slot, right, rfl⟩
    | right => exact .inr ⟨right, slot, left, rfl⟩

theorem join_eq_node (side : Side) (near : Tree) (slot : Nat) (far : Tree) :
    ∃ left right, join side near slot far = node left slot right := by
  cases side with
  | left => exact ⟨near, far, rfl⟩
  | right => exact ⟨far, near, rfl⟩

theorem exists_near (side : Side) (left right : Tree) (slot : Nat) :
    ∃ near far, node left slot right = join side near slot far := by
  cases side with
  | left => exact ⟨left, right, rfl⟩
  | right => exact ⟨right, left, rfl⟩

@[elab_as_elim]
theorem join_induction {motive : Tree → Prop} (side : Side) (nil : motive .nil)
    (join : ∀ near slot far, motive near → motive far → motive (.join side near slot far)) (t : Tree) : motive t := by
  induction t with
  | nil => exact nil
  | node left slot right ihl ihr =>
    cases side with
    | left => exact join left slot right ihl ihr
    | right => exact join right slot left ihr ihl

theorem exists_join (side : Side) (some : t.top ≠ 0) : ∃ near far, t = join side near t.top far := by
  rcases join_cases side t with rfl | ⟨near, slot, far, rfl⟩
  · exact absurd rfl some
  · exact ⟨near, far, by rw [top_join]⟩

end Tree

-- One step down a path: the side taken, the slot it was taken at, and what hangs on the side not taken.
structure Crumb where
  side : Side
  slot : Nat
  sibling : Tree

-- A path is listed from its place upwards.
def plug : List Crumb → Tree → Tree
  | [], t => t
  | c :: up, t => plug up (.join c.side t c.slot c.sibling)

-- The slot that a place hangs under, 0 at the root, and on which side. The root counts as right.
def above : List Crumb → Nat
  | [] => 0
  | c :: _ => c.slot

def turn : List Crumb → Side
  | [] => .right
  | c :: _ => c.side

def held : List Crumb → List Nat
  | [] => []
  | c :: up => c.slot :: (c.sibling.slots ++ held up)

def beyond (side : Side) : List Crumb → List Nat
  | [] => []
  | c :: up => (if c.side = side then [] else c.slot :: c.sibling.toward side) ++ beyond side up

variable {path up : List Crumb} {side : Side} {t t' : Tree} {c : Crumb}

theorem above_mem (some : above path ≠ 0) : above path ∈ held path := by
  cases path with
  | nil => exact absurd rfl some
  | cons c up => exact List.mem_cons_self

theorem ne_above {i : Nat} (absent : i ∉ held path) (some : i ≠ 0) : i ≠ above path := by
  intro same
  subst same
  exact absent (above_mem some)

theorem slot_mem (member : c ∈ path) : c.slot ∈ held path := by
  induction path with
  | nil => cases member
  | cons d up ih =>
    simp only [held, List.mem_cons, List.mem_append]
    cases List.mem_cons.mp member with
    | inl same => exact .inl (same ▸ rfl)
    | inr member => exact .inr (.inr (ih member))

theorem plug_append (path up : List Crumb) (t : Tree) : plug (path ++ up) t = plug up (plug path t) := by
  induction path generalizing t with
  | nil => rfl
  | cons c path ih => exact ih _

theorem slots_plug : (plug path t).slots.Perm (t.slots ++ held path) := by
  induction path generalizing t with
  | nil => simp [plug, held]
  | cons c up ih =>
    refine ih.trans ?_
    have node : (Tree.join c.side t c.slot c.sibling).slots.Perm (c.slot :: (t.slots ++ c.sibling.slots)) := Tree.slots_join
    refine (node.append_right (held up)).trans ?_
    simp only [held, List.cons_append, List.append_assoc]
    exact List.perm_middle.symm

theorem mem_plug {i : Nat} : i ∈ (plug path t).slots ↔ i ∈ t.slots ∨ i ∈ held path := by
  rw [slots_plug.mem_iff, List.mem_append]

theorem nodup_plug : (plug path t).slots.Nodup ↔ (t.slots ++ held path).Nodup := slots_plug.nodup_iff

theorem slots_at {left right : Tree} {i : Nat} :
    (plug path (.node left i right)).slots.Perm (i :: (left.slots ++ right.slots ++ held path)) := by
  refine slots_plug.trans ?_
  simp only [Tree.slots, List.append_assoc, List.cons_append]
  exact List.perm_middle

theorem mem_at {left right : Tree} {i j : Nat} :
    j ∈ (plug path (.node left i right)).slots ↔ j = i ∨ j ∈ left.slots ++ right.slots ++ held path := by
  rw [slots_at.mem_iff, List.mem_cons]

theorem nodup_at {left right : Tree} {i : Nat} : (plug path (.node left i right)).slots.Nodup ↔
    i ∉ left.slots ++ right.slots ++ held path ∧ (left.slots ++ right.slots ++ held path).Nodup := by
  rw [slots_at.nodup_iff, List.nodup_cons]

theorem toward_plug : (plug path t).toward side = (beyond side.other path).reverse ++ t.toward side ++ beyond side path := by
  induction path generalizing t with
  | nil => simp [plug, beyond]
  | cons c up ih =>
    by_cases same : c.side = side
    · subst same
      simp [plug, beyond, ih, Tree.toward_join, Ne.symm (Side.other_ne _), Tree.reverse_toward]
    · have other : c.side = side.other := by
        cases h : c.side <;> cases side <;> simp_all [Side.other]
      simp [plug, beyond, ih, other, Side.other_ne, Tree.join_other, Tree.toward_join]

theorem slots_plug_eq : (plug path t).slots = (beyond .left path).reverse ++ t.slots ++ beyond .right path := by
  have whole : (plug path t).toward .right = _ := toward_plug
  exact whole

theorem slots_plug_congr (same : t.slots = t'.slots) : (plug path t).slots = (plug path t').slots := by
  rw [slots_plug_eq, slots_plug_eq, same]

theorem map_plug {ρ : Nat → Nat} (same : ∀ i ∈ held path, ρ i = i) : (plug path t).map ρ = plug path (t.map ρ) := by
  induction path generalizing t with
  | nil => rfl
  | cons c up ih =>
    simp only [held, List.mem_cons, List.mem_append] at same
    have here := same c.slot (.inl rfl)
    have beside : c.sibling.map ρ = c.sibling := Tree.map_same fun i member => same i (.inr (.inl member))
    rw [plug, ih fun i member => same i (.inr (.inr member)), Tree.map_join, here, beside, plug]

theorem top_plug_cons (t t' : Tree) : (plug (c :: up) t).top = (plug (c :: up) t').top := by
  induction up generalizing c t t' with
  | nil => simp [plug]
  | cons d up ih => exact ih _ _

theorem top_plug_mem (c : Crumb) (up : List Crumb) (t : Tree) : (plug (c :: up) t).top ∈ held (c :: up) := by
  induction up generalizing c t with
  | nil => simp [plug, held]
  | cons d up ih => exact List.mem_cons_of_mem _ (List.mem_append_right _ (ih d _))

theorem length_le_held (path : List Crumb) : path.length ≤ (held path).length := by
  induction path with
  | nil => exact Nat.le_refl 0
  | cons c up ih =>
    simp only [held, List.length_cons, List.length_append]
    omega

theorem exists_extreme (side : Side) (some : t ≠ .nil) :
    ∃ path i far, t = plug path (.join side .nil i far) ∧ ∀ c ∈ path, c.side = side := by
  induction t using Tree.join_induction side with
  | nil => exact absurd rfl some
  | join near slot far ih _ =>
    by_cases last : near = .nil
    · exact ⟨[], slot, far, by rw [last]; rfl, fun c member => absurd member List.not_mem_nil⟩
    · obtain ⟨path, i, beside, here, oneWay⟩ := ih last
      refine ⟨path ++ [⟨side, slot, far⟩], i, beside, ?_, ?_⟩
      · rw [plug_append, ← here]
        rfl
      · intro c member
        simp only [List.mem_append, List.mem_singleton] at member
        cases member with
        | inl member => exact oneWay c member
        | inr same => rw [same]

theorem beyond_one_way (oneWay : ∀ c ∈ path, c.side = side) : beyond side path = [] := by
  induction path with
  | nil => rfl
  | cons c up ih =>
    simp only [List.mem_cons, forall_eq_or_imp] at oneWay
    simp [beyond, oneWay.1, ih oneWay.2]

theorem exists_path {i : Nat} (member : i ∈ t.slots) : ∃ path left right, t = plug path (.node left i right) := by
  induction t with
  | nil => cases member
  | node left slot right ihl ihr =>
    simp only [Tree.slots, List.mem_append, List.mem_cons] at member
    rcases member with lower | same | upper
    · obtain ⟨path, l, r, here⟩ := ihl lower
      refine ⟨path ++ [⟨.left, slot, right⟩], l, r, ?_⟩
      rw [plug_append, ← here]
      rfl
    · exact ⟨[], left, right, same ▸ rfl⟩
    · obtain ⟨path, l, r, here⟩ := ihr upper
      refine ⟨path ++ [⟨.right, slot, left⟩], l, r, ?_⟩
      rw [plug_append, ← here]
      rfl

end Slotted
