import Slotted.Proofs.TreeSet.Callers
import Slotted.Proofs.TreeSet.Moved
import Slotted.TreeSet.Rekey
namespace Slotted

namespace Tree

-- Left of what is greater than the target and right of what is less: the way down, and what stands at its end.
def seek (order : Nat → Ordering) : List Crumb → Tree → List Crumb × Tree
  | path, nil => (path, nil)
  | path, node left i right =>
    match order i with
    | .eq => (path, node left i right)
    | .gt => left.seek order (⟨.left, i, right⟩ :: path)
    | .lt => right.seek order (⟨.right, i, left⟩ :: path)

end Tree

def Steered (order : Nat → Ordering) (path : List Crumb) : Prop :=
  ∀ c ∈ path, order c.slot = match c.side with
    | .left => .gt
    | .right => .lt

variable {order order' : Nat → Ordering} {path : List Crumb} {t : Tree} {ρ : Nat → Nat}

theorem Steered.cons {c : Crumb} (steered : Steered order path)
    (here : order c.slot = match c.side with
      | .left => .gt
      | .right => .lt) : Steered order (c :: path) := by
  intro d member
  cases List.mem_cons.mp member with
  | inl same => rw [same, here]
  | inr member => exact steered d member

theorem Steered.congr (steered : Steered order path) (same : ∀ i ∈ held path, order' i = order i) : Steered order' path := by
  intro c member
  rw [same c.slot (slot_mem member)]
  exact steered c member

-- Answers that never fall back: greater stays greater further right, and less stays less further left.
def Climbing (order : Nat → Ordering) (slots : List Nat) : Prop :=
  slots.Pairwise fun i j => (order i = .gt → order j = .gt) ∧ (order j = .lt → order i = .lt)

-- The turns of a path settle the answers about everything beside it.
theorem Steered.splits (steered : Steered order path) (climbing : Climbing order (plug path t).slots) :
    (∀ i ∈ beyond .left path, order i = .lt) ∧ ∀ i ∈ beyond .right path, order i = .gt := by
  induction path generalizing t with
  | nil => exact ⟨fun _ none => absurd none List.not_mem_nil, fun _ none => absurd none List.not_mem_nil⟩
  | cons c up ih =>
    obtain ⟨side, slot, sibling⟩ := c
    have here := steered _ List.mem_cons_self
    obtain ⟨lower, upper⟩ := ih (fun d member => steered d (List.mem_cons_of_mem _ member)) climbing
    rw [plug, slots_plug_eq] at climbing
    have node := (List.pairwise_append.mp (List.pairwise_append.mp climbing).1).2.1
    cases side with
    | left =>
      have rises := (List.pairwise_cons.mp (List.pairwise_append.mp node).2.1).1
      refine ⟨lower, ?_⟩
      intro i member
      simp only [beyond, reduceCtorEq, if_false, Tree.toward, List.mem_append, List.mem_cons] at member
      rcases member with (same | inner) | outer
      · rw [same]
        exact here
      · exact (rises i inner).1 here
      · exact upper i outer
    | right =>
      have rises := (List.pairwise_append.mp node).2.2
      refine ⟨?_, upper⟩
      intro i member
      simp only [beyond, reduceCtorEq, if_false, Tree.toward, List.mem_append, List.mem_cons, List.mem_reverse] at member
      rcases member with (same | inner) | outer
      · rw [same]
        exact here
      · exact (rises i inner slot List.mem_cons_self).2 here
      · exact lower i outer

namespace Tree

theorem plug_seek (order : Nat → Ordering) (path : List Crumb) (t : Tree) :
    plug (t.seek order path).1 (t.seek order path).2 = plug path t := by
  induction t generalizing path with
  | nil => rfl
  | node left i right ihl ihr =>
    unfold seek
    split
    · rfl
    · rw [ihl]
      rfl
    · rw [ihr]
      rfl

theorem seek_steered (steered : Steered order path) : Steered order (t.seek order path).1 := by
  induction t generalizing path with
  | nil => exact steered
  | node left i right ihl ihr =>
    unfold seek
    split
    · exact steered
    · rename_i greater
      exact ihl (steered.cons greater)
    · rename_i less
      exact ihr (steered.cons less)

theorem seek_ends (order : Nat → Ordering) (path : List Crumb) (t : Tree) :
    (t.seek order path).2 = nil ∨ ∃ left i right, (t.seek order path).2 = node left i right ∧ order i = .eq := by
  induction t generalizing path with
  | nil => exact .inl rfl
  | node left i right ihl ihr =>
    unfold seek
    split
    · rename_i equal
      exact .inr ⟨left, i, right, rfl, equal⟩
    · exact ihl _
    · exact ihr _

theorem seek_map (path path' : List Crumb) (same : ∀ i ∈ t.slots, order' (ρ i) = order i) :
    ((t.map ρ).seek order' path').2 = ((t.seek order path).2).map ρ := by
  induction t generalizing path path' with
  | nil => rfl
  | node left i right ihl ihr =>
    simp only [slots, List.mem_append, List.mem_cons] at same
    have here := same i (.inr (.inl rfl))
    unfold seek
    simp only [map, here]
    split
    · rfl
    · exact ihl _ _ fun j member => same j (.inl member)
    · exact ihr _ _ fun j member => same j (.inr (.inr member))

end Tree

namespace TreeSet

open Store Query

variable {α ω : Type} {s middle : TreeSet α} {f : α → Ordering} {memory : Nat} {parent fuel : Nat}

def shown (f : α → Ordering) (p : Pool α TreeLink) (i : Nat) : Ordering := ((p.get? i).map f).getD .eq

theorem shown_of_get? {p : Pool α TreeLink} {i : Nat} {value : α} (held : p.get? i = some value) :
    shown f p i = f value := by
  rw [shown, held]
  rfl

def placeOf : List Crumb × Tree → Place
  | (path, .nil) => .vacant (above path) (turn path)
  | (_, .node _ i _) => .found i

def sought (f : α → Ordering) (t : Tree) (p : Pool α TreeLink) : Place := placeOf (t.seek (shown f p) [])

theorem descend_node {order : α → Query (TreeSet α) ω Ordering} {i : Nat} {value : α} (some : i ≠ 0)
    (held : s.pool.get? i = Option.some value) (fuel parent : Nat) (side : Side) :
    descend order (fuel + 1) parent i side s = (do
      match ← order value with
      | .eq => return .found i
      | .gt => descend order fuel i (s.pool.linkAt i).left .left
      | .lt => descend order fuel i (s.pool.linkAt i).right .right : Query (TreeSet α) ω Place) s := by
  have inside := Pool.isActive_lt (Pool.isActive_of_get? held)
  funext gate
  conv => lhs; unfold descend
  rw [if_neg some]
  dsimp only
  rw [bind_run, read_run]
  dsimp only
  rw [Pool.link_eq inside, bind_run, lift_run]
  dsimp only
  rw [bind_run, read_run]
  dsimp only
  rw [Pool.value_of_get? held]
  rfl

theorem descend_run (path : List Crumb) (hangs : Hangs s.pool.linkAt parent t)
    (live : ∀ i ∈ t.slots, ∃ value, s.pool.get? i = some value) (enough : t.height ≤ fuel) (gate : Gate ω) :
    descend (fun value => pure (f value)) fuel (above path) t.top (turn path) s gate =
      .ok (placeOf (t.seek (shown f s.pool) path)) gate := by
  induction t generalizing path parent fuel with
  | nil =>
    unfold descend
    rfl
  | node left i right ihl ihr =>
    obtain ⟨some, _, atLeft, atRight, lower, upper⟩ := hangs
    obtain ⟨below, ⟨value, held⟩, beyond⟩ := Tree.forall_node live
    rw [Tree.height] at enough
    cases fuel with
    | zero => omega
    | succ fuel =>
      have deeper := ihl (⟨.left, i, right⟩ :: path) lower below (show left.height ≤ fuel by omega)
      have deeper' := ihr (⟨.right, i, left⟩ :: path) upper beyond (show right.height ≤ fuel by omega)
      rw [above, turn, ← atLeft] at deeper
      rw [above, turn, ← atRight] at deeper'
      unfold Tree.seek
      rw [Tree.top, descend_node some held, bind_run, pure_run, shown_of_get? held]
      dsimp only
      cases f value with
      | eq => rfl
      | gt => exact deeper
      | lt => exact deeper'

theorem locate_answers (sound : Sound t s) (f : α → Ordering) (memory : Nat) :
    (locate (ω := ω) ⟨fun value => pure (f value), memory⟩).Answers s (sought f t s.pool) := by
  have planted := sound.threads.planted sound.linkable
  have enough : t.height ≤ memory + s.pool.walkLimit := Nat.le_add_left_of_le planted.height_le_walkLimit
  refine answers_guarded fun gate => ?_
  rw [bind_run, read_run]
  dsimp only
  rw [bind_run, read_run]
  dsimp only
  rw [planted.root]
  have ran := descend_run (f := f) [] planted.hangs (fun i => sound.mem_iff.mp) enough gate
  exact ran

-- A search ends at an element that the probe calls equal, or at a place that all its answers led to.
theorem sought_cases (f : α → Ordering) (t : Tree) (p : Pool α TreeLink) :
    (∃ i ∈ t.slots, shown f p i = .eq ∧ sought f t p = .found i) ∨
      ∃ path, t = plug path .nil ∧ Steered (shown f p) path ∧ sought f t p = .vacant (above path) (turn path) := by
  have plugged := Tree.plug_seek (shown f p) [] t
  have steered : Steered (shown f p) (t.seek (shown f p) []).1 := Tree.seek_steered fun c member => by cases member
  have ends := Tree.seek_ends (shown f p) [] t
  rw [sought]
  generalize t.seek (shown f p) [] = ended at *
  obtain ⟨path, sub⟩ := ended
  rcases ends with none | ⟨left, i, right, stands, equal⟩
  · cases none
    exact .inr ⟨path, plugged.symm, steered, rfl⟩
  · cases stands
    refine .inl ⟨i, ?_, equal, rfl⟩
    rw [show t = plug path (.node left i right) from plugged.symm, mem_plug]
    simp [Tree.slots]

theorem sought_found {i : Nat} (sound : Sound t s) (found : sought f t s.pool = .found i) :
    ∃ value, s.pool.get? i = some value ∧ f value = .eq := by
  rcases sought_cases f t s.pool with ⟨j, member, equal, ends⟩ | ⟨path, _, _, ends⟩
  · rw [found] at ends
    cases ends
    obtain ⟨value, held⟩ := sound.mem_iff.mp member
    rw [shown_of_get? held] at equal
    exact ⟨value, held, equal⟩
  · rw [found] at ends
    cases ends

theorem locate_then {β : Type} {s : Session (TreeSet α) ω} {rest : Place → Update (TreeSet α) ω β}
    {returns : β → Session (TreeSet α) ω → Prop} {faults : Fault → Session (TreeSet α) ω → Prop} (sound : Sound t s.store)
    (f : α → Ordering) (memory : Nat) (barred : ∀ fault after, s.Barred fault after → faults fault after)
    (found : ∀ i, (positive : 0 < i) → (∃ value, s.store.get? ⟨i, positive⟩ = some value ∧ f value = .eq) →
      Ends (rest (.found i)) s returns faults)
    (vacant : ∀ path, t = plug path .nil → Steered (shown f s.store.pool) path →
      sought f t s.store.pool = .vacant (above path) (turn path) → s.gate.busy = false →
      Ends (rest (.vacant (above path) (turn path))) s returns faults) :
    Ends (Update.ask (locate ⟨fun value => pure (f value), memory⟩) >>= rest) s returns faults := by
  cases raised : s.gate.busy with
  | true =>
    rw [ends_bind]
    exact Ends.of_error (ask_raised _ raised) (barred _ _ ⟨rfl, rfl, raised⟩)
  | false =>
    refine (locate_answers sound f memory).bind_ends barred ?_
    rcases sought_cases f t s.store.pool with ⟨i, member, _, ends⟩ | ⟨path, shape, steered, ends⟩
    · rw [ends]
      exact found i (sound.linkable.inside i member).1 (sought_found sound ends)
    · rw [ends]
      exact vacant path shape steered ends raised

theorem locate_follows_then {β : Type} {blame : Fault → Prop} {probe : Probe (TreeSet α) ω α} {s : Session (TreeSet α) ω}
    {rest : Place → Update (TreeSet α) ω β} {returns : β → Session (TreeSet α) ω → Prop}
    {faults : Fault → Session (TreeSet α) ω → Prop} (follows : probe.Follows blame f) (sound : Sound t s.store)
    (lowered : s.gate.busy = false)
    (blamed : ∀ fault after, blame fault → after.store = s.store → after.gate.busy = false → faults fault after)
    (found : ∀ gate : Gate ω, gate.busy = false → ∀ i, (positive : 0 < i) →
      (∃ value, s.store.get? ⟨i, positive⟩ = some value ∧ f value = .eq) →
      Ends (rest (.found i)) ⟨s.store, gate⟩ returns faults)
    (vacant : ∀ gate : Gate ω, gate.busy = false → ∀ path, t = plug path .nil → Steered (shown f s.store.pool) path →
      sought f t s.store.pool = .vacant (above path) (turn path) →
      Ends (rest (.vacant (above path) (turn path))) ⟨s.store, gate⟩ returns faults) :
    Ends (Update.ask (locate probe) >>= rest) s returns faults := by
  refine (locate_follows follows).asks_then lowered ((locate_answers sound f _).lowered lowered) blamed ?_
  intro gate lowered
  rcases sought_cases f t s.store.pool with ⟨i, member, _, ends⟩ | ⟨path, shape, steered, ends⟩
  · rw [ends]
    exact found gate lowered i (sound.linkable.inside i member).1 (sought_found sound ends)
  · rw [ends]
    exact vacant gate lowered path shape steered ends

-- A search that found nothing finds nothing after the elements were renumbered either.
theorem sought_again {side : Side} (missing : sought f t s.pool = .vacant parent side) (carries : Carries ρ t s middle) :
    ∃ path, t.map ρ = plug path .nil ∧ Steered (shown f middle.pool) path ∧
      sought f (t.map ρ) middle.pool = .vacant (above path) (turn path) := by
  have same : ∀ i ∈ t.slots, shown f middle.pool (ρ i) = shown f s.pool i := by
    intro i member
    rw [shown, shown, carries.relabels.held i member]
  have stands := Tree.seek_map [] [] same
  rcases sought_cases f (t.map ρ) middle.pool with ⟨j, _, _, ends⟩ | again
  · rw [sought] at missing ends
    generalize t.seek (shown f s.pool) [] = first at *
    generalize (t.map ρ).seek (shown f middle.pool) [] = second at *
    obtain ⟨_, sub⟩ := first
    obtain ⟨_, sub'⟩ := second
    cases sub with
    | nil =>
      cases stands
      cases ends
    | node left i right => cases missing
  · exact again

def Misses (f : α → Ordering) (t : Tree) (p : Pool α TreeLink) : Prop :=
  ∃ path, t = plug path .nil ∧ Steered (shown f p) path

-- A probe under which the answers to a list of elements never fall back.
def Rising (f : α → Ordering) (values : List α) : Prop :=
  values.Pairwise fun a b => (f a = .gt → f b = .gt) ∧ (f b = .lt → f a = .lt)

theorem Rising.climbing (sound : Sound t s) (rising : Rising f (t.slots.filterMap s.pool.get?)) :
    Climbing (shown f s.pool) t.slots := by
  refine (List.pairwise_filterMap.mp rising).imp_of_mem ?_
  intro i j left right rises
  obtain ⟨a, held⟩ := sound.mem_iff.mp left
  obtain ⟨b, held'⟩ := sound.mem_iff.mp right
  rw [shown_of_get? held, shown_of_get? held']
  exact rises a held b held'

theorem Misses.splits (sound : Sound t s) (misses : Misses f t s.pool) (rising : Rising f (t.slots.filterMap s.pool.get?)) :
    ∀ value ∈ t.slots.filterMap s.pool.get?, f value ≠ .eq := by
  obtain ⟨path, shape, steered⟩ := misses
  have climbing := rising.climbing sound
  rw [shape] at climbing
  obtain ⟨lower, upper⟩ := steered.splits climbing
  intro value member equal
  obtain ⟨i, inner, held⟩ := List.mem_filterMap.mp member
  rw [shape, slots_plug_eq] at inner
  simp only [Tree.slots, List.append_nil, List.mem_append, List.mem_reverse] at inner
  rw [← shown_of_get? (f := f) held] at equal
  cases inner with
  | inl before => simp [lower i before] at equal
  | inr after => simp [upper i after] at equal

theorem findBy_answers (sound : Sound t s) (f : α → Ordering) (memory : Nat) :
    ∃ answer : Option Handle, (findBy (ω := ω) ⟨fun value => pure (f value), memory⟩).Answers s answer ∧
      match answer with
        | some h => ∃ value, s.get? h = some value ∧ f value = .eq
        | none => Misses f t s.pool := by
  have answers := locate_answers (ω := ω) sound f memory
  rcases sought_cases f t s.pool with ⟨i, member, _, ends⟩ | ⟨path, shape, steered, ends⟩
  · have positive := (sound.linkable.inside i member).1
    obtain ⟨value, held, equal⟩ := sought_found sound ends
    refine ⟨some ⟨i, positive⟩, answers.bind (.of_run fun gate => ?_), value, held, equal⟩
    rw [ends]
    dsimp only
    rw [Handle.ofIndex_run positive]
    rfl
  · refine ⟨none, answers.bind (.of_run fun gate => ?_), path, shape, steered⟩
    rw [ends]
    rfl

-- The last slot on the wanted side that a search passes, if it passes any.
def nearest (wanted : Side) (inclusive : Bool) (order : Nat → Ordering) : Nat → Tree → Nat
  | best, .nil => best
  | best, .node left i right =>
    match order i with
    | .eq =>
      if inclusive then i
      else match wanted with
        | .left => nearest wanted inclusive order best left
        | .right => nearest wanted inclusive order best right
    | .lt => nearest wanted inclusive order (if wanted = .left then i else best) right
    | .gt => nearest wanted inclusive order (if wanted = .right then i else best) left

theorem boundFrom_node {order : α → Query (TreeSet α) ω Ordering} {i : Nat} {value : α} (some : i ≠ 0)
    (held : s.pool.get? i = Option.some value) (wanted : Side) (inclusive : Bool) (fuel best : Nat) :
    boundFrom wanted inclusive order (fuel + 1) best i s = (do
      let link := s.pool.linkAt i
      match ← order value with
      | .eq => if inclusive then return i else boundFrom wanted inclusive order fuel best (link.child wanted)
      | .lt => boundFrom wanted inclusive order fuel (if wanted = .left then i else best) link.right
      | .gt => boundFrom wanted inclusive order fuel (if wanted = .right then i else best) link.left :
        Query (TreeSet α) ω Nat) s := by
  have inside := Pool.isActive_lt (Pool.isActive_of_get? held)
  funext gate
  conv => lhs; unfold boundFrom
  rw [if_neg some]
  dsimp only
  rw [bind_run, read_run]
  dsimp only
  rw [Pool.link_eq inside, bind_run, lift_run]
  dsimp only
  rw [bind_run, read_run]
  dsimp only
  rw [Pool.value_of_get? held]
  rfl

theorem boundFrom_run (hangs : Hangs s.pool.linkAt parent t) (live : ∀ i ∈ t.slots, ∃ value, s.pool.get? i = some value)
    (enough : t.height ≤ fuel) (wanted : Side) (inclusive : Bool) (best : Nat) (gate : Gate ω) :
    boundFrom wanted inclusive (fun value => pure (f value)) fuel best t.top s gate =
      .ok (nearest wanted inclusive (shown f s.pool) best t) gate := by
  induction t generalizing parent fuel best with
  | nil =>
    unfold boundFrom
    rfl
  | node left i right ihl ihr =>
    obtain ⟨some, _, atLeft, atRight, lower, upper⟩ := hangs
    obtain ⟨below, ⟨value, held⟩, beyond⟩ := Tree.forall_node live
    rw [Tree.height] at enough
    cases fuel with
    | zero => omega
    | succ fuel =>
      have toLeft := ihl lower below (show left.height ≤ fuel by omega)
      have toRight := ihr upper beyond (show right.height ≤ fuel by omega)
      rw [← atLeft] at toLeft
      rw [← atRight] at toRight
      unfold nearest
      rw [Tree.top, boundFrom_node some held, bind_run, pure_run, shown_of_get? held]
      dsimp only
      cases f value with
      | lt => exact toRight _
      | gt => exact toLeft _
      | eq =>
        cases inclusive with
        | true => rfl
        | false =>
          cases wanted with
          | left => exact toLeft _
          | right => exact toRight _

theorem bound_answers (sound : Sound t s) (f : α → Ordering) (memory : Nat) (wanted : Side) (inclusive : Bool) :
    (bound (ω := ω) wanted inclusive ⟨fun value => pure (f value), memory⟩).Answers s
      (Handle.ofIndex? (nearest wanted inclusive (shown f s.pool) 0 t)) := by
  have planted := sound.threads.planted sound.linkable
  have enough : t.height ≤ memory + s.pool.walkLimit := Nat.le_add_left_of_le planted.height_le_walkLimit
  refine (answers_guarded fun gate => ?_).bind (.of_run fun gate => rfl)
  rw [bind_run, read_run]
  dsimp only
  rw [bind_run, read_run]
  dsimp only
  rw [planted.root]
  exact boundFrom_run planted.hangs (fun i => sound.mem_iff.mp) enough wanted inclusive 0 gate

theorem resolved_answers {search : Query (TreeSet α) ω (Option Handle)} {found : Option Handle}
    (answers : search.Answers s found) : (resolved search).Answers s (found.bind s.get?) := by
  cases found with
  | none => exact answers.bind (.of_run fun _ => rfl)
  | some h => exact answers.bind (.of_run fun _ => rfl)

end TreeSet
end Slotted
