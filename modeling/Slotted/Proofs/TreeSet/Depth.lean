import Mathlib.Data.Nat.Fib.Basic
import Slotted.Proofs.TreeSet.Unsteady
namespace Slotted

variable {κ α β γ ω : Type}

def Gate.counting (gate : Gate ω) (n : Nat) : Gate (ω × Nat) := ⟨gate.busy, gate.world, n⟩

def counted (n : Nat) : EStateM.Result Fault (Gate ω) β → EStateM.Result Fault (Gate (ω × Nat)) β
  | .ok value gate => .ok value (gate.counting n)
  | .error fault gate => .error fault (gate.counting n)

namespace Query

def tallied (query : Query κ ω β) : Query κ (ω × Nat) β := fun store gate =>
  counted (gate.world.2 + 1) (query store ⟨gate.busy, gate.world.1⟩)

-- The watched query goes like the other one, and there are so many calls at most on the way.
def Tallies (most : Nat) (watched : Query κ (ω × Nat) β) (query : Query κ ω β) (store : κ) : Prop :=
  ∀ gate n, ∃ calls ≤ most, watched store (gate.counting n) = counted (n + calls) (query store gate)

variable {store : κ} {a b : Nat} {watched : Query κ (ω × Nat) β} {query : Query κ ω β}

theorem tallies_pure (value : β) : Tallies 0 (pure value) (pure value : Query κ ω β) store :=
  fun _ _ => ⟨0, Nat.le_refl 0, rfl⟩

theorem tallies_throw (fault : Fault) : Tallies 0 (throw fault) (throw fault : Query κ ω β) store :=
  fun _ _ => ⟨0, Nat.le_refl 0, rfl⟩

theorem tallies_lift (read : Except Fault β) : Tallies 0 (liftM read) (liftM read : Query κ ω β) store := by
  cases read with
  | ok value => exact tallies_pure value
  | error fault => exact tallies_throw fault

theorem tallies_tallied (query : Query κ ω β) (store : κ) : Tallies 1 query.tallied query store :=
  fun _ _ => ⟨1, Nat.le_refl 1, rfl⟩

theorem Tallies.mono (tallies : Tallies a watched query store) (more : a ≤ b) : Tallies b watched query store := by
  intro gate n
  obtain ⟨calls, few, ran⟩ := tallies gate n
  exact ⟨calls, few.trans more, ran⟩

theorem Tallies.congr {watched' : Query κ (ω × Nat) β} {query' : Query κ ω β} (tallies : Tallies a watched query store)
    (same : watched' store = watched store) (same' : query' store = query store) : Tallies a watched' query' store := by
  intro gate n
  rw [same, same']
  exact tallies gate n

theorem Tallies.bind {rest : β → Query κ (ω × Nat) γ} {rest' : β → Query κ ω γ} (first : Tallies a watched query store)
    (further : ∀ value, Tallies b (rest value) (rest' value) store) :
    Tallies (a + b) (watched >>= rest) (query >>= rest') store := by
  intro gate n
  obtain ⟨calls, few, ran⟩ := first gate n
  rw [bind_run, bind_run, ran]
  cases query store gate with
  | error fault after => exact ⟨calls, few.trans (Nat.le_add_right a b), rfl⟩
  | ok value after =>
    obtain ⟨calls', few', ran'⟩ := further value after (n + calls)
    refine ⟨calls + calls', Nat.add_le_add few few', ?_⟩
    rw [← Nat.add_assoc]
    exact ran'

theorem Tallies.guarded (tallies : Tallies a watched query store) : Tallies a watched.guarded query.guarded store := by
  intro gate n
  obtain ⟨busy, world⟩ := gate
  cases busy with
  | true => exact ⟨0, Nat.zero_le a, rfl⟩
  | false =>
    obtain ⟨calls, few, ran⟩ := tallies ⟨true, world⟩ n
    refine ⟨calls, few, ?_⟩
    unfold Query.guarded
    simp only [Gate.counting, Bool.false_eq_true, if_false] at ran ⊢
    rw [ran]
    cases query store ⟨true, world⟩ <;> rfl

-- As few calls as there are levels in a balanced tree of this size.
def Short (size : Nat) (watched : Query κ (ω × Nat) β) (query : Query κ ω β) (store : κ) : Prop :=
  ∀ gate, ∃ calls, Nat.fib (calls + 2) - 1 ≤ size ∧ watched store (gate.counting 0) = counted calls (query store gate)

theorem Tallies.short {size : Nat} (tallies : Tallies a watched query store) (big : Nat.fib (a + 2) ≤ size + 1) :
    Short size watched query store := by
  intro gate
  obtain ⟨calls, few, ran⟩ := tallies gate 0
  have low := Nat.fib_mono (Nat.add_le_add_right few 2)
  exact ⟨calls, Nat.sub_le_of_le_add (low.trans big), ran.trans (by rw [Nat.zero_add])⟩

end Query

def Probe.tallied (probe : Probe κ ω α) : Probe κ (ω × Nat) α := ⟨fun element => (probe.order element).tallied, probe.memory⟩

-- The induction is on the tree: the subtrees of a node differ by one level at most.
theorem Weighs.fib_le {links : Nat → TreeLink} {t : Tree} (weighs : Weighs links t) :
    Nat.fib (t.height + 2) ≤ t.slots.length + 1 := by
  induction t with
  | nil => exact Nat.le_refl 1
  | node left i right ihl ihr =>
    obtain ⟨balance, small, lower, upper⟩ := weighs
    have left' := ihl lower
    have right' := ihr upper
    have split : Nat.fib (1 + max left.height right.height + 2) =
        Nat.fib (max left.height right.height + 1) + Nat.fib (max left.height right.height + 2) := by
      rw [Nat.add_comm 1, Nat.fib_add_two]
    have near : max left.height right.height + 1 ≤ min left.height right.height + 2 := by omega
    have low := Nat.fib_mono near
    simp only [Tree.height, Tree.slots, List.length_append, List.length_cons, split]
    rcases Nat.le_total left.height right.height with less | less
    · rw [max_eq_right less] at low ⊢
      rw [min_eq_left less] at low
      omega
    · rw [max_eq_left less] at low ⊢
      rw [min_eq_right less] at low
      omega

theorem height_plug (path : List Crumb) (t : Tree) : path.length + t.height ≤ (plug path t).height := by
  induction path generalizing t with
  | nil => exact Nat.le_of_eq (Nat.zero_add _)
  | cons c up ih =>
    have higher := ih (.join c.side t c.slot c.sibling)
    rw [Tree.height_join] at higher
    rw [plug, List.length_cons]
    omega

namespace TreeSet

open Store Query Session

variable {s : TreeSet α} {t : Tree} {parent : Nat} {probe : Probe (TreeSet α) ω α}

theorem descend_tallies (hangs : Hangs s.pool.linkAt parent t) (live : ∀ i ∈ t.slots, ∃ value, s.pool.get? i = some value)
    (probe : Probe (TreeSet α) ω α) (fuel above : Nat) (side : Side) :
    Tallies t.height (descend probe.tallied.order fuel above t.top side) (descend probe.order fuel above t.top side) s := by
  induction t generalizing parent fuel above side with
  | nil =>
    unfold descend
    exact tallies_pure _
  | node left i right ihl ihr =>
    obtain ⟨some, _, atLeft, atRight, lower, upper⟩ := hangs
    obtain ⟨below, ⟨value, held⟩, beyond⟩ := Tree.forall_node live
    rw [Tree.top]
    cases fuel with
    | zero =>
      unfold descend
      rw [if_neg some, if_neg some]
      exact (tallies_throw _).mono (Nat.zero_le _)
    | succ fuel =>
      have toLeft := ihl lower below fuel i .left
      have toRight := ihr upper beyond fuel i .right
      rw [← atLeft] at toLeft
      rw [← atRight] at toRight
      have asked := tallies_tallied (probe.order value) s
      refine Tallies.congr (asked.bind fun answer => ?_) (descend_node some held _ _ _) (descend_node some held _ _ _)
      cases answer with
      | eq => exact (tallies_pure _).mono (Nat.zero_le _)
      | gt => exact toLeft.mono (Nat.le_max_left _ _)
      | lt => exact toRight.mono (Nat.le_max_right _ _)

theorem boundFrom_tallies (hangs : Hangs s.pool.linkAt parent t) (live : ∀ i ∈ t.slots, ∃ value, s.pool.get? i = some value)
    (probe : Probe (TreeSet α) ω α) (wanted : Side) (inclusive : Bool) (fuel best : Nat) :
    Tallies t.height (boundFrom wanted inclusive probe.tallied.order fuel best t.top)
      (boundFrom wanted inclusive probe.order fuel best t.top) s := by
  induction t generalizing parent fuel best with
  | nil =>
    unfold boundFrom
    exact tallies_pure _
  | node left i right ihl ihr =>
    obtain ⟨some, _, atLeft, atRight, lower, upper⟩ := hangs
    obtain ⟨below, ⟨value, held⟩, beyond⟩ := Tree.forall_node live
    rw [Tree.top]
    cases fuel with
    | zero =>
      unfold boundFrom
      rw [if_neg some, if_neg some]
      exact (tallies_throw _).mono (Nat.zero_le _)
    | succ fuel =>
      have toLeft := fun best => (ihl lower below fuel best).mono (Nat.le_max_left _ right.height)
      have toRight := fun best => (ihr upper beyond fuel best).mono (Nat.le_max_right left.height _)
      rw [← atLeft] at toLeft
      rw [← atRight] at toRight
      have asked := tallies_tallied (probe.order value) s
      refine Tallies.congr (asked.bind fun answer => ?_) (boundFrom_node some held _ _ _ _)
        (boundFrom_node some held _ _ _ _)
      cases answer with
      | lt => exact toRight _
      | gt => exact toLeft _
      | eq =>
        cases inclusive with
        | true => exact (tallies_pure _).mono (Nat.zero_le _)
        | false =>
          cases wanted with
          | left => exact toLeft _
          | right => exact toRight _

theorem locate_tallies (sound : Sound t s) (probe : Probe (TreeSet α) ω α) :
    Tallies t.height (locate probe.tallied) (locate probe) s := by
  have planted := sound.threads.planted sound.linkable
  have searched := descend_tallies planted.hangs (fun i => sound.mem_iff.mp) probe (probe.memory + s.pool.walkLimit) 0 .right
  rw [← planted.root] at searched
  exact Tallies.guarded (searched.congr rfl rfl)

theorem findBy_tallies (sound : Sound t s) (probe : Probe (TreeSet α) ω α) :
    Tallies t.height (findBy probe.tallied) (findBy probe) s := by
  refine (locate_tallies sound probe).bind (b := 0) fun place => ?_
  cases place with
  | found i => exact (tallies_lift _).bind fun h => tallies_pure _
  | vacant parent side => exact tallies_pure _

theorem bound_tallies (sound : Sound t s) (probe : Probe (TreeSet α) ω α) (wanted : Side) (inclusive : Bool) :
    Tallies t.height (bound wanted inclusive probe.tallied) (bound wanted inclusive probe) s := by
  have planted := sound.threads.planted sound.linkable
  have searched := boundFrom_tallies planted.hangs (fun i => sound.mem_iff.mp) probe wanted inclusive
    (probe.memory + s.pool.walkLimit) 0
  rw [← planted.root] at searched
  exact (Tallies.guarded (searched.congr rfl rfl)).bind fun best => tallies_pure _

-- What the links lead to from the root, and how many nodes there are on the way.
inductive Deep (s : TreeSet α) : Nat → Nat → Prop where
  | root : s.index.slot ≠ 0 → Deep s s.index.slot 1
  | child {i depth : Nat} (side : Side) : Deep s i depth → (s.pool.linkAt i).child side ≠ 0 →
    Deep s ((s.pool.linkAt i).child side) (depth + 1)

theorem Deep.under {i j depth : Nat} (deep : Deep s i depth) (side : Side) (below : (s.pool.linkAt i).child side = j)
    (some : j ≠ 0) : Deep s j (depth + 1) := below ▸ .child side deep (below ▸ some)

theorem Deep.place (sound : Sound t s) {i depth : Nat} (deep : Deep s i depth) :
    ∃ path left right, t = plug path (.node left i right) ∧ path.length + 1 = depth := by
  have planted := sound.threads.planted sound.linkable
  induction deep with
  | root some =>
    have root := planted.root
    cases t with
    | nil => exact absurd root some
    | node left i right => exact ⟨[], left, right, root ▸ rfl, rfl⟩
  | @child i depth side deep some ih =>
    obtain ⟨path, left, right, shape, rfl⟩ := ih
    obtain ⟨near, far, node⟩ := Tree.exists_near side left right i
    have hangs := planted.hangs
    rw [shape, node, hangs_plug, hangs_join] at hangs
    obtain ⟨_, _, _, here, _⟩ := hangs
    rw [here] at some ⊢
    cases near with
    | nil => exact absurd rfl some
    | node left' j right' => exact ⟨⟨side, i, far⟩ :: path, left', right', shape.trans (congrArg (plug path) node), rfl⟩

-- The induction is on the path: what is there hangs from the node before it by one link.
theorem deep_of_place (sound : Sound t s) {path : List Crumb} {left right : Tree} {i : Nat}
    (shape : t = plug path (.node left i right)) : Deep s i (path.length + 1) := by
  have hangs := (sound.threads.planted sound.linkable).hangs
  rw [shape, hangs_plug] at hangs
  obtain ⟨around, hung⟩ := hangs
  have some : i ≠ 0 := hung.1
  clear hung
  induction path generalizing left right i with
  | nil =>
    have root : s.index.slot = i := sound.threads.root.trans (congrArg Tree.top shape)
    exact root ▸ .root (root ▸ some)
  | cons c up ih =>
    obtain ⟨left', right', node⟩ := Tree.join_eq_node c.side (.node left i right) c.slot c.sibling
    obtain ⟨some', _, here, _, _, around'⟩ := around
    have deep := ih (shape.trans (congrArg (plug up) node)) around' some'
    exact deep.under c.side here some

-- After any history and under any rule, as long as the tree stands: a search asks about so few elements, and no element is
-- deeper. It stands as long as no insertion was misplaced.
theorem searches_stay_short [Allocator ω] (rule : OrderRule (TreeSet α) ω α) (s : Session (TreeSet α) ω) :
    (TreeSet.Reached (act rule) (fun _ => True) s → WellGrown s.store →
      (∀ probe : Probe (TreeSet α) ω α, Short s.store.len (findBy probe.tallied) (findBy probe) s.store ∧
        ∀ wanted inclusive, Short s.store.len (bound wanted inclusive probe.tallied) (bound wanted inclusive probe) s.store) ∧
      (∀ h, s.store.get? h ≠ none → ∃ depth, Deep s.store h.index depth) ∧
      ∀ i depth, Deep s.store i depth → Nat.fib (depth + 2) - 1 ≤ s.store.len) ∧
    ∀ r : PureOrder α, rule.Follows (fun _ => True) r → Tended rule s → WellGrown s.store := by
  refine ⟨fun reached grown => ?_, fun r follows tended => tended.grown follows⟩
  obtain ⟨t, sound⟩ := reached.sound grown
  have big : Nat.fib (t.height + 2) ≤ s.store.len + 1 := by
    rw [len, sound.counted]
    exact sound.threads.weighs.fib_le
  refine ⟨fun probe => ⟨(findBy_tallies sound probe).short big, fun wanted inclusive =>
    (bound_tallies sound probe wanted inclusive).short big⟩, fun h held => ?_, fun i depth deep => ?_⟩
  · obtain ⟨path, left, right, shape⟩ := exists_path (sound.mem_iff.mpr (Option.ne_none_iff_exists'.mp held))
    exact ⟨_, deep_of_place sound shape⟩
  · obtain ⟨path, left, right, shape, rfl⟩ := deep.place sound
    have high := height_plug path (.node left i right)
    rw [← shape, Tree.height] at high
    have low := Nat.fib_mono (show path.length + 1 + 2 ≤ t.height + 2 by omega)
    exact Nat.sub_le_of_le_add (low.trans big)

-- A tree that lost an element and got another one, searched by a probe that answers as it likes.
theorem searches_stay_short_of_numbers :
    let r : PureOrder Nat := ⟨compare⟩
    let start : Session (TreeSet Nat) Script := ⟨⟨⟨#[.sentinel], 3, 0⟩, ⟨0⟩⟩, false, ⟨[.lt, .gt, .lt, .lt]⟩⟩
    let nine : Probe (TreeSet Nat) Script Nat := ⟨fun element => pure (compare element 9), 0⟩
    let actions : List (TreeSetAction Nat Script) :=
      [.common (.extend [1, 2, 3, 4, 5, 6, 7, 8]), .common (.take 4), .insertWith nine (pure 9)]
    let s := performed (act r.rule) actions start
    let fickle : Probe (TreeSet Nat) Script Nat := Script.probe 4
    Tended r.rule s ∧ Short s.store.len (findBy fickle.tallied) (findBy fickle) s.store ∧
      Short s.store.len (bound .left true fickle.tallied) (bound .left true fickle) s.store ∧
      ∃ h depth, s.store.get? h = some 9 ∧ Deep s.store h.index depth ∧ Nat.fib (depth + 2) - 1 ≤ s.store.len := by
  intro r start nine actions s fickle
  have tended : Tended r.rule s := by
    refine tended_of_reached r.rule_follows ⟨⟨2⟩, ⟨empty, false, ⟨[.lt, .gt, .lt, .lt]⟩⟩, start, actions, rfl, rfl, ?_, rfl⟩
    intro action member
    simp only [actions, List.mem_cons, List.not_mem_nil, or_false] at member
    rcases member with rfl | rfl | rfl
    · trivial
    · trivial
    · exact ⟨⟨(compare · 9), fun _ => Query.follows_pure _⟩, Query.careful_pure 9⟩
  have held : s.store.get? ⟨9, by decide⟩ = some 9 := by decide +kernel
  have told := searches_stay_short r.rule s
  obtain ⟨stays, stands⟩ := told
  obtain ⟨searches, placed, deep⟩ := stays tended.reached (stands r r.rule_follows tended)
  obtain ⟨depth, here⟩ := placed _ (held ▸ Option.some_ne_none 9)
  exact ⟨tended, (searches fickle).1, (searches fickle).2 .left true, _, depth, held, here, deep _ _ here⟩

-- An insertion was misplaced, and one of two elements is nowhere below the root. Later on compaction faults on it, and so
-- does its removal, which makes another node its own parent. An insertion below that one balances nothing above it, and
-- then a search among six elements asks about four.
theorem searches_overrun_misplaced :
    let r : PureOrder Nat := ⟨compare⟩
    let start : Session (TreeSet Nat) Script := ⟨⟨⟨#[.sentinel], 3, 0⟩, ⟨0⟩⟩, false, ⟨[.lt, .eq]⟩⟩
    let first : List (TreeSetAction Nat Script) := [.common (.insert 1), .common (.insert 2), .common (.take 1),
      .insertWith (Script.probe 2) (pure 3)]
    let later : List (TreeSetAction Nat Script) := [.common (.take 2), .common .reorder, .common (.extend [8, 10, 12]),
      .common (.remove ⟨1, Nat.one_pos⟩), .common (.insert 6), .common (.insert 4)]
    let torn := performed (act r.rule) first start
    let s := performed (act r.rule) (first ++ later) start
    let four : Probe (TreeSet Nat) Script Nat := ⟨fun element => pure (compare element 4), 0⟩
    let asked := (⟨s.store, s.gate.counting 0⟩ : Session (TreeSet Nat) (Script × Nat)).perform (Update.ask (findBy four.tallied))
    (TreeSet.Reached (act r.rule) (fun _ => True) torn ∧ torn.store.get? ⟨2, Nat.two_pos⟩ = some 3 ∧
      ∀ depth, ¬ Deep torn.store 2 depth) ∧
    TreeSet.Reached (act r.rule) (fun _ => True) s ∧ s.store.len < Nat.fib (4 + 2) - 1 ∧ Deep s.store 6 4 ∧
      asked.1 = .ok (some ⟨6, by decide⟩) ∧ asked.2.gate.world.2 = 4 ∧
      ¬ Short s.store.len (findBy four.tallied) (findBy four) s.store := by
  intro r start first later torn s four asked
  have reached : ∀ actions, TreeSet.Reached (act r.rule) (fun _ => True) (performed (act r.rule) actions start) := fun actions =>
    ⟨⟨2⟩, ⟨empty, false, ⟨[.lt, .eq]⟩⟩, start, actions, rfl, rfl, fun _ _ => trivial, rfl⟩
  have alone : torn.store.index.slot = 1 ∧ ∀ side ∈ [Side.left, .right], (torn.store.pool.linkAt 1).child side = 0 := by
    decide +kernel
  have hidden : ∀ i depth, Deep torn.store i depth → i = 1 := by
    intro i depth deep
    induction deep with
    | root => exact alone.1
    | child side _ some ih => exact absurd (ih ▸ alone.2 side (by cases side <;> decide)) some
  have few : s.store.len < Nat.fib (4 + 2) - 1 := by decide +kernel
  have links : s.store.index.slot = 3 ∧ (s.store.pool.linkAt 3).left = 2 ∧ (s.store.pool.linkAt 2).left = 5 ∧
      (s.store.pool.linkAt 5).left = 6 := by decide +kernel
  obtain ⟨top, second, third, fourth⟩ := links
  have deep : Deep s.store 3 1 := top ▸ .root (by omega)
  have deep := ((deep.under .left second (by omega)).under .left third (by omega)).under .left fourth (by omega)
  have calls : asked.2.gate.world.2 = 4 := by decide +kernel
  refine ⟨⟨reached first, by decide +kernel, fun depth deep => absurd (hidden 2 depth deep) (by decide)⟩, reached _, few, deep,
    by decide +kernel, calls, fun short => ?_⟩
  obtain ⟨least, within, ran⟩ := short s.gate
  have same : asked.2.gate.world.2 = least := by
    unfold asked Session.perform Update.ask
    dsimp only
    rw [ran]
    cases findBy four s.store s.gate <;> rfl
  rw [← same, calls] at within
  omega

end TreeSet
end Slotted
