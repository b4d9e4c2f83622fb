import Slotted.Proofs.Safety
import Slotted.Proofs.TreeSet.Unsteady
namespace Slotted

open Store Session

variable {ι α β γ κ μ ν ω : Type}

section Lists

def yielded (side : Stride) : List Stride → List (Walked β) → List β
  | stride :: strides, .item (some item) :: walked =>
    if stride = side then item :: yielded side strides walked else yielded side strides walked
  | _ :: strides, _ :: walked => yielded side strides walked
  | _, _ => []

def taken (strides : List Stride) (walked : List (Walked β)) : Nat :=
  (yielded .front strides walked).length + (yielded .back strides walked).length

def Walked.map (view : β → γ) : Walked β → Walked γ
  | .item met => .item (met.map view)
  | .left count => .left count

-- A walk over a list that gives what it should. A number of strides stands for the moment after them.
structure FromBothEnds (order : List β) (strides : List Stride) (walked : List (Walked β)) : Prop where
  answered : walked.length = strides.length
  -- the front has a prefix, the back a suffix the other way round, and they share nothing
  parts : ∃ rest, order = yielded .front strides walked ++ rest ++ (yielded .back strides walked).reverse
  -- the count is that of the elements still to come
  counts : ∀ n, strides[n]? = some Stride.count →
    walked[n]? = some (Walked.left (order.length - taken (strides.take n) (walked.take n)))
  -- as long as there are any, either end yields one
  more : ∀ n stride, strides[n]? = some stride → stride ≠ .count →
    taken (strides.take n) (walked.take n) < order.length → ∃ item, walked[n]? = some (Walked.item (some item))
  -- and once there are none, neither ever does
  spent : ∀ n m stride, taken (strides.take n) (walked.take n) = order.length → n ≤ m → strides[m]? = some stride →
    stride ≠ .count → walked[m]? = some (Walked.item none)

def between : List Stride → List β → List β
  | [], items => items
  | .count :: strides, items => between strides items
  | .front :: strides, items => between strides items.tail
  | .back :: strides, items => between strides items.dropLast

def Stride.answer (items : List β) : Stride → Walked β
  | .count => .left items.length
  | .front => .item items.head?
  | .back => .item items.getLast?

theorem length_consume (strides : List Stride) (items : List β) : (consume strides items).length = strides.length := by
  induction strides generalizing items with
  | nil => rfl
  | cons stride strides ih => cases stride <;> simp [consume, ih]

theorem take_consume (n : Nat) (strides : List Stride) (items : List β) :
    (consume strides items).take n = consume (strides.take n) items := by
  induction strides generalizing n items with
  | nil => simp [consume]
  | cons stride strides ih =>
    cases n with
    | zero => rfl
    | succ n => cases stride <;> simp [consume, ih]

theorem consume_map (view : β → γ) (strides : List Stride) (items : List β) :
    consume strides (items.map view) = (consume strides items).map (.map view) := by
  induction strides generalizing items with
  | nil => rfl
  | cons stride strides ih => cases stride <;> simp [consume, ← ih, Walked.map]

theorem getElem?_consume (n : Nat) (strides : List Stride) (items : List β) :
    (consume strides items)[n]? = strides[n]?.map (Stride.answer (between (strides.take n) items)) := by
  induction strides generalizing n items with
  | nil => rfl
  | cons stride strides ih =>
    cases n with
    | zero => cases stride <;> rfl
    | succ n => cases stride <;> simp [consume, between, ih]

theorem between_append (first second : List Stride) (items : List β) :
    between (first ++ second) items = between second (between first items) := by
  induction first generalizing items with
  | nil => rfl
  | cons stride first ih => cases stride <;> exact ih _

theorem between_nil (strides : List Stride) : between strides ([] : List β) = [] := by
  induction strides with
  | nil => rfl
  | cons stride strides ih => cases stride <;> exact ih

-- The induction is on the strides: each moves one element from the middle to its end.
theorem consume_parts (strides : List Stride) (items : List β) :
    items = yielded .front strides (consume strides items) ++ between strides items ++
      (yielded .back strides (consume strides items)).reverse := by
  induction strides generalizing items with
  | nil => simp [yielded, between]
  | cons stride strides ih =>
    cases stride with
    | count => exact ih items
    | front =>
      cases items with
      | nil => exact ih []
      | cons item items =>
        have rest := ih items
        simp only [consume, List.head?_cons, List.tail_cons, yielded, between, if_true, reduceCtorEq, if_false]
        rw [List.cons_append, List.cons_append, ← rest]
    | back =>
      cases items using List.reverseRecOn with
      | nil => exact ih []
      | append_singleton items item _ =>
        have rest := ih items
        simp only [consume, List.getLast?_concat, List.dropLast_concat, yielded, between, if_true, reduceCtorEq, if_false]
        rw [List.reverse_cons, ← List.append_assoc, ← rest]

theorem length_between (strides : List Stride) (items : List β) :
    (between strides items).length + taken strides (consume strides items) = items.length := by
  have all := congrArg List.length (consume_parts strides items)
  rw [List.length_append, List.length_append, List.length_reverse] at all
  rw [taken]
  omega

theorem fromBothEnds (order : List β) (strides : List Stride) : FromBothEnds order strides (consume strides order) := by
  refine ⟨length_consume strides order, ⟨_, consume_parts strides order⟩, ?_, ?_, ?_⟩
  · intro n here
    have left := length_between (strides.take n) order
    rw [getElem?_consume, here, take_consume, ← left, Nat.add_sub_cancel]
    rfl
  · intro n stride here moves fewer
    have left := length_between (strides.take n) order
    rw [take_consume] at fewer
    rw [getElem?_consume, here]
    have some : between (strides.take n) order ≠ [] := by
      intro none
      rw [none, List.length_nil] at left
      omega
    cases stride with
    | count => exact absurd rfl moves
    | front => exact ⟨_, congrArg (fun met => Option.some (Walked.item met)) (List.head?_eq_some_head some)⟩
    | back => exact ⟨_, congrArg (fun met => Option.some (Walked.item met)) (List.getLast?_eq_some_getLast some)⟩
  · intro n m stride all onward here moves
    have left := length_between (strides.take n) order
    rw [take_consume] at all
    have none : between (strides.take n) order = [] := List.length_eq_zero_iff.mp (by omega)
    have split : strides.take m = strides.take n ++ (strides.take m).drop n := by
      have whole := List.take_append_drop n (strides.take m)
      rwa [List.take_take, Nat.min_eq_left onward, eq_comm] at whole
    rw [getElem?_consume, here, split, between_append, none, between_nil]
    cases stride with
    | count => exact absurd rfl moves
    | front => rfl
    | back => rfl

theorem fromBothEnds_map (order : List β) (strides : List Stride) (view : β → γ) :
    FromBothEnds (order.map view) strides ((consume strides order).map (.map view)) := by
  rw [← consume_map]
  exact fromBothEnds _ strides

end Lists

def HashSet.InSlotOrder (s : HashSet α) (order : List (Handle × α)) : Prop :=
  Tours s order ∧ (order.map (·.1.index)).Pairwise (· < ·)

-- By any strides, whatever is looked at in the elements. It changes nothing.
def Walks (walk : List Stride → Update κ ω (List (Walked β))) (s : Session κ ω) (order : List β) : Prop :=
  ∀ strides, ∃ walked, walk strides s = .ok walked s ∧
    ∀ {γ : Type} (view : β → γ), FromBothEnds (order.map view) strides (walked.map (.map view))

-- The same while each element that is met is changed, and no other.
def HashSet.WalksChanging (change : Nat → α → α) (s : Session (HashSet α) ω) (order : List (Handle × α)) : Prop :=
  ∀ strides, ∃ walked after, (changingWalker change).run strides s = .ok walked after ∧
    (∀ {γ : Type} (view : Handle × α → γ),
      FromBothEnds ((order.map (altered change)).map view) strides (walked.map (.map view))) ∧
    Amends change (named walked) s.store after.store ∧ after.gate = s.gate

theorem walks_of_run {walk : List Stride → Update κ ω (List (Walked β))} {s : Session κ ω} {order : List β}
    (ran : ∀ strides, walk strides s = .ok (consume strides order) s) : Walks walk s order :=
  fun strides => ⟨_, ran strides, fromBothEnds_map order strides⟩

namespace HashSet

variable {s : Session (HashSet α) ω}

theorem amendable_booked : Amendable fun s : HashSet α => s.pool.Booked := by
  refine ⟨fun booked => booked.within.1.idle, ?_⟩
  intro s h value booked held change
  exact ⟨_, modifyAt_ok held _, booked.changeAt (Pool.stored_of_get? held) _, .changed held change⟩

theorem inSlotOrder {s : HashSet α} (booked : s.pool.Booked) : InSlotOrder s s.pool.items := by
  have ascending : (s.pool.items.map (·.1.index)).Pairwise (· < ·) := by
    rw [Pool.items, List.map_filterMap, List.pairwise_filterMap]
    refine List.pairwise_lt_range.imp ?_
    intro i j less a first b second
    obtain ⟨entry, found, rfl⟩ := Option.map_eq_some_iff.mp first
    obtain ⟨entry', found', rfl⟩ := Option.map_eq_some_iff.mp second
    rwa [Pool.index_of_item found, Pool.index_of_item found']
  obtain ⟨live, sound⟩ := booked
  exact ⟨⟨fun entry => Pool.mem_items, ascending.imp Nat.ne_of_lt, sound.items_length⟩, ascending⟩

theorem walks (booked : s.store.pool.Booked) : ∃ order, InSlotOrder s.store order ∧ Walks walker.run s order ∧
    ∀ change, WalksChanging change s order := by
  have tracks : s.store.pool.cursor.Tracks s.store.pool s.store.pool.items := by
    obtain ⟨live, sound⟩ := booked
    exact sound.cursor_tracks
  refine ⟨_, inSlotOrder booked, walks_of_run (walker_runs booked.within.1.idle tracks), ?_⟩
  intro change strides
  obtain ⟨walked, after, ran, rewalks⟩ := (changingWalker_rewalks amendable_booked strides booked tracks).exists
  refine ⟨walked, after, ran, ?_, rewalks.amends, rewalks.gate⟩
  rw [rewalks.shown]
  exact fromBothEnds_map _ strides

end HashSet

theorem TreeSet.walks {t : Tree} {s : Session (TreeSet α) ω} (sound : Sound t s.store) :
    ∃ order, InOrder s.store order ∧ Walks walker.run s order :=
  ⟨_, inOrder sound, walks_of_run (walker_run sound)⟩

variable [Allocator ω]

-- After any history, faults and refusals among it, and under a rule that nobody can rely on. The slots of a hash container
-- are walked one by one, so that nothing can go wrong. A tree has to stand, which it does as long as its rule answers as
-- some comparison would, if it answers, and no insertion was misplaced.
theorem walks_from_both_ends :
    (∀ (rule : HashRule (HashSet α) ω α) (s : Session (HashSet α) ω), HashSet.Reached (HashSet.act rule) (fun _ => True) s →
      ∃ order, HashSet.InSlotOrder s.store order ∧ Walks HashSet.walker.run s order ∧
        ∀ change, HashSet.WalksChanging change s order) ∧
    (∀ (rule : HashRule (HashMap κ ν) ω κ) (s : Session (HashMap κ ν) ω),
      HashSet.Reached (HashMap.act rule) (fun _ => True) s →
      ∃ order, HashSet.InSlotOrder s.store order ∧ Walks HashSet.walker.run s order ∧
        ∀ change : Nat → ν → ν, HashSet.WalksChanging (fun i => Entry.mapValue (change i)) s order) ∧
    (∀ (rule : OrderRule (TreeSet α) ω α) (s : Session (TreeSet α) ω),
      (TreeSet.Reached (TreeSet.act rule) (fun _ => True) s → TreeSet.WellGrown s.store →
        ∃ order, TreeSet.InOrder s.store order ∧ Walks TreeSet.walker.run s order) ∧
      ∀ r : PureOrder α, rule.Follows (fun _ => True) r → TreeSet.Tended rule s → TreeSet.WellGrown s.store) ∧
    ∀ (rule : OrderRule (TreeMap κ ν) ω κ) (s : Session (TreeMap κ ν) ω),
      (TreeSet.Reached (TreeMap.act rule) (fun _ => True) s → TreeSet.WellGrown s.store →
        ∃ order, TreeSet.InOrder s.store order ∧ Walks TreeSet.walker.run s order) ∧
      ∀ r : PureOrder κ, rule.Follows (fun _ => True) r → TreeSet.Reached (TreeMap.act rule) (·.Fair fun _ => True) s →
        TreeSet.WellGrown s.store := by
  refine ⟨?_, ?_, ?_, ?_⟩
  · exact fun rule s reached => HashSet.walks reached.booked.pool
  · intro rule s reached
    obtain ⟨order, slots, walks, changing⟩ := HashSet.walks (HashMap.reached_booked reached).pool
    exact ⟨order, slots, walks, fun change => changing _⟩
  · intro rule s
    refine ⟨fun reached grown => ?_, fun r follows tended => tended.grown follows⟩
    obtain ⟨t, sound⟩ := reached.sound grown
    exact TreeSet.walks sound
  · intro rule s
    refine ⟨fun reached grown => ?_, fun r follows reached => ?_⟩
    · obtain ⟨t, sound⟩ := grown.sound (TreeMap.reached_booked reached).pool
      exact TreeSet.walks sound
    · obtain ⟨⟨t, proper⟩, _⟩ := TreeMap.reached_settled follows reached
      exact TreeSet.wellGrown proper.sound

-- A map with a tombstone between its slots, whose values get their slots added on the way, and a tree that lost its root.
theorem walks_from_both_ends_of_numbers :
    let hashing : HashRule (HashMap Nat Nat) World Nat := PureHash.rule ⟨fun n => UInt32.ofNat n, fun a b => a == b⟩
    let ordering : PureOrder Nat := ⟨compare⟩
    let chained : Session (HashMap Nat Nat) World := ⟨⟨⟨#[.sentinel], 5, 0⟩, ⟨#[0, 0, 0], 60⟩⟩, false, World.fresh⟩
    let sorted : Session (TreeSet Nat) World := ⟨⟨⟨#[.sentinel], 5, 0⟩, ⟨0⟩⟩, false, World.fresh⟩
    let m := performed (HashMap.act hashing) [.common (.entries (.extend [⟨3, 1⟩, ⟨6, 2⟩, ⟨9, 4⟩])), .common (.remove 6)] chained
    let s := performed (TreeSet.act ordering.rule) [.common (.extend [6, 3, 9, 1]), .common (.take 6)] sorted
    let strides : List Stride := [.back, .count, .front, .back, .front]
    (∃ order walked after, HashSet.InSlotOrder m.store order ∧
      (HashSet.changingWalker fun i => Entry.mapValue (· + i)).run strides m = .ok walked after ∧
      FromBothEnds ((order.map (altered fun i => Entry.mapValue (· + i))).map (·.2.value)) strides (walked.map (.map (·.2.value)))) ∧
    ∃ order walked, TreeSet.InOrder s.store order ∧ TreeSet.walker.run strides s = .ok walked s ∧
      FromBothEnds (order.map (·.1)) strides (walked.map (.map (·.1))) := by
  intro hashing ordering chained sorted m s strides
  have chains : HashSet.Reached (HashMap.act hashing) (fun _ => True) m := by
    refine ⟨⟨4, 60⟩, ⟨HashSet.empty 0, false, World.fresh⟩, chained, _, rfl, ?_, fun _ _ => trivial, rfl⟩
    with_unfolding_all rfl
  have tended : TreeSet.Tended ordering.rule s :=
    ⟨⟨4⟩, ⟨TreeSet.empty, false, World.fresh⟩, sorted, [.common (.extend [6, 3, 9, 1]), .common (.take 6)], rfl, rfl,
      ⟨trivial, trivial, trivial⟩, rfl⟩
  have walks := walks_from_both_ends (α := Nat) (κ := Nat) (ν := Nat) (ω := World)
  constructor
  · obtain ⟨order, slots, _, changing⟩ := walks.2.1 hashing m chains
    obtain ⟨walked, after, ran, told, _⟩ := changing (fun i => (· + i)) strides
    exact ⟨order, walked, after, slots, ran, told _⟩
  · have grown := (walks.2.2.1 ordering.rule s).2 ordering ordering.rule_follows tended
    obtain ⟨order, inOrder, walks⟩ := (walks.2.2.1 ordering.rule s).1 tended.reached grown
    obtain ⟨walked, ran, told⟩ := walks strides
    exact ⟨order, walked, inOrder, ran, told _⟩

-- An insertion was misplaced, and no link leads to its element. The walk looks for it past the root.
theorem walk_misses_misplaced :
    let r : PureOrder Nat := ⟨compare⟩
    let start : Session (TreeSet Nat) Script := ⟨⟨⟨#[.sentinel], 3, 0⟩, ⟨0⟩⟩, false, ⟨[.lt, .eq]⟩⟩
    let actions : List (TreeSetAction Nat Script) := [.common (.insert 1), .common (.insert 2), .common (.take 1),
      .insertWith (Script.probe 2) (pure 3)]
    let s := performed (TreeSet.act r.rule) actions start
    TreeSet.Reached (TreeSet.act r.rule) (fun _ => True) s ∧ s.store.len = 2 ∧
      (s.perform (TreeSet.walker.run [.front])).1.isOk = true ∧
      (s.perform (TreeSet.walker.run [.front, .front])).1.isOk = false := by
  intro r start actions s
  exact ⟨⟨⟨2⟩, ⟨TreeSet.empty, false, ⟨[.lt, .eq]⟩⟩, start, actions, rfl, rfl, fun _ _ => trivial, rfl⟩, by decide +kernel,
    by decide +kernel, by decide +kernel⟩

end Slotted
