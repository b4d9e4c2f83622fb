import Slotted.Proofs.Store.Lawful
import Slotted.Pool.Cursor
namespace Slotted

namespace Pool

variable {α μ : Type} {p : Pool α μ}

def item (p : Pool α μ) (i : Nat) : Option (Handle × α) :=
  (Handle.ofIndex? i).bind fun h => (p.get? i).map (h, ·)

def items (p : Pool α μ) : List (Handle × α) := (List.range p.slots.size).filterMap p.item

theorem item_none {i : Nat} (absent : p.get? i = none) : p.item i = none := by
  unfold item
  cases Handle.ofIndex? i <;> simp [absent]

theorem item_some {i : Nat} {value : α} (held : p.get? i = some value) (positive : 0 < i) :
    p.item i = some (⟨i, positive⟩, value) := by
  simp [item, Handle.ofIndex?, positive, held]

theorem get?_of_item {i : Nat} {entry : Handle × α} (found : p.item i = some entry) :
    p.get? entry.1.index = some entry.2 := by
  cases held : p.get? i with
  | none => simp [item_none held] at found
  | some stored =>
    by_cases some : 0 < i
    · rw [item_some held some] at found
      cases found
      exact held
    · simp [item, Handle.ofIndex?, some] at found

theorem index_of_item {i : Nat} {entry : Handle × α} (found : p.item i = some entry) : entry.1.index = i := by
  obtain ⟨h, number, found⟩ := Option.bind_eq_some_iff.mp found
  obtain ⟨value, _, same⟩ := Option.map_eq_some_iff.mp found
  cases same
  unfold Handle.ofIndex? at number
  split at number
  · cases number
    rfl
  · cases number

theorem mem_items {entry : Handle × α} : entry ∈ p.items ↔ p.get? entry.1.index = some entry.2 := by
  rw [items, List.mem_filterMap]
  constructor
  · intro given
    obtain ⟨j, _, found⟩ := given
    exact get?_of_item found
  · intro held
    exact ⟨entry.1.index, List.mem_range.mpr (isActive_lt (isActive_of_get? held)), item_some held entry.1.pos⟩

theorem items_values (tidy : p.Tidy) : p.items.map (·.2) = p.entries.map (·.2) := by
  rw [items, entries_eq, List.map_filterMap, List.map_filterMap]
  apply List.filterMap_congr
  intro i _
  cases held : p.get? i with
  | none => simp [item_none held]
  | some value =>
    have positive : 0 < i := by
      apply Nat.pos_of_ne_zero
      intro same
      subst same
      have idle := tidy.idle
      rw [isActive_of_get? held] at idle
      cases idle
    simp [item_some held positive]

namespace Cursor

-- What is still to come between the two ends, and how much that is.
structure Tracks (p : Pool α μ) (c : Cursor) (items : List (Handle × α)) : Prop where
  come : (List.range' c.front (c.back - c.front)).filterMap p.item = items
  remaining : c.remaining = items.length

theorem Tracks.live {c : Cursor} {items : List (Handle × α)} (tracks : Tracks p c items) {entry : Handle × α}
    (member : entry ∈ items) : p.get? entry.1.index = some entry.2 := by
  rw [← tracks.come, List.mem_filterMap] at member
  obtain ⟨i, _, found⟩ := member
  exact get?_of_item found

theorem Tracks.nodup {c : Cursor} {items : List (Handle × α)} (tracks : Tracks p c items) :
    (items.map (·.1.index)).Nodup := by
  rw [← tracks.come, List.map_filterMap]
  refine List.Nodup.filterMap ?_ List.nodup_range'
  intro i j index first second
  obtain ⟨entry, found, rfl⟩ := Option.map_eq_some_iff.mp first
  obtain ⟨entry', found', same⟩ := Option.map_eq_some_iff.mp second
  rw [← index_of_item found, ← index_of_item found', same]

-- A walk is not thrown off by what becomes of slots that it will not come to.
theorem Tracks.frame {q : Pool α μ} {c : Cursor} {items : List (Handle × α)} (tracks : Tracks p c items)
    (live : ∀ i, (q.get? i).isSome = (p.get? i).isSome)
    (same : ∀ i, i ∈ items.map (·.1.index) → q.get? i = p.get? i) : Tracks q c items := by
  refine ⟨?_, tracks.remaining⟩
  rw [← tracks.come]
  apply List.filterMap_congr
  intro i within
  cases found : p.item i with
  | some entry =>
    have member : entry ∈ items := by
      rw [← tracks.come]
      exact List.mem_filterMap.mpr ⟨i, within, found⟩
    have still := same i (List.mem_map.mpr ⟨entry, member, index_of_item found⟩)
    rw [← found, item, item, still]
  | none =>
    unfold item at found ⊢
    cases number : Handle.ofIndex? i with
    | none => rfl
    | some h =>
      have absent : p.get? i = none := by simpa [number] using found
      have still := live i
      rw [absent] at still
      simpa using still

theorem yield_run {c : Cursor} {i : Nat} {value : α} (more : 0 < c.remaining) (positive : 0 < i) :
    c.yield i value = .ok (some (⟨i, positive⟩, value), { c with remaining := c.remaining - 1 }) := by
  have some : c.remaining ≠ 0 := by omega
  simp [yield, some, Handle.ofIndex, positive, bind, Except.bind, pure, Except.pure]

variable {c : Cursor} {items : List (Handle × α)}

theorem next_run (distance : Nat) (near : c.back - c.front ≤ distance) (idle : p.isActive 0 = false)
    (tracks : Tracks p c items) : ∃ rest, next p c = .ok (items.head?, rest) ∧ Tracks p rest items.tail := by
  have come := tracks.come
  induction distance generalizing c with
  | zero =>
    have done : ¬ c.front < c.back := by omega
    have none : c.back - c.front = 0 := by omega
    rw [none] at come
    subst come
    unfold next
    rw [dif_neg done]
    exact ⟨c, rfl, tracks⟩
  | succ distance ih =>
    unfold next
    by_cases more : c.front < c.back
    · have split : c.back - c.front = (c.back - (c.front + 1)) + 1 := by omega
      rw [split, List.range'_succ, List.filterMap_cons] at come
      rw [dif_pos more]
      cases held : p.get? c.front with
      | none =>
        rw [item_none held] at come
        dsimp only at come ⊢
        exact ih (by dsimp only; omega) ⟨come, tracks.remaining⟩ come
      | some value =>
        have positive : 0 < c.front := by
          apply Nat.pos_of_ne_zero
          intro zero
          rw [zero] at held
          simp [isActive_of_get? held] at idle
        rw [item_some held positive] at come
        dsimp only at come ⊢
        have remaining := tracks.remaining
        rw [← come, List.length_cons] at remaining
        rw [yield_run (by dsimp only; omega) positive, ← come]
        exact ⟨_, rfl, rfl, by dsimp only [List.tail_cons]; omega⟩
    · have none : c.back - c.front = 0 := by omega
      rw [none] at come
      subst come
      rw [dif_neg more]
      exact ⟨c, rfl, tracks⟩

theorem nextBack_run (distance : Nat) (near : c.back - c.front ≤ distance) (idle : p.isActive 0 = false)
    (tracks : Tracks p c items) : ∃ rest, nextBack p c = .ok (items.getLast?, rest) ∧ Tracks p rest items.dropLast := by
  have come := tracks.come
  induction distance generalizing c with
  | zero =>
    have done : ¬ c.front < c.back := by omega
    have none : c.back - c.front = 0 := by omega
    rw [none] at come
    subst come
    unfold nextBack
    rw [dif_neg done]
    exact ⟨c, rfl, tracks⟩
  | succ distance ih =>
    unfold nextBack
    by_cases more : c.front < c.back
    · have split : c.back - c.front = (c.back - 1 - c.front) + 1 := by omega
      have last : c.front + (c.back - 1 - c.front) = c.back - 1 := by omega
      rw [split, List.range'_1_concat, last, List.filterMap_append] at come
      rw [dif_pos more]
      cases held : p.get? (c.back - 1) with
      | none =>
        rw [List.filterMap_cons, item_none held] at come
        simp only [List.filterMap_nil, List.append_nil] at come
        exact ih (by dsimp only; omega) ⟨come, tracks.remaining⟩ come
      | some value =>
        have positive : 0 < c.back - 1 := by
          apply Nat.pos_of_ne_zero
          intro zero
          rw [zero] at held
          simp [isActive_of_get? held] at idle
        rw [List.filterMap_cons, item_some held positive] at come
        dsimp only [List.filterMap_nil] at come ⊢
        have remaining := tracks.remaining
        rw [← come, List.length_append, List.length_singleton] at remaining
        rw [yield_run (by dsimp only; omega) positive, ← come, List.getLast?_concat, List.dropLast_concat]
        exact ⟨_, rfl, rfl, by dsimp only; omega⟩
    · have none : c.back - c.front = 0 := by omega
      rw [none] at come
      subst come
      rw [dif_neg more]
      exact ⟨c, rfl, tracks⟩

end Cursor
end Pool
end Slotted
