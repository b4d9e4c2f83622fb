import Slotted.Proofs.TreeSet.Moved
import Slotted.Proofs.Store.Removal
import Slotted.Proofs.Action.Walk
namespace Slotted.TreeSet

open Store

variable {α ω : Type} {t : Tree} {s : TreeSet α} {side : Side} {before middle after : List Nat} {i : Nat}

theorem Planted.extremeSlot_eq (planted : Planted t s) (side : Side) :
    s.extremeSlot side = .ok (lastSlot (t.toward side)) := by
  rw [extremeSlot, planted.root]
  exact Pool.extremeFrom_run planted.hangs planted.inside (Nat.le_succ_of_le planted.height_le_walkLimit)

theorem extremeSlot_eq (sound : Sound t s) : ∀ side, s.extremeSlot side = .ok (lastSlot (t.toward side)) :=
  (sound.threads.planted sound.linkable).extremeSlot_eq

theorem Planted.neighbour_eq (planted : Planted t s) (split : t.toward side = before ++ i :: after) :
    s.pool.neighbour side i = .ok (firstSlot after) := by
  have member : i ∈ t.slots := Tree.mem_toward.mp (split ▸ List.mem_append_right _ List.mem_cons_self)
  obtain ⟨path, left, right, shape⟩ := exists_path member
  obtain ⟨near, far, node⟩ := Tree.exists_near side left right i
  rw [node] at shape
  have nodup : (t.toward side).Nodup := Tree.nodup_toward.mpr planted.nodup
  have there : t.toward side = ((beyond side.other path).reverse ++ far.toward side) ++ i :: (near.toward side ++ beyond side path) := by
    rw [shape, toward_plug, Tree.toward_join]
    simp
  have absent : i ∉ before ∧ i ∉ after := by
    rw [split, List.nodup_append, List.nodup_cons] at nodup
    obtain ⟨_, ⟨absent, _⟩, apart⟩ := nodup
    exact ⟨fun inner => apart i inner i List.mem_cons_self rfl, absent⟩
  rw [split] at there
  have same := ((List.append_cons_inj_of_notMem absent.1 absent.2).mp there).2.2
  subst shape
  rw [Pool.neighbour_run planted.hangs planted.nodup planted.inside, ← same]

theorem neighbour_eq (sound : Sound t s) (split : t.toward side = before ++ i :: after) :
    s.pool.neighbour side i = .ok (firstSlot after) := (sound.threads.planted sound.linkable).neighbour_eq split

theorem item_eq (sound : Sound t s) (member : i ∈ t.slots) :
    ∃ value, ∃ positive : 0 < i, s.pool.get? i = some value ∧ s.pool.item i = some (⟨i, positive⟩, value) := by
  obtain ⟨value, held⟩ := sound.mem_iff.mp member
  have positive := (sound.linkable.inside i member).1
  exact ⟨value, positive, held, Pool.item_some held positive⟩

def listing (t : Tree) (s : TreeSet α) : List (Handle × α) := t.slots.filterMap s.pool.item

theorem listing_values (sound : Sound t s) : (listing t s).map (·.2) = t.slots.filterMap s.pool.get? := by
  rw [listing, List.map_filterMap]
  apply List.filterMap_congr
  intro i member
  obtain ⟨value, positive, held, item⟩ := item_eq sound member
  rw [item, held]
  rfl

def InOrder (s : TreeSet α) (order : List (Handle × α)) : Prop :=
  Tours s order ∧ ∃ t : Tree, Rooted t s.pool s.index ∧ order.map (·.1.index) = t.slots

theorem listing_indices (sound : Sound t s) : (listing t s).map (·.1.index) = t.slots := by
  rw [listing, List.map_filterMap, List.filterMap_congr (g := some), List.filterMap_some]
  intro i member
  obtain ⟨value, positive, _, item⟩ := item_eq sound member
  rw [item]
  rfl

theorem inOrder (sound : Sound t s) : InOrder s (listing t s) := by
  have indices := listing_indices sound
  refine ⟨⟨?_, indices ▸ sound.enumerates.nodup, ?_⟩, t, sound.threads, indices⟩
  · intro entry
    refine ⟨fun member => ?_, fun held => ?_⟩
    · obtain ⟨i, _, found⟩ := List.mem_filterMap.mp member
      exact Pool.get?_of_item found
    · have live : entry.1.index ∈ t.slots := sound.mem_iff.mpr ⟨entry.2, held⟩
      exact List.mem_filterMap.mpr ⟨_, live, Pool.item_some held entry.1.pos⟩
  · have length := congrArg List.length indices
    rw [List.length_map] at length
    exact length.trans sound.counted.symm

namespace Cursor

variable {c : Cursor} {items : List (Handle × α)}

structure Tracks (t : Tree) (s : TreeSet α) (c : Cursor) (items : List (Handle × α)) : Prop where
  split : ∃ before middle after, t.slots = before ++ middle ++ after ∧ c.front = firstSlot (middle ++ after) ∧
    c.back = lastSlot (before ++ middle) ∧ middle.filterMap s.pool.item = items ∧ c.remaining = middle.length

theorem next_run (sound : Sound t s) (tracks : Tracks t s c items) :
    ∃ rest, next s c = .ok (items.head?, rest) ∧ Tracks t s rest items.tail := by
  obtain ⟨before, middle, after, split, front, back, come, remaining⟩ := tracks.split
  cases middle with
  | nil =>
    have none : c.remaining = 0 := remaining
    refine ⟨c, ?_, before, [], after, split, front, back, ?_, remaining⟩
    · rw [next, if_pos none, ← come]
      rfl
    · rw [← come]
      rfl
  | cons i middle =>
    have member : i ∈ t.slots := by simp [split]
    obtain ⟨value, positive, held, item⟩ := item_eq sound member
    have onward : t.toward .right = before ++ i :: (middle ++ after) := by
      rw [Tree.toward, split]
      simp
    have turned := neighbour_eq sound onward
    have more : c.remaining ≠ 0 := by simp [remaining]
    have there : c.front = i := front
    have listed : items = (⟨i, positive⟩, value) :: middle.filterMap s.pool.item := by rw [← come, List.filterMap_cons, item]
    refine ⟨{ c with front := firstSlot (middle ++ after), remaining := c.remaining - 1 }, ?_, before ++ [i], middle, after, ?_,
      rfl, ?_, ?_, ?_⟩
    · rw [next, if_neg more, there, turned]
      simp only [bind, Except.bind]
      rw [Pool.value_of_get? held, Handle.ofIndex_run positive, listed]
      rfl
    · rw [split]
      simp
    · rw [back]
      simp
    · rw [listed]
      rfl
    · simp [remaining]

theorem nextBack_run (sound : Sound t s) (tracks : Tracks t s c items) :
    ∃ rest, nextBack s c = .ok (items.getLast?, rest) ∧ Tracks t s rest items.dropLast := by
  obtain ⟨before, middle, after, split, front, back, come, remaining⟩ := tracks.split
  cases middle using List.reverseRecOn with
  | nil =>
    have none : c.remaining = 0 := remaining
    refine ⟨c, ?_, before, [], after, split, front, back, ?_, remaining⟩
    · rw [nextBack, if_pos none, ← come]
      rfl
    · rw [← come]
      rfl
  | append_singleton middle i _ =>
    have member : i ∈ t.slots := by simp [split]
    obtain ⟨value, positive, held, item⟩ := item_eq sound member
    have onward : t.toward .left = after.reverse ++ i :: (before ++ middle).reverse := by
      rw [Tree.toward, split]
      simp
    have turned := neighbour_eq sound onward
    have more : c.remaining ≠ 0 := by simp [remaining]
    have there : c.back = i := by
      rw [back]
      simp [lastSlot]
    have listed : items = middle.filterMap s.pool.item ++ [(⟨i, positive⟩, value)] := by
      rw [← come, List.filterMap_append, List.filterMap_cons, item]
      rfl
    refine ⟨{ c with back := firstSlot (before ++ middle).reverse, remaining := c.remaining - 1 }, ?_, before, middle,
      i :: after, ?_, ?_, ?_, ?_, ?_⟩
    · rw [nextBack, if_neg more, there, turned]
      simp only [bind, Except.bind]
      rw [Pool.value_of_get? held, Handle.ofIndex_run positive, listed, List.getLast?_concat]
      rfl
    · rw [split]
      simp
    · rw [front]
      simp
    · rw [← lastSlot_reverse, List.reverse_reverse]
    · rw [listed, List.dropLast_concat]
    · simp [remaining]

theorem start_tracks (sound : Sound t s) : ∃ c, s.cursor = .ok c ∧ Tracks t s c (listing t s) := by
  refine ⟨⟨firstSlot t.slots, lastSlot t.slots, s.len⟩, ?_, [], t.slots, [], ?_, ?_, rfl, rfl, ?_⟩
  · rw [cursor, extremeSlot_eq sound, extremeSlot_eq sound]
    simp only [bind, Except.bind, Tree.toward, lastSlot_reverse]
    rfl
  · simp
  · simp
  · exact sound.counted

theorem drain_run (sound : Sound t s) (n : Nat) (tracks : Tracks t s c items) (enough : items.length ≤ n) :
    drain s c n = .ok items := by
  induction n generalizing c items with
  | zero =>
    have none : items = [] := List.length_eq_zero_iff.mp (Nat.le_zero.mp enough)
    rw [none]
    rfl
  | succ n ih =>
    obtain ⟨rest, ran, tracks'⟩ := next_run sound tracks
    rw [drain, ran]
    cases items with
    | nil => rfl
    | cons entry items =>
      have others := ih tracks' (by simpa using enough)
      simp only [List.head?_cons, List.tail_cons] at others ⊢
      simp only [bind, Except.bind]
      rw [others]
      rfl

end Cursor

theorem entries_eq (sound : Sound t s) : s.entries = .ok (listing t s) := by
  obtain ⟨c, started, tracks⟩ := Cursor.start_tracks sound
  have enough : (listing t s).length ≤ s.len := by
    have fewer := List.length_filterMap_le s.pool.item t.slots
    rw [listing, len, sound.counted]
    exact fewer
  rw [entries, started]
  exact Cursor.drain_run sound _ tracks enough

theorem walker_run {s : Session (TreeSet α) ω} (sound : Sound t s.store) (strides : List Stride) :
    walker.run strides s = .ok (consume strides (listing t s.store)) s := by
  obtain ⟨c, started, tracks⟩ := Cursor.start_tracks sound
  have follows : walker.Follows s (Cursor.Tracks t s.store) := by
    refine ⟨?_, ?_, ?_⟩
    · intro c items tracks
      obtain ⟨rest, ran, tracks⟩ := Cursor.next_run sound tracks
      exact ⟨rest, lift_ok ran s, tracks⟩
    · intro c items tracks
      obtain ⟨rest, ran, tracks⟩ := Cursor.nextBack_run sound tracks
      exact ⟨rest, lift_ok ran s, tracks⟩
    · intro c items tracks
      obtain ⟨before, middle, after, split, _, _, come, remaining⟩ := tracks.split
      have all : (middle.filterMap s.store.pool.item).length = middle.length := by
        rw [List.length_filterMap_eq_countP, List.countP_eq_length]
        intro i member
        obtain ⟨value, positive, _, item⟩ := item_eq sound (show i ∈ t.slots by simp [split, member])
        rw [item]
        rfl
      rw [← come, all]
      exact remaining
  exact follows.run_start strides (lift_ok started s) tracks

theorem updateFrom_run (change : Nat → α → α) (before : List Nat) {fuel : Nat} {slots : List Nat} (sound : Sound t s)
    (split : t.slots = before ++ slots) (enough : slots.length ≤ fuel) :
    ∃ after, updateFrom change fuel (firstSlot slots) s = .ok (slots.filterMap s.pool.get?) after ∧ Sound t after ∧
      Amends change (· ∈ slots) s after := by
  induction slots generalizing before fuel s with
  | nil =>
    refine ⟨s, ?_, sound, .refl change (fun _ => List.not_mem_nil) s⟩
    unfold updateFrom
    rfl
  | cons i slots ih =>
    have member : i ∈ t.slots := by simp [split]
    obtain ⟨value, positive, held, _⟩ := item_eq sound member
    obtain ⟨middle, changed, sound', amends⟩ := modifyValue_run sound held change
    have onward : t.toward .right = before ++ i :: slots := split
    have turned := neighbour_eq sound' onward
    cases fuel with
    | zero => simp at enough
    | succ fuel =>
      obtain ⟨after, ran, sound'', others⟩ := ih (before ++ [i]) sound' (by simp [split]) (by simpa using enough)
      have apart : i ∉ slots := by
        have nodup : t.slots.Nodup := sound.enumerates.nodup
        rw [split, List.nodup_append, List.nodup_cons] at nodup
        exact nodup.2.1.1
      have unseen : ∀ j ∈ slots, middle.pool.get? j = s.pool.get? j := fun j inner =>
        amends.others j fun same => apart (same ▸ inner)
      refine ⟨after, ?_, sound'', (amends.both others ?_).choosing fun j => List.mem_cons⟩
      · unfold updateFrom
        rw [firstSlot, List.head?_cons, Option.getD_some, if_neg (Nat.ne_of_gt positive)]
        dsimp only
        rw [get_bind, lift_bind (Pool.value_of_get? held), bind_ok changed, get_bind, lift_bind turned, bind_ok ran,
          List.filterMap_cons, held, List.filterMap_congr unseen]
        rfl
      · intro j same
        rwa [same]

theorem updateAll_run (sound : Sound t s) (change : Nat → α → α) :
    ∃ after, updateAll change s = .ok (t.slots.filterMap s.pool.get?) after ∧ Sound t after ∧
      Amends change (· ∈ t.slots) s after := by
  have enough : t.slots.length ≤ s.pool.walkLimit := (sound.threads.planted sound.linkable).length_le_walkLimit
  have first : s.extremeSlot .left = .ok (firstSlot t.slots) := by
    rw [extremeSlot_eq sound, Tree.toward, lastSlot_reverse]
  have ran := updateFrom_run change [] sound rfl enough
  rw [updateAll, get_bind, get_bind, lift_bind first]
  exact ran

end Slotted.TreeSet
