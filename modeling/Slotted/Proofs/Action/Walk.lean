import Slotted.Proofs.Pool.Cursor
import Slotted.Proofs.HashSet.Rebucket
import Slotted.Proofs.Store.Removal
import Slotted.Action.Walk
namespace Slotted

-- What a walk over a list gives: each stride takes an element from its end, or counts what is left.
def consume {β : Type} : List Stride → List β → List (Walked β)
  | [], _ => []
  | .count :: strides, items => .left items.length :: consume strides items
  | .front :: strides, items => .item items.head? :: consume strides items.tail
  | .back :: strides, items => .item items.getLast? :: consume strides items.dropLast

-- The elements of a container one after the other, each under the handle that resolves to it.
structure Tours {ι α μ : Type} (s : Store ι α μ) (order : List (Handle × α)) : Prop where
  resolves : ∀ entry : Handle × α, entry ∈ order ↔ s.get? entry.1 = some entry.2
  once : (order.map (·.1.index)).Nodup
  counted : order.length = s.len

theorem mem_consume {β : Type} {item : β} (strides : List Stride) {items : List β}
    (member : .item (some item) ∈ consume strides items) : item ∈ items := by
  induction strides generalizing items with
  | nil => cases member
  | cons stride strides ih =>
    cases stride with
    | count =>
      cases List.mem_cons.mp member with
      | inl same => cases same
      | inr later => exact ih later
    | front =>
      cases List.mem_cons.mp member with
      | inl same => exact List.mem_of_head? (Walked.item.inj same).symm
      | inr later => exact List.mem_of_mem_tail (ih later)
    | back =>
      cases List.mem_cons.mp member with
      | inl same => exact List.mem_of_getLast? (Walked.item.inj same).symm
      | inr later => exact (List.dropLast_sublist items).subset (ih later)

namespace Walker

variable {κ ω γ β : Type} {w : Walker κ ω γ β} {s : Session κ ω}

structure Follows (w : Walker κ ω γ β) (s : Session κ ω) (tracks : γ → List β → Prop) : Prop where
  front : ∀ c items, tracks c items → ∃ rest, w.front c s = .ok (items.head?, rest) s ∧ tracks rest items.tail
  back : ∀ c items, tracks c items → ∃ rest, w.back c s = .ok (items.getLast?, rest) s ∧ tracks rest items.dropLast
  left : ∀ c items, tracks c items → w.left c = items.length

theorem Follows.run {tracks : γ → List β → Prop} (follows : w.Follows s tracks) (strides : List Stride) {c : γ}
    {items : List β} (at_ : tracks c items) : w.runFrom c strides s = .ok (consume strides items) s := by
  induction strides generalizing c items with
  | nil => rfl
  | cons stride strides ih =>
    cases stride with
    | count =>
      rw [runFrom, bind_ok (ih at_), consume, follows.left c items at_]
      rfl
    | front =>
      obtain ⟨rest, ran, at_⟩ := follows.front c items at_
      rw [runFrom, bind_ok ran, consume]
      dsimp only
      rw [bind_ok (ih at_)]
      rfl
    | back =>
      obtain ⟨rest, ran, at_⟩ := follows.back c items at_
      rw [runFrom, bind_ok ran, consume]
      dsimp only
      rw [bind_ok (ih at_)]
      rfl

theorem Follows.run_start {tracks : γ → List β → Prop} (follows : w.Follows s tracks) (strides : List Stride) {c : γ}
    {items : List β} (start : w.start s = .ok c s) (at_ : tracks c items) :
    w.run strides s = .ok (consume strides items) s := by
  rw [Walker.run, bind_ok start]
  exact follows.run strides at_

end Walker

open LawfulIndex

variable {ι α μ : Type} [Inhabited μ] [Index ι μ] [lawful : LawfulIndex ι μ]

theorem Store.Sound.card_eq {t : lawful.Shape} {s : Store ι α μ} (sound : Sound t s) :
    s.pool.contents.card = s.pool.count := by
  have all : ((slots t).filterMap s.pool.get?).length = (slots t).length := by
    rw [List.length_filterMap_eq_countP, List.countP_eq_length]
    intro i member
    obtain ⟨value, held⟩ := sound.mem_iff.mp member
    rw [held]
    rfl
  rw [sound.contents_eq, Multiset.coe_card, all, sound.counted]

theorem Store.Sound.items_length {t : lawful.Shape} {s : Store ι α μ} (sound : Sound t s) :
    s.pool.items.length = s.pool.count := by
  rw [← sound.card_eq, ← List.length_map (f := (·.2)), Pool.items_values sound.tidy]
  rfl

theorem Store.Sound.cursor_tracks {t : lawful.Shape} {s : Store ι α μ} (sound : Sound t s) :
    s.pool.cursor.Tracks s.pool s.pool.items := by
  refine ⟨?_, sound.items_length.symm⟩
  rw [Pool.items, List.range_eq_range']
  rfl

theorem HashSet.walker_runs {ω : Type} {s : Session (HashSet α) ω} (idle : s.store.pool.isActive 0 = false)
    (tracks : s.store.pool.cursor.Tracks s.store.pool s.store.pool.items) (strides : List Stride) :
    HashSet.walker.run strides s = .ok (consume strides s.store.pool.items) s := by
  have follows : HashSet.walker.Follows s (Pool.Cursor.Tracks s.store.pool) := by
    refine ⟨?_, ?_, fun c items tracks => tracks.remaining⟩
    · intro c items tracks
      obtain ⟨rest, ran, tracks⟩ := Pool.Cursor.next_run _ (Nat.le_refl _) idle tracks
      exact ⟨rest, lift_ok ran s, tracks⟩
    · intro c items tracks
      obtain ⟨rest, ran, tracks⟩ := Pool.Cursor.nextBack_run _ (Nat.le_refl _) idle tracks
      exact ⟨rest, lift_ok ran s, tracks⟩
  exact follows.run_start strides rfl tracks

theorem HashSet.walker_run {order : List Nat} {ω : Type} {s : Session (HashSet α) ω} (sound : Store.Sound order s.store)
    (strides : List Stride) : HashSet.walker.run strides s = .ok (consume strides s.store.pool.items) s :=
  HashSet.walker_runs sound.tidy.idle sound.cursor_tracks strides

namespace HashSet

open Store

variable {α ω : Type} {holds : HashSet α → Prop} {change : Nat → α → α}

def named (walked : List (Walked (Handle × α))) (i : Nat) : Prop :=
  ∃ h value, .item (some (h, value)) ∈ walked ∧ h.index = i

theorem named_cons {first : Walked (Handle × α)} {walked : List (Walked (Handle × α))} {i : Nat} :
    named (first :: walked) i ↔ (∃ h value, .item (some (h, value)) = first ∧ h.index = i) ∨ named walked i := by
  constructor
  · intro given
    obtain ⟨h, value, member, index⟩ := given
    cases List.mem_cons.mp member with
    | inl same => exact .inl ⟨h, value, same, index⟩
    | inr member => exact .inr ⟨h, value, member, index⟩
  · intro given
    rcases given with ⟨h, value, same, index⟩ | ⟨h, value, member, index⟩
    · exact ⟨h, value, List.mem_cons.mpr (.inl same), index⟩
    · exact ⟨h, value, List.mem_cons_of_mem _ member, index⟩

structure Amendable (holds : HashSet α → Prop) : Prop where
  idle : ∀ {s}, holds s → s.pool.isActive 0 = false
  amend : ∀ {s h value}, holds s → s.get? h = some value → ∀ change, ∃ after,
    modifyAt h (change h.index) s = .ok (some (change h.index value)) after ∧ holds after ∧ Amends change (· = h.index) s after

theorem amendable_sound (order : List Nat) : Amendable (α := α) (Sound order) := ⟨fun sound => sound.tidy.idle, modifyAt_run⟩

theorem stepChanging_returns {step : Step α} {s : HashSet α} {c rest : Pool.Cursor} {met : Option (Handle × α)}
    {remaining : List (Handle × α)} (amendable : Amendable holds) (held : holds s) (ran : step s.pool c = .ok (met, rest))
    (tracks : rest.Tracks s.pool remaining) (live : ∀ h value, met = some (h, value) → s.get? h = some value)
    (apart : ∀ h value, met = some (h, value) → h.index ∉ remaining.map (·.1.index)) :
    Returns (stepChanging step change c) s fun answer after => answer.1 = met.map (altered change) ∧ holds after ∧
      answer.2.Tracks after.pool remaining ∧
        Amends change (fun i => ∃ h value, met = some (h, value) ∧ h.index = i) s after := by
  rw [stepChanging, Returns, ends_bind, ends_get, ran, ends_bind, ends_lift]
  cases met with
  | none =>
    refine ⟨rfl, held, tracks, .refl change ?_ s⟩
    intro i given
    obtain ⟨_, _, none, _⟩ := given
    cases none
  | some entry =>
    obtain ⟨h, value⟩ := entry
    obtain ⟨after, changed, kept, amends⟩ := amendable.amend held (live h value rfl) change
    dsimp only
    rw [ends_bind]
    refine Ends.of_ok changed ⟨rfl, kept, tracks.frame amends.live ?_, amends.choosing fun i => ⟨?_, ?_⟩⟩
    · intro i member
      exact amends.others i fun same => apart h value rfl (same ▸ member)
    · intro given
      obtain ⟨h', value', same, index⟩ := given
      cases same
      exact index.symm
    · intro index
      exact ⟨h, value, rfl, index.symm⟩

-- What a walk with changes gives and leaves: what it comes to is changed, in its slot, and nothing else is.
structure Rewalks (change : Nat → α → α) (strides : List Stride) (items : List (Handle × α)) (holds : HashSet α → Prop)
    (s after : Session (HashSet α) ω) (walked : List (Walked (Handle × α))) : Prop where
  shown : walked = consume strides (items.map (altered change))
  kept : holds after.store
  amends : Amends change (named walked) s.store after.store
  gate : after.gate = s.gate

theorem Rewalks.apart {strides : List Stride} {items : List (Handle × α)} {s after : Session (HashSet α) ω}
    {walked : List (Walked (Handle × α))} (rewalks : Rewalks change strides items holds s after walked) {i : Nat}
    (absent : i ∉ items.map (·.1.index)) : ¬ named walked i := by
  intro given
  obtain ⟨h, value, member, index⟩ := given
  rw [rewalks.shown] at member
  obtain ⟨entry, within, same⟩ := List.mem_map.mp (mem_consume strides member)
  cases same
  exact absent (List.mem_map.mpr ⟨entry, within, index⟩)

-- One stride, from either end, and then the others.
theorem stride_rewalks {step : Step α} {s : Session (HashSet α) ω} {c rest : Pool.Cursor} {met : Option (Handle × α)}
    {remaining : List (Handle × α)} {strides : List Stride} (amendable : Amendable holds) (held : holds s.store)
    (ran : step s.store.pool c = .ok (met, rest)) (tracks : rest.Tracks s.store.pool remaining)
    (live : ∀ h value, met = some (h, value) → s.store.get? h = some value)
    (apart : ∀ h value, met = some (h, value) → h.index ∉ remaining.map (·.1.index))
    (others : ∀ {s : Session (HashSet α) ω} {c : Pool.Cursor}, holds s.store → c.Tracks s.store.pool remaining →
      Returns ((changingWalker change).runFrom c strides) s fun walked after =>
        Rewalks change strides remaining holds s after walked) :
    Returns (do
        let (item, c) ← Update.edit (stepChanging step change c)
        return .item item :: (← (changingWalker change).runFrom c strides)) s fun walked after =>
      walked = .item (met.map (altered change)) :: consume strides (remaining.map (altered change)) ∧
        holds after.store ∧ Amends change (named walked) s.store after.store ∧ after.gate = s.gate := by
  rw [Returns, ends_bind, Update.ends_edit]
  refine (stepChanging_returns amendable held ran tracks live apart).ends ?_
  intro answer middle ends
  obtain ⟨item, c⟩ := answer
  obtain ⟨rfl, kept, tracks', first⟩ := ends
  dsimp only
  refine (others (s := ⟨middle, s.gate⟩) kept tracks').bind ?_
  intro walked after later
  refine ⟨by rw [later.shown], later.kept, (first.both later.amends ?_).choosing fun i => ?_, later.gate⟩
  · intro i given
    obtain ⟨h, value, there, rfl⟩ := given
    exact later.apart (apart h value there)
  · rw [named_cons]
    refine or_congr_left ⟨?_, ?_⟩
    · intro given
      obtain ⟨h, value, same, index⟩ := given
      obtain ⟨entry, there, same⟩ := Option.map_eq_some_iff.mp (Walked.item.inj same).symm
      cases same
      exact ⟨entry.1, entry.2, there, index⟩
    · intro given
      obtain ⟨h, value, there, index⟩ := given
      exact ⟨h, change h.index value, by rw [there]; rfl, index⟩

theorem changingWalker_rewalks {s : Session (HashSet α) ω} {c : Pool.Cursor} {items : List (Handle × α)}
    (amendable : Amendable holds) (strides : List Stride) (held : holds s.store) (tracks : c.Tracks s.store.pool items) :
    Returns ((changingWalker change).runFrom c strides) s fun walked after =>
      Rewalks change strides items holds s after walked := by
  induction strides generalizing s c items with
  | nil =>
    refine Ends.of_ok rfl ⟨rfl, held, .refl change ?_ s.store, rfl⟩
    intro i given
    obtain ⟨_, _, none, _⟩ := given
    cases none
  | cons stride strides ih =>
    have live : ∀ entry ∈ items, s.store.get? entry.1 = some entry.2 := fun entry member => tracks.live member
    have nodup := tracks.nodup
    cases stride with
    | count =>
      rw [Walker.runFrom]
      refine (ih held tracks).bind ?_
      intro walked after later
      refine ⟨?_, later.kept, later.amends.choosing fun i => ?_, later.gate⟩
      · rw [later.shown, consume, List.length_map]
        exact congrArg (fun left => Walked.left left :: _) tracks.remaining
      · rw [named_cons]
        exact or_iff_right fun given => by obtain ⟨_, _, none, _⟩ := given; cases none
    | front =>
      obtain ⟨rest, ran, tracks'⟩ := Pool.Cursor.next_run _ (Nat.le_refl _) (amendable.idle held) tracks
      refine (stride_rewalks amendable held ran tracks' ?_ ?_ fun held tracks => ih held tracks).returning ?_
      · exact fun h value first => live (h, value) (List.mem_of_head? first)
      · intro h value first
        cases items with
        | nil => cases first
        | cons entry items =>
          cases first
          exact (List.nodup_cons.mp nodup).1
      · intro walked after told
        obtain ⟨told, kept, amends, gate⟩ := told
        exact ⟨by rw [told, consume, List.head?_map, List.map_tail], kept, amends, gate⟩
    | back =>
      obtain ⟨rest, ran, tracks'⟩ := Pool.Cursor.nextBack_run _ (Nat.le_refl _) (amendable.idle held) tracks
      refine (stride_rewalks amendable held ran tracks' ?_ ?_ fun held tracks => ih held tracks).returning ?_
      · exact fun h value last => live (h, value) (List.mem_of_getLast? last)
      · intro h value last
        obtain ⟨before, rfl⟩ := List.getLast?_eq_some_iff.mp last
        rw [List.map_append, List.nodup_append] at nodup
        rw [List.dropLast_concat]
        exact fun member => nodup.2.2 _ member _ List.mem_cons_self rfl
      · intro walked after told
        obtain ⟨told, kept, amends, gate⟩ := told
        exact ⟨by rw [told, consume, List.getLast?_map, List.map_dropLast], kept, amends, gate⟩

end HashSet
end Slotted
