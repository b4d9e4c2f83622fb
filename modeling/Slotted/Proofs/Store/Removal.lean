import Slotted.Proofs.Store.Lawful
namespace Slotted

namespace Pool

variable {α μ : Type} {p : Pool α μ} {i : Nat} {f : Slot α μ → Slot α μ} {count : Nat}

theorem linkAt_revise [Inhabited μ] (links : ∀ slot, (f slot).link = slot.link) (j : Nat) :
    (p.revise i f count).linkAt j = p.linkAt j := by
  unfold linkAt
  rw [slots_revise]
  split
  · cases p.slots[j]? <;> simp [links]
  · rfl

theorem isActive_revise (active : ∀ slot, (f slot).active = slot.active) (j : Nat) :
    (p.revise i f count).isActive j = p.isActive j := by
  unfold isActive
  rw [slots_revise]
  split
  · cases p.slots[j]? <;> simp [active]
  · rfl

theorem isActive_revise_other {j : Nat} (other : j ≠ i) : (p.revise i f count).isActive j = p.isActive j := by
  unfold isActive
  rw [slots_revise, if_neg (Ne.symm other)]

theorem get?_revise_other {j : Nat} (other : j ≠ i) : (p.revise i f count).get? j = p.get? j := by
  unfold get?
  rw [slots_revise, if_neg (Ne.symm other)]

theorem storedAt_revise (p : Pool α μ) (i : Nat) (f : Slot α μ → Slot α μ) (count : Nat) :
    (p.revise i f count).storedAt i = p.slots[i]?.bind fun slot => (f slot).value := by
  unfold storedAt
  rw [slots_revise, if_pos rfl]
  cases p.slots[i]? <;> rfl

theorem isActive_revise_self (p : Pool α μ) (i : Nat) (f : Slot α μ → Slot α μ) (count : Nat) :
    (p.revise i f count).isActive i = p.slots[i]?.any fun slot => (f slot).active := by
  unfold isActive
  rw [slots_revise, if_pos rfl]
  cases p.slots[i]? <;> rfl

def changeAt (p : Pool α μ) (i : Nat) (change : α → α) : Pool α μ :=
  p.revise i (fun slot => { slot with value := slot.value.map change }) p.count

theorem isActive_changeAt (p : Pool α μ) (i : Nat) (change : α → α) (j : Nat) :
    (p.changeAt i change).isActive j = p.isActive j := by
  unfold changeAt
  apply isActive_revise
  exact fun _ => rfl

theorem linkAt_changeAt [Inhabited μ] (p : Pool α μ) (i : Nat) (change : α → α) (j : Nat) :
    (p.changeAt i change).linkAt j = p.linkAt j := by
  unfold changeAt
  apply linkAt_revise
  exact fun _ => rfl

theorem storedAt_changeAt {value : α} (stored : p.storedAt i = some value) (change : α → α) :
    (p.changeAt i change).storedAt i = some (change value) := by
  obtain ⟨slot, found, holds⟩ := Option.bind_eq_some_iff.mp stored
  rw [changeAt, storedAt_revise, found]
  simp [holds]

theorem get?_changeAt {value : α} (held : p.get? i = some value) (change : α → α) :
    (p.changeAt i change).get? i = some (change value) := by
  rw [get?_eq, isActive_changeAt, isActive_of_get? held, if_pos rfl, storedAt_changeAt (stored_of_get? held)]

structure SameLive [Inhabited μ] (p q : Pool α μ) : Prop where
  size : q.slots.size = p.slots.size
  capacity : q.capacity = p.capacity
  count : q.count = p.count
  isActive : ∀ j, q.isActive j = p.isActive j
  get? : ∀ j, q.get? j = p.get? j
  linkAt : ∀ j, q.linkAt j = p.linkAt j

theorem SameLive.revise [Inhabited μ] (idle : p.isActive i = false) (active : ∀ slot, (f slot).active = slot.active)
    (links : ∀ slot, (f slot).link = slot.link) : SameLive p (p.revise i f p.count) := by
  refine ⟨size_revise .., rfl, rfl, isActive_revise active, ?_, linkAt_revise links⟩
  intro j
  by_cases same : j = i
  · subst same
    rw [get?_eq, get?_eq, isActive_revise active, idle]
    rfl
  · exact get?_revise_other same

theorem Tidy.get?_none (tidy : p.Tidy) : p.get? i = none ↔ p.isActive i = false := by
  constructor
  · intro none
    by_contra live
    obtain ⟨value, held⟩ := tidy.filled i (by simpa using live)
    simp [none] at held
  · intro idle
    simp [get?_eq, idle]

end Pool

namespace Store

theorem modifyAt_none {ι α μ : Type} {s : Store ι α μ} {h : Handle} (absent : s.get? h = none) (change : α → α) :
    modifyAt h change s = .ok none s := by
  rw [modifyAt, get_bind, absent]
  rfl

theorem modifyAt_ok {ι α μ : Type} {s : Store ι α μ} {h : Handle} {value : α} (held : s.get? h = some value)
    (change : α → α) :
    modifyAt h change s = .ok (some (change value)) ⟨s.pool.changeAt h.index change, s.index⟩ := by
  rw [modifyAt, get_bind, held]
  dsimp only
  rw [bind_ok (onPool_ok (Pool.modifyValue_run (Pool.stored_of_get? held) change)), get_bind]
  exact congrArg (EStateM.Result.ok · _) (Pool.get?_changeAt held change)

def altered {α : Type} (change : Nat → α → α) (entry : Handle × α) : Handle × α :=
  (entry.1, change entry.1.index entry.2)

-- Elements changed in place, in some of the slots. The arrangement does not notice.
structure Amends {ι α μ : Type} [Inhabited μ] (change : Nat → α → α) (chosen : Nat → Prop) (s after : Store ι α μ) :
    Prop where
  touched : ∀ j, chosen j → after.pool.get? j = (s.pool.get? j).map (change j)
  others : ∀ j, ¬ chosen j → after.pool.get? j = s.pool.get? j
  linkAt : ∀ j, after.pool.linkAt j = s.pool.linkAt j

namespace Amends

variable {ι α μ : Type} [Inhabited μ] {change : Nat → α → α} {chosen chosen' : Nat → Prop} {s middle after : Store ι α μ}

theorem refl (change : Nat → α → α) (none : ∀ j, ¬ chosen j) (s : Store ι α μ) : Amends change chosen s s :=
  ⟨fun j touched => absurd touched (none j), fun _ _ => rfl, fun _ => rfl⟩

theorem choosing (amends : Amends change chosen s after) (same : ∀ j, chosen' j ↔ chosen j) :
    Amends change chosen' s after :=
  ⟨fun j touched => amends.touched j ((same j).mp touched), fun j untouched => amends.others j (untouched ∘ (same j).mpr),
    amends.linkAt⟩

theorem live (amends : Amends change chosen s after) (j : Nat) : (after.pool.get? j).isSome = (s.pool.get? j).isSome := by
  by_cases touched : chosen j
  · rw [amends.touched j touched, Option.isSome_map]
  · rw [amends.others j touched]

theorem changed {i : Nat} {value : α} (held : s.pool.get? i = some value) (change : Nat → α → α) :
    Amends change (· = i) s ⟨s.pool.changeAt i (change i), s.index⟩ := by
  refine ⟨?_, fun j => Pool.get?_revise_other, Pool.linkAt_changeAt s.pool i (change i)⟩
  intro j same
  rw [same, Pool.get?_changeAt held, held]
  rfl

theorem both (first : Amends change chosen s middle) (second : Amends change chosen' middle after)
    (apart : ∀ j, chosen j → ¬ chosen' j) : Amends change (fun j => chosen j ∨ chosen' j) s after := by
  refine ⟨?_, ?_, fun j => (second.linkAt j).trans (first.linkAt j)⟩
  · intro j touched
    by_cases early : chosen j
    · rw [second.others j (apart j early), first.touched j early]
    · rw [second.touched j (touched.resolve_left early), first.others j early]
  · intro j untouched
    rw [second.others j (untouched ∘ .inr), first.others j (untouched ∘ .inl)]

end Amends

open LawfulIndex

variable {ι α μ : Type} [Inhabited μ] [Index ι μ] [lawful : LawfulIndex ι μ] {t rest : lawful.Shape}
  {s after : Store ι α μ} {i : Nat}

theorem Sound.same_live (sound : Sound t s) (same : Pool.SameLive s.pool after.pool)
    (index : after.index = s.index) : Sound t after := by
  refine ⟨⟨?_, ?_, ?_, ?_, ?_⟩, ?_, ⟨sound.enumerates.nodup, ?_⟩, same.count.trans sound.counted⟩
  · rw [same.isActive, sound.tidy.idle]
  · intro j
    rw [same.isActive, same.get?]
    exact sound.tidy.filled j
  · rw [same.size, same.capacity]
    exact sound.tidy.fits
  · rw [same.size, same.capacity]
    exact sound.tidy.reserved
  · rw [same.capacity]
    exact sound.tidy.limit
  · rw [index]
    exact frame sound.threads (fun j _ => same.linkAt j) same.capacity
  · intro j
    rw [same.isActive]
    exact sound.enumerates.mem j

-- One element is gone from its slot, and everything else is where it was.
structure Parts (i : Nat) (t rest : lawful.Shape) (s after : Store ι α μ) : Prop where
  sound : Sound rest after
  slots : slots rest = (slots t).erase i
  size : after.pool.slots.size = s.pool.slots.size
  capacity : after.pool.capacity = s.pool.capacity
  held : ∀ j, j ≠ i → after.pool.get? j = s.pool.get? j
  kept : ∀ j, j ≠ i → lawful.keep (after.pool.linkAt j) = lawful.keep (s.pool.linkAt j)

theorem Sound.count_pos (sound : Sound t s) (member : i ∈ slots t) : 0 < s.pool.count := by
  rw [sound.counted]
  exact List.length_pos_of_mem member

theorem Sound.retire (sound : Sound t s) (member : i ∈ slots t)
    (same : Pool.SameBodies lawful.keep s.pool after.pool) (erased : slots rest = (slots t).erase i)
    (threads : Threads rest after.pool after.index) {f : Slot α μ → Slot α μ}
    (idle : ∀ slot, (f slot).active = false) (links : ∀ slot, (f slot).link = slot.link) :
    Parts i t rest s ⟨after.pool.revise i f (after.pool.count - 1), after.index⟩ := by
  have nodup := sound.enumerates.nodup
  have off : (after.pool.revise i f (after.pool.count - 1)).isActive i = false := by
    rw [Pool.isActive_revise_self]
    cases after.pool.slots[i]? <;> simp [idle]
  have live : ∀ j, (after.pool.revise i f (after.pool.count - 1)).isActive j = true ↔
      j ≠ i ∧ s.pool.isActive j = true := by
    intro j
    by_cases equal : j = i
    · subst equal
      simp [off]
    · rw [Pool.isActive_revise_other equal, same.isActive]
      simp [equal]
  have held : ∀ j, j ≠ i → (after.pool.revise i f (after.pool.count - 1)).get? j = s.pool.get? j := by
    intro j other
    rw [Pool.get?_revise_other other, same.get?]
  have size : (after.pool.revise i f (after.pool.count - 1)).slots.size = s.pool.slots.size := by
    rw [Pool.size_revise, same.size]
  have capacity : (after.pool.revise i f (after.pool.count - 1)).capacity = s.pool.capacity := same.capacity
  refine ⟨⟨⟨?_, ?_, ?_, ?_, ?_⟩, ?_, ⟨?_, ?_⟩, ?_⟩, erased, size, capacity, held, ?_⟩
  · by_contra active
    have reserved := (live 0).mp (by simpa using active)
    simp [sound.tidy.idle] at reserved
  · intro j active
    have was := (live j).mp active
    rw [held j was.1]
    exact sound.tidy.filled j was.2
  · rw [size, capacity]
    exact sound.tidy.fits
  · rw [size, capacity]
    exact sound.tidy.reserved
  · rw [capacity]
    exact sound.tidy.limit
  · exact frame threads (fun j _ => Pool.linkAt_revise links j) rfl
  · rw [erased]
    exact nodup.erase i
  · intro j
    rw [erased, nodup.mem_erase_iff, sound.enumerates.mem, live]
  · change after.pool.count - 1 = _
    rw [same.count, sound.counted, erased, List.length_erase_of_mem member]
  · intro j _
    rw [Pool.linkAt_revise links, same.kept]

theorem remove_none (absent : s.get? h = none) (sound : Sound t s) : remove h s = .ok none s := by
  rw [remove, get_bind, if_neg]
  · rfl
  · simp [(sound.tidy.get?_none).mp absent]

theorem remove_returns {h : Handle} {value : α} (sound : Sound t s) (held : s.get? h = some value) :
    Returns (remove h) s fun answer after => answer = some value ∧ ∃ rest, Parts h.index t rest s after := by
  have live := Pool.isActive_of_get? held
  have member := (sound.enumerates.mem _).mpr live
  rw [remove, Returns, ends_bind, ends_get, if_pos live]
  refine (unlink sound.threads sound.linkable member).bind ?_
  intro _ middle ends
  obtain ⟨same, rest, erased, threads⟩ := ends
  have counted : 0 < middle.pool.count := by
    rw [same.count]
    exact sound.count_pos member
  have ran := Pool.take_run (same.isActive h.index ▸ live) counted
  refine Ends.of_ok (onPool_ok ran) ⟨?_, rest, ?_⟩
  · rw [same.storedAt, Pool.stored_of_get? held]
  · exact sound.retire member same erased threads (fun _ => rfl) fun _ => rfl

-- An element out of the arrangement that still sits in its slot.
structure Loose (i : Nat) (value : α) (t : lawful.Shape) (s : Store ι α μ) : Prop where
  sound : Sound t s
  idle : s.pool.isActive i = false
  stored : s.pool.storedAt i = some value
  positive : 0 < i

theorem extract_none (absent : s.get? h = none) (sound : Sound t s) : extract h s = .ok none s := by
  rw [extract, get_bind, if_neg]
  · rfl
  · simp [(sound.tidy.get?_none).mp absent]

theorem extract_returns {h : Handle} {value : α} (sound : Sound t s) (held : s.get? h = some value) :
    Returns (extract h) s fun answer after => answer = some ⟨h.index⟩ ∧
      ∃ rest, Parts h.index t rest s after ∧ Loose h.index value rest after := by
  have live := Pool.isActive_of_get? held
  have member := (sound.enumerates.mem _).mpr live
  rw [extract, Returns, ends_bind, ends_get, if_pos live]
  refine (unlink sound.threads sound.linkable member).bind ?_
  intro _ middle ends
  obtain ⟨same, rest, erased, threads⟩ := ends
  have counted : 0 < middle.pool.count := by
    rw [same.count]
    exact sound.count_pos member
  have held' : middle.pool.get? h.index = some value := by rw [same.get?]; exact held
  have ran := Pool.detach_run held' counted
  have parts := sound.retire (f := fun slot => { slot with active := false }) member same erased threads
    (fun _ => rfl) fun _ => rfl
  rw [ends_bind]
  refine Ends.of_ok (onPool_ok ran) ⟨rfl, rest, parts, parts.sound, ?_, ?_, h.pos⟩
  · rw [Pool.isActive_revise_self]
    cases middle.pool.slots[h.index]? <;> rfl
  · have stored := Pool.stored_of_get? held'
    rw [Pool.storedAt_revise]
    exact stored

namespace Loose

variable {value : α}

theorem value_eq (loose : Loose i value t s) : s.detachedValue ⟨i⟩ = .ok value :=
  Pool.value_of_stored loose.stored

theorem modify_run (loose : Loose i value t s) (change : α → α) :
    ∃ after, modifyDetached ⟨i⟩ change s = .ok () after ∧ Loose i (change value) t after ∧
      Pool.SameLive s.pool after.pool := by
  have same : Pool.SameLive s.pool (s.pool.changeAt i change) := .revise loose.idle (fun _ => rfl) fun _ => rfl
  refine ⟨⟨s.pool.changeAt i change, s.index⟩, onPool_ok (Pool.modifyValue_run loose.stored change),
    ⟨loose.sound.same_live same rfl, ?_, Pool.storedAt_changeAt loose.stored change, loose.positive⟩, same⟩
  rw [same.isActive, loose.idle]

theorem discard_run (loose : Loose i value t s) :
    ∃ after, onPool (Pool.discard i) s = .ok (some value) after ∧ Sound t after ∧
      Pool.SameLive s.pool after.pool := by
  have same := Pool.SameLive.revise (f := fun slot => { slot with value := none }) loose.idle
    (fun _ => rfl) fun _ => rfl
  have ran := Pool.discard_run (Pool.lt_of_stored loose.stored) loose.idle
  rw [loose.stored] at ran
  exact ⟨⟨_, s.index⟩, onPool_ok ran, loose.sound.same_live same rfl, same⟩

theorem release_run (loose : Loose i value t s) :
    ∃ after, release ⟨i⟩ s = .ok value after ∧ Sound t after ∧ Pool.SameLive s.pool after.pool := by
  obtain ⟨after, ran, sound, same⟩ := loose.discard_run
  refine ⟨after, ?_, sound, same⟩
  rw [release, bind_ok ran]
  rfl

theorem drop_run (loose : Loose i value t s) :
    ∃ after, drop ⟨i⟩ s = .ok () after ∧ Sound t after ∧ Pool.SameLive s.pool after.pool := by
  obtain ⟨after, ran, sound, same⟩ := loose.discard_run
  refine ⟨after, ?_, sound, same⟩
  rw [drop, bind_ok ran]
  rfl

end Loose

theorem modifyValue_run {value : α} (sound : Sound t s) (held : s.pool.get? i = some value) (change : Nat → α → α) :
    ∃ after, onPool (Pool.modifyValue i (change i)) s = .ok () after ∧ Sound t after ∧ Amends change (· = i) s after := by
  have size : (s.pool.changeAt i (change i)).slots.size = s.pool.slots.size := Pool.size_revise ..
  have active := Pool.isActive_changeAt s.pool i (change i)
  have links := Pool.linkAt_changeAt s.pool i (change i)
  refine ⟨⟨s.pool.changeAt i (change i), s.index⟩, onPool_ok (Pool.modifyValue_run (Pool.stored_of_get? held) (change i)),
    ⟨⟨?_, ?_, ?_, ?_, sound.tidy.limit⟩, frame sound.threads (fun j _ => links j) rfl, ⟨sound.enumerates.nodup, ?_⟩,
    sound.counted⟩, .changed held change⟩
  · rw [active, sound.tidy.idle]
  · intro j live
    by_cases same : j = i
    · rw [same, Pool.get?_changeAt held]
      exact ⟨_, rfl⟩
    · rw [Pool.changeAt, Pool.get?_revise_other same]
      exact sound.tidy.filled j (active j ▸ live)
  · rw [size]
    exact sound.tidy.fits
  · rw [size]
    exact sound.tidy.reserved
  · intro j
    rw [active]
    exact sound.enumerates.mem j

theorem modifyAt_run {h : Handle} {value : α} (sound : Sound t s) (held : s.get? h = some value) (change : Nat → α → α) :
    ∃ after, modifyAt h (change h.index) s = .ok (some (change h.index value)) after ∧ Sound t after ∧
      Amends change (· = h.index) s after := by
  obtain ⟨after, ran, sound', amends⟩ := modifyValue_run sound held change
  cases ran.symm.trans (onPool_ok (Pool.modifyValue_run (Pool.stored_of_get? held) (change h.index)))
  exact ⟨_, modifyAt_ok held (change h.index), sound', amends⟩

theorem Sound.clear (sound : Sound t s) : ∃ bare, slots bare = [] ∧ Sound bare s.clear := by
  obtain ⟨bare, none, threads⟩ := cleared sound.threads
  have size : s.pool.clear.slots.size = min 1 s.pool.slots.size := by simp [Pool.clear, Array.take_eq_extract]
  have idle : ∀ i, s.pool.clear.isActive i = false := by
    intro i
    unfold Pool.isActive Pool.clear
    rw [Array.getElem?_modify]
    split
    · cases (s.pool.slots.take 1)[i]? <;> rfl
    · rw [Array.getElem?_eq_none]
      · rfl
      · simp [Array.take_eq_extract]
        omega
  have fits := sound.tidy.fits
  have reserved := sound.tidy.reserved
  have capacity : s.pool.clear.capacity = s.pool.capacity := rfl
  have tidy : s.pool.clear.Tidy := by
    refine ⟨idle 0, ?_, ?_, ?_, sound.tidy.limit⟩
    · intro i live
      rw [idle] at live
      cases live
    · omega
    · intro positive
      rw [capacity] at positive
      have some := reserved positive
      omega
  have enumerates : s.pool.clear.Enumerates (slots bare) := by
    rw [none]
    exact ⟨List.nodup_nil, fun i => by rw [idle]; simp⟩
  exact ⟨bare, none, tidy, threads, enumerates, by rw [none]; rfl⟩

end Store
end Slotted
