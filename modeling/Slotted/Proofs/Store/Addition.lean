import Slotted.Proofs.Store.Removal
import Slotted.Proofs.Store.Capacity
namespace Slotted

namespace Pool

variable {α μ : Type} {p q : Pool α μ} {i : Nat} {value : α}

structure Enlists [Inhabited μ] (i : Nat) (value : α) (p q : Pool α μ) : Prop where
  fresh : p.isActive i = false
  positive : 0 < i
  fits : q.slots.size ≤ q.capacity
  capacity : q.capacity = p.capacity
  count : q.count = p.count + 1
  here : q.get? i = some value
  isActive : ∀ j, j ≠ i → q.isActive j = p.isActive j
  held : ∀ j, j ≠ i → q.get? j = p.get? j
  linkAt : ∀ j, j ≠ i → q.linkAt j = p.linkAt j

theorem push_enlists [Inhabited μ] (link : μ) (allocated : 0 < p.slots.size) (room : p.isFull = false) (value : α) :
    ∃ q, push value link p = .ok p.slots.size q ∧ Enlists p.slots.size value p q := by
  have below : p.slots.size < p.capacity := by
    have space : p.next < p.capacity := Nat.lt_of_not_le (of_decide_eq_false room)
    exact Nat.lt_of_le_of_lt (Nat.le_max_left _ _) space
  refine ⟨_, push_run allocated room value link, ⟨?_, allocated, ?_, rfl, rfl, ?_, ?_, ?_, ?_⟩⟩
  · simp [Pool.isActive]
  · rw [Array.size_push]
    exact below
  · simp [Pool.get?]
  · intro j other
    unfold Pool.isActive
    rw [Array.getElem?_push, if_neg other]
  · intro j other
    unfold Pool.get?
    rw [Array.getElem?_push, if_neg other]
  · intro j other
    unfold Pool.linkAt
    rw [Array.getElem?_push, if_neg other]

theorem reattach_enlists [Inhabited μ] (idle : p.isActive i = false) (stored : p.storedAt i = some value)
    (positive : 0 < i) (fits : p.slots.size ≤ p.capacity) :
    ∃ q, reattach i p = .ok () q ∧ Enlists i value p q ∧ q.slots.size = p.slots.size := by
  have active : (p.revise i (fun slot => { slot with active := true }) (p.count + 1)).isActive i = true := by
    obtain ⟨slot, found, _⟩ := Option.bind_eq_some_iff.mp stored
    rw [isActive_revise_self, found]
    rfl
  refine ⟨_, reattach_run idle stored, ⟨idle, positive, ?_, rfl, rfl, ?_, ?_, ?_, ?_⟩, size_revise ..⟩
  · rw [size_revise]
    exact fits
  · rw [get?_eq, active, if_pos rfl, storedAt_revise]
    exact stored
  · exact fun j => isActive_revise_other
  · exact fun j => get?_revise_other
  · intro j _
    exact linkAt_revise (f := fun slot => { slot with active := true }) (fun _ => rfl) j

end Pool

namespace Store

open LawfulIndex

variable {ι α μ : Type} [Inhabited μ] [Index ι μ] [lawful : LawfulIndex ι μ] {t t' : lawful.Shape}
  {s after : Store ι α μ} {i : Nat} {value : α} {ρ : Nat → Nat}

-- One element is new, and the others are there under new numbers.
structure Adds (ρ : Nat → Nat) (i : Nat) (value : α) (t t' : lawful.Shape) (s after : Store ι α μ) : Prop where
  sound : Sound t' after
  perm : (slots t').Perm (i :: (slots t).map ρ)
  here : after.pool.get? i = some value
  held : ∀ j ∈ slots t, after.pool.get? (ρ j) = s.pool.get? j
  kept : ∀ j ∈ slots t, lawful.keep (after.pool.linkAt (ρ j)) = lawful.keep (s.pool.linkAt j)

theorem Sound.enlist (sound : Sound t s) {p : Pool α μ} (enlists : Pool.Enlists i value s.pool p)
    (bodies : Pool.SameBodies (fun _ => ()) p after.pool)
    (kept : ∀ j, j ≠ i → lawful.keep (after.pool.linkAt j) = lawful.keep (p.linkAt j))
    (perm : (slots t').Perm (i :: slots t)) (threads : Threads t' after.pool after.index) :
    Adds id i value t t' s after := by
  have here : after.pool.get? i = some value := by rw [bodies.get?, enlists.here]
  have live := Pool.isActive_of_get? here
  have absent : i ∉ slots t := by
    intro member
    have was := (sound.enumerates.mem i).mp member
    rw [enlists.fresh] at was
    cases was
  have inside := Pool.isActive_lt live
  have nodup : (slots t').Nodup := perm.nodup_iff.mpr (List.nodup_cons.mpr ⟨absent, sound.enumerates.nodup⟩)
  have active : ∀ j, after.pool.isActive j = true ↔ j ∈ slots t' := by
    intro j
    rw [bodies.isActive, perm.mem_iff, List.mem_cons, sound.enumerates.mem]
    by_cases same : j = i
    · subst same
      simp [← bodies.isActive, live]
    · simp [enlists.isActive j same, same]
  have held : ∀ j, j ≠ i → after.pool.get? j = s.pool.get? j := fun j other => by
    rw [bodies.get?, enlists.held j other]
  have others : ∀ j ∈ slots t, j ≠ i := by
    intro j member equal
    subst equal
    exact absent member
  refine ⟨⟨⟨?_, ?_, ?_, ?_, ?_⟩, threads, ⟨nodup, fun j => (active j).symm⟩, ?_⟩, ?_, here, ?_, ?_⟩
  · rw [bodies.isActive, enlists.isActive 0 (Nat.ne_of_lt enlists.positive)]
    exact sound.tidy.idle
  · intro j live
    by_cases same : j = i
    · exact ⟨value, same ▸ here⟩
    · rw [held j same]
      exact sound.tidy.filled j ((enlists.isActive j same).symm.trans ((bodies.isActive j).symm.trans live))
  · rw [bodies.size, bodies.capacity]
    exact enlists.fits
  · intro _
    exact Nat.lt_of_le_of_lt (Nat.zero_le _) inside
  · rw [bodies.capacity, enlists.capacity]
    exact sound.tidy.limit
  · rw [bodies.count, enlists.count, sound.counted, perm.length_eq, List.length_cons]
  · simpa using perm
  · intro j member
    exact held j (others j member)
  · intro j member
    rw [id, kept j (others j member), enlists.linkAt j (others j member)]

namespace Adds

theorem carried {s middle after : Store ι α μ} (carries : Carries ρ t s middle)
    (adds : Adds id i value (rename ρ t) t' middle after) : Adds ρ i value t t' s after := by
  refine ⟨adds.sound, ?_, adds.here, ?_, ?_⟩
  · have perm := adds.perm
    rwa [slots_rename, List.map_id] at perm
  · intro j member
    have moved : ρ j ∈ slots (rename ρ t) := by
      rw [slots_rename]
      exact List.mem_map_of_mem member
    exact (adds.held _ moved).trans (carries.relabels.held j member)
  · intro j member
    have moved : ρ j ∈ slots (rename ρ t) := by
      rw [slots_rename]
      exact List.mem_map_of_mem member
    exact (adds.kept _ moved).trans (carries.relabels.kept j member)

theorem contents_eq (adds : Adds ρ i value t t' s after) (sound : Sound t s) :
    after.pool.contents = value ::ₘ s.pool.contents := by
  have moved : (slots t).filterMap (after.pool.get? ∘ ρ) = (slots t).filterMap s.pool.get? :=
    List.filterMap_congr adds.held
  rw [adds.sound.contents_eq, sound.contents_eq, Multiset.coe_eq_coe.mpr (adds.perm.filterMap _),
    List.filterMap_cons, adds.here, List.filterMap_map, moved]
  rfl

end Adds

theorem Parts.gone {rest : lawful.Shape} (parts : Parts i t rest s after) (sound : Sound t s) :
    after.pool.get? i = none := by
  rw [parts.sound.tidy.get?_none, Bool.eq_false_iff]
  intro live
  have member := (parts.sound.enumerates.mem i).mpr live
  rw [parts.slots] at member
  exact (sound.enumerates.nodup.mem_erase_iff.mp member).1 rfl

theorem Parts.contents_eq {rest : lawful.Shape} (parts : Parts i t rest s after) (sound : Sound t s)
    (held : s.pool.get? i = some value) : s.pool.contents = value ::ₘ after.pool.contents := by
  have member : i ∈ LawfulIndex.slots t := (sound.enumerates.mem i).mpr (Pool.isActive_of_get? held)
  have stayed : ((LawfulIndex.slots t).erase i).filterMap after.pool.get? =
      ((LawfulIndex.slots t).erase i).filterMap s.pool.get? := by
    apply List.filterMap_congr
    intro j other
    exact parts.held j ((sound.enumerates.nodup.mem_erase_iff).mp other).1
  rw [parts.sound.contents_eq, sound.contents_eq, parts.slots, stayed,
    Multiset.coe_eq_coe.mpr ((List.perm_cons_erase member).filterMap _), List.filterMap_cons, held]
  rfl

theorem Amends.contents_eq {change : Nat → α → α} (amends : Amends change (· = i) s after) (sound : Sound t s)
    (sound' : Sound t after) (held : s.pool.get? i = some value) :
    ∃ rest, s.pool.contents = value ::ₘ rest ∧ after.pool.contents = change i value ::ₘ rest := by
  have member : i ∈ LawfulIndex.slots t := (sound.enumerates.mem i).mpr (Pool.isActive_of_get? held)
  have stayed : ((LawfulIndex.slots t).erase i).filterMap after.pool.get? =
      ((LawfulIndex.slots t).erase i).filterMap s.pool.get? := by
    apply List.filterMap_congr
    intro j other
    exact amends.others j ((sound.enumerates.nodup.mem_erase_iff).mp other).1
  have perm := List.perm_cons_erase member
  refine ⟨((LawfulIndex.slots t).erase i).filterMap s.pool.get?, ?_, ?_⟩
  · rw [sound.contents_eq, Multiset.coe_eq_coe.mpr (perm.filterMap _), List.filterMap_cons, held]
    rfl
  · rw [sound'.contents_eq, Multiset.coe_eq_coe.mpr (perm.filterMap _), List.filterMap_cons, amends.touched i rfl, held,
      stayed]
    rfl

-- How an insertion with a builder goes. If the element is found, nothing changes, not even the world; if it is missing,
-- room is made, and the builder is run, once, in the world that this left.
inductive Builds {ω : Type} [Allocator ω] (make : Query (Store ι α μ) ω α) (blamed : Container) (t : lawful.Shape)
    (found : Handle → Prop) (missing : Prop) (placed : α → Store ι α μ → Handle → Prop)
    (s after : Session (Store ι α μ) ω) : Except Fault (Handle × Bool) → Prop where
  | found {h : Handle} : found h → after = s → Builds make blamed t found missing placed s after (.ok (h, false))
  | built {h : Handle} {value : α} {renumbered : Bool} {middle : Session (Store ι α μ) ω} : missing →
    makeRoom s = .ok (.ok renumbered) middle → make middle.store middle.gate = .ok value after.gate →
    placed value after.store h → Builds make blamed t found missing placed s after (.ok (h, true))
  | failed {fault : Fault} {renumbered : Bool} {middle : Session (Store ι α μ) ω} {ρ : Nat → Nat} : missing →
    makeRoom s = .ok (.ok renumbered) middle → make middle.store middle.gate = .error fault after.gate →
    Carries ρ t s.store after.store → Builds make blamed t found missing placed s after (.error fault)
  | refused {error : CapacityError} : missing → makeRoom s = .ok (.error error) after → after.store = s.store →
    NoRoom s.store error → Builds make blamed t found missing placed s after (.error (.growth blamed .insertWith error))

theorem Builds.keeps_flag {ω : Type} [Allocator ω] {make : Query (Store ι α μ) ω α} {blamed : Container} {t : lawful.Shape}
    {found : Handle → Prop} {missing : Prop} {placed : α → Store ι α μ → Handle → Prop}
    {s after : Session (Store ι α μ) ω} {answer : Except Fault (Handle × Bool)} (sound : Sound t s.store)
    (steady : ∀ store gate, Always (make store) gate (·.busy = gate.busy))
    (builds : Builds make blamed t found missing placed s after answer) : after.gate.busy = s.gate.busy := by
  have roomed : ∀ {answer middle}, makeRoom s = .ok answer middle → middle.gate.busy = s.gate.busy :=
    fun roomy => ((makeRoom_returns sound).returned roomy).2
  cases builds with
  | found _ same => rw [same]
  | built _ roomy ran _ => exact ((steady _ _).returned ran).trans (roomed roomy)
  | failed _ roomy ran _ => exact ((steady _ _).faulted ran).trans (roomed roomy)
  | refused _ roomy _ _ => exact roomed roomy

end Store

theorem Pool.SameLive.entries_eq {α μ : Type} [Inhabited μ] {p q : Pool α μ} (same : SameLive p q) :
    q.entries = p.entries := Pool.entries_congr same.size same.get?

end Slotted
