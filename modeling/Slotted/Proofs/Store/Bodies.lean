import Slotted.Proofs.Store.Addition
namespace Slotted.Store

open LawfulIndex

variable {ι α μ : Type} [Inhabited μ] [Index ι μ] [lawful : LawfulIndex ι μ] {t rest : lawful.Shape}
  {s after : Store ι α μ} {i : Nat} {value : α}

def bodyAt (s : Store ι α μ) (i : Nat) : Option (α × lawful.Memory) :=
  (s.pool.get? i).map fun value => (value, lawful.keep (s.pool.linkAt i))

def bodies (t : lawful.Shape) (s : Store ι α μ) : List (α × lawful.Memory) := (slots t).filterMap s.bodyAt

theorem bodyAt_of_get? (held : s.pool.get? i = some value) :
    s.bodyAt i = some (value, lawful.keep (s.pool.linkAt i)) := by
  rw [bodyAt, held]
  rfl

theorem mem_bodies {body : α × lawful.Memory} (sound : Sound t s) :
    body ∈ bodies t s ↔ ∃ i, s.pool.get? i = some body.1 ∧ lawful.keep (s.pool.linkAt i) = body.2 := by
  obtain ⟨value, memory⟩ := body
  rw [bodies, List.mem_filterMap]
  constructor
  · intro given
    obtain ⟨i, _, found⟩ := given
    obtain ⟨stored, held, same⟩ := Option.map_eq_some_iff.mp found
    cases same
    exact ⟨i, held, rfl⟩
  · intro given
    obtain ⟨i, held, rfl⟩ := given
    exact ⟨i, sound.mem_iff.mpr ⟨value, held⟩, bodyAt_of_get? held⟩

theorem bodies_values (t : lawful.Shape) (s : Store ι α μ) :
    (bodies t s).map (·.1) = (slots t).filterMap s.pool.get? := by
  rw [bodies, List.map_filterMap]
  apply List.filterMap_congr
  intro i _
  rw [bodyAt]
  cases s.pool.get? i <;> rfl

theorem Sound.contents_bodies (sound : Sound t s) : s.pool.contents = ((bodies t s).map (·.1) : List α) := by
  rw [sound.contents_eq, bodies_values]

theorem Carries.bodies_eq {ρ : Nat → Nat} (carries : Carries ρ t s after) : bodies (rename ρ t) after = bodies t s := by
  rw [bodies, bodies, slots_rename, List.filterMap_map]
  apply List.filterMap_congr
  intro i member
  rw [Function.comp_apply, bodyAt, bodyAt, carries.relabels.held i member, carries.relabels.kept i member]

theorem Parts.bodies_sublist (parts : Parts i t rest s after) (sound : Sound t s) :
    (bodies rest after).Sublist (bodies t s) := by
  have same : bodies rest after = ((LawfulIndex.slots t).erase i).filterMap s.bodyAt := by
    rw [bodies, parts.slots]
    apply List.filterMap_congr
    intro j other
    have apart := (sound.enumerates.nodup.mem_erase_iff.mp other).1
    rw [bodyAt, bodyAt, parts.held j apart, parts.kept j apart]
  rw [same]
  exact List.erase_sublist.filterMap _

theorem Adds.bodies_perm {t' : lawful.Shape} {ρ : Nat → Nat} (adds : Adds ρ i value t t' s after) :
    (bodies t' after).Perm ((value, lawful.keep (after.pool.linkAt i)) :: bodies t s) := by
  have others : ((LawfulIndex.slots t).map ρ).filterMap after.bodyAt = bodies t s := by
    rw [bodies, List.filterMap_map]
    apply List.filterMap_congr
    intro j member
    rw [Function.comp_apply, bodyAt, bodyAt, adds.held j member, adds.kept j member]
  have perm := adds.perm.filterMap after.bodyAt
  rwa [List.filterMap_cons, bodyAt_of_get? adds.here, others] at perm

theorem bodies_same_live (same : Pool.SameLive s.pool after.pool) : bodies t after = bodies t s := by
  apply List.filterMap_congr
  intro i _
  rw [bodyAt, bodyAt, same.get?, same.linkAt]

theorem Amends.bodies_seen {β : Type} {change : Nat → α → α} {chosen : Nat → Prop} (amends : Amends change chosen s after)
    (view : α → β) (unseen : ∀ i a, view (change i a) = view a) (t : lawful.Shape) :
    (bodies t after).map (Prod.map view id) = (bodies t s).map (Prod.map view id) := by
  rw [bodies, bodies, List.map_filterMap, List.map_filterMap]
  apply List.filterMap_congr
  intro i _
  rw [bodyAt, bodyAt, amends.linkAt]
  by_cases touched : chosen i
  · rw [amends.touched i touched]
    cases s.pool.get? i with
    | none => rfl
    | some value => exact congrArg (fun seen => some (seen, _)) (unseen i value)
  · rw [amends.others i touched]

structure Proper (promise : List (α × lawful.Memory) → Prop) (t : lawful.Shape) (s : Store ι α μ) : Prop where
  sound : Sound t s
  body : promise (bodies t s)

def Inherited {β : Type} (promise : List β → Prop) : Prop :=
  ∀ {part whole : List β}, part.Sublist whole → promise whole → promise part

namespace Proper

variable {promise : List (α × lawful.Memory) → Prop}

theorem carries {ρ : Nat → Nat} (proper : Proper promise t s) (carries : Carries ρ t s after) :
    Proper promise (rename ρ t) after := ⟨carries.sound, carries.bodies_eq ▸ proper.body⟩

theorem parts (proper : Proper promise t s) (inherited : Inherited promise) (parts : Parts i t rest s after) :
    Proper promise rest after := ⟨parts.sound, inherited (parts.bodies_sublist proper.sound) proper.body⟩

theorem same_live (proper : Proper promise t s) (sound : Sound t after) (same : Pool.SameLive s.pool after.pool) :
    Proper promise t after := ⟨sound, bodies_same_live (t := t) same ▸ proper.body⟩

theorem bare (proper : Proper promise t s) (inherited : Inherited promise) (none : slots rest = []) (sound : Sound rest after) :
    Proper promise rest after := by
  refine ⟨sound, inherited ?_ proper.body⟩
  rw [bodies, none]
  exact List.nil_sublist _

end Proper
end Slotted.Store
