import Slotted.Proofs.Store.Addition
import Slotted.Action.Set
namespace Slotted

def SetAction.moves {α : Type} : SetAction α → Prop
  | .insert _ | .tryInsert _ | .extend _ | .reorder | .resize _ | .reserve _ => True
  | _ => False

def SetAction.touches {α : Type} : SetAction α → Nat → Prop
  | .change h _ => (· = h.index)
  | _ => fun _ => False

open LawfulIndex

namespace Store

variable {ι α μ : Type} [Inhabited μ] [Index ι μ] [lawful : LawfulIndex ι μ] {own : α → lawful.Memory → Prop}
  {moves : Prop} {touched : Nat → Prop} {t t' rest : lawful.Shape} {s middle after : Store ι α μ} {i : Nat} {value : α}

structure Evolves (own : α → lawful.Memory → Prop) (moves : Prop) (touched : Nat → Prop) (s after : Store ι α μ) :
    Prop where
  sound : ∃ t, Sound t after
  origin : ∀ i value, after.pool.get? i = some value →
    own value (lawful.keep (after.pool.linkAt i)) ∨ touched i ∨
      ∃ j, (moves ∨ j = i) ∧ s.pool.get? j = some value ∧
        lawful.keep (s.pool.linkAt j) = lawful.keep (after.pool.linkAt i)

def untouched : Nat → Prop := fun _ => False

namespace Evolves

theorem in_place (sound : Sound t after) (held : ∀ j value, after.pool.get? j = some value → s.pool.get? j = some value)
    (kept : ∀ j value, after.pool.get? j = some value →
      lawful.keep (s.pool.linkAt j) = lawful.keep (after.pool.linkAt j)) :
    Evolves own moves touched s after :=
  ⟨⟨t, sound⟩, fun j value there => .inr (.inr ⟨j, .inr rfl, held j value there, kept j value there⟩)⟩

theorem stay (sound : Sound t s) : Evolves own moves touched s s :=
  in_place sound (fun _ _ held => held) fun _ _ _ => rfl

theorem of_barred {ω : Type} {s after : Session (Store ι α μ) ω} {fault : Fault} (barred : s.Barred fault after)
    (sound : Sound t s.store) : Evolves own moves touched s.store after.store := by
  rw [barred.2.1]
  exact .stay sound

theorem trans (first : Evolves own moves untouched s middle) (second : Evolves own moves touched middle after) :
    Evolves own moves touched s after := by
  refine ⟨second.sound, ?_⟩
  intro i value held
  rcases second.origin i value held with fresh | changed | ⟨j, near, there, kept⟩
  · exact .inl fresh
  · exact .inr (.inl changed)
  · rcases first.origin j value there with fresh | none | ⟨k, near', before, kept'⟩
    · exact .inl (kept ▸ fresh)
    · exact none.elim
    · refine .inr (.inr ⟨k, ?_, before, kept'.trans kept⟩)
      rcases near with moved | rfl
      · exact .inl moved
      · exact near'

theorem of_carries {ρ : Nat → Nat} (carries : Carries ρ t s after) : Evolves own True touched s after := by
  refine ⟨⟨_, carries.sound⟩, ?_⟩
  intro i value held
  have member := carries.sound.mem_iff.mpr ⟨value, held⟩
  rw [slots_rename, List.mem_map] at member
  obtain ⟨j, member, rfl⟩ := member
  exact .inr (.inr ⟨j, .inl trivial, (carries.relabels.held j member).symm.trans held, (carries.relabels.kept j member).symm⟩)

theorem of_adds {ρ : Nat → Nat} (adds : Adds ρ i value t t' s after)
    (fresh : own value (lawful.keep (after.pool.linkAt i))) : Evolves own True touched s after := by
  refine ⟨⟨_, adds.sound⟩, ?_⟩
  intro k value' held
  have member := adds.sound.mem_iff.mpr ⟨value', held⟩
  rw [adds.perm.mem_iff, List.mem_cons, List.mem_map] at member
  rcases member with rfl | ⟨j, member, rfl⟩
  · rw [adds.here] at held
    cases held
    exact .inl fresh
  · exact .inr (.inr ⟨j, .inl trivial, (adds.held j member).symm.trans held, (adds.kept j member).symm⟩)

theorem of_adds_id (adds : Adds id i value t t' s after) (fresh : own value (lawful.keep (after.pool.linkAt i))) :
    Evolves own moves touched s after := by
  refine ⟨⟨_, adds.sound⟩, ?_⟩
  intro k value' held
  have member := adds.sound.mem_iff.mpr ⟨value', held⟩
  rw [adds.perm.mem_iff, List.mem_cons, List.mem_map] at member
  rcases member with rfl | ⟨j, member, rfl⟩
  · rw [adds.here] at held
    cases held
    exact .inl fresh
  · exact .inr (.inr ⟨j, .inr rfl, (adds.held j member).symm.trans held, (adds.kept j member).symm⟩)

theorem of_parts (parts : Parts i t rest s after) (sound : Sound t s) : Evolves own moves touched s after := by
  have others : ∀ j value, after.pool.get? j = some value → j ≠ i := by
    intro j value held same
    subst same
    rw [parts.gone sound] at held
    cases held
  exact in_place parts.sound (fun j value held => (parts.held j (others j value held)).symm.trans held)
    fun j value held => (parts.kept j (others j value held)).symm

theorem of_same_live (sound : Sound t after) (same : Pool.SameLive s.pool after.pool) : Evolves own moves touched s after :=
  in_place sound (fun j _ held => (same.get? j).symm.trans held) fun j _ _ => by rw [same.linkAt]

theorem of_amends {change : Nat → α → α} (sound : Sound t after) (amends : Amends change touched s after) :
    Evolves own moves touched s after := by
  refine ⟨⟨t, sound⟩, ?_⟩
  intro j value' held
  by_cases same : touched j
  · exact .inr (.inl same)
  · exact .inr (.inr ⟨j, .inr rfl, (amends.others j same).symm.trans held, by rw [amends.linkAt]⟩)

end Evolves
end Store

namespace Access

open Store

section Steps

variable {ι α μ ω : Type} [Inhabited μ] [Index ι μ] [lawful : LawfulIndex ι μ] {own : α → lawful.Memory → Prop}
  {moves : Prop} {t : lawful.Shape} {s : Session (Store ι α μ) ω}

theorem ask_evolves {β : Type} (sound : Sound t s.store) (query : Query (Store ι α μ) ω β) :
    Always (Update.ask query) s fun after => Evolves own moves untouched s.store after.store := by
  have kept : ∀ after : Session (Store ι α μ) ω, after.store = s.store →
      Evolves own moves untouched s.store after.store := fun after same => by rw [same]; exact .stay sound
  exact (Update.ask_keeps_store query).imp kept

theorem remove_evolves (sound : Sound t s.store) (h : Handle) :
    Always (Update.edit (Store.remove h)) s fun after => Evolves own moves untouched s.store after.store := by
  rw [Always, Update.ends_edit]
  cases held : s.store.get? h with
  | none => exact Ends.of_ok (remove_none held sound) (.stay sound)
  | some value =>
    refine (remove_returns sound held).ends ?_
    intro _ after ends
    obtain ⟨_, rest, parts⟩ := ends
    exact .of_parts parts sound

theorem take_evolves (sound : Sound t s.store) (search : Query (Store ι α μ) ω (Option Handle)) :
    Always (Store.take search) s fun after => Evolves own moves untouched s.store after.store := by
  rw [Store.take]
  refine (ask_evolves sound search).then ?_
  intro found middle evolved
  obtain ⟨t', sound'⟩ := evolved.sound
  cases found with
  | none => exact Ends.of_ok rfl evolved
  | some h =>
    exact (remove_evolves sound' h).imp fun _ later => evolved.trans later

theorem takeEach_evolves {β γ : Type} (take : β → Update (Store ι α μ) ω (Option γ))
    (each : ∀ t (s : Session (Store ι α μ) ω) value, Sound t s.store →
      Always (take value) s fun after => Evolves own moves untouched s.store after.store)
    (values : List β) (sound : Sound t s.store) :
    Always (takeEach take values) s fun after => Evolves own moves untouched s.store after.store := by
  induction values generalizing t s with
  | nil => exact Ends.of_ok rfl (.stay sound)
  | cons value values ih =>
    rw [takeEach]
    refine (each t s value sound).then ?_
    intro taken middle evolved
    obtain ⟨t', sound'⟩ := evolved.sound
    rw [Always, ends_bind]
    exact (ih sound').imp fun _ later => evolved.trans later

end Steps

variable {ι α μ ω : Type} [Inhabited μ] [Index ι μ] [lawful : LawfulIndex ι μ] {own : α → lawful.Memory → Prop}
  {access : Access ι α μ ω} {t : lawful.Shape} {s : Session (Store ι α μ) ω}

-- What an index and a rule must bring so that nothing an action does goes beyond that.
structure Steady (own : α → lawful.Memory → Prop) (access : Access ι α μ ω) : Prop where
  insert : ∀ t (s : Session (Store ι α μ) ω) value, Sound t s.store →
    Always (access.insert value) s fun after => Evolves own True untouched s.store after.store
  tryInsert : ∀ t (s : Session (Store ι α μ) ω) value, Sound t s.store →
    Always (access.tryInsert value) s fun after => Evolves own True untouched s.store after.store
  reinsert : ∀ t i value (s : Session (Store ι α μ) ω), Loose i value t s.store →
    Always (access.reinsert ⟨i⟩) s fun after => Evolves own False untouched s.store after.store
  walk : ∀ t (s : Session (Store ι α μ) ω) strides, Sound t s.store →
    Always (access.walk strides) s fun after => after.store = s.store

section Steady

variable (steady : access.Steady own)
include steady

theorem extend_evolves (values : List α) (sound : Sound t s.store) :
    Always (values.forM fun value => do let _ ← access.insert value) s fun after =>
      Evolves own True untouched s.store after.store := by
  induction values generalizing t s with
  | nil => exact Ends.of_ok rfl (.stay sound)
  | cons value values ih =>
    change Always ((do let _ ← access.insert value) >>= fun _ => values.forM fun value => do
      let _ ← access.insert value) s _
    have once : Always (do let _ ← access.insert value : Update (Store ι α μ) ω Unit) s fun after =>
        Evolves own True untouched s.store after.store :=
      (steady.insert t s value sound).then fun _ _ evolved => evolved
    refine once.then ?_
    intro _ middle evolved
    obtain ⟨t', sound'⟩ := evolved.sound
    exact (ih sound').imp fun _ later => evolved.trans later

theorem finish_evolves {i : Nat} {value : α} (loose : Loose i value t s.store) (ending : Ending) :
    Always (access.finish ⟨i⟩ ending) s fun after => Evolves own False untouched s.store after.store := by
  cases ending with
  | reinsert =>
    rw [finish]
    exact (steady.reinsert t i value s loose).then fun _ _ evolved => evolved
  | release =>
    obtain ⟨after, ran, sound, same⟩ := loose.release_run
    rw [finish, Always, ends_bind, Update.ends_edit]
    exact Ends.of_ok ran (.of_same_live sound same)
  | drop =>
    obtain ⟨after, ran, sound, same⟩ := loose.drop_run
    rw [finish, Always, ends_bind, Update.ends_edit]
    exact Ends.of_ok ran (.of_same_live sound same)
  | peek =>
    obtain ⟨after, ran, sound, same⟩ := loose.drop_run
    rw [finish, Always, ends_bind, ends_get, loose.value_eq, ends_bind, ends_lift, ends_bind, Update.ends_edit]
    exact Ends.of_ok ran (.of_same_live sound same)

theorem settle_evolves {i : Nat} {value : α} (loose : Loose i value t s.store) (change : α → α) (ending : Ending) :
    Always (access.settle change ending (some ⟨i⟩)) s fun after => Evolves own False untouched s.store after.store := by
  obtain ⟨changed, ran, loose', same⟩ := loose.modify_run change
  rw [settle, Always, ends_bind, ends_get, loose.value_eq, ends_bind, ends_lift, ends_bind, Update.ends_edit]
  refine Ends.of_ok ran ?_
  rw [ends_bind]
  have moved : Evolves own False untouched s.store changed := .of_same_live loose'.sound same
  exact (finish_evolves (s := ⟨changed, s.gate⟩) steady loose' ending).imp fun _ later => moved.trans later

theorem extract_evolves (sound : Sound t s.store) (h : Handle) (change : α → α) (ending : Ending) :
    Always (do access.settle change ending (← Update.edit (Store.extract h))) s fun after =>
      Evolves own False untouched s.store after.store := by
  rw [Always, ends_bind, Update.ends_edit]
  cases held : s.store.get? h with
  | none => exact Ends.of_ok (extract_none held sound) (.stay sound)
  | some value =>
    refine (extract_returns sound held).ends ?_
    intro _ out ends
    obtain ⟨rfl, rest, parts, loose⟩ := ends
    have left : Evolves own False untouched s.store out := .of_parts parts sound
    exact (settle_evolves (s := ⟨out, s.gate⟩) steady loose change ending).imp fun _ later => left.trans later

theorem run_evolves [Allocator ω] (action : SetAction α) (sound : Sound t s.store) :
    Always (access.run action) s fun after => Evolves own action.moves action.touches s.store after.store := by
  have asked : ∀ {β : Type} (query : Query (Store ι α μ) ω β) (answer : β → Reply α),
      Always (do return answer (← Update.ask query)) s fun after => Evolves own False untouched s.store after.store := by
    intro β query answer
    exact (ask_evolves sound query).then fun _ _ evolved => evolved
  have stay : Evolves own False untouched s.store s.store := .stay sound
  cases action with
  | insert value => exact (steady.insert t s value sound).then fun _ _ evolved => evolved
  | tryInsert value =>
    refine (steady.tryInsert t s value sound).then ?_
    intro answer after evolved
    cases answer <;> exact evolved
  | extend values =>
    exact (extend_evolves steady values sound).then fun _ _ evolved => evolved
  | find value => exact asked _ _
  | contains value => exact asked (access.find value) fun found => .holds found.isSome
  | get h => exact stay
  | change h change =>
    have changed : Always (Update.edit (Store.modifyAt h change)) s fun after =>
        Evolves own False (· = h.index) s.store after.store := by
      rw [Always, Update.ends_edit]
      cases held : s.store.get? h with
      | none => exact Ends.of_ok (modifyAt_none held change) (.stay sound)
      | some value =>
        obtain ⟨after, ran, sound', amends⟩ := modifyAt_run sound held fun _ => change
        exact Ends.of_ok ran (.of_amends sound' amends)
    exact changed.then fun _ _ evolved => evolved
  | handleOf h =>
    rw [run, Always, ends_bind, ends_get]
    cases s.store.lend h with
    | none => exact stay
    | some loan =>
      have same : Always (liftM (s.store.handleOf loan)) s fun after =>
          Evolves own False untouched s.store after.store :=
        (always_lift _).imp fun _ same => same ▸ stay
      dsimp only
      rw [ends_bind, ends_get]
      exact same.then fun _ _ evolved => evolved
  | handleOfOther value => exact stay
  | remove h => exact (remove_evolves sound h).then fun _ _ evolved => evolved
  | take value => exact (take_evolves sound _).then fun _ _ evolved => evolved
  | takeAll values =>
    exact (takeEach_evolves _ (fun _ _ _ sound => take_evolves sound _) values sound).then fun _ _ evolved => evolved
  | extract h change ending => exact extract_evolves steady sound h change ending
  | extractEqual value change ending =>
    refine (ask_evolves sound (access.find value)).then ?_
    intro found middle evolved
    obtain ⟨t', sound'⟩ := evolved.sound
    cases found with
    | none => exact evolved
    | some h =>
      exact (extract_evolves steady sound' h change ending).imp fun _ later => evolved.trans later
  | walk strides =>
    have walked : Always (access.walk strides) s fun after => Evolves own False untouched s.store after.store := by
      refine (steady.walk t s strides sound).imp fun after same => ?_
      rw [same]
      exact stay
    exact walked.then fun _ _ evolved => evolved
  | list => exact asked access.list .listed
  | isEmpty => exact stay
  | check => exact asked access.check .checked
  | reorder =>
    refine (reorder_edit sound).bind ?_
    intro _ after ends
    obtain ⟨⟨ρ, carries⟩, _⟩ := ends
    exact .of_carries carries
  | clear =>
    obtain ⟨bare, none, sound'⟩ := sound.clear
    refine ⟨⟨bare, sound'⟩, ?_⟩
    intro i value held
    have member := sound'.mem_iff.mpr ⟨value, held⟩
    rw [none] at member
    cases member
  | resize capacity =>
    refine (resize_returns sound capacity).bind ?_
    intro answer after ends
    obtain ⟨⟨ρ, carries⟩, _⟩ := ends
    exact .of_carries carries
  | reserve additional =>
    refine (reserve_returns sound additional).bind ?_
    intro answer after ends
    obtain ⟨⟨ρ, carries⟩, _⟩ := ends
    exact .of_carries carries

end Steady
end Access
end Slotted
