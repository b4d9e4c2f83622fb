import Slotted.Proofs.Action.Refinement
import Slotted.Proofs.BareSet.Shared
namespace Slotted

open Store LawfulIndex

variable {ι α β γ μ ω : Type}

namespace BareSet

variable {p : Pool α μ} {accepted : α → Bool}

theorem seek_bare (accepted : α → Bool) (p : Pool α μ) : seek accepted p.bare = seek accepted p := by
  simp only [seek, Pool.size_bare, Pool.get?_bare]

theorem seek_none (missing : ∀ i stored, p.get? i = some stored → accepted stored = false) : seek accepted p = none := by
  rw [seek, List.find?_eq_none.mpr]
  · rfl
  · intro i _ met
    obtain ⟨stored, held, fits⟩ := (Option.any_eq_true _ _).mp met
    rw [missing i stored held] at fits
    cases fits

theorem seek_some {h : Handle} {stored : α} (held : p.get? h.index = some stored) (fits : accepted stored = true)
    (alone : ∀ i other, p.get? i = some other → accepted other = true → i = h.index) : seek accepted p = some h := by
  have inside : h.index ∈ List.range p.slots.size := List.mem_range.mpr (Pool.isActive_lt (Pool.isActive_of_get? held))
  rw [seek]
  cases met : (List.range p.slots.size).find? fun i => (p.get? i).any accepted with
  | none => exact absurd ((Option.any_eq_true _ _).mpr ⟨stored, held, fits⟩) (List.find?_eq_none.mp met _ inside)
  | some i =>
    have stops := List.find?_some met
    obtain ⟨other, here, fitting⟩ := (Option.any_eq_true _ _).mp stops
    rw [alone i other here fitting]
    exact h.ofIndex?_index

end BareSet

-- The bare set does the same even where the set faults, apart from what it calls the fault.
def Mirrors (rename : Fault → Fault) (program : Update (Store ι α μ) ω β) (image : Update (BareSet α) Boundless β)
    (s : Session (Store ι α μ) ω) : Prop :=
  Ends program s (fun value after => image s.bare = .ok value after.bare) fun fault after =>
    image s.bare = .error (rename fault) after.bare

namespace Mirrors

variable {rename : Fault → Fault} {s : Session (Store ι α μ) ω} {program : Update (Store ι α μ) ω γ}
  {image : Update (BareSet α) Boundless γ} {rest : γ → Update (Store ι α μ) ω β} {rest' : γ → Update (BareSet α) Boundless β}

theorem views (mirrors : Mirrors rename program image s) : Views Session.bare program image s :=
  Ends.faulting mirrors fun _ _ _ => trivial

theorem of_views {returns : γ → Session (Store ι α μ) ω → Prop} (views : Views Session.bare program image s)
    (ends : Returns program s returns) : Mirrors rename program image s :=
  ends.both views |>.ends fun _ _ told => told.2

theorem pure (value : β) :
    Mirrors rename (Pure.pure value : Update (Store ι α μ) ω β) (Pure.pure value) s := Ends.of_ok rfl rfl

theorem bind (first : Mirrors rename program image s)
    (second : ∀ value after, program s = .ok value after → Mirrors rename (rest value) (rest' value) after) :
    Mirrors rename (program >>= rest) (image >>= rest') s := by
  refine Ends.bind ((Ends.known first).faulting ?_) ?_
  · intro fault after told
    change EStateM.bind image rest' s.bare = _
    rw [EStateM.bind, told]
  · intro value middle told
    obtain ⟨ran, seen⟩ := told
    refine (second value middle ran).imp ?_ ?_
    · intro _ after told
      rw [bind_ok seen]
      exact told
    · intro _ after told
      rw [bind_ok seen]
      exact told

theorem performed (mirrors : Mirrors rename program image s) :
    s.bare.perform image = ((s.perform program).1.mapError rename, (s.perform program).2.bare) :=
  Session.perform_tells (fun answer after => s.bare.perform image = (answer.mapError rename, after.bare)) <| by
    refine Ends.imp mirrors ?_ ?_
    · intro value after told
      rw [Session.perform, told]
      rfl
    · intro fault after told
      rw [Session.perform, told]
      rfl

theorem performAll {δ : Type} {act : δ → Update (Store ι α μ) ω β} {image : δ → Update (BareSet α) Boundless β}
    {holds : Session (Store ι α μ) ω → Prop} (actions : List δ)
    (step : ∀ action ∈ actions, ∀ s, holds s →
      Mirrors rename (act action) (image action) s ∧ holds (s.perform (act action)).2) (now : holds s) :
    Session.performAll image actions s.bare =
      ((Session.performAll act actions s).1.map (·.mapError rename), (Session.performAll act actions s).2.bare) := by
  induction actions generalizing s with
  | nil => rfl
  | cons action actions ih =>
    obtain ⟨mirrors, kept⟩ := step action List.mem_cons_self s now
    have further := ih (fun action member => step action (List.mem_cons_of_mem _ member)) kept
    rw [Session.performAll, mirrors.performed]
    dsimp only
    rw [further]
    rfl

end Mirrors

theorem answers_unrenamed (answers : List (Except Fault β)) : answers.map (·.mapError id) = answers := by
  have unchanged : (·.mapError id : Except Fault β → Except Fault β) = id := by
    funext answer
    cases answer <;> rfl
  rw [unchanged, List.map_id]

-- Nothing is changed in place, and the order of the elements does not show.
def SetAction.Shared : SetAction α → Prop
  | .change .. | .walk _ | .list => False
  | _ => True

theorem SetAction.Shared.kept {action : SetAction α} (shared : action.Shared) (h : Handle) (change : α → α) :
    action ≠ .change h change := by
  intro told
  subst told
  exact shared

namespace Access

variable [Inhabited μ] [Index ι μ] [lawful : LawfulIndex ι μ] {promise : List (α × lawful.Memory) → Prop}
  {same : α → α → Bool} {ordered : List α → Prop} {container name : Container} {access : Access ι α μ ω}
  {rename : Fault → Fault} {t : lawful.Shape} {s : Session (Store ι α μ) ω} {value : α}

theorem Exact.seek_eq (exact : access.Exact promise (same · · = true) ordered container) (settled : Settled promise s)
    {found : Option Handle} (finds : FoundIn (same · · = true) value s.store found) :
    BareSet.seek (same · value) s.store.pool = found := by
  obtain ⟨t, proper⟩ := settled.proper
  cases found with
  | none =>
    refine BareSet.seek_none fun i stored held => ?_
    exact Bool.eq_false_iff.mpr (finds stored (Pool.mem_contents.mpr ⟨i, held⟩))
  | some h =>
    obtain ⟨stored, alike, held⟩ := finds
    refine BareSet.seek_some held alike fun i other here fits => ?_
    have apart := exact.distinct _ proper.body
    rw [bodies_values, List.pairwise_filterMap] at apart
    have symmetric : Std.Symm fun i j => ∀ a, s.store.pool.get? i = some a → ∀ b, s.store.pool.get? j = some b →
        ¬ same a b = true := ⟨fun i j differ b there a here both => differ a here b there (exact.alike.symm both)⟩
    by_contra differ
    exact apart.forall (proper.sound.mem_iff.mpr ⟨_, here⟩) (proper.sound.mem_iff.mpr ⟨_, held⟩) differ other here stored
      held (exact.alike.trans fits (exact.alike.symm alike))

theorem Exact.sought (exact : access.Exact promise (same · · = true) ordered container) (settled : Settled promise s)
    {found : Option Handle} (finds : FoundIn (same · · = true) value s.store found) :
    Update.ask (BareSet.find same value) s.bare = .ok found s.bare := by
  have sought := (BareSet.seek_bare (same · value) s.store.pool).trans (exact.seek_eq settled finds)
  exact congrArg (EStateM.Result.ok · s.bare) sought

theorem Exact.found (exact : access.Exact promise (same · · = true) ordered container) (settled : Settled promise s)
    (value : α) : ∃ found, Update.ask (access.find value) s = .ok found s ∧
      Update.ask (BareSet.find same value) s.bare = .ok found s.bare := by
  obtain ⟨found, finds, asked⟩ := exact.find s value settled
  exact ⟨found, asked, exact.sought settled finds⟩

-- What is left to an index: insertions look, make room and append as they do without one.
structure Mirrored (promise : List (α × lawful.Memory) → Prop) (rename : Fault → Fault) (name : Container)
    (same : α → α → Bool) (access : Access ι α μ ω) : Prop where
  insert : ∀ s value, Settled promise s → Mirrors rename (access.insert value) (BareSet.insert name same value) s
  tryInsert : ∀ s value, Settled promise s → Views Session.bare (access.tryInsert value) (BareSet.tryInsert same value) s
  reinsert : ∀ t i value s, Loose i value t s.store → promise (bodies t s.store) → s.gate.busy = false →
    Views Session.bare (access.reinsert ⟨i⟩) (BareSet.reinsert same ⟨i⟩) s

variable (exact : access.Exact promise (same · · = true) ordered container) (mirrored : access.Mirrored promise rename name same)

section Answers

variable [Allocator ω]
include exact

theorem perform_settles (action : SetAction α) (shared : action.Shared) (settled : Settled promise s) :
    Settled promise (s.perform (access.run action)).2 :=
  Session.perform_keeps ((run_meets exact action shared.kept settled).imp (fun _ _ told => told.2) fun _ _ told => told.2)

theorem perform_blames (action : SetAction α) (shared : action.Shared) (settled : Settled promise s) {fault : Fault}
    (fails : (s.perform (access.run action)).1 = .error fault) : ∃ error, fault = .growth container .insert error := by
  have told := Session.perform_tells (fun answer after => Meets (same · · = true) ordered container s.store after.store action answer)
    ((run_meets exact action shared.kept settled).imp (fun _ _ told => told.1) fun _ _ told => told.1)
  rw [fails] at told
  exact told.blames shared.kept

theorem performAll_blames (actions : List (SetAction α)) (shared : ∀ action ∈ actions, action.Shared)
    (settled : Settled promise s) {fault : Fault} (failed : .error fault ∈ (Session.performAll access.run actions s).1) :
    ∃ error, fault = .growth container .insert error := by
  induction actions generalizing s with
  | nil => cases failed
  | cons action actions ih =>
    have now := shared action List.mem_cons_self
    rcases List.mem_cons.mp failed with same | later
    · exact perform_blames exact action now settled same.symm
    · exact ih (fun action member => shared action (List.mem_cons_of_mem _ member))
        (perform_settles exact action now settled) later

end Answers

include mirrored

theorem finish_views {i : Nat} {value : α} (loose : Loose i value t s.store) (body : promise (bodies t s.store))
    (lowered : s.gate.busy = false) (ending : Ending) :
    Views Session.bare (access.finish ⟨i⟩ ending) ((BareSet.access name same).finish ⟨i⟩ ending) s := by
  cases ending with
  | reinsert => exact (mirrored.reinsert t i value s loose body lowered).bind fun _ _ _ => Views.pure rfl
  | release => exact (Update.edit_views (release_views _ _)).bind fun _ _ _ => Views.pure rfl
  | drop => exact (Update.edit_views (drop_views _ _)).bind fun _ _ _ => Views.pure rfl
  | peek =>
    refine Views.get (Views.lift (s.store.detachedValue_bare ⟨i⟩) fun value _ => ?_)
    exact (Update.edit_views (drop_views _ _)).bind fun _ _ _ => Views.pure rfl

variable [LinkingIndex ι μ]
include exact

theorem extract_mirrored {h : Handle} (settled : Settled promise s) (change : α → α) (ending : Ending) :
    Views Session.bare (do access.settle change ending (← Update.edit (Store.extract h)))
      (do (BareSet.access name same).settle change ending (← Update.edit (Store.extract h))) s := by
  obtain ⟨t, proper⟩ := settled.proper
  refine (Update.edit_views (extract_views h s.store)).bind fun out left ran => ?_
  cases held : s.store.get? h with
  | none =>
    cases ran.symm.trans (Update.edit_ok (extract_none held proper.sound))
    exact Views.pure rfl
  | some value =>
    obtain ⟨_, out, took, rfl, rest, parts, loose⟩ := (extract_returns proper.sound held).exists
    cases ran.symm.trans (Update.edit_ok took)
    obtain ⟨changed, altered, loose', still⟩ := loose.modify_run change
    have body := ((proper.parts exact.inherited parts).same_live loose'.sound still).body
    refine Views.get (Views.lift (out.detachedValue_bare ⟨h.index⟩) fun was _ => ?_)
    refine (Update.edit_views (onPool_views (Pool.modifyValue_views _ _ _))).bind fun _ left ran => ?_
    cases ran.symm.trans (Update.edit_ok altered)
    refine (finish_views (s := ⟨changed, s.gate⟩) mirrored loose' body settled.lowered ending).bind fun _ _ _ => ?_
    exact Views.pure rfl

omit mirrored in
theorem take_views (value : α) (settled : Settled promise s) :
    Views Session.bare (Store.take (access.find value)) (Store.take (BareSet.find same value)) s := by
  obtain ⟨found, asked, sought⟩ := exact.found settled value
  refine Views.asked asked (Views.asking sought ?_)
  cases found with
  | none => exact Views.pure rfl
  | some h => exact Update.edit_views (remove_views h s.store)

omit mirrored in
theorem takeEach_views (values : List α) (settled : Settled promise s) :
    Views Session.bare (takeEach (fun value => Store.take (access.find value)) values)
      (takeEach (fun value => Store.take (BareSet.find same value)) values) s := by
  induction values generalizing s with
  | nil => exact Views.pure rfl
  | cons value values ih =>
    refine (take_views exact value settled).bind fun _ middle ran => ?_
    have settled' : Settled promise middle := ((take_meets exact value settled).returned ran).2.2
    exact (ih settled').bind fun _ _ _ => Views.pure rfl

omit [LinkingIndex ι μ] in
theorem extend_mirrors (values : List α) (settled : Settled promise s) :
    Mirrors rename (values.forM fun value => do let _ ← access.insert value)
      (values.forM fun value => do let _ ← BareSet.insert name same value) s := by
  induction values generalizing s with
  | nil => exact .pure _
  | cons value values ih =>
    have kept : Ends (do let _ ← access.insert value) s (fun _ after => Settled promise after) fun _ _ => True :=
      Ends.bind ((exact.insert s value settled).imp (fun _ _ told => told.2) fun _ _ _ => trivial) fun _ _ told => told
    refine Mirrors.bind ((mirrored.insert s value settled).bind fun _ _ _ => .pure _) fun _ middle ran => ?_
    exact ih (kept.returned ran)

variable [Allocator ω] (generous : Generous ω)
include generous

theorem run_views (action : SetAction α) (shared : action.Shared) (settled : Settled promise s) :
    Views Session.bare (access.run action) ((BareSet.access name same).run action) s := by
  cases action with
  | insert value => exact (mirrored.insert s value settled).views.bind fun _ _ _ => Views.pure rfl
  | tryInsert value =>
    refine (mirrored.tryInsert s value settled).bind fun answer _ _ => ?_
    cases answer with
    | ok placed => exact Views.pure rfl
    | error refused => exact Views.pure rfl
  | extend values => exact (extend_mirrors exact mirrored values settled).views.bind fun _ _ _ => Views.pure rfl
  | find value =>
    obtain ⟨found, asked, sought⟩ := exact.found settled value
    exact Views.asked asked (Views.asking sought (Views.pure rfl))
  | contains value =>
    obtain ⟨found, asked, sought⟩ := exact.found settled value
    exact Views.asked asked (Views.asking sought (Views.pure rfl))
  | get h => exact Views.get (Views.pure (congrArg Reply.element (s.store.get?_bare h)))
  | change h change => exact shared.elim
  | handleOf h =>
    refine Views.get ?_
    rw [store_bare, lend_bare]
    cases s.store.lend h with
    | none => exact Views.pure rfl
    | some loan => exact Views.get (Views.lift (s.store.handleOf_bare loan) fun _ _ => Views.pure rfl)
  | handleOfOther value => exact Views.get (Views.pure rfl)
  | remove h => exact (Update.edit_views (remove_views h s.store)).bind fun _ _ _ => Views.pure rfl
  | take value => exact (take_views exact value settled).bind fun _ _ _ => Views.pure rfl
  | takeAll values => exact (takeEach_views exact values settled).bind fun _ _ _ => Views.pure rfl
  | extract h change ending => exact extract_mirrored exact mirrored settled change ending
  | extractEqual value change ending =>
    obtain ⟨found, asked, sought⟩ := exact.found settled value
    refine Views.asked asked (Views.asking sought ?_)
    cases found with
    | none => exact Views.pure rfl
    | some h => exact extract_mirrored exact mirrored settled change ending
  | walk strides => exact shared.elim
  | list => exact shared.elim
  | isEmpty => exact Views.get (Views.pure rfl)
  | check => exact Views.asked (exact.check s settled) (Views.asking rfl (Views.pure rfl))
  | reorder => exact (Update.edit_views (reorder_views s.store)).bind fun _ _ _ => Views.pure rfl
  | clear =>
    refine Views.bind (Views.modifying ?_) fun _ _ _ => Views.pure rfl
    rw [store_bare, clear_bare]
    rfl
  | resize capacity => exact (resize_views generous capacity s).bind fun _ _ _ => Views.pure rfl
  | reserve additional => exact (reserve_views generous additional s).bind fun _ _ _ => Views.pure rfl

theorem run_mirrors (action : SetAction α) (shared : action.Shared) (settled : Settled promise s) :
    Mirrors rename (access.run action) ((BareSet.access name same).run action) s := by
  have seen := (run_views exact mirrored generous action shared settled).both (run_meets exact action shared.kept settled)
  cases action with
  | insert value => exact (mirrored.insert s value settled).bind fun _ _ _ => .pure _
  | extend values => exact (extend_mirrors exact mirrored values settled).bind fun _ _ _ => .pure _
  | change h change => exact shared.elim
  | _ => exact seen.imp (fun _ _ told => told.1) fun _ _ told => told.2.1.elim

theorem performAll_mirrors (actions : List (SetAction α)) (shared : ∀ action ∈ actions, action.Shared)
    (settled : Settled promise s) :
    Session.performAll (BareSet.access name same).run actions s.bare =
      ((Session.performAll access.run actions s).1.map (·.mapError rename),
        (Session.performAll access.run actions s).2.bare) :=
  Mirrors.performAll actions (fun action member _ settled =>
    ⟨run_mirrors exact mirrored generous action (shared action member) settled,
      perform_settles exact action (shared action member) settled⟩) settled

end Access
end Slotted
