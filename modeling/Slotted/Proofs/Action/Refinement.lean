import Slotted.Proofs.Action.Meaning
namespace Slotted

open Store LawfulIndex

variable {ι α μ ω : Type} [Inhabited μ] [Index ι μ] [lawful : LawfulIndex ι μ]

namespace Store

-- Nobody is looking, and the promise about the elements holds.
structure Settled (promise : List (α × lawful.Memory) → Prop) (s : Session (Store ι α μ) ω) : Prop where
  proper : ∃ t, Proper promise t s.store
  lowered : s.gate.busy = false

end Store

namespace Access

variable {promise : List (α × lawful.Memory) → Prop} {same : α → α → Prop} {ordered : List α → Prop}
  {container : Container} {access : Access ι α μ ω} {t : lawful.Shape} {s : Session (Store ι α μ) ω}

-- What an index and a rule must bring so that the actions mean what they should.
structure Exact (promise : List (α × lawful.Memory) → Prop) (same : α → α → Prop) (ordered : List α → Prop)
    (container : Container) (access : Access ι α μ ω) : Prop where
  inherited : Inherited promise
  alike : Equivalence same
  distinct : ∀ bodies, promise bodies → (bodies.map (·.1)).Pairwise fun a b => ¬ same a b
  find : ∀ s value, Settled promise s → ∃ found, FoundIn same value s.store found ∧
    Update.ask (access.find value) s = .ok found s
  insert : ∀ s value, Settled promise s → Ends (access.insert value) s
    (fun placed after => Placed same value s.store after.store placed.1 placed.2 ∧ Settled promise after)
    fun fault after => ∃ error, fault = .growth container .insert error ∧ Refused same value s.store after.store error ∧
      Settled promise after
  tryInsert : ∀ s value, Settled promise s → Returns (access.tryInsert value) s fun answer after =>
    (match answer with
      | .ok placed => Placed same value s.store after.store placed.1 placed.2
      | .error refused => Refused same value s.store after.store refused.error) ∧ Settled promise after
  reinsert : ∀ t i value s, Loose i value t s.store → promise (bodies t s.store) → s.gate.busy = false →
    Returns (access.reinsert ⟨i⟩) s fun placed after =>
      Placed same value s.store after.store placed.1 placed.2 ∧ Settled promise after
  walk : ∀ s strides, Settled promise s → ∃ listing, Lists ordered s.store listing ∧
    access.walk strides s = .ok (consume strides listing) s
  list : ∀ s, Settled promise s → ∃ listing, Lists ordered s.store listing ∧
    Update.ask access.list s = .ok (listing.map (·.2)) s
  check : ∀ s, Settled promise s → Update.ask access.check s = .ok (.ok ()) s

theorem extract_absent {h : Handle} (settled : Settled promise s) (absent : s.store.get? h = none) (change : α → α)
    (ending : Ending) :
    (do access.settle change ending (← Update.edit (Store.extract h)) : Update (Store ι α μ) ω (Reply α)) s =
      .ok (.element none) s := by
  obtain ⟨t, proper⟩ := settled.proper
  have ran : Update.edit (Store.extract h) s = .ok none s := by
    rw [Update.edit, extract_none absent proper.sound]
  rw [bind_ok ran]
  rfl

theorem isEmpty_iff (settled : Settled promise s) : s.store.isEmpty = true ↔ s.store.pool.contents = 0 := by
  obtain ⟨t, proper⟩ := settled.proper
  rw [Store.isEmpty, Store.len, decide_eq_true_iff, ← proper.sound.card_eq, Multiset.card_eq_zero]

theorem carried {ρ : Nat → Nat} {after : Session (Store ι α μ) ω} (proper : Proper promise t s.store)
    (carries : Carries ρ t s.store after.store) (lowered : after.gate.busy = false) :
    after.store.pool.contents = s.store.pool.contents ∧ Settled promise after :=
  ⟨carries.contents_eq proper.sound, ⟨_, proper.carries carries⟩, lowered⟩

theorem takeEach_counts {β γ : Type} {take : β → Update (Store ι α μ) ω (Option γ)} {fits : α → β → Prop}
    (takes : ∀ s value, Settled promise s → Returns (take value) s fun answer after =>
      (∃ taken : Multiset α, s.store.pool.contents = taken + after.store.pool.contents ∧
        taken.card = (if answer.isSome then 1 else 0) ∧ ∀ stored ∈ taken, fits stored value) ∧
      (∀ stored ∈ after.store.pool.contents, ¬ fits stored value) ∧ Settled promise after)
    (values : List β) (settled : Settled promise s) :
    Returns (takeEach take values) s fun n after =>
      (∃ taken : Multiset α, s.store.pool.contents = taken + after.store.pool.contents ∧ n = taken.card ∧
        (∀ stored ∈ taken, ∃ value ∈ values, fits stored value) ∧
        ∀ value ∈ values, ∀ stored ∈ after.store.pool.contents, ¬ fits stored value) ∧ Settled promise after := by
  induction values generalizing s with
  | nil => exact ⟨⟨0, (zero_add _).symm, rfl, by simp, by simp⟩, settled⟩
  | cons value values ih =>
    rw [takeEach]
    refine (takes s value settled).bind ?_
    intro first middle ends
    obtain ⟨⟨one, contents, counted, fit⟩, gone, settled'⟩ := ends
    refine (ih settled').bind ?_
    intro n after ends
    obtain ⟨⟨taken, contents', counted', fits', gone'⟩, settled''⟩ := ends
    rw [ends_pure]
    refine ⟨⟨one + taken, ?_, ?_, ?_, ?_⟩, settled''⟩
    · rw [contents, contents', add_assoc]
    · rw [Multiset.card_add, counted, counted']
    · intro stored member
      cases Multiset.mem_add.mp member with
      | inl now => exact ⟨value, List.mem_cons_self, fit stored now⟩
      | inr later =>
        obtain ⟨wanted, member, fitting⟩ := fits' stored later
        exact ⟨wanted, List.mem_cons_of_mem _ member, fitting⟩
    · intro wanted member stored held
      cases List.mem_cons.mp member with
      | inl now =>
        subst now
        apply gone
        rw [contents']
        exact Multiset.mem_add.mpr (.inr held)
      | inr later => exact gone' wanted later stored held

section Exact

variable (exact : access.Exact promise same ordered container)
include exact

theorem alone {value stored : α} {rest : Multiset α} (settled : Settled promise s)
    (held : s.store.pool.contents = stored ::ₘ rest) (alike : same stored value) : ∀ other ∈ rest, ¬ same other value := by
  obtain ⟨t, proper⟩ := settled.proper
  have apart := exact.distinct _ proper.body
  intro other member
  obtain ⟨others, rfl⟩ := Multiset.exists_cons_of_mem member
  induction others using Quotient.inductionOn with | _ others =>
  rw [proper.sound.contents_bodies] at held
  have perm : ((bodies t s.store).map (·.1)).Perm (stored :: other :: others) := Multiset.coe_eq_coe.mp held
  have both := (perm.pairwise_iff fun differ same => differ (exact.alike.symm same)).mp apart
  have differ := (List.pairwise_cons.mp both).1 other List.mem_cons_self
  exact fun alike' => differ (exact.alike.trans alike (exact.alike.symm alike'))

theorem settle_parts {i : Nat} {rest : lawful.Shape} {left : Store ι α μ} (proper : Proper promise t s.store)
    (lowered : s.gate.busy = false) (parts : Parts i t rest s.store left) : Settled promise ⟨left, s.gate⟩ :=
  ⟨⟨rest, proper.parts exact.inherited parts⟩, lowered⟩

theorem remove_meets {h : Handle} {value : α} (settled : Settled promise s) (held : s.store.get? h = some value) :
    Returns (Update.edit (Store.remove h)) s fun answer after => answer = some value ∧
      s.store.pool.contents = value ::ₘ after.store.pool.contents ∧ after.store.get? h = none ∧ Settled promise after := by
  obtain ⟨t, proper⟩ := settled.proper
  rw [Returns, Update.ends_edit]
  refine (remove_returns proper.sound held).ends ?_
  intro answer after ends
  obtain ⟨told, rest, parts⟩ := ends
  exact ⟨told, parts.contents_eq proper.sound held, parts.gone proper.sound, settle_parts exact proper settled.lowered parts⟩

theorem take_meets (value : α) (settled : Settled promise s) :
    Returns (Store.take (access.find value)) s fun answer after =>
      (match answer with
        | none => Missing same value s.store ∧ after.store = s.store
        | some stored => same stored value ∧ s.store.pool.contents = stored ::ₘ after.store.pool.contents) ∧
      Missing same value after.store ∧ Settled promise after := by
  obtain ⟨found, finds, asked⟩ := exact.find s value settled
  rw [Store.take, Returns, ends_bind]
  refine Ends.of_ok asked ?_
  cases found with
  | none => exact ⟨⟨finds, rfl⟩, finds, settled⟩
  | some h =>
    obtain ⟨stored, alike, held⟩ := finds
    refine (remove_meets exact settled held).returning ?_
    intro _ after ends
    obtain ⟨rfl, contents, _, settled'⟩ := ends
    exact ⟨⟨alike, contents⟩, alone exact settled contents alike, settled'⟩

theorem takeEach_meets (values : List α) (settled : Settled promise s) :
    Returns (takeEach (fun value => Store.take (access.find value)) values) s fun n after =>
      (∃ taken : Multiset α, s.store.pool.contents = taken + after.store.pool.contents ∧ n = taken.card ∧
        (∀ stored ∈ taken, ∃ value ∈ values, same stored value) ∧ ∀ value ∈ values, Missing same value after.store) ∧
      Settled promise after := by
  refine takeEach_counts ?_ values settled
  intro s value settled
  refine (take_meets exact value settled).returning ?_
  intro answer after ends
  obtain ⟨took, missing, settled'⟩ := ends
  refine ⟨?_, missing, settled'⟩
  cases answer with
  | none => exact ⟨0, by rw [took.2, zero_add], rfl, by simp⟩
  | some stored => exact ⟨{stored}, by rw [took.2, Multiset.singleton_add], rfl, by simpa using took.1⟩

-- The list goes on from whatever the first value left; a refusal names the value that found no room.
theorem extend_meets (values : List α) (settled : Settled promise s) :
    Ends (values.forM fun value => do let _ ← access.insert value) s
      (fun _ after => Gathers same values s.store.pool.contents after.store.pool.contents ∧ Settled promise after)
      fun fault after => ∃ error, fault = .growth container .insert error ∧ Settled promise after ∧ ∃ taken value left,
        values = taken ++ value :: left ∧ Gathers same taken s.store.pool.contents after.store.pool.contents ∧
          Refused same value after.store after.store error := by
  induction values generalizing s with
  | nil => exact Ends.of_ok rfl ⟨.nil, settled⟩
  | cons value values ih =>
    have adds : ∀ {h : Handle} {fresh : Bool} {middle : Session (Store ι α μ) ω} {listed : List α} {result : Multiset α},
        Placed same value s.store middle.store h fresh → Settled promise middle →
        Gathers same listed middle.store.pool.contents result →
        Gathers same (value :: listed) s.store.pool.contents result := by
      intro h fresh middle listed result placed settled' gathers
      rcases fresh with _ | _
      · obtain ⟨contents, stored, alike, held⟩ := placed
        rw [contents] at gathers
        refine .known ?_ alike gathers
        rw [← contents]
        exact Pool.mem_contents.mpr ⟨_, held⟩
      · obtain ⟨missing, contents, _⟩ := placed
        rw [contents] at gathers
        exact .fresh missing gathers
    change Ends ((do let _ ← access.insert value) >>= fun _ => values.forM fun value => do
      let _ ← access.insert value) s _ _
    rw [ends_bind, ends_bind]
    refine (exact.insert s value settled).imp ?_ ?_
    · intro answer middle ends
      obtain ⟨h, fresh⟩ := answer
      obtain ⟨placed, settled'⟩ := ends
      rw [ends_pure]
      refine (ih settled').imp ?_ ?_
      · intro _ after ends
        obtain ⟨gathers, settled''⟩ := ends
        exact ⟨adds placed settled' gathers, settled''⟩
      · intro fault after ends
        obtain ⟨error, told, settled'', taken, refused, left, rfl, gathers, full⟩ := ends
        exact ⟨error, told, settled'', value :: taken, refused, left, rfl, adds placed settled' gathers, full⟩
    · intro fault after ends
      obtain ⟨error, told, refused, settled'⟩ := ends
      obtain ⟨missing, stay, full⟩ := refused
      refine ⟨error, told, settled', [], value, values, rfl, ?_, ?_, rfl, ?_⟩
      · rw [stay]
        exact .nil
      · rwa [stay]
      · rwa [stay]

theorem finish_meets {i : Nat} {value : α} (loose : Loose i value t s.store) (body : promise (bodies t s.store))
    (lowered : s.gate.busy = false) (ending : Ending) :
    Returns (access.finish ⟨i⟩ ending) s fun got after =>
      Finished same value s.store.pool.contents after.store ending got ∧ Settled promise after := by
  -- whatever becomes of the slot, the elements of the container stay
  have stay : ∀ {after : Store ι α μ}, Sound t after → Pool.SameLive s.store.pool after.pool →
      after.pool.contents = s.store.pool.contents ∧ Settled promise ⟨after, s.gate⟩ := by
    intro after sound still
    have proper : Proper promise t after := Proper.same_live ⟨loose.sound, body⟩ sound still
    exact ⟨congrArg (fun entries => (entries.map (·.2) : Multiset α)) still.entries_eq, ⟨t, proper⟩, lowered⟩
  cases ending with
  | reinsert =>
    rw [finish]
    refine (exact.reinsert t i value s loose body lowered).bind ?_
    intro answer after told
    obtain ⟨h, fresh⟩ := answer
    obtain ⟨placed, settled⟩ := told
    cases fresh
    · exact ⟨placed, settled⟩
    · exact ⟨placed, settled⟩
  | release =>
    obtain ⟨after, ran, sound, still⟩ := loose.release_run
    obtain ⟨contents, settled⟩ := stay sound still
    rw [finish, Returns, ends_bind, Update.ends_edit]
    exact Ends.of_ok ran ⟨⟨rfl, contents⟩, settled⟩
  | drop =>
    obtain ⟨after, ran, sound, still⟩ := loose.drop_run
    obtain ⟨contents, settled⟩ := stay sound still
    rw [finish, Returns, ends_bind, Update.ends_edit]
    exact Ends.of_ok ran ⟨contents, settled⟩
  | peek =>
    obtain ⟨after, ran, sound, still⟩ := loose.drop_run
    obtain ⟨contents, settled⟩ := stay sound still
    rw [finish, Returns, ends_bind, ends_get, loose.value_eq, ends_bind, ends_lift, ends_bind, Update.ends_edit]
    exact Ends.of_ok ran ⟨⟨rfl, contents⟩, settled⟩

-- The element leaves first; what it is changed into then ends as an element of no container.
theorem extract_meets {h : Handle} {value : α} (settled : Settled promise s) (held : s.store.get? h = some value)
    (change : α → α) (ending : Ending) :
    Returns (do access.settle change ending (← Update.edit (Store.extract h))) s fun reply after =>
      (∃ got rest, reply = .ended value got ∧ s.store.pool.contents = value ::ₘ rest ∧
        Finished same (change value) rest after.store ending got) ∧ Settled promise after := by
  obtain ⟨t, proper⟩ := settled.proper
  rw [Returns, ends_bind, Update.ends_edit]
  refine (extract_returns proper.sound held).ends ?_
  intro _ out ends
  obtain ⟨rfl, rest, parts, loose⟩ := ends
  obtain ⟨changed, ran, loose', still⟩ := loose.modify_run change
  have left : Proper promise rest changed := (proper.parts exact.inherited parts).same_live loose'.sound still
  have contents : s.store.pool.contents = value ::ₘ changed.pool.contents := by
    rw [parts.contents_eq proper.sound held]
    exact congrArg (fun entries => value ::ₘ (entries.map (·.2) : Multiset α)) still.entries_eq.symm
  rw [settle, ends_bind, ends_get, loose.value_eq, ends_bind, ends_lift, ends_bind, Update.ends_edit]
  refine Ends.of_ok ran ?_
  refine (finish_meets (s := ⟨changed, s.gate⟩) exact loose' left.body settled.lowered ending).bind ?_
  intro got after ends
  obtain ⟨finished, settled'⟩ := ends
  exact ⟨⟨got, _, rfl, contents, finished⟩, settled'⟩

theorem run_meets [Allocator ω] (action : SetAction α) (kept : ∀ h change, action ≠ .change h change)
    (settled : Settled promise s) :
    Ends (access.run action) s
      (fun reply after => Meets same ordered container s.store after.store action (.ok reply) ∧ Settled promise after)
      fun fault after => Meets same ordered container s.store after.store action (.error fault) ∧
        Settled promise after := by
  obtain ⟨t, proper⟩ := id settled.proper
  cases action with
  | insert value =>
    refine Ends.bind ((exact.insert s value settled).faulting ?_) ?_
    · intro _ after ends
      obtain ⟨error, rfl, refused, settled'⟩ := ends
      exact ⟨⟨rfl, refused⟩, settled'⟩
    · intro outcome after ends
      obtain ⟨h, fresh⟩ := outcome
      obtain ⟨placed, settled'⟩ := ends
      exact ⟨placed, settled'⟩
  | tryInsert value =>
    refine (exact.tryInsert s value settled).bind ?_
    intro outcome after ends
    obtain ⟨told, settled'⟩ := ends
    rcases outcome with refused | ⟨h, fresh⟩
    · exact ⟨told, settled'⟩
    · exact ⟨told, settled'⟩
  | extend values =>
    refine Ends.bind ((extend_meets exact values settled).faulting ?_) fun _ _ told => told
    intro _ after ends
    obtain ⟨error, rfl, settled', taken⟩ := ends
    exact ⟨⟨rfl, taken⟩, settled'⟩
  | find value =>
    obtain ⟨found, finds, asked⟩ := exact.find s value settled
    rw [run, ends_bind]
    exact Ends.of_ok asked ⟨⟨rfl, finds⟩, settled⟩
  | contains value =>
    obtain ⟨found, finds, asked⟩ := exact.find s value settled
    rw [run, ends_bind]
    exact Ends.of_ok asked ⟨⟨rfl, finds.isSome_iff⟩, settled⟩
  | get h => exact ⟨⟨rfl, rfl⟩, settled⟩
  | change h change => exact absurd rfl (kept h change)
  | handleOf h =>
    rw [run, ends_bind, ends_get]
    unfold lend
    cases held : s.store.get? h with
    | none => exact ⟨⟨rfl, by rw [held]; rfl⟩, settled⟩
    | some value =>
      dsimp only [Option.map_some]
      rw [ends_bind, ends_get, handleOf_lent held, ends_bind, ends_lift]
      exact ⟨⟨rfl, by rw [held]; rfl⟩, settled⟩
  | handleOfOther value => exact ⟨⟨rfl, rfl⟩, settled⟩
  | remove h =>
    rw [run]
    cases held : s.store.get? h with
    | none =>
      have ran : Update.edit (Store.remove h) s = .ok none s := by
        rw [Update.edit, remove_none held proper.sound]
      rw [ends_bind]
      exact Ends.of_ok ran ⟨⟨held, rfl⟩, settled⟩
    | some value =>
      refine (remove_meets exact settled held).bind ?_
      intro _ after ends
      obtain ⟨rfl, contents, gone, settled'⟩ := ends
      exact ⟨⟨held, contents, gone⟩, settled'⟩
  | take value =>
    refine (take_meets exact value settled).bind ?_
    intro outcome after ends
    obtain ⟨took, missing, settled'⟩ := ends
    rcases outcome with _ | stored
    · exact ⟨took, settled'⟩
    · exact ⟨⟨took.1, took.2, missing⟩, settled'⟩
  | takeAll values => exact (takeEach_meets exact values settled).bind fun _ _ told => told
  | extract h change ending =>
    rw [run]
    cases held : s.store.get? h with
    | none => exact Ends.of_ok (extract_absent settled held change ending) ⟨⟨held, rfl⟩, settled⟩
    | some value =>
      refine (extract_meets exact settled held change ending).ends ?_
      intro _ after ends
      obtain ⟨⟨got, rest, rfl, contents, finished⟩, settled'⟩ := ends
      exact ⟨⟨held, rest, contents, finished⟩, settled'⟩
  | extractEqual value change ending =>
    obtain ⟨found, finds, asked⟩ := exact.find s value settled
    rw [run, ends_bind]
    refine Ends.of_ok asked ?_
    cases found with
    | none => exact ⟨⟨finds, rfl⟩, settled⟩
    | some h =>
      obtain ⟨stored, alike, held⟩ := finds
      refine (extract_meets exact settled held change ending).ends ?_
      intro _ after ends
      obtain ⟨⟨got, rest, rfl, contents, finished⟩, settled'⟩ := ends
      exact ⟨⟨alike, rest, contents, finished⟩, settled'⟩
  | walk strides =>
    obtain ⟨listing, lists, ran⟩ := exact.walk s strides settled
    rw [run, ends_bind]
    exact Ends.of_ok ran ⟨⟨rfl, listing, lists, rfl⟩, settled⟩
  | list =>
    obtain ⟨listing, lists, asked⟩ := exact.list s settled
    rw [run, ends_bind]
    exact Ends.of_ok asked ⟨⟨rfl, listing, lists, rfl⟩, settled⟩
  | isEmpty => exact ⟨⟨rfl, isEmpty_iff settled⟩, settled⟩
  | check =>
    rw [run, ends_bind]
    exact Ends.of_ok (exact.check s settled) ⟨⟨rfl, rfl⟩, settled⟩
  | reorder =>
    refine (reorder_edit proper.sound).bind ?_
    intro _ after ends
    obtain ⟨⟨ρ, carries⟩, _, _, gate⟩ := ends
    exact carried proper carries (gate ▸ settled.lowered)
  | clear =>
    obtain ⟨bare, none, sound⟩ := proper.sound.clear
    refine ⟨?_, ⟨bare, proper.bare exact.inherited none sound⟩, settled.lowered⟩
    change s.store.clear.pool.contents = 0
    rw [sound.contents_eq, none]
    rfl
  | resize capacity =>
    refine (resize_returns proper.sound capacity).bind ?_
    intro answer after ends
    obtain ⟨⟨ρ, carries⟩, _, gate⟩ := ends
    exact carried proper carries (gate ▸ settled.lowered)
  | reserve additional =>
    refine (reserve_returns proper.sound additional).bind ?_
    intro answer after ends
    obtain ⟨⟨ρ, carries⟩, gate⟩ := ends
    exact carried proper carries (gate ▸ settled.lowered)

end Exact
end Access
end Slotted
