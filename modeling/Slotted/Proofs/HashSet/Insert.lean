import Slotted.Proofs.HashSet.Callers
import Slotted.Proofs.HashSet.Lookup
import Slotted.Proofs.Store.Addition
namespace Slotted.HashSet

open Store Query

variable {α ω : Type} {order : List Nat} {hash : UInt32} {accepted : α → Bool} {value : α}

theorem link_enlisted {s : HashSet α} {i : Nat} (sound : Sound order s) (p : Pool α ChainLink)
    (enlists : Pool.Enlists i value s.pool p) (bodies : ∀ j ∈ order, j < p.slots.size) (hash : UInt32) :
    Returns (linkHead i hash) ⟨p, s.index⟩ fun _ after =>
      Adds id i value order (i :: order) s after ∧ (after.pool.linkAt i).hash = hash := by
  have inside := Pool.isActive_lt (Pool.isActive_of_get? enlists.here)
  have others : ∀ j ∈ order, j ≠ i := by
    intro j member same
    subst same
    have live := (sound.enumerates.mem j).mp member
    rw [enlists.fresh] at live
    cases live
  have threaded : Threaded order p s.index :=
    LawfulIndex.frame sound.threads (fun j member => enlists.linkAt j (others j member)) enlists.capacity
  have wide : 0 < s.index.heads.size :=
    threaded.wide (Nat.lt_of_lt_of_le (Nat.lt_of_le_of_lt (Nat.zero_le _) inside) enlists.fits)
  refine (linkHead_returns (s := ⟨p, s.index⟩) threaded wide (fun member => others i member rfl) enlists.positive inside
    bodies hash).returning ?_
  intro _ after linked
  exact ⟨sound.enlist enlists linked.bodies linked.others (.refl _) linked.threaded, linked.hash⟩

theorem linkNew_returns {s : HashSet α} (sound : Sound order s) (allocated : 0 < s.pool.slots.size)
    (room : s.pool.isFull = false) (hash : UInt32) (value : α) :
    Returns (linkNew hash value) s fun i after => 0 < i ∧ ∃ order', Adds id i value order order' s after ∧
      (after.pool.linkAt i).hash = hash := by
  obtain ⟨q, ran, enlists⟩ := Pool.push_enlists default allocated room value
  rw [linkNew, Returns, ends_bind]
  refine Ends.of_ok (onPool_ok ran) ?_
  have inside : ∀ j ∈ order, j < q.slots.size := by
    intro j member
    have old := (sound.linkable.inside j member).2
    have new := Pool.isActive_lt (Pool.isActive_of_get? enlists.here)
    omega
  refine (link_enlisted sound q enlists inside hash).bind ?_
  intro _ after ends
  obtain ⟨adds, remembered⟩ := ends
  exact ⟨enlists.positive, _, adds, remembered⟩

-- What an insertion answers and leaves behind: the element that was there, the new one, or no room for it.
def Inserts (hash : UInt32) (accepted : α → Bool) (value : α) (order : List Nat) (s after : HashSet α) :
    Except CapacityError (Handle × Bool) → Prop
  | .ok (h, false) => after = s ∧ Found hash accepted s.pool (some h.index)
  | .ok (h, true) => Found hash accepted s.pool none ∧ (after.pool.linkAt h.index).hash = hash ∧
      ∃ ρ order', Adds ρ h.index value order order' s after
  | .error error => Found hash accepted s.pool none ∧ after = s ∧ NoRoom s error

theorem Inserts.held {s after : HashSet α} {placed : Handle × Bool}
    (inserts : Inserts hash accepted value order s after (.ok placed)) : ∃ stored, after.get? placed.1 = some stored := by
  obtain ⟨h, fresh⟩ := placed
  cases fresh with
  | false =>
    obtain ⟨same, stored, held, _⟩ := inserts
    exact ⟨stored, same ▸ held⟩
  | true =>
    obtain ⟨_, _, ρ, order', adds⟩ := inserts
    exact ⟨value, adds.here⟩

theorem linkNew_inserts {s middle : HashSet α} {ρ : Nat → Nat} (missing : Found hash accepted s.pool none)
    (carries : Carries ρ order s middle) (allocated : 0 < middle.pool.slots.size) (room : middle.pool.isFull = false)
    (gate : Gate ω) (value : α) :
    Returns (Update.edit (linkNew hash value)) ⟨middle, gate⟩ fun i after =>
      ∃ positive : 0 < i, Inserts hash accepted value order s after.store (.ok (⟨i, positive⟩, true)) ∧
        after.gate = gate := by
  rw [Returns, Update.ends_edit]
  refine (linkNew_returns carries.sound allocated room hash value).ends ?_
  intro i after ends
  obtain ⟨positive, order', adds, remembered⟩ := ends
  exact ⟨positive, ⟨missing, remembered, ρ, order', adds.carried carries⟩, rfl⟩

variable [Allocator ω] {blame : Fault → Prop} {rule : HashRule (HashSet α) ω α} {r : PureHash α}
  {s : Session (HashSet α) ω}

-- The callers' code is asked before anything is done, so its faults cost nothing.
theorem tryInsert_follows (follows : rule.Follows blame r) (sound : Sound order s.store) (lowered : s.gate.busy = false)
    (value : α) :
    Ends (tryInsert rule value) s
      (fun answer after => Inserts (r.hash value) (r.equal · value) value order s.store after.store
          (answer.mapError Rejected.error) ∧ (∀ refused, answer = .error refused → refused.value = value) ∧
          after.gate.busy = false)
      fun fault after => blame fault ∧ after.store = s.store ∧ after.gate.busy = false := by
  obtain ⟨found, finds, answers⟩ := findHashed_answers (ω := ω) sound (r.hash value) (r.equal · value)
  rw [tryInsert]
  refine (hashOf_follows follows value).asks_then lowered ((hashOf_answers value).lowered lowered) ?_ ?_
  · exact fun _ _ blamed same flag => ⟨blamed, same, flag⟩
  intro gate lowered
  refine (findHashed_follows fun stored => follows.equal stored value).asks_then lowered (answers.lowered lowered) ?_ ?_
  · exact fun _ _ blamed same flag => ⟨blamed, same, flag⟩
  intro gate lowered
  cases found with
  | some i =>
    have positive := finds.positive sound.tidy.idle
    dsimp only
    rw [Handle.ofIndex_run positive, ends_bind, ends_lift]
    exact ⟨⟨rfl, finds⟩, fun _ told => (by cases told), lowered⟩
  | none =>
    dsimp only
    refine (makeRoom_returns (s := ⟨s.store, gate⟩) sound).bind ?_
    intro answer middle ends
    obtain ⟨made, flag⟩ := ends
    cases answer with
    | error error =>
      obtain ⟨same, full⟩ := made
      refine ⟨⟨finds, same, full⟩, ?_, flag.trans lowered⟩
      intro _ ends
      cases ends
      rfl
    | ok renumbered =>
      obtain ⟨room, allocated, ρ, carries, _⟩ := made
      dsimp only
      refine (linkNew_inserts finds carries allocated room _ value).bind ?_
      intro i after ends
      obtain ⟨positive, inserts, gate'⟩ := ends
      rw [Handle.ofIndex_run positive, ends_bind, ends_lift]
      exact ⟨inserts, fun _ told => (by cases told), gate'.symm ▸ flag.trans lowered⟩

theorem tryInsert_ends (sound : Sound order s.store) (value : α) :
    Ends (tryInsert r.rule value) s
      (fun answer after => Inserts (r.hash value) (r.equal · value) value order s.store after.store
          (answer.mapError Rejected.error) ∧ (∀ refused, answer = .error refused → refused.value = value) ∧
          after.gate.busy = s.gate.busy)
      s.Barred := by
  cases raised : s.gate.busy with
  | true =>
    rw [tryInsert, ends_bind]
    exact Ends.of_error (ask_raised _ raised) ⟨rfl, rfl, raised⟩
  | false =>
    have silent : (r.rule : HashRule (HashSet α) ω α).Follows (fun _ => False) r := r.rule_follows
    exact (tryInsert_follows silent sound raised value).faulting fun _ _ none => none.1.elim

theorem insert_ends (sound : Sound order s.store) (value : α) :
    Ends (insert r.rule value) s
      (fun placed after => Inserts (r.hash value) (r.equal · value) value order s.store after.store (.ok placed) ∧
        after.gate.busy = s.gate.busy)
      fun fault after => s.Barred fault after ∨ ∃ error, fault = .growth .hashSet .insert error ∧
        Inserts (r.hash value) (r.equal · value) value order s.store after.store (.error error) ∧
          after.gate.busy = s.gate.busy := by
  rw [insert]
  refine Ends.bind ((tryInsert_ends sound value).faulting fun _ _ => .inl) ?_
  intro answer after ends
  obtain ⟨inserts, _, gate⟩ := ends
  cases answer with
  | ok placed => exact ⟨inserts, gate⟩
  | error refused => exact .inr ⟨_, rfl, inserts, gate⟩

-- An insertion that faults changes nothing, whether the callers' code is to blame or memory was refused.
theorem insert_follows (follows : rule.Follows blame r) (sound : Sound order s.store) (lowered : s.gate.busy = false)
    (value : α) :
    Ends (insert rule value) s
      (fun placed after => Inserts (r.hash value) (r.equal · value) value order s.store after.store (.ok placed) ∧
        after.gate.busy = false)
      fun fault after => (blame fault ∨ ∃ error, fault = .growth .hashSet .insert error) ∧ after.store = s.store ∧
        after.gate.busy = false := by
  rw [insert]
  refine Ends.bind ((tryInsert_follows follows sound lowered value).faulting fun _ _ told => ⟨.inl told.1, told.2⟩) ?_
  intro answer after ends
  obtain ⟨inserts, _, flag⟩ := ends
  cases answer with
  | ok placed => exact ⟨inserts, flag⟩
  | error refused => exact ⟨.inr ⟨_, rfl⟩, inserts.2.1, flag⟩

-- The builder is run once there is room, and what it builds is hashed once more. A fault from there on leaves the
-- elements, though perhaps under new numbers.
theorem insertWith_follows {accepts : α → Query (HashSet α) ω Bool} {make : Query (HashSet α) ω α}
    (follows : rule.Follows blame r) (accepting : ∀ stored, (accepts stored).Follows blame (pure (accepted stored)))
    (careful : make.Careful blame) (sound : Sound order s.store) (lowered : s.gate.busy = false) (hash : UInt32) :
    Ends (insertWith rule hash accepts make) s
      (fun placed after => (∃ value, (placed.2 = true → r.hash value = hash) ∧
        Inserts hash accepted value order s.store after.store (.ok placed)) ∧ after.gate.busy = false)
      fun fault after => (blame fault ∨ (∃ error, fault = .growth .hashSet .insertWith error) ∨
          ∃ value store gate left, make store gate = .ok value left ∧ r.hash value ≠ hash ∧
            fault = .disagreement .builtHash (r.hash value).toNat hash.toNat) ∧
        (∃ ρ, Carries ρ order s.store after.store) ∧ after.gate.busy = false := by
  have stay : ∃ ρ, Carries ρ order s.store s.store := ⟨id, .stay sound⟩
  obtain ⟨found, finds, answers⟩ := findHashed_answers (ω := ω) sound hash accepted
  rw [insertWith]
  refine (findHashed_follows accepting).asks_then lowered (answers.lowered lowered) ?_ ?_
  · exact fun _ _ blamed same flag => ⟨.inl blamed, same ▸ stay, flag⟩
  intro gate lowered
  cases found with
  | some i =>
    have positive := finds.positive sound.tidy.idle
    obtain ⟨value, _⟩ := id finds
    dsimp only
    rw [Handle.ofIndex_run positive, ends_bind, ends_lift]
    exact ⟨⟨value, fun fresh => (by cases fresh), rfl, finds⟩, lowered⟩
  | none =>
    dsimp only
    refine (makeRoom_returns (s := ⟨s.store, gate⟩) sound).bind ?_
    intro answer middle ends
    obtain ⟨made, flag⟩ := ends
    have lowered := flag.trans lowered
    cases answer with
    | error error =>
      rw [MadeRoom] at made
      exact ⟨.inr (.inl ⟨error, rfl⟩), made.1.symm ▸ stay, lowered⟩
    | ok renumbered =>
      obtain ⟨room, allocated, ρ, carries, _⟩ := made
      dsimp only
      refine Ends.bind (((careful.calm _).asks lowered).known.faulting ?_) ?_
      · exact fun _ after told => ⟨.inl told.1, ⟨ρ, told.2.1.symm ▸ carries⟩, told.2.2⟩
      intro value built told
      obtain ⟨ran, same, lowered⟩ := told
      refine (hashOf_follows follows value).asks_then lowered ((hashOf_answers value).lowered lowered) ?_ ?_
      · exact fun _ _ blamed still flag => ⟨.inl blamed, ⟨ρ, (still.trans same).symm ▸ carries⟩, flag⟩
      intro gate' lowered
      rw [same]
      split
      · rename_i own
        refine (linkNew_inserts finds carries allocated room gate' value).bind ?_
        intro i after told
        obtain ⟨positive, inserts, still⟩ := told
        rw [Handle.ofIndex_run positive, ends_bind, ends_lift]
        exact ⟨⟨value, fun _ => own, inserts⟩, still.symm ▸ lowered⟩
      · rename_i other
        exact ⟨.inr (.inr ⟨value, middle.store, middle.gate, built.gate, (Session.ran_of_ask ran).1, other, rfl⟩), ⟨ρ, carries⟩, lowered⟩

-- A caller who knows the hash of what is built, and whose builder leaves the flag as it finds it.
theorem insertWith_builds (sound : Sound order s.store) (lowered : s.gate.busy = false) (accepted : α → Bool)
    {make : Query (HashSet α) ω α} (steady : ∀ store gate, Always (make store) gate (·.busy = gate.busy))
    (own : ∀ store gate value after, make store gate = .ok value after → r.hash value = hash) :
    let builds := Builds make .hashSet order (fun h => Found hash accepted s.store.pool (some h.index))
      (Found hash accepted s.store.pool none)
      (fun value after h => Inserts hash accepted value order s.store after (.ok (h, true))) s
    Ends (insertWith r.rule hash (fun stored => pure (accepted stored)) make) s
      (fun placed after => builds after (.ok placed)) fun fault after => builds after (.error fault) := by
  intro builds
  obtain ⟨found, finds, answers⟩ := findHashed_answers (ω := ω) sound hash accepted
  rw [insertWith]
  refine answers.bind_ends (fun _ _ barred => absurd barred (Session.not_barred lowered)) ?_
  cases found with
  | some i =>
    have positive := finds.positive sound.tidy.idle
    dsimp only
    rw [Handle.ofIndex_run positive, ends_bind, ends_lift]
    exact .found finds rfl
  | none =>
    dsimp only
    refine Returns.bind (makeRoom_returns sound).known ?_
    intro answer middle ends
    obtain ⟨roomy, made, gate⟩ := ends
    cases answer with
    | error error =>
      obtain ⟨same, full⟩ := made
      exact .refused finds roomy same full
    | ok renumbered =>
      obtain ⟨room, allocated, ρ, carries, _⟩ := made
      dsimp only
      rw [ends_bind, Update.ends_ask]
      cases ran : make middle.store middle.gate with
      | error fault world => exact Ends.of_error ran (.failed finds roomy ran carries)
      | ok value world =>
        have flag : world.busy = false := ((steady _ _).returned ran).trans (gate.trans lowered)
        refine Ends.of_ok ran ?_
        refine (hashOf_answers value).bind_ends (fun _ _ barred => absurd barred (Session.not_barred flag)) ?_
        rw [if_pos (own _ _ _ _ ran)]
        refine (linkNew_inserts finds carries allocated room _ value).bind ?_
        intro i after ends
        obtain ⟨positive, inserts, still⟩ := ends
        rw [Handle.ofIndex_run positive, ends_bind, ends_lift]
        exact .built finds roomy (still ▸ ran) inserts

theorem insertWith_ends (sound : Sound order s.store) (lowered : s.gate.busy = false) (accepted : α → Bool)
    (own : r.hash value = hash) :
    Ends (insertWith r.rule hash (fun stored => pure (accepted stored)) (pure value)) s
      (fun placed after => Inserts hash accepted value order s.store after.store (.ok placed) ∧ after.gate.busy = false)
      fun fault after => ∃ error, fault = .growth .hashSet .insertWith error ∧
        Inserts hash accepted value order s.store after.store (.error error) ∧ after.gate.busy = false := by
  have steady : ∀ store gate, Always ((pure value : Query (HashSet α) ω α) store) gate (·.busy = gate.busy) :=
    fun _ _ => Ends.of_ok rfl rfl
  have mine : ∀ (store : HashSet α) (gate : Gate ω) built after,
      (pure value : Query (HashSet α) ω α) store gate = .ok built after → r.hash built = hash := by
    intro store gate built after ran
    cases ran
    exact own
  refine (insertWith_builds sound lowered accepted steady mine).imp ?_ ?_
  · intro placed after builds
    refine ⟨?_, (builds.keeps_flag sound steady).trans lowered⟩
    cases builds with
    | found finds same => exact ⟨by rw [same], finds⟩
    | built _ _ ran inserts =>
      injection ran with same
      exact same ▸ inserts
  · intro fault after builds
    have flag := (builds.keeps_flag sound steady).trans lowered
    cases builds with
    | failed _ _ ran _ => cases ran
    | refused missing _ same full => exact ⟨_, rfl, ⟨missing, same, full⟩, flag⟩

-- With a search and a builder that may do anything, there is still at most one element more, linked under its hash.
theorem insertWith_settles (sound : Sound order s.store) (hash : UInt32) (accepts : α → Query (HashSet α) ω Bool)
    (make : Query (HashSet α) ω α) :
    Ends (insertWith r.rule hash accepts make) s
      (fun _ after => after.store = s.store ∨ ∃ ρ i value order', Adds ρ i value order order' s.store after.store ∧
        (after.store.pool.linkAt i).hash = r.hash value)
      fun _ after => ∃ ρ, Carries ρ order s.store after.store := by
  have stay : ∃ ρ, Carries ρ order s.store s.store := ⟨id, .stay sound⟩
  rw [insertWith]
  refine Update.ask_then (fun _ _ same => same ▸ stay) ?_
  intro found first _ same
  cases found with
  | some i =>
    dsimp only
    unfold Handle.ofIndex
    split
    · exact .inl same
    · exact same ▸ stay
  | none =>
    dsimp only
    rw [← same] at sound stay ⊢
    refine (makeRoom_returns sound).bind ?_
    intro answer middle ends
    obtain ⟨made, _⟩ := ends
    cases answer with
    | error error =>
      rw [MadeRoom] at made
      exact ⟨id, made.1.symm ▸ .stay sound⟩
    | ok renumbered =>
      obtain ⟨room, allocated, ρ, carries, _⟩ := made
      dsimp only
      refine Update.ask_then (fun _ _ same => ⟨ρ, same ▸ carries⟩) ?_
      intro value second _ same
      rw [← same] at room allocated carries
      refine (hashOf_answers value).bind_ends (fun _ _ barred => ⟨ρ, barred.2.1 ▸ carries⟩) ?_
      split
      · rename_i own
        have linked : Returns (Update.edit (linkNew hash value)) second fun i after => 0 < i ∧
            ∃ order', Adds ρ i value order order' first.store after.store ∧
              (after.store.pool.linkAt i).hash = r.hash value := by
          rw [Returns, Update.ends_edit]
          refine (linkNew_returns carries.sound allocated room hash value).ends ?_
          intro i after ends
          obtain ⟨positive, order', adds, remembered⟩ := ends
          exact ⟨positive, order', adds.carried carries, remembered.trans own.symm⟩
        refine linked.bind ?_
        intro i after ends
        obtain ⟨positive, order', adds, remembered⟩ := ends
        rw [Handle.ofIndex_run positive, ends_bind, ends_lift]
        exact .inr ⟨ρ, i, value, order', adds, remembered⟩
      · exact ⟨ρ, carries⟩

end Slotted.HashSet
