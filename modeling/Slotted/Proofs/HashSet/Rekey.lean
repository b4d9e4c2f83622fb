import Slotted.Proofs.HashSet.Insert
namespace Slotted.HashSet

open Store Query

variable {α ω : Type} {blame : Fault → Prop} {rule : HashRule (HashSet α) ω α} {order : List Nat} {value : α} {r : PureHash α}
  {s : Session (HashSet α) ω} {i : Nat}

-- An equal element that is in already wins; otherwise the element is in again, under its old number.
def Reinserts (hash : UInt32) (accepted : α → Bool) (i : Nat) (value : α) (order : List Nat) (s after : HashSet α) :
    Handle × Bool → Prop
  | (h, false) => Found hash accepted s.pool (some h.index) ∧ Sound order after ∧ Pool.SameLive s.pool after.pool
  | (h, true) => Found hash accepted s.pool none ∧ h.index = i ∧ (after.pool.linkAt i).hash = hash ∧
      ∃ order', Adds id i value order order' s after

theorem reinsert_follows (follows : rule.Follows blame r) (loose : Loose i value order s.store)
    (lowered : s.gate.busy = false) :
    Ends (reinsert rule ⟨i⟩) s
      (fun placed after => Reinserts (r.hash value) (r.equal · value) i value order s.store after.store placed ∧
        after.gate.busy = false)
      fun fault after => blame fault ∧ after.store = s.store ∧ after.gate.busy = false := by
  have sound := loose.sound
  obtain ⟨found, finds, answers⟩ := findHashed_answers (ω := ω) sound (r.hash value) (r.equal · value)
  rw [reinsert, ends_bind, ends_get, loose.value_eq, ends_bind, ends_lift]
  refine (hashOf_follows follows value).asks_then lowered ((hashOf_answers value).lowered lowered) ?_ ?_
  · exact fun _ _ blamed same flag => ⟨blamed, same, flag⟩
  intro gate lowered
  refine (findHashed_follows fun stored => follows.equal stored value).asks_then lowered (answers.lowered lowered) ?_ ?_
  · exact fun _ _ blamed same flag => ⟨blamed, same, flag⟩
  intro gate lowered
  cases found with
  | some j =>
    have positive := finds.positive sound.tidy.idle
    obtain ⟨after, ran, sound', same⟩ := loose.drop_run
    dsimp only
    rw [ends_bind, Update.ends_edit]
    refine Ends.of_ok ran ?_
    rw [Handle.ofIndex_run positive, ends_bind, ends_lift]
    exact ⟨⟨finds, sound', same⟩, lowered⟩
  | none =>
    obtain ⟨q, ran, enlists, size⟩ := Pool.reattach_enlists loose.idle loose.stored loose.positive sound.tidy.fits
    have inside : ∀ j ∈ order, j < q.slots.size := by
      intro j member
      rw [size]
      exact (sound.linkable.inside j member).2
    dsimp only
    rw [ends_bind, Update.ends_edit]
    refine Ends.of_ok (onPool_ok ran) ?_
    rw [ends_bind, Update.ends_edit]
    refine (link_enlisted sound q enlists inside _).ends ?_
    intro _ after ends
    obtain ⟨adds, remembered⟩ := ends
    rw [Handle.ofIndex_run loose.positive, ends_bind, ends_lift]
    exact ⟨⟨finds, rfl, remembered, _, adds⟩, lowered⟩

theorem reinsert_ends (loose : Loose i value order s.store) :
    Ends (reinsert r.rule ⟨i⟩) s
      (fun placed after => Reinserts (r.hash value) (r.equal · value) i value order s.store after.store placed ∧
        after.gate.busy = s.gate.busy)
      s.Barred := by
  cases raised : s.gate.busy with
  | true =>
    rw [reinsert, ends_bind, ends_get, loose.value_eq, ends_bind, ends_lift, ends_bind]
    exact Ends.of_error (ask_raised _ raised) ⟨rfl, rfl, raised⟩
  | false =>
    have silent : (r.rule : HashRule (HashSet α) ω α).Follows (fun _ => False) r := r.rule_follows
    exact (reinsert_follows silent loose raised).faulting fun _ _ none => none.1.elim

-- The elements are as they were and linked as they were, whatever is remembered of them.
structure Worn (start s : HashSet α) : Prop where
  bodies : Pool.SameBodies (fun _ => ()) start.pool s.pool
  index : s.index = start.index

theorem Worn.refl (s : HashSet α) : Worn s s := ⟨.refl _, rfl⟩

structure Refreshed (r : PureHash α) (done : List Nat) (start s : HashSet α) : Prop extends Worn start s where
  fresh : ∀ j ∈ done, ∀ value, start.pool.get? j = some value → (s.pool.linkAt j).hash = r.hash value

variable {start : HashSet α} {done : List Nat}

theorem Worn.refreshed (worn : Worn start s.store) : Refreshed r [] start s.store :=
  ⟨worn, fun _ member => absurd member List.not_mem_nil⟩

theorem Refreshed.step (follows : rule.Follows blame r) (refreshed : Refreshed r done start s.store) (i : Nat) :
    Ends (refreshHash rule i) s
      (fun _ after => Refreshed r (done ++ [i]) start after.store ∧ after.gate.busy = s.gate.busy)
      fun fault after => blame fault ∧ Worn start after.store ∧ after.gate.busy = s.gate.busy := by
  have extended : ∀ (q : HashSet α), (∀ j, j ≠ i → q.pool.linkAt j = s.store.pool.linkAt j) →
      (∀ value, start.pool.get? i = some value → (q.pool.linkAt i).hash = r.hash value) →
      ∀ j ∈ done ++ [i], ∀ value, start.pool.get? j = some value → (q.pool.linkAt j).hash = r.hash value := by
    intro q others here j member value held
    by_cases same : j = i
    · subst same
      exact here value held
    · rw [others j same]
      refine refreshed.fresh j ?_ value held
      simpa [same] using member
  rw [refreshHash, ends_bind, ends_get]
  cases held : s.store.pool.get? i with
  | none =>
    refine ⟨⟨refreshed.toWorn, extended s.store (fun _ _ => rfl) ?_⟩, rfl⟩
    intro value there
    rw [← refreshed.bodies.get?, held] at there
    cases there
  | some value =>
    have inside := Pool.isActive_lt (Pool.isActive_of_get? held)
    refine Ends.bind (((follows.hash value).ends rfl).faulting ?_) ?_
    · intro fault after told
      rw [told.2.1]
      exact ⟨told.1, refreshed.toWorn, told.2.2⟩
    intro answer middle told
    obtain ⟨rfl, store, flag⟩ := told
    rw [Update.ends_edit, store]
    have same := Pool.SameBodies.relink (fun _ => ()) inside (f := fun link => { link with hash := r.hash value }) rfl
    refine Ends.of_ok (onLink_run inside _) ⟨⟨⟨refreshed.bodies.trans same, refreshed.index⟩, ?_⟩, flag⟩
    refine extended ⟨_, _⟩ ?_ ?_
    · intro j other
      rw [Pool.linkAt_relink inside, if_neg (Ne.symm other)]
    · intro value' there
      rw [← refreshed.bodies.get?, held] at there
      cases there
      rw [Pool.linkAt_relink inside, if_pos rfl]

theorem Refreshed.run (follows : rule.Follows blame r) (slots : List Nat) (refreshed : Refreshed r done start s.store) :
    Ends (slots.forM (refreshHash rule)) s
      (fun _ after => Refreshed r (done ++ slots) start after.store ∧ after.gate.busy = s.gate.busy)
      fun fault after => blame fault ∧ Worn start after.store ∧ after.gate.busy = s.gate.busy := by
  induction slots generalizing done s with
  | nil => exact Ends.of_ok rfl ⟨by rwa [List.append_nil], rfl⟩
  | cons i slots ih =>
    change Ends (refreshHash rule i >>= fun _ => slots.forM (refreshHash rule)) s _ _
    refine (refreshed.step follows i).bind ?_
    intro _ middle ends
    obtain ⟨stepped, flag⟩ := ends
    have rest := ih stepped
    rw [List.append_assoc, flag] at rest
    exact rest

structure Rehashes (r : PureHash α) (order : List Nat) (s after : HashSet α) : Prop where
  sound : Sound order after
  bodies : Pool.SameBodies (fun _ => ()) s.pool after.pool
  fresh : ∀ i value, after.pool.get? i = some value → (after.pool.linkAt i).hash = r.hash value

-- The chains are rebuilt from what is remembered by then, so that an earlier rehash which broke off does no harm.
theorem rehash_follows (follows : rule.Follows blame r) (sound : Sound order start) (worn : Worn start s.store) :
    Ends (rehash rule) s
      (fun _ after => Rehashes r order start after.store ∧ after.gate.busy = s.gate.busy)
      fun fault after => s.Barred fault after ∨
        blame fault ∧ Worn start after.store ∧ after.gate.busy = s.gate.busy := by
  obtain ⟨chains, linked⟩ := sound.threads
  rw [rehash, ends_bind, ends_get]
  have refreshing : Ends (Update.guarded ((List.range s.store.pool.slots.size).forM (refreshHash rule))) s
      (fun _ middle => Refreshed r (List.range s.store.pool.slots.size) start middle.store ∧
        middle.gate.busy = s.gate.busy)
      fun fault after => s.Barred fault after ∨
        blame fault ∧ Worn start after.store ∧ after.gate.busy = s.gate.busy := by
    refine Update.ends_guarded _ (fun raised => .inl ⟨rfl, rfl, raised⟩) fun lowered => ?_
    refine (worn.refreshed.run (s := ⟨s.store, { s.gate with busy := true }⟩) follows _).imp ?_ ?_
    · exact fun _ after ends => ⟨ends.1, lowered.symm⟩
    · exact fun fault after ends => .inr ⟨ends.1, ends.2.1, lowered.symm⟩
  refine Ends.bind refreshing ?_
  intro _ middle ends
  obtain ⟨refreshed, gate⟩ := ends
  have bodies := refreshed.bodies
  have width : middle.store.index.heads.size =
      Slotted.bucketCount middle.store.index.loadFactor middle.store.pool.capacity := by
    rw [refreshed.index, bodies.capacity]
    exact linked.width
  have tidy := bodies.tidy sound.tidy
  have enumerates := bodies.enumerates sound.enumerates
  rw [Update.ends_edit]
  refine (rebucket_returns width tidy enumerates).ends ?_
  intro _ after ends
  obtain ⟨rebuilt, threaded⟩ := ends
  refine ⟨⟨⟨rebuilt.tidy tidy, threaded, rebuilt.enumerates enumerates, ?_⟩,
    bodies.trans (rebuilt.keeping fun _ => rfl), ?_⟩, gate⟩
  · rw [rebuilt.count, bodies.count, sound.counted]
  · intro i value held
    rw [rebuilt.get?, bodies.get?] at held
    have inside := Pool.isActive_lt (Pool.isActive_of_get? held)
    rw [← worn.bodies.size] at inside
    rw [rebuilt.kept]
    exact refreshed.fresh i (List.mem_range.mpr inside) value held

theorem rehash_ends (sound : Sound order s.store) :
    Ends (rehash r.rule) s
      (fun _ after => Rehashes r order s.store after.store ∧ after.gate.busy = s.gate.busy)
      s.Barred := by
  have silent : (r.rule : HashRule (HashSet α) ω α).Follows (fun _ => False) r := r.rule_follows
  exact (rehash_follows silent sound (.refl s.store)).faulting fun _ _ told => told.resolve_right fun none => none.1

end Slotted.HashSet
