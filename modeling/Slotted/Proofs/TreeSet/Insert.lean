import Slotted.Proofs.TreeSet.Attach
import Slotted.Proofs.TreeSet.Lookup
import Slotted.Proofs.Store.Addition
namespace Slotted.TreeSet

open Store Query

variable {α ω : Type} {t : Tree} {path : List Crumb} {f : α → Ordering} {value : α} {memory : Nat} {ρ : Nat → Nat}

theorem attach_adds {s : TreeSet α} {i : Nat} (sound : Sound (plug path .nil) s) (p : Pool α TreeLink)
    (enlists : Pool.Enlists i value s.pool p) (size : s.pool.slots.size ≤ p.slots.size) :
    Returns (attach i (above path) (turn path)) ⟨p, s.index⟩ fun _ after =>
      ∃ t', Adds id i value (plug path .nil) t' s after ∧ t'.slots = (plug path (.node .nil i .nil)).slots := by
  have others : ∀ j ∈ (plug path .nil).slots, j ≠ i := by
    intro j member same
    subst same
    have live := (sound.enumerates.mem j).mp member
    rw [enlists.fresh] at live
    cases live
  have rooted : Rooted (plug path .nil) p s.index :=
    sound.threads.frame fun j member => enlists.linkAt j (others j member)
  have planted : Planted (plug path .nil) ⟨p, s.index⟩ := by
    refine ⟨rooted.root, rooted.hangs, sound.enumerates.nodup, fun j member => ?_⟩
    exact Nat.lt_of_lt_of_le (sound.linkable.inside j member).2 size
  have some : i ≠ 0 := Nat.ne_of_gt enlists.positive
  have inside := Pool.isActive_lt (Pool.isActive_of_get? enlists.here)
  refine (attach_returns planted rooted.weighs (fun member => others i member rfl) some inside).returning ?_
  intro _ after ends
  obtain ⟨t', planted', weighs, slots, bodies⟩ := ends
  have perm : t'.slots.Perm (i :: (plug path .nil).slots) := by
    have leaf : (plug path (.node .nil i .nil)).slots.Perm (i :: held path) := slots_plug
    have bare : (plug path .nil).slots.Perm (held path) := slots_plug
    rw [slots]
    exact leaf.trans (bare.symm.cons i)
  exact ⟨t', sound.enlist enlists bodies (fun _ _ => rfl) perm ⟨planted'.root, planted'.hangs, weighs⟩, slots⟩

theorem linkNew_adds {s : TreeSet α} (sound : Sound (plug path .nil) s) (allocated : 0 < s.pool.slots.size)
    (room : s.pool.isFull = false) (value : α) :
    Returns (linkNew value (above path) (turn path)) s fun i after =>
      0 < i ∧ ∃ t', Adds id i value (plug path .nil) t' s after ∧ t'.slots = (plug path (.node .nil i .nil)).slots := by
  obtain ⟨q, ran, enlists⟩ := Pool.push_enlists default allocated room value
  have inside := Pool.isActive_lt (Pool.isActive_of_get? enlists.here)
  rw [linkNew, Returns, ends_bind]
  refine Ends.of_ok (onPool_ok ran) ?_
  refine (attach_adds sound q enlists (Nat.le_of_lt inside)).bind ?_
  intro _ after added
  exact ⟨enlists.positive, added⟩

-- The element is new, and stands where the answers about the others lead.
structure Lands (f : α → Ordering) (ρ : Nat → Nat) (i : Nat) (value : α) (t t' : Tree) (s after : TreeSet α) : Prop where
  adds : Adds ρ i value t t' s after
  leaf : ∃ path, t.map ρ = plug path .nil ∧ Steered (shown f after.pool) path ∧
    t'.slots = (plug path (.node .nil i .nil)).slots

theorem lands_of_adds {s after : TreeSet α} {i : Nat} {t' : Tree} (steered : Steered (shown f s.pool) path)
    (adds : Adds id i value (plug path .nil) t' s after) (slots : t'.slots = (plug path (.node .nil i .nil)).slots) :
    Lands f id i value (plug path .nil) t' s after := by
  refine ⟨adds, path, Tree.map_id _, steered.congr fun j member => ?_, slots⟩
  have held : after.pool.get? j = s.pool.get? j := adds.held j (mem_plug.mpr (.inr member))
  rw [shown, shown, held]

theorem Lands.carried {s middle after : TreeSet α} {i : Nat} {t' : Tree} (carries : Carries ρ t s middle)
    (lands : Lands f id i value (t.map ρ) t' middle after) : Lands f ρ i value t t' s after := by
  obtain ⟨path, shape, steered, slots⟩ := lands.leaf
  refine ⟨lands.adds.carried carries, path, ?_, steered, slots⟩
  rwa [Tree.map_id] at shape

theorem Lands.splits {s after : TreeSet α} {i : Nat} {t' : Tree} (sound : Sound t s) (lands : Lands f ρ i value t t' s after)
    (rising : Rising f (t.slots.filterMap s.pool.get?)) :
    ∃ lower upper, t.slots.filterMap s.pool.get? = lower ++ upper ∧
      t'.slots.filterMap after.pool.get? = lower ++ value :: upper ∧ (∀ a ∈ lower, f a = .lt) ∧ ∀ a ∈ upper, f a = .gt := by
  obtain ⟨path, shape, steered, slots⟩ := lands.leaf
  have renumbered : (t.map ρ).slots.filterMap after.pool.get? = t.slots.filterMap s.pool.get? := by
    rw [Tree.slots_map, List.filterMap_map]
    exact List.filterMap_congr lands.adds.held
  have climbing : Climbing (shown f after.pool) (plug path .nil).slots := by
    rw [← shape, Tree.slots_map]
    refine List.pairwise_map.mpr ((rising.climbing sound).imp_of_mem ?_)
    intro j k left right rises
    rw [shown, shown, lands.adds.held j left, lands.adds.held k right]
    exact rises
  obtain ⟨lower, upper⟩ := steered.splits climbing
  refine ⟨(beyond .left path).reverse.filterMap after.pool.get?, (beyond .right path).filterMap after.pool.get?, ?_, ?_, ?_, ?_⟩
  · rw [← renumbered, shape, slots_plug_eq]
    simp [Tree.slots]
  · rw [slots, slots_plug_eq]
    simp [Tree.slots, lands.adds.here]
  · intro a member
    obtain ⟨j, inner, held⟩ := List.mem_filterMap.mp member
    rw [← shown_of_get? (f := f) held]
    exact lower j (List.mem_reverse.mp inner)
  · intro a member
    obtain ⟨j, inner, held⟩ := List.mem_filterMap.mp member
    rw [← shown_of_get? (f := f) held]
    exact upper j inner

-- The place found first still holds if nothing was renumbered, and is found again if something was.
theorem placeAgain_answers {s middle : TreeSet α} {renumbered : Bool}
    (missing : sought f t s.pool = .vacant (above path) (turn path)) (shape : t = plug path .nil)
    (steered : Steered (shown f s.pool) path) (carries : Carries ρ t s middle)
    (kept : renumbered = false → ρ = id) :
    ∃ path', t.map ρ = plug path' .nil ∧ Steered (shown f middle.pool) path' ∧
      (placeAgain (ω := ω) ⟨fun value => pure (f value), memory⟩ renumbered (above path) (turn path)).Answers middle
        (above path', turn path') := by
  cases renumbered with
  | true =>
    obtain ⟨path', shape', steered', again⟩ := sought_again missing carries
    have answers : (locate (ω := ω) ⟨fun value => pure (f value), memory⟩).Answers middle (sought f (t.map ρ) middle.pool) :=
      locate_answers carries.sound f memory
    refine ⟨path', shape', steered', answers.bind ?_⟩
    rw [again]
    exact .of_run fun _ => rfl
  | false =>
    have none := kept rfl
    subst none
    refine ⟨path, ?_, steered.congr fun j member => ?_, .of_run fun _ => rfl⟩
    · rw [Tree.map_id, shape]
    · have held : middle.pool.get? j = s.pool.get? j := carries.relabels.held j (shape ▸ mem_plug.mpr (.inr member))
      rw [shown, shown, held]

-- What an insertion answers and leaves behind: the element that was there, the new one, or no room for it.
def Inserts (f : α → Ordering) (value : α) (t : Tree) (s after : TreeSet α) : Except CapacityError (Handle × Bool) → Prop
  | .ok (h, false) => after = s ∧ ∃ stored, s.get? h = some stored ∧ f stored = .eq
  | .ok (h, true) => Misses f t s.pool ∧ ∃ ρ t', Lands f ρ h.index value t t' s after
  | .error error => Misses f t s.pool ∧ after = s ∧ NoRoom s error

theorem Inserts.held {s after : TreeSet α} {placed : Handle × Bool} (inserts : Inserts f value t s after (.ok placed)) :
    ∃ stored, after.get? placed.1 = some stored := by
  obtain ⟨h, fresh⟩ := placed
  cases fresh with
  | false =>
    obtain ⟨same, stored, held, _⟩ := inserts
    exact ⟨stored, same ▸ held⟩
  | true =>
    obtain ⟨_, ρ, t', lands⟩ := inserts
    exact ⟨value, lands.adds.here⟩

theorem linkNew_inserts {s middle : TreeSet α} (missing : Misses f t s.pool) (carries : Carries ρ t s middle)
    (allocated : 0 < middle.pool.slots.size) (room : middle.pool.isFull = false) (shape : t.map ρ = plug path .nil)
    (steered : Steered (shown f middle.pool) path) (gate : Gate ω) (value : α) :
    Returns (Update.edit (linkNew value (above path) (turn path))) ⟨middle, gate⟩ fun i after =>
      ∃ positive : 0 < i, Inserts f value t s after.store (.ok (⟨i, positive⟩, true)) ∧ after.gate = gate := by
  have sound : Sound (plug path .nil) middle := shape ▸ carries.sound
  rw [Returns, Update.ends_edit]
  refine (linkNew_adds sound allocated room value).ends ?_
  intro i after ends
  obtain ⟨positive, t', adds, slots⟩ := ends
  have lands := lands_of_adds steered adds slots
  rw [← shape] at lands
  exact ⟨positive, ⟨missing, ρ, t', lands.carried carries⟩, rfl⟩

variable [Allocator ω] {blame : Fault → Prop} {rule : OrderRule (TreeSet α) ω α} {probe : Probe (TreeSet α) ω α}
  {r : PureOrder α} {s : Session (TreeSet α) ω}

-- The second look at the tree may fault when the first did not, but then the slots are renumbered at most.
theorem tryInsert_follows (follows : rule.Follows blame r) (sound : Sound t s.store) (lowered : s.gate.busy = false)
    (value : α) :
    Ends (tryInsert rule value) s
      (fun answer after => Inserts (r.compare · value) value t s.store after.store (answer.mapError Rejected.error) ∧
        (∀ refused, answer = .error refused → refused.value = value) ∧ after.gate.busy = false)
      fun fault after => blame fault ∧ (∃ ρ, Carries ρ t s.store after.store) ∧ after.gate.busy = false := by
  rw [tryInsert]
  refine locate_follows_then (follows.probe value) sound lowered ?_ ?_ ?_
  · exact fun _ _ blamed same flag => ⟨blamed, ⟨id, same.symm ▸ .stay sound⟩, flag⟩
  · intro gate lowered i positive found
    dsimp only
    rw [Handle.ofIndex_run positive, ends_bind, ends_lift]
    exact ⟨⟨rfl, found⟩, fun _ told => (by cases told), lowered⟩
  · intro gate lowered path shape steered ends
    refine (makeRoom_returns (s := ⟨s.store, gate⟩) sound).bind ?_
    intro answer middle given
    obtain ⟨made, flag⟩ := given
    have lowered := flag.trans lowered
    cases answer with
    | error error =>
      obtain ⟨same, full⟩ := made
      refine ⟨⟨⟨path, shape, steered⟩, same, full⟩, ?_, lowered⟩
      intro _ given
      cases given
      rfl
    | ok renumbered =>
      obtain ⟨room, allocated, ρ, carries, kept⟩ := made
      obtain ⟨path', shape', steered', answers⟩ := placeAgain_answers (ω := ω) ends shape steered carries kept
      dsimp only
      refine (placeAgain_follows (follows.probe value) _ _ _).asks_then lowered (answers.lowered lowered) ?_ ?_
      · exact fun _ _ blamed same flag => ⟨blamed, ⟨ρ, same.symm ▸ carries⟩, flag⟩
      intro gate lowered
      refine (linkNew_inserts ⟨path, shape, steered⟩ carries allocated room shape' steered' _ value).bind ?_
      intro i after given
      obtain ⟨positive, inserts, gate'⟩ := given
      rw [Handle.ofIndex_run positive, ends_bind, ends_lift]
      exact ⟨inserts, fun _ told => (by cases told), gate'.symm ▸ lowered⟩

theorem tryInsert_ends (sound : Sound t s.store) (value : α) :
    Ends (tryInsert r.rule value) s
      (fun answer after => Inserts (r.compare · value) value t s.store after.store (answer.mapError Rejected.error) ∧
        (∀ refused, answer = .error refused → refused.value = value) ∧ after.gate.busy = s.gate.busy)
      s.Barred := by
  cases raised : s.gate.busy with
  | true =>
    rw [tryInsert, ends_bind]
    exact Ends.of_error (ask_raised _ raised) ⟨rfl, rfl, raised⟩
  | false =>
    have silent : (r.rule : OrderRule (TreeSet α) ω α).Follows (fun _ => False) r := r.rule_follows
    exact (tryInsert_follows silent sound raised value).faulting fun _ _ none => none.1.elim

theorem insert_follows (follows : rule.Follows blame r) (sound : Sound t s.store) (lowered : s.gate.busy = false)
    (value : α) :
    Ends (insert rule value) s
      (fun placed after => Inserts (r.compare · value) value t s.store after.store (.ok placed) ∧ after.gate.busy = false)
      fun fault after => (blame fault ∨ ∃ error, fault = .growth .treeSet .insert error) ∧
        (∃ ρ, Carries ρ t s.store after.store) ∧ after.gate.busy = false := by
  rw [insert]
  refine Ends.bind ((tryInsert_follows follows sound lowered value).faulting fun _ _ told => ⟨.inl told.1, told.2⟩) ?_
  intro answer after told
  obtain ⟨inserts, _, flag⟩ := told
  cases answer with
  | ok placed => exact ⟨inserts, flag⟩
  | error refused => exact ⟨.inr ⟨_, rfl⟩, ⟨id, inserts.2.1.symm ▸ .stay sound⟩, flag⟩

theorem insert_ends (sound : Sound t s.store) (value : α) :
    Ends (insert r.rule value) s
      (fun placed after => Inserts (r.compare · value) value t s.store after.store (.ok placed) ∧
        after.gate.busy = s.gate.busy)
      fun fault after => s.Barred fault after ∨ ∃ error, fault = .growth .treeSet .insert error ∧
        Inserts (r.compare · value) value t s.store after.store (.error error) ∧ after.gate.busy = s.gate.busy := by
  rw [insert]
  refine Ends.bind ((tryInsert_ends sound value).faulting fun _ _ => .inl) ?_
  intro answer after told
  obtain ⟨inserts, _, gate⟩ := told
  cases answer with
  | ok placed => exact ⟨inserts, gate⟩
  | error refused => exact .inr ⟨_, rfl, inserts, gate⟩

-- With a probe and a builder that may fault there is at most one element more, and a fault costs none.
theorem insertWith_follows {make : Query (TreeSet α) ω α} (follows : probe.Follows blame f) (careful : make.Careful blame)
    (sound : Sound t s.store) (lowered : s.gate.busy = false) :
    Ends (insertWith probe make) s
      (fun placed after => (∃ value, Inserts f value t s.store after.store (.ok placed)) ∧ after.gate.busy = false)
      fun fault after => (blame fault ∨ ∃ error, fault = .growth .treeSet .insertWith error) ∧
        (∃ ρ, Carries ρ t s.store after.store) ∧ after.gate.busy = false := by
  rw [insertWith]
  refine locate_follows_then follows sound lowered ?_ ?_ ?_
  · exact fun _ _ blamed same flag => ⟨.inl blamed, ⟨id, same.symm ▸ .stay sound⟩, flag⟩
  · intro gate lowered i positive found
    dsimp only
    rw [Handle.ofIndex_run positive, ends_bind, ends_lift]
    obtain ⟨stored, held⟩ := found
    exact ⟨⟨stored, rfl, stored, held⟩, lowered⟩
  · intro gate lowered path shape steered ends
    refine (makeRoom_returns (s := ⟨s.store, gate⟩) sound).bind ?_
    intro answer middle given
    obtain ⟨made, flag⟩ := given
    have lowered := flag.trans lowered
    cases answer with
    | error error => exact ⟨.inr ⟨error, rfl⟩, ⟨id, made.1.symm ▸ .stay sound⟩, lowered⟩
    | ok renumbered =>
      obtain ⟨room, allocated, ρ, carries, kept⟩ := made
      obtain ⟨path', shape', steered', answers⟩ := placeAgain_answers (ω := ω) ends shape steered carries kept
      dsimp only
      refine (placeAgain_follows follows _ _ _).asks_then lowered (answers.lowered lowered) ?_ ?_
      · exact fun _ _ blamed same flag => ⟨.inl blamed, ⟨ρ, same.symm ▸ carries⟩, flag⟩
      intro gate lowered
      refine Ends.bind (((careful.calm _).asks lowered).faulting ?_) ?_
      · exact fun _ after told => ⟨.inl told.1, ⟨ρ, told.2.1.symm ▸ carries⟩, told.2.2⟩
      intro value built told
      obtain ⟨store, gate'⟩ := built
      obtain ⟨same, lowered⟩ := told
      dsimp only at same
      rw [same]
      refine (linkNew_inserts ⟨path, shape, steered⟩ carries allocated room shape' steered' gate' value).bind ?_
      intro i after given
      obtain ⟨positive, inserts, still⟩ := given
      rw [Handle.ofIndex_run positive, ends_bind, ends_lift]
      exact ⟨⟨value, inserts⟩, still.symm ▸ lowered⟩

theorem insertWith_builds (sound : Sound t s.store) (f : α → Ordering) (memory : Nat) (make : Query (TreeSet α) ω α) :
    let builds := Builds make .treeSet t (fun h => ∃ stored, s.store.get? h = some stored ∧ f stored = .eq)
      (Misses f t s.store.pool) (fun value after h => Inserts f value t s.store after (.ok (h, true))) s
    Ends (insertWith ⟨fun stored => pure (f stored), memory⟩ make) s (fun placed after => builds after (.ok placed))
      fun fault after => s.Barred fault after ∨ builds after (.error fault) := by
  intro builds
  rw [insertWith]
  refine locate_then sound f memory (fun _ _ barred => .inl barred) ?_ ?_
  · intro i positive found
    dsimp only
    rw [Handle.ofIndex_run positive, ends_bind, ends_lift]
    exact .found found rfl
  · intro path shape steered ends lowered
    have missing : Misses f t s.store.pool := ⟨path, shape, steered⟩
    refine Returns.bind (makeRoom_returns sound).known ?_
    intro answer middle told
    obtain ⟨roomy, made, gate⟩ := told
    cases answer with
    | error error =>
      obtain ⟨same, full⟩ := made
      exact .inr (.refused missing roomy same full)
    | ok renumbered =>
      obtain ⟨room, allocated, ρ, carries, kept⟩ := made
      obtain ⟨path', shape', steered', answers⟩ := placeAgain_answers (ω := ω) ends shape steered carries kept
      dsimp only
      refine answers.bind_ends (fun _ _ barred => absurd barred (Session.not_barred (gate.trans lowered))) ?_
      rw [ends_bind, Update.ends_ask]
      cases ran : make middle.store middle.gate with
      | error fault world => exact Ends.of_error ran (.inr (.failed missing roomy ran carries))
      | ok value world =>
        refine Ends.of_ok ran ?_
        refine (linkNew_inserts missing carries allocated room shape' steered' _ value).bind ?_
        intro i after told
        obtain ⟨positive, inserts, still⟩ := told
        rw [Handle.ofIndex_run positive, ends_bind, ends_lift]
        exact .built missing roomy (still ▸ ran) inserts

-- There is at most one element more, and it stands where the probe led.
theorem insertWith_settles (sound : Sound t s.store) (f : α → Ordering) (memory : Nat) (make : Query (TreeSet α) ω α) :
    Ends (insertWith ⟨fun value => pure (f value), memory⟩ make) s
      (fun placed after => ∃ value, Inserts f value t s.store after.store (.ok placed))
      fun _ after => ∃ ρ, Carries ρ t s.store after.store := by
  have stay : ∀ {after : Session (TreeSet α) ω}, after.store = s.store → ∃ ρ, Carries ρ t s.store after.store :=
    fun same => ⟨id, same.symm ▸ .stay sound⟩
  refine (insertWith_builds sound f memory make).imp ?_ ?_
  · intro placed after builds
    cases builds with
    | found held same =>
      obtain ⟨stored, held, equal⟩ := held
      exact ⟨stored, by rw [same], stored, held, equal⟩
    | built _ _ _ inserts => exact ⟨_, inserts⟩
  · intro fault after ends
    rcases ends with barred | builds
    · exact stay (congrArg _ barred.2.1)
    · cases builds with
      | failed _ _ _ carries => exact ⟨_, carries⟩
      | refused _ _ same _ => exact stay same

theorem insertWith_ends (sound : Sound t s.store) (lowered : s.gate.busy = false) (f : α → Ordering) (memory : Nat)
    (value : α) :
    Ends (insertWith ⟨fun value => pure (f value), memory⟩ (pure value)) s
      (fun placed after => Inserts f value t s.store after.store (.ok placed) ∧ after.gate.busy = false)
      fun fault after => ∃ error, fault = .growth .treeSet .insertWith error ∧
        Inserts f value t s.store after.store (.error error) ∧ after.gate.busy = false := by
  have steady : ∀ store gate, Always ((pure value : Query (TreeSet α) ω α) store) gate (·.busy = gate.busy) :=
    fun _ _ => Ends.of_ok rfl rfl
  refine (insertWith_builds sound f memory (pure value)).imp ?_ ?_
  · intro placed after builds
    refine ⟨?_, (builds.keeps_flag sound steady).trans lowered⟩
    cases builds with
    | found held same => exact ⟨by rw [same], held⟩
    | built _ _ ran inserts =>
      injection ran with same
      exact same ▸ inserts
  · intro fault after ends
    have builds := ends.resolve_left (Session.not_barred lowered)
    have flag := (builds.keeps_flag sound steady).trans lowered
    cases builds with
    | failed _ _ ran _ => cases ran
    | refused missing _ same full => exact ⟨_, rfl, ⟨missing, same, full⟩, flag⟩

omit [Allocator ω]

-- An equal element that is in already wins; otherwise the element is in again, under its old number.
def Reinserts (f : α → Ordering) (i : Nat) (value : α) (t : Tree) (s after : TreeSet α) : Handle × Bool → Prop
  | (h, false) => (∃ stored, s.get? h = some stored ∧ f stored = .eq) ∧ Sound t after ∧ Pool.SameLive s.pool after.pool
  | (h, true) => Misses f t s.pool ∧ h.index = i ∧ ∃ t', Lands f id i value t t' s after

theorem reinsert_follows {i : Nat} (follows : rule.Follows blame r) (loose : Loose i value t s.store)
    (lowered : s.gate.busy = false) :
    Ends (reinsert rule ⟨i⟩) s
      (fun placed after => Reinserts (r.compare · value) i value t s.store after.store placed ∧ after.gate.busy = false)
      fun fault after => blame fault ∧ after.store = s.store ∧ after.gate.busy = false := by
  have sound := loose.sound
  rw [reinsert, ends_bind, ends_get, loose.value_eq, ends_bind, ends_lift]
  refine locate_follows_then (follows.probe value) sound lowered ?_ ?_ ?_
  · exact fun _ _ blamed same flag => ⟨blamed, same, flag⟩
  · intro gate lowered j positive found
    obtain ⟨after, ran, sound', same⟩ := loose.drop_run
    dsimp only
    rw [ends_bind, Update.ends_edit]
    refine Ends.of_ok ran ?_
    rw [Handle.ofIndex_run positive, ends_bind, ends_lift]
    exact ⟨⟨found, sound', same⟩, lowered⟩
  · intro gate lowered path shape steered _
    obtain ⟨q, ran, enlists, size⟩ := Pool.reattach_enlists loose.idle loose.stored loose.positive sound.tidy.fits
    subst shape
    dsimp only
    rw [ends_bind, Update.ends_edit]
    refine Ends.of_ok (onPool_ok ran) ?_
    rw [ends_bind, Update.ends_edit]
    refine (attach_adds sound q enlists (Nat.le_of_eq size.symm)).ends ?_
    intro _ after added
    obtain ⟨t', adds, slots⟩ := added
    rw [Handle.ofIndex_run loose.positive, ends_bind, ends_lift]
    exact ⟨⟨⟨path, rfl, steered⟩, rfl, t', lands_of_adds steered adds slots⟩, lowered⟩

theorem reinsert_ends {i : Nat} (loose : Loose i value t s.store) :
    Ends (reinsert r.rule ⟨i⟩) s
      (fun placed after => Reinserts (r.compare · value) i value t s.store after.store placed ∧
        after.gate.busy = s.gate.busy)
      s.Barred := by
  cases raised : s.gate.busy with
  | true =>
    rw [reinsert, ends_bind, ends_get, loose.value_eq, ends_bind, ends_lift, ends_bind]
    exact Ends.of_error (ask_raised _ raised) ⟨rfl, rfl, raised⟩
  | false =>
    have silent : (r.rule : OrderRule (TreeSet α) ω α).Follows (fun _ => False) r := r.rule_follows
    exact (reinsert_follows silent loose raised).faulting fun _ _ none => none.1.elim

end Slotted.TreeSet
