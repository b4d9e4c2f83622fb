import Slotted.Proofs.Action.Standing
import Slotted.Action.Hash
namespace Slotted

variable {α ω : Type}

def HashSet.Compacts [Allocator ω] (rule : HashRule (HashSet α) ω α) (s : Session (HashSet α) ω) : HashSetAction α ω → Prop
  | .common action => (HashSet.access rule).Compacts s action
  | .insertWith hash accepts _ => Squeezes (HashSet.findBy hash accepts) s
  | _ => False

def HashSet.Takes [Allocator ω] (rule : HashRule (HashSet α) ω α) (s : Session (HashSet α) ω) (h : Handle) :
    HashSetAction α ω → Prop
  | .common action => (HashSet.access rule).Takes s h action
  | _ => False

def HashSetAction.Alters (h : Handle) (f : α → α) : HashSetAction α ω → Prop
  | .common action => action.Alters h f
  | .walkChanging new _ => ∃ n, f = (new h.index)^[n]
  | _ => f = id

namespace HashSet

open Store Pool Query

variable {s : Session (HashSet α) ω} (rule : HashRule (HashSet α) ω α)

theorem finds_none {hash : UInt32} {accepts : α → Query (HashSet α) ω Bool} (finds : s.Finds (findHashed hash accepts) none) :
    s.Finds (findBy hash accepts) none := by
  obtain ⟨gate, ran⟩ := finds
  refine ⟨gate, ?_⟩
  rw [findBy, bind_run, ran]
  rfl

theorem linkedNew_stands {γ : Type} (bounded : s.store.pool.Bounded) (hash : UInt32) (value : α) (answer : Handle → γ) :
    Always (do return answer (← Handle.ofIndex (← Update.edit (linkNew hash value))) : Update (HashSet α) ω γ) s
      fun after => Stands False still s.store.pool after.store.pool :=
  added_stands (fun i => linkHead_relinks i hash) bounded value default answer

theorem reinsert_stands (d : Detached) (bounded : s.store.pool.Bounded) :
    Ends (reinsert rule d) s
      (fun placed after => Stands False (sparing d.slot) s.store.pool after.store.pool ∧
        (placed.2 = false → after.store.pool.isActive d.slot = false))
      fun _ after => Stands False (sparing d.slot) s.store.pool after.store.pool := by
  have still : ∀ {p q : Pool α ChainLink}, Stands False still p q → Stands False (sparing d.slot) p q :=
    fun stands => stands.imp id fun _ _ _ => .inr
  rw [reinsert, ends_bind, ends_get]
  cases s.store.detachedValue d with
  | error fault => exact Spares.unchanged bounded
  | ok value =>
    rw [ends_bind, ends_lift]
    refine Ends.bind (Ends.faulting (ask_stands _ bounded (hashOf rule value)) fun _ _ => still) ?_
    intro hash first hashed
    have sought := ask_stands False hashed.bounded (findHashed hash (rule.equal · value))
    refine Ends.bind (Ends.imp sought (fun _ _ later => hashed.after_still later) fun _ _ later =>
      still (hashed.after_still later)) ?_
    intro found second stands
    have onward : ∀ {after : Session (HashSet α) ω}, Stands False (sparing d.slot) second.store.pool after.store.pool →
        Stands False (sparing d.slot) s.store.pool after.store.pool := fun later => stands.after_still later
    cases found with
    | some i =>
      refine (dropped_stands stands.bounded d i).imp ?_ ?_
      · exact fun _ _ told => ⟨onward told.1, told.2⟩
      · exact fun _ _ => onward
    | none =>
      refine (reattached_stands (linkHead_relinks d.slot hash) stands.bounded d).imp ?_ ?_
      · exact fun _ _ told => ⟨onward told.1, told.2⟩
      · exact fun _ _ => onward

theorem refreshHash_stands (i : Nat) (bounded : s.store.pool.Bounded) :
    Always (refreshHash rule i) s fun after => Stands False still s.store.pool after.store.pool := by
  rw [refreshHash, Always, ends_bind, ends_get]
  cases s.store.pool.get? i with
  | none => exact .stay bounded
  | some value =>
    refine Always.then (ask_stands _ bounded (rule.hash value)) ?_
    intro hash middle first
    rw [Always, Update.ends_edit]
    have relinks : Relinks (Store.onPool (Pool.modifyLink i fun link => { link with hash := hash }) : Edit (HashSet α) Unit) :=
      .onLink i _
    exact Always.imp (relinks.stands first.bounded) fun after later => first.after_still later

theorem rehash_stands (bounded : s.store.pool.Bounded) :
    Always (rehash rule) s fun after => Stands False still s.store.pool after.store.pool := by
  have each : ∀ (slots : List Nat) (s' : Session (HashSet α) ω), s'.store.pool.Bounded →
      Always (slots.forM (refreshHash rule)) s' fun after => Stands False still s'.store.pool after.store.pool := by
    intro slots
    induction slots with
    | nil => exact fun _ bounded => .stay bounded
    | cons i slots ih =>
      intro s' bounded
      change Always (refreshHash rule i >>= fun _ => slots.forM (refreshHash rule)) s' _
      refine (refreshHash_stands rule i bounded).then ?_
      intro _ middle first
      exact (ih middle first.bounded).imp fun after later => first.after_still later
  rw [rehash, Always, ends_bind, ends_get]
  have refreshed : Always (Update.guarded ((List.range s.store.pool.slots.size).forM (refreshHash rule))) s fun after =>
      Stands False still s.store.pool after.store.pool :=
    Update.ends_guarded _ (fun _ => .stay bounded) fun _ => each _ ⟨s.store, { s.gate with busy := true }⟩ bounded
  refine refreshed.then ?_
  intro _ middle first
  rw [Always, Update.ends_edit]
  exact Always.imp (rebucket_relinks.stands first.bounded) fun after later => first.after_still later

theorem changing_stands (change : Nat → α → α) (strides : List Stride) (bounded : s.store.pool.Bounded) :
    Always ((changingWalker change).run strides) s fun after =>
      Stands False (repeating change) s.store.pool after.store.pool := by
  have one : ∀ (step : Step α) (c : Pool.Cursor) (s' : Session (HashSet α) ω),
      Stands False (repeating change) s.store.pool s'.store.pool →
      Always (Update.edit (stepChanging step change c)) s' fun after =>
        Stands False (repeating change) s.store.pool after.store.pool := by
    intro step c s' stands
    rw [Always, Update.ends_edit, stepChanging, ends_bind, ends_get]
    cases step s'.store.pool c with
    | error fault => exact stands
    | ok met =>
      obtain ⟨found, rest⟩ := met
      rw [ends_bind, ends_lift]
      cases found with
      | none => exact stands
      | some entry =>
        have changed := modifyAt_stands stands.bounded entry.1 (change entry.1.index)
        refine (changed.imp fun after later => ?_).then fun _ _ done => done
        exact stands.trans (later.imp id fun _ _ _ => changing_repeats) (repeating_transitive change)
  refine Walker.run_keeps ?_ (fun c s' => one _ c s') (fun c s' => one _ c s') strides ?_
  · exact fun _ stands => stands
  · exact .refl bounded fun _ _ => ⟨0, by simp⟩

variable [Allocator ω]

theorem tryInsert_stands (value : α) (bounded : s.store.pool.Bounded) :
    Always (tryInsert rule value) s fun after =>
      Stands (Squeezes (find rule value) s) still s.store.pool after.store.pool := by
  rw [tryInsert]
  refine Update.ask_then (fun _ _ => stands_of_same bounded) ?_
  intro hash first asked same
  have hashed := Session.ran_of_ask asked
  refine Update.ask_then (fun _ _ same' => stands_of_same bounded (same'.trans same)) ?_
  intro found second asked' same'
  cases found with
  | some i => exact ofIndex_stands bounded (same'.trans same) i _
  | none =>
    have absent : s.Finds (find rule value) none := by
      obtain ⟨gate, ran⟩ := finds_none (Session.finds_of_ask asked')
      refine ⟨gate, ?_⟩
      rw [find, bind_run, hashed.1]
      rw [hashed.2] at ran
      exact ran
    refine makeRoom_squeezes absent bounded (same'.trans same) ?_
    intro answer middle bounded
    cases answer with
    | error error => exact .stay bounded
    | ok renumbered => exact linkedNew_stands bounded hash value _

theorem insert_stands (value : α) (bounded : s.store.pool.Bounded) :
    Always (insert rule value) s fun after =>
      Stands (Squeezes (find rule value) s) still s.store.pool after.store.pool := by
  rw [insert]
  refine (tryInsert_stands rule value bounded).then ?_
  intro answer after stands
  cases answer with
  | ok placed => exact stands
  | error refused => exact stands

theorem insertWith_stands (hash : UInt32) (accepts : α → Query (HashSet α) ω Bool) (make : Query (HashSet α) ω α)
    (bounded : s.store.pool.Bounded) :
    Always (insertWith rule hash accepts make) s fun after =>
      Stands (Squeezes (findBy hash accepts) s) still s.store.pool after.store.pool := by
  rw [insertWith]
  refine Update.ask_then (fun _ _ => stands_of_same bounded) ?_
  intro found first asked same
  cases found with
  | some i => exact ofIndex_stands bounded same i _
  | none =>
    refine makeRoom_squeezes (finds_none (Session.finds_of_ask asked)) bounded same ?_
    intro answer second bounded
    cases answer with
    | error error => exact .stay bounded
    | ok renumbered =>
      dsimp only
      refine Always.then (ask_stands _ bounded make) ?_
      intro value third made
      refine Always.bind (ask_stands _ made.bounded (hashOf rule value)) (fun _ later => made.after_still later) ?_
      intro built fourth later
      have onward := made.after_still later
      split
      · exact (linkedNew_stands later.bounded hash value _).imp fun after linked => onward.after_still linked
      · exact onward

theorem access_standing : (access rule).Standing where
  insert s value bounded := insert_stands rule value bounded
  tryInsert s value bounded := tryInsert_stands rule value bounded
  reinsert s d bounded := reinsert_stands rule d bounded
  walk s strides := by
    have read : ∀ {β : Type} (read : Except Fault β) (s' : Session (HashSet α) ω), s' = s →
        Always (liftM read : Update (HashSet α) ω β) s' (· = s) := fun read s' same =>
      (always_lift read).imp fun _ same' => same'.trans same
    have walked : Always (walker.run strides) s (· = s) :=
      Walker.run_keeps (fun _ same => same) (fun c s' => read _ s') (fun c s' => read _ s') strides rfl
    exact walked.imp fun after same => by rw [same]

theorem act_stands (action : HashSetAction α ω) (bounded : s.store.pool.Bounded) :
    Always (act rule action) s fun after => Stands (Compacts rule s action ∨ action = .common .clear)
      (outcome (Takes rule s · action) (action.Alters · ·)) s.store.pool after.store.pool := by
  cases action with
  | common action =>
    refine (Access.run_stands (access_standing rule) action bounded).imp ?_
    exact fun after stands => stands.imp (Or.imp id fun same => congrArg _ same) fun _ _ _ => id
  | findBy hash accepts => exact stands_quietly ((ask_stands _ bounded _).then fun _ _ stands => stands)
  | insertWith hash accepts make =>
    exact stands_quietly ((insertWith_stands rule hash accepts make bounded).then fun _ _ stands => stands)
  | rehash => exact stands_quietly ((rehash_stands rule bounded).then fun _ _ stands => stands)
  | walkChanging change strides =>
    refine ((changing_stands change strides bounded).imp fun after stands => ?_).then fun _ _ done => done
    refine stands.imp False.elim fun _ _ _ changed => ?_
    obtain ⟨n, same⟩ := changed
    exact .inr ⟨_, ⟨n, rfl⟩, same⟩

theorem act_vacates (action : HashSetAction α ω) (bounded : s.store.pool.Bounded) (h : Handle)
    (there : s.store.get? h ≠ none) (takes : Takes rule s h action) :
    Ends (act rule action) s (fun reply after => ¬ reply.Back → after.store.get? h = none) fun _ _ => True := by
  cases action with
  | common action => exact Access.run_vacates (access_standing rule) action bounded h there takes
  | _ => exact absurd takes id

end HashSet
end Slotted
