import Slotted.Proofs.Action.Standing
import Slotted.Action.Tree
namespace Slotted

variable {α ω : Type}

def TreeSet.Compacts [Allocator ω] (rule : OrderRule (TreeSet α) ω α) (s : Session (TreeSet α) ω) : TreeSetAction α ω → Prop
  | .common action => (TreeSet.access rule).Compacts s action
  | .insertWith probe _ => Squeezes (TreeSet.findBy probe) s
  | _ => False

def TreeSet.Takes [Allocator ω] (rule : OrderRule (TreeSet α) ω α) (s : Session (TreeSet α) ω) (h : Handle) :
    TreeSetAction α ω → Prop
  | .common action => (TreeSet.access rule).Takes s h action
  | _ => False

def TreeSetAction.Alters (h : Handle) (f : α → α) : TreeSetAction α ω → Prop
  | .common action => action.Alters h f
  | .updateAll new => ∃ n, f = (new h.index)^[n]
  | _ => f = id

namespace TreeSet

open Store Pool Query

variable {s : Session (TreeSet α) ω} (rule : OrderRule (TreeSet α) ω α)

theorem finds_none {probe : Probe (TreeSet α) ω α} {parent : Nat} {side : Side}
    (finds : s.Finds (locate probe) (.vacant parent side)) : s.Finds (findBy probe) none := by
  obtain ⟨gate, ran⟩ := finds
  refine ⟨gate, ?_⟩
  rw [findBy, bind_run, ran]
  rfl

theorem linkedNew_stands {γ : Type} (bounded : s.store.pool.Bounded) (value : α) (parent : Nat) (side : Side)
    (answer : Handle → γ) :
    Always (do return answer (← Handle.ofIndex (← Update.edit (linkNew value parent side))) : Update (TreeSet α) ω γ) s
      fun after => Stands False still s.store.pool after.store.pool :=
  added_stands (fun i => attach_relinks i parent side) bounded value default answer

theorem reinsert_stands (d : Detached) (bounded : s.store.pool.Bounded) :
    Ends (reinsert rule d) s
      (fun placed after => Stands False (sparing d.slot) s.store.pool after.store.pool ∧
        (placed.2 = false → after.store.pool.isActive d.slot = false))
      fun _ after => Stands False (sparing d.slot) s.store.pool after.store.pool := by
  rw [reinsert, ends_bind, ends_get]
  cases s.store.detachedValue d with
  | error fault => exact Spares.unchanged bounded
  | ok value =>
    rw [ends_bind, ends_lift]
    refine Ends.bind (Ends.faulting (ask_stands False bounded (locate (rule.probe value))) fun _ _ stands =>
      stands.imp id fun _ _ _ => .inr) ?_
    intro place first stands
    have onward : ∀ {after : Session (TreeSet α) ω}, Stands False (sparing d.slot) first.store.pool after.store.pool →
        Stands False (sparing d.slot) s.store.pool after.store.pool := fun later => stands.after_still later
    cases place with
    | found i =>
      refine (dropped_stands stands.bounded d i).imp ?_ ?_
      · exact fun _ _ told => ⟨onward told.1, told.2⟩
      · exact fun _ _ => onward
    | vacant parent side =>
      refine (reattached_stands (attach_relinks d.slot parent side) stands.bounded d).imp ?_ ?_
      · exact fun _ _ told => ⟨onward told.1, told.2⟩
      · exact fun _ _ => onward

theorem updateAll_stands (change : Nat → α → α) {s : TreeSet α} (bounded : s.pool.Bounded) :
    Always (updateAll change) s fun after => Stands False (repeating change) s.pool after.pool := by
  have stay : ∀ s' : TreeSet α, s'.pool.Bounded → Stands False (repeating change) s'.pool s'.pool :=
    fun s' bounded => .refl bounded fun _ _ => ⟨0, by simp⟩
  have onward : ∀ (fuel i : Nat) (s' : TreeSet α), s'.pool.Bounded →
      Always (updateFrom change fuel i) s' fun after => Stands False (repeating change) s'.pool after.pool := by
    intro fuel
    induction fuel with
    | zero =>
      intro i s' bounded
      unfold updateFrom
      split
      · exact stay s' bounded
      · exact stay s' bounded
    | succ fuel ih =>
      intro i s' bounded
      unfold updateFrom
      split
      · exact stay s' bounded
      · dsimp only
        rw [Always, ends_bind, ends_get]
        cases s'.pool.value i with
        | error fault => exact stay s' bounded
        | ok value =>
          rw [ends_bind, ends_lift]
          refine Always.then (modifyValue_stands bounded i change) ?_
          intro _ middle first
          rw [Always, ends_bind, ends_get]
          cases middle.pool.neighbour .right i with
          | error fault => exact first
          | ok next =>
            rw [ends_bind, ends_lift]
            refine Always.then ((ih next middle first.bounded).imp fun after later => ?_) fun _ _ stands => stands
            exact first.trans later (repeating_transitive change)
  rw [updateAll, Always, ends_bind, ends_get, ends_bind, ends_get]
  cases s.extremeSlot .left with
  | error fault => exact stay s bounded
  | ok first =>
    rw [ends_bind, ends_lift]
    exact onward _ _ s bounded

variable [Allocator ω]

theorem tryInsert_stands (value : α) (bounded : s.store.pool.Bounded) :
    Always (tryInsert rule value) s fun after =>
      Stands (Squeezes (find rule value) s) still s.store.pool after.store.pool := by
  rw [tryInsert]
  refine Update.ask_then (fun _ _ => stands_of_same bounded) ?_
  intro place first asked same
  cases place with
  | found i => exact ofIndex_stands bounded same i _
  | vacant parent side =>
    refine makeRoom_squeezes (finds_none (Session.finds_of_ask asked)) bounded same ?_
    intro answer second bounded
    cases answer with
    | error error => exact .stay bounded
    | ok renumbered =>
      refine Always.then (ask_stands _ bounded (placeAgain (rule.probe value) renumbered parent side)) ?_
      intro place third again
      exact (linkedNew_stands again.bounded value place.1 place.2 _).imp fun after linked => again.after_still linked

theorem insert_stands (value : α) (bounded : s.store.pool.Bounded) :
    Always (insert rule value) s fun after =>
      Stands (Squeezes (find rule value) s) still s.store.pool after.store.pool := by
  rw [insert]
  refine (tryInsert_stands rule value bounded).then ?_
  intro answer after stands
  cases answer with
  | ok placed => exact stands
  | error refused => exact stands

theorem insertWith_stands (probe : Probe (TreeSet α) ω α) (make : Query (TreeSet α) ω α)
    (bounded : s.store.pool.Bounded) :
    Always (insertWith probe make) s fun after =>
      Stands (Squeezes (findBy probe) s) still s.store.pool after.store.pool := by
  rw [insertWith]
  refine Update.ask_then (fun _ _ => stands_of_same bounded) ?_
  intro place first asked same
  cases place with
  | found i => exact ofIndex_stands bounded same i _
  | vacant parent side =>
    refine makeRoom_squeezes (finds_none (Session.finds_of_ask asked)) bounded same ?_
    intro answer second bounded
    cases answer with
    | error error => exact .stay bounded
    | ok renumbered =>
      refine Always.then (ask_stands _ bounded (placeAgain probe renumbered parent side)) ?_
      intro place third again
      refine Always.bind (ask_stands _ again.bounded make) (fun _ later => again.after_still later) ?_
      intro value fourth later
      refine (linkedNew_stands later.bounded value place.1 place.2 _).imp ?_
      exact fun after linked => again.after_still (later.after_still linked)

theorem access_standing : (access rule).Standing where
  insert s value bounded := insert_stands rule value bounded
  tryInsert s value bounded := tryInsert_stands rule value bounded
  reinsert s d bounded := reinsert_stands rule d bounded
  walk s strides := by
    have read : ∀ {β : Type} (read : Except Fault β) (s' : Session (TreeSet α) ω), s' = s →
        Always (liftM read : Update (TreeSet α) ω β) s' (· = s) := fun read s' same =>
      (always_lift read).imp fun _ same' => same'.trans same
    have walked : Always (walker.run strides) s (· = s) :=
      Walker.run_keeps (fun s' same => read s'.store.cursor s' same) (fun c s' => read _ s') (fun c s' => read _ s')
        strides rfl
    exact walked.imp fun after same => by rw [same]

theorem act_stands (action : TreeSetAction α ω) (bounded : s.store.pool.Bounded) :
    Always (act rule action) s fun after => Stands (Compacts rule s action ∨ action = .common .clear)
      (outcome (Takes rule s · action) (action.Alters · ·)) s.store.pool after.store.pool := by
  have read : ∀ {β : Type} (read : Except Fault β) (answer : β → Reply α),
      Always (do return answer (← (liftM read : Update (TreeSet α) ω β)) : Update (TreeSet α) ω (Reply α)) s
        fun after => Stands False still s.store.pool after.store.pool := by
    intro β read answer
    refine ((always_lift read).imp fun after same => ?_).then fun _ _ done => done
    rw [same]
    exact .stay bounded
  cases action with
  | common action =>
    refine (Access.run_stands (access_standing rule) action bounded).imp ?_
    exact fun after stands => stands.imp (Or.imp id fun same => congrArg _ same) fun _ _ _ => id
  | findBy probe => exact stands_quietly ((ask_stands _ bounded _).then fun _ _ stands => stands)
  | bound wanted inclusive probe => exact stands_quietly ((ask_stands _ bounded _).then fun _ _ stands => stands)
  | insertWith probe make => exact stands_quietly ((insertWith_stands probe make bounded).then fun _ _ stands => stands)
  | near wanted inclusive value => exact stands_quietly ((ask_stands _ bounded _).then fun _ _ stands => stands)
  | extreme side => exact stands_quietly (read _ _)
  | neighbour side h => exact stands_quietly (read _ _)
  | updateAll change =>
    have updated : Always (Update.edit (updateAll change)) s fun after =>
        Stands False (repeating change) s.store.pool after.store.pool := by
      rw [Always, Update.ends_edit]
      exact updateAll_stands change bounded
    refine (updated.imp fun after stands => ?_).then fun _ _ done => done
    refine stands.imp False.elim fun _ _ _ changed => ?_
    obtain ⟨n, same⟩ := changed
    exact .inr ⟨_, ⟨n, rfl⟩, same⟩

theorem act_vacates (action : TreeSetAction α ω) (bounded : s.store.pool.Bounded) (h : Handle)
    (there : s.store.get? h ≠ none) (takes : Takes rule s h action) :
    Ends (act rule action) s (fun reply after => ¬ reply.Back → after.store.get? h = none) fun _ _ => True := by
  cases action with
  | common action => exact Access.run_vacates (access_standing rule) action bounded h there takes
  | _ => exact absurd takes id

end TreeSet
end Slotted
