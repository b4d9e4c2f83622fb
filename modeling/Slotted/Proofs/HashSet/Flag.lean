import Slotted.Proofs.Action.Flag
import Slotted.Proofs.HashSet.Stepwise
namespace Slotted

open Store Update Query

variable {α κ ν β ω : Type} {blame : Fault → Prop} (free : ∀ fault, fault ≠ .busy → blame fault)

namespace HashSet

variable {made : ∀ β : Type, Query (HashSet α) ω β → Prop}
  (careful : ∀ (β : Type) (query : Query (HashSet α) ω β), made β query → query.Careful blame)
  {rule : HashRule (HashSet α) ω α} (rules : rule.Made made)
include free careful

theorem findHashed_lowers {hash : UInt32} {accepts : α → Query (HashSet α) ω Bool}
    (accepting : ∀ element, made _ (accepts element)) : (findHashed hash accepts).Lowers blame :=
  findHashed_alike (careful_encloses free) accepts accepts fun element => careful _ _ (accepting element)

theorem findBy_lowers {hash : UInt32} {accepts : α → Query (HashSet α) ω Bool}
    (accepting : ∀ element, made _ (accepts element)) : (findBy hash accepts).Lowers blame :=
  findBy_alike (careful_encloses free) accepts accepts fun element => careful _ _ (accepting element)

omit careful in
theorem link_clears (hash : UInt32) (value : α) (answer : Handle → β) :
    Clears blame (do return answer (← Handle.ofIndex (← Update.edit (linkNew hash value))) : Update (HashSet α) ω β) :=
  (Clears.edit free (linkNew_inward hash value)).bind fun i => .ofIndex free i answer

omit careful in
theorem changing_clears (change : Nat → α → α) (strides : List Stride) :
    Clears blame ((changingWalker change : Walker (HashSet α) ω _ _).run strides) := by
  refine Walker.run_clears ?_ (fun c => ?_) (fun c => ?_) strides
  · exact Clears.get.bind fun _ => .pure _
  · exact .edit free (stepChanging_inward Pool.Cursor.next_looksInside change c)
  · exact .edit free (stepChanging_inward Pool.Cursor.nextBack_looksInside change c)

include rules

theorem hashOf_lowers (value : α) : (hashOf rule value).Lowers blame :=
  hashOf_alike (careful_encloses free) (rules.alike careful) value

theorem reinsert_clears (d : Detached) : Clears blame (reinsert rule d) := by
  refine Clears.get.bind fun s => (Clears.lift free (s.store.pool.value_looksInside _)).bind fun value => ?_
  refine (Clears.ask (hashOf_lowers free careful rules value)).bind fun hash => ?_
  refine (Clears.ask (findHashed_lowers free careful fun element => rules.equal element value)).bind fun found => ?_
  cases found with
  | some i => exact (Clears.edit free (drop_inward d)).bind fun _ => .ofIndex free i (·, false)
  | none =>
    refine (Clears.edit free (.onPool (Pool.reattach_inward d.slot))).bind fun _ => ?_
    exact (Clears.edit free (linkHead_relinks d.slot hash).inward).bind fun _ => .ofIndex free d.slot (·, true)

theorem refreshHash_blames (i : Nat) (s : Session (HashSet α) ω) :
    Ends (refreshHash rule i) s (fun _ _ => True) fun fault _ => blame fault := by
  rw [refreshHash, ends_bind, ends_get]
  split
  · trivial
  · rename_i value _
    have asks : Ends (Update.ask (rule.hash value)) s (fun _ _ => True) fun fault _ => blame fault := by
      rw [ends_ask]
      exact (careful _ _ (rules.hash value) _ _).imp (fun _ _ _ => trivial) fun _ _ told => told.1
    refine Ends.bind asks fun hash after _ => ?_
    rw [ends_edit]
    exact (Inward.onPool (Pool.modifySlot_inward i _) _).imp (fun _ _ _ => trivial) fun fault _ internal =>
      free fault internal.not_busy

theorem rehash_clears : Clears blame (rehash rule) := by
  have each : ∀ (slots : List Nat) (s : Session (HashSet α) ω),
      Ends (slots.forM (refreshHash rule)) s (fun _ _ => True) fun fault _ => blame fault := by
    intro slots
    induction slots with
    | nil => exact fun _ => trivial
    | cons i slots ih => exact fun s => Ends.bind (refreshHash_blames free careful rules i s) fun _ after _ => ih after
  refine Clears.get.bind fun s => (Clears.guarded fun raised _ => each _ raised).bind fun _ => ?_
  exact .edit free rebucket_relinks.inward

variable [Allocator ω]

theorem tryInsert_clears (value : α) : Clears blame (tryInsert rule value) := by
  refine (Clears.ask (hashOf_lowers free careful rules value)).bind fun hash => ?_
  refine (Clears.ask (findHashed_lowers free careful fun element => rules.equal element value)).bind fun found => ?_
  cases found with
  | some i => exact .ofIndex free i fun h => Except.ok (h, false)
  | none =>
    refine (makeRoom_clears free).bind fun room => ?_
    cases room with
    | error error => exact .pure _
    | ok _ => exact link_clears free hash value fun h => Except.ok (h, true)

theorem insert_clears (value : α) : Clears blame (insert rule value) := by
  refine (tryInsert_clears free careful rules value).bind fun placed => ?_
  cases placed with
  | ok result => exact .pure _
  | error refused => exact .throw free (by simp)

theorem insertWith_clears {hash : UInt32} {accepts : α → Query (HashSet α) ω Bool} {make : Query (HashSet α) ω α}
    (accepting : ∀ element, made _ (accepts element)) (making : make.Lowers blame) :
    Clears blame (insertWith rule hash accepts make) := by
  refine (Clears.ask (findHashed_lowers free careful accepting)).bind fun found => ?_
  cases found with
  | some i => exact .ofIndex free i (·, false)
  | none =>
    refine (makeRoom_clears free).bind fun room => ?_
    cases room with
    | error error => exact .throw_bind free (by simp) _
    | ok _ =>
      refine (Clears.ask making).bind fun value => (Clears.ask (hashOf_lowers free careful rules value)).bind fun built => ?_
      dsimp only
      split
      · exact link_clears free hash value (·, true)
      · exact .throw_bind free (by simp) _

theorem access_lowers : (access rule).Lowers blame where
  find := find_alike (careful_encloses free) (rules.alike careful)
  insert := insert_clears free careful rules
  tryInsert := tryInsert_clears free careful rules
  reinsert := reinsert_clears free careful rules
  walk := by
    refine Walker.run_clears (Clears.get.bind fun _ => .pure _) (fun c => ?_) fun c => ?_
    · exact Clears.get.bind fun s => .lift free (Pool.Cursor.next_looksInside s.store.pool c)
    · exact Clears.get.bind fun s => .lift free (Pool.Cursor.nextBack_looksInside s.store.pool c)
  list := fun store => Calm.read (calm_pure _)
  check := check_alike (careful_encloses free) (rules.alike careful)

theorem act_clears (action : HashSetAction α ω) (actions : action.Made made) : Clears blame (act rule action) := by
  cases action with
  | common action => exact Access.run_clears free (access_lowers free careful rules) action
  | findBy hash accepts => exact (Clears.ask (findBy_lowers free careful actions)).bind fun _ => .pure _
  | insertWith hash accepts make =>
    have making := (careful _ _ actions.2).lowers
    exact (insertWith_clears free careful rules actions.1 making).bind fun _ => .pure _
  | rehash => exact (rehash_clears free careful rules).bind fun _ => .pure _
  | walkChanging change strides => exact (changing_clears free change strides).bind fun _ => .pure _

end HashSet

namespace HashMap

variable {made : ∀ β : Type, Query (HashMap κ ν) ω β → Prop}
  (careful : ∀ (β : Type) (query : Query (HashMap κ ν) ω β), made β query → query.Careful blame)
  {rule : HashRule (HashMap κ ν) ω κ} (rules : rule.Made made)
include free careful rules

omit free careful in
theorem onKeys_made : (rule.onKeys : HashRule (HashMap κ ν) ω (Entry κ ν)).Made made :=
  ⟨fun entry => rules.hash entry.key, fun a b => rules.equal a.key b.key⟩

variable [Allocator ω]

theorem getOrInsertWith_clears (key : κ) {make : Query (HashMap κ ν) ω ν} (making : make.Lowers blame) :
    Clears blame (getOrInsertWith rule key make) := by
  have builds : (do return ⟨key, ← make⟩ : Query (HashMap κ ν) ω (Entry κ ν)).Lowers blame :=
    fun store => (making store).bind fun _ => calm_pure _
  refine (Clears.ask (keyHash_alike (careful_encloses free) (rules.alike careful) key)).bind fun hash => ?_
  refine Clears.bind (HashSet.insertWith_clears free careful (onKeys_made rules) (fun entry => rules.equal entry.key key)
    builds) fun placed => ?_
  exact Clears.get.bind fun s => (Clears.lift free (s.store.pool.value_looksInside _)).bind fun _ => .pure _

theorem act_clears (action : HashMapAction κ ν ω) (actions : action.Made made) : Clears blame (act rule action) := by
  cases action with
  | common action =>
    refine KeyedAccess.run_clears free (HashSet.access_lowers free careful (onKeys_made rules))
      (find_alike (careful_encloses free) (rules.alike careful)) action ?_
    rintro key make change rfl
    exact getOrInsertWith_clears free careful rules key (careful _ _ actions).lowers
  | rehash => exact (HashSet.rehash_clears free careful (onKeys_made rules)).bind fun _ => .pure _
  | walkChanging change strides => exact (HashSet.changing_clears free _ strides).bind fun _ => .pure _

end HashMap
end Slotted
