import Slotted.Proofs.Action.Flag
import Slotted.Proofs.TreeSet.Stepwise
namespace Slotted

open Store Update Query

variable {α κ ν β ω : Type} {blame : Fault → Prop} (free : ∀ fault, fault ≠ .busy → blame fault)

namespace TreeSet

variable {made : ∀ β : Type, Query (TreeSet α) ω β → Prop}
  (careful : ∀ (β : Type) (query : Query (TreeSet α) ω β), made β query → query.Careful blame)
  {rule : OrderRule (TreeSet α) ω α} (rules : rule.Made made) {probe : Probe (TreeSet α) ω α}

section Probe

variable (probes : probe.Alike (fun query _ => query.Careful blame) probe)
include free

theorem link_clears (value : α) (parent : Nat) (side : Side) (answer : Handle → β) :
    Clears blame (do return answer (← Handle.ofIndex (← Update.edit (linkNew value parent side))) :
      Update (TreeSet α) ω β) :=
  (Clears.edit free (linkNew_inward value parent side)).bind fun i => .ofIndex free i answer

include probes

theorem insertWith_clears [Allocator ω] {make : Query (TreeSet α) ω α} (making : make.Lowers blame) :
    Clears blame (insertWith probe make) := by
  refine (Clears.ask (locate_alike (careful_encloses free) probes)).bind fun place => ?_
  cases place with
  | found i => exact .ofIndex free i (·, false)
  | vacant parent side =>
    refine (makeRoom_clears free).bind fun room => ?_
    cases room with
    | error error => exact .throw free (by simp)
    | ok renumbered =>
      refine (Clears.ask (placeAgain_alike (careful_encloses free) probes renumbered parent side)).bind fun place => ?_
      exact (Clears.ask making).bind fun value => link_clears free value place.1 place.2 (·, true)

end Probe

include free

theorem updateAll_clears (change : Nat → α → α) :
    Clears blame (Update.edit (updateAll change) : Update (TreeSet α) ω (List α)) := .edit free (updateAll_inward change)

include careful rules

omit free in
theorem probe_careful (value : α) : (rule.probe value).Alike (fun query _ => query.Careful blame) (rule.probe value) :=
  (rules.alike careful).probe value

theorem reinsert_clears (d : Detached) : Clears blame (reinsert rule d) := by
  refine Clears.get.bind fun s => (Clears.lift free (s.store.pool.value_looksInside _)).bind fun value => ?_
  refine (Clears.ask (locate_alike (careful_encloses free) (probe_careful careful rules value))).bind fun place => ?_
  cases place with
  | found i => exact (Clears.edit free (drop_inward d)).bind fun _ => .ofIndex free i (·, false)
  | vacant parent side =>
    refine (Clears.edit free (.onPool (Pool.reattach_inward d.slot))).bind fun _ => ?_
    exact (Clears.edit free (attach_relinks d.slot parent side).inward).bind fun _ => .ofIndex free d.slot (·, true)

variable [Allocator ω]

theorem tryInsert_clears (value : α) : Clears blame (tryInsert rule value) := by
  have probes := probe_careful careful rules value
  refine (Clears.ask (locate_alike (careful_encloses free) probes)).bind fun place => ?_
  cases place with
  | found i => exact .ofIndex free i fun h => Except.ok (h, false)
  | vacant parent side =>
    refine (makeRoom_clears free).bind fun room => ?_
    cases room with
    | error error => exact .pure _
    | ok renumbered =>
      refine (Clears.ask (placeAgain_alike (careful_encloses free) probes renumbered parent side)).bind fun place => ?_
      exact link_clears free value place.1 place.2 fun h => Except.ok (h, true)

theorem insert_clears (value : α) : Clears blame (insert rule value) := by
  refine (tryInsert_clears free careful rules value).bind fun placed => ?_
  cases placed with
  | ok result => exact .pure _
  | error refused => exact .throw free (by simp)

theorem access_lowers : (access rule).Lowers blame where
  find := find_alike (careful_encloses free) (rules.alike careful)
  insert := insert_clears free careful rules
  tryInsert := tryInsert_clears free careful rules
  reinsert := reinsert_clears free careful rules
  walk := by
    refine Walker.run_clears (Clears.get.bind fun s => .lift free (cursor_looksInside s.store)) (fun c => ?_) fun c => ?_
    · exact Clears.get.bind fun s => .lift free (Cursor.next_looksInside s.store c)
    · exact Clears.get.bind fun s => .lift free (Cursor.nextBack_looksInside s.store c)
  list := by
    refine fun store => Calm.read (Calm.bind ?_ fun _ => calm_pure _)
    exact (lowers_stepwise free).lift (entries_looksInside store) store
  check := check_alike (careful_encloses free) (rules.alike careful)

theorem act_clears (action : TreeSetAction α ω) (actions : action.Made made) : Clears blame (act rule action) := by
  cases action with
  | common action => exact Access.run_clears free (access_lowers free careful rules) action
  | findBy probe =>
    have probes : probe.Made made := actions
    exact (Clears.ask (findBy_alike (careful_encloses free) (probes.alike careful))).bind fun _ => .pure _
  | bound wanted inclusive probe =>
    have probes : probe.Made made := actions
    exact (Clears.ask (bound_alike (careful_encloses free) (probes.alike careful) wanted inclusive)).bind fun _ => .pure _
  | insertWith probe make =>
    have making := (careful _ _ actions.2).lowers
    exact (insertWith_clears free (actions.1.alike careful) making).bind fun _ => .pure _
  | near wanted inclusive value =>
    have lowers := near_alike (careful_encloses free) (rules.alike careful) wanted inclusive value
    exact (Clears.ask lowers).bind fun _ => .pure _
  | extreme side =>
    exact Clears.get.bind fun s => (Clears.lift free (TreeSet.extreme_looksInside s.store side)).bind fun _ => .pure _
  | neighbour side h =>
    exact Clears.get.bind fun s => (Clears.lift free (TreeSet.neighbourOf_looksInside s.store side h)).bind fun _ => .pure _
  | updateAll change => exact (updateAll_clears free change).bind fun _ => .pure _

end TreeSet

namespace TreeMap

variable {made : ∀ β : Type, Query (TreeMap κ ν) ω β → Prop}
  (careful : ∀ (β : Type) (query : Query (TreeMap κ ν) ω β), made β query → query.Careful blame)
  {rule : OrderRule (TreeMap κ ν) ω κ} (rules : rule.Made made)

include rules in
theorem onKeys_made : (rule.onKeys : OrderRule (TreeMap κ ν) ω (Entry κ ν)).Made made := fun a b => rules a.key b.key

include free careful rules

variable [Allocator ω]

theorem getOrInsertWith_clears (key : κ) {make : Query (TreeMap κ ν) ω ν} (making : make.Lowers blame) :
    Clears blame (getOrInsertWith rule key make) := by
  have builds : (do return ⟨key, ← make⟩ : Query (TreeMap κ ν) ω (Entry κ ν)).Lowers blame :=
    fun store => (making store).bind fun _ => calm_pure _
  refine Clears.bind (TreeSet.insertWith_clears free (probe_alike (rules.alike careful) key) builds) fun placed => ?_
  exact Clears.get.bind fun s => (Clears.lift free (s.store.pool.value_looksInside _)).bind fun _ => .pure _

theorem act_clears (action : TreeMapAction κ ν ω) (actions : action.Made made) : Clears blame (act rule action) := by
  cases action with
  | common action =>
    refine KeyedAccess.run_clears free (TreeSet.access_lowers free careful (onKeys_made rules))
      (find_alike (careful_encloses free) (rules.alike careful)) action ?_
    rintro key make change rfl
    exact getOrInsertWith_clears free careful rules key (careful _ _ actions).lowers
  | near wanted inclusive key =>
    have lowers := near_alike (careful_encloses free) (rules.alike careful) wanted inclusive key
    exact (Clears.ask lowers).bind fun _ => .pure _
  | extreme side =>
    exact Clears.get.bind fun s => (Clears.lift free (TreeSet.extreme_looksInside s.store side)).bind fun _ => .pure _
  | neighbour side h =>
    exact Clears.get.bind fun s => (Clears.lift free (TreeSet.neighbourOf_looksInside s.store side h)).bind fun _ => .pure _
  | pop side => exact (Clears.edit free (pop_inward side)).bind fun _ => .pure _
  | updateAll change => exact (TreeSet.updateAll_clears free _).bind fun _ => .pure _

end TreeMap
end Slotted
