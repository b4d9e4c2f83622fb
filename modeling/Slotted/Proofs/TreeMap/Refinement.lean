import Slotted.Datum.World
import Slotted.Proofs.Action.MapRefinement
import Slotted.Proofs.TreeSet.Refinement
namespace Slotted

variable {κ ν ω : Type} {r : PureOrder κ}

theorem PureOrder.Lawful.onKeys (lawful : r.Lawful) : (r.onKeys : PureOrder (Entry κ ν)).Lawful where
  swap a b := lawful.swap a.key b.key
  trans a b c := lawful.trans a.key b.key c.key
  class_left a b c := lawful.class_left a.key b.key c.key

-- What a caller may do without breaking the promise about the entries. Nothing is said of neighbours.
def TreeMapAction.Keeping : TreeMapAction κ ν ω → Prop
  | .common action => action.Keeping
  | .near _ _ _ => False
  | .neighbour _ _ => False
  | _ => True

namespace TreeMap

open Store TreeSet

variable {t : Tree} {s : Session (TreeMap κ ν) ω} {key : κ}

theorem ascends_iff {entries : List (Entry κ ν)} : r.onKeys.Ascends entries ↔ r.Ascends (entries.map (·.key)) := by
  rw [PureOrder.Ascends, PureOrder.Ascends, List.pairwise_map]
  rfl

theorem ascending_iff {bodies : List (Entry κ ν × Unit)} :
    Ascending r.onKeys bodies ↔ Ascending r (bodies.map (Prod.map Entry.key id)) := by
  rw [Ascending, Ascending, ascends_iff, List.map_map, List.map_map]
  rfl

theorem ascending_valueless (r : PureOrder κ) : Valueless (Ascending (r.onKeys : PureOrder (Entry κ ν))) :=
  fun same ascending => ascending_iff.mpr (same ▸ ascending_iff.mp ascending)

theorem Misses.lacks (lawful : r.Lawful) (proper : Proper (Ascending r.onKeys) t s.store)
    (misses : Misses (fun entry => r.compare entry.key key) t s.store.pool) : Lacks (r.compare · · = .eq) key s.store := by
  have ascends := ascends_iff.mp (TreeSet.ascending_iff.mp proper.body)
  have rising : Rising (fun entry => r.compare entry.key key) (t.slots.filterMap s.store.pool.get?) :=
    List.pairwise_map.mp (lawful.rising ascends key)
  intro entry member
  rw [proper.sound.contents_eq] at member
  exact misses.splits proper.sound rising entry member

theorem find_leads (lawful : r.Lawful) (key : κ) (settled : Settled (Ascending r.onKeys) s) :
    ∃ found, LeadsTo (r.compare · · = .eq) key s.store found ∧ find r.rule key s.store s.gate = .ok found s.gate := by
  obtain ⟨⟨t, proper⟩, lowered⟩ := settled
  obtain ⟨found, answers, finds⟩ := findBy_answers (ω := ω) proper.sound (fun entry => r.compare entry.key key) 0
  refine ⟨found, ?_, answers.lowered lowered⟩
  cases found with
  | none => exact Misses.lacks lawful proper finds
  | some h =>
    obtain ⟨entry, held, alike⟩ := finds
    exact ⟨entry, alike, held⟩

def Precedes (r : PureOrder κ) : Side → κ → κ → Prop
  | .left, a, b => r.compare a b = .lt
  | .right, a, b => r.compare b a = .lt

theorem precedes_onKeys {side : Side} {a b : Entry κ ν} : Precedes r.onKeys side a b ↔ Precedes r side a.key b.key := by
  cases side <;> rfl

theorem precedes_other {side : Side} {a b : κ} : Precedes r side.other a b ↔ Precedes r side b a := by cases side <;> rfl

theorem Precedes.asymm (lawful : r.Lawful) {side : Side} {a b : κ} (first : Precedes r side a b) : ¬ Precedes r side b a := by
  intro second
  cases side with
  | left =>
    have swapped := lawful.gt_iff.mpr first
    rw [show r.compare b a = .lt from second] at swapped
    cases swapped
  | right =>
    have swapped := lawful.gt_iff.mpr first
    rw [show r.compare a b = .lt from second] at swapped
    cases swapped

-- The entry at one end is gone and handed back, or there was none.
def Popped (r : PureOrder κ) (side : Side) (before after : TreeMap κ ν) : Option (Entry κ ν) → Prop
  | none => after = before ∧ before.pool.contents = 0
  | some entry => before.pool.contents = entry ::ₘ after.pool.contents ∧
    ∀ other ∈ after.pool.contents, Precedes r side entry.key other.key

theorem Popped.first (lawful : r.Lawful) {side : Side} {before after : TreeMap κ ν} {found : Option (Entry κ ν)}
    {entry : Entry κ ν} {rest : Multiset (Entry κ ν)} (popped : Popped r side before after found)
    (contents : before.pool.contents = entry ::ₘ rest) (precedes : ∀ other ∈ rest, Precedes r side entry.key other.key) :
    found = some entry ∧ after.pool.contents = rest := by
  cases found with
  | none => exact absurd (contents.symm.trans popped.2) (Multiset.cons_ne_zero)
  | some first =>
    obtain ⟨parted, ahead⟩ := popped
    rw [contents] at parted
    have same : first = entry := by
      by_contra differ
      have later : first ∈ rest :=
        (Multiset.mem_cons.mp (parted.symm ▸ Multiset.mem_cons_self first _)).resolve_left differ
      have kept : entry ∈ after.pool.contents :=
        (Multiset.mem_cons.mp (parted ▸ Multiset.mem_cons_self entry rest)).resolve_left (Ne.symm differ)
      exact (precedes first later).asymm lawful (ahead entry kept)
    subst same
    exact ⟨rfl, ((Multiset.cons_inj_right first).mp parted).symm⟩

def fromSide {β : Type} : Side → List β → List β
  | .left, items => items
  | .right, items => items.reverse

theorem fromSide_perm {β : Type} (side : Side) (items : List β) : (fromSide side items).Perm items := by
  cases side with
  | left => exact .refl _
  | right => exact List.reverse_perm items

theorem map_fromSide {β γ : Type} (side : Side) (items : List β) (view : β → γ) :
    (fromSide side items).map view = fromSide side (items.map view) := by
  cases side with
  | left => rfl
  | right => exact List.map_reverse

theorem precedes_fromSide (side : Side) {values : List κ} (ascends : r.Ascends values) :
    (fromSide side values).Pairwise (Precedes r side) := by
  cases side with
  | left => exact ascends
  | right => exact List.pairwise_reverse.mpr ascends

theorem updateAll_meets (change : Nat → ν → ν) (settled : Settled (Ascending r.onKeys) s) :
    Returns (Update.edit (updateAll change)) s fun listed after =>
      (∃ listing, Lists r.onKeys.Ascends s.store listing ∧ listed = listing.map (·.2)) ∧
        Revalues change (fun _ => True) s.store after.store ∧ Settled (Ascending r.onKeys) after := by
  obtain ⟨⟨t, proper⟩, lowered⟩ := settled
  obtain ⟨after, ran, sound, amends⟩ := updateAll_run proper.sound fun i => Entry.mapValue (change i)
  rw [Returns, Update.ends_edit]
  refine Ends.of_ok ran ⟨⟨_, lists_listing proper, (listing_values proper.sound).symm⟩, ?_,
    ⟨t, proper.amends (ascending_valueless r) sound amends⟩, lowered⟩
  intro h
  refine ⟨fun _ => ?_, fun none => absurd trivial none⟩
  by_cases member : h.index ∈ t.slots
  · exact amends.touched h.index member
  · have absent : Store.get? s.store h = none := by
      rw [Option.eq_none_iff_forall_ne_some]
      exact fun entry held => member (proper.sound.mem_iff.mpr ⟨entry, held⟩)
    rw [absent]
    exact (amends.others h.index member).trans absent

variable [Allocator ω]

theorem getOrInsertWith_meets (lawful : r.Lawful) (key : κ) {make : Query (TreeMap κ ν) ω ν}
    (steady : ∀ store gate, Always (make store) gate (·.busy = gate.busy)) (settled : Settled (Ascending r.onKeys) s) :
    Ends (getOrInsertWith r.rule key make) s
      (fun fetched after => Fetched (r.compare · · = .eq) .treeSet key make s after (.ok fetched) ∧
        Settled (Ascending r.onKeys) after)
      fun fault after => Fetched (r.compare · · = .eq) .treeSet key make s after (.error fault) ∧
        Settled (Ascending r.onKeys) after := by
  obtain ⟨⟨t, proper⟩, lowered⟩ := settled
  have builds := (insertWith_builds proper.sound (fun entry => r.compare entry.key key) 0
    (return ⟨key, ← make⟩)).faulting fun _ _ ends => ends.resolve_left (Session.not_barred lowered)
  refine Keyed.stored_meets proper lowered steady lawful.alike ?_ (Misses.lacks lawful proper) ?_ builds
  · intro h finds
    obtain ⟨entry, held, alike⟩ := finds
    exact ⟨entry, alike, held⟩
  · intro value after h given
    have inserts : Inserts (r.onKeys.compare · ⟨key, value⟩) ⟨key, value⟩ t s.store
        (⟨after, s.gate⟩ : Session (TreeMap κ ν) ω).store (.ok (h, true)) := given
    obtain ⟨placed, kept⟩ := inserts.meets lawful.onKeys proper
    exact ⟨placed.2.1, placed.2.2, kept⟩

theorem access_exact (lawful : r.Lawful) :
    (access (ω := ω) r.rule : KeyedAccess Root κ ν TreeLink ω).Exact (Ascending r.onKeys) (r.compare · · = .eq)
      r.onKeys.Ascends .treeSet where
  entries := TreeSet.access_exact lawful.onKeys
  alike := lawful.alike
  valueless := ascending_valueless r
  find _ key settled := find_leads lawful key settled
  fetch _ key _ steady settled := getOrInsertWith_meets lawful key steady settled

theorem remove_pops (lawful : r.Lawful) (side : Side) {h : Handle} {entry : Entry κ ν} {others : List (Entry κ ν)}
    (settled : Settled (Ascending r.onKeys) s) (held : Store.get? s.store h = some entry)
    (contents : s.store.pool.contents = entry ::ₘ (others : Multiset (Entry κ ν)))
    (first : ∀ other ∈ others, Precedes r side entry.key other.key) :
    Returns (Update.edit (Store.remove h)) s fun found after =>
      Popped r side s.store after.store found ∧ Settled (Ascending r.onKeys) after := by
  refine (Access.remove_meets (TreeSet.access_exact lawful.onKeys) settled held).returning ?_
  intro found after told
  obtain ⟨rfl, parted, _, settled'⟩ := told
  have rest : after.store.pool.contents = (others : Multiset (Entry κ ν)) :=
    (Multiset.cons_inj_right entry).mp (parted.symm.trans contents)
  refine ⟨⟨parted, ?_⟩, settled'⟩
  rw [rest]
  exact first

theorem pop_meets (lawful : r.Lawful) (side : Side) (settled : Settled (Ascending r.onKeys) s) :
    Returns (Update.edit (pop side)) s fun found after =>
      Popped r side s.store after.store found ∧ Settled (Ascending r.onKeys) after := by
  obtain ⟨t, proper⟩ := settled.proper
  obtain ⟨all, live, ascends⟩ := lists_listing proper
  obtain ⟨c, started, tracks⟩ := Cursor.start_tracks proper.sound
  generalize listing t s.store = items at all live ascends tracks
  rw [Returns, Update.ends_edit, pop, ends_bind, ends_get, started, ends_bind, ends_lift]
  cases side with
  | left =>
    obtain ⟨rest, ran, _⟩ := Cursor.next_run proper.sound tracks
    dsimp only
    rw [ran, ends_bind, ends_lift]
    cases items with
    | nil => exact ⟨⟨rfl, all⟩, settled⟩
    | cons item items =>
      have popped := remove_pops lawful .left settled (live item List.mem_cons_self) all
        (List.pairwise_cons.mp ascends).1
      rwa [Returns, Update.ends_edit] at popped
  | right =>
    obtain ⟨rest, ran, _⟩ := Cursor.nextBack_run proper.sound tracks
    dsimp only
    rw [ran, ends_bind, ends_lift]
    cases items using List.reverseRecOn with
    | nil => exact ⟨⟨rfl, all⟩, settled⟩
    | append_singleton items item _ =>
      rw [List.map_append] at all ascends
      have contents : s.store.pool.contents = item.2 ::ₘ (items.map (·.2) : Multiset (Entry κ ν)) :=
        all.trans (Multiset.coe_eq_coe.mpr (List.perm_append_singleton _ _))
      have popped := remove_pops lawful .right settled (live item (by simp)) contents
        fun other member => (List.pairwise_append.mp ascends).2.2 other member item.2 List.mem_cons_self
      rw [Returns, Update.ends_edit] at popped
      rwa [List.getLast?_concat]

inductive Does (r : PureOrder κ) (before after : Session (TreeMap κ ν) ω) :
    TreeMapAction κ ν ω → Except Fault (MapReply κ ν) → Prop where
  | common {action : MapAction (TreeMap κ ν) κ ν ω} {answer : Except Fault (MapReply κ ν)} :
    MapMeets (r.compare · · = .eq) r.onKeys.Ascends .treeSet .treeMap before after action answer →
    Does r before after (.common action) answer
  | extreme {side : Side} {found : Option (Entry κ ν)} : after = before → Extremal r.onKeys side before.store found →
    Does r before after (.extreme side) (.ok (.entries (.element found)))
  | pop {side : Side} {found : Option (Entry κ ν)} : Popped r side before.store after.store found →
    Does r before after (.pop side) (.ok (.entries (.element found)))
  | updateAll {change : Nat → ν → ν} {listing : List (Handle × Entry κ ν)} : Lists r.onKeys.Ascends before.store listing →
    Revalues change (fun _ => True) before.store after.store →
    Does r before after (.updateAll change) (.ok (.entries (.listed (listing.map (·.2)))))

theorem act_does (lawful : r.Lawful) {action : TreeMapAction κ ν ω} (keeping : action.Keeping)
    (settled : Settled (Ascending r.onKeys) s) :
    Ends (act r.rule action) s
      (fun reply after => Does r s after action (.ok reply) ∧ Settled (Ascending r.onKeys) after)
      fun fault after => Does r s after action (.error fault) ∧ Settled (Ascending r.onKeys) after := by
  cases action with
  | common action =>
    refine (KeyedAccess.run_meets (access_exact lawful) action keeping settled).imp ?_ ?_
    · exact fun _ _ told => ⟨.common told.1, told.2⟩
    · exact fun _ _ told => ⟨.common told.1, told.2⟩
  | near _ _ _ => exact absurd keeping id
  | extreme side =>
    obtain ⟨t, proper⟩ := settled.proper
    obtain ⟨found, ran, extremal⟩ := extreme_run proper side
    rw [act, ends_bind, ends_get, ran, ends_bind, ends_lift]
    exact ⟨.extreme rfl extremal, settled⟩
  | neighbour _ _ => exact absurd keeping id
  | pop side => exact (pop_meets lawful side settled).bind fun _ _ told => ⟨.pop told.1, told.2⟩
  | updateAll change =>
    refine (updateAll_meets change settled).bind ?_
    intro listed after told
    obtain ⟨⟨listing, lists, rfl⟩, revalues, settled'⟩ := told
    exact ⟨.updateAll lists revalues, settled'⟩

theorem act_performed (lawful : r.Lawful) {action : TreeMapAction κ ν ω} (keeping : action.Keeping)
    (settled : Settled (Ascending r.onKeys) s) :
    Does r s (s.perform (act r.rule action)).2 action (s.perform (act r.rule action)).1 ∧
      Settled (Ascending r.onKeys) (s.perform (act r.rule action)).2 :=
  Session.perform_tells (fun answer after => Does r s after action answer ∧ Settled (Ascending r.onKeys) after)
    (act_does lawful keeping settled)

-- Popping from one side as often as there are entries gives them all, nearest first.
theorem pops_drain (lawful : r.Lawful) (side : Side) {entries : List (Entry κ ν)} (settled : Settled (Ascending r.onKeys) s)
    (contents : s.store.pool.contents = entries) (sorted : entries.Pairwise fun a b => Precedes r side a.key b.key) :
    let drained := Session.performAll (act r.rule) (List.replicate entries.length (.pop side)) s
    drained.1 = entries.map (fun entry => .ok (.entries (.element (some entry)))) ∧ drained.2.store.pool.contents = 0 := by
  induction entries generalizing s with
  | nil => exact ⟨rfl, contents⟩
  | cons entry entries ih =>
    obtain ⟨precedes, sorted'⟩ := List.pairwise_cons.mp sorted
    obtain ⟨found, after, ran, popped, settled'⟩ := (pop_meets lawful side settled).exists
    obtain ⟨rfl, left⟩ := popped.first lawful (contents.trans (Multiset.cons_coe entry entries).symm) precedes
    have told : act r.rule (.pop side) s = .ok (.entries (.element (some entry))) after := by
      rw [act, bind_ok ran]
      rfl
    obtain ⟨answers, bare⟩ := ih settled' left sorted'
    rw [List.length_cons, List.replicate_succ, Session.performAll, Session.perform, told]
    dsimp only
    exact ⟨by rw [answers]; rfl, bare⟩

-- From empty, by any such actions, and with memory refused and builders failing at any point: walked in order the map gives
-- its entries by strictly increasing keys, popped dry from either side it gives them as they are met from there, it counts
-- its keys rightly and gives a key at most one entry, and the next action does what it means. So what was put last under a
-- key is got under the keys of its class, and under no other.
theorem history_refines_sorted_map (r : PureOrder κ) (lawful : r.Lawful) (config : TreeConfig)
    (origin start : Session (TreeMap κ ν) ω) (lowered : origin.gate.busy = false)
    (configured : configure config origin = .ok (.ok ()) start) (actions : List (TreeMapAction κ ν ω))
    (keeping : ∀ action ∈ actions, action.Keeping) :
    let s := Session.performed (act r.rule) actions start
    start.store.pool.contents = 0 ∧ s.store.len = s.store.pool.contents.card ∧
      (∀ key, ∃! entry, Under (r.compare · · = .eq) key s.store entry) ∧
      (∃ listing, s.store.entries = .ok listing ∧ Lists r.onKeys.Ascends s.store listing ∧ ∀ side,
        let drained := Session.performAll (act r.rule) (List.replicate s.store.len (.pop side)) s
        drained.1 = (fromSide side (listing.map (·.2))).map (fun entry => .ok (.entries (.element (some entry)))) ∧
          drained.2.store.pool.contents = 0) ∧
      (∀ action, action.Keeping →
        Does r s (s.perform (act r.rule action)).2 action (s.perform (act r.rule action)).1) ∧
      ∀ action reply after key value, action.Keeping → act r.rule (.common action) s = .ok reply after →
        Stores action reply key value → ∀ wanted,
          (r.compare key wanted = .eq → act r.rule (.common (.get wanted)) after = .ok (.value (some value)) after) ∧
          (¬ r.compare key wanted = .eq → ∃ got, act r.rule (.common (.get wanted)) s = .ok got s ∧
            act r.rule (.common (.get wanted)) after = .ok got after) := by
  intro s
  obtain ⟨sound, gate⟩ := (configure_returns config origin).returned configured rfl
  have first : Settled (Ascending r.onKeys) start := ⟨⟨.nil, sound, .nil⟩, gate.trans lowered⟩
  have settled : Settled (Ascending r.onKeys) s := Session.performed_keeps first actions fun action member s settled =>
    (act_performed lawful (keeping action member) settled).2
  obtain ⟨⟨t, proper⟩, _⟩ := id settled
  have lists := lists_listing proper
  have counted : (listing t s.store).length = s.store.len := by
    rw [Store.len, ← proper.sound.card_eq, lists.all, Multiset.coe_card, List.length_map]
  refine ⟨sound.contents_eq, proper.sound.card_eq.symm, KeyedAccess.under_unique (access_exact lawful) settled,
    ⟨_, entries_eq proper.sound, lists, ?_⟩, ?_, ?_⟩
  · intro side
    have perm := fromSide_perm side ((listing t s.store).map (·.2))
    have drained := pops_drain lawful side settled (lists.all.trans (Multiset.coe_eq_coe.mpr perm.symm))
      ((precedes_fromSide side lists.ordered).imp precedes_onKeys.mp)
    rwa [perm.length_eq, List.length_map, counted] at drained
  · exact fun action keeping => (act_performed lawful keeping settled).1
  · intro action reply after key value keeping ran stores wanted
    exact KeyedAccess.get_written (access_exact lawful) settled keeping ran stores wanted

-- Numbers in their own order: one is given a value twice, one is built, one is moved under another key, and the least goes.
theorem history_refines_sorted_map_of_numbers :
    let r : PureOrder Nat := ⟨compare⟩
    let origin : Session (TreeMap Nat Nat) World := ⟨empty, false, World.fresh⟩
    let start : Session (TreeMap Nat Nat) World := ⟨⟨⟨#[.sentinel], 5, 0⟩, ⟨0⟩⟩, false, World.fresh⟩
    let actions : List (TreeMapAction Nat Nat World) := [.common (.entries (.extend [⟨6, 1⟩, ⟨3, 2⟩, ⟨6, 7⟩])),
      .common (.replace 3 4), .common (.fetch 9 (pure 5) (· + 1)), .updateAll fun i => (· * i),
      .common (.extract 6 (fun entry => ⟨4, entry.value⟩) .reinsert), .pop .left]
    r.Lawful ∧ configure ⟨4⟩ origin = .ok (.ok ()) start ∧ (∀ action ∈ actions, action.Keeping) ∧
      ∃ listing, TreeSet.entries (Session.performed (act r.rule) actions start).store = .ok listing ∧
        Lists r.onKeys.Ascends (Session.performed (act r.rule) actions start).store listing := by
  intro r origin start actions
  have lawful : r.Lawful := by
    refine ⟨?_, ?_, ?_⟩
    · exact fun a b => (Nat.compare_swap a b).symm
    · intro a b c first second
      exact Nat.compare_eq_lt.mpr ((Nat.compare_eq_lt.mp first).trans (Nat.compare_eq_lt.mp second))
    · intro a b c same
      cases Nat.compare_eq_eq.mp same
      rfl
  have configured : configure ⟨4⟩ origin = .ok (.ok ()) start := rfl
  have keeping : ∀ action ∈ actions, action.Keeping := by
    intro action member
    simp only [actions, List.mem_cons, List.not_mem_nil, or_false] at member
    rcases member with rfl | rfl | rfl | rfl | rfl | rfl
    · exact fun _ _ same => by cases same
    · trivial
    · exact fun _ _ => rfl
    · trivial
    · trivial
    · trivial
  obtain ⟨listing, walked, lists, _⟩ :=
    (history_refines_sorted_map r lawful _ origin start rfl configured actions keeping).2.2.2.1
  exact ⟨lawful, configured, keeping, listing, walked, lists⟩

end TreeMap
end Slotted
