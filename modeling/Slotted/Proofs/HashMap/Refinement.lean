import Slotted.Datum.World
import Slotted.Proofs.Action.MapRefinement
import Slotted.Proofs.HashSet.Refinement
namespace Slotted

variable {κ ν ω : Type} {r : PureHash κ}

theorem PureHash.Lawful.onKeys (lawful : r.Lawful) : (r.onKeys : PureHash (Entry κ ν)).Lawful where
  refl entry := lawful.refl entry.key
  symm a b := lawful.symm a.key b.key
  trans a b c := lawful.trans a.key b.key c.key
  hash a b := lawful.hash a.key b.key

-- What a caller may do without breaking the promise about the entries.
def HashMapAction.Keeping : HashMapAction κ ν ω → Prop
  | .common action => action.Keeping
  | _ => True

namespace HashMap

open Store HashSet

variable {order : List Nat} {s : Session (HashMap κ ν) ω} {key : κ}

theorem distinct_iff {bodies : List (Entry κ ν × UInt32)} :
    Distinct r.onKeys bodies ↔ Distinct r (bodies.map (Prod.map Entry.key id)) := by
  constructor
  · intro distinct
    refine ⟨?_, List.pairwise_map.mpr distinct.apart⟩
    intro body member
    obtain ⟨entry, within, rfl⟩ := List.mem_map.mp member
    exact distinct.own entry within
  · intro distinct
    refine ⟨?_, List.pairwise_map.mp distinct.apart⟩
    intro body member
    exact distinct.own _ (List.mem_map_of_mem member)

theorem distinct_valueless (r : PureHash κ) : Valueless (Distinct (r.onKeys : PureHash (Entry κ ν))) :=
  fun same distinct => distinct_iff.mpr (same ▸ distinct_iff.mp distinct)

theorem Found.lacks (lawful : r.Lawful) (proper : Proper (Distinct r.onKeys) order s.store)
    (finds : Found (r.hash key) (fun entry => r.equal entry.key key) s.store.pool none) :
    Lacks (r.equal · · = true) key s.store :=
  finds.none_accepted proper.sound proper.body.own fun entry alike => lawful.hash entry.key key alike

theorem find_eq (key : κ) (value : ν) :
    HashSet.find r.rule.onKeys ⟨key, value⟩ = (find r.rule key : Query (HashMap κ ν) ω (Option Handle)) := rfl

theorem keyHash_answers (s : HashMap κ ν) (key : κ) : (keyHash (ω := ω) r.rule key).Answers s (r.hash key) :=
  Query.answers_guarded fun _ => rfl

theorem find_leads (lawful : r.Lawful) (key : κ) (settled : Settled (Distinct r.onKeys) s) :
    ∃ found, LeadsTo (r.equal · · = true) key s.store found ∧ find r.rule key s.store s.gate = .ok found s.gate := by
  obtain ⟨⟨order, proper⟩, lowered⟩ := settled
  obtain ⟨found, finds, answers⟩ := findBy_answers (ω := ω) proper.sound (r.hash key) fun entry => r.equal entry.key key
  refine ⟨found, ?_, ((keyHash_answers s.store key).bind answers).lowered lowered⟩
  cases found with
  | none => exact Found.lacks lawful proper finds
  | some h =>
    obtain ⟨entry, held, _, alike⟩ := finds
    exact ⟨entry, alike, held⟩

variable [Allocator ω]

theorem getOrInsertWith_meets (lawful : r.Lawful) (key : κ) {make : Query (HashMap κ ν) ω ν}
    (steady : ∀ store gate, Always (make store) gate (·.busy = gate.busy)) (settled : Settled (Distinct r.onKeys) s) :
    Ends (getOrInsertWith r.rule key make) s
      (fun fetched after => Fetched (r.equal · · = true) .hashSet key make s after (.ok fetched) ∧
        Settled (Distinct r.onKeys) after)
      fun fault after => Fetched (r.equal · · = true) .hashSet key make s after (.error fault) ∧
        Settled (Distinct r.onKeys) after := by
  obtain ⟨⟨order, proper⟩, lowered⟩ := settled
  have own : ∀ (store : HashMap κ ν) (gate : Gate ω) entry after,
      (return ⟨key, ← make⟩ : Query (HashMap κ ν) ω (Entry κ ν)) store gate = .ok entry after →
      r.onKeys.hash entry = r.hash key := by
    intro store gate entry after ran
    obtain ⟨value, rfl, _⟩ := Keyed.make_run.mp ran
    rfl
  rw [getOrInsertWith]
  refine (keyHash_answers s.store key).bind_ends (fun _ _ barred => absurd barred (Session.not_barred lowered)) ?_
  have builds := insertWith_builds proper.sound lowered (fun entry : Entry κ ν => r.equal entry.key key)
    (Keyed.make_steady key steady) own
  refine Keyed.stored_meets proper lowered steady lawful.alike ?_
    (Found.lacks lawful proper) ?_ builds
  · intro h finds
    obtain ⟨entry, held, _, alike⟩ := finds
    exact ⟨entry, alike, held⟩
  · intro value after h given
    have inserts : Inserts (r.onKeys.hash ⟨key, value⟩) (r.onKeys.equal · ⟨key, value⟩) ⟨key, value⟩ order s.store
        (⟨after, s.gate⟩ : Session (HashMap κ ν) ω).store (.ok (h, true)) := given
    obtain ⟨placed, kept⟩ := inserts.meets lawful.onKeys proper
    exact ⟨placed.2.1, placed.2.2, kept⟩

theorem access_exact (lawful : r.Lawful) :
    (access (ω := ω) r.rule : KeyedAccess Buckets κ ν ChainLink ω).Exact (Distinct r.onKeys) (r.equal · · = true)
      (fun _ => True) .hashSet where
  entries := HashSet.access_exact lawful.onKeys
  alike := lawful.alike
  valueless := distinct_valueless r
  find _ key settled := find_leads lawful key settled
  fetch _ key _ steady settled := getOrInsertWith_meets lawful key steady settled

inductive Does (r : PureHash κ) (before after : Session (HashMap κ ν) ω) :
    HashMapAction κ ν ω → Except Fault (MapReply κ ν) → Prop where
  | common {action : MapAction (HashMap κ ν) κ ν ω} {answer : Except Fault (MapReply κ ν)} :
    MapMeets (r.equal · · = true) (fun _ => True) .hashSet .hashMap before after action answer →
    Does r before after (.common action) answer
  | rehash : after.store.pool.contents = before.store.pool.contents → Does r before after .rehash (.ok (.entries .done))
  | walkChanging {change : Nat → ν → ν} {strides : List Stride} {listing : List (Handle × Entry κ ν)}
    {walked : List (Walked (Handle × Entry κ ν))} : Lists (fun _ => True) before.store listing →
    walked = consume strides (listing.map (Store.altered fun i => Entry.mapValue (change i))) →
    Revalues change (fun h => ∃ entry, .item (some (h, entry)) ∈ walked) before.store after.store →
    Does r before after (.walkChanging change strides) (.ok (.entries (.walked walked)))

theorem walkChanging_does (change : Nat → ν → ν) (strides : List Stride) (settled : Settled (Distinct r.onKeys) s) :
    Returns (act r.rule (.walkChanging change strides)) s fun reply after =>
      Does r s after (.walkChanging change strides) (.ok reply) ∧ Settled (Distinct r.onKeys) after := by
  obtain ⟨⟨order, proper⟩, lowered⟩ := settled
  refine Returns.bind (changingWalker_rewalks (amendable_sound order) strides proper.sound proper.sound.cursor_tracks) ?_
  intro walked after rewalks
  obtain ⟨shown, sound, amends, gate⟩ := rewalks
  refine ⟨.walkChanging (lists_items proper.sound) shown ?_,
    ⟨order, proper.amends (distinct_valueless r) sound amends⟩, gate ▸ lowered⟩
  intro h
  refine ⟨fun given => amends.touched h.index ?_, fun given => amends.others h.index ?_⟩
  · obtain ⟨entry, member⟩ := given
    exact ⟨h, entry, member, rfl⟩
  · intro named
    obtain ⟨h', entry, member, index⟩ := named
    have same : h' = h := by
      cases h
      cases h'
      cases index
      rfl
    exact given ⟨entry, same ▸ member⟩

theorem act_does (lawful : r.Lawful) {action : HashMapAction κ ν ω} (keeping : action.Keeping)
    (settled : Settled (Distinct r.onKeys) s) :
    Ends (act r.rule action) s
      (fun reply after => Does r s after action (.ok reply) ∧ Settled (Distinct r.onKeys) after)
      fun fault after => Does r s after action (.error fault) ∧ Settled (Distinct r.onKeys) after := by
  cases action with
  | common action =>
    refine (KeyedAccess.run_meets (access_exact lawful) action keeping settled).imp ?_ ?_
    · exact fun _ _ told => ⟨.common told.1, told.2⟩
    · exact fun _ _ told => ⟨.common told.1, told.2⟩
  | rehash => exact (rehash_meets settled).bind fun _ _ told => ⟨.rehash told.1, told.2⟩
  | walkChanging change strides =>
    exact (walkChanging_does change strides settled).faulting fun _ _ => False.elim

theorem act_performed (lawful : r.Lawful) {action : HashMapAction κ ν ω} (keeping : action.Keeping)
    (settled : Settled (Distinct r.onKeys) s) :
    Does r s (s.perform (act r.rule action)).2 action (s.perform (act r.rule action)).1 ∧
      Settled (Distinct r.onKeys) (s.perform (act r.rule action)).2 :=
  Session.perform_tells (fun answer after => Does r s after action answer ∧ Settled (Distinct r.onKeys) after)
    (act_does lawful keeping settled)

-- From empty, by any such actions, and with memory refused and builders failing at any point: the map holds each key once
-- and counts its keys rightly, gives a key at most one entry, finds it whatever value is asked along with the key, and the
-- next action does what it means. So what was put last under a key is got under the keys of its class, and under no other.
theorem history_refines_map (r : PureHash κ) (lawful : r.Lawful) (config : HashConfig) (origin start : Session (HashMap κ ν) ω)
    (lowered : origin.gate.busy = false) (configured : configure config origin = .ok (.ok ()) start)
    (actions : List (HashMapAction κ ν ω)) (keeping : ∀ action ∈ actions, action.Keeping) :
    let s := Session.performed (act r.rule) actions start
    start.store.pool.contents = 0 ∧ s.store.len = s.store.pool.contents.card ∧
      s.store.pool.contents.Pairwise (fun a b => ¬ r.equal a.key b.key = true) ∧
      (∀ key, ∃! entry, Under (r.equal · · = true) key s.store entry) ∧
      (∀ key value, HashSet.find r.rule.onKeys ⟨key, value⟩ s.store s.gate = find r.rule key s.store s.gate) ∧
      (∀ action, action.Keeping →
        Does r s (s.perform (act r.rule action)).2 action (s.perform (act r.rule action)).1) ∧
      ∀ action reply after key value, action.Keeping → act r.rule (.common action) s = .ok reply after →
        Stores action reply key value → ∀ wanted,
          (r.equal key wanted = true → act r.rule (.common (.get wanted)) after = .ok (.value (some value)) after) ∧
          (¬ r.equal key wanted = true → ∃ got, act r.rule (.common (.get wanted)) s = .ok got s ∧
            act r.rule (.common (.get wanted)) after = .ok got after) := by
  intro s
  obtain ⟨sound, gate⟩ := (configure_returns config origin).returned configured rfl
  have first : Settled (Distinct r.onKeys) start :=
    ⟨⟨[], sound, fun _ none => absurd none List.not_mem_nil, .nil⟩, gate.trans lowered⟩
  have settled : Settled (Distinct r.onKeys) s := Session.performed_keeps first actions fun action member s settled =>
    (act_performed lawful (keeping action member) settled).2
  obtain ⟨⟨order, proper⟩, _⟩ := id settled
  refine ⟨sound.contents_eq, proper.sound.card_eq.symm, ⟨_, proper.sound.contents_bodies, ?_⟩, ?_, ?_, ?_, ?_⟩
  · exact List.pairwise_map.mpr proper.body.apart
  · exact KeyedAccess.under_unique (access_exact lawful) settled
  · exact fun key value => congrFun (congrFun (find_eq key value) s.store) s.gate
  · exact fun action keeping => (act_performed lawful keeping settled).1
  · intro action reply after key value keeping ran stores wanted
    exact KeyedAccess.get_written (access_exact lawful) settled keeping ran stores wanted

-- Numbers that collide: one is given a value twice, one is built, and one is moved under another key.
theorem history_refines_map_of_numbers :
    let r : PureHash Nat := ⟨fun n => UInt32.ofNat (n % 3), fun a b => a == b⟩
    let origin : Session (HashMap Nat Nat) World := ⟨empty 0, false, World.fresh⟩
    let start : Session (HashMap Nat Nat) World := ⟨⟨⟨#[.sentinel], 5, 0⟩, ⟨#[0, 0, 0], 60⟩⟩, false, World.fresh⟩
    let actions : List (HashMapAction Nat Nat World) := [.common (.entries (.extend [⟨3, 1⟩, ⟨6, 2⟩, ⟨3, 7⟩])),
      .common (.replace 3 4), .common (.fetch 9 (pure 5) (· + 1)), .walkChanging (fun i => (· * i)) [.front, .back],
      .common (.extract 6 (fun entry => ⟨4, entry.value⟩) .reinsert), .rehash]
    r.Lawful ∧ configure ⟨4, 60⟩ origin = .ok (.ok ()) start ∧ (∀ action ∈ actions, action.Keeping) ∧
      (Session.performed (act r.rule) actions start).store.pool.contents.Pairwise fun a b => ¬ r.equal a.key b.key = true := by
  intro r origin start actions
  have lawful : r.Lawful := by
    refine ⟨?_, ?_, ?_, ?_⟩ <;> simp +contextual [r]
  have configured : configure ⟨4, 60⟩ origin = .ok (.ok ()) start := by with_unfolding_all rfl
  have keeping : ∀ action ∈ actions, action.Keeping := by
    intro action member
    simp only [actions, List.mem_cons, List.not_mem_nil, or_false] at member
    rcases member with rfl | rfl | rfl | rfl | rfl | rfl
    · exact fun _ _ same => by cases same
    · trivial
    · exact fun _ _ => rfl
    · trivial
    · trivial
    · trivial
  exact ⟨lawful, configured, keeping, (history_refines_map r lawful _ origin start rfl configured actions keeping).2.2.1⟩

end HashMap
end Slotted
