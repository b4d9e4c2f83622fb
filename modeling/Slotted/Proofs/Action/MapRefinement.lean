import Slotted.Proofs.Action.MapMeaning
import Slotted.Proofs.Action.Refinement
namespace Slotted

open Store LawfulIndex

namespace Keyed

variable {ι κ ν μ ω : Type} {search : Search ι κ ν μ ω} {s : Store ι (Entry κ ν) μ} {gate : Gate ω} {found : Option Handle}

theorem entry_run (ran : search s gate = .ok found gate) :
    getEntry? search s gate = .ok (found.bind s.get?) gate := by
  unfold getEntry?
  rw [Query.bind_run, ran]
  cases found <;> rfl

theorem get?_run (ran : search s gate = .ok found gate) :
    get? search s gate = .ok ((found.bind s.get?).map (·.value)) gate := by
  rw [get?, Query.bind_run, entry_run ran]
  rfl

theorem index_run (container : Container) (ran : search s gate = .ok found gate) :
    index search container s gate = match found.bind s.get? with
      | some entry => .ok entry.value gate
      | none => .error (.keyNotFound container) gate := by
  rw [index, Query.bind_run, get?_run ran]
  cases found.bind s.get? <;> rfl

theorem make_run {make : Query (Store ι (Entry κ ν) μ) ω ν} {key : κ} {entry : Entry κ ν} {gate' : Gate ω} :
    (return ⟨key, ← make⟩ : Query (Store ι (Entry κ ν) μ) ω (Entry κ ν)) s gate = .ok entry gate' ↔
      ∃ value, entry = ⟨key, value⟩ ∧ make s gate = .ok value gate' := by
  rw [Query.bind_run]
  cases ran : make s gate with
  | ok value gate => simp [Query.pure_run, eq_comm]
  | error fault gate => simp

theorem make_fails {make : Query (Store ι (Entry κ ν) μ) ω ν} {key : κ} {fault : Fault} {gate' : Gate ω} :
    (return ⟨key, ← make⟩ : Query (Store ι (Entry κ ν) μ) ω (Entry κ ν)) s gate = .error fault gate' ↔
      make s gate = .error fault gate' := by
  rw [Query.bind_run]
  cases make s gate <;> simp [Query.pure_run]

theorem make_steady {make : Query (Store ι (Entry κ ν) μ) ω ν} (key : κ)
    (steady : ∀ store gate, Always (make store) gate (·.busy = gate.busy)) (store : Store ι (Entry κ ν) μ) (gate : Gate ω) :
    Always ((return ⟨key, ← make⟩ : Query (Store ι (Entry κ ν) μ) ω (Entry κ ν)) store) gate (·.busy = gate.busy) :=
  (steady store gate).then fun _ _ kept => kept

end Keyed

variable {ι κ ν μ ω : Type} [Inhabited μ] [Index ι μ] [lawful : LawfulIndex ι μ] [Allocator ω]

def Valueless {δ : Type} (promise : List (Entry κ ν × δ) → Prop) : Prop := ∀ {bodies bodies' : List (Entry κ ν × δ)},
  bodies'.map (Prod.map Entry.key id) = bodies.map (Prod.map Entry.key id) → promise bodies → promise bodies'

theorem Store.Proper.amends {promise : List (Entry κ ν × lawful.Memory) → Prop} {t : lawful.Shape}
    {s after : Store ι (Entry κ ν) μ} {change : Nat → ν → ν} {chosen : Nat → Prop} (proper : Proper promise t s)
    (valueless : Valueless promise) (sound : Sound t after) (amends : Amends (fun i => Entry.mapValue (change i)) chosen s after) :
    Proper promise t after :=
  ⟨sound, valueless (amends.bodies_seen Entry.key (fun _ _ => rfl) t) proper.body⟩

variable {promise : List (Entry κ ν × lawful.Memory) → Prop} {same : κ → κ → Prop} {ordered : List (Entry κ ν) → Prop}
  {blamed : Container} {access : KeyedAccess ι κ ν μ ω} {s : Session (Store ι (Entry κ ν) μ) ω} {key : κ}

theorem Keyed.stored_meets {insertion : Update (Store ι (Entry κ ν) μ) ω (Handle × Bool)}
    {make : Query (Store ι (Entry κ ν) μ) ω ν} {t : lawful.Shape} {found : Handle → Prop} {missing : Prop}
    {placed : Entry κ ν → Store ι (Entry κ ν) μ → Handle → Prop} (proper : Proper promise t s.store)
    (lowered : s.gate.busy = false) (steady : ∀ store gate, Always (make store) gate (·.busy = gate.busy))
    (alike : Equivalence same) (finds : ∀ h, found h → ∃ entry, same entry.key key ∧ s.store.get? h = some entry)
    (lacks : missing → Lacks same key s.store)
    (adds : ∀ value after h, placed ⟨key, value⟩ after h → after.pool.contents = ⟨key, value⟩ ::ₘ s.store.pool.contents ∧
      after.get? h = some ⟨key, value⟩ ∧ ∃ t', Proper promise t' after)
    (inserted : Ends insertion s
      (fun answer after => Builds (return ⟨key, ← make⟩) blamed t found missing placed s after (.ok answer))
      fun fault after => Builds (return ⟨key, ← make⟩) blamed t found missing placed s after (.error fault)) :
    Ends (Keyed.stored insertion) s
      (fun fetched after => Fetched same blamed key make s after (.ok fetched) ∧ Settled promise after)
      fun fault after => Fetched same blamed key make s after (.error fault) ∧ Settled promise after := by
  have told : Ends insertion s
      (fun answer after => (∃ value, Fetched same blamed key make s after (.ok (answer.1, value))) ∧ Settled promise after)
      fun fault after => Fetched same blamed key make s after (.error fault) ∧ Settled promise after := by
    refine inserted.imp ?_ ?_
    · intro answer after builds
      have flag := (builds.keeps_flag proper.sound (Keyed.make_steady key steady)).trans lowered
      cases builds with
      | found there stay =>
        subst stay
        obtain ⟨entry, alike, held⟩ := finds _ there
        exact ⟨⟨_, .stored alike held rfl⟩, ⟨t, proper⟩, flag⟩
      | built absent roomy ran done =>
        rw [Keyed.make_run] at ran
        obtain ⟨value, rfl, made⟩ := ran
        obtain ⟨contents, held, kept⟩ := adds _ _ _ done
        exact ⟨⟨value, .built (lacks absent) roomy made contents held⟩, kept, flag⟩
    · intro fault after builds
      have flag := (builds.keeps_flag proper.sound (Keyed.make_steady key steady)).trans lowered
      cases builds with
      | failed absent roomy ran carries =>
        rw [Keyed.make_fails] at ran
        exact ⟨.failed (lacks absent) roomy ran (carries.contents_eq proper.sound), ⟨_, proper.carries carries⟩, flag⟩
      | refused absent roomy stay full =>
        exact ⟨.refused (lacks absent) roomy stay full, ⟨t, stay ▸ proper⟩, flag⟩
  rw [Keyed.stored]
  refine told.bind ?_
  intro answer after ends
  obtain ⟨⟨value, fetched⟩, settled⟩ := ends
  obtain ⟨entry, _, rfl, held⟩ := fetched.held alike
  dsimp only
  rw [ends_bind, ends_get, Pool.value_of_get? held, ends_bind, ends_lift]
  exact ⟨fetched, settled⟩

namespace KeyedAccess

-- What an index and a rule for keys must bring, beside what they bring to the set of entries.
structure Exact (promise : List (Entry κ ν × lawful.Memory) → Prop) (same : κ → κ → Prop)
    (ordered : List (Entry κ ν) → Prop) (blamed : Container) (access : KeyedAccess ι κ ν μ ω) : Prop where
  entries : access.entries.Exact promise (Alike same) ordered blamed
  alike : Equivalence same
  valueless : Valueless promise
  find : ∀ s key, Settled promise s → ∃ found, LeadsTo same key s.store found ∧
    access.find key s.store s.gate = .ok found s.gate
  fetch : ∀ s key make, (∀ store gate, Always (make store) gate (·.busy = gate.busy)) → Settled promise s →
    Ends (access.getOrInsertWith key make) s
      (fun fetched after => Fetched same blamed key make s after (.ok fetched) ∧ Settled promise after)
      fun fault after => Fetched same blamed key make s after (.error fault) ∧ Settled promise after

variable (exact : access.Exact promise same ordered blamed)
include exact

theorem lacks_of_cons {entry : Entry κ ν} {rest : Multiset (Entry κ ν)} (settled : Settled promise s)
    (contents : s.store.pool.contents = entry ::ₘ rest) (alike : same entry.key key) :
    ∀ other ∈ rest, ¬ same other.key key :=
  Access.alone exact.entries settled contents (show Alike same entry ⟨key, entry.value⟩ from alike)

theorem under_unique (settled : Settled promise s) (key : κ) : ∃! entry, Under same key s.store entry := by
  obtain ⟨found, leads, _⟩ := exact.find s key settled
  refine ⟨_, leads.under, ?_⟩
  intro other under
  cases first : found.bind s.store.get? with
  | none =>
    have lacks : Lacks same key s.store := by simpa [first, Under] using leads.under
    cases other with
    | none => rfl
    | some other => exact absurd under.2 (lacks other under.1)
  | some entry =>
    have there : Under same key s.store (some entry) := first ▸ leads.under
    obtain ⟨rest, contents⟩ := Multiset.exists_cons_of_mem there.1
    cases other with
    | none => exact absurd there.2 (under entry there.1)
    | some other =>
      have member := under.1
      rw [contents] at member
      cases Multiset.mem_cons.mp member with
      | inl equal => rw [equal]
      | inr member => exact absurd under.2 (lacks_of_cons exact settled contents there.2 other member)

theorem modify_meets {h : Handle} {entry : Entry κ ν} (settled : Settled promise s) (held : s.store.get? h = some entry)
    (change : ν → ν) :
    Returns (Update.edit (Keyed.modifyAt h change)) s fun answer after => answer = some (entry.mapValue change) ∧
      Revalued change s.store after.store h entry ∧ after.gate = s.gate ∧ Settled promise after := by
  obtain ⟨t, proper⟩ := settled.proper
  obtain ⟨after, ran, sound, amends⟩ := modifyAt_run proper.sound held fun _ => Entry.mapValue change
  rw [Returns, Update.ends_edit]
  refine Ends.of_ok ran ⟨rfl, ⟨held, ?_, amends.contents_eq proper.sound sound held⟩, rfl, ⟨t, ?_⟩, settled.lowered⟩
  · exact (amends.touched _ rfl).trans (congrArg _ held)
  · exact proper.amends exact.valueless sound amends

theorem insert_meets {value : ν} (settled : Settled promise s) (lacks : Lacks same key s.store) :
    Ends (access.entries.insert ⟨key, value⟩) s
      (fun _ after => after.store.pool.contents = ⟨key, value⟩ ::ₘ s.store.pool.contents ∧ Settled promise after)
      fun fault after => ∃ error, fault = .growth blamed .insert error ∧ after.store = s.store ∧ NoRoom s.store error ∧
        Settled promise after := by
  refine (exact.entries.insert s ⟨key, value⟩ settled).imp ?_ ?_
  · intro placed after told
    obtain ⟨h, fresh⟩ := placed
    obtain ⟨placed, settled'⟩ := told
    cases fresh with
    | true => exact ⟨placed.2.1, settled'⟩
    | false =>
      obtain ⟨contents, entry, alike, held⟩ := placed
      have member : entry ∈ s.store.pool.contents := contents ▸ Pool.mem_contents.mpr ⟨_, held⟩
      exact absurd alike (lacks entry member)
  · intro fault after told
    obtain ⟨error, named, refused, settled'⟩ := told
    exact ⟨error, named, refused.2.1, refused.2.2, settled'⟩

theorem removeEntry_meets (key : κ) (settled : Settled promise s) :
    Returns (Keyed.removeEntry (access.find key)) s fun answer after =>
      Removed same key s.store after.store answer ∧ Settled promise after := by
  obtain ⟨found, leads, ran⟩ := exact.find s key settled
  rw [Keyed.removeEntry, Store.take, Returns, ends_bind]
  refine Ends.of_ok (Update.ask_ok ran) ?_
  cases found with
  | none => exact ⟨⟨leads, rfl⟩, settled⟩
  | some h =>
    obtain ⟨entry, alike, held⟩ := leads
    refine (Access.remove_meets exact.entries settled held).returning ?_
    intro _ after told
    obtain ⟨rfl, contents, _, settled'⟩ := told
    exact ⟨⟨alike, contents, lacks_of_cons exact settled contents alike⟩, settled'⟩

theorem remove_meets (key : κ) (settled : Settled promise s) :
    Returns (Keyed.remove (access.find key)) s fun answer after =>
      (∃ entry, Removed same key s.store after.store entry ∧ answer = entry.map (·.value)) ∧ Settled promise after := by
  refine (removeEntry_meets exact key settled).bind ?_
  intro entry after told
  exact ⟨⟨entry, told.1, rfl⟩, told.2⟩

theorem removeAll_meets (keys : List κ) (settled : Settled promise s) :
    Returns (Access.takeEach (fun key => Keyed.remove (access.find key)) keys) s fun n after =>
      (∃ taken : Multiset (Entry κ ν), s.store.pool.contents = taken + after.store.pool.contents ∧ n = taken.card ∧
        (∀ entry ∈ taken, ∃ key ∈ keys, same entry.key key) ∧ ∀ key ∈ keys, Lacks same key after.store) ∧
      Settled promise after := by
  refine Access.takeEach_counts ?_ keys settled
  intro s key settled
  refine (remove_meets exact key settled).returning ?_
  intro answer after told
  obtain ⟨⟨entry, removed, rfl⟩, settled'⟩ := told
  cases entry with
  | none =>
    obtain ⟨lacks, stay⟩ := removed
    refine ⟨⟨0, by rw [stay, zero_add], rfl, by simp⟩, ?_, settled'⟩
    rw [stay]
    exact lacks
  | some entry =>
    obtain ⟨alike, contents, lacks⟩ := removed
    exact ⟨⟨{entry}, by rw [contents, Multiset.singleton_add], rfl, by simpa using alike⟩, lacks, settled'⟩

theorem update_meets (key : κ) (change : ν → ν) (settled : Settled promise s) :
    Returns (Keyed.update (access.find key) change) s fun answer after =>
      MapMeets same ordered blamed access.container s after (.update key change) (.ok (.value answer)) ∧
        Settled promise after := by
  obtain ⟨found, leads, ran⟩ := exact.find s key settled
  rw [Keyed.update, Returns, ends_bind]
  refine Ends.of_ok (Update.ask_ok ran) ?_
  cases found with
  | none => exact ⟨⟨rfl, leads⟩, settled⟩
  | some h =>
    obtain ⟨entry, alike, held⟩ := leads
    refine (modify_meets exact settled held change).bind ?_
    intro _ after told
    obtain ⟨rfl, revalued, _, settled'⟩ := told
    exact ⟨⟨h, entry, alike, rfl, revalued⟩, settled'⟩

theorem updateAt_meets (h : Handle) (change : ν → ν) (settled : Settled promise s) :
    Returns (Update.edit (Keyed.modifyAt h change)) s fun answer after =>
      MapMeets same ordered blamed access.container s after (.updateAt h change) (.ok (.entries (.element answer))) ∧
        Settled promise after := by
  cases held : s.store.get? h with
  | none =>
    have ran : Update.edit (Keyed.modifyAt h change) s = .ok none s := by
      rw [Update.edit, Keyed.modifyAt, modifyAt_none held]
    exact Ends.of_ok ran ⟨⟨rfl, held⟩, settled⟩
  | some entry =>
    refine (modify_meets exact settled held change).returning ?_
    intro _ after told
    obtain ⟨rfl, revalued, _, settled'⟩ := told
    exact ⟨⟨entry, rfl, revalued⟩, settled'⟩

theorem replace_meets (key : κ) (value : ν) (settled : Settled promise s) :
    Ends (Keyed.replace (access.find key) (access.entries.insert ⟨key, value⟩) value) s
      (fun answer after => MapMeets same ordered blamed access.container s after (.replace key value)
        (.ok (.value answer)) ∧ Settled promise after)
      fun fault after => MapMeets same ordered blamed access.container s after (.replace key value) (.error fault) ∧
        Settled promise after := by
  obtain ⟨found, leads, ran⟩ := exact.find s key settled
  rw [Keyed.replace, ends_bind]
  refine Ends.of_ok (Update.ask_ok ran) ?_
  cases found with
  | none =>
    dsimp only
    rw [ends_bind]
    refine (insert_meets exact settled leads).imp ?_ ?_
    · intro _ after told
      exact ⟨⟨leads, told.1⟩, told.2⟩
    · intro fault after told
      obtain ⟨error, rfl, stay, full, settled'⟩ := told
      exact ⟨⟨rfl, leads, stay, full⟩, settled'⟩
  | some h =>
    obtain ⟨entry, alike, held⟩ := leads
    dsimp only
    rw [ends_bind, ends_get]
    refine (modify_meets exact settled held fun _ => value).bind ?_
    intro _ after told
    obtain ⟨rfl, revalued, _, settled'⟩ := told
    rw [held]
    exact ⟨⟨h, entry, alike, rfl, revalued⟩, settled'⟩

-- The reference that is handed out is good for one change of the value.
theorem fetch_meets (key : κ) {make : Query (Store ι (Entry κ ν) μ) ω ν} (change : ν → ν)
    (steady : ∀ store gate, Always (make store) gate (·.busy = gate.busy)) (settled : Settled promise s) :
    Ends (access.run (.fetch key make change)) s
      (fun reply after => MapMeets same ordered blamed access.container s after (.fetch key make change) (.ok reply) ∧
        Settled promise after)
      fun fault after => MapMeets same ordered blamed access.container s after (.fetch key make change) (.error fault) ∧
        Settled promise after := by
  rw [run]
  refine Ends.bind ((exact.fetch s key make steady settled).faulting fun _ _ told => told) ?_
  intro answer middle told
  obtain ⟨h, value⟩ := answer
  obtain ⟨fetched, settled'⟩ := told
  obtain ⟨entry, alike, rfl, held⟩ := fetched.held exact.alike
  refine (modify_meets exact settled' held change).bind ?_
  intro _ after told
  obtain ⟨rfl, revalued, gate, settled''⟩ := told
  exact ⟨⟨h, entry, middle, fetched, alike, rfl, rfl, revalued, gate⟩, settled''⟩

theorem extract_meets (key : κ) (change : Entry κ ν → Entry κ ν) (ending : Ending) (settled : Settled promise s) :
    Returns (access.run (.extract key change ending)) s fun reply after =>
      MapMeets same ordered blamed access.container s after (.extract key change ending) (.ok reply) ∧
        Settled promise after := by
  obtain ⟨found, leads, ran⟩ := exact.find s key settled
  rw [run, Keyed.extract, Returns, ends_bind, ends_bind]
  refine Ends.of_ok (Update.ask_ok ran) ?_
  cases found with
  | none => exact ⟨⟨rfl, leads⟩, settled⟩
  | some h =>
    obtain ⟨entry, alike, held⟩ := leads
    have extracted := Access.extract_meets exact.entries settled held change ending
    rw [Returns, ends_bind] at extracted
    refine Returns.ends extracted ?_
    intro out middle settling
    refine Returns.bind settling ?_
    intro _ after told
    obtain ⟨⟨got, rest, rfl, contents, finished⟩, settled'⟩ := told
    exact ⟨⟨alike, rest, contents, finished⟩, settled'⟩

theorem run_meets (action : MapAction (Store ι (Entry κ ν) μ) κ ν ω) (keeping : action.Keeping)
    (settled : Settled promise s) :
    Ends (access.run action) s
      (fun reply after => MapMeets same ordered blamed access.container s after action (.ok reply) ∧ Settled promise after)
      fun fault after => MapMeets same ordered blamed access.container s after action (.error fault) ∧
        Settled promise after := by
  cases action with
  | entries action =>
    exact Ends.bind (Access.run_meets exact.entries action keeping settled) fun _ _ told => told
  | find key =>
    obtain ⟨found, leads, ran⟩ := exact.find s key settled
    rw [run, ends_bind]
    exact Ends.of_ok (Update.ask_ok ran) ⟨⟨rfl, leads⟩, settled⟩
  | containsKey key =>
    obtain ⟨found, leads, ran⟩ := exact.find s key settled
    rw [run, ends_bind]
    exact Ends.of_ok (Update.ask_ok ran) ⟨⟨rfl, leads.isSome_iff⟩, settled⟩
  | get key =>
    obtain ⟨found, leads, ran⟩ := exact.find s key settled
    rw [run, ends_bind]
    exact Ends.of_ok (Update.ask_ok (Keyed.get?_run ran)) ⟨⟨rfl, _, leads.under, rfl⟩, settled⟩
  | getEntry key =>
    obtain ⟨found, leads, ran⟩ := exact.find s key settled
    rw [run, ends_bind]
    exact Ends.of_ok (Update.ask_ok (Keyed.entry_run ran)) ⟨⟨rfl, leads.under⟩, settled⟩
  | index key =>
    obtain ⟨found, leads, ran⟩ := exact.find s key settled
    have indexed := Keyed.index_run access.container ran
    have under := leads.under
    rw [run, ends_bind, Update.ends_ask, Ends, indexed]
    generalize found.bind s.store.get? = entry at under
    cases entry with
    | none => exact ⟨⟨rfl, rfl, under⟩, settled⟩
    | some entry => exact ⟨⟨rfl, entry, under, rfl⟩, settled⟩
  | update key change => exact (update_meets exact key change settled).bind fun _ _ told => told
  | updateAt h change => exact (updateAt_meets exact h change settled).bind fun _ _ told => told
  | replace key value => exact Ends.bind (replace_meets exact key value settled) fun _ _ told => told
  | fetch key make change => exact fetch_meets exact key change keeping settled
  | remove key => exact (remove_meets exact key settled).bind fun _ _ told => told
  | removeEntry key => exact (removeEntry_meets exact key settled).bind fun _ _ told => told
  | removeAll keys => exact (removeAll_meets exact keys settled).bind fun _ _ told => told
  | extract key change ending => exact (extract_meets exact key change ending settled).ends fun _ _ told => told

theorem get_run {entry : Option (Entry κ ν)} (settled : Settled promise s) (under : Under same key s.store entry) :
    access.run (.get key) s = .ok (.value (entry.map (·.value))) s := by
  obtain ⟨found, leads, ran⟩ := exact.find s key settled
  have unique : found.bind s.store.get? = entry := (under_unique exact settled key).unique leads.under under
  rw [run, bind_ok (Update.ask_ok (Keyed.get?_run ran)), unique]
  rfl

-- What was put last under a key is got under every key of its class, and under no other.
theorem get_written (settled : Settled promise s) {action : MapAction (Store ι (Entry κ ν) μ) κ ν ω}
    (keeping : action.Keeping) {reply : MapReply κ ν} {after : Session (Store ι (Entry κ ν) μ) ω}
    (ran : access.run action s = .ok reply after) {value : ν} (stores : Stores action reply key value) (wanted : κ) :
    (same key wanted → access.run (.get wanted) after = .ok (.value (some value)) after) ∧
      (¬ same key wanted → ∃ got, access.run (.get wanted) s = .ok got s ∧
        access.run (.get wanted) after = .ok got after) := by
  obtain ⟨meets, settled'⟩ := (run_meets exact action keeping settled).returned ran
  obtain ⟨within, beyond⟩ := (MapMeets.written exact.alike meets stores).under exact.alike wanted
  refine ⟨fun matching => ?_, fun apart => ?_⟩
  · obtain ⟨kept, under⟩ := within matching
    exact get_run exact settled' under
  · obtain ⟨entry, under, _⟩ := under_unique exact settled wanted
    exact ⟨_, get_run exact settled under, get_run exact settled' (beyond apart entry under)⟩

end KeyedAccess
end Slotted
