import Slotted.Proofs.HashSet.Structure
import Slotted.Proofs.Rekeying
namespace Slotted

variable {α ω : Type}

-- Changes the elements where they are: the one under a handle, or whatever a walk comes to.
def HashSetAction.InPlace : HashSetAction α ω → Prop
  | .common (.change _ _) => True
  | .walkChanging _ _ => True
  | _ => False

namespace HashSet

open Store

-- As large as before, in as many buckets, and with an element under every handle that had one.
structure Unmoved (s after : HashSet α) : Prop where
  live : ∀ h : Handle, (after.get? h).isSome = (s.get? h).isSome
  len : after.len = s.len
  capacity : after.capacity = s.capacity
  bucketCount : after.bucketCount = s.bucketCount

-- Whatever is live leaves alone, and every other element stays in its chain.
def Removable (s : HashSet α) : Prop :=
  ∀ h value, s.get? h = some value → ∃ left, remove h s = .ok (some value) left ∧ Unlinks h s left

-- Each value is found where an equal element is, and nowhere else.
def Locates (r : PureHash α) (elements : Handle → Option α) (s : Session (HashSet α) ω) : Prop :=
  ∀ value, ∃ found, Update.ask (find r.rule value) s = .ok found s ∧
    ∀ h, found = some h ↔ ∃ stored, elements h = some stored ∧ r.equal stored value = true

variable {order : List Nat} {r : PureHash α} {start s : HashSet α}

structure Chainwise (order : List Nat) (start s : HashSet α) : Prop where
  sound : Sound order s
  capacity : s.pool.capacity = start.pool.capacity
  index : s.index = start.index

theorem amendable_chainwise (order : List Nat) (start : HashSet α) : Amendable (Chainwise order start) := by
  refine ⟨fun chainwise => chainwise.sound.tidy.idle, ?_⟩
  intro s h value chainwise held change
  obtain ⟨after, ran, sound, amends⟩ := modifyAt_run chainwise.sound held change
  refine ⟨after, ran, ?_, amends⟩
  cases (modifyAt_ok held (change h.index)).symm.trans ran
  exact ⟨sound, chainwise.capacity, chainwise.index⟩

theorem Chainwise.unmoved (chainwise : Chainwise order start s) (sound : Sound order start) : Unmoved start s := by
  refine ⟨fun h => ?_, ?_, congrArg (· - 1) chainwise.capacity, congrArg (·.heads.size) chainwise.index⟩
  · rw [Bool.eq_iff_iff, Option.isSome_iff_exists, Option.isSome_iff_exists]
    exact chainwise.sound.mem_iff.symm.trans sound.mem_iff
  · exact chainwise.sound.counted.trans sound.counted.symm

theorem removable (sound : Sound order s) : Removable s := by
  intro h value held
  obtain ⟨_, left, ran, rfl, rest, parts⟩ := (remove_returns sound held).exists
  exact ⟨left, ran, unlinks_of_parts parts sound⟩

-- A value that one element equals is found there: the chain that is searched is that of its hash.
theorem locates {s : Session (HashSet α) ω} (lawful : r.Lawful) (settled : Settled (Fresh r) s)
    (apart : Apart (r.equal · · = true) s.store) : Locates r s.store.get? s := by
  intro value
  obtain ⟨⟨order, proper⟩, lowered⟩ := settled
  obtain ⟨found, finds, answers⟩ := find_answers (ω := ω) (r := r) proper.sound value
  refine ⟨found, answers.ask_run lowered, fun h => ?_⟩
  have names := finds.names lawful proper.sound fun body member => proper.body body member
  cases found with
  | none =>
    refine iff_of_false nofun ?_
    intro given
    obtain ⟨stored, held, alike⟩ := given
    exact names stored (Pool.mem_contents.mpr ⟨_, held⟩) alike
  | some k =>
    obtain ⟨first, alike, held⟩ := names
    constructor
    · intro same
      cases same
      exact ⟨first, held, alike⟩
    · intro given
      obtain ⟨stored, there, alike'⟩ := given
      have equal := lawful.trans _ _ _ alike (lawful.symm _ _ alike')
      exact congrArg some (apart k h first stored held there equal)

theorem rehash_laid {holds : Nat → Nat → Prop} (rule : HashRule (HashSet α) ω α) : Guards (Laid holds) (rehash rule) := by
  refine Upholds.bind .get fun s => Upholds.bind (Update.guards_guarded (.each (fun i => ?_) _)) fun _ => ?_
  · refine Upholds.bind .get fun s => ?_
    split
    · exact .pure _
    · exact Upholds.bind (Update.guards_ask _) fun hash => Update.guards_edit (onPool_laid _)
  · exact Update.guards_edit rebucket_laid

variable [Allocator ω]

theorem Reached.sound {fair : HashSetAction α ω → Prop} {s : Session (HashSet α) ω} (reached : Reached (act r.rule) fair s) :
    ∃ order, Sound order s.store := by
  obtain ⟨config, origin, start, actions, _, configured, _, rfl⟩ := reached
  exact performed_sound ((configure_returns config origin).returned configured rfl).1 actions

-- An edit leaves its session with the chains of the store and with the gate as it was.
structure Edited (order : List Nat) (start s : Session (HashSet α) ω) : Prop where
  chainwise : Chainwise order start.store s.store
  gate : s.gate = start.gate

theorem act_edits {action : HashSetAction α ω} {start s : Session (HashSet α) ω} (inPlace : action.InPlace)
    (edited : Edited order start s) : Always (act r.rule action) s (Edited order start) := by
  obtain ⟨chainwise, gate⟩ := edited
  have amendable := amendable_chainwise order start.store
  cases action with
  | common action =>
    cases action with
    | change h change =>
      rw [act, Access.run, Always, ends_bind, Update.ends_edit]
      cases held : s.store.get? h with
      | none => exact Ends.of_ok (modifyAt_none held change) ⟨chainwise, gate⟩
      | some value =>
        obtain ⟨after, ran, kept, _⟩ := amendable.amend chainwise held fun _ => change
        exact Ends.of_ok ran ⟨kept, gate⟩
    | _ => exact inPlace.elim
  | walkChanging change strides =>
    rw [act, Always, ends_bind, Walker.run, ends_bind]
    refine (changingWalker_rewalks amendable strides chainwise chainwise.sound.cursor_tracks).ends ?_
    exact fun walked after told => ⟨told.kept, told.gate.trans gate⟩
  | _ => exact inPlace.elim

theorem performed_edits {start : Session (HashSet α) ω} (sound : Sound order start.store) (edits : List (HashSetAction α ω))
    (inPlace : ∀ action ∈ edits, action.InPlace) : Edited order start (Session.performed (act r.rule) edits start) := by
  refine Session.performed_keeps ⟨⟨sound, rfl, rfl⟩, rfl⟩ edits ?_
  exact fun action member s edited => Session.perform_keeps (act_edits (inPlace action member) edited)

-- A rehash moves nothing, and what is remembered afterwards is right.
structure Mended (r : PureHash α) (s after : Session (HashSet α) ω) : Prop where
  valid : Valid r after
  entries : after.store.pool.entries = s.store.pool.entries
  held : ∀ h, after.store.get? h = s.store.get? h
  unmoved : Unmoved s.store after.store

omit [Allocator ω] in
theorem rehash_mends {s : Session (HashSet α) ω} (sound : Sound order s.store) (lowered : s.gate.busy = false) :
    Returns (rehash r.rule) s fun _ after => Mended r s after ∧ Settled (Fresh r) after := by
  have laid : Always (rehash r.rule) s fun after => Laid (fun size _ => size = s.store.bucketCount) after.store :=
    rehash_laid r.rule s rfl
  refine ((rehash_ends sound).both laid).imp ?_ fun _ _ barred => Session.not_barred lowered barred.1
  intro _ after told
  obtain ⟨⟨rehashes, gate⟩, buckets⟩ := told
  have settled : Settled (Fresh r) after := ⟨⟨order, rehashes.proper⟩, gate.trans lowered⟩
  have bodies := rehashes.bodies
  refine ⟨⟨valid_of_settled settled, bodies.entries_eq, fun h => bodies.get? h.index, ?_⟩, settled⟩
  exact ⟨fun h => congrArg Option.isSome (bodies.get? h.index), bodies.count, congrArg (· - 1) bodies.capacity, buckets⟩

-- After any history, and whatever the elements were changed into. If equal ones are among them, only one of these is found.
theorem rehash_repairs_edits (r : PureHash α) (s : Session (HashSet α) ω) (reached : Reached (act r.rule) (fun _ => True) s)
    (lowered : s.gate.busy = false) (edits : List (HashSetAction α ω)) (inPlace : ∀ action ∈ edits, action.InPlace) :
    let edited := Session.performed (act r.rule) edits s
    Unmoved s.store edited.store ∧ WellChained edited.store ∧ Removable edited.store ∧
      ∃ after, rehash r.rule edited = .ok () after ∧ Mended r edited after ∧
        (r.Lawful → Apart (r.equal · · = true) edited.store → Locates r edited.store.get? after) := by
  intro edited
  obtain ⟨order, sound⟩ := reached.sound
  obtain ⟨chainwise, gate⟩ := performed_edits (r := r) sound edits inPlace
  refine ⟨chainwise.unmoved sound, wellChained chainwise.sound, removable chainwise.sound, ?_⟩
  obtain ⟨_, after, ran, mended, settled⟩ := (rehash_mends (r := r) chainwise.sound (gate ▸ lowered)).exists
  refine ⟨after, ran, mended, fun lawful apart => ?_⟩
  obtain same : after.store.get? = edited.store.get? := funext mended.held
  have apart' : Apart (r.equal · · = true) after.store := by
    rw [Apart, same]
    exact apart
  exact same ▸ locates lawful settled apart'

-- Two numbers are changed by a walk from both ends, each by more the higher its slot is, and one under its handle. The check has its complaints until the rehash.
theorem rehash_repairs_edits_of_numbers :
    let r : PureHash Nat := ⟨fun n => UInt32.ofNat (n % 3), fun a b => a == b⟩
    let start : Session (HashSet Nat) World := ⟨⟨⟨#[.sentinel], 5, 0⟩, ⟨#[0, 0, 0], 60⟩⟩, false, World.fresh⟩
    let s := Session.performed (act r.rule) [.common (.extend [3, 6, 9, 1])] start
    let edits : List (HashSetAction Nat World) :=
      [.walkChanging (fun i n => n + 25 * i) [.front, .back], .common (.change ⟨2, Nat.two_pos⟩ fun _ => 7)]
    let edited := Session.performed (act r.rule) edits s
    (check r.rule edited.store).run' edited.gate ≠ some (.ok ()) ∧
      ∃ after, rehash r.rule edited = .ok () after ∧ Valid r after ∧
        Update.ask (find r.rule 101) after = .ok (some ⟨4, by decide⟩) after ∧
        Update.ask (find r.rule 3) after = .ok none after := by
  intro r start s edits edited
  have reached : Reached (act r.rule) (fun _ => True) s :=
    ⟨⟨4, 60⟩, ⟨empty 0, false, World.fresh⟩, start, _, rfl, by with_unfolding_all rfl, fun _ _ => trivial, rfl⟩
  have inPlace : ∀ action ∈ edits, action.InPlace := by
    intro action member
    rcases List.mem_cons.mp member with rfl | member
    · trivial
    · cases List.mem_singleton.mp member
      trivial
  have told : ∃ after, rehash r.rule edited = .ok () after ∧ Mended r edited after ∧
      (r.Lawful → Apart (r.equal · · = true) edited.store → Locates r edited.store.get? after) :=
    (rehash_repairs_edits r s reached (by decide +kernel) edits inPlace).2.2.2
  obtain ⟨after, ran, mended, locates⟩ := told
  have fair : r.Lawful := PureHash.lawful_beq _
  have within : edited.store.pool.slots.size = 5 := by decide +kernel
  have once : ∀ i < 5, ∀ j < 5, edited.store.pool.get? i ≠ none → edited.store.pool.get? i = edited.store.pool.get? j →
      i = j := by decide +kernel
  have absent : ∀ i < 5, edited.store.pool.get? i ≠ some 3 := by decide +kernel
  have changed : edited.store.pool.get? 4 = some 101 := by decide +kernel
  refine ⟨by decide +kernel, after, ran, mended.valid, ?_⟩
  clear_value edited
  have inside : ∀ (h : Handle) value, edited.store.get? h = some value → h.index < 5 := by
    intro h value held
    exact within ▸ Pool.isActive_lt (Pool.isActive_of_get? held)
  have apart : Apart (r.equal · · = true) edited.store := by
    intro h k value other held found alike
    have same : value = other := by simpa [r] using alike
    refine Handle.ext_index (once _ (inside h value held) _ (inside k other found) ?_ ?_)
    · exact ne_of_eq_of_ne held (Option.some_ne_none value)
    · exact held.trans ((congrArg some same).trans found.symm)
  constructor
  · obtain ⟨found, asked, names⟩ := locates fair apart 101
    obtain rfl := (names ⟨4, by decide⟩).mpr ⟨101, changed, rfl⟩
    exact asked
  · obtain ⟨found, asked, names⟩ := locates fair apart 3
    cases found with
    | none => exact asked
    | some h =>
      obtain ⟨stored, held, alike⟩ := (names h).mp rfl
      have same : stored = 3 := by simpa [r] using alike
      exact absurd (same ▸ held) (absent _ (inside h stored held))

end HashSet
end Slotted
