import Slotted.Proofs.Store.Standing
import Slotted.Action.Set
namespace Slotted

variable {ι α μ ω β γ κ : Type}

theorem Walker.run_keeps {κ γ β : Type} {w : Walker κ ω γ β} {holds : Session κ ω → Prop}
    (start : ∀ s, holds s → Always w.start s holds) (front : ∀ c s, holds s → Always (w.front c) s holds)
    (back : ∀ c s, holds s → Always (w.back c) s holds) (strides : List Stride) {s : Session κ ω} (first : holds s) :
    Always (w.run strides) s holds := by
  have onward : ∀ c s, holds s → Always (w.runFrom c strides) s holds := by
    induction strides with
    | nil => exact fun _ _ now => now
    | cons stride strides ih =>
      intro c s now
      cases stride with
      | count => exact (ih c s now).then fun _ _ after => after
      | front => exact (front c s now).then fun step s now => (ih step.2 s now).then fun _ _ after => after
      | back => exact (back c s now).then fun step s now => (ih step.2 s now).then fun _ _ after => after
  rw [Walker.run]
  exact (start s first).then fun c s now => onward c s now

-- Something happens while values are dealt with one after another, each from the state that the last one left.
inductive Along (step : β → Update κ ω γ) (event : Session κ ω → β → Prop) : List β → Session κ ω → Prop where
  | here {value : β} {values : List β} {s : Session κ ω} : event s value → Along step event (value :: values) s
  | later {value : β} {values : List β} {s after : Session κ ω} {answer : γ} : step value s = .ok answer after →
    Along step event values after → Along step event (value :: values) s

-- A value that a search does not find is about to go into a pool that has slack.
structure Squeezes (search : Query (Store ι α μ) ω (Option Handle)) (s : Session (Store ι α μ) ω) : Prop where
  absent : s.Finds search none
  slack : s.store.pool.Slack

-- The only cases in which an action closes up tombstones.
def Access.Compacts (access : Access ι α μ ω) (s : Session (Store ι α μ) ω) : SetAction α → Prop
  | .reorder => s.store.len < s.store.pool.used
  | .resize capacity => capacity < s.store.pool.used
  | .reserve additional =>
    s.store.capacity < s.store.pool.used + additional ∧ s.store.len + additional ≤ s.store.capacity
  | .insert value | .tryInsert value => Squeezes (access.find value) s
  | .extend values => Along access.insert (fun s value => Squeezes (access.find value) s) values s
  | _ => False

-- The element under a handle is what an action removes or takes out.
def Access.Takes [Inhabited μ] [Index ι μ] (access : Access ι α μ ω) (s : Session (Store ι α μ) ω) (h : Handle) :
    SetAction α → Prop
  | .remove g | .extract g _ _ => g = h
  | .take value | .extractEqual value _ _ => s.Finds (access.find value) (some h)
  | .takeAll values => Along (fun value => Store.take (access.find value))
    (fun s value => s.Finds (access.find value) (some h)) values s
  | _ => False

def SetAction.Alters (h : Handle) (f : α → α) : SetAction α → Prop
  | .change g new => f = if h.index = g.index then new else id
  | _ => f = id

def Ended.Back : Ended α → Prop
  | .reinserted _ fresh => fresh = true
  | _ => False

def Reply.Back : Reply α → Prop
  | .ended _ got => got.Back
  | _ => False

open Store Pool

-- An element is taken, or stays as what it was made into. What is not there stays away.
def outcome (takes : Handle → Prop) (alters : Handle → (α → α) → Prop) : Fate α :=
  fun h before after => takes h ∧ before ≠ none ∨ ∃ f, alters h f ∧ after = before.map f

def unaltered : Handle → (α → α) → Prop := fun _ f => f = id

theorem outcome_of_still {takes : Handle → Prop} {h : Handle} {a b : Option α} (same : still h a b) :
    outcome takes unaltered h a b := by
  refine .inr ⟨id, rfl, ?_⟩
  rw [Option.map_id]
  exact same

theorem stands_quietly {program : Update (Store ι α μ) ω β} {s : Session (Store ι α μ) ω} {shifts more : Prop}
    {takes : Handle → Prop} (always : Always program s fun after => Stands shifts still s.store.pool after.store.pool) :
    Always program s fun after => Stands (shifts ∨ more) (outcome takes unaltered) s.store.pool after.store.pool :=
  always.imp fun _ stands => stands.imp .inl fun _ _ _ => outcome_of_still

theorem outcome_of_leaving {takes : Handle → Prop} {g h : Handle} {a b : Option α} (taken : takes g)
    (left : leaving g.index h a b) : outcome takes unaltered h a b := by
  rcases left with same | ⟨here, gone⟩
  · exact outcome_of_still same
  · cases Handle.ext_index here
    by_cases bare : a = none
    · refine outcome_of_still (gone.trans ?_)
      exact bare.symm
    · exact .inl ⟨taken, bare⟩

theorem outcome_mono {takes takes' : Handle → Prop} {alters : Handle → (α → α) → Prop} (more : ∀ h, takes h → takes' h)
    {h : Handle} {a b : Option α} (met : outcome takes alters h a b) : outcome takes' alters h a b :=
  met.imp (fun taken => ⟨more h taken.1, taken.2⟩) id

theorem outcome_transitive (takes : Handle → Prop) : Fate.Transitive (outcome (α := α) takes unaltered) := by
  intro h a b c first second
  rcases first with taken | ⟨f, rfl, same⟩
  · exact .inl taken
  · rw [Option.map_id] at same
    cases same
    exact second

theorem absent_after {takes : Handle → Prop} {alters : Handle → (α → α) → Prop} {p q : Pool α μ} {h : Handle}
    (keeps : Keeps (outcome takes alters) p q) (inside : h.index < p.slots.size) (absent : p.get? h.index = none) :
    q.get? h.index = none := by
  rcases keeps.fate h inside with ⟨_, there⟩ | ⟨f, _, same⟩
  · exact absurd absent there
  · rw [same, absent]
    rfl

theorem inside_of_get? {p : Pool α μ} {h : Handle} (there : p.get? h.index ≠ none) : h.index < p.slots.size := by
  obtain ⟨value, held⟩ := Option.ne_none_iff_exists'.mp there
  exact isActive_lt (isActive_of_get? held)

theorem makeRoom_squeezes [Inhabited μ] [Index ι μ] [LinkingIndex ι μ] [Allocator ω]
    {search : Query (Store ι α μ) ω (Option Handle)} {s first : Session (Store ι α μ) ω} (absent : s.Finds search none)
    (bounded : s.store.pool.Bounded) (same : first.store = s.store) {rest : Except CapacityError Bool → Update (Store ι α μ) ω β}
    (onward : ∀ answer middle, middle.store.pool.Bounded → Always (rest answer) middle fun after =>
      Stands False still middle.store.pool after.store.pool) :
    Always (makeRoom >>= rest) first fun after => Stands (Squeezes search s) still s.store.pool after.store.pool := by
  have made : Always makeRoom first fun after => Stands (Squeezes search s) still s.store.pool after.store.pool := by
    have roomed := makeRoom_stands (s := first) (same ▸ bounded)
    rw [same] at roomed
    exact roomed.imp fun after stands => stands.imp (fun slack => ⟨absent, slack⟩) fun _ _ _ => id
  refine made.then ?_
  intro answer middle stands
  refine (onward answer middle stands.bounded).imp ?_
  exact fun after later => stands.after_still (later.imp False.elim fun _ _ _ => id)

namespace Access

section Steps

variable [Inhabited μ] [Index ι μ] [LinkingIndex ι μ] {s : Session (Store ι α μ) ω}

theorem removeEdit_stands (bounded : s.store.pool.Bounded) (h : Handle) :
    Ends (Update.edit (Store.remove h)) s
      (fun _ after => Stands False (leaving h.index) s.store.pool after.store.pool ∧ after.store.get? h = none)
      fun _ after => Stands False (leaving h.index) s.store.pool after.store.pool := by
  rw [Update.ends_edit]
  refine (remove_stands bounded h).returning ?_
  intro _ after told
  exact ⟨told.1, get?_idle told.2⟩

theorem take_stands (bounded : s.store.pool.Bounded) (search : Query (Store ι α μ) ω (Option Handle)) :
    Ends (Store.take search) s
      (fun _ after => Stands False (outcome (fun h => s.Finds search (some h)) unaltered) s.store.pool after.store.pool ∧
        ∀ h, s.Finds search (some h) → after.store.get? h = none)
      fun _ after => Stands False (outcome (fun h => s.Finds search (some h)) unaltered) s.store.pool after.store.pool := by
  have kept : ∀ {p q : Pool α μ}, Stands False still p q →
      Stands False (outcome (fun h => s.Finds search (some h)) unaltered) p q :=
    fun stands => stands.imp id fun _ _ _ => outcome_of_still
  unfold Store.take
  refine Ends.bind ((Ends.known (ask_stands _ bounded search)).faulting fun _ _ => kept) ?_
  intro found middle told
  obtain ⟨asked, stands⟩ := told
  have finds := Session.finds_of_ask asked
  cases found with
  | none =>
    refine ⟨kept stands, ?_⟩
    intro h finds'
    cases finds.unique finds'
  | some g =>
    refine (removeEdit_stands stands.bounded g).imp ?_ ?_
    · intro _ after removed
      refine ⟨(stands.after_still removed.1).imp id fun _ _ _ => outcome_of_leaving finds, ?_⟩
      intro h finds'
      cases finds.unique finds'
      exact removed.2
    · intro _ after removed
      exact (stands.after_still removed).imp id fun _ _ _ => outcome_of_leaving finds

theorem takeEach_stands (search : β → Query (Store ι α μ) ω (Option Handle)) (values : List β)
    (bounded : s.store.pool.Bounded) :
    let takes := fun (values : List β) (s : Session (Store ι α μ) ω) (h : Handle) =>
      Along (fun value => Store.take (search value)) (fun s value => s.Finds (search value) (some h)) values s
    Ends (takeEach (fun value => Store.take (search value)) values) s
      (fun _ after => Stands False (outcome (takes values s) unaltered) s.store.pool after.store.pool ∧
        ∀ h, s.store.get? h ≠ none → takes values s h → after.store.get? h = none)
      fun _ after => Stands False (outcome (takes values s) unaltered) s.store.pool after.store.pool := by
  intro takes
  induction values generalizing s with
  | nil =>
    refine ⟨.refl bounded fun _ _ => outcome_of_still rfl, ?_⟩
    intro h _ taken
    cases taken
  | cons value values ih =>
    have one : ∀ h, s.Finds (search value) (some h) → takes (value :: values) s h := fun _ finds => .here finds
    rw [takeEach]
    refine Ends.bind ((take_stands bounded (search value)).known.faulting ?_) ?_
    · intro _ after stands
      exact stands.imp id fun _ _ _ => outcome_mono one
    · intro taken middle told
      obtain ⟨ran, first, gone⟩ := told
      have two : ∀ h, takes values middle h → takes (value :: values) s h := fun _ along => .later ran along
      have both : ∀ {after : Session (Store ι α μ) ω},
          Stands False (outcome (takes values middle) unaltered) middle.store.pool after.store.pool →
          Stands False (outcome (takes (value :: values) s) unaltered) s.store.pool after.store.pool :=
        fun later => Stands.trans (first.imp id fun _ _ _ => outcome_mono one)
          (later.imp id fun _ _ _ => outcome_mono two) (outcome_transitive _)
      rw [ends_bind]
      refine (ih first.bounded).imp ?_ ?_
      · intro n after told
        obtain ⟨second, gone'⟩ := told
        refine ⟨both second, ?_⟩
        intro h there taken
        have inside := (first.keeps id).inside h (inside_of_get? there)
        by_cases left : middle.store.get? h = none
        · exact absent_after (second.keeps id) inside left
        · cases taken with
          | here finds => exact absurd (gone h finds) left
          | later ran' along =>
            rw [ran] at ran'
            cases ran'
            exact gone' h left along
      · intro _ after second
        exact both second

end Steps

variable {access : Access ι α μ ω} {s : Session (Store ι α μ) ω}

-- What an index and a rule must bring for that. The rule may be impure and may fault.
structure Standing (access : Access ι α μ ω) : Prop where
  insert : ∀ s value, s.store.pool.Bounded → Always (access.insert value) s fun after =>
    Stands (Squeezes (access.find value) s) still s.store.pool after.store.pool
  tryInsert : ∀ s value, s.store.pool.Bounded → Always (access.tryInsert value) s fun after =>
    Stands (Squeezes (access.find value) s) still s.store.pool after.store.pool
  reinsert : ∀ s d, s.store.pool.Bounded → Ends (access.reinsert d) s
    (fun placed after => Stands False (sparing d.slot) s.store.pool after.store.pool ∧
      (placed.2 = false → after.store.pool.isActive d.slot = false))
    fun _ after => Stands False (sparing d.slot) s.store.pool after.store.pool
  walk : ∀ s strides, Always (access.walk strides) s (·.store = s.store)

section Standing

variable (standing : access.Standing)
include standing

theorem extend_stands (values : List α) (bounded : s.store.pool.Bounded) :
    Always (values.forM fun value => do let _ ← access.insert value) s fun after =>
      Stands (Along access.insert (fun s value => Squeezes (access.find value) s) values s) still s.store.pool
        after.store.pool := by
  induction values generalizing s with
  | nil => exact .stay bounded
  | cons value values ih =>
    have once : Ends (do let _ ← access.insert value : Update (Store ι α μ) ω Unit) s
        (fun _ after => (∃ placed, access.insert value s = .ok placed after) ∧
          Stands (Squeezes (access.find value) s) still s.store.pool after.store.pool)
        fun _ after => Stands (Squeezes (access.find value) s) still s.store.pool after.store.pool :=
      Ends.bind (Ends.known (standing.insert s value bounded)) fun placed _ told => ⟨⟨placed, told.1⟩, told.2⟩
    change Always ((do let _ ← access.insert value) >>= fun _ => values.forM fun value => do
      let _ ← access.insert value) s _
    refine Ends.bind (once.faulting ?_) ?_
    · intro _ after stands
      exact stands.imp (fun squeezes => .here squeezes) fun _ _ _ => id
    · intro _ middle told
      obtain ⟨⟨placed, ran⟩, first⟩ := told
      refine (ih first.bounded).imp ?_
      intro after second
      exact Stands.trans (first.imp (fun squeezes => .here squeezes) fun _ _ _ => id)
        (second.imp (.later ran) fun _ _ _ => id) still_transitive

theorem finish_stands (d : Detached) (bounded : s.store.pool.Bounded) (ending : Ending) :
    Ends (access.finish d ending) s
      (fun got after => Stands False (sparing d.slot) s.store.pool after.store.pool ∧
        (¬ got.Back → after.store.pool.isActive d.slot = false))
      fun _ after => Stands False (sparing d.slot) s.store.pool after.store.pool := by
  have dropped : Ends (Update.edit (Store.drop d)) s
      (fun _ after => Stands False (sparing d.slot) s.store.pool after.store.pool ∧
        after.store.pool.isActive d.slot = false)
      fun _ after => Stands False (sparing d.slot) s.store.pool after.store.pool := by
    rw [Update.ends_edit]
    exact drop_stands bounded d
  cases ending with
  | reinsert =>
    rw [finish]
    refine (standing.reinsert s d bounded).bind ?_
    intro placed after told
    refine ⟨told.1, ?_⟩
    intro away
    apply told.2
    cases back : placed.2 with
    | false => rfl
    | true => exact absurd back away
  | release =>
    have released : Ends (Update.edit (Store.release d)) s
        (fun _ after => Stands False (sparing d.slot) s.store.pool after.store.pool ∧
          after.store.pool.isActive d.slot = false)
        fun _ after => Stands False (sparing d.slot) s.store.pool after.store.pool := by
      rw [Update.ends_edit]
      exact release_stands bounded d
    rw [finish]
    exact released.bind fun _ _ told => ⟨told.1, fun _ => told.2⟩
  | drop =>
    rw [finish]
    exact dropped.bind fun _ _ told => ⟨told.1, fun _ => told.2⟩
  | peek =>
    rw [finish, ends_bind, ends_get]
    cases s.store.detachedValue d with
    | error fault => exact Spares.unchanged bounded
    | ok value =>
      rw [ends_bind, ends_lift]
      exact dropped.bind fun _ _ told => ⟨told.1, fun _ => told.2⟩

theorem settle_stands (d : Detached) (bounded : s.store.pool.Bounded) (change : α → α) (ending : Ending) :
    Ends (access.settle change ending (some d)) s
      (fun reply after => Stands False (sparing d.slot) s.store.pool after.store.pool ∧
        (¬ reply.Back → after.store.pool.isActive d.slot = false))
      fun _ after => Stands False (sparing d.slot) s.store.pool after.store.pool := by
  rw [settle, ends_bind, ends_get]
  cases s.store.detachedValue d with
  | error fault => exact Spares.unchanged bounded
  | ok was =>
    have changed : Always (Update.edit (Store.modifyDetached d change)) s fun after =>
        Stands False (sparing d.slot) s.store.pool after.store.pool := by
      rw [Always, Update.ends_edit, Store.modifyDetached, ends_onPool]
      exact Spares.modifyValue d.slot change s.store.pool bounded
    rw [ends_bind, ends_lift]
    refine Ends.bind changed ?_
    intro _ middle first
    have both : ∀ {after : Session (Store ι α μ) ω}, Stands False (sparing d.slot) middle.store.pool after.store.pool →
        Stands False (sparing d.slot) s.store.pool after.store.pool :=
      fun later => first.trans later (sparing_transitive _)
    rw [ends_bind]
    refine (finish_stands standing d first.bounded ending).imp ?_ ?_
    · intro got after told
      exact ⟨both told.1, told.2⟩
    · intro _ after later
      exact both later

variable [Inhabited μ] [Index ι μ] [LinkingIndex ι μ]

theorem extract_stands (bounded : s.store.pool.Bounded) (h : Handle) (change : α → α) (ending : Ending) :
    Ends (do access.settle change ending (← Update.edit (Store.extract h))) s
      (fun reply after => Stands False (outcome (· = h) unaltered) s.store.pool after.store.pool ∧
        (s.store.get? h ≠ none → ¬ reply.Back → after.store.get? h = none))
      fun _ after => Stands False (outcome (· = h) unaltered) s.store.pool after.store.pool := by
  have out : ∀ {q : Pool α μ}, s.store.get? h ≠ none → Stands False (sparing h.index) s.store.pool q →
      Stands False (outcome (· = h) unaltered) s.store.pool q := by
    intro q there stands
    refine ⟨stands.bounded, fun calm => ⟨(stands.keeps calm).inside, ?_⟩⟩
    intro g inside
    cases (stands.keeps calm).fate g inside with
    | inl here =>
      cases Handle.ext_index here
      exact .inl ⟨rfl, there⟩
    | inr same => exact outcome_of_still same
  rw [ends_bind, Update.ends_edit]
  refine (Store.extract_stands bounded h).imp ?_ ?_
  · intro answer middle told
    cases answer with
    | none => exact ⟨told.2.imp id fun _ _ _ => outcome_of_still, fun there => absurd told.1 there⟩
    | some d =>
      obtain ⟨slot, there, first, _⟩ := told
      rw [← slot] at first
      have both : ∀ {after : Session (Store ι α μ) ω}, Stands False (sparing d.slot) middle.pool after.store.pool →
          Stands False (outcome (· = h) unaltered) s.store.pool after.store.pool := by
        intro after later
        have whole := first.trans later (sparing_transitive _)
        rw [slot] at whole
        exact out there whole
      refine (settle_stands (s := ⟨middle, s.gate⟩) standing d first.bounded change ending).imp ?_ ?_
      · intro reply after told
        refine ⟨both told.1, ?_⟩
        intro _ away
        have idle := told.2 away
        rw [slot] at idle
        exact get?_idle idle
      · intro _ after later
        exact both later
  · intro _ after stands
    exact stands.imp id fun _ _ _ => outcome_of_leaving rfl

theorem extractEqual_stands [Allocator ω] (bounded : s.store.pool.Bounded) (value : α) (change : α → α) (ending : Ending) :
    let takes := fun h => s.Finds (access.find value) (some h)
    Ends (access.run (.extractEqual value change ending)) s
      (fun reply after => Stands False (outcome takes unaltered) s.store.pool after.store.pool ∧
        ∀ h, takes h → s.store.get? h ≠ none → ¬ reply.Back → after.store.get? h = none)
      fun _ after => Stands False (outcome takes unaltered) s.store.pool after.store.pool := by
  intro takes
  have kept : ∀ {after : Session (Store ι α μ) ω}, after.store = s.store →
      Stands False (outcome takes unaltered) s.store.pool after.store.pool := by
    intro after same
    rw [same]
    exact .refl bounded fun _ _ => outcome_of_still rfl
  rw [run]
  refine Update.ask_then (fun _ _ => kept) ?_
  intro found middle asked same
  have finds := Session.finds_of_ask asked
  cases found with
  | none =>
    refine ⟨kept same, ?_⟩
    intro h finds'
    cases finds.unique finds'
  | some g =>
    rw [← same] at bounded
    refine (extract_stands standing bounded g change ending).imp ?_ ?_
    · intro reply after told
      rw [same] at told
      refine ⟨told.1.imp id fun _ _ _ => outcome_mono fun h here => by rw [here]; exact finds, ?_⟩
      intro h finds'
      cases finds.unique finds'
      exact told.2
    · intro _ after stands
      rw [same] at stands
      exact stands.imp id fun _ _ _ => outcome_mono fun h here => by rw [here]; exact finds

theorem run_stands [Allocator ω] (action : SetAction α) (bounded : s.store.pool.Bounded) :
    Always (access.run action) s fun after => Stands (access.Compacts s action ∨ action = .clear)
      (outcome (access.Takes s · action) (action.Alters · ·)) s.store.pool after.store.pool := by
  have stay : Always (pure () : Update (Store ι α μ) ω Unit) s fun after =>
      Stands False still s.store.pool after.store.pool := .stay bounded
  have asked : ∀ {β : Type} (query : Query (Store ι α μ) ω β) (answer : β → Reply α),
      Always (do return answer (← Update.ask query)) s fun after =>
        Stands False still s.store.pool after.store.pool :=
    fun query answer => (ask_stands _ bounded query).then fun _ _ stands => stands
  cases action with
  | insert value => exact stands_quietly ((standing.insert s value bounded).then fun _ _ stands => stands)
  | tryInsert value =>
    refine stands_quietly ((standing.tryInsert s value bounded).then ?_)
    intro answer after stands
    cases answer <;> exact stands
  | extend values => exact stands_quietly ((extend_stands standing values bounded).then fun _ _ stands => stands)
  | find value => exact stands_quietly (asked _ _)
  | contains value => exact stands_quietly (asked (access.find value) fun found => .holds found.isSome)
  | get h => exact stands_quietly stay
  | change h change =>
    have changed : Always (Update.edit (Store.modifyAt h change)) s fun after =>
        Stands False (changing h.index change) s.store.pool after.store.pool := by
      rw [Always, Update.ends_edit]
      exact modifyAt_stands bounded h change
    refine (changed.imp fun after stands => ?_).then fun _ _ done => done
    exact stands.imp False.elim fun _ _ _ made => .inr ⟨_, rfl, made⟩
  | handleOf h =>
    rw [run, Always, ends_bind, ends_get]
    cases s.store.lend h with
    | none => exact stands_quietly stay
    | some loan =>
      have same : Always (liftM (s.store.handleOf loan)) s fun after =>
          Stands False still s.store.pool after.store.pool :=
        (always_lift _).imp fun _ same => by rw [same]; exact .stay bounded
      dsimp only
      rw [ends_bind, ends_get]
      exact stands_quietly (same.then fun _ _ stands => stands)
  | handleOfOther value => exact stands_quietly stay
  | remove h =>
    refine Always.then ((removeEdit_stands bounded h).imp ?_ ?_) fun _ _ done => done
    · exact fun _ after told => told.1.imp False.elim fun _ _ _ => outcome_of_leaving rfl
    · exact fun _ after stands => stands.imp False.elim fun _ _ _ => outcome_of_leaving rfl
  | take value =>
    refine Always.then ((take_stands bounded (access.find value)).imp ?_ ?_) fun _ _ done => done
    · exact fun _ after told => told.1.imp False.elim fun _ _ _ => id
    · exact fun _ after stands => stands.imp False.elim fun _ _ _ => id
  | takeAll values =>
    refine Always.then ((takeEach_stands access.find values bounded).imp ?_ ?_) fun _ _ done => done
    · exact fun _ after told => told.1.imp False.elim fun _ _ _ => id
    · exact fun _ after stands => stands.imp False.elim fun _ _ _ => id
  | extract h change ending =>
    refine (extract_stands standing bounded h change ending).imp ?_ ?_
    · exact fun _ after told => told.1.imp False.elim fun _ _ _ => outcome_mono fun _ same => same.symm
    · exact fun _ after stands => stands.imp False.elim fun _ _ _ => outcome_mono fun _ same => same.symm
  | extractEqual value change ending =>
    refine (extractEqual_stands standing bounded value change ending).imp ?_ ?_
    · exact fun _ after told => told.1.imp False.elim fun _ _ _ => id
    · exact fun _ after stands => stands.imp False.elim fun _ _ _ => id
  | walk strides =>
    have walked : Always (access.walk strides) s fun after => Stands False still s.store.pool after.store.pool :=
      (standing.walk s strides).imp fun _ same => by rw [same]; exact .stay bounded
    exact stands_quietly (walked.then fun _ _ stands => stands)
  | list => exact stands_quietly (asked access.list .listed)
  | isEmpty => exact stands_quietly stay
  | check => exact stands_quietly (asked access.check .checked)
  | reorder =>
    have reordered : Always (Update.edit Store.reorder) s fun after =>
        Stands (s.store.len < s.store.pool.used) still s.store.pool after.store.pool := by
      rw [Always, Update.ends_edit]
      exact reorder_stands bounded
    exact stands_quietly (reordered.then fun _ _ stands => stands)
  | clear =>
    exact ⟨bounded.clear, fun calm => absurd (.inr rfl) calm⟩
  | resize capacity => exact stands_quietly ((resize_stands bounded capacity).then fun _ _ stands => stands)
  | reserve additional => exact stands_quietly ((reserve_stands bounded additional).then fun _ _ stands => stands)

-- Whoever takes an element out leaves nothing under its handle, unless the element comes back there.
theorem run_vacates [Allocator ω] (action : SetAction α) (bounded : s.store.pool.Bounded) (h : Handle)
    (there : s.store.get? h ≠ none) (takes : access.Takes s h action) :
    Ends (access.run action) s (fun reply after => ¬ reply.Back → after.store.get? h = none) fun _ _ => True := by
  cases action with
  | remove g =>
    cases takes
    exact Ends.bind ((removeEdit_stands bounded h).imp (fun _ _ told => told.2) fun _ _ _ => trivial) fun _ _ gone _ => gone
  | take value =>
    refine Ends.bind ((take_stands bounded (access.find value)).imp (fun _ _ told => told.2) fun _ _ _ => trivial) ?_
    exact fun _ _ gone _ => gone h takes
  | takeAll values =>
    refine Ends.bind ((takeEach_stands access.find values bounded).imp (fun _ _ told => told.2) fun _ _ _ => trivial) ?_
    exact fun _ _ gone _ => gone h there takes
  | extract g change ending =>
    cases takes
    exact (extract_stands standing bounded h change ending).imp (fun _ _ told => told.2 there) fun _ _ _ => trivial
  | extractEqual value change ending =>
    refine (extractEqual_stands standing bounded value change ending).imp ?_ fun _ _ _ => trivial
    exact fun _ _ told => told.2 h takes there
  | _ => exact absurd takes id

end Standing
end Access
end Slotted
