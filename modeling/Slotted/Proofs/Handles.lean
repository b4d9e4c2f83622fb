import Slotted.Datum.World
import Slotted.Proofs.Action.History
import Slotted.Proofs.HashSet.Start
import Slotted.Proofs.HashSet.Standing
import Slotted.Proofs.TreeSet.Start
import Slotted.Proofs.TreeSet.Standing
namespace Slotted

variable {α ω β γ κ : Type}

-- Something holds of every action of a history, and of the state that it meets.
def Session.Throughout (act : γ → Update κ ω β) (holds : Session κ ω → γ → Prop) : List γ → Session κ ω → Prop
  | [], _ => True
  | action :: actions, s => holds s action ∧ Throughout act holds actions (s.perform (act action)).2

-- What changes in place come to, each made to what the last one left.
def Amounts (alters : γ → (α → α) → Prop) : List γ → (α → α) → Prop
  | [], f => f = id
  | action :: actions, f => ∃ first rest, alters action first ∧ Amounts alters actions rest ∧ f = rest ∘ first

-- The action has come to its end, and what it took out did not go back to its slot.
def Departs (answer : Except Fault (Reply α)) : Prop := ∃ reply, answer = .ok reply ∧ ¬ reply.Back

open Store Pool Session

section Histories

variable {ι μ : Type} {act : γ → Update (Store ι α μ) ω (Reply α)} {disturbs : Session (Store ι α μ) ω → γ → Prop}
  {takes : Session (Store ι α μ) ω → Handle → γ → Prop} {alters : γ → Handle → (α → α) → Prop}
  {s : Session (Store ι α μ) ω}

-- What a handle that resolves now can be relied on for, as long as no action renumbers or clears.
structure Reliable (act : γ → Update (Store ι α μ) ω (Reply α)) (disturbs : Session (Store ι α μ) ω → γ → Prop)
    (takes : Session (Store ι α μ) ω → Handle → γ → Prop) (alters : γ → Handle → (α → α) → Prop)
    (s : Session (Store ι α μ) ω) (h : Handle) (value : α) : Prop where
  -- it stays with its element
  stays : ∀ later, Throughout act (fun s action => ¬ disturbs s action) later s →
    Throughout act (fun s action => ¬ takes s h action) later s →
    ∃ f, Amounts (alters · h) later f ∧ (performed act later s).store.get? h = some (f value)
  -- the element goes when it is taken
  leaves : ∀ action, takes s h action → Departs (s.perform (act action)).1 →
    (s.perform (act action)).2.store.get? h = none
  -- and then nothing takes its place
  vacant : ∀ later further, Throughout act (fun s action => ¬ disturbs s action) (later ++ further) s →
    (performed act later s).store.get? h = none → (performed act (later ++ further) s).store.get? h = none

structure Firm (act : γ → Update (Store ι α μ) ω (Reply α)) (disturbs : Session (Store ι α μ) ω → γ → Prop)
    (takes : Session (Store ι α μ) ω → Handle → γ → Prop) (alters : γ → Handle → (α → α) → Prop) : Prop where
  stands : ∀ (s : Session (Store ι α μ) ω) action, s.store.pool.Bounded → Always (act action) s fun after =>
    Stands (disturbs s action) (outcome (takes s · action) (alters action)) s.store.pool after.store.pool
  vacates : ∀ (s : Session (Store ι α μ) ω) action h, s.store.pool.Bounded → s.store.get? h ≠ none →
    takes s h action → Ends (act action) s (fun reply after => ¬ reply.Back → after.store.get? h = none) fun _ _ => True

theorem throughout_append {holds : Session κ ω → β → Prop} {act : β → Update κ ω γ} {earlier later : List β}
    {s : Session κ ω} (throughout : Throughout act holds (earlier ++ later) s) :
    Throughout act holds earlier s ∧ Throughout act holds later (performed act earlier s) := by
  induction earlier generalizing s with
  | nil => exact ⟨trivial, throughout⟩
  | cons action earlier ih =>
    obtain ⟨first, rest⟩ := throughout
    obtain ⟨before, after⟩ := ih rest
    exact ⟨⟨first, before⟩, after⟩

-- What holds at first, and is kept by every action that is fair where it comes, holds at last.
theorem throughout_keeps {holds : Session κ ω → Prop} {fair : Session κ ω → γ → Prop} {act : γ → Update κ ω β}
    {actions : List γ} {s : Session κ ω} (first : holds s) (throughout : Throughout act fair actions s)
    (kept : ∀ s action, holds s → fair s action → holds (s.perform (act action)).2) : holds (performed act actions s) := by
  induction actions generalizing s with
  | nil => exact first
  | cons action actions ih =>
    obtain ⟨here, rest⟩ := throughout
    exact ih (kept s action first here) rest

namespace Firm

variable (firm : Firm act disturbs takes alters)
include firm

theorem performs (bounded : s.store.pool.Bounded) (action : γ) :
    Stands (disturbs s action) (outcome (takes s · action) (alters action)) s.store.pool
      (s.perform (act action)).2.store.pool :=
  perform_tells (fun _ (after : Session (Store ι α μ) ω) => Stands (disturbs s action)
    (outcome (takes s · action) (alters action)) s.store.pool after.store.pool) (firm.stands s action bounded)

theorem bounded_performed (bounded : s.store.pool.Bounded) (actions : List γ) :
    (performed act actions s).store.pool.Bounded := by
  have kept : ∀ action ∈ actions, ∀ s : Session (Store ι α μ) ω, s.store.pool.Bounded →
      (s.perform (act action)).2.store.pool.Bounded := fun action _ _ bounded => (firm.performs bounded action).bounded
  exact performed_keeps bounded actions kept

-- The induction is on the actions to come: each leaves the element to the next as it made it.
theorem stays {h : Handle} {value : α} (bounded : s.store.pool.Bounded) (held : s.store.get? h = some value)
    (later : List γ) (calm : Throughout act (fun s action => ¬ disturbs s action) later s)
    (kept : Throughout act (fun s action => ¬ takes s h action) later s) :
    ∃ f, Amounts (alters · h) later f ∧ (performed act later s).store.get? h = some (f value) := by
  induction later generalizing s value with
  | nil => exact ⟨id, rfl, held⟩
  | cons action later ih =>
    obtain ⟨calm, calm'⟩ := calm
    obtain ⟨kept, kept'⟩ := kept
    have stands := firm.performs bounded action
    have inside : h.index < s.store.pool.slots.size := isActive_lt (isActive_of_get? held)
    rcases (stands.keeps calm).fate h inside with ⟨taken, _⟩ | ⟨first, altered, same⟩
    · exact absurd taken kept
    · have held' : (s.perform (act action)).2.store.get? h = some (first value) := by
        rw [Store.get?, same]
        exact congrArg (Option.map first) held
      obtain ⟨rest, amounts, last⟩ := ih stands.bounded held' calm' kept'
      exact ⟨rest ∘ first, ⟨first, rest, altered, amounts, rfl⟩, last⟩

-- The induction is on the actions to come: the number was given out, and no element is put under it again.
theorem vacant {h : Handle} (bounded : s.store.pool.Bounded) (inside : h.index < s.store.pool.slots.size)
    (absent : s.store.get? h = none) (later : List γ)
    (calm : Throughout act (fun s action => ¬ disturbs s action) later s) : (performed act later s).store.get? h = none := by
  induction later generalizing s with
  | nil => exact absent
  | cons action later ih =>
    obtain ⟨calm, calm'⟩ := calm
    have stands := firm.performs bounded action
    have keeps := stands.keeps calm
    exact ih stands.bounded (keeps.inside h inside) (absent_after keeps inside absent) calm'

theorem inside {h : Handle} (bounded : s.store.pool.Bounded) (inside : h.index < s.store.pool.slots.size)
    (later : List γ) (calm : Throughout act (fun s action => ¬ disturbs s action) later s) :
    h.index < (performed act later s).store.pool.slots.size := by
  induction later generalizing s with
  | nil => exact inside
  | cons action later ih =>
    obtain ⟨calm, calm'⟩ := calm
    have stands := firm.performs bounded action
    exact ih stands.bounded ((stands.keeps calm).inside h inside) calm'

theorem reliable {h : Handle} {value : α} (bounded : s.store.pool.Bounded) (held : s.store.get? h = some value) :
    Reliable act disturbs takes alters s h value where
  stays later calm kept := firm.stays bounded held later calm kept
  leaves action taken departs := by
    obtain ⟨reply, ended, away⟩ := departs
    have there : s.store.get? h ≠ none := by
      rw [held]
      exact Option.some_ne_none value
    have told := perform_tells (fun answer after => ∀ reply, answer = .ok reply → ¬ reply.Back → after.store.get? h = none)
      ((firm.vacates s action h bounded there taken).imp (fun _ _ gone reply same => by cases same; exact gone)
        fun _ _ _ reply same => by cases same)
    exact told reply ended away
  vacant later further calm absent := by
    obtain ⟨before, after⟩ := throughout_append calm
    have given := firm.inside bounded (isActive_lt (isActive_of_get? held)) later before
    rw [performed_append]
    exact firm.vacant (firm.bounded_performed bounded later) given absent further after

end Firm
end Histories

variable [Allocator ω]

-- All that disturbs handles: closing up tombstones, in the cases that are told, and clearing.
def HashSet.Disturbs (rule : HashRule (HashSet α) ω α) (s : Session (HashSet α) ω) (action : HashSetAction α ω) : Prop :=
  Compacts rule s action ∨ action = .common .clear

def TreeSet.Disturbs (rule : OrderRule (TreeSet α) ω α) (s : Session (TreeSet α) ω) (action : TreeSetAction α ω) : Prop :=
  Compacts rule s action ∨ action = .common .clear

theorem HashSet.firm (rule : HashRule (HashSet α) ω α) :
    Firm (act rule) (Disturbs rule) (Takes rule) fun action h => action.Alters h where
  stands _ action bounded := act_stands rule action bounded
  vacates _ action h bounded there taken := act_vacates rule action bounded h there taken

theorem TreeSet.firm (rule : OrderRule (TreeSet α) ω α) :
    Firm (act rule) (Disturbs rule) (Takes rule) fun action h => action.Alters h where
  stands _ action bounded := act_stands rule action bounded
  vacates _ action h bounded there taken := act_vacates rule action bounded h there taken

-- Under any rule, lawful or not, and after any history, faults and refusals among it: whatever a handle resolves to, it
-- can be relied on.
theorem history_keeps_handles :
    (∀ (rule : HashRule (HashSet α) ω α) (config : HashConfig) (origin start : Session (HashSet α) ω),
      HashSet.configure config origin = .ok (.ok ()) start → ∀ earlier h value,
      (performed (HashSet.act rule) earlier start).store.get? h = some value →
      Reliable (HashSet.act rule) (HashSet.Disturbs rule) (HashSet.Takes rule) (fun action h => action.Alters h)
        (performed (HashSet.act rule) earlier start) h value) ∧
    ∀ (rule : OrderRule (TreeSet α) ω α) (config : TreeConfig) (origin start : Session (TreeSet α) ω),
      TreeSet.configure config origin = .ok (.ok ()) start → ∀ earlier h value,
      (performed (TreeSet.act rule) earlier start).store.get? h = some value →
      Reliable (TreeSet.act rule) (TreeSet.Disturbs rule) (TreeSet.Takes rule) (fun action h => action.Alters h)
        (performed (TreeSet.act rule) earlier start) h value := by
  constructor
  · intro rule config origin start configured earlier h value held
    have sound := ((HashSet.configure_returns config origin).returned configured rfl).1
    exact (HashSet.firm rule).reliable ((HashSet.firm rule).bounded_performed sound.tidy.bounded earlier) held
  · intro rule config origin start configured earlier h value held
    have sound := ((TreeSet.configure_returns config origin).returned configured rfl).1
    exact (TreeSet.firm rule).reliable ((TreeSet.firm rule).bounded_performed sound.tidy.bounded earlier) held

-- A hash set that loses one element, has another changed and takes in a third; a tree that loses a node with two children.
theorem history_keeps_handles_of_numbers :
    let hashing : HashRule (HashSet Nat) World Nat := PureHash.rule ⟨fun n => UInt32.ofNat (n % 3), fun a b => a == b⟩
    let ordering : OrderRule (TreeSet Nat) World Nat := PureOrder.rule ⟨compare⟩
    let chained : Session (HashSet Nat) World := ⟨⟨⟨#[.sentinel], 5, 0⟩, ⟨#[0, 0, 0], 60⟩⟩, false, World.fresh⟩
    let sorted : Session (TreeSet Nat) World := ⟨⟨⟨#[.sentinel], 5, 0⟩, ⟨0⟩⟩, false, World.fresh⟩
    let one : Handle := ⟨1, Nat.one_pos⟩
    let two : Handle := ⟨2, Nat.two_pos⟩
    (∃ f, Amounts (fun action (f : Nat → Nat) => HashSetAction.Alters (ω := World) one f action)
        [.common (.remove two), .common (.change one (· + 1)), .rehash] f ∧
      (performed (HashSet.act hashing) [.common (.remove two), .common (.change one (· + 1)), .rehash]
        (performed (HashSet.act hashing) [.common (.extend [3, 6, 9])] chained)).store.get? one = some (f 3)) ∧
    (performed (TreeSet.act ordering) [.common (.remove one), .common (.change two (· + 1))]
        (performed (TreeSet.act ordering) [.common (.extend [6, 3, 9])] sorted)).store.get? one = none := by
  intro hashing ordering chained sorted one two
  constructor
  · have configured : HashSet.configure ⟨4, 60⟩ ⟨HashSet.empty 0, false, World.fresh⟩ = .ok (.ok ()) chained := by
      with_unfolding_all rfl
    have held : (performed (HashSet.act hashing) [.common (.extend [3, 6, 9])] chained).store.get? one = some 3 := by
      decide +kernel
    refine (history_keeps_handles.1 hashing _ _ chained configured _ one 3 held).stays _ ?_ ?_
    · refine ⟨?_, ?_, ?_, trivial⟩ <;> rintro (none | same)
      · exact none
      · cases same
      · exact none
      · cases same
      · exact none
      · cases same
    · refine ⟨?_, id, id, trivial⟩
      intro same
      exact absurd (congrArg Handle.index same) (by decide)
  · have configured : TreeSet.configure ⟨4⟩ ⟨TreeSet.empty, false, World.fresh⟩ = .ok (.ok ()) sorted := rfl
    have held : (performed (TreeSet.act ordering) [.common (.extend [6, 3, 9])] sorted).store.get? one = some 6 := by
      decide +kernel
    refine (history_keeps_handles.2 ordering _ _ sorted configured _ one 6 held).vacant [.common (.remove one)]
      [.common (.change two (· + 1))] ?_ ?_
    · refine ⟨?_, ?_, trivial⟩ <;> rintro (none | same)
      · exact none
      · cases same
      · exact none
      · cases same
    · decide +kernel

end Slotted
