import Slotted.Proofs.Lockstep
namespace Slotted

open Store Session

variable {α β μ ω ω' : Type}

-- What can be done to a hash set by one who has no hash to look under.
inductive HashlessAction (α : Type) where
  | common (action : SetAction α)
  | rehash

namespace HashlessAction

def under : HashlessAction α → HashSetAction α ω
  | common action => .common action
  | rehash => .rehash

-- No element changes where it is: its hash would be another one then, and the chains would not be rebuilt.
def Lasting : HashlessAction α → Prop
  | common action => ∀ h change, action ≠ .change h change
  | rehash => True

end HashlessAction

namespace Pool

theorem entries_bare (p : Pool α μ) : p.bare.entries = p.entries := by
  simp only [entries_eq, size_bare, get?_bare]

namespace Cursor

theorem next_bare (p : Pool α μ) (c : Cursor) : next p.bare c = next p c := by
  fun_induction next p c with
  | case1 c more rest value held => rw [next, dif_pos more, get?_bare, held]
  | case2 c more rest absent ih =>
    rw [next, dif_pos more, get?_bare, absent]
    exact ih
  | case3 c past => rw [next, dif_neg past]

theorem nextBack_bare (p : Pool α μ) (c : Cursor) : nextBack p.bare c = nextBack p c := by
  fun_induction nextBack p c with
  | case1 c more rest value held => rw [nextBack, dif_pos more, get?_bare, held]
  | case2 c more rest absent ih =>
    rw [nextBack, dif_pos more, get?_bare, absent]
    exact ih
  | case3 c past => rw [nextBack, dif_neg past]

end Cursor
end Pool

theorem Views.reads {σ τ : Type} {view : σ → τ} {s : σ} {read read' : Except Fault β} (same : read' = read) :
    Views view (liftM read : EStateM Fault σ β) (liftM read') s := by
  subst same
  cases read' with
  | ok value => exact Views.pure rfl
  | error fault => exact Views.stops fault _

def Store.Shows {ι : Type} (view : BareSet α) (s : Store ι α μ) : Prop := s.bare = view

theorem Store.Relinks.shows {ι : Type} [Inhabited μ] {program : Edit (Store ι α μ) β} (relinks : Relinks program)
    (view : BareSet α) : Upholds (Shows view) program :=
  fun s same => (relinks.unmoved s).imp fun _ still => still.trans same

namespace HashSet

variable {r : PureHash α} {s : Session (HashSet α) ω}

theorem walkFrom_views (strides : List Stride) (c : Pool.Cursor) (s : Session (HashSet α) ω) :
    Views Session.bare (walker.runFrom c strides) (BareSet.walker.runFrom c strides) s := by
  induction strides generalizing c s with
  | nil => exact Views.pure rfl
  | cons stride strides ih =>
    cases stride with
    | count => exact (ih c s).bind fun _ _ _ => Views.pure rfl
    | front =>
      refine Views.bind (Views.get (Views.reads (Pool.Cursor.next_bare s.store.pool c))) fun _ middle _ => ?_
      exact (ih _ middle).bind fun _ _ _ => Views.pure rfl
    | back =>
      refine Views.bind (Views.get (Views.reads (Pool.Cursor.nextBack_bare s.store.pool c))) fun _ middle _ => ?_
      exact (ih _ middle).bind fun _ _ _ => Views.pure rfl

theorem walk_views (strides : List Stride) (s : Session (HashSet α) ω) :
    Views Session.bare (walker.run strides) (BareSet.walker.run strides) s := by
  refine Views.get ?_
  have cursor : s.bare.store.pool.cursor = s.store.pool.cursor := by
    rw [Pool.cursor, Pool.cursor, store_bare, pool_bare, Pool.size_bare]
    rfl
  rw [cursor]
  exact walkFrom_views strides _ s

theorem refreshHash_shows (rule : HashRule (HashSet α) ω α) (view : BareSet α) (i : Nat) :
    Guards (Shows view) (refreshHash rule i) := by
  refine Upholds.bind .get fun s => ?_
  split
  · exact .pure _
  · exact Upholds.bind (Update.guards_ask _) fun hash => Update.guards_edit ((Relinks.onLink i _).shows view)

theorem rehash_shows (rule : HashRule (HashSet α) ω α) (view : BareSet α) : Guards (Shows view) (rehash rule) := by
  refine Upholds.bind .get fun s => Upholds.bind ?_ fun _ => Update.guards_edit (rebucket_relinks.shows view)
  exact Update.guards_guarded (.each (refreshHash_shows rule view) _)

variable [Allocator ω] [Allocator ω']

def hashless (r : PureHash α) (action : HashlessAction α) : Update (HashSet α) ω (Reply α) := act r.rule action.under

end HashSet

def BareSet.hashless [Allocator ω] (same : α → α → Bool) : HashlessAction α → Update (BareSet α) ω (Reply α)
  | .common action => (BareSet.access .hashSet same).run action
  | .rehash => return .done

namespace HashSet

variable {r : PureHash α} {s : Session (HashSet α) ω} [Allocator ω] [Allocator ω']

theorem run_mirrors (lawful : r.Lawful) (generous : Generous ω) (action : SetAction α)
    (kept : ∀ h change, action ≠ .change h change) (settled : Settled (Distinct r) s) :
    Mirrors id ((access r.rule).run action) ((BareSet.access .hashSet r.equal).run action) s := by
  have exact := access_exact (ω := ω) lawful
  have mirrored : (access (ω := ω) r.rule).Mirrored (Distinct r) id .hashSet r.equal :=
    access_mirrored lawful generous fun _ => rfl
  cases action with
  | change h change => exact absurd rfl (kept h change)
  | walk strides =>
    have returns : Returns ((access r.rule).run (.walk strides)) s fun _ _ => True :=
      (Access.run_meets exact (.walk strides) kept settled).imp (fun _ _ _ => trivial) fun _ _ told => told.1
    exact Mirrors.of_views ((walk_views strides s).bind fun _ _ _ => Views.pure rfl) returns
  | list =>
    have returns : Returns ((access r.rule).run .list) s fun _ _ => True :=
      (Access.run_meets exact .list kept settled).imp (fun _ _ _ => trivial) fun _ _ told => told.1
    refine Mirrors.of_views (Views.asked rfl (Views.asking rfl (Views.pure ?_))) returns
    exact congrArg (fun entries => Reply.listed (entries.map (·.2))) (Pool.entries_bare s.store.pool)
  | _ => exact Access.run_mirrors exact mirrored generous _ trivial settled

theorem hashless_mirrors (lawful : r.Lawful) (generous : Generous ω) (action : HashlessAction α) (lasting : action.Lasting)
    (settled : Settled (Distinct r) s) :
    Mirrors id (hashless r action) (BareSet.hashless r.equal action) s ∧
      Settled (Distinct r) (s.perform (hashless r action)).2 := by
  cases action with
  | common action =>
    refine ⟨run_mirrors lawful generous action lasting settled, ?_⟩
    exact (act_performed lawful (.common lasting) settled).2
  | rehash =>
    refine ⟨?_, (act_performed lawful .rehash settled).2⟩
    have views : Views Session.bare (rehash r.rule) (pure ()) s := by
      refine Ends.imp (rehash_shows r.rule s.store.bare s rfl) (fun _ after same => ?_) fun _ _ _ => trivial
      have same : after.store.bare = s.store.bare := same
      have seen : after.bare = s.bare := by rw [Session.bare, Session.bare, same]
      exact congrArg (EStateM.Result.ok ()) seen.symm
    exact (Mirrors.of_views views (rehash_meets settled)).bind fun _ _ _ => .pure _

theorem hashless_bare (lawful : r.Lawful) (generous : Generous ω) (settled : Settled (Distinct r) s)
    (actions : List (HashlessAction α)) (lasting : ∀ action ∈ actions, action.Lasting) :
    performAll (BareSet.hashless r.equal) actions s.bare =
      ((performAll (hashless r) actions s).1, (performed (hashless r) actions s).bare) := by
  have step : ∀ action ∈ actions, ∀ s : Session (HashSet α) ω, Settled (Distinct r) s →
      Mirrors id (hashless r action) (BareSet.hashless r.equal action) s ∧
        Settled (Distinct r) (s.perform (hashless r action)).2 := fun action member _ settled =>
    hashless_mirrors lawful generous action (lasting action member) settled
  have mirrored := Mirrors.performAll actions step settled
  rw [answers_unrenamed] at mirrored
  exact mirrored

-- Under either rule every step gives the same answer, and leaves the same sizes, the same element under every handle and
-- the same list of elements.
theorem hashes_do_not_show (r r' : PureHash α) (lawful : r.Lawful) (lawful' : r'.Lawful) (alike : r'.equal = r.equal)
    (generous : Generous ω) (generous' : Generous ω') (capacity loadFactor loadFactor' : Nat)
    (origin start : Session (HashSet α) ω) (origin' start' : Session (HashSet α) ω')
    (lowered : origin.gate.busy = false) (lowered' : origin'.gate.busy = false)
    (configured : configure ⟨capacity, loadFactor⟩ origin = .ok (.ok ()) start)
    (configured' : configure ⟨capacity, loadFactor'⟩ origin' = .ok (.ok ()) start')
    (actions : List (HashlessAction α)) (lasting : ∀ action ∈ actions, action.Lasting) :
    (performAll (hashless r) actions start).1 = (performAll (hashless r') actions start').1 ∧
      ∀ n, let s := (performed (hashless r) (actions.take n) start).store
        let s' := (performed (hashless r') (actions.take n) start').store
        Twins s s' ∧ s.pool.entries = s'.pool.entries ∧ ∀ element, inspect element s = inspect element s' := by
  have settled : Settled (Distinct r) start := configure_settled lowered configured
  have settled' : Settled (Distinct r') start' := configure_settled lowered' configured'
  have first : start.bare = start'.bare := BareSet.configure_forgets
    ((configure_views generous ⟨capacity, loadFactor⟩ origin).returned configured)
    ((configure_views generous' ⟨capacity, loadFactor'⟩ origin').returned configured') rfl
  have common : ∀ actions : List (HashlessAction α), (∀ action ∈ actions, action.Lasting) →
      (performAll (hashless r) actions start).1 = (performAll (hashless r') actions start').1 ∧
        (performed (hashless r) actions start).bare = (performed (hashless r') actions start').bare := by
    intro actions lasting
    have mirrored := hashless_bare lawful generous settled actions lasting
    have mirrored' := hashless_bare lawful' generous' settled' actions lasting
    rw [alike, ← first] at mirrored'
    exact Prod.mk.inj (mirrored.symm.trans mirrored')
  refine ⟨(common actions lasting).1, fun n => ?_⟩
  intro s s'
  have same : s.bare = s'.bare := congrArg Session.store
    (common (actions.take n) fun action member => lasting action (List.mem_of_mem_take member)).2
  have entries : s.pool.entries = s'.pool.entries := by
    rw [← Pool.entries_bare, ← pool_bare, same, pool_bare, Pool.entries_bare]
  refine ⟨Twins.of_bare same, entries, fun element => ?_⟩
  rw [inspect, inspect, entries]

-- One rule throws numbers together, the other scatters them, and there are more chains for the one than for the other.
theorem hashes_do_not_show_of_numbers :
    let r : PureHash Nat := ⟨fun n => UInt32.ofNat (n % 3), fun a b => a == b⟩
    let r' : PureHash Nat := ⟨fun n => foldHash (n.toUInt64 * 0x9e3779b97f4a7c15), fun a b => a == b⟩
    let origin : Session (HashSet Nat) Boundless := ⟨empty 0, false, ⟨⟩⟩
    let start : Session (HashSet Nat) Boundless := ⟨⟨⟨#[.sentinel], 5, 0⟩, ⟨#[0, 0, 0], 60⟩⟩, false, ⟨⟩⟩
    let start' : Session (HashSet Nat) Boundless := ⟨⟨⟨#[.sentinel], 5, 0⟩, ⟨#[0, 0, 0, 0, 0], 100⟩⟩, false, ⟨⟩⟩
    let actions : List (HashlessAction Nat) := [.common (.extend [6, 3, 9]), .common (.remove ⟨2, Nat.two_pos⟩),
      .common (.extract ⟨1, Nat.one_pos⟩ (· + 1) .reinsert), .rehash, .common (.extend [12, 15, 18]), .common .list,
      .common (.walk [.front, .back, .count]), .common (.resize 2)]
    r.Lawful ∧ r'.Lawful ∧ r'.equal = r.equal ∧ Generous Boundless ∧
      configure ⟨4, 60⟩ origin = .ok (.ok ()) start ∧ configure ⟨4, 100⟩ origin = .ok (.ok ()) start' ∧
      (∀ action ∈ actions, action.Lasting) ∧
      (performAll (hashless r) actions start).1 = (performAll (hashless r') actions start').1 ∧
      (performed (hashless r) (actions.take 5) start).store.pool.entries =
        (performed (hashless r') (actions.take 5) start').store.pool.entries := by
  intro r r' origin start start' actions
  have lawful : r.Lawful := by
    refine ⟨?_, ?_, ?_, ?_⟩ <;> simp +contextual [r]
  have lawful' : r'.Lawful := by
    refine ⟨?_, ?_, ?_, ?_⟩ <;> simp +contextual [r']
  have configured : configure ⟨4, 60⟩ origin = .ok (.ok ()) start := by with_unfolding_all rfl
  have configured' : configure ⟨4, 100⟩ origin = .ok (.ok ()) start' := by with_unfolding_all rfl
  have lasting : ∀ action ∈ actions, action.Lasting := by
    intro action member
    simp only [actions, List.mem_cons, List.not_mem_nil, or_false] at member
    rcases member with rfl | rfl | rfl | rfl | rfl | rfl | rfl | rfl <;> simp [HashlessAction.Lasting]
  have told := hashes_do_not_show r r' lawful lawful' rfl Boundless.generous Boundless.generous 4 60 100 origin start origin
    start' rfl rfl configured configured' actions lasting
  exact ⟨lawful, lawful', rfl, Boundless.generous, configured, configured', lasting, told.1, (told.2 5).2.1⟩

end HashSet
end Slotted
