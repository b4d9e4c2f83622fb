import Slotted.Proofs.Pool.Slots
import Slotted.HashSet.Chain
import Slotted.TreeSet.Balance
namespace Slotted

-- Not meant to be met: no fault of the callers' code, and none that tells them about something else.
def Fault.Internal : Fault → Prop
  | .caller _ | .busy | .keyNotFound _ | .growth .. | .disagreement .builtHash .. => False
  | _ => True

abbrev LooksInside {β : Type} (read : Except Fault β) : Prop := ∀ fault, read = .error fault → fault.Internal

theorem LooksInside.bind {β γ : Type} {first : Except Fault γ} {rest : γ → Except Fault β} (inside : LooksInside first)
    (further : ∀ value, LooksInside (rest value)) : LooksInside (first >>= rest) := by
  intro fault stopped
  cases first with
  | ok value => exact further value fault stopped
  | error other =>
    cases stopped
    exact inside fault rfl

theorem looksInside_ok {β : Type} (value : β) : LooksInside (.ok value) := fun _ stopped => by cases stopped

theorem looksInside_error {β : Type} {fault : Fault} (internal : fault.Internal) : LooksInside (.error fault : Except Fault β) := by
  intro _ stopped
  cases stopped
  exact internal

theorem Pool.link_looksInside {α μ : Type} (p : Pool α μ) (i : Nat) : LooksInside (p.link i) := by
  unfold Pool.link
  split
  · exact looksInside_ok _
  · exact looksInside_error trivial

theorem Buckets.select_looksInside (b : Buckets) (hash : UInt32) : LooksInside (b.select hash) := by
  unfold Buckets.select
  split
  · exact looksInside_error trivial
  · exact looksInside_ok _

theorem Pool.extremeFrom_looksInside {α : Type} (p : Pool α TreeLink) (side : Side) (fuel i : Nat) :
    LooksInside (p.extremeFrom side fuel i) := by
  induction fuel generalizing i with
  | zero =>
    unfold Pool.extremeFrom
    split
    · exact looksInside_ok _
    · refine LooksInside.bind (p.link_looksInside i) fun link => ?_
      dsimp only
      split
      · exact looksInside_ok _
      · exact looksInside_error trivial
  | succ fuel ih =>
    unfold Pool.extremeFrom
    split
    · exact looksInside_ok _
    · refine LooksInside.bind (p.link_looksInside i) fun link => ?_
      dsimp only
      split
      · exact looksInside_ok _
      · exact ih _

namespace Store

variable {ι α μ β γ : Type} [Inhabited μ]

def Relinks (program : Edit (Store ι α μ) β) : Prop := ∀ s : Store ι α μ,
  Ends program s (fun _ after => Pool.SameBodies (fun _ => ()) s.pool after.pool) fun fault after =>
    fault.Internal ∧ Pool.SameBodies (fun _ => ()) s.pool after.pool

namespace Relinks

theorem always {program : Edit (Store ι α μ) β} (relinks : Relinks program) (s : Store ι α μ) :
    Always program s fun after => Pool.SameBodies (fun _ => ()) s.pool after.pool :=
  (relinks s).faulting fun _ _ told => told.2

theorem pure (value : β) : Relinks (Pure.pure value : Edit (Store ι α μ) β) := fun s => .refl s.pool

theorem get : Relinks (MonadState.get : Edit (Store ι α μ) (Store ι α μ)) := fun s => .refl s.pool

theorem throw {fault : Fault} (internal : fault.Internal) : Relinks (MonadExcept.throw fault : Edit (Store ι α μ) β) :=
  fun s => ⟨internal, .refl s.pool⟩

theorem lift {read : Except Fault β} (inside : LooksInside read) : Relinks (liftM read : Edit (Store ι α μ) β) := by
  intro s
  cases read with
  | ok value => exact .refl s.pool
  | error fault => exact ⟨inside fault rfl, .refl s.pool⟩

theorem bind {program : Edit (Store ι α μ) γ} {rest : γ → Edit (Store ι α μ) β} (first : Relinks program)
    (second : ∀ value, Relinks (rest value)) : Relinks (program >>= rest) := by
  intro s
  refine Ends.bind (first s) ?_
  intro value middle same
  refine (second value middle).imp (fun _ after later => same.trans later) ?_
  exact fun _ after told => ⟨told.1, same.trans told.2⟩

theorem onIndex (change : Store ι α μ → ι) :
    Relinks (modify fun s => { s with index := change s } : Edit (Store ι α μ) Unit) := fun s => .refl s.pool

theorem onLink (i : Nat) (f : μ → μ) : Relinks (onPool (Pool.modifyLink i f) : Edit (Store ι α μ) Unit) := by
  intro s
  by_cases inside : i < s.pool.slots.size
  · have ran : onPool (Pool.modifyLink i f) s = .ok () ⟨s.pool.relink i f, s.index⟩ := by
      rw [onPool, Pool.modifyLink_run inside]
    exact Ends.of_ok ran (.relink _ inside rfl)
  · have stopped : onPool (Pool.modifyLink i f) s = .error (s.pool.outOfRange i) s := by
      rw [onPool, Pool.modifyLink, Pool.modifySlot, if_neg inside]
    exact Ends.of_error stopped ⟨trivial, .refl _⟩

theorem each {program : γ → Edit (Store ι α μ) Unit} (one : ∀ value, Relinks (program value)) (values : List γ) :
    Relinks (values.forM program) := by
  induction values with
  | nil => exact .pure _
  | cons value values ih => exact (one value).bind fun _ => ih

end Relinks

-- An index whose hooks do no more than that.
class LinkingIndex (ι : Type) (μ : outParam Type) [Inhabited μ] [Index ι μ] : Prop where
  moved {α : Type} (source target : Nat) : Relinks (Index.moved source target : Edit (Store ι α μ) Unit)
  settled {α : Type} : Relinks (Index.settled : Edit (Store ι α μ) Unit)
  resized {α : Type} (slots : Nat) : Relinks (Index.resized slots : Edit (Store ι α μ) Unit)
  unlink {α : Type} (i : Nat) : Relinks (Index.unlink i : Edit (Store ι α μ) Unit)

end Store

open Store

namespace HashSet

variable {α : Type}

theorem setHead_relinks (bucket i : Nat) : Relinks (setHead (α := α) bucket i) := .onIndex _

theorem linkHead_relinks (i : Nat) (hash : UInt32) : Relinks (linkHead (α := α) i hash) := by
  refine Relinks.bind .get fun s => Relinks.bind (.lift (s.index.select_looksInside _)) fun bucket => ?_
  refine Relinks.bind .get fun s => ?_
  refine Relinks.bind (.onLink _ _) fun _ => ?_
  dsimp only
  split
  · exact Relinks.bind (.onLink _ _) fun _ => setHead_relinks _ _
  · exact setHead_relinks _ _

theorem unlink_relinks (i : Nat) : Relinks (unlink (α := α) i) := by
  have last : ∀ prev next hash, Relinks (do
      if next ≠ 0 then Store.onPool (Pool.modifyLink next fun link => { link with prev := prev })
      Store.onPool (Pool.setLink i ⟨0, 0, hash⟩) : Edit (HashSet α) Unit) := by
    intro prev next hash
    split
    · exact Relinks.bind (.onLink _ _) fun _ => .onLink _ _
    · exact .onLink _ _
  refine Relinks.bind .get fun s => Relinks.bind (.lift (s.pool.link_looksInside i)) fun link => ?_
  obtain ⟨prev, next, hash⟩ := link
  dsimp only
  split
  · exact Relinks.bind (.onLink _ _) fun _ => last _ _ _
  · refine Relinks.bind .get fun s => Relinks.bind (.lift (s.index.select_looksInside _)) fun bucket => ?_
    refine Relinks.bind .get fun s => ?_
    split
    · exact Relinks.bind (setHead_relinks _ _) fun _ => last _ _ _
    · exact Relinks.bind (.throw trivial) fun _ => Relinks.bind (setHead_relinks _ _) fun _ => last _ _ _

theorem linkRemembered_relinks (i : Nat) : Relinks (linkRemembered (α := α) i) := by
  refine Relinks.bind .get fun s => ?_
  split
  · exact Relinks.bind .get fun s => Relinks.bind (.lift (s.pool.link_looksInside i)) fun link => linkHead_relinks _ _
  · exact .pure _

theorem rebucket_relinks : Relinks (rebucket (α := α)) := by
  refine Relinks.bind (.onIndex _) fun _ => Relinks.bind .get fun s => ?_
  split
  · exact .pure _
  · exact Relinks.bind .get fun s => .each linkRemembered_relinks _

instance : LinkingIndex Buckets ChainLink where
  moved _ _ := .pure _
  settled := rebucket_relinks
  resized _ := Relinks.bind (.onIndex _) fun _ => rebucket_relinks
  unlink := unlink_relinks

end HashSet

namespace TreeSet

variable {α : Type}

theorem link_relinks (i : Nat) : Relinks (link (α := α) i) := Relinks.bind .get fun s => .lift (s.pool.link_looksInside i)

theorem setRoot_relinks (i : Nat) : Relinks (setRoot (α := α) i) := .onIndex _

theorem setChild_relinks (i : Nat) (side : Side) (child : Nat) : Relinks (setChild (α := α) i side child) := .onLink _ _

theorem setParent_relinks (i parent : Nat) : Relinks (setParent (α := α) i parent) := by
  unfold setParent
  split
  · exact .pure _
  · exact .onLink _ _

theorem setBalance_relinks (i : Nat) (balance : Int) : Relinks (setBalance (α := α) i balance) := .onLink _ _

theorem shiftBalance_relinks (i : Nat) (change : Int) : Relinks (shiftBalance (α := α) i change) := by
  have last : ∀ balance, Relinks (do setBalance i balance; return balance : Edit (TreeSet α) Int) :=
    fun balance => Relinks.bind (setBalance_relinks _ _) fun _ => .pure _
  refine Relinks.bind (link_relinks _) fun link => ?_
  dsimp only
  split
  · exact Relinks.bind (.throw trivial) fun _ => last _
  · exact last _

theorem replaceChild_relinks {owns : Agreement} (owned : owns ≠ .builtHash) (parent old new : Nat) :
    Relinks (replaceChild (α := α) owns parent old new) := by
  unfold replaceChild
  split
  · exact setRoot_relinks _
  · refine Relinks.bind (link_relinks _) fun link => ?_
    split
    · exact setChild_relinks _ _ _
    · split
      · exact setChild_relinks _ _ _
      · refine Relinks.bind (.throw ?_) fun _ => setChild_relinks _ _ _
        cases owns with
        | builtHash => exact owned rfl
        | _ => trivial

theorem rotate_relinks (direction : Side) (x : Nat) : Relinks (rotate (α := α) direction x) := by
  refine Relinks.bind (link_relinks _) fun _ => Relinks.bind (link_relinks _) fun _ => ?_
  refine Relinks.bind (link_relinks _) fun _ => Relinks.bind (setChild_relinks _ _ _) fun _ => ?_
  refine Relinks.bind (setParent_relinks _ _) fun _ => Relinks.bind (setChild_relinks _ _ _) fun _ => ?_
  refine Relinks.bind (.onLink _ _) fun _ => Relinks.bind (.onLink _ _) fun _ => ?_
  exact replaceChild_relinks (by decide) _ _ _

theorem rebalance_relinks (x : Nat) : Relinks (rebalance (α := α) x) := by
  refine Relinks.bind (link_relinks _) fun top => ?_
  dsimp only
  generalize (if 0 < top.balance then Side.right else Side.left) = heavy
  refine Relinks.bind (link_relinks _) fun _ => Relinks.bind (link_relinks _) fun _ => ?_
  split
  · refine Relinks.bind (rotate_relinks _ _) fun _ => ?_
    split
    · exact Relinks.bind (setBalance_relinks _ _) fun _ => Relinks.bind (setBalance_relinks _ _) fun _ => .pure _
    · exact Relinks.bind (setBalance_relinks _ _) fun _ => Relinks.bind (setBalance_relinks _ _) fun _ => .pure _
  · refine Relinks.bind (link_relinks _) fun _ => Relinks.bind (link_relinks _) fun _ => ?_
    refine Relinks.bind (rotate_relinks _ _) fun _ => Relinks.bind (rotate_relinks _ _) fun _ => ?_
    refine Relinks.bind (setBalance_relinks _ _) fun _ => Relinks.bind (setBalance_relinks _ _) fun _ => ?_
    exact Relinks.bind (setBalance_relinks _ _) fun _ => .pure _

theorem retraceInsertion_relinks (fuel child : Nat) : Relinks (retraceInsertion (α := α) fuel child) := by
  induction fuel generalizing child with
  | zero =>
    unfold retraceInsertion
    refine Relinks.bind (link_relinks _) fun _ => ?_
    dsimp only
    split
    · exact .pure _
    · exact .throw trivial
  | succ fuel ih =>
    unfold retraceInsertion
    refine Relinks.bind (link_relinks _) fun _ => ?_
    dsimp only
    split
    · exact .pure _
    · refine Relinks.bind (link_relinks _) fun _ => Relinks.bind (shiftBalance_relinks _ _) fun _ => ?_
      split
      · exact .pure _
      · split
        · exact ih _
        · exact Relinks.bind (rebalance_relinks _) fun _ => .pure _

theorem attach_relinks (i parent : Nat) (side : Side) : Relinks (attach (α := α) i parent side) := by
  refine Relinks.bind (.onLink _ _) fun _ => ?_
  split
  · exact setRoot_relinks _
  · refine Relinks.bind (setChild_relinks _ _ _) fun _ => Relinks.bind .get fun s => ?_
    exact retraceInsertion_relinks _ _

theorem retraceRemoval_relinks (fuel n : Nat) (side : Side) : Relinks (retraceRemoval (α := α) fuel n side) := by
  induction fuel generalizing n side with
  | zero =>
    unfold retraceRemoval
    split
    · exact .pure _
    · exact .throw trivial
  | succ fuel ih =>
    have upward : ∀ (parent : Nat) (ended : Nat × Bool), Relinks (do
        if !ended.2 || parent = 0 then return ()
        retraceRemoval fuel parent ((← link parent).sideOf ended.1) : Edit (TreeSet α) Unit) := by
      intro parent ended
      split
      · exact .pure _
      · exact Relinks.bind (link_relinks _) fun _ => ih _ _
    unfold retraceRemoval
    split
    · exact .pure _
    · refine Relinks.bind (link_relinks _) fun _ => Relinks.bind (shiftBalance_relinks _ _) fun _ => ?_
      dsimp only
      split
      · exact .pure _
      · split
        · exact Relinks.bind (.pure _) fun ended => upward _ ended
        · exact Relinks.bind (rebalance_relinks _) fun ended => upward _ ended

theorem cutOut_relinks (d : Nat) : Relinks (cutOut (α := α) d) := by
  have only : ∀ (child parent : Nat) (side : Side), Relinks (do
      setParent child parent
      replaceChild .parentOwnsChild parent d child
      return (parent, side) : Edit (TreeSet α) (Nat × Side)) := fun child parent side =>
    Relinks.bind (setParent_relinks _ _) fun _ => Relinks.bind (replaceChild_relinks (by decide) _ _ _) fun _ => .pure _
  refine Relinks.bind (link_relinks _) fun link => ?_
  obtain ⟨parent, left, right, balance⟩ := link
  dsimp only
  split
  · refine Relinks.bind .get fun s => Relinks.bind .get fun _ => ?_
    refine Relinks.bind (.lift (s.pool.extremeFrom_looksInside .left _ _)) fun successor => ?_
    split
    · refine Relinks.bind (.onLink _ _) fun _ => Relinks.bind (setParent_relinks _ _) fun _ => ?_
      exact Relinks.bind (replaceChild_relinks (by decide) _ _ _) fun _ => .pure _
    · refine Relinks.bind (link_relinks _) fun old => Relinks.bind (setChild_relinks _ _ _) fun _ => ?_
      refine Relinks.bind (setParent_relinks _ _) fun _ => Relinks.bind (.onLink _ _) fun _ => ?_
      refine Relinks.bind (setParent_relinks _ _) fun _ => Relinks.bind (setParent_relinks _ _) fun _ => ?_
      exact Relinks.bind (replaceChild_relinks (by decide) _ _ _) fun _ => .pure _
  · split
    · exact Relinks.bind (.pure _) fun side => only _ _ side
    · exact Relinks.bind (link_relinks _) fun _ => Relinks.bind (.pure _) fun side => only _ _ side

theorem unlink_relinks (d : Nat) : Relinks (unlink (α := α) d) := by
  refine Relinks.bind (cutOut_relinks _) fun ended => Relinks.bind (.onLink _ _) fun _ => ?_
  exact Relinks.bind .get fun s => retraceRemoval_relinks _ _ _

theorem relinkMoved_relinks (source target : Nat) : Relinks (relinkMoved (α := α) source target) := by
  have last : ∀ moved : TreeLink, Relinks (do
      setParent moved.left target
      setParent moved.right target : Edit (TreeSet α) Unit) := fun moved =>
    Relinks.bind (setParent_relinks _ _) fun _ => setParent_relinks _ _
  refine Relinks.bind (link_relinks _) fun moved => ?_
  split
  · refine Relinks.bind .get fun s => ?_
    dsimp only
    split
    · exact Relinks.bind (setRoot_relinks _) fun _ => last _
    · exact Relinks.bind (.throw trivial) fun _ => Relinks.bind (setRoot_relinks _) fun _ => last _
  · exact Relinks.bind (replaceChild_relinks (by decide) _ _ _) fun _ => last _

instance : LinkingIndex Root TreeLink where
  moved := relinkMoved_relinks
  settled := .pure _
  resized _ := .pure _
  unlink := unlink_relinks

end TreeSet
end Slotted
