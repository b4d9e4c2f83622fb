import Slotted.Proofs.Ends
namespace Slotted

variable {ε σ β γ κ ω : Type} {holds : σ → Prop}

def Upholds (holds : σ → Prop) (program : EStateM ε σ β) : Prop := ∀ s, holds s → Always program s holds

namespace Upholds

theorem pure (value : β) : Upholds holds (Pure.pure value : EStateM ε σ β) := fun _ now => now

theorem throw (fault : ε) : Upholds holds (MonadExcept.throw fault : EStateM ε σ β) := fun _ now => now

theorem throw_bind (fault : ε) (rest : γ → EStateM ε σ β) : Upholds holds (MonadExcept.throw fault >>= rest) :=
  fun _ now => now

theorem get : Upholds holds (MonadState.get : EStateM ε σ σ) := fun _ now => now

theorem modify {f : σ → σ} (kept : ∀ s, holds s → holds (f s)) : Upholds holds (modify f : EStateM ε σ PUnit) :=
  fun s now => kept s now

theorem lift {holds : σ → Prop} (read : Except Fault β) : Upholds holds (liftM read : EStateM Fault σ β) := by
  intro s now
  refine (always_lift read).imp fun after same => ?_
  rw [same]
  exact now

theorem bind {program : EStateM ε σ γ} {rest : γ → EStateM ε σ β} (first : Upholds holds program)
    (second : ∀ value, Upholds holds (rest value)) : Upholds holds (program >>= rest) :=
  fun s now => (first s now).then fun value after kept => second value after kept

theorem each {program : γ → EStateM ε σ PUnit} (one : ∀ value, Upholds holds (program value)) (values : List γ) :
    Upholds holds (values.forM program) := by
  induction values with
  | nil => exact .pure _
  | cons value values ih => exact (one value).bind fun _ => ih

theorem trivial (program : EStateM ε σ β) : Upholds (fun _ => True) program := by
  intro s _
  unfold Always Ends
  cases program s with
  | ok value after => exact True.intro
  | error fault after => exact True.intro

end Upholds

abbrev Guards (holds : κ → Prop) (update : Update κ ω β) : Prop := Upholds (fun s : Session κ ω => holds s.store) update

namespace Update

variable {holds : κ → Prop}

theorem guards_ask (query : Query κ ω β) : Guards holds (ask query) := by
  intro s now
  refine (ask_keeps_store query).imp fun after same => ?_
  rw [same]
  exact now

theorem guards_edit {change : Edit κ β} (kept : Upholds holds change) : Guards (ω := ω) holds (edit change) := by
  intro s now
  rw [Always, ends_edit]
  exact kept s.store now

theorem guards_guarded {update : Update κ ω β} (kept : Guards holds update) : Guards holds update.guarded := by
  intro s now
  exact ends_guarded update (fun _ => now) fun _ => kept ⟨s.store, { s.gate with busy := true }⟩ now

end Update

theorem Handle.upholds_ofIndex {holds : σ → Prop} (i : Nat) (answer : Handle → β) :
    Upholds holds (do return answer (← Handle.ofIndex i) : EStateM Fault σ β) :=
  Upholds.bind (.lift _) fun _ => .pure _

end Slotted
