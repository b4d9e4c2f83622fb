import Slotted.Action.History
namespace Slotted

variable {ε σ β γ κ ω : Type}

def Ends (program : EStateM ε σ β) (s : σ) (returns : β → σ → Prop) (faults : ε → σ → Prop) : Prop :=
  match program s with
  | .ok value after => returns value after
  | .error fault after => faults fault after

theorem bind_ok {program : EStateM ε σ γ} {s after : σ} {value : γ} (ran : program s = .ok value after)
    (rest : γ → EStateM ε σ β) : (program >>= rest) s = rest value after := by
  simp only [bind, EStateM.bind, ran]

theorem ran_of_run' {program : EStateM ε σ γ} {s : σ} {value : γ} (seen : program.run' s = some value) :
    ∃ after, program s = .ok value after := by
  unfold EStateM.run' EStateM.run at seen
  cases ran : program s with
  | ok returned after =>
    rw [ran] at seen
    cases seen
    exact ⟨after, rfl⟩
  | error fault after =>
    rw [ran] at seen
    cases seen

theorem get_bind (s : σ) (rest : σ → EStateM ε σ β) : (get >>= rest) s = rest s s := rfl

theorem lift_ok {read : Except Fault γ} {value : γ} (ok : read = .ok value) (s : σ) :
    (liftM read : EStateM Fault σ γ) s = .ok value s := by
  subst ok
  rfl

theorem lift_bind {read : Except Fault γ} {value : γ} (ok : read = .ok value) (s : σ)
    (rest : γ → EStateM Fault σ β) : ((liftM read : EStateM Fault σ γ) >>= rest) s = rest value s := by
  subst ok
  rfl

abbrev Returns (program : EStateM ε σ β) (s : σ) (returns : β → σ → Prop) : Prop :=
  Ends program s returns fun _ _ => False

variable {s : σ} {returns : β → σ → Prop} {faults : ε → σ → Prop}

theorem Ends.of_ok {program : EStateM ε σ β} {value : β} {after : σ} (ran : program s = .ok value after)
    (holds : returns value after) : Ends program s returns faults := by
  simpa only [Ends, ran] using holds

theorem Ends.of_error {program : EStateM ε σ β} {fault : ε} {after : σ} (ran : program s = .error fault after)
    (holds : faults fault after) : Ends program s returns faults := by
  simpa only [Ends, ran] using holds

theorem Ends.returned {program : EStateM ε σ β} {value : β} {after : σ} (ends : Ends program s returns faults)
    (ran : program s = .ok value after) : returns value after := by
  simpa only [Ends, ran] using ends

theorem Ends.faulted {program : EStateM ε σ β} {fault : ε} {after : σ} (ends : Ends program s returns faults)
    (ran : program s = .error fault after) : faults fault after := by
  simpa only [Ends, ran] using ends

theorem Ends.imp {program : EStateM ε σ β} {returns' : β → σ → Prop} {faults' : ε → σ → Prop}
    (ends : Ends program s returns faults) (ok : ∀ value after, returns value after → returns' value after)
    (error : ∀ fault after, faults fault after → faults' fault after) : Ends program s returns' faults' := by
  unfold Ends at ends ⊢
  split <;> rename_i ran <;> rw [ran] at ends
  · exact ok _ _ ends
  · exact error _ _ ends

theorem Ends.both {program : EStateM ε σ β} {returns' : β → σ → Prop} {faults' : ε → σ → Prop}
    (first : Ends program s returns faults) (second : Ends program s returns' faults') :
    Ends program s (fun value after => returns value after ∧ returns' value after) fun fault after =>
      faults fault after ∧ faults' fault after := by
  unfold Ends at first second ⊢
  cases ran : program s with
  | ok value after =>
    rw [ran] at first second
    exact ⟨first, second⟩
  | error fault after =>
    rw [ran] at first second
    exact ⟨first, second⟩

theorem Ends.known {program : EStateM ε σ β} (ends : Ends program s returns faults) :
    Ends program s (fun value after => program s = .ok value after ∧ returns value after) faults := by
  unfold Ends at ends ⊢
  cases ran : program s with
  | ok value after =>
    rw [ran] at ends
    exact ⟨rfl, ends⟩
  | error fault after =>
    rw [ran] at ends
    exact ends

theorem Ends.returning {program : EStateM ε σ β} {returns' : β → σ → Prop}
    (ends : Ends program s returns faults) (ok : ∀ value after, returns value after → returns' value after) :
    Ends program s returns' faults := ends.imp ok fun _ _ fault => fault

theorem Ends.faulting {program : EStateM ε σ β} {faults' : ε → σ → Prop}
    (ends : Ends program s returns faults) (error : ∀ fault after, faults fault after → faults' fault after) :
    Ends program s returns faults' := ends.imp (fun _ _ holds => holds) error

theorem Returns.ends {program : EStateM ε σ β} {returns' : β → σ → Prop} (returned : Returns program s returns)
    (ok : ∀ value after, returns value after → returns' value after) : Ends program s returns' faults :=
  Ends.imp returned ok fun _ _ => False.elim

theorem Returns.both {program : EStateM ε σ β} {returns' : β → σ → Prop} {faults' : ε → σ → Prop}
    (first : Returns program s returns) (second : Ends program s returns' faults') :
    Returns program s fun value after => returns value after ∧ returns' value after :=
  (Ends.both first second).faulting fun _ _ => And.left

theorem Returns.exists {program : EStateM ε σ β} (ends : Returns program s returns) :
    ∃ value after, program s = .ok value after ∧ returns value after := by
  unfold Returns Ends at ends
  split at ends
  · rename_i value after ran
    exact ⟨value, after, ran, ends⟩
  · exact ends.elim

theorem ends_pure (value : β) :
    Ends (pure value : EStateM ε σ β) s returns faults ↔ returns value s := Iff.rfl

theorem ends_bind (program : EStateM ε σ γ) (rest : γ → EStateM ε σ β) :
    Ends (program >>= rest) s returns faults ↔
      Ends program s (fun value after => Ends (rest value) after returns faults) faults := by
  simp only [Ends, bind, EStateM.bind]
  cases program s <;> rfl

theorem Ends.bind {program : EStateM ε σ γ} {rest : γ → EStateM ε σ β} {between : γ → σ → Prop}
    (first : Ends program s between faults)
    (second : ∀ value after, between value after → Ends (rest value) after returns faults) :
    Ends (program >>= rest) s returns faults := (ends_bind program rest).mpr (first.returning second)

theorem Returns.bind {program : EStateM ε σ γ} {rest : γ → EStateM ε σ β} {between : γ → σ → Prop}
    (first : Returns program s between)
    (second : ∀ value after, between value after → Ends (rest value) after returns faults) :
    Ends (program >>= rest) s returns faults :=
  Ends.bind (first.ends fun _ _ holds => holds) second

theorem ends_get {returns : σ → σ → Prop} :
    Ends (get : EStateM ε σ σ) s returns faults ↔ returns s s := Iff.rfl

theorem ends_modify {returns : PUnit → σ → Prop} (f : σ → σ) :
    Ends (modify f : EStateM ε σ PUnit) s returns faults ↔ returns ⟨⟩ (f s) := Iff.rfl

theorem ends_lift {s : σ} {returns : β → σ → Prop} {faults : Fault → σ → Prop} (value : β) :
    Ends (liftM (.ok value : Except Fault β) : EStateM Fault σ β) s returns faults ↔ returns value s := Iff.rfl

abbrev Always (program : EStateM ε σ β) (s : σ) (holds : σ → Prop) : Prop :=
  Ends program s (fun _ after => holds after) fun _ after => holds after

theorem Always.bind {program : EStateM ε σ γ} {rest : γ → EStateM ε σ β} {between holds : σ → Prop}
    (first : Always program s between) (kept : ∀ after, between after → holds after)
    (second : ∀ value after, between after → Always (rest value) after holds) : Always (program >>= rest) s holds :=
  Ends.bind (Ends.faulting first fun _ after done => kept after done) second

theorem Always.then {program : EStateM ε σ γ} {rest : γ → EStateM ε σ β} {holds : σ → Prop}
    (first : Always program s holds) (second : ∀ value after, holds after → Always (rest value) after holds) :
    Always (program >>= rest) s holds := first.bind (fun _ done => done) second

theorem Always.imp {program : EStateM ε σ β} {holds holds' : σ → Prop} (always : Always program s holds)
    (weaken : ∀ after, holds after → holds' after) : Always program s holds' :=
  Ends.imp always (fun _ => weaken) fun _ => weaken

theorem Always.both {program : EStateM ε σ β} {holds holds' : σ → Prop} (first : Always program s holds)
    (second : Always program s holds') : Always program s fun after => holds after ∧ holds' after := Ends.both first second

theorem always_lift {s : σ} (read : Except Fault β) : Always (liftM read : EStateM Fault σ β) s (· = s) := by
  cases read <;> rfl

namespace Update

variable {s : Session κ ω} {returns : β → Session κ ω → Prop} {faults : Fault → Session κ ω → Prop}

theorem ends_edit (change : Edit κ β) :
    Ends (edit change) s returns faults ↔
      Ends change s.store (fun value store => returns value ⟨store, s.gate⟩)
        fun fault store => faults fault ⟨store, s.gate⟩ := by
  simp only [Ends, edit]
  cases change s.store <;> rfl

theorem ends_ask (query : Query κ ω β) :
    Ends (ask query) s returns faults ↔
      Ends (query s.store) s.gate (fun value gate => returns value ⟨s.store, gate⟩)
        fun fault gate => faults fault ⟨s.store, gate⟩ := by
  simp only [Ends, ask]
  cases query s.store s.gate <;> rfl

theorem ask_ok {query : Query κ ω β} {value : β} (ran : query s.store s.gate = .ok value s.gate) :
    ask query s = .ok value s := by
  rw [ask, ran]

theorem edit_ok {change : Edit κ β} {value : β} {after : κ} (ran : change s.store = .ok value after) :
    edit change s = .ok value ⟨after, s.gate⟩ := by
  rw [edit, ran]

theorem ends_guarded (update : Update κ ω β) (raised : s.gate.busy = true → faults .busy s)
    (lowered : s.gate.busy = false → Ends update ⟨s.store, { s.gate with busy := true }⟩
      (fun value after => returns value ⟨after.store, { after.gate with busy := false }⟩)
      fun fault after => faults fault ⟨after.store, { after.gate with busy := false }⟩) :
    Ends update.guarded s returns faults := by
  obtain ⟨store, busy, world⟩ := s
  cases busy
  · have ends := lowered rfl
    unfold Ends at ends ⊢
    unfold guarded
    dsimp only [Bool.false_eq_true, if_false] at ends ⊢
    cases ran : update ⟨store, true, world⟩ <;> simpa [ran] using ends
  · exact raised rfl

theorem ask_keeps_store (query : Query κ ω β) : Always (ask query) s (·.store = s.store) := by
  simp only [Ends, ask]
  cases query s.store s.gate <;> rfl

theorem ask_then {query : Query κ ω γ} {rest : γ → Update κ ω β}
    (fault : ∀ fault after, after.store = s.store → faults fault after)
    (follows : ∀ value after, ask query s = .ok value after → after.store = s.store →
      Ends (rest value) after returns faults) :
    Ends (ask query >>= rest) s returns faults := by
  refine Ends.bind ((Ends.known (ask_keeps_store query)).faulting fault) ?_
  exact fun value after told => follows value after told.1 told.2

end Update

namespace Query

-- A query without effects of its own answers while nobody else looks. Under a raised flag it may fault instead.
def Answers (query : Query κ ω β) (store : κ) (value : β) : Prop :=
  ∀ gate, query store gate = .ok value gate ∨ gate.busy = true ∧ query store gate = .error .busy gate

theorem bind_run (query : Query κ ω γ) (rest : γ → Query κ ω β) (store : κ) (gate : Gate ω) :
    (query >>= rest) store gate = match query store gate with
      | .ok value gate => rest value store gate
      | .error fault gate => .error fault gate := by
  simp only [bind, ReaderT.bind, EStateM.bind]
  cases query store gate <;> rfl

theorem ends_bind {store : κ} {gate : Gate ω} {returns : β → Gate ω → Prop} {faults : Fault → Gate ω → Prop}
    (query : Query κ ω γ) (rest : γ → Query κ ω β) :
    Ends ((query >>= rest) store) gate returns faults ↔
      Ends (query store) gate (fun value after => Ends (rest value store) after returns faults) faults :=
  Slotted.ends_bind (query store) fun value => rest value store

theorem pure_run (value : β) (store : κ) (gate : Gate ω) :
    (pure value : Query κ ω β) store gate = .ok value gate := rfl

theorem read_run (store : κ) (gate : Gate ω) : (read : Query κ ω κ) store gate = .ok store gate := rfl

theorem lift_run (value : β) (store : κ) (gate : Gate ω) :
    (liftM (.ok value : Except Fault β) : Query κ ω β) store gate = .ok value gate := rfl

variable {store : κ} {value : β}

theorem Answers.of_run {query : Query κ ω β} (ran : ∀ gate, query store gate = .ok value gate) :
    query.Answers store value := fun gate => .inl (ran gate)

theorem answers_guarded {query : Query κ ω β} (ran : ∀ gate, query store gate = .ok value gate) :
    query.guarded.Answers store value := by
  intro given
  obtain ⟨busy, world⟩ := given
  unfold guarded
  cases busy
  · exact .inl (by simp [ran])
  · exact .inr (by simp)

theorem ends_guarded {query : Query κ ω β} {gate : Gate ω} {returns : β → Gate ω → Prop} {faults : Fault → Gate ω → Prop}
    (lowered : gate.busy = false)
    (ends : Ends (query store) { gate with busy := true } (fun value after => returns value { after with busy := false })
      fun fault after => faults fault { after with busy := false }) :
    Ends (query.guarded store) gate returns faults := by
  unfold Ends at ends ⊢
  unfold guarded
  rw [lowered]
  cases ran : query store { gate with busy := true } <;> simpa [ran] using ends

theorem Answers.lowered {query : Query κ ω β} (answers : query.Answers store value) {gate : Gate ω}
    (lowered : gate.busy = false) : query store gate = .ok value gate := by
  rcases answers gate with ran | ⟨raised, _⟩
  · exact ran
  · simp [lowered] at raised

theorem Answers.bind {query : Query κ ω γ} {rest : γ → Query κ ω β} {first : γ} (answers : query.Answers store first)
    (follows : (rest first).Answers store value) : (query >>= rest).Answers store value := by
  intro gate
  rw [bind_run]
  rcases answers gate with ran | ⟨raised, ran⟩
  · rw [ran]
    exact follows gate
  · rw [ran]
    exact .inr ⟨raised, rfl⟩

end Query

def Session.Barred (s : Session κ ω) (fault : Fault) (after : Session κ ω) : Prop :=
  fault = .busy ∧ after = s ∧ s.gate.busy = true

theorem Session.ran_of_ask {s after : Session κ ω} {query : Query κ ω β} {answer : β}
    (asked : Update.ask query s = .ok answer after) :
    query s.store s.gate = .ok answer after.gate ∧ after.store = s.store := by
  unfold Update.ask at asked
  cases ran : query s.store s.gate with
  | ok told gate =>
    rw [ran] at asked
    cases asked
    exact ⟨rfl, rfl⟩
  | error fault gate =>
    rw [ran] at asked
    cases asked

theorem Session.not_barred {s after : Session κ ω} {fault : Fault} (lowered : s.gate.busy = false) :
    ¬ s.Barred fault after := by
  intro given
  obtain ⟨_, _, raised⟩ := given
  simp [lowered] at raised

theorem Query.Answers.ask_run {query : Query κ ω β} {s : Session κ ω} {value : β} (answers : query.Answers s.store value)
    (lowered : s.gate.busy = false) : Update.ask query s = .ok value s := Update.ask_ok (answers.lowered lowered)

theorem Query.ask_raised (query : Query κ ω β) {s : Session κ ω} (raised : s.gate.busy = true) :
    Update.ask query.guarded s = .error .busy s := by
  rw [Update.ask, guarded, if_pos raised]

theorem Query.Answers.ends {query : Query κ ω β} {s : Session κ ω} {value : β} (answers : query.Answers s.store value) :
    Ends (Update.ask query) s (fun answer after => answer = value ∧ after = s) s.Barred := by
  rw [Update.ends_ask, Ends]
  rcases answers s.gate with ran | ⟨raised, ran⟩
  · rw [ran]
    exact ⟨rfl, rfl⟩
  · rw [ran]
    exact ⟨rfl, rfl, raised⟩

theorem Query.Answers.bind_ends {query : Query κ ω γ} {rest : γ → Update κ ω β} {s : Session κ ω} {first : γ}
    {returns : β → Session κ ω → Prop} {faults : Fault → Session κ ω → Prop} (answers : query.Answers s.store first)
    (barred : ∀ fault after, s.Barred fault after → faults fault after) (follows : Ends (rest first) s returns faults) :
    Ends (Update.ask query >>= rest) s returns faults := by
  refine Ends.bind (answers.ends.faulting barred) ?_
  intro _ _ given
  obtain ⟨told, same⟩ := given
  rw [told, same]
  exact follows

theorem Handle.ofIndex_ends (i : Nat) (answer : Handle → β) (s : κ) :
    Ends (do return answer (← Handle.ofIndex i) : EStateM Fault κ β) s
      (fun value after => (∃ h, value = answer h) ∧ after = s) fun _ after => after = s := by
  cases Handle.ofIndex i with
  | ok h => exact ⟨⟨h, rfl⟩, rfl⟩
  | error fault => exact rfl

theorem Handle.ofIndex_run {i : Nat} (positive : 0 < i) : Handle.ofIndex i = .ok ⟨i, positive⟩ := dif_pos positive

end Slotted
