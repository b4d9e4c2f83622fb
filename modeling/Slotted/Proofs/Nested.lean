import Slotted.Proofs.Flag
namespace Slotted.Query

variable {κ β γ ω : Type} {store : κ}

-- Under a raised flag it faults, and nothing else happens.
def Barred (store : κ) (query : Query κ ω β) : Prop :=
  ∀ gate, gate.busy = true → query store gate = .error .busy gate

-- The same code with the fault in the place of lookups that are barred.
inductive Struck (store : κ) : {β : Type} → Query κ ω β → Query κ ω β → Prop where
  | own {β : Type} (f : κ → ω → Except Fault β × ω) : Struck store (own f) (own f)
  | bind {β γ : Type} {first first' : Query κ ω γ} {rest rest' : γ → Query κ ω β} :
    Struck store first first' → (∀ value, Struck store (rest value) (rest' value)) →
      Struck store (first >>= rest) (first' >>= rest')
  | catching {β : Type} {query query' : Query κ ω β} {handler handler' : Fault → Query κ ω β} :
    Struck store query query' → (∀ fault, Struck store (handler fault) (handler' fault)) →
      Struck store (tryCatch query handler) (tryCatch query' handler')
  | lookup {β : Type} {query : Query κ ω β} : Barred store query → Struck store query (throw .busy)

-- Two queries that are the same under a raised flag, and leave it raised.
def Matches (store : κ) (real ideal : Query κ ω β) : Prop :=
  ∀ gate, gate.busy = true → real store gate = ideal store gate ∧ Always (ideal store) gate (·.busy = true)

theorem barred_guarded (query : Query κ ω β) : Barred store query.guarded := by
  intro gate raised
  rw [Query.guarded, if_pos raised]

theorem Barred.bind {first : Query κ ω γ} (barred : Barred store first) (rest : γ → Query κ ω β) :
    Barred store (first >>= rest) := by
  intro gate raised
  rw [bind_run, barred gate raised]

variable {real ideal : Query κ ω β}

theorem matches_own (f : κ → ω → Except Fault β × ω) : Matches store (own f) (own f) := by
  intro gate raised
  refine ⟨rfl, (own_run f store gate).imp ?_ ?_⟩
  · exact fun _ _ told => told.1.trans raised
  · exact fun _ _ told => told.1.trans raised

theorem Matches.bind {first first' : Query κ ω γ} {rest rest' : γ → Query κ ω β} (alike : Matches store first first')
    (further : ∀ value, Matches store (rest value) (rest' value)) : Matches store (first >>= rest) (first' >>= rest') := by
  intro gate raised
  obtain ⟨same, kept⟩ := alike gate raised
  unfold Always Ends at kept ⊢
  rw [bind_run, bind_run, same]
  cases ran : first' store gate with
  | ok value after =>
    rw [ran] at kept
    exact further value after kept
  | error fault after =>
    rw [ran] at kept
    exact ⟨rfl, kept⟩

theorem Matches.catching {query query' : Query κ ω β} {handler handler' : Fault → Query κ ω β}
    (alike : Matches store query query') (handled : ∀ fault, Matches store (handler fault) (handler' fault)) :
    Matches store (tryCatch query handler) (tryCatch query' handler') := by
  intro gate raised
  obtain ⟨same, kept⟩ := alike gate raised
  unfold Always Ends at kept ⊢
  rw [tryCatch_run, tryCatch_run, same]
  cases ran : query' store gate with
  | ok value after =>
    rw [ran] at kept
    exact ⟨rfl, kept⟩
  | error fault after =>
    rw [ran] at kept
    exact handled fault after kept

theorem Barred.throws (barred : Barred store real) : Matches store real (throw .busy) :=
  fun gate raised => ⟨barred gate raised, raised⟩

theorem Struck.alike (struck : Struck store real ideal) : Matches store real ideal := by
  induction struck with
  | own f => exact matches_own f
  | bind _ _ first further => exact first.bind further
  | catching _ _ alike handled => exact alike.catching handled
  | lookup barred => exact barred.throws

def Same (store : κ) (real ideal : Query κ ω β) : Prop := ∀ gate, real store gate = ideal store gate

theorem Matches.guarded (alike : Matches store real ideal) : Same store real.guarded ideal.guarded := by
  intro gate
  unfold Query.guarded
  split
  · rfl
  · rw [(alike { gate with busy := true } rfl).1]

theorem Same.bind {first first' : Query κ ω γ} {rest rest' : γ → Query κ ω β} (same : Same store first first')
    (further : ∀ value, Same store (rest value) (rest' value)) : Same store (first >>= rest) (first' >>= rest') := by
  intro gate
  rw [bind_run, bind_run, same gate]
  cases first' store gate with
  | ok value after => exact further value after
  | error fault after => rfl

theorem struck_stepwise : Stepwise (Struck store : ∀ {β : Type}, Query κ ω β → Query κ ω β → Prop) :=
  ⟨fun value => pure_own value ▸ .own _, read_own ▸ .own _, fun _ => throw_own _ ▸ .own _, Struck.bind⟩

theorem struck_encloses : Encloses (Struck store : ∀ {β : Type}, Query κ ω β → Query κ ω β → Prop) (Same store) :=
  ⟨struck_stepwise, ⟨fun _ _ => rfl, fun _ => rfl, fun _ _ => rfl, Same.bind⟩, fun struck => struck.alike.guarded⟩

end Slotted.Query
