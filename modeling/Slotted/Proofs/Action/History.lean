import Slotted.Proofs.Ends
namespace Slotted.Session

variable {κ ω β γ : Type} {act : γ → Update κ ω β} {start : Session κ ω}

def performed (act : γ → Update κ ω β) (actions : List γ) (start : Session κ ω) : Session κ ω :=
  (performAll act actions start).2

theorem performed_append (act : γ → Update κ ω β) (earlier later : List γ) (start : Session κ ω) :
    performed act (earlier ++ later) start = performed act later (performed act earlier start) := by
  induction earlier generalizing start with
  | nil => rfl
  | cons action earlier ih => exact ih (start.perform (act action)).2

theorem performed_concat (act : γ → Update κ ω β) (actions : List γ) (action : γ) (start : Session κ ω) :
    performed act (actions ++ [action]) start = ((performed act actions start).perform (act action)).2 :=
  performed_append act actions [action] start

theorem performed_map {δ : Type} {run : δ → Update κ ω β} {name : δ → γ} (same : ∀ action, act (name action) = run action)
    (actions : List δ) (start : Session κ ω) : performed act (actions.map name) start = performed run actions start := by
  obtain rfl : (fun action => act (name action)) = run := funext same
  induction actions generalizing start with
  | nil => rfl
  | cons action actions ih => exact ih (start.perform (act (name action))).2

theorem performed_keeps {holds : Session κ ω → Prop} (first : holds start) (actions : List γ)
    (kept : ∀ action ∈ actions, ∀ s, holds s → holds (s.perform (act action)).2) :
    holds (performed act actions start) := by
  induction actions generalizing start with
  | nil => exact first
  | cons action actions ih =>
    refine ih (kept action List.mem_cons_self start first) fun action member => ?_
    exact kept action (List.mem_cons_of_mem _ member)

theorem perform_tells {program : Update κ ω β} {s : Session κ ω} (told : Except Fault β → Session κ ω → Prop)
    (ends : Ends program s (fun value => told (.ok value)) fun fault => told (.error fault)) :
    told (s.perform program).1 (s.perform program).2 := by
  unfold Ends at ends
  unfold perform
  split at ends <;> rename_i ran <;> rw [ran] <;> exact ends

theorem perform_keeps {program : Update κ ω β} {s : Session κ ω} {holds : Session κ ω → Prop}
    (ends : Ends program s (fun _ after => holds after) fun _ after => holds after) : holds (s.perform program).2 :=
  perform_tells (fun _ after => holds after) ends

theorem faulted_of_perform {program : Update κ ω β} {s : Session κ ω} (fails : (s.perform program).1.isOk = false) :
    ∃ fault after, program s = .error fault after := by
  unfold perform at fails
  cases ran : program s with
  | error fault after => exact ⟨fault, after, rfl⟩
  | ok value after =>
    rw [ran] at fails
    cases fails

theorem returned_of_perform {program : Update κ ω β} {s : Session κ ω} {value : β} (seen : (s.perform program).1 = .ok value) :
    program s = .ok value (s.perform program).2 := by
  unfold perform at seen ⊢
  cases ran : program s with
  | error fault after =>
    rw [ran] at seen
    cases seen
  | ok told after =>
    rw [ran] at seen
    cases seen
    rfl

end Slotted.Session
