import Slotted.Action.Hash
import Slotted.Action.Tree
namespace Slotted

variable {κ ω β γ : Type}

def Session.perform (act : Update κ ω β) (s : Session κ ω) : Except Fault β × Session κ ω :=
  match act s with
  | .ok value s => (.ok value, s)
  | .error fault s => (.error fault, s)

def Session.performAll (act : γ → Update κ ω β) : List γ → Session κ ω → List (Except Fault β) × Session κ ω
  | [], s => ([], s)
  | action :: actions, s =>
    let (answer, s) := s.perform (act action)
    let (answers, s) := performAll act actions s
    (answer :: answers, s)

end Slotted
