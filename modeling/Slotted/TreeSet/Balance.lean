import Slotted.TreeSet.Walk
namespace Slotted.TreeSet

variable {α : Type}

-- The child opposite to the direction comes up, and its inner subtree changes hands.
def rotate (direction : Side) (x : Nat) : Edit (TreeSet α) Unit := do
  let z := (← link x).child direction.other
  let inner := (← link z).child direction
  let parent := (← link x).parent
  setChild x direction.other inner
  setParent inner x
  setChild z direction x
  modifyLink x fun link => { link with parent := z }
  modifyLink z fun link => { link with parent := parent }
  replaceChild .parentOwnsChild parent x z

-- Mends a node that is two levels heavier on one side. Tells the new top of the subtree and whether the
-- subtree is one level lower than it was.
def rebalance (x : Nat) : Edit (TreeSet α) (Nat × Bool) := do
  let heavy : Side := if 0 < (← link x).balance then .right else .left
  let z := (← link x).child heavy
  let tilt := (← link z).balance
  if 0 ≤ heavy.sign * tilt then
    rotate heavy.other x
    if tilt = 0 then
      setBalance x heavy.sign
      setBalance z (-heavy.sign)
      return (z, false)
    else
      setBalance x 0
      setBalance z 0
      return (z, true)
  else
    let y := (← link z).child heavy.other
    let inner := heavy.sign * (← link y).balance
    rotate heavy z
    rotate heavy.other x
    setBalance x (if 0 < inner then -heavy.sign else 0)
    setBalance z (if inner < 0 then heavy.sign else 0)
    setBalance y 0
    return (y, true)

-- How far a change of height may travel. After an insertion no node is passed twice, because it is left one
-- level out of balance and the next change ends there. After a removal every step that goes on lowers the sum
-- of the balances' sizes, and a balance has eight bits.
def retraceLimit (s : TreeSet α) : Nat := 128 * s.pool.slots.size + 1

-- The subtree at `child` is one level higher than it was. The news travels up until some node evens out.
def retraceInsertion : Nat → Nat → Edit (TreeSet α) Unit
  | fuel, child => do
    let parent := (← link child).parent
    if parent = 0 then return ()
    match fuel with
    | 0 => throw .endless
    | fuel + 1 =>
      let side := (← link parent).sideOf child
      let balance ← shiftBalance parent side.sign
      if balance = 0 then return ()
      else if balance = 1 || balance = -1 then retraceInsertion fuel parent
      else
        let _ ← rebalance parent

def attach (i parent : Nat) (side : Side) : Edit (TreeSet α) Unit := do
  modifyLink i fun _ => { (default : TreeLink) with parent := parent }
  if parent = 0 then setRoot i
  else
    setChild parent side i
    retraceInsertion (← get).retraceLimit i

-- The subtree on this side of `n` is one level lower than it was. Travels up until a height is kept.
def retraceRemoval : Nat → Nat → Side → Edit (TreeSet α) Unit
  | fuel, n, side => do
    if n = 0 then return ()
    match fuel with
    | 0 => throw .endless
    | fuel + 1 =>
      let parent := (← link n).parent
      let balance ← shiftBalance n (-side.sign)
      if balance = 1 || balance = -1 then return ()
      let (top, shrank) ← if balance = 0 then pure (n, true) else rebalance n
      if !shrank || parent = 0 then return ()
      retraceRemoval fuel parent ((← link parent).sideOf top)

-- A node with two children gives its place to its successor, which has no left child. Tells where a level was
-- lost, and on which side.
def cutOut (d : Nat) : Edit (TreeSet α) (Nat × Side) := do
  let ⟨parent, left, right, balance⟩ ← link d
  if left ≠ 0 && right ≠ 0 then
    let s ← (← get).pool.lowestFrom (← get).pool.walkLimit right
    if s = right then
      modifyLink s fun link => { link with parent := parent, left := left, balance := balance }
      setParent left s
      replaceChild .parentOwnsChild parent d s
      return (s, .right)
    else
      let old ← link s
      setChild old.parent .left old.right
      setParent old.right old.parent
      modifyLink s fun _ => ⟨parent, left, right, balance⟩
      setParent left s
      setParent right s
      replaceChild .parentOwnsChild parent d s
      return (old.parent, .left)
  else
    let child := if left ≠ 0 then left else right
    let side ← if parent = 0 then pure .right else pure ((← link parent).sideOf d)
    setParent child parent
    replaceChild .parentOwnsChild parent d child
    return (parent, side)

def unlink (d : Nat) : Edit (TreeSet α) Unit := do
  let (start, side) ← cutOut d
  modifyLink d fun _ => default
  retraceRemoval (← get).retraceLimit start side

def relinkMoved (source target : Nat) : Edit (TreeSet α) Unit := do
  let moved ← link target
  if moved.parent = 0 then
    let root := (← get).index.slot
    unless root = source do throw (.disagreement .movedRoot root source)
    setRoot target
  else replaceChild .movedChild moved.parent source target
  setParent moved.left target
  setParent moved.right target

end TreeSet

instance : Index Root TreeLink where
  width _ _ := 0
  moved := TreeSet.relinkMoved
  settled := pure ()
  resized _ := pure ()
  unlink := TreeSet.unlink
  cleared _ := ⟨0⟩

end Slotted
