import Slotted.Rule
namespace Slotted

inductive Datum where
  | int (value : Int)
  | str (text : String)
  | list (items : List Datum)
deriving Repr, Inhabited

namespace Datum

def zero : Datum := .int 0

mutual
-- Integers come before texts and texts before lists. Texts compare by code point, lists item by item, and a
-- list comes after every shorter one that it begins with.
def compare : Datum → Datum → Ordering
  | .int a, .int b => Ord.compare a b
  | .int _, _ => .lt
  | .str _, .int _ => .gt
  | .str a, .str b => Ord.compare a b
  | .str _, .list _ => .lt
  | .list a, .list b => compareLists a b
  | .list _, _ => .gt

def compareLists : List Datum → List Datum → Ordering
  | [], [] => .eq
  | [], _ :: _ => .lt
  | _ :: _, [] => .gt
  | a :: as, b :: bs => (compare a b).then (compareLists as bs)
end

def same (a b : Datum) : Bool := compare a b = .eq

def hexDigits (n : Nat) : String := String.ofList (Nat.toDigits 16 n)

-- Quotes, backslashes and control characters are written as escapes.
def inspectChar (c : Char) : String :=
  if c = '"' then "\\\"" else if c = '\\' then "\\\\" else if c = '\n' then "\\n"
  else if c = '\t' then "\\t" else if c = '\r' then "\\r" else if c = '\x00' then "\\0"
  else if c.toNat < 32 || c.toNat = 127 then "\\u\x7b" ++ hexDigits c.toNat ++ "\x7d" else c.toString

def inspectText (text : String) : String := "\"" ++ String.join (text.toList.map inspectChar) ++ "\""

mutual
def inspect : Datum → String
  | .int value => toString value
  | .str text => inspectText text
  | .list items => "[" ++ String.intercalate ", " (inspectList items) ++ "]"

def inspectList : List Datum → List String
  | [] => []
  | item :: items => inspect item :: inspectList items
end

-- What may be done to a datum in place. A change that does not fit leaves it alone.
inductive Change where
  | keep
  | replace (value : Datum)
  | add (amount : Int)
  | append (text : String)
deriving Repr

def Change.apply (change : Change) (value : Datum) : Datum :=
  match change, value with
  | .replace new, _ => new
  | .add amount, .int i => .int ((i + amount).bmod 18446744073709551616)
  | .append text, .str old => .str (old ++ text)
  | _, value => value

end Datum
end Slotted
