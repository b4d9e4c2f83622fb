import Slotted.Datum.Digest
namespace Slotted

inductive Scheme where
  | std | fnv | natural | ident | const | low | tens | nocase | reverse | reverse2 | less | greater
deriving DecidableEq, Repr

namespace Scheme

def decade (i : Int) : Int := i.fdiv 10

def lowBits (i : Int) : UInt32 := (i.emod 4294967296).toNat.toUInt32

-- Only the letters A to Z have another case.
def lowerBytes (text : String) : List UInt8 :=
  text.toUTF8.toList.map fun b => if 65 ≤ b && b ≤ 90 then b + 32 else b

def hash : Scheme → Datum → UInt32
  | ident, value => Digest.ident.hash value
  | const, _ => 0
  | low, .int i => lowBits i
  | low, _ => 0
  | tens, .int i => lowBits (decade i)
  | nocase, .str text => Digest.fnv32 (lowerBytes text)
  | _, value => Digest.fnv.hash value

def equal : Scheme → Datum → Datum → Bool
  | tens, .int a, .int b => decade a = decade b
  | nocase, .str a, .str b => lowerBytes a = lowerBytes b
  | _, a, b => a.same b

def compareBytes (a b : List UInt8) : Ordering := List.compareLex (fun x y => Ord.compare x y) a b

def compare : Scheme → Datum → Datum → Ordering
  | tens, .int a, .int b => Ord.compare (decade a) (decade b)
  | nocase, .str a, .str b => compareBytes (lowerBytes a) (lowerBytes b)
  | reverse, a, b => b.compare a
  | less, _, _ => .lt
  | greater, _, _ => .gt
  | _, a, b => a.compare b

def hashing (scheme : Scheme) : PureHash Datum := ⟨scheme.hash, scheme.equal⟩

def ordering (scheme : Scheme) : PureOrder Datum := ⟨scheme.compare⟩

end Scheme
end Slotted
