import Slotted.Datum.Basic
namespace Slotted

structure Digest where
  start : UInt64
  int : UInt64 → Int → UInt64
  byte : UInt64 → UInt8 → UInt64

namespace Digest

def word (i : Int) : UInt64 := (i.emod 18446744073709551616).toNat.toUInt64

def wordBytes (w : UInt64) : List UInt8 := (List.range 8).map fun k => (w >>> (8 * k).toUInt64).toUInt8

def fnvByte (h : UInt64) (b : UInt8) : UInt64 := (h ^^^ b.toUInt64) * 0x100000001b3

-- The 64-bit Fowler-Noll-Vo hash, version 1a.
def fnv : Digest where
  start := 0xcbf29ce484222325
  int h i := (wordBytes (word i)).foldl fnvByte h
  byte := fnvByte

def ident : Digest where
  start := 0
  int _ i := word i
  byte h b := h * 31 + b.toUInt64

mutual
-- A text ends in a byte that no text contains, and a list begins with its length.
def feed (d : Digest) (h : UInt64) : Datum → UInt64
  | .int i => d.int h i
  | .str text => d.byte (text.toUTF8.toList.foldl d.byte h) 0xff
  | .list items => feedAll d ((wordBytes items.length.toUInt64).foldl d.byte h) items

def feedAll (d : Digest) (h : UInt64) : List Datum → UInt64
  | [] => h
  | item :: items => feedAll d (feed d h item) items
end

def wide (d : Digest) (value : Datum) : UInt64 := d.feed d.start value

def hash (d : Digest) (value : Datum) : UInt32 := foldHash (d.wide value)

def fnv32 (bytes : List UInt8) : UInt32 :=
  bytes.foldl (fun h b => (h ^^^ b.toUInt32) * 16777619) 2166136261

end Digest
end Slotted
