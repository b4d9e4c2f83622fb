namespace Slotted

-- A container that has no room yet grows to this many elements.
def minCapacity : Nat := 8

-- Slot numbers fit 32 bits, slot 0 is reserved and the largest number stays free.
def maxCapacity : Nat := 4294967293

-- Sizes in requests are 64-bit; sums that would pass the end stop there.
def maxRequest : Nat := 18446744073709551615

def saturatingAdd (a b : Nat) : Nat := min (a + b) maxRequest

-- Buckets per hundred slots, unless a configuration says otherwise.
def defaultLoadFactor : Nat := 75

-- Zero buckets per hundred would leave nothing to select, more than a hundred nothing to gain.
def clampLoadFactor (percent : Nat) : Nat := max 1 (min percent 100)

-- Slot counts include the reserved slot; an unallocated pool has none and needs no buckets.
def bucketCount (loadFactor slots : Nat) : Nat :=
  if slots = 0 then 0 else max 1 (slots * loadFactor / 100)

theorem bucketCount_pos (loadFactor : Nat) {slots : Nat} (some : 0 < slots) : 0 < bucketCount loadFactor slots := by
  unfold bucketCount
  split
  · omega
  · exact Nat.le_max_left _ _

-- The next slot count of a full pool. It repeats the old one only at the limit.
def grownSlots (slots : Nat) : Nat := min (max (2 * slots) (minCapacity + 1)) (maxCapacity + 1)

theorem grownSlots_le (slots : Nat) : grownSlots slots ≤ maxCapacity + 1 := Nat.min_le_right _ _

theorem lt_grownSlots {slots : Nat} (room : slots < maxCapacity + 1) : slots < grownSlots slots := by
  unfold grownSlots maxCapacity minCapacity at *
  omega

-- An empty container may hold no slot at all, not even the reserved one.
def slotsFor (capacity : Nat) : Nat := if capacity = 0 then 0 else capacity + 1

end Slotted
