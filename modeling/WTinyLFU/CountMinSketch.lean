import Mathlib.Data.Nat.Defs

/-! The frequency estimator behind the admission decisions. -/
namespace WTinyLFU

/-- Modelled from the spec: `util::CountMinSketch` (`cachelib/common/CountMinSketch.h` is
not under `src/`). `numHashes` rows of `numCounters` counters; a key is counted at one
column per row, chosen by the sketch's fixed row hashing `index` (width, row, key hash). -/
structure CountMinSketch where
  numCounters : Nat
  numHashes : Nat
  index : Nat → Nat → Nat → Nat
  table : Nat → Nat → Nat

namespace CountMinSketch

/-- Modelled from the spec: `CountMinSketch(numCounters, numHashes)`, all counters zero. -/
def create (numCounters numHashes : Nat) (index : Nat → Nat → Nat → Nat) : CountMinSketch :=
  { numCounters, numHashes, index, table := fun _ _ => 0 }

/-- The column of a key in a row. -/
def column (s : CountMinSketch) (row hash : Nat) : Nat := s.index s.numCounters row hash

/-- Modelled from the spec: the largest value a counter holds, `2^32 − 1`. The spec leaves the
counters' width open; 32 bits is taken. -/
def kCounterMax : Nat := 4294967295

/-- Modelled from the spec: `increment(hash)`, one more at the key's column of every row,
where the counter is below `kCounterMax`. -/
def increment (s : CountMinSketch) (hash : Nat) : CountMinSketch :=
  { s with table := fun r i =>
      if r < s.numHashes ∧ i = s.column r hash ∧ s.table r i < kCounterMax then s.table r i + 1
      else s.table r i }

/-- Modelled from the spec: `getCount(hash)`, the minimum over the rows. -/
def getCount (s : CountMinSketch) (hash : Nat) : Nat :=
  ((List.range s.numHashes).map fun r => s.table r (s.column r hash)).min?.getD 0

/-- Modelled from the spec: `decayCountsBy(kDecayFactor)` with the factor `0.5` the
container passes, every counter halved by an integer shift. -/
def decayCountsBy (s : CountMinSketch) : CountMinSketch :=
  { s with table := fun r i => s.table r i / 2 }

@[simp] theorem column_increment (s : CountMinSketch) (h r k : Nat) :
    (s.increment h).column r k = s.column r k := rfl

@[simp] theorem numHashes_increment (s : CountMinSketch) (h : Nat) :
    (s.increment h).numHashes = s.numHashes := rfl

theorem table_increment (s : CountMinSketch) (h r i : Nat) :
    (s.increment h).table r i =
      if r < s.numHashes ∧ i = s.column r h ∧ s.table r i < kCounterMax then s.table r i + 1
      else s.table r i := rfl

/-- With at least one row the minimum exists. -/
theorem min?_rows_eq_some (s : CountMinSketch) (h : Nat) (hpos : 0 < s.numHashes) :
    ∃ v, ((List.range s.numHashes).map fun r => s.table r (s.column r h)).min? = some v :=
  Option.isSome_iff_exists.mp
    (List.isSome_min?_of_mem (List.mem_map_of_mem _ (List.mem_range.mpr hpos)))

/-- A lower bound for every row is a lower bound of the count. -/
theorem le_getCount {s : CountMinSketch} {h m : Nat} (hpos : 0 < s.numHashes)
    (hrow : ∀ r < s.numHashes, m ≤ s.table r (s.column r h)) : m ≤ s.getCount h := by
  obtain ⟨v, hv⟩ := s.min?_rows_eq_some h hpos
  obtain ⟨r, hr, rfl⟩ := List.mem_map.mp (List.min?_eq_some_iff'.mp hv).1
  simpa [getCount, hv] using hrow r (List.mem_range.mp hr)

/-- The count is at most every row's counter. -/
theorem getCount_le_table (s : CountMinSketch) (h : Nat) {r : Nat} (hr : r < s.numHashes) :
    s.getCount h ≤ s.table r (s.column r h) := by
  obtain ⟨v, hv⟩ := s.min?_rows_eq_some h (by omega)
  simpa [getCount, hv] using
    (List.min?_eq_some_iff'.mp hv).2 _ (List.mem_map_of_mem _ (List.mem_range.mpr hr))

/-- A counted key has a positive estimate. -/
theorem getCount_increment_pos (s : CountMinSketch) (h : Nat) (hpos : 0 < s.numHashes) :
    0 < (s.increment h).getCount h :=
  le_getCount hpos fun r hr => by
    rw [table_increment, column_increment]
    split_ifs with hc
    · omega
    · have : ¬s.table r (s.column r h) < kCounterMax := fun hlt => hc ⟨hr, rfl, hlt⟩
      unfold kCounterMax at this; omega

/-- Counting a key never lowers another key's estimate. -/
theorem getCount_le_increment (s : CountMinSketch) (h k : Nat) (hpos : 0 < s.numHashes) :
    s.getCount k ≤ (s.increment h).getCount k :=
  le_getCount hpos fun r hr => by
    have := s.getCount_le_table k hr
    rw [table_increment, column_increment]
    split <;> omega

end CountMinSketch
end WTinyLFU
