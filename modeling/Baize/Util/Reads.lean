import Baize.Lib.Checked
import Baize.Util.Types

namespace Baize

open Lib

def readSpan (data : Bytes) (i n : ℕ) : Checked Bytes := do
  check (i + n ≤ data.length) .outOfBounds
  pure ((data.drop i).take n)

variable {data : Bytes} {i n k : ℕ}

theorem readSpan_of (h : i + n ≤ data.length) : readSpan data i n = .ok ((data.drop i).take n) := by
  rw [readSpan, check_of h]
  rfl

theorem byte1_span (h : k < n) : byte1 ((data.drop i).take n) k = byte1 data (i + k) := by
  rw [← byte1_drop]
  simp only [byte1, List.getD_eq_getElem?_getD, List.getElem?_take_of_lt h]

theorem load4_span (h : k + 3 < n) : load4 ((data.drop i).take n) k = load4 data (i + k) := by
  simp only [load4, byte1_span h, byte1_span (show k + 2 < n by omega),
    byte1_span (show k + 1 < n by omega), byte1_span (show k < n by omega), Nat.add_assoc]

end Baize
