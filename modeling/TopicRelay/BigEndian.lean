/-
  Numbers of a fixed count of bytes, the highest byte first.
-/
import TopicRelay.Text.Ascii

namespace TopicRelay.BigEndian

/-- The bytes of a number, as many as `count` says. -/
def encode : (count n : Nat) → Bytes
  | 0, _ => []
  | count + 1, n => encode count (n / 256) ++ [UInt8.ofNat (n % 256)]

theorem length_encode (count n : Nat) : (encode count n).length = count := by
  induction count generalizing n with
  | zero => rfl
  | succ k ih => simp [encode, ih]

/-- The number of some bytes. -/
def decode (bs : Bytes) : Nat := bs.foldl (fun n b => n * 256 + b.toNat) 0

/-- The first `count` bytes and the others, if there are as many. -/
def split? (count : Nat) (bs : Bytes) : Option (Bytes × Bytes) :=
  if (bs.take count).length = count then some (bs.take count, bs.drop count) else none

theorem length_split? {count : Nat} {bs taken rest : Bytes}
    (h : split? count bs = some (taken, rest)) : rest.length ≤ bs.length := by
  unfold split? at h
  split at h
  · simp only [Option.some.injEq, Prod.mk.injEq] at h
    rw [← h.2, List.length_drop]; omega
  · simp at h

/-- The number of the first `count` bytes, and the other bytes. -/
def decode? (count : Nat) (bs : Bytes) : Option (Nat × Bytes) :=
  (split? count bs).map fun s => (decode s.1, s.2)

theorem length_decode? {count n : Nat} {bs rest : Bytes} (h : decode? count bs = some (n, rest)) :
    rest.length ≤ bs.length := by
  obtain ⟨s, hs, heq⟩ := Option.map_eq_some_iff.mp h
  simp only [Prod.mk.injEq] at heq
  exact heq.2 ▸ length_split? hs

example : encode 2 258 = [1, 2] ∧ decode? 2 [1, 2, 3] = some (258, [3]) ∧ decode? 2 [1] = none := by
  decide

end TopicRelay.BigEndian
