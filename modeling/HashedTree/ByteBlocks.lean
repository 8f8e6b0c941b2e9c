/-! # Byte strings cut into blocks of one size, and filled up with zeros -/
namespace HashedTree.ByteBlocks

abbrev Bytes := List UInt8

def cut {α : Type} (size : Nat) : Nat → List α → List (List α)
  | 0, _ => []
  | _, [] => []
  | count + 1, x :: xs => (x :: xs).take size :: cut size count ((x :: xs).drop size)

/-- Consecutive blocks of `size` elements, of which only the last may be shorter; no block is
empty. A list has at most as many blocks as elements, so `size = 0` is the only waste. -/
def blocks {α : Type} (size : Nat) (xs : List α) : List (List α) := cut size xs.length xs

def zeroFill (size : Nat) (bytes : Bytes) : Bytes :=
  bytes ++ List.replicate (size - bytes.length) 0

@[simp] theorem blocks_nil {α : Type} (size : Nat) : blocks size ([] : List α) = [] := rfl

private theorem cut_of_le {α : Type} {size : Nat} (positive : 0 < size) :
    ∀ {count count' : Nat} {xs : List α}, xs.length ≤ count → xs.length ≤ count' →
      cut size count xs = cut size count' xs
  | 0, 0, _, _, _ => rfl
  | 0, _ + 1, [], _, _ => rfl
  | _ + 1, 0, [], _, _ => rfl
  | _ + 1, _ + 1, [], _, _ => rfl
  | count + 1, count' + 1, x :: xs, h, h' => by
    have hd : ((x :: xs).drop size).length ≤ xs.length := by simp; omega
    simp only [List.length_cons] at h h'
    simp only [cut]
    rw [cut_of_le positive (by omega : ((x :: xs).drop size).length ≤ count)
      (by omega : ((x :: xs).drop size).length ≤ count')]

theorem blocks_of_ne_nil {α : Type} {size : Nat} (positive : 0 < size) {xs : List α}
    (h : xs ≠ []) : blocks size xs = xs.take size :: blocks size (xs.drop size) := by
  cases xs with
  | nil => exact absurd rfl h
  | cons x xs =>
    have hd : ((x :: xs).drop size).length ≤ xs.length := by simp; omega
    simp only [blocks, List.length_cons, cut]
    rw [cut_of_le positive hd (Nat.le_refl _)]

theorem length_zeroFill {size : Nat} {bytes : Bytes} (h : bytes.length ≤ size) :
    (zeroFill size bytes).length = size := by
  simp [zeroFill]; omega

end HashedTree.ByteBlocks
