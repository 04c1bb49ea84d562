import Mathlib.Data.List.Basic

/-!
# Extract — stretches of a list that only grows

`S.extract i j` is the stretch of `S` from `i` up to `j`.  A log is read back as stretches of the
stream written to it, so these lemmas say how stretches are cut, joined and kept while the stream
grows at its end.
-/

namespace Muster

variable {α : Type*} {i j : ℕ}

theorem length_extract (S : List α) (i j : ℕ) :
    (S.extract i j).length = min (j - i) (S.length - i) := by
  simp [List.extract_eq_take_drop]

theorem extract_of_le (S : List α) (h : j ≤ i) : S.extract i j = [] := by
  simp [List.extract_eq_take_drop, h]

theorem extract_append_of_le (S T : List α) (h : j ≤ S.length) :
    (S ++ T).extract i j = S.extract i j := by
  by_cases hi : i ≤ S.length
  · rw [List.extract_eq_take_drop, List.drop_append_of_le_length hi, List.take_append_of_le_length]
    simp
    omega
  · rw [extract_of_le _ (by omega), extract_of_le _ (by omega)]

theorem extract_append_length (S T : List α) :
    (S ++ T).extract S.length (S.length + T.length) = T := by
  simp [List.extract_eq_take_drop]

theorem extract_append_extract (S : List α) {k : ℕ} (hij : i ≤ j) (hjk : j ≤ k) :
    S.extract i j ++ S.extract j k = S.extract i k := by
  obtain ⟨a, rfl⟩ := Nat.exists_eq_add_of_le hij
  obtain ⟨b, rfl⟩ := Nat.exists_eq_add_of_le hjk
  have h1 : i + a - i = a := by omega
  have h2 : i + a + b - (i + a) = b := by omega
  have h3 : i + a + b - i = a + b := by omega
  rw [List.extract_eq_take_drop, List.extract_eq_take_drop, List.extract_eq_take_drop, h1, h2, h3,
    List.take_add, List.drop_drop]

theorem take_drop_extract (S : List α) (i j k n : ℕ) :
    ((S.extract i j).drop k).take n = S.extract (i + k) (min j (i + k + n)) := by
  rw [List.extract_eq_take_drop, List.extract_eq_take_drop, List.drop_take, List.take_take,
    List.drop_drop]
  congr 1
  omega

theorem extract_extract (S : List α) (i j a b : ℕ) :
    (S.extract i j).extract a b = S.extract (i + a) (min j (i + b)) := by
  by_cases h : a ≤ b
  · have hend : i + a + (b - a) = i + b := by omega
    rw [List.extract_eq_take_drop (l := S.extract i j), take_drop_extract, hend]
  · rw [extract_of_le _ (by omega), extract_of_le _ (by omega)]

theorem getElem?_extract (S : List α) {k : ℕ} (h : i + k < j) :
    (S.extract i j)[k]? = S[i + k]? := by
  rw [List.extract_eq_take_drop, List.getElem?_take_of_lt (by omega), List.getElem?_drop]

end Muster
