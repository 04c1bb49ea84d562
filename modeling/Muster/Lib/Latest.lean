import Mathlib.Data.List.Induction

/-!
# Latest — each asker's last request, most recent last

A list of requests by key, kept so that a new request takes the place of the key's earlier one at the
end.  What is kept of the requests of some keys is what is kept, restricted to those keys; the most
recent request is always kept last.
-/

namespace Muster

variable {κ ν : Type*} [DecidableEq κ]

/-- The requests that are their key's last, in order. -/
def latest (asks : List (κ × ν)) : List (κ × ν) :=
  asks.foldl (fun kept a => kept.filter (·.1 ≠ a.1) ++ [a]) []

theorem latest_concat (asks : List (κ × ν)) (a : κ × ν) :
    latest (asks ++ [a]) = (latest asks).filter (·.1 ≠ a.1) ++ [a] := by
  simp [latest]

theorem latest_filter (p : κ → Bool) (asks : List (κ × ν)) :
    latest (asks.filter (p ·.1)) = (latest asks).filter (p ·.1) := by
  induction asks using List.reverseRecOn with
  | nil => rfl
  | append_singleton asks a ih =>
    cases ha : p a.1 with
    | true =>
      have hfilter : (asks ++ [a]).filter (p ·.1) = asks.filter (p ·.1) ++ [a] := by simp [ha]
      have hcomm : ((latest asks).filter (p ·.1)).filter (·.1 ≠ a.1) =
          ((latest asks).filter (·.1 ≠ a.1)).filter (p ·.1) := by
        rw [List.filter_filter, List.filter_filter]
        exact List.filter_congr fun b _ => Bool.and_comm ..
      rw [hfilter, latest_concat, latest_concat, ih, List.filter_append, hcomm]
      simp [ha]
    | false =>
      have hfilter : (asks ++ [a]).filter (p ·.1) = asks.filter (p ·.1) := by simp [ha]
      rw [hfilter, latest_concat, ih, List.filter_append, List.filter_filter]
      -- a request that is left out was of a key that is left out
      have hsame : (latest asks).filter (p ·.1) =
          (latest asks).filter fun b => p b.1 && decide (b.1 ≠ a.1) := by
        refine List.filter_congr fun b _ => ?_
        by_cases hb : b.1 = a.1
        · simp [hb, ha]
        · simp [hb]
      simp [ha, hsame]

theorem getLast?_latest (asks : List (κ × ν)) : (latest asks).getLast? = asks.getLast? := by
  induction asks using List.reverseRecOn with
  | nil => rfl
  | append_singleton asks a _ => rw [latest_concat, List.getLast?_concat, List.getLast?_concat]

end Muster
