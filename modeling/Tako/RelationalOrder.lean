import Mathlib.Data.List.Sort

/-! Row order in query results. SQL fixes the order of a result only as far as
its `ORDER BY` does; the rest is up to the store and is a parameter here. -/
namespace Relational
open List
variable {ρ : Type}
/-- The order in which a query meets the rows it selects. -/
structure ScanOrder (ρ : Type) where
  visit : List ρ → List ρ
  perm : ∀ l, (visit l).Perm l

namespace ScanOrder
def stored : ScanOrder ρ := ⟨id, fun _ => List.Perm.refl _⟩

def backward : ScanOrder ρ := ⟨List.reverse, reverse_perm⟩

variable (o : ScanOrder ρ) {l : List ρ}
@[simp] theorem mem_visit {r : ρ} : r ∈ o.visit l ↔ r ∈ l :=
  (o.perm l).mem_iff

variable (k : ρ → ℤ)
/-- `ORDER BY k LIMIT n`, with ties in scan order. -/
def orderByLimit (n : ℕ) (l : List ρ) : List ρ :=
  ((o.visit l).insertionSort (fun a b => k a ≤ k b)).take n

theorem perm_sorted (l : List ρ) : ((o.visit l).insertionSort (fun a b => k a ≤ k b)).Perm l :=
  (perm_insertionSort _ _).trans (o.perm l)

theorem mem_of_mem_orderByLimit {k : ρ → ℤ} {n : ℕ} {r : ρ} (h : r ∈ o.orderByLimit k n l) :
    r ∈ l :=
  (o.perm_sorted k l).mem_iff.mp (mem_of_mem_take h)

theorem length_orderByLimit (n : ℕ) (l : List ρ) :
    (o.orderByLimit k n l).length = min n l.length := by
  rw [orderByLimit, length_take, (o.perm_sorted k l).length_eq]

theorem nodup_orderByLimit (n : ℕ) (h : l.Nodup) : (o.orderByLimit k n l).Nodup :=
  (take_sublist _ _).nodup ((o.perm_sorted k l).nodup_iff.mpr h)

theorem le_of_not_mem_orderByLimit {k : ρ → ℤ} {n : ℕ} {a b : ρ} (ha : a ∈ o.orderByLimit k n l)
    (hb : b ∈ l) (hn : b ∉ o.orderByLimit k n l) : k a ≤ k b := by
  set s := (o.visit l).insertionSort (fun a b => k a ≤ k b) with hs
  have hsorted : (s.take n ++ s.drop n).Pairwise (fun a b => k a ≤ k b) := by
    rw [take_append_drop]
    exact pairwise_insertionSort _ _
  have hbs : b ∈ s.drop n := by
    have hb' : b ∈ s := (o.perm_sorted k l).mem_iff.mpr hb
    rw [← take_append_drop n s, mem_append] at hb'
    exact hb'.resolve_left hn
  exact (pairwise_append.mp hsorted).2.2 a ha b hbs

theorem head?_orderByLimit_one (l : List ρ) : ((o.orderByLimit k 1 l).head? = none ↔ l = []) ∧
      ∀ r, (o.orderByLimit k 1 l).head? = some r → r ∈ l ∧ ∀ b ∈ l, k r ≤ k b := by
  have hlen := o.length_orderByLimit k 1 l
  refine ⟨?_, ?_⟩
  · rw [head?_eq_none_iff, ← length_eq_zero_iff, ← length_eq_zero_iff, hlen]
    omega
  · intro r hr
    have hmem : r ∈ o.orderByLimit k 1 l := mem_of_head? hr
    refine ⟨o.mem_of_mem_orderByLimit hmem, ?_⟩
    intro b hb
    by_cases hbm : b ∈ o.orderByLimit k 1 l
    · obtain ⟨t, ht⟩ := head?_eq_some_iff.mp hr
      have ht0 : t = [] := by
        rw [ht, length_cons] at hlen
        exact length_eq_zero_iff.mp (by omega)
      have hbr : b = r := by simpa [ht, ht0] using hbm
      rw [hbr]
    · exact o.le_of_not_mem_orderByLimit hmem hb hbm
end ScanOrder
end Relational
