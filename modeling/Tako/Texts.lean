import Mathlib.Algebra.Ring.Nat
import Mathlib.Data.List.DropRight

/-! Texts as lists of characters, with the operations on them that programs use to
compare, cut and trim. -/
namespace Texts
open List
abbrev Text := List Char

variable (s : Text)
/-- ASCII letters in lower case, everything else as it is. -/
def lower : Text := s.map Char.toLower

def byteLength : ℕ := (s.map Char.utf8Size).sum

@[simp] theorem length_lower : (lower s).length = s.length := length_map _

@[simp] theorem lower_append (t : Text) : lower (s ++ t) = lower s ++ lower t := map_append

@[simp] theorem lower_cons (c : Char) (s : Text) : lower (c :: s) = c.toLower :: lower s := rfl

variable {c : Char}
theorem isLower_iff : c.isLower = true ↔ 97 ≤ c.toNat ∧ c.toNat ≤ 122 := by
  change (decide ((97 : UInt32) ≤ c.val) && decide (c.val ≤ (122 : UInt32))) = true ↔ _
  rw [Bool.and_eq_true, decide_eq_true_eq, decide_eq_true_eq, UInt32.le_iff_toNat_le,
    UInt32.le_iff_toNat_le]
  exact Iff.rfl

theorem eq_of_toLower_eq {d : Char} (h : c.toLower = d) (hd : d.isLower = false) : c = d := by
  unfold Char.toLower at h
  split at h
  · rename_i hupper
    have hval := congrArg (fun d : Char => d.val.toNat) h
    have hle : 65 ≤ c.val.toNat := UInt32.le_iff_toNat_le.mp hupper.1
    have hge : c.val.toNat ≤ 90 := UInt32.le_iff_toNat_le.mp hupper.2
    have hshift : ('a'.val - 'A'.val).toNat = 32 := rfl
    simp only [UInt32.toNat_add, hshift] at hval
    -- the image lies between the codes of `a` and `z`
    have hlower : d.isLower = true := by
      rw [isLower_iff]
      change 97 ≤ d.val.toNat ∧ d.val.toNat ≤ 122
      omega
    rw [hd] at hlower
    cases hlower
  · exact h

theorem dot_toLower (c : Char) : (c.toLower == '.') = (c == '.') := by
  by_cases hc : c = '.'
  · subst hc
    rfl
  · have hlower : c.toLower ≠ '.' := fun h => hc (eq_of_toLower_eq h rfl)
    simp [hc, hlower]

@[simp] theorem byteLength_append (t : Text) :
    byteLength (s ++ t) = byteLength s + byteLength t := by
  simp [byteLength]

theorem byteLength_le_of_prefix {s t : Text} (h : s <+: t) : byteLength s ≤ byteLength t := by
  obtain ⟨r, rfl⟩ := h
  rw [byteLength_append]
  omega

/-- What stands before and after the first `c`. -/
def splitOnce (c : Char) : Text → Option (Text × Text)
  | [] => none
  | x :: s => if x = c then some ([], s) else (splitOnce c s).map fun (a, b) => (x :: a, b)

theorem splitOnce_eq_some_iff {s a b : Text} :
    splitOnce c s = some (a, b) ↔ s = a ++ c :: b ∧ c ∉ a := by
  induction s generalizing a with
  | nil => simp [splitOnce]
  | cons x s ih =>
    by_cases hx : x = c
    · simp only [splitOnce, if_pos hx, Option.some.injEq, Prod.mk.injEq]
      constructor
      · rintro ⟨rfl, rfl⟩
        simp [hx]
      · rintro ⟨heq, ha⟩
        cases a with
        | nil => exact ⟨rfl, (List.cons.inj heq).2⟩
        | cons y =>
          have hy : y = c := (List.cons.inj heq).1.symm.trans hx
          exact absurd (hy ▸ mem_cons_self) ha
    · simp only [splitOnce, if_neg hx, Option.map_eq_some_iff, Prod.mk.injEq, Prod.exists]
      constructor
      · rintro ⟨_, _, hsplit, rfl, rfl⟩
        obtain ⟨rfl, ha⟩ := ih.mp hsplit
        refine ⟨rfl, ?_⟩
        rw [mem_cons]
        exact not_or.mpr ⟨Ne.symm hx, ha⟩
      · rintro ⟨heq, ha⟩
        cases a with
        | nil => exact absurd (List.cons.inj heq).1 hx
        | cons y a =>
          obtain ⟨rfl, rfl⟩ := List.cons.inj heq
          have hnot : c ∉ a := fun hc => ha (mem_cons_of_mem _ hc)
          exact ⟨a, b, ih.mpr ⟨rfl, hnot⟩, rfl, rfl⟩

theorem splitOnce_eq_none {s : Text} (h : c ∉ s) : splitOnce c s = none := by
  cases hsplit : splitOnce c s with
  | none => rfl
  | some =>
    have hs := (splitOnce_eq_some_iff.mp hsplit).1
    rw [hs] at h
    exact absurd (mem_append_right _ mem_cons_self) h

section
variable {p : Char → Bool} {s t : Text}
theorem dropWhile_append_cons {c : Char} (hc : p c = false) :
    (s ++ c :: t).dropWhile p = s.dropWhile p ++ c :: t := by
  induction s with
  | nil => simp [hc]
  | cons x s ih =>
    by_cases hx : p x
    · simp only [cons_append, dropWhile_cons_of_pos hx, ih]
    · simp only [cons_append, dropWhile_cons_of_neg hx]

theorem rdropWhile_append_of_all (h : ∀ c ∈ t, p c = true) :
    (s ++ t).rdropWhile p = s.rdropWhile p := by
  induction t using List.reverseRecOn with
  | nil => rw [append_nil]
  | append_singleton t c ih =>
    have hc := h c (mem_append_right _ (mem_singleton_self c))
    rw [← append_assoc, rdropWhile_concat_pos _ _ _ hc]
    exact ih fun d hd => h d (mem_append_left _ hd)

theorem rdropWhile_eq_self_of_getLast? {c : Char} (h : s.getLast? = some c) (hc : p c = false) :
    s.rdropWhile p = s := by
  obtain ⟨_, rfl⟩ := getLast?_eq_some_iff.mp h
  exact rdropWhile_concat_neg _ _ _ (by simp [hc])

theorem lower_dropWhile (h : ∀ c : Char, p c.toLower = p c) :
    lower (s.dropWhile p) = (lower s).dropWhile p := by
  unfold lower
  rw [dropWhile_map]
  congr 2
  funext c
  exact (h c).symm

theorem lower_rdropWhile (h : ∀ c : Char, p c.toLower = p c) :
    lower (s.rdropWhile p) = (lower s).rdropWhile p := by
  have hreverse (t : Text) : lower t.reverse = (lower t).reverse := map_reverse
  rw [List.rdropWhile, List.rdropWhile, hreverse, lower_dropWhile h, hreverse]
end

end Texts
