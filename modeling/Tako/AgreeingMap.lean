import Mathlib.Data.List.AList

/-! Maps that are filled item by item from a list and refuse a second value for a
key. -/
namespace AgreeingMap
open List
variable {κ ν β : Type} [DecidableEq κ]
/-- `insert` gives back what was there, and it is another value. -/
def conflicts [DecidableEq ν] (m : AList (fun _ : κ => ν)) (k : κ) (v : ν) : Bool :=
  (m.lookup k).any (fun previous => previous ≠ v)

/-- The map holds, under their keys, the values of the items that satisfy `p`. -/
def Records (m : AList (fun _ : κ => ν)) (items : List β) (p : β → Prop) (key : β → κ)
    (value : β → ν) : Prop :=
  ∀ k v, m.lookup k = some v ↔ ∃ x ∈ items, p x ∧ key x = k ∧ value x = v

variable {m : AList (fun _ : κ => ν)} {v : ν} {k : κ}
namespace Records
variable {items : List β} {p : β → Prop} {key : β → κ} {value : β → ν} {a : β}

theorem nil : Records (∅ : AList (fun _ : κ => ν)) [] p key value := by
  intro k v
  simp

section
variable (h : Records m items p key value)
include h
theorem agree {x y : β} (hx : x ∈ items) (hy : y ∈ items) (hpx : p x) (hpy : p y)
    (hkey : key x = key y) : value x = value y := by
  have hlookup := (h (key x) (value x)).mpr ⟨x, hx, hpx, rfl, rfl⟩
  rw [(h (key x) (value y)).mpr ⟨y, hy, hpy, hkey.symm, rfl⟩] at hlookup
  exact (Option.some.inj hlookup).symm

theorem conflicts_iff [DecidableEq ν] :
    conflicts m k v = false ↔ ∀ x ∈ items, p x → key x = k → value x = v := by
  unfold conflicts
  cases hlookup : m.lookup k with
  | none =>
    simp only [Option.any_none, true_iff]
    intro x hx hpx hkey
    have hsome := (h k (value x)).mpr ⟨x, hx, hpx, hkey, rfl⟩
    rw [hlookup] at hsome
    cases hsome
  | some previous =>
    simp only [Option.any_some, decide_eq_false_iff_not, not_not]
    constructor
    · intro hprevious x hx hpx hkey
      have hsome := (h k (value x)).mpr ⟨x, hx, hpx, hkey, rfl⟩
      rw [hlookup, hprevious] at hsome
      exact (Option.some.inj hsome).symm
    · intro hagree
      obtain ⟨x, hx, hpx, hkey, hvalue⟩ := (h k previous).mp hlookup
      rw [← hvalue]
      exact hagree x hx hpx hkey

theorem skip (ha : ¬p a) : Records m (items ++ [a]) p key value := by
  intro k v
  rw [h k v]
  constructor
  · rintro ⟨x, hx, hrest⟩
    exact ⟨x, mem_append_left _ hx, hrest⟩
  · rintro ⟨x, hx, hpx, hrest⟩
    obtain hx | hx := mem_append.mp hx
    · exact ⟨x, hx, hpx, hrest⟩
    · rw [mem_singleton.mp hx] at hpx
      exact absurd hpx ha

theorem insert (ha : p a) (hagree : ∀ x ∈ items, p x → key x = key a → value x = value a) :
    Records (m.insert (key a) (value a)) (items ++ [a]) p key value := by
  intro k v
  have hlast : a ∈ items ++ [a] := mem_append_right _ (mem_singleton_self a)
  by_cases hk : k = key a
  · subst hk
    rw [AList.lookup_insert]
    constructor
    · intro hv
      exact ⟨a, hlast, ha, rfl, Option.some.inj hv⟩
    · rintro ⟨x, hx, hpx, hkey, rfl⟩
      obtain hx | hx := mem_append.mp hx
      · rw [hagree x hx hpx hkey]
      · rw [mem_singleton.mp hx]
  · rw [AList.lookup_insert_ne hk, h k v]
    constructor
    · rintro ⟨x, hx, hrest⟩
      exact ⟨x, mem_append_left _ hx, hrest⟩
    · rintro ⟨x, hx, hpx, hkey, hvalue⟩
      obtain hx | hx := mem_append.mp hx
      · exact ⟨x, hx, hpx, hkey, hvalue⟩
      · rw [mem_singleton.mp hx] at hkey
        exact absurd hkey.symm hk
end
end Records

def retain (p : κ → ν → Bool) (m : AList (fun _ : κ => ν)) : AList (fun _ : κ => ν) :=
  ⟨m.entries.filter fun entry => p entry.1 entry.2, m.nodupKeys.sublist filter_sublist⟩

theorem lookup_retain {p : κ → ν → Bool} :
    (retain p m).lookup k = some v ↔ m.lookup k = some v ∧ p k v = true := by
  have hfilter : v ∈ (retain p m).lookup k ↔ _ := AList.mem_lookup_iff
  have hm : v ∈ m.lookup k ↔ _ := AList.mem_lookup_iff
  rw [Option.mem_def] at hfilter hm
  rw [hfilter, hm]
  exact mem_filter

theorem lookup_union {m' : AList (fun _ : κ => ν)} : (m ∪ m').lookup k = some v ↔
      m.lookup k = some v ∨ (m.lookup k = none ∧ m'.lookup k = some v) := by
  have hunion : v ∈ (m ∪ m').lookup k ↔ _ := AList.mem_lookup_union
  simpa only [Option.mem_def, ← AList.lookup_eq_none] using hunion

end AgreeingMap
