import Mathlib
import Tako.RouteTable

/-! What the parts of a route pattern say, and that a pattern that matches fewer
requests never has the lower score. -/
namespace Tako.Routing
open Texts List
inductive HostForm where
  | below (suffix : Text)
  | exactly (host : Text)

namespace HostForm
def of (host : Text) : HostForm :=
  match "*.".toList.isPrefixOf? host with
  | some suffix => .below suffix
  | none => .exactly host

/-- A label or more, a dot and the suffix, in any case. -/
def Covers : HostForm → Text → Prop
  | .below suffix, h => ∃ labels tail, h = labels ++ '.' :: tail ∧ lower tail = lower suffix
  | .exactly host, h => lower host = lower h

def score : HostForm → ℕ
  | .below _ => 1
  | .exactly _ => 2

theorem exists_covers (form : HostForm) : ∃ h, form.Covers h := by
  cases form with
  | below suffix => exact ⟨'.' :: suffix, [], suffix, rfl, rfl⟩
  | exactly host => exact ⟨host, rfl⟩

theorem score_le {P Q : HostForm} (h : ∀ host, P.Covers host → Q.Covers host) :
    Q.score ≤ P.score := by
  cases P with
  | exactly => cases Q <;> simp [score]
  | below suffix =>
    cases Q with
    | below => exact le_rfl
    | exactly =>
      have hshort := congrArg List.length (h ('.' :: suffix) ⟨[], suffix, rfl, rfl⟩)
      have hlong := congrArg List.length (h ('a' :: '.' :: suffix) ⟨['a'], suffix, rfl, rfl⟩)
      simp only [length_lower, length_cons] at hshort hlong
      omega

theorem below_covers {s suffix h : Text} (hh : (below (s ++ '.' :: suffix)).Covers h) :
    (below suffix).Covers h := by
  obtain ⟨front, _, rfl, htail⟩ := hh
  rw [lower_append, lower_cons] at htail
  obtain ⟨middle, _, rfl, _, hrest⟩ := map_eq_append_iff.mp htail
  obtain ⟨dot, last, rfl, hdot, hlast⟩ := map_eq_cons_iff.mp hrest
  have hdot' : dot = '.' := eq_of_toLower_eq hdot rfl
  refine ⟨front ++ '.' :: middle, last, ?_, hlast⟩
  rw [hdot']
  simp
end HostForm

theorem hostSpecificity_eq (host : Text) : hostSpecificity host = (HostForm.of host).score := by
  simp only [hostSpecificity, HostForm.of]
  cases hprefix : "*.".toList.isPrefixOf? host with
  | none =>
    have hnot : "*.".toList.isPrefixOf host = false := by
      rw [← isSome_isPrefixOf?_eq_isPrefixOf, hprefix]
      rfl
    rw [hnot]
    rfl
  | some =>
    have hpos : "*.".toList.isPrefixOf host = true := by
      rw [← isSome_isPrefixOf?_eq_isPrefixOf, hprefix]
      rfl
    rw [hpos]
    rfl

theorem tail_matches_iff (suffix h : Text) :
    (suffix.length < h.length ∧ h[h.length - suffix.length - 1]? = some '.' ∧
      lower (h.drop (h.length - suffix.length)) = lower suffix) ↔
      (HostForm.below suffix).Covers h := by
  constructor
  · rintro ⟨_, hdot, htail⟩
    have hpos : h.length - suffix.length - 1 < h.length := by omega
    obtain ⟨hindex, hget⟩ := List.getElem?_eq_some_iff.mp hdot
    have hdrop := List.drop_eq_getElem_cons hindex
    have hnext : h.length - suffix.length - 1 + 1 = h.length - suffix.length := by omega
    rw [hget, hnext] at hdrop
    refine ⟨h.take (h.length - suffix.length - 1), h.drop (h.length - suffix.length), ?_, htail⟩
    rw [← hdrop, take_append_drop]
  · rintro ⟨labels, tail, rfl, htail⟩
    have hlength : tail.length = suffix.length := by
      simpa only [length_lower] using congrArg List.length htail
    have hindex : (labels ++ '.' :: tail).length - suffix.length - 1 = labels.length := by
      simp only [length_append, length_cons]
      omega
    have hdrop : (labels ++ '.' :: tail).length - suffix.length = labels.length + 1 := by
      simp only [length_append, length_cons]
      omega
    refine ⟨?_, ?_, ?_⟩
    · simp only [length_append, length_cons]
      omega
    · rw [hindex]
      simp
    · rw [hdrop]
      simpa using htail

theorem hostnameMatches_iff (pattern h : Text) :
    hostnameMatches pattern h = true ↔ (HostForm.of pattern).Covers h := by
  simp only [hostnameMatches, HostForm.of]
  cases "*.".toList.isPrefixOf? pattern with
  | none => simp [HostForm.Covers]
  | some suffix =>
    dsimp only
    rw [← tail_matches_iff]
    by_cases hsame : lower h = lower suffix
    · -- the bare suffix is too short for the test that follows
      have hlength : h.length = suffix.length := by
        simpa only [length_lower] using congrArg List.length hsame
      simp [hsame, hlength]
    · simp [hsame, and_assoc]

inductive PathForm where
  | any
  | under (stem : Text)
  | starting (stem : Text)
  | exactly (path : Text)

namespace PathForm
def of : Option Text → PathForm
  | none => .any
  | some p =>
    match "/*".toList.isSuffixOf? p with
    | some stem => .under stem
    | none => if p.getLast? = some '*' then .starting p.dropLast
      else .exactly (normalizeExactPath p)

def Covers : PathForm → Text → Prop
  | .any, _ => True
  | .under stem, p => p = stem ∨ ∃ rest, p = stem ++ '/' :: rest
  | .starting stem, p => stem <+: p
  | .exactly path, p => path = normalizeExactPath p

def score : PathForm → ℕ × ℕ
  | .any => (0, 0)
  | .under stem => (byteLength stem, 0)
  | .starting stem => (byteLength stem, 0)
  | .exactly path => (byteLength path, 1)

def sample : PathForm → Text
  | .any => []
  | .under stem => stem
  | .starting stem => stem
  | .exactly path => path

def Normal : PathForm → Prop
  | .exactly path => normalizeExactPath path = path
  | _ => True

theorem byteLength_sample (form : PathForm) : byteLength form.sample = form.score.1 := by
  cases form <;> rfl

theorem covers_sample {form : PathForm} (h : form.Normal) : form.Covers form.sample := by
  cases form with
  | any => trivial
  | under => exact .inl rfl
  | starting stem => exact prefix_refl stem
  | exactly => exact h.symm
end PathForm

theorem normalizeExactPath_of_getLast? {path : Text} {c : Char} (h : path.getLast? = some c)
    (hc : c ≠ '/') : normalizeExactPath path = path := by
  obtain ⟨front, rfl⟩ := getLast?_eq_some_iff.mp h
  have hroot : front ++ [c] ≠ ['/'] := by
    intro heq
    have hlast := congrArg List.getLast? heq
    simp [hc] at hlast
  have htrim : (front ++ [c]).rdropWhile (· == '/') = front ++ [c] := by
    rw [rdropWhile_concat]
    simp [hc]
  simp [normalizeExactPath, hroot, htrim]

theorem normalizeExactPath_idem (path : Text) :
    normalizeExactPath (normalizeExactPath path) = normalizeExactPath path := by
  have hroot : normalizeExactPath ['/'] = ['/'] := if_pos rfl
  by_cases hpath : path = ['/']
  · rw [hpath, hroot, hroot]
  by_cases hempty : path.rdropWhile (· == '/') = []
  · have hnorm : normalizeExactPath path = ['/'] := by simp [normalizeExactPath, hpath, hempty]
    rw [hnorm, hroot]
  · have hnorm : normalizeExactPath path = path.rdropWhile (· == '/') := by
      simp [normalizeExactPath, hpath, hempty]
    -- what is left after the trim does not end in a slash
    have hlast := rdropWhile_last_not (· == '/') path hempty
    rw [hnorm]
    apply normalizeExactPath_of_getLast? (getLast?_eq_some_getLast hempty)
    simpa using hlast

variable (path : Option Text)
theorem pathForm_normal : (PathForm.of path).Normal := by
  cases path with
  | none => trivial
  | some p =>
    simp only [PathForm.of]
    cases "/*".toList.isSuffixOf? p with
    | some => trivial
    | none =>
      by_cases hstar : p.getLast? = some '*'
      · simp only [if_pos hstar, PathForm.Normal]
      · simp only [if_neg hstar, PathForm.Normal]
        exact normalizeExactPath_idem p

theorem pathSpecificity_eq : pathSpecificity path = (PathForm.of path).score := by
  cases path with
  | none => rfl
  | some p =>
    simp only [pathSpecificity, PathForm.of]
    cases "/*".toList.isSuffixOf? p with
    | some => rfl
    | none =>
      by_cases hstar : p.getLast? = some '*'
      · simp only [if_pos hstar, PathForm.score]
      · simp only [if_neg hstar, PathForm.score]

theorem under_matches_iff (stem path : Text) :
    (match stem.isPrefixOf? path with
      | some rest => rest.isEmpty || rest.head? == some '/'
      | none => false) = true ↔ (PathForm.under stem).Covers path := by
  cases hprefix : stem.isPrefixOf? path with
  | none =>
    have hnot : ¬stem <+: path := by
      intro h
      obtain ⟨rest, hrest⟩ := h
      rw [isPrefixOf?_eq_some_iff_append_eq.mpr hrest] at hprefix
      cases hprefix
    constructor
    · intro h
      cases h
    · rintro (rfl | ⟨rest, rfl⟩)
      · exact absurd (prefix_refl _) hnot
      · exact absurd (prefix_append _ _) hnot
  | some rest =>
    have hrest := isPrefixOf?_eq_some_iff_append_eq.mp hprefix
    subst hrest
    cases rest with
    | nil => simp [PathForm.Covers]
    | cons => simp [PathForm.Covers]

theorem pathMatches_iff (p : Text) :
    path.all (pathMatches · p) = true ↔ (PathForm.of path).Covers p := by
  cases path with
  | none => simp [PathForm.of, PathForm.Covers]
  | some pattern =>
    simp only [Option.all_some, pathMatches, PathForm.of]
    cases "/*".toList.isSuffixOf? pattern with
    | some stem => exact under_matches_iff stem p
    | none =>
      by_cases hstar : pattern.getLast? = some '*'
      · simp only [if_pos hstar, PathForm.Covers]
        exact isPrefixOf_iff_prefix
      · simp [if_neg hstar, PathForm.Covers]

namespace PathForm
theorem normalizeExactPath_ne (stem : Text) :
    normalizeExactPath (stem ++ ['/', 'a']) ≠ normalizeExactPath (stem ++ ['/', 'b']) := by
  have ha : normalizeExactPath (stem ++ ['/', 'a']) = stem ++ ['/', 'a'] := by
    apply normalizeExactPath_of_getLast? (c := 'a')
    · simp
    · decide
  have hb : normalizeExactPath (stem ++ ['/', 'b']) = stem ++ ['/', 'b'] := by
    apply normalizeExactPath_of_getLast? (c := 'b')
    · simp
    · decide
  rw [ha, hb]
  simp

theorem exactly_of_covered {P : PathForm} {path : Text}
    (h : ∀ p, P.Covers p → (exactly path).Covers p) : ∃ path', P = exactly path' := by
  have hclash (stem : Text) (ha : P.Covers (stem ++ ['/', 'a']))
      (hb : P.Covers (stem ++ ['/', 'b'])) : False := by
    exact normalizeExactPath_ne stem ((h _ ha).symm.trans (h _ hb))
  cases P with
  | any => exact (hclash [] trivial trivial).elim
  | under stem => exact (hclash stem (.inr ⟨_, rfl⟩) (.inr ⟨_, rfl⟩)).elim
  | starting stem => exact (hclash stem (prefix_append _ _) (prefix_append _ _)).elim
  | exactly path' => exact ⟨path', rfl⟩

theorem byteLength_le_of_covers {P : PathForm} (hP : ∀ path, P ≠ exactly path) {p : Text}
    (h : P.Covers p) : P.score.1 ≤ byteLength p := by
  cases P with
  | any => exact Nat.zero_le _
  | under =>
    obtain rfl | ⟨_, rfl⟩ := h
    · exact le_rfl
    · exact byteLength_le_of_prefix (prefix_append _ _)
  | starting => exact byteLength_le_of_prefix h
  | exactly path => exact absurd rfl (hP path)

theorem score_le {P Q : PathForm} (hP : P.Normal) (h : ∀ p, P.Covers p → Q.Covers p) :
    toLex Q.score ≤ toLex P.score := by
  have hsample := h P.sample (covers_sample hP)
  by_cases hQ : ∃ path, Q = exactly path
  · obtain ⟨path, rfl⟩ := hQ
    obtain ⟨path', rfl⟩ := exactly_of_covered h
    have hsame : path = path' := hsample.trans hP
    rw [hsame]
  · have hQ' (path : Text) : Q ≠ exactly path := fun heq => hQ ⟨path, heq⟩
    have hlength := byteLength_le_of_covers hQ' hsample
    rw [byteLength_sample] at hlength
    have hbonus : Q.score.2 = 0 := by
      cases Q with
      | exactly path => exact absurd rfl (hQ' path)
      | _ => rfl
    rw [Prod.Lex.toLex_le_toLex]
    obtain hlt | heq := lt_or_eq_of_le hlength
    · exact .inl hlt
    · exact .inr ⟨heq, by omega⟩
end PathForm

def covers (pattern : Text) : Set (Text × Text) := {r | routeMatches pattern r.1 r.2 = true}

def CompiledRouteEntry.covers (entry : CompiledRouteEntry) : Set (Text × Text) :=
  {r | entry.matchesRequest r.1 r.2 = true}

theorem routeMatches_iff {pattern : Text} (hne : pattern ≠ []) (host path : Text) :
    routeMatches pattern host path = true ↔ (HostForm.of (splitRoute pattern).1).Covers host ∧
        (PathForm.of (splitRoute pattern).2).Covers path := by
  have hempty : pattern.isEmpty = false := by simpa using hne
  simp only [routeMatches, hempty, Bool.false_eq_true, if_false, Bool.and_eq_true,
    hostnameMatches_iff, pathMatches_iff]

theorem matchesRequest_ofEntry {entry : RouteEntry} (hne : entry.pattern ≠ []) (host path : Text) :
    (CompiledRouteEntry.ofEntry entry).matchesRequest host path =
      routeMatches entry.pattern host path := by
  have hempty : entry.pattern.isEmpty = false := by simpa using hne
  simp only [routeMatches, hempty, Bool.false_eq_true, if_false]
  rfl

theorem covers_ofEntry {e : RouteEntry} (hne : e.pattern ≠ []) :
    (CompiledRouteEntry.ofEntry e).covers = covers e.pattern := by
  ext r
  simp only [CompiledRouteEntry.covers, covers, Set.mem_ofPred_eq, matchesRequest_ofEntry hne]

theorem routeMatches_ne_nil {pattern host path : Text} (h : routeMatches pattern host path = true) :
    pattern ≠ [] := by
  rintro rfl
  cases h

/-- The score never puts a route before one that matches fewer requests. -/
theorem routeSpecificity_le {P Q : Text} (hP : P ≠ []) (hQ : Q ≠ []) (h : covers P ⊆ covers Q) :
    routeSpecificity Q ≤ routeSpecificity P := by
  have hnormal := pathForm_normal (splitRoute P).2
  obtain ⟨host, hhost⟩ := (HostForm.of (splitRoute P).1).exists_covers
  have hpath := PathForm.covers_sample hnormal
  have hboth (host path : Text) (hh : (HostForm.of (splitRoute P).1).Covers host)
      (hp : (PathForm.of (splitRoute P).2).Covers path) :
      (HostForm.of (splitRoute Q).1).Covers host ∧ (PathForm.of (splitRoute Q).2).Covers path := by
    have hmem : (host, path) ∈ covers P := (routeMatches_iff hP host path).mpr ⟨hh, hp⟩
    exact (routeMatches_iff hQ host path).mp (h hmem)
  have hhosts := HostForm.score_le fun host' hh => (hboth host' _ hh hpath).1
  have hpaths := PathForm.score_le hnormal fun path' hp => (hboth host path' hhost hp).2
  have hPe : P.isEmpty = false := by simpa using hP
  have hQe : Q.isEmpty = false := by simpa using hQ
  simp only [routeSpecificity, hPe, hQe, Bool.false_eq_true, if_false, hostSpecificity_eq,
    pathSpecificity_eq]
  rw [Prod.Lex.toLex_le_toLex]
  obtain hlt | heq := lt_or_eq_of_le hhosts
  · exact .inl hlt
  · exact .inr ⟨heq, hpaths⟩

end Tako.Routing
