import Tako.RouteSpecificity

/-! Which route a table selects. The hash map decides between apps whose routes tie. -/
namespace Tako.Routing
open Texts Selection List
abbrev Routes := String → Option (List Text)

def Answers (routes : Routes) (app : String) (pattern host path : Text) : Prop :=
  pattern ∈ (routes app).getD [] ∧ routeMatches pattern host path = true

/-- What routing promises of the tables that hold the given routes. -/
structure MostSpecific (routes : Routes) : Prop where
  selects : ∀ t : RouteTable, t.Built → t.appRoutes = routes → ∀ host path,
    (t.select host path).isSome ↔ ∃ app pattern, Answers routes app pattern host path
  narrower : ∀ t : RouteTable, t.Built → t.appRoutes = routes → ∀ host path entry,
    selectEntry t.compiled host path = some entry → ∀ app pattern,
      Answers routes app pattern host path → ¬covers pattern ⊂ entry.covers
  determined : ∀ t t' : RouteTable, t.Built → t'.Built → t.appRoutes = routes →
    t'.appRoutes = routes → ∀ host path, t.select host path = t'.select host path

/-- A route with the best score of all that match the request, and the first such in
the list of its app. -/
structure Leads (routes : Routes) (host path : Text) (app : String) (pattern : Text) : Prop where
  first : FirstBest routeSpecificity (routeMatches · host path) ((routes app).getD []) pattern
  best : ∀ app' p, Answers routes app' p host path → routeSpecificity p ≤ routeSpecificity pattern

/-- Nothing is left to a tie: a route that leads scores more than every matching route
of another app, and none that its own app lists later with the same score is narrower. -/
structure Decisive (routes : Routes) : Prop where
  apps : ∀ host path app pattern, Leads routes host path app pattern → ∀ app' p, app' ≠ app →
    Answers routes app' p host path → routeSpecificity p < routeSpecificity pattern
  own : ∀ host path app pattern, Leads routes host path app pattern → ∀ p,
    [pattern, p] <+ (routes app).getD [] → routeSpecificity p = routeSpecificity pattern →
    routeMatches p host path = true → ¬covers p ⊂ covers pattern

variable {t : RouteTable} {app : String} {order : List String} {host path pattern : Text}
namespace RouteTable
def compiledOf (t : RouteTable) (app : String) : List CompiledRouteEntry :=
  (t.entriesOf app).map .ofEntry

theorem pattern_ne_nil {entry : RouteEntry} (h : entry ∈ t.entriesOf app) : entry.pattern ≠ [] := by
  obtain ⟨_, hpattern, rfl⟩ := mem_map.mp h
  simpa using (mem_filter.mp hpattern).2

theorem compileRoutes_entries (t : RouteTable) (iteration : List String) :
    compileRoutes (iteration.flatMap t.entriesOf) =
      (iteration.flatMap t.compiledOf).insertionSort (Better CompiledRouteEntry.specificity) := by
  have hkept : (iteration.flatMap t.entriesOf).filter (fun entry => !entry.pattern.isEmpty) =
      iteration.flatMap t.entriesOf := by
    apply filter_eq_self.mpr
    intro _ hentry
    obtain ⟨_, _, happ⟩ := mem_flatMap.mp hentry
    simpa using pattern_ne_nil happ
  rw [compileRoutes, hkept, map_flatMap]
  rfl

theorem Built.iteration (h : t.Built) : ∃ iteration, Iterates t.appRoutes iteration ∧
    t.compiled = compileRoutes (iteration.flatMap t.entriesOf) := by
  cases h with
  | new => exact ⟨[], ⟨nodup_nil, by simp⟩, rfl⟩
  | update u iteration _ hiteration =>
    refine ⟨iteration, hiteration, ?_⟩
    cases u <;> rfl

theorem Built.reordered (h : t.Built) (horder : Iterates t.appRoutes order) :
    ∃ t' : RouteTable, t'.Built ∧ t'.appRoutes = t.appRoutes ∧
      t'.compiled = compileRoutes (order.flatMap t.entriesOf) := by
  cases h with
  | new =>
    have hnil : order = [] := by
      apply eq_nil_iff_forall_not_mem.mpr
      intro app happ
      simpa using (horder.mem app).mp happ
    subst hnil
    exact ⟨{}, .new, rfl, rfl⟩
  | update u _ ht =>
    cases u with
    | setAppRoutesWithSourceIp app routes sourceIp =>
      exact ⟨_, .update (.setAppRoutesWithSourceIp app routes sourceIp) order ht horder, rfl, rfl⟩
    | removeAppRoutes app => exact ⟨_, .update (.removeAppRoutes app) order ht horder, rfl, rfl⟩

variable {entry : CompiledRouteEntry}
theorem firstBest_compiledOf :
    FirstBest CompiledRouteEntry.specificity (·.matchesRequest host path) (t.compiledOf app) entry ↔
      ∃ pattern, CompiledRouteEntry.ofEntry
          ⟨app, pattern, (t.appSourceIp app).getD default⟩ = entry ∧
        FirstBest routeSpecificity (routeMatches · host path)
          ((t.appRoutes app).getD []) pattern := by
  rw [compiledOf, entriesOf, map_map, firstBest_map]
  refine exists_congr fun pattern => and_congr_right fun _ => ?_
  have hsame (p : Text) (hp : p ∈ ((t.appRoutes app).getD []).filter fun p => !p.isEmpty) :
      (CompiledRouteEntry.ofEntry ⟨app, p, (t.appSourceIp app).getD default⟩).matchesRequest
        host path = routeMatches p host path :=
    matchesRequest_ofEntry (by simpa using (mem_filter.mp hp).2) host path
  refine (firstBest_congr hsame).trans ?_
  apply firstBest_filter
  intro p hp
  simpa using routeMatches_ne_nil hp

theorem mem_compiledOf (h : entry ∈ t.compiledOf app)
    (hmatches : entry.matchesRequest host path = true) :
    ∃ pattern, Answers t.appRoutes app pattern host path ∧ entry.app = app ∧
      entry.specificity = routeSpecificity pattern := by
  obtain ⟨_, hroute, rfl⟩ := mem_map.mp h
  have hne := pattern_ne_nil hroute
  obtain ⟨pattern, hpattern, rfl⟩ := mem_map.mp hroute
  rw [matchesRequest_ofEntry hne] at hmatches
  exact ⟨pattern, ⟨mem_of_mem_filter hpattern, hmatches⟩, rfl, rfl⟩

theorem mem_compiledOf_of_answers (h : Answers t.appRoutes app pattern host path) :
    CompiledRouteEntry.ofEntry ⟨app, pattern, (t.appSourceIp app).getD default⟩ ∈ t.compiledOf app ∧
      (CompiledRouteEntry.ofEntry ⟨app, pattern, (t.appSourceIp app).getD default⟩).matchesRequest
        host path = true := by
  have hne := routeMatches_ne_nil h.2
  have hmem : pattern ∈ ((t.appRoutes app).getD []).filter fun p => !p.isEmpty :=
    mem_filter.mpr ⟨h.1, by simpa using hne⟩
  exact ⟨mem_map_of_mem (mem_map_of_mem hmem),
    (matchesRequest_ofEntry hne host path).trans h.2⟩

theorem Iterates.mem_of_answers (horder : Iterates t.appRoutes order)
    (h : Answers t.appRoutes app pattern host path) : app ∈ order := by
  rw [horder.mem]
  cases happ : t.appRoutes app with
  | some => rfl
  | none =>
    have hmem := h.1
    rw [happ] at hmem
    exact absurd hmem not_mem_nil

theorem leads_of_selectEntry (ht : t.Built) (h : selectEntry t.compiled host path = some entry) :
    ∃ pattern, Leads t.appRoutes host path entry.app pattern ∧ pattern ≠ [] ∧
      entry.covers = covers pattern := by
  obtain ⟨iteration, hiteration, hcompiled⟩ := ht.iteration
  rw [selectEntry, hcompiled, compileRoutes_entries, find?_insertionSort] at h
  obtain ⟨_, _, hfirst⟩ := h.of_flatMap
  obtain ⟨pattern, rfl, hlist⟩ := firstBest_compiledOf.mp hfirst
  have hne := routeMatches_ne_nil hlist.passes
  refine ⟨pattern, ⟨hlist, fun app' p hp => ?_⟩, hne, covers_ofEntry hne⟩
  have hentry := mem_compiledOf_of_answers hp
  exact h.best (mem_flatMap.mpr ⟨app', hiteration.mem_of_answers hp, hentry.1⟩) hentry.2

theorem selectEntry_of_leads (ht : t.Built) (h : Leads t.appRoutes host path app pattern) :
    ∃ t' : RouteTable, t'.Built ∧ t'.appRoutes = t.appRoutes ∧
      ∃ entry, selectEntry t'.compiled host path = some entry ∧ entry.app = app ∧
        entry.covers = covers pattern := by
  obtain ⟨iteration, hiteration, _⟩ := ht.iteration
  have happ := hiteration.mem_of_answers ⟨h.first.mem, h.first.passes⟩
  have hfront : Iterates t.appRoutes (app :: iteration.erase app) := by
    constructor
    · exact (perm_cons_erase happ).nodup_iff.mp hiteration.nodup
    · intro a
      rw [← hiteration.mem, (perm_cons_erase happ).mem_iff]
  obtain ⟨t', ht', hroutes, hcompiled⟩ := ht.reordered hfront
  have hlist := firstBest_compiledOf.mpr ⟨pattern, rfl, h.first⟩
  have hcovers := covers_ofEntry (e := ⟨app, pattern, (t.appSourceIp app).getD default⟩)
    (routeMatches_ne_nil h.first.passes)
  refine ⟨t', ht', hroutes, _, ?_, rfl, hcovers⟩
  rw [selectEntry, hcompiled, compileRoutes_entries, find?_insertionSort, flatMap_cons]
  apply hlist.append
  intro _ hother hmatches
  obtain ⟨app', _, hmem⟩ := mem_flatMap.mp hother
  obtain ⟨p, hp, _, hscore⟩ := mem_compiledOf hmem hmatches
  rw [hscore]
  exact h.best app' p hp

theorem select_eq (t : RouteTable) (host path : Text) :
    t.select host path = (selectEntry t.compiled host path).map (·.app) := by
  rw [select, selectWithRoute, selectRouteForRequestCompiled, Option.map_map]
  rfl

theorem select_isSome_iff (ht : t.Built) :
    (t.select host path).isSome ↔ ∃ app pattern, Answers t.appRoutes app pattern host path := by
  obtain ⟨iteration, hiteration, hcompiled⟩ := ht.iteration
  rw [select_eq, Option.isSome_map, selectEntry, hcompiled, compileRoutes_entries,
    find?_insertionSort_isSome]
  constructor
  · rintro ⟨_, hentry, hmatches⟩
    obtain ⟨app, _, hmem⟩ := mem_flatMap.mp hentry
    obtain ⟨pattern, hpattern, _⟩ := mem_compiledOf hmem hmatches
    exact ⟨app, pattern, hpattern⟩
  · rintro ⟨app, _, h⟩
    have hentry := mem_compiledOf_of_answers h
    exact ⟨_, mem_flatMap.mpr ⟨app, hiteration.mem_of_answers h, hentry.1⟩, hentry.2⟩
end RouteTable

variable {routes : Routes}
theorem Leads.answers (h : Leads routes host path app pattern) :
    Answers routes app pattern host path :=
  ⟨h.first.mem, h.first.passes⟩

theorem Decisive.app_eq (h : Decisive routes) {app' : String} {p p' : Text}
    (hp : Leads routes host path app p) (hp' : Leads routes host path app' p') : app = app' := by
  by_contra hne
  have hlt := h.apps host path app p hp app' p' (Ne.symm hne) hp'.answers
  exact absurd hlt (not_lt.mpr (hp'.best app p hp.answers))

theorem Decisive.mostSpecific (h : Decisive routes) : MostSpecific routes where
  selects := by
    rintro t ht rfl host path
    exact RouteTable.select_isSome_iff ht
  narrower := by
    rintro t ht rfl host path entry hentry app p hp hlt
    obtain ⟨pattern, hleads, hne, hcovers⟩ := RouteTable.leads_of_selectEntry ht hentry
    rw [hcovers] at hlt
    -- a narrower route scores at least as much
    have hscore := routeSpecificity_le (routeMatches_ne_nil hp.2) hne hlt.1
    by_cases happ : app = entry.app
    · rw [happ] at hp
      have hlater := hleads.first.later hp.1 hp.2 (fun heq => hlt.ne (congrArg covers heq)) hscore
      exact h.own host path entry.app pattern hleads p hlater
        (le_antisymm (hleads.best _ p hp) hscore) hp.2 hlt
    · exact absurd (h.apps host path entry.app pattern hleads app p happ hp) (not_lt.mpr hscore)
  determined := by
    rintro t t' ht ht' rfl hroutes host path
    rw [RouteTable.select_eq, RouteTable.select_eq]
    cases hentry : selectEntry t.compiled host path with
    | none =>
      have hnone : ¬(t'.select host path).isSome := by
        rw [RouteTable.select_isSome_iff ht', hroutes, ← RouteTable.select_isSome_iff ht,
          RouteTable.select_eq, hentry]
        simp
      rw [RouteTable.select_eq] at hnone
      simpa using (Option.not_isSome_iff_eq_none.mp hnone).symm
    | some entry =>
      obtain ⟨pattern, hleads, _⟩ := RouteTable.leads_of_selectEntry ht hentry
      have hsome : (t'.select host path).isSome := by
        rw [RouteTable.select_isSome_iff ht', hroutes]
        exact ⟨entry.app, pattern, hleads.answers⟩
      rw [RouteTable.select_eq, Option.isSome_map] at hsome
      obtain ⟨_, hentry'⟩ := Option.isSome_iff_exists.mp hsome
      obtain ⟨_, hleads', _⟩ := RouteTable.leads_of_selectEntry ht' hentry'
      rw [hroutes] at hleads'
      rw [hentry', Option.map_some, Option.map_some, h.app_eq hleads hleads']

theorem MostSpecific.decisive (ht : t.Built) (h : MostSpecific t.appRoutes) :
    Decisive t.appRoutes where
  apps := by
    intro host path app pattern hleads app' p hne hp
    by_contra hnot
    -- the other app's route scores as much, so that a route of that app leads as well
    have hle : routeSpecificity pattern ≤ routeSpecificity p := not_lt.mp hnot
    obtain ⟨p', hp'⟩ : ∃ p', FirstBest routeSpecificity (routeMatches · host path)
        ((t.appRoutes app').getD []) p' := by
      have hsome : ((((t.appRoutes app').getD []).insertionSort (Better routeSpecificity)).find?
          (routeMatches · host path)).isSome := find?_insertionSort_isSome.mpr ⟨p, hp.1, hp.2⟩
      obtain ⟨p', hp'⟩ := Option.isSome_iff_exists.mp hsome
      exact ⟨p', find?_insertionSort.mp hp'⟩
    have hleads' : Leads t.appRoutes host path app' p' := by
      refine ⟨hp', fun a q hq => ?_⟩
      calc routeSpecificity q ≤ routeSpecificity pattern := hleads.best a q hq
        _ ≤ routeSpecificity p := hle
        _ ≤ routeSpecificity p' := hp'.best hp.1 hp.2
    obtain ⟨s, hs, hsroutes, entry, hentry, happ, _⟩ := RouteTable.selectEntry_of_leads ht hleads
    obtain ⟨s', hs', hsroutes', _, hentry', happ', _⟩ :=
      RouteTable.selectEntry_of_leads ht hleads'
    have hsame := h.determined s s' hs hs' hsroutes hsroutes' host path
    rw [RouteTable.select_eq, RouteTable.select_eq, hentry, hentry', Option.map_some,
      Option.map_some, happ, happ'] at hsame
    exact hne (Option.some.inj hsame).symm
  own := by
    intro host path app _ hleads p hlater _ hmatches hlt
    obtain ⟨s, hs, hroutes, entry, hentry, _, hcovers⟩ := RouteTable.selectEntry_of_leads ht hleads
    have hp : p ∈ (t.appRoutes app).getD [] := hlater.subset (mem_cons_of_mem _ mem_cons_self)
    have hnot := h.narrower s hs hroutes host path entry hentry app p ⟨hp, hmatches⟩
    rw [hcovers] at hnot
    exact hnot hlt

/-- The most specific route wins, and the deployed routes alone decide, exactly where
the scores leave no tie between apps and no app lists a route before a narrower one of
the same score. -/
theorem most_specific_route_wins_iff {t : RouteTable} (ht : t.Built) :
    MostSpecific t.appRoutes ↔ Decisive t.appRoutes :=
  ⟨fun h => h.decisive ht, fun h => h.mostSpecific⟩

/-- A table of two apps with one wildcard host each, one below the other. -/
def nestedWildcards (iteration : List String) : RouteTable :=
  (({} : RouteTable).setAppRoutesWithSourceIp "wide" ["*.example.com".toList] .auto
    ["wide"]).setAppRoutesWithSourceIp "narrow" ["*.api.example.com".toList] .auto iteration

theorem iterates_set {routes : List Text} {sourceIp : SourceIpMode} {before : List String}
    (hbefore : RouteTable.Iterates t.appRoutes before) (hnodup : order.Nodup)
    (hmem : ∀ a, a ∈ order ↔ a = app ∨ a ∈ before) :
    RouteTable.Iterates (t.setAppRoutesWithSourceIp app routes sourceIp order).appRoutes order := by
  refine ⟨hnodup, fun a => ?_⟩
  change a ∈ order ↔ (if a = app then some routes else t.appRoutes a).isSome
  rw [hmem, hbefore.mem]
  by_cases ha : a = app <;> simp [ha]

theorem nestedWildcards_built {iteration : List String} (hnodup : iteration.Nodup)
    (hmem : ∀ app, app ∈ iteration ↔ app = "narrow" ∨ app ∈ ["wide"]) :
    (nestedWildcards iteration).Built := by
  have hnew : RouteTable.Iterates ({} : RouteTable).appRoutes [] := ⟨nodup_nil, by simp⟩
  have hone : RouteTable.Iterates (({} : RouteTable).setAppRoutesWithSourceIp "wide"
      ["*.example.com".toList] .auto ["wide"]).appRoutes ["wide"] :=
    iterates_set hnew (nodup_singleton "wide") (by simp)
  have htwo : RouteTable.Iterates (nestedWildcards iteration).appRoutes iteration :=
    iterates_set hone hnodup hmem
  have hwide := RouteTable.Built.update (.setAppRoutesWithSourceIp "wide" ["*.example.com".toList]
    .auto) ["wide"] .new hone
  exact .update (.setAppRoutesWithSourceIp "narrow" ["*.api.example.com".toList] .auto) iteration
    hwide htwo

theorem nested_select :
    (nestedWildcards ["wide", "narrow"]).select "v1.api.example.com".toList "/".toList =
      some "wide" ∧
    (nestedWildcards ["narrow", "wide"]).select "v1.api.example.com".toList "/".toList =
      some "narrow" := by decide +kernel

/-- The two apps tie, and so the routes do not decide. -/
theorem most_specific_route_wins_iff_nested :
    (nestedWildcards ["wide", "narrow"]).Built ∧
      ¬MostSpecific (nestedWildcards ["wide", "narrow"]).appRoutes ∧
      ¬Decisive (nestedWildcards ["wide", "narrow"]).appRoutes := by
  have hbuilt : (nestedWildcards ["wide", "narrow"]).Built :=
    nestedWildcards_built (by decide) (by simp [or_comm])
  have hnot : ¬MostSpecific (nestedWildcards ["wide", "narrow"]).appRoutes := by
    intro h
    have hsame := h.determined _ (nestedWildcards ["narrow", "wide"]) hbuilt
      (nestedWildcards_built (by decide) (by simp)) rfl rfl "v1.api.example.com".toList "/".toList
    rw [nested_select.1, nested_select.2] at hsame
    revert hsame
    decide
  exact ⟨hbuilt, hnot, fun h => hnot ((most_specific_route_wins_iff hbuilt).mpr h)⟩

theorem nested_covers : covers "*.api.example.com".toList ⊂ covers "*.example.com".toList := by
  constructor
  · rintro ⟨host, path⟩ hmatches
    have hnarrow := (routeMatches_iff (by decide) host path).mp hmatches
    have hwide : (HostForm.below "example.com".toList).Covers host :=
      HostForm.below_covers (s := "api".toList) hnarrow.1
    exact (routeMatches_iff (by decide) host path).mpr ⟨hwide, trivial⟩
  · intro hsubset
    have hwide : ("www.example.com".toList, "/".toList) ∈ covers "*.example.com".toList :=
      show routeMatches _ _ _ = true by decide
    have hnarrow : routeMatches "*.api.example.com".toList "www.example.com".toList "/".toList =
        true := hsubset hwide
    revert hnarrow
    decide

/-- Two tables with the same routes give one request to different apps, and the one
that gets it by the wider wildcard does so only by the order of the hash map. -/
theorem wider_wildcard_wins_by_hash_order :
    (nestedWildcards ["wide", "narrow"]).Built ∧ (nestedWildcards ["narrow", "wide"]).Built ∧
      (nestedWildcards ["wide", "narrow"]).appRoutes =
        (nestedWildcards ["narrow", "wide"]).appRoutes ∧
      covers "*.api.example.com".toList ⊂ covers "*.example.com".toList ∧
      (nestedWildcards ["wide", "narrow"]).select "v1.api.example.com".toList "/".toList =
        some "wide" ∧
      (nestedWildcards ["narrow", "wide"]).select "v1.api.example.com".toList "/".toList =
        some "narrow" :=
  ⟨nestedWildcards_built (by decide) (by simp [or_comm]),
    nestedWildcards_built (by decide) (by simp), rfl, nested_covers, nested_select⟩

end Tako.Routing
