import Tako.RouteTable

/-! Which certificate a handshake gets. The router compares host names without regard to case, the
map of certificates has one spelling. -/
namespace Tako.Routing
open Texts List Function
structure CertInfo where
  domain : Text

/-- The map of `CertManager`, which has a certificate under its domain. -/
structure CertManager where
  certs : Text → Option CertInfo
  keyed : ∀ {domain cert}, certs domain = some cert → cert.domain = domain

/-- `*` and the host from its first dot on. -/
def wildcard (host : Text) : Option Text :=
  match host.dropWhile (· != '.') with
  | [] => none
  | c :: rest => some ('*' :: c :: rest)

theorem lower_wildcard (host : Text) : (wildcard host).map lower = wildcard (lower host) := by
  have hdot (c : Char) : (c.toLower != '.') = (c != '.') := congrArg not (dot_toLower c)
  rw [wildcard, wildcard, ← lower_dropWhile hdot]
  cases host.dropWhile (· != '.') <;> rfl

theorem eq_of_lower_wildcard {host w : Text} (hw : wildcard host = some w)
    (h : lower w = lower host) : w = host := by
  have hsplit := takeWhile_append_dropWhile (p := (· != '.')) (l := host)
  unfold wildcard at hw
  split at hw
  · cases hw
  · next c rest hrest =>
    cases hw
    rw [hrest] at hsplit
    rw [← hsplit, lower_append] at h
    have hstar : ['*'] = lower _ := (append_left_inj (lower (c :: rest))).mp h
    obtain ⟨c', hlabel, hc'⟩ := map_eq_singleton_iff.mp hstar.symm
    rw [← hsplit, hlabel, eq_of_toLower_eq hc' rfl]
    rfl

namespace CertManager
variable (m : CertManager) (host : Text)
def addCert (cert : CertInfo) : CertManager where
  certs := update m.certs cert.domain (some cert)
  keyed {domain _} h := by
    obtain rfl | hne := eq_or_ne domain cert.domain
    · rw [update_self] at h
      rw [Option.some.inj h]
    · exact m.keyed (update_of_ne hne (some cert) m.certs ▸ h)

def getCertForHost : Option CertInfo := (m.certs host).or ((wildcard host).bind m.certs)

def Stores : Prop := ∃ domain, (m.certs domain).isSome ∧ lower domain = lower host

structure Selects : Prop where
  covers : ∀ cert ∈ m.getCertForHost host,
    lower cert.domain = lower host ∨ ∃ w ∈ wildcard host, lower cert.domain = lower w
  exact : m.Stores host → ∃ cert ∈ m.getCertForHost host, lower cert.domain = lower host
  wild : ∀ w ∈ wildcard host, m.Stores w → (m.getCertForHost host).isSome

/-- The name is spelled as the map has it. -/
structure Spelled : Prop where
  exact : m.Stores host → (m.certs host).isSome
  wild : ∀ w ∈ wildcard host, m.Stores w → (m.certs host).isSome ∨ (m.certs w).isSome

variable {m host}
theorem isSome_getCertForHost {w : Text} (hw : wildcard host = some w) :
    (m.getCertForHost host).isSome ↔ (m.certs host).isSome ∨ (m.certs w).isSome := by
  simp [getCertForHost, hw]

theorem selects_iff : m.Selects host ↔ m.Spelled host := by
  have hget {cert : CertInfo} (h : m.getCertForHost host = some cert) :
      m.certs host = some cert ∨ ∃ w ∈ wildcard host, m.certs w = some cert :=
    (Option.or_eq_some_iff.mp h).imp_right fun h => Option.bind_eq_some_iff.mp h.2
  constructor
  · intro h
    refine ⟨fun hstored => ?_, fun w hw hstored => ?_⟩
    · obtain ⟨cert, hcert, hdomain⟩ := h.exact hstored
      obtain hcert | ⟨w, hw, hcert⟩ := hget hcert
      · exact Option.isSome_of_eq_some hcert
      · rw [m.keyed hcert] at hdomain
        rw [← eq_of_lower_wildcard hw hdomain]
        exact Option.isSome_of_eq_some hcert
    · exact (isSome_getCertForHost hw).mp (h.wild w hw hstored)
  · intro h
    refine ⟨fun cert hcert => ?_, fun hstored => ?_, fun w hw hstored => ?_⟩
    · obtain hcert | ⟨w, hw, hcert⟩ := hget hcert
      · exact .inl (by rw [m.keyed hcert])
      · exact .inr ⟨w, hw, by rw [m.keyed hcert]⟩
    · obtain ⟨cert, hcert⟩ := Option.isSome_iff_exists.mp (h.exact hstored)
      exact ⟨cert, by simp [getCertForHost, hcert], by rw [m.keyed hcert]⟩
    · exact (isSome_getCertForHost hw).mpr (h.wild w hw hstored)

def Distinct (m : CertManager) : Prop :=
  ∀ d d', (m.certs d).isSome → (m.certs d').isSome → lower d = lower d' → d = d'

theorem certs_eq (hm : m.Distinct) {d d' : Text} (h : m.Stores d → (m.certs d).isSome)
    (h' : m.Stores d' → (m.certs d').isSome) (heq : lower d' = lower d) :
    m.certs d' = m.certs d := by
  by_cases hstored : m.Stores d
  · have hd' := h' (by rwa [Stores, heq])
    rw [hm d' d hd' (h hstored) heq]
  · have hnone {x : Text} (hx : lower x = lower d) : m.certs x = none :=
      Option.not_isSome_iff_eq_none.mp fun hsome => hstored ⟨x, hsome, hx⟩
    rw [hnone rfl, hnone heq]

theorem Spelled.getCertForHost_eq (hm : m.Distinct) {host' : Text} (h : m.Spelled host)
    (h' : m.Spelled host') (heq : lower host' = lower host) :
    m.getCertForHost host' = m.getCertForHost host := by
  have hcerts := certs_eq hm h.exact h'.exact heq
  cases hcert : m.certs host with
  | some cert => simp [getCertForHost, hcerts, hcert]
  | none =>
    have hwild : (wildcard host').map lower = (wildcard host).map lower := by
      rw [lower_wildcard, lower_wildcard, heq]
    rw [getCertForHost, getCertForHost, hcerts, hcert, Option.none_or, Option.none_or]
    cases hw : wildcard host with
    | none =>
      rw [hw] at hwild
      rw [Option.map_eq_none_iff.mp hwild]
    | some w =>
      rw [hw] at hwild
      obtain ⟨w', hw', hlower⟩ := Option.map_eq_some_iff.mp hwild
      rw [hw', Option.bind_some, Option.bind_some]
      refine certs_eq hm (fun hs => ?_) (fun hs => ?_) hlower
      · simpa [hcert] using h.wild w hw hs
      · simpa [hcerts, hcert] using h'.wild w' hw' hs

/-- The selection, two spellings of a name, and a name that the router sends to a route
without a wildcard. -/
theorem certificates_agree_with_routes (m : CertManager) (host : Text) :
    (m.Selects host ↔ m.Spelled host) ∧
      (m.Distinct → m.Spelled host → ∀ host', m.Spelled host' → lower host' = lower host →
        m.getCertForHost host' = m.getCertForHost host) ∧
      (m.Spelled host → ∀ (t : RouteTable) path entry,
        selectEntry t.compiled host path = some entry → "*.".toList.isPrefixOf? entry.host = none →
        m.Stores entry.host → (m.getCertForHost host).isSome) := by
  refine ⟨selects_iff, fun hm h host' h' heq => h.getCertForHost_eq hm h' heq, ?_⟩
  intro h t path entry hentry hplain hstored
  have hfind : t.compiled.find? (·.matchesRequest host path) = some entry := hentry
  have hmatches := find?_some hfind
  have hhost := (Bool.and_eq_true_iff.mp hmatches).1
  rw [hostnameMatches, hplain] at hhost
  have hstored : m.Stores host := by rwa [Stores, ← eq_of_beq hhost]
  obtain ⟨cert, hcert⟩ := Option.isSome_iff_exists.mp (h.exact hstored)
  simp [getCertForHost, hcert]

theorem other_spelling_not_selected :
    ¬(addCert ⟨fun _ => none, nofun⟩ ⟨"example.com".toList⟩).Selects "Example.com".toList := by
  intro h
  obtain ⟨cert, hcert, _⟩ := h.exact ⟨"example.com".toList, rfl, by decide +kernel⟩
  cases hcert
end CertManager
end Tako.Routing
