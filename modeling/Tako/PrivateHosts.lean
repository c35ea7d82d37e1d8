import Tako.RouteTable
import Tako.ServiceDirectory

/-! How the proxy chooses where a request goes: the names of the private domain are
decided before the table of public routes is asked. -/
namespace Tako.Services
open Network Texts Routing List
/-- What `HeaderValue::to_str` lets through: visible ASCII, the blank and the tab. -/
def isVisible (c : Char) : Bool := c = '\t' || (32 ≤ c.toNat && c.toNat < 127)

/-- The authority of a URI, which has visible characters only. -/
structure Authority where
  text : Text
  visible : ∀ c ∈ text, isVisible c = true

def toStr (value : List UInt8) : Option Text :=
  let text := value.map fun b => Char.ofNat b.toNat
  if text.all isVisible then some text else none

/-- A request, as far as its routing needs it. The addresses are of its socket. -/
structure Request where
  authority : Option Authority
  hostHeader : Option (List UInt8)
  path : Text
  destination : Option IpAddr
  peer : Option IpAddr

def requestHost (req : Request) : Text :=
  ((req.authority.map (·.text)).or (req.hostHeader.bind toStr)).getD []

def proxyRoute (d : ServiceDirectory) (host : Text) (destination peer : Option IpAddr)
    (now instant : ℕ) : PrivateRoute :=
  if reservedHost host = false then .publicRoute
  else
    match destination, peer with
    | some destination, some peer => d.route host destination peer now instant
    | _, _ => .forbidden

variable (services : Option ServiceDirectory)
def nativeRoute (req : Request) (now instant : ℕ) : PrivateRoute :=
  match services with
  | some d => proxyRoute d (requestHost req) req.destination req.peer now instant
  | none => if reservedHost (requestHost req) then .forbidden else .publicRoute

/-- What `request_filter` settles before it looks for a backend. -/
inductive Filtered where
  | rejected (status : ℕ)
  | relayed (app : AppEnv) (address : BitVec 128)
  | privateApp (route : SelectedRoute)
  | publicRoute (route : Option SelectedRoute)

/-- The rate limit of relayed requests apart. -/
def requestFilter (table : RouteTable) (req : Request) (now instant : ℕ) : Filtered :=
  match nativeRoute services req now instant with
  | .forbidden => .rejected 403
  | .unavailable => .rejected 503
  | .remote app address => .relayed app address
  | .localApp app => .privateApp ⟨app.text, none, .direct⟩
  | .publicRoute => .publicRoute (table.selectWithRoute (hostOf (requestHost req)) req.path)

def ReachesPrivately (req : Request) (now instant : ℕ) (app : AppEnv) : Prop :=
  nativeRoute services req now instant = .localApp app ∨
    ∃ address, nativeRoute services req now instant = .remote app address

variable {network : NetworkId} {c : Char} {app : AppEnv}
section
variable {services : Option ServiceDirectory} {table : RouteTable} {req : Request} {now instant : ℕ}

theorem visible_requestHost (req : Request) : ∀ c ∈ requestHost req, isVisible c = true := by
  intro c hc
  unfold requestHost at hc
  cases ha : req.authority with
  | some authority =>
    rw [ha] at hc
    exact authority.visible c hc
  | none =>
    rw [ha, Option.map_none, Option.none_or] at hc
    cases hh : req.hostHeader.bind toStr with
    | none =>
      rw [hh] at hc
      exact absurd hc not_mem_nil
    | some text =>
      rw [hh] at hc
      obtain ⟨value, _, hvalue⟩ := Option.bind_eq_some_iff.mp hh
      simp only [toStr] at hvalue
      split at hvalue
      · rename_i hall
        cases hvalue
        exact all_eq_true.mp hall c hc
      · cases hvalue

theorem isWhitespace_eq_false (hvisible : isVisible c = true)
    (hspace : isAsciiWhitespace c = false) : isWhitespace c = false := by
  simp only [isAsciiWhitespace, Bool.or_eq_false_iff, decide_eq_false_iff_not] at hspace
  obtain ⟨⟨⟨⟨hblank, htab⟩, _⟩, _⟩, _⟩ := hspace
  simp only [isVisible, Bool.or_eq_true, Bool.and_eq_true, decide_eq_true_eq] at hvisible
  obtain rfl | ⟨_, _⟩ := hvisible
  · exact absurd rfl htab
  · have hne : c.toNat ≠ 32 := by
      intro h
      exact hblank (Char.toNat_inj.mp h)
    simp only [isWhitespace, Bool.or_eq_false_iff, Bool.and_eq_false_iff, decide_eq_false_iff_not]
    omega

theorem mem_hostOf {authority : Text} (h : c ∈ hostOf authority) : c ∈ authority := by
  unfold hostOf at h
  split at h
  · rename_i host rest hsplit
    rw [(splitOnce_eq_some_iff.mp hsplit).1]
    exact mem_append_left _ h
  · exact h

theorem canonicalHost_of_app {scope : AppEnv}
    (h : classifyHost (requestHost req) network = .app scope) :
    canonicalHost (requestHost req) = lower ((hostOf (requestHost req)).rdropWhile (· == '.')) := by
  obtain ⟨_, _, _, _, _, _, hspace⟩ := classifyHost_eq_app h
  have hhost : ∀ c ∈ hostOf (requestHost req), isWhitespace c = false := by
    intro c hc
    have hmem := mem_hostOf hc
    have hascii : isAsciiWhitespace c = false := by
      have hall := any_eq_false.mp hspace c hmem
      simpa using hall
    exact isWhitespace_eq_false (visible_requestHost req c hmem) hascii
  rw [canonicalHost, trim_eq_self hhost]

theorem route_eq_localApp {d : ServiceDirectory} {authority : Text} {destination peer : IpAddr}
    (h : d.route authority destination peer now instant = .localApp app ∨
      ∃ address, d.route authority destination peer now instant = .remote app address) :
    classifyHost authority d.network = .app app := by
  simp only [ServiceDirectory.route] at h
  cases hclass : classifyHost authority d.network with
  | publicHost | reserved => simp [hclass] at h
  | app =>
    simp only [hclass] at h
    split at h
    · simp at h
    split at h
    · simp at h
      rw [h]
    split at h
    · split at h
      · simp at h
        rw [h]
      · simp at h
    · simp at h

theorem classifyHost_of_reaches (h : ReachesPrivately services req now instant app) :
    ∃ d ∈ services, classifyHost (requestHost req) d.network = .app app := by
  unfold ReachesPrivately nativeRoute at h
  cases services with
  | none =>
    simp only at h
    split at h
    all_goals simp at h
  | some d =>
    refine ⟨d, rfl, ?_⟩
    simp only [proxyRoute] at h
    split at h
    · simp at h
    split at h
    · exact route_eq_localApp h
    · simp at h

theorem nativeRoute_ne_public (h : PrivateName (hostOf (requestHost req))) :
    nativeRoute services req now instant ≠ .publicRoute := by
  have hinternal := isInternal_of_privateName h
  have hreserved : reservedHost (requestHost req) = true := by
    rw [reservedHost_eq]
    exact hinternal
  intro hroute
  unfold nativeRoute at hroute
  cases services with
  | none =>
    simp only [hreserved, if_true] at hroute
    cases hroute
  | some d =>
    simp only [proxyRoute, hreserved, Bool.true_eq_false, if_false] at hroute
    split at hroute
    · simp only [ServiceDirectory.route] at hroute
      split at hroute
      · rename_i hpublic
        rw [classifyHost_eq_publicHost_iff, hinternal] at hpublic
        cases hpublic
      · cases hroute
      split at hroute
      · cases hroute
      split at hroute
      · cases hroute
      split at hroute
      · split at hroute <;> cases hroute
      · cases hroute
    · cases hroute
end

section
theorem hostOf_of_not_mem {host : Text} (h : ':' ∉ host) : hostOf host = host := by
  rw [hostOf, splitOnce_eq_none h]

theorem hostOf_append_port {host : Text} (h : ':' ∉ host) (port : Text) :
    hostOf (host ++ ':' :: port) = host := by
  rw [hostOf, splitOnce_eq_some_iff.mpr ⟨rfl, h⟩]

theorem isPort_toDigits {n : ℕ} (h : n ≤ 65535) : isPort (Nat.toDigits 10 n) = true := by
  simp only [isPort, Bool.and_eq_true, Bool.not_eq_true', isEmpty_eq_false_iff,
    all_eq_true, decide_eq_true_eq]
  refine ⟨⟨Nat.toDigits_ne_nil, fun c hc => ?_⟩, ?_⟩
  · exact Nat.isDigit_of_mem_toDigits (by decide) (by decide) hc
  · rw [Nat.ofDigitChars_toDigits (by decide) (by decide)]
    exact h

theorem plain_of_mem_toDigits {n : ℕ} (h : c ∈ Nat.toDigits 10 n) : Plain c := by
  have hdigit := Nat.isDigit_of_mem_toDigits (by decide) (by decide) h
  apply plain_of_isHostChar
  simp [isHostChar, isSegmentChar, hdigit]

theorem isAsciiWhitespace_of_plain (h : Plain c) : isAsciiWhitespace c = false := by
  have hne (d : Char) (hd : d.toNat < 45) : c ≠ d := h.ne (.inl hd)
  simp only [Network.isAsciiWhitespace, Bool.or_eq_false_iff, decide_eq_false_iff_not]
  exact ⟨⟨⟨⟨hne ' ' (by decide), hne '\t' (by decide)⟩, hne '\n' (by decide)⟩,
    hne '\x0c' (by decide)⟩, hne '\r' (by decide)⟩

theorem valid_segments (h : app.Valid) :
    ∃ name env, segment name = true ∧ segment env = true ∧
      splitOnce '/' app.text.toList = some (name, env) := by
  obtain ⟨⟨name, env⟩, hparts, _⟩ := Option.map_eq_some_iff.mp h
  obtain ⟨hsplit, hsegments⟩ := Option.filter_eq_some_iff.mp hparts
  simp only [Bool.and_eq_true] at hsegments
  exact ⟨name, env, hsegments.1, hsegments.2, hsplit⟩

theorem classifyHost_serviceHostname (h : app.Valid) :
    ∃ host, serviceHostname app network = some host ∧ classifyHost host network = .app app ∧
      ∀ port ≤ 65535, classifyHost (host ++ ':' :: Nat.toDigits 10 port) network = .app app := by
  obtain ⟨name, env, hname, henv, hsplit⟩ := valid_segments h
  obtain ⟨htext, _⟩ := splitOnce_eq_some_iff.mp hsplit
  have happ : (⟨String.ofList (name ++ '/' :: env)⟩ : AppEnv) = app := by
    rw [← htext, String.ofList_toList]
  have hplain (c : Char) (hc : c ∈ privateHost name env network) := plain_privateHost hname henv hc
  have hcolon : ':' ∉ privateHost name env network :=
    fun hc => (hplain _ hc).ne (.inr (.inr rfl)) rfl
  have hlength : byteLength (privateHost name env network) ≤ 174 :=
    byteLength_privateHost hname henv
  refine ⟨privateHost name env network, by rw [serviceHostname, hsplit]; rfl, ?_, ?_⟩
  · rw [← happ]
    apply classifyHost_privateHost hname henv (hostOf_of_not_mem hcolon) (by omega)
    · exact any_eq_false.mpr fun c hc => by simp [isAsciiWhitespace_of_plain (hplain c hc)]
    · rw [splitOnce_eq_none hcolon]
      rfl
  · intro port hport
    have hdigits := byteLength_eq_length fun c hc => plain_of_mem_toDigits (n := port) hc
    have hfive : (Nat.toDigits 10 port).length ≤ 5 :=
      (Nat.length_toDigits_le_iff (by decide) (by decide)).mpr (by omega)
    rw [← happ]
    apply classifyHost_privateHost hname henv (hostOf_append_port hcolon _)
    · simp only [byteLength, map_append, map_cons, sum_append, sum_cons]
        at hlength hdigits ⊢
      have hone : ':'.utf8Size = 1 := rfl
      omega
    · refine any_eq_false.mpr fun c hc => ?_
      rw [Bool.not_eq_true]
      obtain hc | hc := mem_append.mp hc
      · exact isAsciiWhitespace_of_plain (hplain c hc)
      · obtain rfl | hc := mem_cons.mp hc
        · decide
        · exact isAsciiWhitespace_of_plain (plain_of_mem_toDigits hc)
    · rw [splitOnce_eq_some_iff.mpr ⟨rfl, hcolon⟩]
      simp [isPort_toDigits hport]
end

/-- A name of the private domain is never taken for a public one, and no public route is
selected for it whatever the table holds. The name of an app, with a port or none, is
read as that app. A request reaches an app privately only by an authority that is read
as that app, and the hosts of two such differ at most in case and in the dots behind. -/
theorem private_names_stay_private (network : NetworkId) :
    (∀ authority, PrivateName (hostOf authority) →
      classifyHost authority network ≠ .publicHost) ∧
    (∀ services table req now instant, PrivateName (hostOf (requestHost req)) →
      ∀ route, requestFilter services table req now instant ≠ .publicRoute route) ∧
    (∀ app : AppEnv, app.Valid → ∃ host, serviceHostname app network = some host ∧
      classifyHost host network = .app app ∧
      ∀ port ≤ 65535, classifyHost (host ++ ':' :: Nat.toDigits 10 port) network = .app app) ∧
    (∀ services req now instant app, ReachesPrivately services req now instant app →
      ∃ d ∈ services, classifyHost (requestHost req) d.network = .app app) ∧
    ∀ a b app, classifyHost (requestHost a) network = .app app →
      classifyHost (requestHost b) network = .app app →
      lower ((hostOf (requestHost a)).rdropWhile (· == '.')) =
        lower ((hostOf (requestHost b)).rdropWhile (· == '.')) := by
  refine ⟨?_, ?_, ?_, ?_, ?_⟩
  · intro authority hname hpublic
    rw [classifyHost_eq_publicHost_iff, isInternal_of_privateName hname] at hpublic
    cases hpublic
  · intro services table req now instant hname route hfilter
    unfold requestFilter at hfilter
    split at hfilter
    · cases hfilter
    · cases hfilter
    · cases hfilter
    · cases hfilter
    · rename_i hpublic
      exact nativeRoute_ne_public hname hpublic
  · exact fun app happ => classifyHost_serviceHostname happ
  · exact fun services req now instant app h => classifyHost_of_reaches h
  · intro _ _ _ ha hb
    rw [← canonicalHost_of_app ha, ← canonicalHost_of_app hb]
    exact canonicalHost_eq_of_app ha hb

end Tako.Services
