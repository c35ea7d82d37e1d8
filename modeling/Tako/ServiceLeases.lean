import Mathlib.Tactic.Ring
import Tako.NetworkValidity
import Tako.ServiceDirectory

/-! Runs of a directory: every placement that it offers is of a live lease that the
last replacement accepted, and presenting a lease again does not prolong it. -/
namespace Tako.Services
open Network Network.RegistrySnapshot Fallible AgreeingMap Texts List
section
variable (C : Crypto) (transcript : Transcript)
structure SignedLease where
  lease : ServiceLease
  signed : lease.Signed transcript

inductive DirectoryCall where
  | replaceSnapshot (observedAt : ℕ) (registry : RegistrySnapshot)
      (leases : List (SignedLease transcript)) (now instant : ℕ)
  | replace (registry : RegistrySnapshot) (leases : List (SignedLease transcript))
      (now instant : ℕ)
  | clear

structure Replacement where
  registry : RegistrySnapshot
  now : ℕ
  instant : ℕ
  accepted : List ServiceLease

structure Past where
  directory : ServiceDirectory
  history : List Replacement := []

def Rebuilt.accepted (rebuilt : Rebuilt) : List ServiceLease :=
  rebuilt.next.entries.map fun entry => entry.2.1

def ServiceDirectory.replacement (d : ServiceDirectory) (registry : RegistrySnapshot)
    (leases : List ServiceLease) (now instant : ℕ) : List Replacement :=
  match (d.advanced now).rebuild C transcript registry leases now instant with
  | .ok rebuilt => [⟨registry, now, instant, rebuilt.accepted⟩]
  | .error _ => []

namespace DirectoryCall
def perform (call : DirectoryCall transcript) (d : ServiceDirectory) :
    Except DirectoryError Unit × ServiceDirectory :=
  match call with
  | .replaceSnapshot observedAt registry leases now instant =>
    d.replaceSnapshot C transcript ⟨observedAt, registry, leases.map (·.lease)⟩ now instant
  | .replace registry leases now instant =>
    d.replace C transcript registry (leases.map (·.lease)) now instant
  | .clear => (.ok (), d.clear)

def replacement (call : DirectoryCall transcript) (d : ServiceDirectory) : List Replacement :=
  match call with
  | .replaceSnapshot _ registry leases now instant =>
    d.replacement C transcript registry (leases.map (·.lease)) now instant
  | .replace registry leases now instant =>
    d.replacement C transcript registry (leases.map (·.lease)) now instant
  | .clear => []
end DirectoryCall

def Past.exec (past : Past) (call : DirectoryCall transcript) : Past where
  directory := (call.perform C transcript past.directory).2
  history :=
    match (call.perform C transcript past.directory).1 with
    | .ok _ => past.history ++ call.replacement C transcript past.directory
    | .error _ => past.history

def Past.after (past : Past) (calls : List (DirectoryCall transcript)) : Past :=
  calls.foldl (Past.exec C transcript) past
end

/-- It lasts as long as signing makes it. -/
abbrev ServiceLease.FullTerm (lease : ServiceLease) : Prop :=
  lease.expiresAt = lease.issuedAt + maxLeaseSeconds

variable {C : Crypto} {transcript : Transcript} {lease : ServiceLease}
theorem fullTerm_of_signed (h : lease.Signed transcript) : lease.FullTerm := by
  obtain ⟨_, _, _, _, hsign⟩ := h
  obtain ⟨_, _, hsign⟩ := bind_eq_ok hsign
  obtain ⟨_, hsign⟩ := check_eq_ok hsign
  obtain ⟨_, _, hsign⟩ := bind_eq_ok hsign
  obtain ⟨_, _, hsign⟩ := bind_eq_ok hsign
  obtain ⟨_, _, hsign⟩ := bind_eq_ok hsign
  cases hsign
  rfl

def Publisher (C : Crypto) (registry : RegistrySnapshot) (now : ℕ) (id : DeviceId) : Prop :=
  ∃ m, Effective C registry now id m ∧ m.kind.isServer = true ∧ m.permissions.serverAdmin = true

theorem verifyMember_eq_ok {network : NetworkId} {m : Member} {now : ℕ} {address : List UInt8}
    (h : lease.verifyMember C transcript network m now = .ok address) :
    m.kind.isServer = true ∧ m.permissions.serverAdmin = true ∧ now < lease.expiresAt ∧
      address = network.address C m.request.wgPublicKey := by
  obtain ⟨_, _, h⟩ := bind_eq_ok h
  obtain ⟨hchecks, h⟩ := check_eq_ok h
  simp only [not_or, Bool.not_eq_false, not_le] at hchecks
  obtain ⟨_, _, _, hserver, hadmin, _, hlive⟩ := hchecks
  obtain ⟨_, _, h⟩ := bind_eq_ok h
  obtain ⟨_, _, h⟩ := bind_eq_ok h
  obtain ⟨_, h⟩ := check_eq_ok h
  obtain ⟨_, _, h⟩ := bind_eq_ok h
  obtain ⟨_, _, h⟩ := bind_eq_ok h
  exact ⟨hserver, hadmin, hlive, (Except.ok.inj h).symm⟩

theorem foldl_bytes_bounds (bytes : List UInt8) (n : ℕ) :
    n * 256 ^ bytes.length ≤ bytes.foldl (fun n b => n * 256 + b.toNat) n ∧
      bytes.foldl (fun n b => n * 256 + b.toNat) n < (n + 1) * 256 ^ bytes.length := by
  induction bytes generalizing n with
  | nil => simp
  | cons b bytes ih =>
    obtain ⟨hlow, hhigh⟩ := ih (n * 256 + b.toNat)
    have hbyte := b.toNat_lt
    rw [foldl_cons, length_cons, pow_succ']
    constructor
    · calc
        n * (256 * 256 ^ bytes.length) = n * 256 * 256 ^ bytes.length := by ring
        _ ≤ (n * 256 + b.toNat) * 256 ^ bytes.length := Nat.mul_le_mul_right _ (by omega)
        _ ≤ _ := hlow
    · calc
        _ < (n * 256 + b.toNat + 1) * 256 ^ bytes.length := hhigh
        _ ≤ (n + 1) * 256 * 256 ^ bytes.length := Nat.mul_le_mul_right _ (by omega)
        _ = (n + 1) * (256 * 256 ^ bytes.length) := by ring

theorem toCanonical_address (network : NetworkId) (key : WgPublicKey) :
    (IpAddr.v6 (ipv6 (network.address C key))).toCanonical =
      .v6 (ipv6 (network.address C key)) := by
  have hne : ipv6 (network.address C key) >>> 32 ≠ 0xffff := by
    intro heq
    have hnat := congrArg BitVec.toNat heq
    obtain ⟨rest, hrest, hlength⟩ : ∃ rest, network.address C key = 0xfd :: rest ∧
        rest.length = 15 := by
      refine ⟨_, rfl, ?_⟩
      simp
    obtain ⟨hlow, hhigh⟩ := foldl_bytes_bounds rest 253
    rw [hlength] at hlow hhigh
    rw [hrest] at hnat
    simp only [ipv6, foldl_cons, BitVec.toNat_ushiftRight, BitVec.toNat_ofNat] at hnat
    change (rest.foldl (fun n b => n * 256 + b.toNat) 253 % 2 ^ 128) >>> 32 = 0xffff at hnat
    rw [Nat.shiftRight_eq_div_pow] at hnat
    omega
  rw [IpAddr.toCanonical, if_neg hne]

/-- What a lease passes to be accepted, and the end that it is given: an older one of
its publisher is not in the way, and the same one keeps its end. -/
structure Accepted (C : Crypto) (d : ServiceDirectory) (registry : RegistrySnapshot)
    (now instant : ℕ) (k : DeviceId) (lease : ServiceLease) (t : ℕ) : Prop where
  key : lease.serverId = k
  publisher : Publisher C registry now lease.serverId
  live : now < lease.expiresAt
  lifetime : lease.FullTerm
  ends : t ≤ instant + fromSecs (lease.expiresAt - now)
  newer : ∀ previous t', d.latest.lookup lease.serverId = some (previous, t') →
    previous.issuedAt < lease.issuedAt ∨ (previous = lease ∧ t ≤ t')

structure Stands (held : Held) (app : AppEnv) (p : Placement) (lease : ServiceLease) (t : ℕ) :
    Prop where
  held : held.lookup p.serverId = some (lease, t)
  app : app ∈ lease.apps
  expires : p.expiresAt ≤ lease.expiresAt
  deadline : p.deadline ≤ t
  canonical : (IpAddr.v6 p.address).toCanonical = .v6 p.address

variable {app : AppEnv}
theorem mem_foldl_push {apps : List AppEnv} {placements : AppEnv → List Placement} {p q : Placement}
    (h : q ∈ apps.foldl (fun placements app => Collected.push placements p app) placements app) :
    q ∈ placements app ∨ (q = p ∧ app ∈ apps) := by
  induction apps generalizing placements with
  | nil => exact .inl h
  | cons a apps ih =>
    obtain hq | ⟨rfl, happ⟩ := ih h
    · simp only [Collected.push] at hq
      split at hq
      · rename_i ha
        obtain hq | hq := mem_append.mp hq
        · exact .inl hq
        · exact .inr ⟨mem_singleton.mp hq, ha ▸ mem_cons_self⟩
      · exact .inl hq
    · exact .inr ⟨rfl, mem_cons_of_mem a happ⟩

structure Collects (C : Crypto) (d : ServiceDirectory) (registry : RegistrySnapshot)
    (now instant : ℕ) (acc : Collected) : Prop where
  next : ∀ k lease t, acc.next.lookup k = some (lease, t) →
    Accepted C d registry now instant k lease t
  placements : ∀ app, ∀ p ∈ acc.placements app, ∃ lease t, Stands acc.next app p lease t

variable {d : ServiceDirectory} {address : BitVec 128} {now instant validUntil t : ℕ}
  {registry : RegistrySnapshot} {leases : List ServiceLease} {rebuilt : Rebuilt}
  {history : List Replacement} {acc acc' : Collected}
theorem Collects.accept (h : Collects C d registry now instant acc)
    (hlease : Accepted C d registry now instant lease.serverId lease t)
    (haddress : (IpAddr.v6 address).toCanonical = .v6 address)
    (hok : acc.accept lease t validUntil address = .ok acc') :
    Collects C d registry now instant acc' := by
  obtain ⟨hfree, hok⟩ := check_eq_ok hok
  cases hok
  constructor
  · intro k l t' hlookup
    by_cases hk : k = lease.serverId
    · subst hk
      rw [AList.lookup_insert] at hlookup
      obtain ⟨rfl, rfl⟩ := Prod.mk.inj (Option.some.inj hlookup)
      exact hlease
    · rw [AList.lookup_insert_ne hk] at hlookup
      exact h.next k l t' hlookup
  · intro app p hp
    obtain hp | ⟨rfl, happ⟩ := mem_foldl_push hp
    · obtain ⟨l, t', hstands⟩ := h.placements app p hp
      have hne : p.serverId ≠ lease.serverId := by
        intro heq
        have hheld := hstands.held
        rw [heq] at hheld
        exact hfree (by rw [hheld]; rfl)
      refine ⟨l, t', ?_, hstands.app, hstands.expires, hstands.deadline, hstands.canonical⟩
      rw [AList.lookup_insert_ne hne]
      exact hstands.held
    · exact ⟨lease, t, AList.lookup_insert _, happ, min_le_left _ _, le_rfl, haddress⟩

theorem Collects.considerLease {effective : AList (fun _ : DeviceId => Member)}
    (h : Collects C d registry now instant acc)
    (heffective : ∀ id m, effective.lookup id = some m ↔ Effective C registry now id m)
    (hlifetime : lease.FullTerm)
    (hok : d.considerLease C transcript effective now instant validUntil acc lease = .ok acc') :
    Collects C d registry now instant acc' := by
  simp only [ServiceDirectory.considerLease] at hok
  cases hm : effective.lookup lease.serverId with
  | none =>
    rw [hm] at hok
    cases hok
    exact h
  | some m =>
    rw [hm] at hok
    cases hverify : lease.verifyMember C transcript d.network m now with
    | error =>
      simp only [hverify] at hok
      cases hok
      exact h
    | ok =>
      simp only [hverify] at hok
      obtain ⟨hserver, hadmin, hlive, rfl⟩ := verifyMember_eq_ok hverify
      have haddress := toCanonical_address (C := C) d.network m.request.wgPublicKey
      have hpublisher : Publisher C registry now lease.serverId :=
        ⟨m, (heffective _ m).mp hm, hserver, hadmin⟩
      have haccepted (t : ℕ) (hends : t ≤ instant + fromSecs (lease.expiresAt - now))
          (hnewer : ∀ previous t', d.latest.lookup lease.serverId = some (previous, t') →
            previous.issuedAt < lease.issuedAt ∨ (previous = lease ∧ t ≤ t')) :
          Accepted C d registry now instant lease.serverId lease t :=
        ⟨rfl, hpublisher, hlive, hlifetime, hends, hnewer⟩
      cases hprevious : d.latest.lookup lease.serverId with
      | none =>
        simp only [hprevious] at hok
        refine h.accept (haccepted _ le_rfl fun previous t' hp => ?_) haddress hok
        rw [hprevious] at hp
        cases hp
      | some held =>
        obtain ⟨previous, _⟩ := held
        simp only [hprevious] at hok
        by_cases hold : lease.issuedAt < previous.issuedAt
        · rw [if_pos hold] at hok
          cases hok
          exact h
        rw [if_neg hold] at hok
        by_cases hsame : lease.issuedAt = previous.issuedAt
        · rw [if_pos hsame] at hok
          obtain ⟨heq, hok⟩ := check_eq_ok hok
          refine h.accept (haccepted _ (min_le_left _ _) fun previous' t' hp => ?_) haddress hok
          rw [hprevious] at hp
          obtain ⟨rfl, rfl⟩ := Prod.mk.inj (Option.some.inj hp)
          exact .inr ⟨(not_not.mp heq).symm, min_le_right _ _⟩
        · rw [if_neg hsame] at hok
          refine h.accept (haccepted _ le_rfl fun previous' t' hp => ?_) haddress hok
          rw [hprevious] at hp
          obtain ⟨rfl, rfl⟩ := Prod.mk.inj (Option.some.inj hp)
          exact .inl (by omega)

theorem rebuild_eq_ok (h : d.rebuild C transcript registry leases now instant = .ok rebuilt)
    (hleases : ∀ lease ∈ leases, lease.FullTerm) :
    Collects C d registry now instant ⟨rebuilt.view.placements, rebuilt.next⟩ := by
  obtain ⟨_, h⟩ := check_eq_ok h
  obtain ⟨effective, hmapped, h⟩ := bind_eq_ok h
  have heffective : registry.effectiveMembers C now = .ok effective := by
    cases he : registry.effectiveMembers C now with
    | error =>
      rw [he] at hmapped
      cases hmapped
    | ok =>
      rw [he] at hmapped
      rw [Except.ok.inj hmapped]
  have hlookup := (effectiveMembers_eq_ok heffective).2
  split at h
  · cases h
  obtain ⟨acc, hloop, h⟩ := bind_eq_ok h
  obtain ⟨_, h⟩ := check_eq_ok h
  cases h
  have hcollects : Collects C d registry now instant acc := by
    refine foldlM_invariant hloop (I := fun _ acc => Collects C d registry now instant acc) ?_ ?_
    · exact ⟨(fun _ _ _ hk => nomatch hk), nofun⟩
    · intro _ lease _ _ hlease hdone hok
      exact hdone.considerLease hlookup (hleases lease hlease) hok
  refine ⟨hcollects.next, fun app p hp => ?_⟩
  exact hcollects.placements app p (mem_insertionSort _ |>.mp hp)

structure Last (history : List Replacement) (k : DeviceId) (lease : ServiceLease) (t : ℕ) :
    Prop where
  key : lease.serverId = k
  lasts : lease.FullTerm
  ends : ∀ r ∈ history, lease ∈ r.accepted → t ≤ r.instant + fromSecs (lease.expiresAt - r.now)
  newest : ∀ r ∈ history, ∀ l ∈ r.accepted, l.serverId = k → l.issuedAt ≤ lease.issuedAt

/-- The memory of a directory holds, for each publisher, the last lease that it
accepted, with an end that no later presentation has moved, unless it is over. -/
structure Remembers (d : ServiceDirectory) (history : List Replacement) : Prop where
  last : ∀ k lease t, d.latest.lookup k = some (lease, t) → Last history k lease t
  kept : ∀ r ∈ history, ∀ l ∈ r.accepted,
    (∃ lease t, d.latest.lookup l.serverId = some (lease, t)) ∨ l.expiresAt ≤ d.clockFloor
  lifetime : ∀ r ∈ history, ∀ l ∈ r.accepted, l.FullTerm

theorem Remembers.advanced (h : Remembers d history) (hnow : d.clockFloor ≤ now) :
    Remembers (d.advanced now) history := by
  constructor
  · exact fun k lease t hk => h.last k lease t (lookup_retain.mp hk).1
  · intro r hr l hl
    change _ ∨ l.expiresAt ≤ now
    obtain ⟨lease, t, hlookup⟩ | _ := h.kept r hr l hl
    · by_cases hlive : now < lease.expiresAt
      · exact .inl ⟨lease, t, lookup_retain.mpr ⟨hlookup, decide_eq_true hlive⟩⟩
      · have hlast := h.last _ lease t hlookup
        have hissued := hlast.newest r hr l hl rfl
        have hlease := hlast.lasts
        have hl' := h.lifetime r hr l hl
        exact .inr (by omega)
    · exact .inr (by omega)
  · exact h.lifetime

theorem mem_accepted (h : lease ∈ rebuilt.accepted) :
    ∃ k t, rebuilt.next.lookup k = some (lease, t) := by
  obtain ⟨entry, hentry, rfl⟩ := mem_map.mp h
  have hlookup : entry.2 ∈ rebuilt.next.lookup entry.1 := AList.mem_lookup_iff.mpr hentry
  exact ⟨entry.1, entry.2.2, hlookup⟩

theorem accepted_of_lookup {k : DeviceId} (h : rebuilt.next.lookup k = some (lease, t)) :
    lease ∈ rebuilt.accepted := by
  have hentry : ⟨k, (lease, t)⟩ ∈ rebuilt.next.entries := AList.mem_lookup_iff.mp h
  exact mem_map.mpr ⟨_, hentry, rfl⟩

theorem Remembers.of_accepted (h : Remembers d history) (hfloor : d.clockFloor = now) {k : DeviceId}
    (hlease : Accepted C d registry now instant k lease t) {r : Replacement} (hr : r ∈ history)
    {l : ServiceLease} (hl : l ∈ r.accepted) (hserver : l.serverId = k) :
    l.issuedAt ≤ lease.issuedAt ∧
      (l = lease → t ≤ r.instant + fromSecs (lease.expiresAt - r.now)) := by
  have hkey := hlease.key
  have hlive := hlease.live
  have hlasts := hlease.lifetime
  have hl' := h.lifetime r hr l hl
  obtain ⟨previous, t', hprevious⟩ | hover := h.kept r hr l hl
  · have hlast := h.last _ previous t' hprevious
    rw [hserver, ← hkey] at hprevious
    obtain _ | ⟨rfl, ht⟩ := hlease.newer previous t' hprevious
    · have hissued := hlast.newest r hr l hl rfl
      refine ⟨by omega, ?_⟩
      rintro rfl
      omega
    · refine ⟨hlast.newest r hr l hl rfl, ?_⟩
      rintro rfl
      exact ht.trans (hlast.ends r hr hl)
  · -- forgotten, so it was over before this one
    rw [hfloor] at hover
    refine ⟨by omega, ?_⟩
    rintro rfl
    omega

theorem Remembers.extended (h : Remembers d history) (hfloor : d.clockFloor = now)
    (hnext : ∀ k lease t, rebuilt.next.lookup k = some (lease, t) →
      Accepted C d registry now instant k lease t) :
    Remembers { d with latest := rebuilt.next ∪ d.latest, view := some rebuilt.view }
      (history ++ [⟨registry, now, instant, rebuilt.accepted⟩]) := by
  have hunique {k : DeviceId} {lease l : ServiceLease} {t : ℕ}
      (hk : rebuilt.next.lookup k = some (lease, t)) (hl : l ∈ rebuilt.accepted)
      (hserver : l.serverId = k) : l = lease := by
    obtain ⟨k', t', hk'⟩ := mem_accepted hl
    have hkey := (hnext k' l t' hk').key
    rw [← hkey, hserver, hk] at hk'
    exact (Prod.mk.inj (Option.some.inj hk')).1.symm
  have hnone {k : DeviceId} {l : ServiceLease} (hk : rebuilt.next.lookup k = none)
      (hl : l ∈ rebuilt.accepted) : l.serverId ≠ k := by
    rintro rfl
    obtain ⟨k', t', hk'⟩ := mem_accepted hl
    rw [(hnext k' l t' hk').key, hk'] at hk
    cases hk
  constructor
  · intro k lease t hk
    obtain hk | ⟨hfree, hk⟩ := lookup_union.mp hk
    · have hlease := hnext k lease t hk
      refine ⟨hlease.key, hlease.lifetime, forall_concat (fun r hr hl => ?_) fun _ => hlease.ends,
        forall_concat (fun r hr l hl hserver => ?_) fun l hl hserver => ?_⟩
      · exact (h.of_accepted hfloor hlease hr hl hlease.key).2 rfl
      · exact (h.of_accepted hfloor hlease hr hl hserver).1
      · rw [hunique hk hl hserver]
    · have hlast := h.last k lease t hk
      exact ⟨hlast.key, hlast.lasts,
        forall_concat hlast.ends fun hl => absurd hlast.key (hnone hfree hl),
        forall_concat hlast.newest fun l hl hserver => absurd hserver (hnone hfree hl)⟩
  · refine forall_concat (fun r hr l hl => ?_) fun l hl => ?_
    · obtain ⟨lease, t, hlookup⟩ | hover := h.kept r hr l hl
      · left
        cases hn : rebuilt.next.lookup l.serverId with
        | some held => exact ⟨held.1, held.2, lookup_union.mpr (.inl hn)⟩
        | none => exact ⟨lease, t, lookup_union.mpr (.inr ⟨hn, hlookup⟩)⟩
      · exact .inr hover
    · obtain ⟨k, t, hk⟩ := mem_accepted hl
      rw [← (hnext k l t hk).key] at hk
      exact .inl ⟨l, t, lookup_union.mpr (.inl hk)⟩
  · refine forall_concat h.lifetime fun l hl => ?_
    obtain ⟨k, t, hk⟩ := mem_accepted hl
    exact (hnext k l t hk).lifetime

theorem replace_cases (C : Crypto) (transcript : Transcript) (d : ServiceDirectory)
    (registry : RegistrySnapshot) (leases : List ServiceLease) (now instant : ℕ) :
    (∃ e, d.replace C transcript registry leases now instant = (.error e, d.clear)) ∨
    (d.clockFloor ≤ now ∧ ∃ e,
      d.replace C transcript registry leases now instant = (.error e, d.advanced now)) ∨
    (d.clockFloor ≤ now ∧ ∃ rebuilt,
      (d.advanced now).rebuild C transcript registry leases now instant = .ok rebuilt ∧
      d.replace C transcript registry leases now instant =
        (.ok (), { d.advanced now with
          latest := rebuilt.next ∪ (d.advanced now).latest
          view := some rebuilt.view })) := by
  simp only [ServiceDirectory.replace]
  by_cases hnow : now < d.clockFloor
  · rw [if_pos hnow]
    exact .inl ⟨_, rfl⟩
  rw [if_neg hnow]
  right
  cases (d.advanced now).rebuild C transcript registry leases now instant with
  | error e => exact .inl ⟨not_lt.mp hnow, e, rfl⟩
  | ok rebuilt => exact .inr ⟨not_lt.mp hnow, rebuilt, rfl, rfl⟩

/-- What the calls keep: the memory, and a view of the last replacement only. -/
structure Past.Sound (C : Crypto) (past : Past) : Prop where
  remembers : Remembers past.directory past.history
  shown : ∀ view, past.directory.view = some view → ∃ r, past.history.getLast? = some r ∧
    ∀ app, ∀ p ∈ view.placements app, ∃ lease t, lease ∈ r.accepted ∧
      Publisher C r.registry r.now lease.serverId ∧ Stands past.directory.latest app p lease t

/-- How a replacement ends: without a view, or with one of what it has accepted. -/
inductive Outcome (C : Crypto) (history : List Replacement) :
    Except DirectoryError Unit × ServiceDirectory → List Replacement → Prop
  | failed {e : DirectoryError} {d : ServiceDirectory} {replacement : List Replacement} :
      Remembers d history → d.view = none → Outcome C history (.error e, d) replacement
  | replaced {d : ServiceDirectory} {r : Replacement} :
      Past.Sound C ⟨d, history ++ [r]⟩ → Outcome C history (.ok (), d) [r]

theorem fullTerm_of_signedLeases (leases : List (SignedLease transcript)) :
    ∀ lease ∈ leases.map (·.lease), lease.FullTerm :=
  forall_mem_map.mpr fun signed _ => fullTerm_of_signed signed.signed

theorem Remembers.replace (h : Remembers d history) (C : Crypto) (transcript : Transcript)
    (registry : RegistrySnapshot) {leases : List ServiceLease} (now instant : ℕ)
    (hleases : ∀ lease ∈ leases, lease.FullTerm) :
    Outcome C history (d.replace C transcript registry leases now instant)
      (d.replacement C transcript registry leases now instant) := by
  obtain ⟨e, he⟩ | ⟨hnow, e, he⟩ | ⟨hnow, rebuilt, hrebuilt, heq⟩ :=
    replace_cases C transcript d registry leases now instant
  · rw [he]
    exact .failed { h with } rfl
  · rw [he]
    exact .failed (h.advanced hnow) rfl
  · obtain ⟨hnext, hplacements⟩ : Collects .. := rebuild_eq_ok hrebuilt hleases
    have hreplacement : d.replacement C transcript registry leases now instant =
        [⟨registry, now, instant, rebuilt.accepted⟩] := by
      simp only [ServiceDirectory.replacement, hrebuilt]
    rw [heq, hreplacement]
    refine .replaced ⟨(h.advanced hnow).extended rfl hnext, ?_⟩
    intro _ hview
    cases hview
    refine ⟨_, getLast?_concat, fun app p hp => ?_⟩
    obtain ⟨lease, t, hstands⟩ := hplacements app p hp
    have hheld := hstands.held
    refine ⟨lease, t, accepted_of_lookup hheld, (hnext _ lease t hheld).publisher, ?_⟩
    exact { hstands with held := lookup_union.mpr (.inl hheld) }

theorem replaceSnapshot_cases (C : Crypto) (transcript : Transcript) (d : ServiceDirectory)
    (snapshot : ServiceSnapshot) (now instant : ℕ) :
    (∃ e, d.replaceSnapshot C transcript snapshot now instant = (.error e, d.clear)) ∨
    (∃ e d', d.clear.replace C transcript snapshot.registry snapshot.leases now instant =
        (.error e, d') ∧ d.replaceSnapshot C transcript snapshot now instant = (.error e, d')) ∨
    (∃ d' expiresAt deadline, d.clear.replace C transcript snapshot.registry snapshot.leases now
        instant = (.ok (), d') ∧
      d.replaceSnapshot C transcript snapshot now instant =
        (.ok (), { d' with
          view := d'.view.map (ServiceDirectory.narrow · expiresAt deadline)
          envelope := some (snapshot.observedAt, deadline) })) := by
  simp only [ServiceDirectory.replaceSnapshot]
  split
  · exact .inl ⟨_, rfl⟩
  split
  · exact .inl ⟨_, rfl⟩
  split
  · exact .inl ⟨_, rfl⟩
  split
  · rename_i e d' heq
    exact .inr (.inl ⟨e, d', heq, rfl⟩)
  · rename_i deadline _ _ _ _ d' heq
    exact .inr (.inr ⟨d', _, deadline, heq, rfl⟩)

theorem Remembers.replaceSnapshot (h : Remembers d history) (C : Crypto) (transcript : Transcript)
    {snapshot : ServiceSnapshot} (now instant : ℕ)
    (hleases : ∀ lease ∈ snapshot.leases, lease.FullTerm) :
    Outcome C history (d.replaceSnapshot C transcript snapshot now instant)
      (d.replacement C transcript snapshot.registry snapshot.leases now instant) := by
  have hclear : Remembers d.clear history := { h with }
  have hreplace := hclear.replace C transcript snapshot.registry now instant hleases
  change Outcome C history _
    (d.replacement C transcript snapshot.registry snapshot.leases now instant) at hreplace
  obtain ⟨_, he⟩ | ⟨_, _, he, heq⟩ | ⟨_, _, _, hok, heq⟩ :=
    replaceSnapshot_cases C transcript d snapshot now instant
  · rw [he]
    exact .failed hclear rfl
  · rw [heq, ← he]
    exact hreplace
  · rw [hok] at hreplace
    rw [heq]
    generalize d.replacement C transcript snapshot.registry snapshot.leases now instant =
      replacement
      at hreplace
    cases hreplace with
    | replaced hsound =>
      refine .replaced ⟨{ hsound.remembers with }, ?_⟩
      intro _ hview
      obtain ⟨wide, hwide, rfl⟩ := Option.map_eq_some_iff.mp hview
      exact hsound.shown wide hwide

namespace Past
variable {past : Past}
/-- A call replaces the view and is remembered, or leaves none. -/
theorem exec_cases (h : Remembers past.directory past.history) (C : Crypto)
    (call : DirectoryCall transcript) : (past.exec C transcript call).Sound C ∧
      (((past.exec C transcript call).history = past.history ∧
        (past.exec C transcript call).directory.view = none) ∨
      ∃ r, (past.exec C transcript call).history = past.history ++ [r]) := by
  have hunseen (d : ServiceDirectory) (hd : Remembers d past.history) (hview : d.view = none) :
      Past.Sound C ⟨d, past.history⟩ := by
    refine ⟨hd, fun view hsome => ?_⟩
    rw [hview] at hsome
    cases hsome
  have hcall (hclear : call ≠ .clear) : Outcome C past.history
      (call.perform C transcript past.directory)
        (call.replacement C transcript past.directory) := by
    cases call with
    | replaceSnapshot _ _ leases now instant =>
      exact h.replaceSnapshot C transcript now instant (fullTerm_of_signedLeases leases)
    | replace registry leases now instant =>
      exact h.replace C transcript registry now instant (fullTerm_of_signedLeases leases)
    | clear => exact absurd rfl hclear
  by_cases hclear : call = .clear
  · subst hclear
    have hexec : past.exec C transcript .clear = ⟨past.directory.clear, past.history⟩ := by
      simp [exec, DirectoryCall.perform, DirectoryCall.replacement]
    rw [hexec]
    exact ⟨hunseen _ { h with } rfl, .inl ⟨rfl, rfl⟩⟩
  · have houtcome := hcall hclear
    simp only [exec]
    generalize call.perform C transcript past.directory = result at houtcome
    generalize call.replacement C transcript past.directory = replacement at houtcome
    cases houtcome with
    | failed hremembers hview => exact ⟨hunseen _ hremembers hview, .inl ⟨rfl, hview⟩⟩
    | replaced hsound => exact ⟨hsound, .inr ⟨_, rfl⟩⟩

theorem after_concat (C : Crypto) (past : Past) (calls : List (DirectoryCall transcript))
    (call : DirectoryCall transcript) : past.after C transcript (calls ++ [call]) =
      (past.after C transcript calls).exec C transcript call := by
  simp only [after, foldl_append, foldl_cons, foldl_nil]

theorem after_append (C : Crypto) (past : Past) (calls later : List (DirectoryCall transcript)) :
    past.after C transcript (calls ++ later) =
      (past.after C transcript calls).after C transcript later :=
  foldl_append

/-- Any calls keep what the directory remembers. -/
theorem Sound.after (h : past.Sound C) (calls : List (DirectoryCall transcript)) :
    (past.after C transcript calls).Sound C := by
  induction calls generalizing past with
  | nil => exact h
  | cons call _ ih => exact ih (exec_cases h.remembers C call).1

theorem Sound.length_history_le (h : past.Sound C) (calls : List (DirectoryCall transcript)) :
    past.history.length ≤ (past.after C transcript calls).history.length := by
  induction calls generalizing past with
  | nil => exact le_rfl
  | cons call _ ih =>
    obtain ⟨hsound, hhistory⟩ := exec_cases h.remembers C call
    refine le_trans ?_ (ih hsound)
    obtain ⟨heq, _⟩ | ⟨r, heq⟩ := hhistory
    · rw [heq]
    · rw [heq, length_append]
      exact Nat.le_add_right _ _

theorem Sound.view_eq_none (h : past.Sound C) {calls : List (DirectoryCall transcript)}
    (hne : calls ≠ []) (hhistory : (past.after C transcript calls).history = past.history) :
    (past.after C transcript calls).directory.view = none := by
  obtain ⟨first, last, rfl⟩ := eq_nil_or_concat' calls |>.resolve_left hne
  rw [after_concat] at hhistory ⊢
  have hfirst := h.after first
  obtain ⟨_, hview⟩ | ⟨r, hgrows⟩ := (exec_cases hfirst.remembers C last).2
  · exact hview
  · have hlength := h.length_history_le first
    rw [hgrows] at hhistory
    have hsum := congrArg List.length hhistory
    rw [length_append, length_singleton] at hsum
    omega
end Past

theorem placements_eq_nil (h : d.view = none) (app : AppEnv) (now instant : ℕ) :
    d.placements app now instant = [] := by
  simp only [ServiceDirectory.placements, ServiceDirectory.current, h, Option.filter_none]

theorem mem_placements {p : Placement} (h : p ∈ d.placements app now instant) :
    ∃ view, d.view = some view ∧ ∃ q ∈ view.placements app, q.serverId = p.serverId ∧
      q.address = p.address ∧ now < q.expiresAt ∧ instant < q.deadline := by
  simp only [ServiceDirectory.placements] at h
  cases hview : d.current now instant with
  | none =>
    rw [hview] at h
    exact absurd h not_mem_nil
  | some view =>
    rw [hview] at h
    obtain ⟨q, hq, rfl⟩ := mem_map.mp h
    obtain ⟨hq, hlive⟩ := mem_filter.mp hq
    obtain ⟨hexpires, hdeadline⟩ := of_decide_eq_true hlive
    exact ⟨view, Option.eq_some_of_filter_eq_some hview, q, hq, rfl, rfl, hexpires, hdeadline⟩

theorem route_eq_remote {authority : Text} {destination peer : IpAddr}
    (h : d.route authority destination peer now instant = .remote app address) :
    d.admittedByGateway destination.toCanonical peer.toCanonical = true ∧
      ∃ p ∈ d.placements app now instant, p.address = address := by
  simp only [ServiceDirectory.route] at h
  split at h
  · cases h
  · cases h
  split at h
  · cases h
  split at h
  · cases h
  split at h
  · rename_i hgateway
    split at h
    · rename_i p hp
      obtain ⟨rfl, rfl⟩ := PrivateRoute.remote.inj h
      exact ⟨hgateway, p, mem_of_mem_head? hp, rfl⟩
    · cases h
  · cases h

theorem route_ne_remote (d : ServiceDirectory) (h : (IpAddr.v6 address).toCanonical = .v6 address)
    (authority : Text) (peer : IpAddr) (now instant : ℕ) (app : AppEnv) (next : BitVec 128) :
    d.route authority (.v6 address) peer now instant ≠ .remote app next := by
  intro hroute
  have hgateway := (route_eq_remote hroute).1
  rw [h, ServiceDirectory.admittedByGateway] at hgateway
  cases hg : d.gateway with
  | none =>
    rw [hg] at hgateway
    cases hgateway
  | some =>
    rw [hg] at hgateway
    simp [ComposeGateway.admits] at hgateway

def ServiceDirectory.afterCalls (C : Crypto) (transcript : Transcript) (network : NetworkId)
    (localServer : DeviceId) (gateway : Option ComposeGateway)
    (calls : List (DirectoryCall transcript)) : Past :=
  Past.after C transcript ⟨{ network, localServer, gateway }, []⟩ calls

/-- After any calls, whatever the clocks that they read, a placement is of a lease that
the last replacement accepted: its publisher was an effective server with the right to
administer, it is not over, it is no older than any other that was accepted of its
publisher, and no acceptance of it lies as far back as it had to live then. After a call
that failed there is no placement before a replacement succeeds. Only what comes through
the gateway is relayed, and where it is relayed to it is not relayed again. -/
theorem placements_live_and_current (C : Crypto) (transcript : Transcript) (network : NetworkId)
    (localServer : DeviceId) (gateway : Option ComposeGateway)
    (calls : List (DirectoryCall transcript)) :
    let after := ServiceDirectory.afterCalls C transcript network localServer gateway
    let past := after calls
    (∀ app now instant, ∀ p ∈ past.directory.placements app now instant, ∃ r lease,
      past.history.getLast? = some r ∧ lease ∈ r.accepted ∧ lease.serverId = p.serverId ∧
      app ∈ lease.apps ∧ Publisher C r.registry r.now p.serverId ∧ now < lease.expiresAt ∧
      (∀ r' ∈ past.history, ∀ l ∈ r'.accepted, l.serverId = p.serverId →
        l.issuedAt ≤ lease.issuedAt) ∧
      ∀ r' ∈ past.history, lease ∈ r'.accepted →
        instant < r'.instant + fromSecs (lease.expiresAt - r'.now)) ∧
    (∀ earlier call later e, calls = earlier ++ call :: later →
      (call.perform C transcript (after earlier).directory).1 = .error e →
      past.history = (after earlier).history →
      ∀ app now instant, past.directory.placements app now instant = []) ∧
    ∀ authority destination peer now instant app address,
      past.directory.route authority destination peer now instant = .remote app address →
      past.directory.admittedByGateway destination.toCanonical peer.toCanonical = true ∧
      ∀ (other : ServiceDirectory) authority' peer' now' instant' app' next,
        other.route authority' (.v6 address) peer' now' instant' ≠ .remote app' next := by
  intro after past
  have hnew : Past.Sound C ⟨{ network, localServer, gateway }, []⟩ := by
    refine ⟨⟨?_, ?_, ?_⟩, ?_⟩
    all_goals simp
  have hsound : past.Sound C := hnew.after calls
  have hplacement (app : AppEnv) (now instant : ℕ) (p : Placement)
      (hp : p ∈ past.directory.placements app now instant) : ∃ r lease t,
      past.history.getLast? = some r ∧ lease ∈ r.accepted ∧
      Publisher C r.registry r.now lease.serverId ∧ now < lease.expiresAt ∧ instant < t ∧
      app ∈ lease.apps ∧ past.directory.latest.lookup p.serverId = some (lease, t) ∧
      (IpAddr.v6 p.address).toCanonical = .v6 p.address := by
    obtain ⟨view, hview, q, hq, hserver, haddress, hexpires, hdeadline⟩ := mem_placements hp
    obtain ⟨r, hlast, hshown⟩ := hsound.shown view hview
    obtain ⟨lease, t, haccepted, hpublisher, hstands⟩ := hshown app q hq
    rw [← hserver, ← haddress]
    exact ⟨r, lease, t, hlast, haccepted, hpublisher, lt_of_lt_of_le hexpires hstands.expires,
      lt_of_lt_of_le hdeadline hstands.deadline, hstands.app, hstands.held, hstands.canonical⟩
  refine ⟨?_, ?_, ?_⟩
  · intro app now instant p hp
    obtain ⟨r, lease, t, hlast, haccepted, hpublisher, hlive, hends, happ, hheld, _⟩ :=
      hplacement app now instant p hp
    have hnewest := hsound.remembers.last _ lease t hheld
    rw [hnewest.key] at hpublisher
    refine ⟨r, lease, hlast, haccepted, hnewest.key, happ, hpublisher, hlive, hnewest.newest,
      fun r' hr' hl => ?_⟩
    exact lt_of_lt_of_le hends (hnewest.ends r' hr' hl)
  · intro earlier call later e hcalls _ hhistory app now instant
    have hearlier : (after earlier).Sound C := hnew.after earlier
    have hpast : past = (after earlier).after C transcript (call :: later) := by
      change Past.after C transcript _ calls = _
      rw [hcalls]
      exact Past.after_append C _ earlier (call :: later)
    rw [hpast] at hhistory ⊢
    exact placements_eq_nil (hearlier.view_eq_none (cons_ne_nil _ _) hhistory) app now instant
  · intro _ _ _ now instant app _ hroute
    obtain ⟨hgateway, p, hp, rfl⟩ := route_eq_remote hroute
    obtain ⟨_, _, _, _, _, _, _, _, _, _, hcanonical⟩ := hplacement app now instant p hp
    exact ⟨hgateway, fun other => route_ne_remote other hcanonical⟩

end Tako.Services
