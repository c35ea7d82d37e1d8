import Tako.NetworkApproval
import Tako.NetworkMoves

/-! How an enrollment goes on: the row of its grant, the challenges that are given out for
it and the admissions that come of it. -/
namespace Tako.Network.Server
open AgreeingMap Effects Fallible RegistrySnapshot List
variable {e : Entitlement} {r : RegistrySnapshot} {now expires : ℕ} {verified : VerifiedEnrollment}
  {proof : WgProof}
variable {Ω : Type} {S : Server Ω} {A : Set SignedRequest} {s s' : S.State}
def lastTime (s : S.State) : ℕ := s.db.identity.elim 0 (·.lastTime)

theorem ClockAt.lastTime_eq (h : S.ClockAt now s) : lastTime s = now := by
  obtain ⟨_, hidentity, rfl⟩ := h
  unfold lastTime
  rw [hidentity]
  rfl

section
@[mk_iff]
structure Sufficient (parent : Member) (grant : ApproveRequest) : Prop where
  networkAdmin : parent.permissions.networkAdmin = true
  serverAdmin : grant.permissions.serverAdmin = true ∨ grant.kind.isServer = true →
    parent.permissions.serverAdmin = true
  sshUser : ∀ user, grant.permissions.sshUser = some user →
    parent.permissions.serverAdmin = true ∨ parent.permissions.sshUser = some user
  deployments : parent.permissions.serverAdmin = true ∨
    grant.permissions.deployments ⊆ parent.permissions.deployments
  expiry : ∀ expiry, parent.expiresAt = some expiry →
    ∃ child, grant.memberExpiresAt = some child ∧ child ≤ expiry

variable {grant : ApproveRequest}
theorem sufficient_iff_not {parent : Member} : Sufficient parent grant ↔
    ¬(parent.permissions.networkAdmin = false ∨
      (grant.permissions.serverAdmin ∧ parent.permissions.serverAdmin = false) ∨
      (grant.kind.isServer ∧ parent.permissions.serverAdmin = false) ∨
      (grant.permissions.sshUser.isSome ∧ parent.permissions.serverAdmin = false ∧
        grant.permissions.sshUser ≠ parent.permissions.sshUser) ∨
      (parent.permissions.serverAdmin = false ∧
        ¬grant.permissions.deployments ⊆ parent.permissions.deployments) ∨
      parent.expiresAt.any (fun e => grant.memberExpiresAt.all fun child => e < child)) := by
  -- which of the optional fields are there decides what is compared
  rw [sufficient_iff]
  cases hssh : grant.permissions.sshUser <;> cases hparent : parent.expiresAt <;>
    cases hchild : grant.memberExpiresAt <;> grind

structure Sound (S : Server Ω) (grant : ApproveRequest) (now : ℕ) : Prop where
  request : grant.request.verify S.crypto = .ok ()
  permissions : grant.permissions.validate = .ok ()
  kind : grant.kind.deviceKind = grant.request.kind
  live : ∀ expiry ∈ grant.request.expiresAt, now < expiry
  memberLive : ∀ expiry ∈ grant.memberExpiresAt, now < expiry
  server : ∀ info, grant.kind = .server info → info.validate S.crypto = .ok ()

@[mk_iff]
structure InTime (grant : ApproveRequest) (now : ℕ) : Prop where
  live : now < grant.expiresAt
  storable : grant.expiresAt < 2 ^ 63
  covered : ∀ expiry ∈ grant.request.expiresAt, grant.expiresAt ≤ expiry

structure Backed (S : Server Ω) (e : Entitlement) (r : RegistrySnapshot) (now : ℕ)
    (id : DeviceId) : Prop where
  approver : id ≠ e.approver
  rights : ∃ effective parent, r.effectiveMembers S.crypto now = .ok effective ∧
    effective.lookup e.approver = some parent ∧ Sufficient parent e.grant
  unrevoked : ∃ ssh, e.grant.request.sshPublicKey.fingerprint S.crypto = .ok ssh ∧
    ∀ d ∈ r.revocations, d.names id (e.grant.request.wgPublicKey.fingerprint S.crypto) ssh = false

theorem times_iff : ¬(grant.expiresAt ≤ now ∨ 2 ^ 63 ≤ grant.expiresAt ∨
      grant.request.expiresAt.any (fun e => e ≤ now || e < grant.expiresAt) ∨
      grant.memberExpiresAt.any (fun e => e ≤ now)) ↔
    (∀ expiry ∈ grant.request.expiresAt, now < expiry) ∧
      (∀ expiry ∈ grant.memberExpiresAt, now < expiry) ∧ InTime grant now := by
  cases hrequest : grant.request.expiresAt <;> cases grant.memberExpiresAt <;>
    simp [inTime_iff, hrequest] <;> omega

theorem checkGrant_eq_ok (h : S.checkGrant e r now = .ok ()) :
    ∃ id, e.grant.request.deviceIdFor S.crypto S.config.network.id = .ok id ∧
      Sound S e.grant now ∧ InTime e.grant now ∧ Backed S e r now id := by
  unfold checkGrant at h
  obtain ⟨_, hrequest, h⟩ := bind_eq_ok h
  obtain ⟨_, hpermissions, h⟩ := bind_eq_ok h
  obtain ⟨id, hid, h⟩ := bind_eq_ok h
  obtain ⟨hkind, h⟩ := check_eq_ok h
  obtain ⟨hkind, hself⟩ := not_or.mp hkind
  obtain ⟨htimes, h⟩ := check_eq_ok h
  obtain ⟨hlive, hmember, htime⟩ := times_iff.mp htimes
  have hserver (info : ServerInfo) (hinfo : e.grant.kind = .server info) :
      info.validate S.crypto = .ok () := by
    simp only [hinfo] at h
    obtain ⟨_, hserver, _⟩ := bind_eq_ok h
    exact ofDomain_eq_ok hserver
  refine ⟨id, ofDomain_eq_ok hid, ⟨ofDomain_eq_ok hrequest, ofDomain_eq_ok hpermissions,
    not_not.mp hkind, hlive, hmember, hserver⟩, htime, ?_⟩
  -- servers have one more check, and the rest is the same
  split at h
  all_goals
    obtain ⟨_, _, h⟩ := bind_eq_ok h
    obtain ⟨effective, heffective, h⟩ := bind_eq_ok h
    split at h
    · cases h
    · rename_i parent hparent
      obtain ⟨hrights, h⟩ := check_eq_ok h
      obtain ⟨ssh, hssh, h⟩ := bind_eq_ok h
      obtain ⟨hrevoked, _⟩ := check_eq_ok h
      exact ⟨hself, ⟨effective, parent, ofDomain_eq_ok heffective, hparent,
        sufficient_iff_not.mpr hrights⟩, ssh, ofDomain_eq_ok hssh, by simpa using hrevoked⟩
end

section
variable {m : Member}

structure Fulfils (e : Entitlement) (m : Member) : Prop where
  request : m.request = e.grant.request
  kind : m.kind = e.grant.kind
  permissions : m.permissions = e.grant.permissions
  expiresAt : m.expiresAt = e.grant.memberExpiresAt
  approvedBy : m.approvedBy = some e.approver

theorem planCandidate_eq_ok (h : S.planCandidate e verified r now = .ok m) :
    m.request = verified.request ∧ Admissible S.crypto r m ∧ (e.candidate = some m ∨
        e.candidate = none ∧ (verified.request = e.grant.request → Fulfils e m)) := by
  unfold planCandidate at h
  cases hcandidate : e.candidate with
  | some =>
    simp only [hcandidate] at h
    obtain ⟨_, happroved, h⟩ := bind_eq_ok h
    obtain ⟨hsame, h⟩ := check_eq_ok h
    cases h
    have happroved := ofDomain_eq_ok happroved
    rw [not_not.mp hsame] at happroved
    obtain ⟨hm, happroved⟩ := approveWithAuthority_eq_ok happroved
    exact ⟨congrArg Member.request hm, happroved.admissible, .inl rfl⟩
  | none =>
    simp only [hcandidate] at h
    obtain ⟨rfl, happroved⟩ := approveWithAuthority_eq_ok (ofDomain_eq_ok h)
    exact ⟨rfl, happroved.admissible, .inr ⟨rfl, fun hrequest => ⟨hrequest, rfl, rfl, rfl, rfl⟩⟩⟩

theorem begin_eq_ok {C : Crypto} {X : Exchange} {request : EnrollmentRequest} {network : NetworkId}
    {privateKey : Except Error X.Private} {nonce : Except Error RequestId}
    {proof : PendingWgChallenge X}
    (h : WgChallenge.begin C X request network now expires privateKey nonce = .ok proof) :
    proof.request = request ∧ proof.challenge.expiresAt = expires ∧
      proof.challenge.networkId = network ∧
      request.deviceIdFor C network = .ok proof.challenge.deviceId := by
  unfold WgChallenge.begin at h
  obtain ⟨_, _, h⟩ := bind_eq_ok h
  obtain ⟨_, h⟩ := check_eq_ok h
  obtain ⟨_, _, h⟩ := bind_eq_ok h
  obtain ⟨_, hid, h⟩ := bind_eq_ok h
  obtain ⟨_, _, h⟩ := bind_eq_ok h
  obtain ⟨_, _, h⟩ := bind_eq_ok h
  obtain ⟨_, _, h⟩ := bind_eq_ok h
  cases h
  exact ⟨rfl, rfl, rfl, hid⟩

theorem verify_eq_ok {X : Exchange} {p : PendingWgChallenge X}
    (h : p.verify X proof now = .ok verified) :
    now < p.challenge.expiresAt ∧ verified.request = p.request ∧
      verified.networkId = p.challenge.networkId ∧ verified.deviceId = p.challenge.deviceId := by
  unfold PendingWgChallenge.verify at h
  obtain ⟨hlive, h⟩ := check_eq_ok h
  obtain ⟨_, _, h⟩ := bind_eq_ok h
  obtain ⟨_, h⟩ := check_eq_ok h
  cases h
  exact ⟨not_le.mp (not_or.mp hlive).1, rfl, rfl, rfl⟩
end

section
/-- A move that is no step of an enrollment: rows may be dropped when they have expired,
and challenges at any time. -/
structure Quiet (s s' : S.State) : Prop where
  time : lastTime s ≤ lastTime s'
  row : ∀ k row, s'.db.pendingEntitlements.lookup k = some row →
    s.db.pendingEntitlements.lookup k = some row
  kept : ∀ k row, s.db.pendingEntitlements.lookup k = some row →
    s'.db.pendingEntitlements.lookup k = some row ∨ row.1 ≤ lastTime s'
  challenge : ∀ id c, s'.challenges.lookup id = some c → s.challenges.lookup id = some c
  journal : s'.journal = { s.journal with
    consumed := s'.journal.consumed, denials := s'.journal.denials }

theorem Quiet.of_eq (htime : lastTime s ≤ lastTime s')
    (hrows : s'.db.pendingEntitlements = s.db.pendingEntitlements)
    (hchallenge : ∀ id c, s'.challenges.lookup id = some c → s.challenges.lookup id = some c)
    (hjournal : s'.journal = { s.journal with
      consumed := s'.journal.consumed, denials := s'.journal.denials }) : Quiet s s' := by
  refine ⟨htime, ?_, ?_, hchallenge, hjournal⟩
  · rw [hrows]
    exact fun k row hrow => hrow
  · rw [hrows]
    exact fun k row hrow => .inl hrow

variable {db : Database}
theorem quiet_opened (h : S.openTransaction s.db = .ok ((), db)) : Quiet s { s with db } := by
  obtain ⟨_, h⟩ := check_eq_ok h
  obtain ⟨_, rfl⟩ := ok_pair_inj h
  refine .of_eq ?_ rfl (fun _ _ h => h) rfl
  unfold lastTime
  cases s.db.identity with
  | none => exact Nat.zero_le _
  | some => exact le_refl _

theorem quiet_observed {u : RegistrySnapshot} (h : S.observeTransaction r s.db = .ok (u, db)) :
    Quiet s { s with db } := by
  obtain ⟨_, rfl, _⟩ := observeTransaction_eq_ok h
  exact .of_eq le_rfl rfl (fun _ _ h => h) rfl

theorem quiet_ticked {identity : Identity} (h : s.db.identity = some identity)
    (hle : identity.lastTime ≤ now) :
    Quiet s { s with db := { s.db with identity := some { identity with lastTime := now } } } := by
  refine .of_eq ?_ rfl (fun _ _ h => h) rfl
  rw [ClockAt.lastTime_eq (S := S) ⟨identity, h, rfl⟩]
  exact hle

theorem quiet_consumed {signed : SignedRequest} (hclock : S.ClockAt now s)
    (h : S.consumeTransaction signed now s.db = .ok ((), db)) : Quiet s { s with
      db, journal := { s.journal with consumed := s.journal.consumed ++ [(signed, now)] } } := by
  obtain ⟨_, _, _, rfl⟩ := consumeTransaction_eq_ok h
  refine ⟨le_refl _, fun k row hrow => (lookup_retain.mp hrow).1, fun k row hrow => ?_,
    fun _ _ h => h, rfl⟩
  by_cases hlive : now < row.1
  · exact .inl (lookup_retain.mpr ⟨hrow, decide_eq_true hlive⟩)
  · have htime : lastTime s = now := hclock.lastTime_eq
    exact .inr ((not_lt.mp hlive).trans (le_of_eq htime.symm))
end

theorem lookup_saveRow_eq (e : Entitlement) (db : Database) (k : RequestId) :
    (saveRow e db).pendingEntitlements.lookup k = if k = e.grant.pendingId then
        some ((db.pendingEntitlements.lookup e.grant.pendingId).elim e.grant.expiresAt (·.1), e)
      else db.pendingEntitlements.lookup k := by
  unfold saveRow
  by_cases hk : k = e.grant.pendingId
  · rw [if_pos hk, hk]
    exact AList.lookup_insert _
  · rw [if_neg hk]
    exact AList.lookup_insert_ne hk

/-- A row is under its own id, expires with its grant, which was accepted, and has no
candidate or the right one. -/
structure RowSound (s : S.State) (k : RequestId) (row : ℕ × Entitlement) :
    Prop where
  key : row.2.grant.pendingId = k
  expires : row.1 = row.2.grant.expiresAt
  accepted : ∃ x ∈ s.journal.approvals, x.grant = row.2.grant ∧ x.approver = row.2.approver
  fulfils : ∀ m, row.2.candidate = some m → Fulfils row.2 m

def Rows (s : S.State) : Prop :=
  ∀ k row, s.db.pendingEntitlements.lookup k = some row → RowSound s k row

theorem RowSound.mono {k : RequestId} {row : ℕ × Entitlement} (h : RowSound s k row)
    (hsub : s.journal.approvals ⊆ s'.journal.approvals) : RowSound s' k row := by
  obtain ⟨x, hx, hgrant⟩ := h.accepted
  exact ⟨h.key, h.expires, ⟨x, hsub hx, hgrant⟩, h.fulfils⟩

theorem Rows.of_eq (h : Rows s) (hrows : s'.db.pendingEntitlements = s.db.pendingEntitlements)
    (hsub : s.journal.approvals ⊆ s'.journal.approvals) : Rows s' := by
  intro k row hrow
  rw [hrows] at hrow
  exact (h k row hrow).mono hsub

theorem Rows.quiet (h : Rows s) (hquiet : Quiet s s') : Rows s' := by
  intro k row hrow
  apply (h k row (hquiet.row k row hrow)).mono
  rw [hquiet.journal]
  exact List.Subset.refl _

variable {c : ChallengeState S.exchange} {challengeId : RequestId} {a : Admission S.exchange}

theorem Rows.granted (h : Rows s) {pendingId : RequestId} (hgranted : S.Granted pendingId e now s) :
    e.grant.pendingId = pendingId ∧ now < e.grant.expiresAt ∧
      s.db.pendingEntitlements.lookup e.grant.pendingId = some (e.grant.expiresAt, e) := by
  obtain ⟨expires, hlookup, hlive⟩ := hgranted
  have hsound := h pendingId _ hlookup
  have hexpires : expires = e.grant.expiresAt := hsound.expires
  have hkey : e.grant.pendingId = pendingId := hsound.key
  rw [hexpires] at hlookup hlive
  refine ⟨hkey, hlive, ?_⟩
  rw [hkey]
  exact hlookup

theorem Rows.saved (h : Rows s)
    (hdb : s'.db.pendingEntitlements = (saveRow e s.db).pendingEntitlements)
    (hsub : s.journal.approvals ⊆ s'.journal.approvals)
    (he : RowSound s' e.grant.pendingId (e.grant.expiresAt, e))
    (hold : ∀ row, s.db.pendingEntitlements.lookup e.grant.pendingId = some row →
      row.1 = e.grant.expiresAt) : Rows s' := by
  intro k row hrow
  rw [hdb, lookup_saveRow_eq] at hrow
  split at hrow
  · rename_i hk
    cases hrow
    rw [hk]
    cases hlookup : s.db.pendingEntitlements.lookup e.grant.pendingId with
    | none => exact he
    | some old =>
      rw [Option.elim_some, hold old hlookup]
      exact he
  · exact (h k row hrow).mono hsub

/-- Every challenge that can still be answered was issued, under one id only, and has
expired or is for the request that its row is for. -/
structure Held (s : S.State) : Prop where
  expiry : ∀ c ∈ s.journal.issued, c.expiresAt = c.proof.challenge.expiresAt
  issued : ∀ id c, s.challenges.lookup id = some c → s.journal.issued[c.serial]? = some c
  apart : ∀ id id' c c', s.challenges.lookup id = some c → s.challenges.lookup id' = some c' →
    c.serial = c'.serial → id = id'
  fits : ∀ id c, s.challenges.lookup id = some c → c.expiresAt ≤ lastTime s ∨
    ∃ row, s.db.pendingEntitlements.lookup c.pendingId = some row ∧
      row.2.grant.request = c.proof.request ∧ c.expiresAt ≤ row.1

theorem Held.rows (h : Held s) (htime : lastTime s ≤ lastTime s')
    (hrows : ∀ k row, s.db.pendingEntitlements.lookup k = some row → row.1 ≤ lastTime s' ∨
      ∃ row', s'.db.pendingEntitlements.lookup k = some row' ∧
        row'.2.grant.request = row.2.grant.request ∧ row'.1 = row.1)
    (hchallenge : ∀ id c, s'.challenges.lookup id = some c → s.challenges.lookup id = some c)
    (hissued : s'.journal.issued = s.journal.issued) : Held s' := by
  refine ⟨?_, fun id c hc => ?_, fun id id' c c' hc hc' => ?_, fun id c hc => ?_⟩
  · rw [hissued]
    exact h.expiry
  · rw [hissued]
    exact h.issued id c (hchallenge id c hc)
  · exact h.apart id id' c c' (hchallenge id c hc) (hchallenge id' c' hc')
  · obtain hexpired | ⟨row, hrow, hrequest, hle⟩ := h.fits id c (hchallenge id c hc)
    · exact .inl (hexpired.trans htime)
    · obtain hexpired | ⟨row', hrow', hrequest', hexpires⟩ := hrows _ row hrow
      · exact .inl (hle.trans hexpired)
      · exact .inr ⟨row', hrow', hrequest'.trans hrequest, hle.trans (le_of_eq hexpires.symm)⟩

theorem Held.quiet (h : Held s) (hquiet : Quiet s s') : Held s' := by
  refine h.rows hquiet.time (fun k row hrow => ?_) hquiet.challenge (by rw [hquiet.journal])
  obtain hkept | hexpired := hquiet.kept k row hrow
  · exact .inr ⟨row, hkept, rfl, rfl⟩
  · exact .inl hexpired

theorem Held.saved (h : Held s) (htime : lastTime s ≤ lastTime s')
    (hdb : s'.db.pendingEntitlements = (saveRow e s.db).pendingEntitlements)
    (hold : ∀ row, s.db.pendingEntitlements.lookup e.grant.pendingId = some row →
      e.grant.request = row.2.grant.request) (hchallenges : s'.challenges = s.challenges)
    (hissued : s'.journal.issued = s.journal.issued) : Held s' := by
  refine h.rows htime (fun k row hrow => .inr ?_) (fun id c hc => by rwa [hchallenges] at hc)
    hissued
  rw [hdb, lookup_saveRow_eq]
  split
  · rename_i hk
    rw [hk] at hrow
    refine ⟨_, rfl, hold row hrow, ?_⟩
    rw [hrow, Option.elim_some]
  · exact ⟨row, hrow, rfl, rfl⟩

theorem Held.serial_lt (h : Held s) {id : RequestId} (hc : s.challenges.lookup id = some c) :
    c.serial < s.journal.issued.length := by
  obtain ⟨hlt, _⟩ := List.getElem?_eq_some_iff.mp (h.issued id c hc)
  exact hlt

theorem Held.issue (h : Held s) (hserial : c.serial = s.journal.issued.length)
    (hexpiry : c.expiresAt = c.proof.challenge.expiresAt)
    (hfits : ∃ row, s.db.pendingEntitlements.lookup c.pendingId = some row ∧
      row.2.grant.request = c.proof.request ∧ c.expiresAt ≤ row.1) :
    Held { s with
      challenges := s.challenges.insert challengeId c
      journal := { s.journal with issued := s.journal.issued ++ [c] } } := by
  have hlookup (id : RequestId) (x : ChallengeState S.exchange)
      (hx : (s.challenges.insert challengeId c).lookup id = some x) :
      id = challengeId ∧ x = c ∨ s.challenges.lookup id = some x := by
    by_cases hid : id = challengeId
    · rw [hid, AList.lookup_insert] at hx
      exact .inl ⟨hid, (Option.some.inj hx).symm⟩
    · rw [AList.lookup_insert_ne hid] at hx
      exact .inr hx
  refine ⟨forall_concat h.expiry hexpiry, fun id x hx => ?_,
    fun id id' x x' hx hx' heq => ?_, fun id x hx => ?_⟩
  · obtain ⟨_, rfl⟩ | hx := hlookup id x hx
    · rw [hserial]
      exact getElem?_concat_length
    · exact (getElem?_append_left (h.serial_lt hx)).trans (h.issued id x hx)
  · obtain ⟨rfl, rfl⟩ | hold := hlookup id x hx
    · obtain ⟨rfl, _⟩ | hold' := hlookup id' x' hx'
      · rfl
      · have hlt := h.serial_lt hold'
        omega
    · obtain ⟨rfl, rfl⟩ | hold' := hlookup id' x' hx'
      · have hlt := h.serial_lt hold
        omega
      · exact h.apart id id' x x' hold hold' heq
  · obtain ⟨_, rfl⟩ | hx := hlookup id x hx
    · exact .inr hfits
    · exact h.fits id x hx

/-- A challenge is taken once, is for the request of the grant that it was taken for unless
it has expired, and at most one member is admitted on it. -/
structure Spent (s : S.State) : Prop where
  distinct : (s.journal.taken.map (·.1.serial)).Nodup
  issued : ∀ x ∈ s.journal.taken, s.journal.issued[x.1.serial]? = some x.1
  gone : ∀ x ∈ s.journal.taken, ∀ id c, s.challenges.lookup id = some c → c.serial ≠ x.1.serial
  fits : ∀ x ∈ s.journal.taken, x.2.grant.pendingId = x.1.pendingId ∧
    (x.1.expiresAt ≤ lastTime s ∨ x.1.proof.request = x.2.grant.request)
  answering : ∀ x, s.journal.answering = some x → x ∈ s.journal.taken ∧
    ∀ a ∈ s.journal.admissions, a.challenge.serial ≠ x.1.serial
  admitted : ∀ a ∈ s.journal.admissions, ∃ e, (a.challenge, e) ∈ s.journal.taken
  once : (s.journal.admissions.map (·.challenge.serial)).Nodup

theorem Spent.quiet (h : Spent s) (hquiet : Quiet s s') : Spent s' := by
  refine ⟨?_, ?_, ?_, ?_, ?_, ?_, ?_⟩ <;> rw [hquiet.journal]
  · exact h.distinct
  · exact h.issued
  · exact fun x hx id c hc => h.gone x hx id c (hquiet.challenge id c hc)
  · intro x hx
    obtain ⟨hid, hfits⟩ := h.fits x hx
    exact ⟨hid, hfits.imp_left fun hexpired => hexpired.trans hquiet.time⟩
  · exact h.answering
  · exact h.admitted
  · exact h.once

theorem Spent.issue (h : Spent s) (hserial : c.serial = s.journal.issued.length) :
    Spent { s with
      challenges := s.challenges.insert challengeId c
      journal := { s.journal with issued := s.journal.issued ++ [c] } } := by
  have hlt (x : ChallengeState S.exchange × Entitlement) (hx : x ∈ s.journal.taken) :
      x.1.serial < s.journal.issued.length := by
    obtain ⟨hlt, _⟩ := List.getElem?_eq_some_iff.mp (h.issued x hx)
    exact hlt
  refine { h with issued := fun x hx => ?_, gone := fun x hx id x' hx' => ?_ }
  · exact (getElem?_append_left (hlt x hx)).trans (h.issued x hx)
  · by_cases hid : id = challengeId
    · rw [hid, AList.lookup_insert] at hx'
      cases hx'
      rw [hserial]
      exact (hlt x hx).ne'
    · rw [AList.lookup_insert_ne hid] at hx'
      exact h.gone x hx id x' hx'

theorem Spent.take (h : Spent s) (hheld : Held s) (hc : s.challenges.lookup challengeId = some c)
    (hfits : e.grant.pendingId = c.pendingId ∧
      (c.expiresAt ≤ lastTime s ∨ c.proof.request = e.grant.request)) :
    Spent { s with
      challenges := s.challenges.erase challengeId
      journal := { s.journal with
        taken := s.journal.taken ++ [(c, e)], answering := some (c, e) } } := by
  have hlookup (id : RequestId) (x : ChallengeState S.exchange)
      (hx : (s.challenges.erase challengeId).lookup id = some x) :
      id ≠ challengeId ∧ s.challenges.lookup id = some x := by
    by_cases hid : id = challengeId
    · rw [hid, AList.lookup_erase] at hx
      cases hx
    · rw [AList.lookup_erase_ne hid] at hx
      exact ⟨hid, hx⟩
  refine ⟨?_, ?_, ?_, ?_, ?_, fun a ha => ?_, h.once⟩
  · rw [map_append, nodup_append]
    refine ⟨h.distinct, nodup_singleton _, fun serial hserial serial' hserial' => ?_⟩
    obtain ⟨x, hx, rfl⟩ := mem_map.mp hserial
    rw [mem_singleton.mp hserial']
    exact (h.gone x hx challengeId c hc).symm
  · exact forall_concat h.issued (hheld.issued challengeId c hc)
  · refine forall_concat (fun x hx id x' hx' => h.gone x hx id x' (hlookup id x' hx').2) ?_
    intro id x hx heq
    obtain ⟨hne, hx⟩ := hlookup id x hx
    exact hne (hheld.apart id challengeId x c hx hc heq)
  · exact forall_concat h.fits hfits
  · intro x hx
    cases hx
    refine ⟨mem_concat_self, fun a ha heq => ?_⟩
    obtain ⟨e', htaken⟩ := h.admitted a ha
    exact h.gone _ htaken challengeId c hc heq.symm
  · obtain ⟨e', htaken⟩ := h.admitted a ha
    exact ⟨e', mem_append_left _ htaken⟩

theorem Spent.admission (h : Spent s) (ha : s.journal.answering = some (a.challenge, e)) :
    Spent { s with
      journal := { s.journal with
        answering := none, admissions := s.journal.admissions ++ [a] } } := by
  obtain ⟨htaken, hfresh⟩ := h.answering _ ha
  refine { h with
    answering := fun x hx => (by cases hx)
    admitted := forall_concat h.admitted ⟨e, htaken⟩
    once := ?_ }
  rw [map_append, nodup_append]
  refine ⟨h.once, nodup_singleton _, fun serial hserial serial' hserial' => ?_⟩
  obtain ⟨b, hb, rfl⟩ := mem_map.mp hserial
  rw [mem_singleton.mp hserial']
  exact hfresh b hb

/-- What was admitted for a grant stays in its row until the grant expires, so that the
admissions for one grant are the same. -/
structure Stored (s : S.State) : Prop where
  candidate : ∀ a ∈ s.journal.admissions, a.entitlement.candidate = some a.member
  row : ∀ a ∈ s.journal.admissions, a.entitlement.grant.expiresAt ≤ lastTime s ∨
    ∃ expires, s.db.pendingEntitlements.lookup a.entitlement.grant.pendingId =
      some (expires, a.entitlement)
  same : ∀ a ∈ s.journal.admissions, ∀ b ∈ s.journal.admissions,
    a.entitlement.grant = b.entitlement.grant → a.entitlement = b.entitlement

theorem Stored.rows (h : Stored s) (htime : lastTime s ≤ lastTime s')
    (hrows : ∀ k expires e, e.candidate.isSome →
      s.db.pendingEntitlements.lookup k = some (expires, e) → e.grant.expiresAt ≤ lastTime s' ∨
        ∃ expires', s'.db.pendingEntitlements.lookup k = some (expires', e))
    (hadmissions : s'.journal.admissions = s.journal.admissions) : Stored s' := by
  refine ⟨?_, ?_, ?_⟩
  · rw [hadmissions]
    exact h.candidate
  · rw [hadmissions]
    intro a ha
    obtain hexpired | ⟨expires, hrow⟩ := h.row a ha
    · exact .inl (hexpired.trans htime)
    · have hsome : a.entitlement.candidate.isSome := by
        rw [h.candidate a ha]
        rfl
      exact hrows _ expires _ hsome hrow
  · rw [hadmissions]
    exact h.same

theorem Stored.quiet (h : Stored s) (hsound : Rows s) (hquiet : Quiet s s') : Stored s' := by
  refine h.rows hquiet.time (fun k expires e _ hrow => ?_) (by rw [hquiet.journal])
  obtain hkept | hexpired := hquiet.kept k _ hrow
  · exact .inr ⟨expires, hkept⟩
  · have hexpires : expires = e.grant.expiresAt := (hsound k _ hrow).expires
    exact .inl (hexpires ▸ hexpired)

theorem Stored.saved (h : Stored s) (htime : lastTime s ≤ lastTime s')
    (hdb : s'.db.pendingEntitlements = (saveRow e s.db).pendingEntitlements)
    (hold : ∀ row, s.db.pendingEntitlements.lookup e.grant.pendingId = some row →
      row.2.candidate.isSome → row.2 = e)
    (hadmissions : s'.journal.admissions = s.journal.admissions) : Stored s' := by
  refine h.rows htime (fun k expires x hsome hrow => .inr ?_) hadmissions
  rw [hdb, lookup_saveRow_eq]
  split
  · rename_i hk
    rw [hk] at hrow
    obtain rfl := hold _ hrow hsome
    exact ⟨_, rfl⟩
  · exact ⟨expires, hrow⟩

theorem Stored.admission (h : Stored s) (hcandidate : a.entitlement.candidate = some a.member)
    (hlive : lastTime s < a.entitlement.grant.expiresAt)
    (hrow : s.db.pendingEntitlements.lookup a.entitlement.grant.pendingId =
      some (expires, a.entitlement)) :
    Stored { s with
      journal := { s.journal with
        answering := none, admissions := s.journal.admissions ++ [a] } } := by
  -- the row is still there, so an earlier admission for the grant is of the same record
  have hsame (b : Admission S.exchange) (hb : b ∈ s.journal.admissions)
      (hgrant : b.entitlement.grant = a.entitlement.grant) : b.entitlement = a.entitlement := by
    obtain hexpired | ⟨_, hrow'⟩ := h.row b hb
    · rw [hgrant] at hexpired
      exact absurd hexpired (not_le.mpr hlive)
    · rw [hgrant, hrow] at hrow'
      exact (congrArg Prod.snd (Option.some.inj hrow')).symm
  refine ⟨forall_concat h.candidate hcandidate, forall_concat h.row (.inr ⟨expires, hrow⟩), ?_⟩
  refine forall_concat (fun b hb => ?_) (forall_concat (fun b hb hgrant => ?_) fun _ => rfl)
  · exact forall_concat (h.same b hb) (hsame b hb)
  · exact (hsame b hb hgrant.symm).symm

structure Enrolling (s : S.State) : Prop where
  rows : Rows s
  held : Held s
  spent : Spent s
  stored : Stored s

theorem Enrolling.quiet (h : Enrolling s) (hquiet : Quiet s s') : Enrolling s' :=
  ⟨h.rows.quiet hquiet, h.held.quiet hquiet, h.spent.quiet hquiet,
    h.stored.quiet h.rows hquiet⟩

theorem enrolling_new : Enrolling ({} : S.State) where
  rows k row hrow := by cases hrow
  held := ⟨fun c hc => (by cases hc), fun id c hc => (by cases hc),
    fun id id' c c' hc => (by cases hc), fun id c hc => (by cases hc)⟩
  spent := ⟨nodup_nil, fun x hx => (by cases hx), fun x hx => (by cases hx),
    fun x hx => (by cases hx), fun x hx => (by cases hx), fun a ha => (by cases ha),
    nodup_nil⟩
  stored := ⟨fun a ha => (by cases ha), fun a ha => (by cases ha), fun a ha => (by cases ha)⟩

theorem Enrolling.answers (h : Enrolling s) (hclock : S.ClockAt now s)
    (hanswering : s.journal.answering = some (c, e))
    (hverify : c.proof.verify S.exchange proof now = .ok verified) :
    c ∈ s.journal.issued ∧ e.grant.pendingId = c.pendingId ∧ now < c.expiresAt ∧
      verified.request = e.grant.request := by
  obtain ⟨htaken, _⟩ := h.spent.answering _ hanswering
  obtain ⟨hid, hfits⟩ := h.spent.fits _ htaken
  obtain ⟨hlive, hrequest, _⟩ := verify_eq_ok hverify
  have hissued := mem_of_getElem? (h.spent.issued _ htaken)
  rw [← h.held.expiry c hissued] at hlive
  refine ⟨hissued, hid, hlive, ?_⟩
  obtain hexpired | hfits := hfits
  · rw [hclock.lastTime_eq] at hexpired
    exact absurd hexpired (not_le.mpr hlive)
  · exact hrequest.trans hfits

/-- Every move keeps grants, challenges and admissions in step. -/
theorem Enrolling.step (h : Enrolling s) (hmove : S.Move A s s') : Enrolling s' := by
  cases hmove with
  | opened hok => exact h.quiet (quiet_opened hok)
  | forgotten hsub => exact h.quiet (.of_eq le_rfl rfl hsub rfl)
  | failed | denied => exact h.quiet (.of_eq le_rfl rfl (fun _ _ h => h) rfl)
  | observed hok => exact h.quiet (quiet_observed hok)
  | ticked hidentity hle => exact h.quiet (quiet_ticked hidentity hle)
  | consumed _ _ hclock hok => exact h.quiet (quiet_consumed hclock hok)
  | approved hclock hshows hgrant hendorsed hnone =>
    rename_i grant approver r now
    have hfree {P : ℕ × Entitlement → Prop} (row : ℕ × Entitlement)
        (hrow : s.db.pendingEntitlements.lookup grant.pendingId = some row) : P row := by
      rw [hnone] at hrow
      cases hrow
    refine ⟨h.rows.saved rfl (subset_append_left _ _) ?_ hfree,
      h.held.saved le_rfl rfl hfree rfl rfl,
      { h.spent with },
      h.stored.saved le_rfl rfl hfree rfl⟩
    refine ⟨rfl, rfl, ⟨_, mem_concat_self, rfl, rfl⟩, ?_⟩
    exact fun m hm => by cases hm
  | approvedAgain =>
    exact ⟨h.rows.of_eq rfl (subset_append_left _ _),
      { h.held with },
      { h.spent with },
      { h.stored with }⟩
  | issued _ hgranted hle hbegin =>
    obtain ⟨hkey, _, hrow⟩ := h.rows.granted hgranted
    obtain ⟨hrequest, hexpiry, _⟩ := begin_eq_ok hbegin
    rw [hkey] at hrow
    exact ⟨h.rows.of_eq rfl (List.Subset.refl _),
      h.held.issue rfl hexpiry.symm ⟨_, hrow, hrequest.symm, hle⟩, h.spent.issue rfl,
      { h.stored with }⟩
  | taken hclock hgranted hlookup hid =>
    rename_i challengeId pendingId c e now
    obtain ⟨hkey, _, hrow⟩ := h.rows.granted hgranted
    have hfits : c.expiresAt ≤ lastTime s ∨ c.proof.request = e.grant.request := by
      refine (h.held.fits challengeId c hlookup).imp_right ?_
      rintro ⟨row, hrow', hrequest, _⟩
      rw [hid, ← hkey, hrow] at hrow'
      cases hrow'
      exact hrequest.symm
    refine ⟨h.rows.of_eq rfl (List.Subset.refl _), ?_,
      h.spent.take h.held hlookup ⟨hkey.trans hid.symm, hfits⟩,
      { h.stored with }⟩
    refine h.held.rows le_rfl (fun k row hrow => .inr ⟨row, hrow, rfl, rfl⟩)
      (fun id x hx => ?_) rfl
    by_cases hne : id = challengeId
    · rw [hne] at hx
      rw [AList.lookup_erase] at hx
      cases hx
    · rwa [AList.lookup_erase_ne hne] at hx
  | journaled hclock hgranted hanswering hverify hplan =>
    rename_i pendingId e now c proof r verified candidate
    obtain ⟨hkey, _, hrow⟩ := h.rows.granted hgranted
    obtain ⟨_, _, _, hrequest⟩ := h.answers hclock hanswering hverify
    obtain ⟨_, _, hplanned⟩ := planCandidate_eq_ok hplan
    have hsound := h.rows _ _ hrow
    have hfulfils : Fulfils e candidate := by
      obtain hsame | ⟨_, hnew⟩ := hplanned
      · exact hsound.fulfils candidate hsame
      · exact hnew hrequest
    have hold {P : ℕ × Entitlement → Prop} (hP : P (e.grant.expiresAt, e)) (row : ℕ × Entitlement)
        (hrow' : s.db.pendingEntitlements.lookup e.grant.pendingId = some row) : P row := by
      rw [hrow] at hrow'
      cases hrow'
      exact hP
    refine ⟨h.rows.saved rfl (List.Subset.refl _) ⟨rfl, rfl, hsound.accepted, ?_⟩
        (hold (P := fun row => row.1 = e.grant.expiresAt) rfl),
      h.held.saved le_rfl rfl
        (hold (P := fun row => e.grant.request = row.2.grant.request) rfl) rfl rfl,
      { h.spent with },
      h.stored.saved le_rfl rfl (hold ?_) rfl⟩
    · intro m hm
      cases hm
      exact { hfulfils with }
    · intro hsome
      obtain hsame | ⟨hnone, _⟩ := hplanned
      · change e = { e with candidate := some candidate }
        rw [← hsame]
      · rw [hnone] at hsome
        cases hsome
  | admitted hA hjustified =>
    rename_i a
    obtain ⟨e, _, hgrant, _, _, hanswering, _, _, hentitlement, _, hrow⟩ :=
      hjustified.planned
    have hgrants : a.entitlement.grant = e.grant := by rw [hentitlement]
    have hlive : lastTime s < a.entitlement.grant.expiresAt := by
      rw [hjustified.clock.lastTime_eq, hgrants]
      obtain ⟨_, _, _, htime, _⟩ := checkGrant_eq_ok hgrant
      exact htime.live
    refine ⟨h.rows.of_eq rfl (List.Subset.refl _),
      { h.held with },
      h.spent.admission hanswering, h.stored.admission ?_ hlive (hgrants ▸ hrow)⟩
    rw [hentitlement]

theorem Enrolling.moves (h : Enrolling s) (hmoves : S.Moves A s s') : Enrolling s' := by
  induction hmoves with
  | refl => exact h
  | tail _ hmove ih => exact ih.step hmove

end Tako.Network.Server
