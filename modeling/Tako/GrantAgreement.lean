import Tako.EnrollmentSteps
import Tako.RequestReplay

/-! The two places that judge a grant agree: `check_grant` when an administrator
approves, and `approve` when the applicant completes. -/
namespace Tako.Network.Server
open Fallible RegistrySnapshot List
variable {Ω : Type} {S : Server Ω} {e : Entitlement} {r : RegistrySnapshot} {now : ℕ}
  {id : DeviceId} {verified : VerifiedEnrollment} {m : Member}

def approvalOf (e : Entitlement) (now : ℕ) : Approval where
  kind := e.grant.kind
  permissions := e.grant.permissions
  approvedBy := some e.approver
  independentAdmin := false
  createdAt := now
  expiresAt := e.grant.memberExpiresAt

theorem checkGrant_of_backed (h : Sound S e.grant now) (ht : InTime e.grant now)
    (hb : Backed S e r now id)
    (hid : e.grant.request.deviceIdFor S.crypto S.config.network.id = .ok id) :
    S.checkGrant e r now = .ok () := by
  obtain ⟨effective, parent, heffective, hparent, hsufficient⟩ := hb.rights
  obtain ⟨ssh, hssh, hrevoked⟩ := hb.unrevoked
  have hrights := sufficient_iff_not.mp hsufficient
  have hany : ¬r.revocations.any (fun d => d.names id
      (e.grant.request.wgPublicKey.fingerprint S.crypto) ssh) = true := by
    simpa using hrevoked
  unfold checkGrant
  simp only [h.request, h.permissions, hid, heffective, hssh, ofDomain, Except.mapError,
    ok_bind rfl]
  rw [if_neg (not_or.mpr ⟨not_not.mpr h.kind, hb.approver⟩),
    if_neg (times_iff.mpr ⟨h.live, h.memberLive, ht⟩)]
  split
  · rename_i info hkind
    simp only [h.server info hkind, hparent]
    exact (if_neg hrights).trans (if_neg hany)
  · simp only [hparent]
    exact (if_neg hrights).trans (if_neg hany)

section
variable (hrequest : verified.request = e.grant.request)
  (hid : e.grant.request.deviceIdFor S.crypto verified.networkId = .ok verified.deviceId)

include hrequest hid
theorem validate_member_iff : ((approvalOf e now).member verified).validate S.crypto = .ok () ↔
    Sound S e.grant now ∧ verified.deviceId ≠ e.approver := by
  have hstop {x : Except Error Unit} {err : Error} :
      ((.error err : Except Error Unit) >>= fun _ => x) = .error err := rfl
  have hany (o : Option ℕ) : ¬o.any (fun expiry => expiry ≤ now) = true ↔
      ∀ expiry ∈ o, now < expiry := by
    cases o <;> simp
  unfold Member.validate
  simp only [bind_eq_ok_iff, check_eq_ok_iff, hstop, Approval.member, approvalOf, hrequest,
    hid, hany,
    Bool.false_eq_true, false_and, not_false_iff, true_and, or_false, ne_eq, not_or, not_not,
    Option.some.injEq, Except.ok.injEq, exists_eq_left']
  constructor
  · rintro ⟨_, hpermissions, _, hverify, hkind, ⟨hmember, hlive⟩, hself, hserver⟩
    refine ⟨⟨hverify, hpermissions, hkind, hlive, hmember, ?_⟩, Ne.symm hself⟩
    intro info hinfo
    rwa [hinfo] at hserver
  · rintro ⟨⟨hverify, hpermissions, hkind, hlive, hmember, hserver⟩, hself⟩
    refine ⟨_, hpermissions, _, hverify, hkind, ⟨hmember, hlive⟩, Ne.symm hself, ?_⟩
    split
    · exact hserver _ ‹_›
    · rfl

omit hrequest hid in
theorem delegatedBy_iff {parent : Member} :
    ((approvalOf e now).member verified).delegatedBy parent = true ↔
      parent.createdAt ≤ now ∧ Sufficient parent e.grant := by
  rw [sufficient_iff_not]
  simp only [Member.delegatedBy, Permissions.canDelegate, Approval.member, approvalOf]
  cases parent.expiresAt <;> cases e.grant.memberExpiresAt <;>
    grind [Option.isNone_iff_eq_none, Option.isSome_iff_ne_none]

omit hrequest hid in
theorem checkAuthority_iff {effective : EffectiveMembers} :
    r.checkAuthority effective ((approvalOf e now).member verified) false = .ok () ↔
      ∃ parent, effective.lookup e.approver = some parent ∧ parent.createdAt ≤ now ∧
        Sufficient parent e.grant := by
  have happroved : ((approvalOf e now).member verified).approvedBy = some e.approver := rfl
  unfold checkAuthority
  simp only [happroved]
  cases effective.lookup e.approver with
  | none => simp
  | some parent => simp [delegatedBy_iff]

/-- An approver that is effective was there before, so that the order in which the two
were created never refuses anything. -/
theorem approve_iff (hnetwork : verified.networkId = r.network.id) :
    r.approve S.crypto verified (approvalOf e now) = .ok m ↔
      Sound S e.grant now ∧ Backed S e r now verified.deviceId ∧
      comparePrevious S.crypto ((approvalOf e now).member verified)
        (r.members.filter Member.wgVerified) = .ok m := by
  have hdenied : r.denied S.crypto ((approvalOf e now).member verified) = .ok false ↔
      ∃ ssh, e.grant.request.sshPublicKey.fingerprint S.crypto = .ok ssh ∧
        ∀ d ∈ r.revocations, d.names verified.deviceId
          (e.grant.request.wgPublicKey.fingerprint S.crypto) ssh = false := by
    simp [denied, bind_eq_ok_iff, Approval.member, hrequest]
  unfold approve approveWithAuthority
  simp only [bind_eq_ok_iff, check_eq_ok_iff]
  constructor
  · rintro ⟨effective, hok, _, hvalid, -, denied, hdeny, hnot, -, _, hauthority, hprevious⟩
    obtain ⟨hsound, hself⟩ := (validate_member_iff hrequest hid).mp hvalid
    obtain ⟨parent, hparent, _, hsufficient⟩ := checkAuthority_iff.mp hauthority
    rw [Bool.not_eq_true] at hnot
    exact ⟨hsound, ⟨hself, ⟨effective, parent, hok, hparent, hsufficient⟩,
      hdenied.mp (hnot ▸ hdeny)⟩, hprevious⟩
  · rintro ⟨hsound, ⟨hself, ⟨effective, parent, hok, hparent, hsufficient⟩, hunrevoked⟩, hprevious⟩
    have hlive := (((effectiveMembers_eq_ok hok).2 _ _).mp hparent).allowed.1.live
    have hcreated := of_decide_eq_true (Bool.and_eq_true_iff.mp hlive).1
    exact ⟨effective, hok, (), (validate_member_iff hrequest hid).mpr ⟨hsound, hself⟩,
      not_not.mpr hnetwork, false, hdenied.mpr hunrevoked, Bool.false_ne_true, nofun, (),
      checkAuthority_iff.mpr ⟨parent, hparent, hcreated, hsufficient⟩, hprevious⟩
end

theorem comparePrevious_of_apart {C : Crypto} {previous : List Member}
    (h : ∀ x ∈ previous, Network.Apart C x m) : comparePrevious C m previous = .ok m := by
  induction previous with
  | nil => rfl
  | cons _ _ ih =>
    obtain ⟨hapart, hrest⟩ := forall_mem_cons.mp h
    rw [comparePrevious, if_neg hapart.deviceId, if_neg (not_or.mpr ⟨hapart.wgKey, hapart.sshKey⟩),
      if_neg hapart.address]
    exact ih hrest

/-- A grant that was accepted is not refused at completion for its rights, and what
completion accepts would have been accepted. -/
theorem grant_checks_agree {begun expires : ℕ} {privateKey : Except Error S.exchange.Private}
    {nonce : Except Error RequestId} {p : PendingWgChallenge S.exchange} {proof : WgProof}
    (hvalid : validateSnapshot S.crypto S.json r S.config.network = .ok ())
    (hbegin : WgChallenge.begin S.crypto S.exchange e.grant.request S.config.network.id begun
      expires privateKey nonce = .ok p)
    (hproof : p.verify S.exchange proof now = .ok verified) :
    (S.checkGrant e r now = .ok () →
      (∀ x ∈ r.members, x.wgVerified = true →
        Network.Apart S.crypto x ((approvalOf e now).member verified)) →
      ∃ m effective, r.approve S.crypto verified (approvalOf e now) = .ok m ∧
        (r.withMembers [m]).effectiveMembers S.crypto now = .ok effective ∧
        effective.lookup m.deviceId = some m) ∧
    ∀ m, r.approve S.crypto verified (approvalOf e now) = .ok m →
      Backed S e r now verified.deviceId ∧
        (InTime e.grant now → S.checkGrant e r now = .ok ()) := by
  obtain ⟨hrequest, _, hnetwork, hid⟩ := begin_eq_ok hbegin
  obtain ⟨_, hrequest', hnetwork', hid'⟩ := verify_eq_ok hproof
  rw [← hrequest'] at hrequest
  rw [← hnetwork'] at hnetwork
  rw [← hid', ← hnetwork] at hid
  obtain ⟨hsame, hvalid⟩ := validateSnapshot_eq_ok hvalid
  have hregistry : verified.networkId = r.network.id := by rw [hnetwork, hsame]
  constructor
  · intro hgrant hapart
    obtain ⟨id, hgranted, hsound, _, hbacked⟩ := checkGrant_eq_ok hgrant
    obtain rfl := Except.ok.inj (hgranted.symm.trans (hnetwork ▸ hid))
    have hprevious := comparePrevious_of_apart fun x hx =>
      hapart x (mem_of_mem_filter hx) (mem_filter.mp hx).2
    have hok := (approve_iff hrequest hid hregistry).mpr ⟨hsound, hbacked, hprevious⟩
    obtain ⟨_, ⟨effective, heffective, hlookup⟩, _⟩ :=
      approval_takes_effect (validate_eq_ok_iff.mpr hvalid) (.inl hok)
    exact ⟨_, effective, hok, heffective, hlookup⟩
  · intro m hok
    obtain ⟨hsound, hbacked, _⟩ := (approve_iff hrequest hid hregistry).mp hok
    exact ⟨hbacked, fun htime => checkGrant_of_backed hsound htime hbacked (hnetwork ▸ hid)⟩

def laptopGrant : Entitlement :=
  ⟨⟨⟨.replicate 16 7⟩, laptopRequest, .laptop, laptopApproval.permissions, 9, some 10⟩,
    deskId, none⟩

def lender : Server Unit where
  crypto := Crypto.threeRequests
  json := leftServer.json
  exchange := ⟨Unit, fun _ => .ok deskWg, fun _ _ _ => .ok deskWgFingerprint⟩
  environment := { storeOf deskOnly with generateX25519 := fun _ => (.ok (), ()) }
  config := { leftServer.config with network := deskOnly.network, serverId := deskId }
  keys := ⟨fun _ _ => .ok deskId, .ok deskWg, .ok ""⟩

theorem grant_checks_agree_laptop :
    lender.checkGrant laptopGrant deskOnly 2 = .ok () ∧
    ∃ m effective,
      deskOnly.approve lender.crypto laptopEnrollment (approvalOf laptopGrant 2) = .ok m ∧
      (deskOnly.withMembers [m]).effectiveMembers lender.crypto 2 = .ok effective ∧
      effective.lookup m.deviceId = some m := by
  have hgrant : lender.checkGrant laptopGrant deskOnly 2 = .ok () := by decide +kernel
  have hdistinct : ∀ x ∈ deskOnly.members, x.wgVerified = true →
      x.deviceId ≠ laptopId ∧ x.request.wgPublicKey ≠ laptopWg ∧
        x.request.sshPublicKey ≠ laptopSsh ∧
        x.networkId.address lender.crypto x.request.wgPublicKey ≠
          takoNetwork.address lender.crypto laptopWg := by
    decide +kernel
  have hproves :
      (WgChallenge.begin lender.crypto lender.exchange laptopRequest takoNetwork 1 9 (.ok ())
      (.ok ⟨.replicate 16 0⟩) >>= fun p => p.verify lender.exchange ⟨deskWgFingerprint⟩ 2) =
      .ok laptopEnrollment := by
    decide +kernel
  obtain ⟨p, hbegin, hproof⟩ := bind_eq_ok hproves
  obtain ⟨happroves, _⟩ :=
    grant_checks_agree (S := lender) (e := laptopGrant) (r := deskOnly)
      (by decide +kernel) hbegin hproof
  refine ⟨hgrant, happroves hgrant fun x hx hverified => ?_⟩
  obtain ⟨hid, hwg, hssh, haddress⟩ := hdistinct x hx hverified
  exact ⟨hid, hwg, hssh, haddress⟩

end Tako.Network.Server
