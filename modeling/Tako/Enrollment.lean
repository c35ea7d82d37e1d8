import Tako.EnrollmentSteps

/-! Whoever is admitted was approved: for every call of `append_member` there is a grant
of someone who could and still can make it, and the proof of the applicant. -/
namespace Tako.Network.Server
open Effects Fallible RegistrySnapshot List
variable {Ω : Type} {S : Server Ω} {A : Set SignedRequest} {s s' : S.State}
/-- The member is effective by all that the server had observed. -/
structure InForce (S : Server Ω) (r : RegistrySnapshot) (known : Observed) (now : ℕ) (m : Member) :
    Prop where
  network : r.network = S.config.network
  members : r.members = known.memberList
  revocations : r.revocations = known.revocationList
  effective : ∃ effective, r.effectiveMembers S.crypto now = .ok effective ∧
    effective.lookup m.deviceId = some m
  unrevoked : ∀ d ∈ known.revocationList, ¬RevokedBy S.crypto m d
  live : m.live now = true

/-- The grant was asked for in a request that was accepted, of a network admin. -/
def Authorized (S : Server Ω) (j : Journal S.exchange) (x : Accepted) : Prop :=
  ∃ signed parent, (signed, x.now) ∈ j.consumed ∧ signed.request = .approve x.grant ∧
    signed.signer = x.approver ∧ parent.deviceId = x.approver ∧
    signed.verify S.crypto S.json parent.request.sshPublicKey = .ok () ∧
    S.InForce x.snapshot x.known x.now parent ∧ parent.permissions.networkAdmin = true

structure Warranted (S : Server Ω) (j : Journal S.exchange) (a : Admission S.exchange) : Prop where
  /-- A grant was accepted for exactly this member, of one who may still make it. -/
  approved : ∃ x ∈ j.approvals.take a.approvals, S.Authorized j x ∧
    x.grant.pendingId = a.pendingId ∧ Fulfils ⟨x.grant, x.approver, none⟩ a.member ∧
    ∃ parent, parent.deviceId = x.approver ∧ S.InForce a.snapshot a.known a.now parent ∧
      Sufficient parent x.grant
  /-- The request that is handled answers a challenge for this enrollment in time. -/
  answered : (a.signed, a.now) ∈ j.consumed ∧
    (∃ challengeId, a.signed.request = .complete a.pendingId challengeId a.proof) ∧
    a.signed.verify S.crypto S.json a.member.request.sshPublicKey = .ok () ∧
    a.challenge ∈ j.issued ∧ a.challenge.pendingId = a.pendingId ∧ a.now < a.challenge.expiresAt ∧
    ∃ verified, a.challenge.proof.verify S.exchange a.proof a.now = .ok verified ∧
      verified.request = a.member.request
  unrevoked : ∀ d ∈ a.known.revocationList, ¬RevokedBy S.crypto a.member d

section
structure Grows (j j' : Journal S.exchange) : Prop where
  consumed : j.consumed ⊆ j'.consumed
  issued : j.issued ⊆ j'.issued
  approvals : ∃ later, j'.approvals = j.approvals ++ later

variable {j j' : Journal S.exchange}
theorem grows_step (hmove : S.Move A s s') : Grows s.journal s'.journal := by
  have happroved (x : Accepted) : Grows s.journal
      { s.journal with approvals := s.journal.approvals ++ [x] } :=
    ⟨List.Subset.refl _, List.Subset.refl _, [x], rfl⟩
  cases hmove with
  | approved | approvedAgain => exact happroved _
  | consumed => exact ⟨subset_append_left _ _, List.Subset.refl _, [], (append_nil _).symm⟩
  | issued => exact ⟨List.Subset.refl _, subset_append_left _ _, [], (append_nil _).symm⟩
  | _ => exact ⟨List.Subset.refl _, List.Subset.refl _, [], (append_nil _).symm⟩

theorem Authorized.mono (hgrows : Grows j j') {x : Accepted} (h : S.Authorized j x) :
    S.Authorized j' x := by
  obtain ⟨signed, parent, hconsumed, hrest⟩ := h
  exact ⟨signed, parent, hgrows.consumed hconsumed, hrest⟩

theorem Warranted.mono (hgrows : Grows j j') {a : Admission S.exchange} (h : S.Warranted j a) :
    S.Warranted j' a := by
  obtain ⟨x, hx, hauthorized, happroved⟩ := h.approved
  obtain ⟨hconsumed, hrequest, hverify, hissued, hanswered⟩ := h.answered
  refine ⟨⟨x, ?_, hauthorized.mono hgrows, happroved⟩,
    ⟨hgrows.consumed hconsumed, hrequest, hverify,
    hgrows.issued hissued, hanswered⟩, h.unrevoked⟩
  obtain ⟨_, hlater⟩ := hgrows.approvals
  rw [hlater, take_append]
  exact mem_append_left _ hx
end

section
variable {r : RegistrySnapshot} {now : ℕ}
theorem Shows.inForce (h : S.Shows r s) {effective : AList (fun _ : DeviceId => Member)}
    {id : DeviceId} {m : Member} (hok : r.effectiveMembers S.crypto now = .ok effective)
    (hm : effective.lookup id = some m) : m.deviceId = id ∧ S.InForce r s.db.observed now m := by
  obtain ⟨heligible, hid⟩ := (((effectiveMembers_eq_ok hok).2 id m).mp hm).allowed
  obtain ⟨_, _, hunrevoked⟩ := admissible_iff.mp heligible.admissible
  rw [h.revocations] at hunrevoked
  refine ⟨hid, h.network, h.members, h.revocations, ⟨effective, hok, ?_⟩, hunrevoked,
    heligible.live⟩
  rw [hid]
  exact hm

theorem checkSigner_eq_ok {signed : SignedRequest} (h : S.checkSigner signed r now = .ok ()) :
    ∃ effective m, r.effectiveMembers S.crypto now = .ok effective ∧
      effective.lookup signed.signer = some m ∧
      signed.verify S.crypto S.json m.request.sshPublicKey = .ok () := by
  obtain ⟨effective, hok, h⟩ := bind_eq_ok h
  split at h
  · cases h
  · rename_i m hm
    obtain ⟨_, hverify, _⟩ := bind_eq_ok h
    exact ⟨effective, m, ofDomain_eq_ok hok, hm, hverify⟩

theorem authorized_of_endorsed {grant : ApproveRequest} {approver : DeviceId} (hshows : S.Shows r s)
    (hgrant : S.checkGrant ⟨grant, approver, none⟩ r now = .ok ())
    (hendorsed : S.Endorsed grant approver r now s) :
    S.Authorized s.journal ⟨grant, approver, r, now, s.db.observed⟩ := by
  obtain ⟨_, _, _, _, hbacked⟩ := checkGrant_eq_ok hgrant
  obtain ⟨_, parent, hok, hparent, hsufficient⟩ := hbacked.rights
  obtain ⟨signed, hconsumed, hrequest, rfl, hsigner⟩ := hendorsed
  obtain ⟨_, _, hok', hm, hverify⟩ := checkSigner_eq_ok hsigner
  obtain rfl := Except.ok.inj (hok.symm.trans hok')
  obtain rfl := Option.some.inj (hparent.symm.trans hm)
  obtain ⟨hid, hforce⟩ := hshows.inForce hok hparent
  exact ⟨signed, parent, hconsumed, hrequest, rfl, hid, hverify, hforce, hsufficient.networkAdmin⟩

def Asked (s : S.State) : Prop :=
  ∀ x ∈ s.journal.approvals, S.Authorized s.journal x

theorem Asked.step (h : Asked s) (hmove : S.Move A s s') : Asked s' := by
  have hgrows := grows_step hmove
  have hold (x : Accepted) (hx : x ∈ s.journal.approvals) : S.Authorized s'.journal x :=
    (h x hx).mono hgrows
  cases hmove with
  | approved _ hshows hgrant hendorsed | approvedAgain _ hshows hgrant hendorsed =>
    exact forall_concat hold ((authorized_of_endorsed hshows hgrant hendorsed).mono hgrows)
  | _ => exact hold

theorem Asked.moves (h : Asked s) (hmoves : S.Moves A s s') : Asked s' := by
  induction hmoves with
  | refl => exact h
  | tail _ hmove ih => exact ih.step hmove
end

theorem Justified.warranted {a : Admission S.exchange} (h : S.Justified a s)
    (henrolling : Enrolling s) (hasked : Asked s) : S.Warranted s.journal a := by
  obtain ⟨e, verified, hgrant, hsigned, hid, hanswering, hproof, hplan, hentitlement, _, hrow⟩ :=
    h.planned
  obtain ⟨hissued, hpending, hlive, _⟩ := henrolling.answers h.clock hanswering hproof
  obtain ⟨hrequest, hadmissible, _⟩ := planCandidate_eq_ok hplan
  obtain ⟨_, _, _, _, hbacked⟩ := checkGrant_eq_ok hgrant
  obtain ⟨_, parent, hok, hparent, hsufficient⟩ := hbacked.rights
  obtain ⟨hparentId, hforce⟩ := h.shows.inForce hok hparent
  -- the row tells who has approved, and what for
  have hsound := henrolling.rows _ _ hrow
  rw [hentitlement] at hsound
  obtain ⟨x, hx, hxgrant, hxapprover⟩ := hsound.accepted
  have hfulfils := hsound.fulfils a.member rfl
  have hxgrant : x.grant = e.grant := hxgrant
  have hxapprover : x.approver = e.approver := hxapprover
  refine ⟨⟨x, ?_, hasked x hx, ?_, ?_, parent, ?_, ?_, ?_⟩,
    ⟨h.accepted, h.request, ?_, hissued, hid, hlive, verified, hproof, hrequest.symm⟩, ?_⟩
  · rw [h.approvals, take_length]
    exact hx
  · rw [hxgrant]
    exact hpending.trans hid
  · rw [hxgrant, hxapprover]
    exact { hfulfils with }
  · rw [hxapprover]
    exact hparentId
  · rw [h.known]
    exact hforce
  · rw [hxgrant]
    exact hsufficient
  · rw [hfulfils.request]
    exact hsigned
  · rw [h.known, ← h.shows.revocations]
    exact (admissible_iff.mp hadmissible).2.2

/-- Every admission of a run has its grant, its challenge and its proof. -/
theorem admissions_moves (henrolling : Enrolling s) (hasked : Asked s) (hmoves : S.Moves A s s') :
    ∃ new, s'.journal.admissions = s.journal.admissions ++ new ∧
      ∀ a ∈ new, a.signed ∈ A ∧ S.Warranted s'.journal a := by
  induction hmoves with
  | refl => exact ⟨[], (append_nil _).symm, fun a ha => absurd ha not_mem_nil⟩
  | tail hmoves hmove ih =>
    rename_i t t'
    obtain ⟨new, hnew, hwarranted⟩ := ih
    have hgrows := grows_step hmove
    have hold (a : Admission S.exchange) (ha : a ∈ new) : a.signed ∈ A ∧ S.Warranted t'.journal a :=
      ⟨(hwarranted a ha).1, (hwarranted a ha).2.mono hgrows⟩
    have hquiet (heq : t'.journal.admissions = t.journal.admissions) :
        ∃ new, t'.journal.admissions = s.journal.admissions ++ new ∧
          ∀ a ∈ new, a.signed ∈ A ∧ S.Warranted t'.journal a :=
      ⟨new, heq.trans hnew, hold⟩
    cases hmove with
    | admitted hA hjustified =>
      rename_i a
      refine ⟨new ++ [a], ?_, forall_concat hold ⟨hA, (hjustified.warranted ?_ ?_).mono hgrows⟩⟩
      · rw [← append_assoc, ← hnew]
      · exact henrolling.moves hmoves
      · exact hasked.moves hmoves
    | opened | forgotten | failed | observed | ticked | consumed | approved | approvedAgain | issued
    | taken | journaled | denied => exact hquiet rfl

/-- Whatever the calls are, and wherever they fail: a call of `append_member` is made while
a request of the applicant is handled, and is warranted; a challenge that was taken is not
taken again and serves for at most one of them; and those for one grant are of the same
record. -/
theorem admissions_warranted (S : Server Ω) (o : Ω) (calls : List RuntimeCall)
    (call : RuntimeCall) :
    let w := S.after ⟨o, {}⟩ calls
    let w' := final (S.perform call w)
    (∃ new, w'.state.journal.admissions = w.state.journal.admissions ++ new ∧
      ∀ a ∈ new, a.signed ∈ call.requests ∧ S.Warranted w'.state.journal a) ∧
    (w'.state.journal.taken.map (·.1.serial)).Nodup ∧
    (∀ x ∈ w'.state.journal.taken, ∀ id c, w'.state.challenges.lookup id = some c →
      c.serial ≠ x.1.serial) ∧
    (w'.state.journal.admissions.map (·.challenge.serial)).Nodup ∧
    ∀ a ∈ w'.state.journal.admissions, ∀ b ∈ w'.state.journal.admissions,
      a.entitlement.grant = b.entitlement.grant → a.member = b.member := by
  intro w w'
  have hbefore : S.Moves Set.univ {} w.state := moves_after ⟨o, {}⟩ calls fun _ _ _ _ => trivial
  have hcall : S.Moves {signed | signed ∈ call.requests} w.state w'.state :=
    moves_perform call (fun _ h => h) w
  have hnew : Asked ({} : S.State) := fun x hx => absurd hx not_mem_nil
  have henrolling := enrolling_new.moves hbefore
  have hafter := henrolling.moves hcall
  refine ⟨admissions_moves henrolling (hnew.moves hbefore) hcall, hafter.spent.distinct,
    hafter.spent.gone, hafter.spent.once, ?_⟩
  intro a ha b hb hgrant
  have hsame := hafter.stored.same a ha b hb hgrant
  have hcandidate := hafter.stored.candidate a ha
  rw [hsame, hafter.stored.candidate b hb] at hcandidate
  exact (Option.some.inj hcandidate).symm

end Tako.Network.Server
