import Tako.NetworkRuntime
import Tako.NetworkValidity

/-! What the runtime can do to its state, move by move, and that every call does nothing
else, wherever it fails. -/
namespace Tako.Network.Server
open AgreeingMap Effects Fallible RegistrySnapshot List
variable {Ω : Type} (S : Server Ω)
abbrev State (S : Server Ω) := RuntimeState S.exchange

def ClockAt (now : ℕ) (s : S.State) : Prop :=
  ∃ identity, s.db.identity = some identity ∧ identity.lastTime = now

structure Shows (r : RegistrySnapshot) (s : S.State) : Prop where
  network : r.network = S.config.network
  members : r.members = s.db.observed.memberList
  revocations : r.revocations = s.db.observed.revocationList
  valid : Valid S.crypto r

def Granted (pendingId : RequestId) (e : Entitlement) (now : ℕ) (s : S.State) :
    Prop :=
  ∃ expires, s.db.pendingEntitlements.lookup pendingId = some (expires, e) ∧ now < expires

/-- The grant was asked for in a request that was accepted, by whom `checkSigner` wants. -/
def Endorsed (grant : ApproveRequest) (approver : DeviceId) (r : RegistrySnapshot) (now : ℕ)
    (s : S.State) : Prop :=
  ∃ signed, (signed, now) ∈ s.journal.consumed ∧ signed.request = .approve grant ∧
    signed.signer = approver ∧ S.checkSigner signed r now = .ok ()

structure Justified (a : Admission S.exchange) (s : S.State) : Prop where
  accepted : (a.signed, a.now) ∈ s.journal.consumed
  clock : S.ClockAt a.now s
  shows : S.Shows a.snapshot s
  request : ∃ challengeId, a.signed.request = .complete a.pendingId challengeId a.proof
  planned : ∃ e verified, S.checkGrant e a.snapshot a.now = .ok () ∧
    a.signed.verify S.crypto S.json e.grant.request.sshPublicKey = .ok () ∧
    a.challenge.pendingId = a.pendingId ∧ s.journal.answering = some (a.challenge, e) ∧
    a.challenge.proof.verify S.exchange a.proof a.now = .ok verified ∧
    S.planCandidate e verified a.snapshot a.now = .ok a.member ∧
    a.entitlement = { e with candidate := some a.member } ∧
    ∃ expires, s.db.pendingEntitlements.lookup e.grant.pendingId = some (expires, a.entitlement)
  approvals : a.approvals = s.journal.approvals.length
  known : a.known = s.db.observed

inductive Move (A : Set SignedRequest) (s : S.State) : S.State → Prop
  | opened {db : Database} :
      S.openTransaction s.db = .ok ((), db) → Move A s { s with db }
  | forgotten {challenges : AList (fun _ : RequestId => ChallengeState S.exchange)} :
      (∀ id c, challenges.lookup id = some c → s.challenges.lookup id = some c) →
      Move A s { s with challenges }
  | failed : Move A s { s with db := { s.db with registryFailure := true } }
  | observed {r u : RegistrySnapshot} {db : Database} :
      S.observeTransaction r s.db = .ok (u, db) → Move A s { s with db }
  | ticked {identity : Identity} {now : ℕ} :
      s.db.identity = some identity → identity.lastTime ≤ now →
      Move A s { s with db := { s.db with identity := some { identity with lastTime := now } } }
  | consumed {db : Database} {signed : SignedRequest} {method path : String} {now : ℕ} :
      signed ∈ A → S.Addressed signed method path now → S.ClockAt now s →
      S.consumeTransaction signed now s.db = .ok ((), db) →
      Move A s { s with
        db, journal := { s.journal with consumed := s.journal.consumed ++ [(signed, now)] } }
  | approved {grant : ApproveRequest} {approver : DeviceId} {r : RegistrySnapshot} {now : ℕ} :
      S.ClockAt now s → S.Shows r s → S.checkGrant ⟨grant, approver, none⟩ r now = .ok () →
      S.Endorsed grant approver r now s → s.db.pendingEntitlements.lookup grant.pendingId = none →
      Move A s { s with
        db := saveRow ⟨grant, approver, none⟩ s.db
        journal := { s.journal with
          approvals := s.journal.approvals ++ [⟨grant, approver, r, now, s.db.observed⟩] } }
  | approvedAgain {grant : ApproveRequest} {approver : DeviceId} {r : RegistrySnapshot}
      {now : ℕ} :
      S.ClockAt now s → S.Shows r s → S.checkGrant ⟨grant, approver, none⟩ r now = .ok () →
      S.Endorsed grant approver r now s →
      Move A s { s with
        journal := { s.journal with
          approvals := s.journal.approvals ++ [⟨grant, approver, r, now, s.db.observed⟩] } }
  | issued {challengeId pendingId : RequestId} {e : Entitlement}
      {now expires : ℕ} {proof : PendingWgChallenge S.exchange}
      {privateKey : Except Error S.exchange.Private} {nonce : Except Error RequestId} :
      S.ClockAt now s → S.Granted pendingId e now s → expires ≤ e.grant.expiresAt →
      WgChallenge.begin S.crypto S.exchange e.grant.request S.config.network.id now expires
        privateKey nonce = .ok proof →
      Move A s { s with
        challenges := s.challenges.insert challengeId
          ⟨pendingId, expires, proof, s.journal.issued.length⟩
        journal := { s.journal with
          issued := s.journal.issued ++ [⟨pendingId, expires, proof, s.journal.issued.length⟩] } }
  | taken {challengeId pendingId : RequestId}
      {c : ChallengeState S.exchange} {e : Entitlement} {now : ℕ} :
      S.ClockAt now s → S.Granted pendingId e now s → s.challenges.lookup challengeId = some c →
      c.pendingId = pendingId →
      Move A s { s with
        challenges := s.challenges.erase challengeId
        journal := { s.journal with
          taken := s.journal.taken ++ [(c, e)], answering := some (c, e) } }
  | journaled {pendingId : RequestId} {e : Entitlement} {now : ℕ}
      {c : ChallengeState S.exchange} {proof : WgProof} {r : RegistrySnapshot}
      {verified : VerifiedEnrollment} {candidate : Member} :
      S.ClockAt now s → S.Granted pendingId e now s → s.journal.answering = some (c, e) →
      c.proof.verify S.exchange proof now = .ok verified →
      S.planCandidate e verified r now = .ok candidate →
      Move A s { s with db := saveRow { e with candidate := some candidate } s.db }
  | admitted {a : Admission S.exchange} :
      a.signed ∈ A → S.Justified a s →
      Move A s { s with
        journal := { s.journal with
          answering := none, admissions := s.journal.admissions ++ [a] } }
  | denied {r : Revocation} :
      s.db.observed.revocations.lookup r.id = some r →
      Move A s { s with journal := { s.journal with denials := s.journal.denials ++ [r] } }

abbrev Moves (A : Set SignedRequest) : S.State → S.State → Prop :=
  Relation.ReflTransGen (S.Move A)

abbrev Goes (A : Set SignedRequest) {α : Type} (P : S.State → Prop) (m : S.Prog α)
    (Q : α → S.State → Prop) : Prop :=
  Leads World.state (S.Move A) P m Q

variable {S} {A : Set SignedRequest} {P : S.State → Prop} {now : ℕ} {r u : RegistrySnapshot}
  {s s' : S.State} {signed : SignedRequest} {e : Entitlement} {pendingId : RequestId}

variable {α : Type} {Q : α → S.State → Prop}
section
theorem goes_ask (f : Ω → α × Ω) : S.Goes A P (S.ask f) fun _ => P := fun _ _ hw => hw

theorem goes_call (f : Ω → Except RuntimeError α × Ω) : S.Goes A P (S.call f) fun _ => P :=
  (goes_ask f).bind fun x => by
    cases x with
    | ok => exact .pure fun _ h => h
    | error => exact fun _ _ hs => hs.1

variable {f : S.State → Except RuntimeError (α × S.State)}
theorem goes_update (h : ∀ s a s', P s → f s = .ok (a, s') → S.Moves A s s' ∧ Q a s') :
    S.Goes A P (S.update f) Q := by
  intro s₀ w hw
  unfold update
  cases hf : f w.state with
  | ok result =>
    obtain ⟨a, s⟩ := result
    obtain ⟨hmoves, hQ⟩ := h w.state a s hw.2 hf
    exact ⟨hw.1.trans hmoves, hQ⟩
  | error => exact hw.1

theorem goes_commit (h : ∀ s a s', P s → f s = .ok (a, s') → S.Moves A s s' ∧ Q a s') :
    S.Goes A P (S.commit f) Q :=
  (goes_ask _).bind fun _ => .passed fun _ =>
    goes_update fun s a s' hs => h s a s' hs.1

theorem map_eq_ok {β γ : Type} {x : Except RuntimeError β} {g : β → γ} {c : γ}
    (h : x.map g = .ok c) : ∃ b, x = .ok b ∧ g b = c := by
  cases x with
  | error => cases h
  | ok b => exact ⟨b, rfl, Except.ok.inj h⟩

theorem goes_transaction {f : Database → Except RuntimeError (α × Database)}
    (h : ∀ s a db, P s → f s.db = .ok (a, db) → S.Moves A s { s with db } ∧ Q a { s with db }) :
    S.Goes A P (S.transaction f) Q := by
  refine goes_commit fun s a s' hs hf => ?_
  obtain ⟨⟨b, db⟩, hdb, heq⟩ := map_eq_ok hf
  obtain ⟨rfl, rfl⟩ := Prod.mk.inj heq
  exact h s b db hs hdb

theorem goes_query (f : Database → α) : S.Goes A P (S.query f) fun a s => P s ∧ a = f s.db := by
  refine goes_transaction fun s a db hs hf => ?_
  obtain ⟨rfl, rfl⟩ := ok_pair_inj hf
  exact ⟨.refl, hs, rfl⟩

theorem goes_record {f : S.State → Journal S.exchange} {Q : S.State → Prop}
    (h : ∀ s, P s → S.Moves A s { s with journal := f s } ∧ Q { s with journal := f s }) :
    S.Goes A P (S.record f) fun _ => Q := by
  refine goes_update fun s a s' hs hf => ?_
  obtain ⟨rfl, rfl⟩ := ok_pair_inj hf
  exact h s hs

theorem goes_challenges :
    S.Goes A P S.challenges fun challenges s => P s ∧ challenges = s.challenges := by
  refine goes_update fun s a s' hs hf => ?_
  obtain ⟨rfl, rfl⟩ := ok_pair_inj hf
  exact ⟨.refl, hs, rfl⟩

theorem goes_setChallenges {f : AList (fun _ : RequestId => ChallengeState S.exchange) →
      AList (fun _ : RequestId => ChallengeState S.exchange)} {Q : S.State → Prop}
    (hf : ∀ challenges id c, (f challenges).lookup id = some c → challenges.lookup id = some c)
    (h : ∀ s, P s → Q { s with challenges := f s.challenges }) :
    S.Goes A P (S.setChallenges f) fun _ => Q := by
  refine goes_update fun s a s' hs heq => ?_
  obtain ⟨rfl, rfl⟩ := ok_pair_inj heq
  exact ⟨.single (.forgotten (hf s.challenges)), h s hs⟩
end

theorem sqlTime_eq_ok {t t' : ℕ} (h : sqlTime t = .ok t') : t = t' := by
  unfold sqlTime at h
  exact Except.ok.inj (check_eq_ok h).2

theorem goes_latch (operation : RegistryOperation) (e : RuntimeError) :
    S.Goes A (fun _ => True) (S.latch operation e) fun _ _ => True := by
  unfold latch
  split
  · refine goes_transaction fun s a db _ hf => ?_
    obtain ⟨_, rfl⟩ := ok_pair_inj hf
    exact ⟨.single .failed, trivial⟩
  · exact .pure fun _ _ => trivial

theorem goes_withRegistry {action : S.Prog α} (operation : RegistryOperation)
    (h : S.Goes A P action Q) :
    S.Goes A P (S.withRegistry operation action) Q := by
  refine (goes_query _).bind fun failed => .passed fun _ => ?_
  have haction : S.Goes A (fun s => (P s ∧ failed = s.db.registryFailure) ∧ ¬failed = true)
      action Q :=
    h.mono (fun _ hs => hs.1.1) fun _ _ hq => hq
  exact haction.onError (goes_latch operation)

def Observing (P : S.State → Prop) (r u : RegistrySnapshot)
    (s : S.State) : Prop :=
  ∃ s₀, P s₀ ∧ S.observeTransaction r s₀.db = .ok (u, s.db) ∧ s = { s₀ with db := s.db }

theorem goes_observe (r : RegistrySnapshot) : S.Goes A P (S.observe r) fun u s =>
      ∃ bounded, boundProjection S.json r = .ok bounded ∧ Observing P bounded u s := by
  refine .checked fun bounded => .checked fun _ => ?_
  refine goes_transaction fun s u db hs hf => ⟨.single (.observed hf), bounded, hs.1.2, ?_⟩
  exact ⟨s, hs.1.1, hf, rfl⟩

theorem goes_snapshot : S.Goes A P S.snapshot fun u s => ∃ r, Observing P r u s := by
  refine goes_withRegistry _ ((goes_call _).bind fun r => ?_)
  exact (goes_observe r).mono (fun _ h => h) fun u s ⟨bounded, _, h⟩ => ⟨bounded, h⟩

theorem goes_advanceClock (now : ℕ) : S.Goes A P (S.advanceClock now) fun _ => S.ClockAt now := by
  refine .checked fun now' => goes_transaction fun s a db hs hf => ?_
  obtain rfl := sqlTime_eq_ok hs.2
  cases hidentity : s.db.identity with
  | none =>
    rw [hidentity] at hf
    cases hf
  | some identity =>
    simp only [hidentity] at hf
    split at hf
    · rename_i hle
      obtain ⟨_, rfl⟩ := ok_pair_inj hf
      exact ⟨.single (.ticked hidentity hle), _, rfl, rfl⟩
    · cases hf

structure ObservedLe (o o' : Observed) : Prop where
  members : ∀ k m, o.members.lookup k = some m → o'.members.lookup k = some m
  revocations : ∀ k r, o.revocations.lookup k = some r → o'.revocations.lookup k = some r

theorem ObservedLe.refl (o : Observed) : ObservedLe o o := ⟨fun _ _ h => h, fun _ _ h => h⟩

theorem ObservedLe.trans {o o' o'' : Observed} (h : ObservedLe o o') (h' : ObservedLe o' o'') :
    ObservedLe o o'' :=
  ⟨fun k m hm => h'.members k m (h.members k m hm),
    fun k r hr => h'.revocations k r (h.revocations k r hr)⟩

theorem foldlM_observeRecord {κ τ : Type} [DecidableEq κ] [DecidableEq τ] {key : τ → κ}
    {records : List τ} {seen seen' : AList (fun _ : κ => τ)}
    (h : records.foldlM (observeRecord key) seen = .ok seen') :
    (∀ k v, seen.lookup k = some v → seen'.lookup k = some v) ∧
      ∀ x ∈ records, seen'.lookup (key x) = some x := by
  refine foldlM_invariant h (I := fun done seen' =>
    (∀ k v, seen.lookup k = some v → seen'.lookup k = some v) ∧
      ∀ x ∈ done, seen'.lookup (key x) = some x) ?_ ?_
  · exact ⟨fun k v hk => hk, nofun⟩
  · intro _ record t t' _ hdone hok
    -- a record is the one that was there, or its key was free
    have hkept : (∀ k v, t.lookup k = some v → t'.lookup k = some v) ∧
        t'.lookup (key record) = some record := by
      unfold observeRecord at hok
      cases hold : t.lookup (key record) with
      | some =>
        simp only [hold] at hok
        obtain ⟨heq, hok⟩ := check_eq_ok hok
        cases hok
        rw [not_not] at heq
        exact ⟨fun k v hk => hk, heq ▸ hold⟩
      | none =>
        simp only [hold] at hok
        cases hok
        refine ⟨fun k v hk => ?_, AList.lookup_insert _⟩
        have hne : k ≠ key record := by
          rintro rfl
          rw [hold] at hk
          cases hk
        rw [AList.lookup_insert_ne hne]
        exact hk
    exact ⟨fun k v hk => hkept.1 k v (hdone.1 k v hk),
      forall_concat (fun x hx => hkept.1 _ _ (hdone.2 x hx)) hkept.2⟩

theorem add_eq_ok {o o' : Observed} (h : o.add r = .ok o') :
    ObservedLe o o' ∧ (∀ m ∈ r.members, o'.members.lookup m.deviceId = some m) ∧
      ∀ d ∈ r.revocations, o'.revocations.lookup d.id = some d := by
  obtain ⟨_, hmembers, h⟩ := bind_eq_ok h
  obtain ⟨_, hrevocations, h⟩ := bind_eq_ok h
  cases h
  obtain ⟨hkept, hnew⟩ := foldlM_observeRecord hmembers
  obtain ⟨hkept', hnew'⟩ := foldlM_observeRecord hrevocations
  exact ⟨⟨hkept, hkept'⟩, hnew, hnew'⟩

theorem boundProjection_eq_ok {J : Json} {bounded : RegistrySnapshot}
    (h : boundProjection J r = .ok bounded) :
    bounded.network = r.network ∧ bounded.members = r.members ∧
      bounded.revocations = r.revocations := by
  obtain ⟨_, h⟩ := check_eq_ok h
  obtain ⟨_, _, h⟩ := bind_eq_ok h
  cases h
  exact ⟨rfl, rfl, rfl⟩

theorem ofDomain_eq_ok {x : Except Error α} {a : α} (h : ofDomain x = .ok a) :
    x = .ok a := by
  cases x with
  | error => cases h
  | ok => exact congrArg Except.ok (Except.ok.inj h)

theorem validateSnapshot_eq_ok {C : Crypto} {J : Json} {network : NetworkDescriptor}
    (h : validateSnapshot C J r network = .ok ()) : r.network = network ∧ Valid C r := by
  obtain ⟨hnetwork, h⟩ := check_eq_ok h
  obtain ⟨_, h⟩ := check_eq_ok h
  obtain ⟨_, _, h⟩ := bind_eq_ok h
  exact ⟨not_not.mp hnetwork, validate_eq_ok_iff.mp (ofDomain_eq_ok h)⟩

variable {db db' : Database}
theorem observeTransaction_eq_ok (h : S.observeTransaction r db = .ok (u, db')) :
    ∃ observed, db' = { db with observed } ∧ db.observed.add r = .ok observed ∧
      u.network = S.config.network ∧ u.members = observed.memberList ∧
      u.revocations = observed.revocationList ∧ Valid S.crypto u := by
  obtain ⟨observed, hadd, h⟩ := bind_eq_ok h
  obtain ⟨_, hread, h⟩ := bind_eq_ok h
  obtain ⟨_, hbound, h⟩ := bind_eq_ok h
  obtain ⟨_, hvalid, h⟩ := bind_eq_ok h
  obtain ⟨rfl, rfl⟩ := ok_pair_inj h
  obtain ⟨_, hread⟩ := check_eq_ok hread
  cases hread
  obtain ⟨_, hmembers, hrevocations⟩ := boundProjection_eq_ok hbound
  obtain ⟨hnetwork, hvalid⟩ := validateSnapshot_eq_ok hvalid
  exact ⟨observed, rfl, hadd, hnetwork, hmembers, hrevocations, hvalid⟩

theorem ClockAt.of_eq (h : S.ClockAt now s) (hdb : s'.db.identity = s.db.identity) :
    S.ClockAt now s' := by
  obtain ⟨identity, hidentity, htime⟩ := h
  exact ⟨identity, hdb.trans hidentity, htime⟩

theorem Shows.of_eq (h : S.Shows r s) (hdb : s'.db.observed = s.db.observed) : S.Shows r s' := by
  refine ⟨h.network, ?_, ?_, h.valid⟩
  · rw [hdb]
    exact h.members
  · rw [hdb]
    exact h.revocations

theorem Observing.shows (h : Observing P r u s) : S.Shows u s := by
  obtain ⟨_, _, hok, _⟩ := h
  obtain ⟨_, hdb, _, hnetwork, hmembers, hrevocations, hvalid⟩ := observeTransaction_eq_ok hok
  refine ⟨hnetwork, ?_, ?_, hvalid⟩
  · rw [hdb]
    exact hmembers
  · rw [hdb]
    exact hrevocations

theorem Observing.clock (h : Observing (S.ClockAt now) r u s) : S.ClockAt now s := by
  obtain ⟨_, hclock, hok, _⟩ := h
  obtain ⟨_, hdb, _⟩ := observeTransaction_eq_ok hok
  apply hclock.of_eq
  rw [hdb]

def withNonce (signed : SignedRequest) (now : ℕ) (db : Database) : Database :=
  let row : NonceRow :=
    ⟨signed.signer, signed.nonce, signed.timestamp + S.config.limits.authWindowSeconds⟩
  { db with
    consumedNonces := liveNonces db.consumedNonces now ++
      if signed.request.isRevoke then [] else [row]
    revocationNonces := liveNonces db.revocationNonces now ++
      if signed.request.isRevoke then [row] else []
    pendingEntitlements := retain (fun _ row => now < row.1) db.pendingEntitlements }

def nonceTable (signed : SignedRequest) (db : Database) : List NonceRow :=
  if signed.request.isRevoke then db.revocationNonces else db.consumedNonces

theorem liveNonces_nonceTable (signed : SignedRequest) (db : Database) (now : ℕ) :
    liveNonces (nonceTable signed db) now =
      if signed.request.isRevoke then liveNonces db.revocationNonces now
      else liveNonces db.consumedNonces now := by
  unfold nonceTable
  split <;> rfl

/-- No request of the signer with the nonce is remembered. -/
def Unseen (signed : SignedRequest) (now : ℕ) (db : Database) : Prop :=
  ∀ row ∈ liveNonces db.consumedNonces now ++ liveNonces db.revocationNonces now,
    ¬(row.signer = signed.signer ∧ row.nonce = signed.nonce)

theorem consumeTransaction_eq_ok (h : S.consumeTransaction signed now db = .ok ((), db')) :
    Unseen signed now db ∧
    (liveNonces (nonceTable signed db) now).length < S.config.limits.maxReplays ∧
    (liveNonces (nonceTable signed db) now).countP (fun row => row.signer = signed.signer) <
      S.principalLimit ∧ db' = withNonce (S := S) signed now db := by
  unfold consumeTransaction at h
  obtain ⟨_, hnow, h⟩ := bind_eq_ok h
  obtain rfl := sqlTime_eq_ok hnow
  obtain ⟨hfresh, h⟩ := check_eq_ok h
  obtain ⟨hroom, h⟩ := check_eq_ok h
  obtain ⟨_, hexpires, h⟩ := bind_eq_ok h
  obtain rfl := sqlTime_eq_ok hexpires
  obtain ⟨_, rfl⟩ := ok_pair_inj h
  rw [liveNonces_nonceTable]
  simp only [not_or, not_le] at hroom
  refine ⟨fun row hrow hsame => hfresh ?_, hroom.1, hroom.2, ?_⟩
  · exact any_eq_true.mpr ⟨row, hrow, by simp [hsame.1, hsame.2]⟩
  · unfold withNonce
    cases signed.request.isRevoke <;> simp

theorem goes_consumeNonce {method path : String} (hA : signed ∈ A)
    (haddressed : S.Addressed signed method path now) (hP : ∀ s, P s → S.ClockAt now s) :
    S.Goes A P (S.consumeNonce signed now) fun _ s => ∃ s₀, P s₀ ∧
      s.db = withNonce (S := S) signed now s₀.db ∧ (signed, now) ∈ s.journal.consumed := by
  refine goes_commit fun s a s' hs hf => ?_
  obtain ⟨⟨_, _⟩, hdb, heq⟩ := map_eq_ok hf
  obtain ⟨rfl, rfl⟩ := Prod.mk.inj heq
  refine ⟨.single (.consumed hA haddressed (hP s hs) hdb), s, hs,
    (consumeTransaction_eq_ok hdb).2.2.2, ?_⟩
  exact mem_concat_self

theorem goes_pending (pendingId : RequestId) (now : ℕ) :
    S.Goes A P (S.pending pendingId now) fun e s => P s ∧ S.Granted pendingId e now s := by
  refine .checked fun now' => (goes_query _).bind fun row => ?_
  refine .checked fun found => ?_
  refine .passed fun _ => .pure fun s hs => ?_
  obtain ⟨⟨⟨⟨hP, hnow⟩, hrow⟩, hfound⟩, _⟩ := hs
  obtain rfl := sqlTime_eq_ok hnow
  obtain rfl := elim_eq_ok hfound
  obtain ⟨hlookup, hlive⟩ := Option.filter_eq_some_iff.mp hrow.symm
  exact ⟨hP, found.1, hlookup, of_decide_eq_true hlive⟩

def Applies (S : Server Ω) (signed : SignedRequest) (e : Entitlement) (now : ℕ)
    (s : S.State) : Prop :=
  ∃ pendingId, (signed.request = .begin pendingId ∨
      ∃ challengeId proof, signed.request = .complete pendingId challengeId proof) ∧
    S.Granted pendingId e now s ∧
    signed.verify S.crypto S.json e.grant.request.sshPublicKey = .ok ()

theorem goes_applicant (pendingId : RequestId) (signed : SignedRequest) (now : ℕ) :
    S.Goes A P (S.applicant pendingId signed now) fun e s => P s ∧ S.Granted pendingId e now s ∧
      signed.verify S.crypto S.json e.grant.request.sshPublicKey = .ok () := by
  refine (goes_pending pendingId now).bind fun e => .checked fun id => ?_
  refine .passed fun _ => .checked fun _ => .pure fun s hs => ?_
  obtain ⟨⟨⟨⟨hP, hgranted⟩, _⟩, _⟩, hverify⟩ := hs
  exact ⟨hP, hgranted, hverify⟩

def Authenticated (S : Server Ω) (signed : SignedRequest) (o : Option Entitlement)
    (r : RegistrySnapshot) (now : ℕ) (s : S.State) : Prop :=
  match o with
  | some e => S.Applies signed e now s
  | none => S.checkSigner signed r now = .ok ()

theorem goes_authenticate (signed : SignedRequest) (r : RegistrySnapshot) (now : ℕ) :
    S.Goes A P (S.authenticate signed r now) fun o s => P s ∧ S.Authenticated signed o r now s := by
  unfold authenticate
  split
  · rename_i pendingId hrequest
    refine (goes_applicant pendingId signed now).map fun e s hs => ⟨hs.1, ?_⟩
    exact ⟨pendingId, .inl hrequest, hs.2⟩
  · rename_i pendingId challengeId proof hrequest
    refine (goes_applicant pendingId signed now).map fun e s hs => ⟨hs.1, ?_⟩
    exact ⟨pendingId, .inr ⟨challengeId, proof, hrequest⟩, hs.2⟩
  · exact .checked fun _ => .pure fun s hs => hs

variable {s₀ : S.State}
theorem Granted.withNonce (h : S.Granted pendingId e now s₀)
    (hdb : s.db = withNonce (S := S) signed now s₀.db) : S.Granted pendingId e now s := by
  obtain ⟨expires, hlookup, hlive⟩ := h
  refine ⟨expires, ?_, hlive⟩
  rw [hdb]
  exact lookup_retain.mpr ⟨hlookup, decide_eq_true hlive⟩

theorem Authenticated.of_granted {o : Option Entitlement} (h : S.Authenticated signed o r now s₀)
    (hgranted : ∀ id e, S.Granted id e now s₀ → S.Granted id e now s) :
    S.Authenticated signed o r now s := by
  cases o with
  | none => exact h
  | some e =>
    obtain ⟨id, hstep, hrow, hverify⟩ := h
    exact ⟨id, hstep, hgranted id e hrow, hverify⟩

def Serving (S : Server Ω) (now : ℕ) (r : RegistrySnapshot) (s : S.State) : Prop :=
  S.ClockAt now s ∧ S.Shows r s

theorem snapshot_of_activeProfile {profile : NetworkPublicProfile}
    (h : S.activeProfile e r now = .ok (some profile)) : profile.snapshot = r := by
  unfold activeProfile at h
  split at h
  · cases h
  split at h
  · cases h
  obtain ⟨_, h⟩ := check_eq_ok h
  obtain ⟨_, _, h⟩ := bind_eq_ok h
  obtain ⟨_, h⟩ := check_eq_ok h
  obtain ⟨_, _, h⟩ := bind_eq_ok h
  rw [← Option.some.inj (Except.ok.inj h)]

theorem goes_approvePending (grant : ApproveRequest) (approver : DeviceId) (r : RegistrySnapshot)
    (now : ℕ) : S.Goes A (fun s => S.Serving now r s ∧ S.Endorsed grant approver r now s)
      (S.approvePending grant approver r now) fun answer _ => ∀ u ∈ answer.snapshots, u = r := by
  unfold approvePending
  refine .checked fun _ => .passed fun _ => ?_
  refine .checked fun pins => .passed fun _ => ?_
  refine (goes_query _).bind fun existing => ?_
  have hanswer (P : S.State → Prop) (pins : List (DeviceId × ServerInfo)) :
      S.Goes A P (pure (RpcResponse.pending ⟨grant.request, grant.pendingId, S.config.serverId,
        grant.expiresAt, pins, r⟩)) fun answer _ => ∀ u ∈ answer.snapshots, u = r := by
    refine .pure fun s _ u hu => ?_
    exact mem_singleton.mp hu
  cases existing with
  | some =>
    refine .checked fun _ => .bind (Q := fun _ _ => True) ?_ fun _ => hanswer _ _
    refine goes_record fun s hs => ⟨.single ?_, trivial⟩
    obtain ⟨⟨⟨⟨⟨⟨hs, hgrant⟩, _⟩, _⟩, _⟩, _⟩, _⟩ := hs
    exact .approvedAgain hs.1.1 hs.1.2 hgrant hs.2
  | none =>
    refine (goes_query _).bind fun count => .passed fun _ => ?_
    refine .bind (Q := fun _ _ => True) ?_ fun _ => hanswer _ _
    refine .passed fun _ => .checked fun _ => ?_
    refine goes_commit fun s a s' hs hf => ?_
    obtain ⟨_, rfl⟩ := ok_pair_inj hf
    obtain ⟨⟨⟨⟨⟨⟨⟨⟨⟨hs, hgrant⟩, _⟩, _⟩, _⟩, hnone⟩, _⟩, _⟩, _⟩, _⟩ := hs
    exact ⟨.single (.approved hs.1.1 hs.1.2 hgrant hs.2 hnone.symm), trivial⟩

theorem goes_begin (pendingId : RequestId) (e : Entitlement) (r : RegistrySnapshot) (now : ℕ) :
    S.Goes A (fun s => S.ClockAt now s ∧ S.Granted pendingId e now s) (S.begin pendingId e r now)
      fun answer _ => ∀ u ∈ answer.snapshots, u = r := by
  unfold begin
  refine .checked fun _ => .checked fun profile => ?_
  cases profile with
  | some =>
    refine .pure fun s hs u hu => ?_
    rw [mem_singleton.mp hu]
    exact snapshot_of_activeProfile hs.2
  | none =>
    have hkept (challenges : AList (fun _ : RequestId => ChallengeState S.exchange))
        (id : RequestId) (c : ChallengeState S.exchange)
        (h : (retain (fun _ state => state.pendingId ≠ pendingId) challenges).lookup id = some c) :
        challenges.lookup id = some c := (lookup_retain.mp h).1
    refine .bind (Q := fun _ s => S.ClockAt now s ∧ S.Granted pendingId e now s)
      (goes_setChallenges hkept fun s hs => ?_) fun _ => ?_
    · obtain ⟨⟨⟨hclock, hgranted⟩, _⟩, _⟩ := hs
      exact ⟨hclock, hgranted⟩
    refine goes_challenges.bind fun _ => .passed fun _ => (goes_ask _).bind fun key => ?_
    refine (goes_ask _).bind fun nonce => .checked fun proof => ?_
    refine (goes_ask _).bind fun drawn => .checked fun challengeId => ?_
    refine .bind (Q := fun _ _ => True) (goes_update fun s a s' hs hf => ?_) fun _ => ?_
    · obtain ⟨_, rfl⟩ := ok_pair_inj hf
      obtain ⟨⟨⟨⟨⟨hclock, hgranted⟩, _⟩, _⟩, hbegin⟩, _⟩ := hs
      refine ⟨.single (.issued hclock hgranted (min_le_right _ _) (ofDomain_eq_ok hbegin)), trivial⟩
    · exact .pure fun s _ u hu => absurd hu not_mem_nil

theorem goes_takeChallenge (pendingId challengeId : RequestId) (e : Entitlement)
    (x : SignedRequest × ℕ) :
    S.Goes A (fun s => S.Serving now r s ∧ S.Granted pendingId e now s ∧ x ∈ s.journal.consumed)
      (S.takeChallenge pendingId challengeId e) fun c s =>
        S.Serving now r s ∧ S.Granted pendingId e now s ∧ x ∈ s.journal.consumed ∧
          c.pendingId = pendingId ∧ s.journal.answering = some (c, e) := by
  unfold takeChallenge
  refine goes_challenges.bind fun challenges => .checked fun c => ?_
  refine .passed fun _ => goes_update fun s c' s' hs hf => ?_
  obtain ⟨rfl, rfl⟩ := ok_pair_inj hf
  obtain ⟨⟨⟨⟨hserving, hgranted, hx⟩, rfl⟩, hlookup⟩, hpending⟩ := hs
  rw [not_not] at hpending
  exact ⟨.single (.taken hserving.1 hgranted (elim_eq_ok hlookup) hpending),
    ⟨hserving.1, { hserving.2 with }⟩, hgranted, hx, hpending, rfl⟩

theorem lookup_saveRow (e : Entitlement) (db : Database) :
    ∃ expires, (saveRow e db).pendingEntitlements.lookup e.grant.pendingId = some (expires, e) :=
  ⟨_, AList.lookup_insert _⟩

/-- An admission is a move of its own, after its challenge is taken. -/
theorem goes_complete {challengeId : RequestId} {proof : WgProof} (hA : signed ∈ A)
    (hrequest : signed.request = .complete pendingId challengeId proof)
    (hverify : signed.verify S.crypto S.json e.grant.request.sshPublicKey = .ok ()) :
    S.Goes A (fun s => S.Serving now r s ∧ S.Granted pendingId e now s ∧
        (signed, now) ∈ s.journal.consumed)
      (S.complete signed pendingId challengeId proof e r now) fun answer s =>
        ∀ u ∈ answer.snapshots, u = r ∨ S.Shows u s := by
  unfold complete
  refine .checked fun _ => .checked fun profile => ?_
  cases profile with
  | some =>
    refine .pure fun s hs u hu => .inl ?_
    rw [mem_singleton.mp hu]
    exact snapshot_of_activeProfile hs.2
  | none =>
    refine .given (fun _ hs => hs.1.2) fun hgrant => ?_
    have htake : S.Goes A (fun s => S.Serving now r s ∧ S.Granted pendingId e now s ∧
          (signed, now) ∈ s.journal.consumed)
        (S.takeChallenge pendingId challengeId e) _ :=
      goes_takeChallenge pendingId challengeId e (signed, now)
    refine (htake.mono (fun s hs => hs.1.1) fun _ _ h => h).bind fun c => ?_
    refine .checked fun verified => .checked fun candidate => ?_
    -- from here on the record is stored
    refine .bind (Q := fun _ s => S.Serving now r s ∧ (signed, now) ∈ s.journal.consumed ∧
      c.pendingId = pendingId ∧ s.journal.answering = some (c, e) ∧
        ofDomain (c.proof.verify S.exchange proof now) = .ok verified ∧
      S.planCandidate e verified r now = .ok candidate ∧
      ∃ expires, s.db.pendingEntitlements.lookup e.grant.pendingId =
        some (expires, { e with candidate := some candidate })) ?_ fun _ => ?_
    · refine .passed fun _ => .checked fun _ => ?_
      refine goes_commit fun s a s' hs hf => ?_
      obtain ⟨_, rfl⟩ := ok_pair_inj hf
      obtain ⟨⟨⟨⟨⟨hserving, hgranted, hx, hc, htaken⟩, hproof⟩, hplan⟩, _⟩, _⟩ := hs
      refine ⟨.single (.journaled hserving.1 hgranted htaken (ofDomain_eq_ok hproof) hplan),
        ⟨hserving.1, { hserving.2 with }⟩, hx, hc, htaken, hproof, hplan, ?_⟩
      exact lookup_saveRow { e with candidate := some candidate } s.db
    refine .bind (Q := fun _ _ => True) (goes_withRegistry _ ?_) fun _ => ?_
    · refine .bind (Q := fun _ _ => True) (goes_record fun s hs => ⟨.single ?_, trivial⟩)
        fun _ => goes_call _
      obtain ⟨hserving, hx, hc, htaken, hproof, hplan, hstored⟩ := hs
      refine .admitted hA ⟨hx, hserving.1, hserving.2, ⟨challengeId, hrequest⟩, ?_, rfl, rfl⟩
      exact ⟨e, verified, hgrant, hverify, hc, htaken, ofDomain_eq_ok hproof, hplan, rfl, hstored⟩
    refine goes_snapshot.bind fun updated => .checked fun _ => ?_
    refine .checked fun _ => .checked fun active => ?_
    refine .checked fun profile => .pure fun s hs u hu => .inr ?_
    obtain ⟨⟨⟨⟨⟨_, hobserving⟩, _⟩, _⟩, hactive⟩, hprofile⟩ := hs
    rw [mem_singleton.mp hu]
    obtain rfl := elim_eq_ok hprofile
    rw [snapshot_of_activeProfile hactive]
    exact hobserving.shows

theorem goes_appendRevocation (d : Revocation) :
    S.Goes A (fun s => s.db.observed.revocations.lookup d.id = some d) (S.appendRevocation d)
      fun _ _ => True :=
  .bind (Q := fun _ _ => True) (goes_record fun _ hs => ⟨.single (.denied hs), trivial⟩)
    fun _ => goes_call _

theorem goes_republishRevocation (id : RevocationId) :
    S.Goes A P (S.republishRevocation id) fun _ _ => True := by
  unfold republishRevocation
  refine goes_withRegistry _ ((goes_query _).bind fun row => .checked fun d => ?_)
  refine .passed fun _ => .passed fun _ => ?_
  refine .bind (Q := fun _ _ => True) ?_ fun _ => .pure fun _ _ => trivial
  refine (goes_appendRevocation d).mono (fun s hs => ?_) fun _ _ _ => trivial
  obtain ⟨⟨⟨⟨_, rfl⟩, hfound⟩, _⟩, hid⟩ := hs
  rw [not_not.mp hid]
  exact elim_eq_ok hfound

theorem goes_revoke (id : RevocationId) (signer target : DeviceId) :
    S.Goes A P (S.revoke id signer target r now) fun answer _ => answer.snapshots = [] := by
  unfold revoke
  refine .checked fun d => ?_
  refine .bind (Q := fun _ _ => True) (goes_withRegistry _ ?_)
    fun _ => .pure fun _ _ => rfl
  refine (goes_observe _).bind fun u => ?_
  refine (goes_appendRevocation d).mono (fun s hs => ?_) fun _ _ h => h
  obtain ⟨_, hbounded, _, _, hok, _⟩ := hs
  obtain ⟨_, hdb, hadd, _⟩ := observeTransaction_eq_ok hok
  rw [hdb]
  refine (add_eq_ok hadd).2.2 d ?_
  rw [(boundProjection_eq_ok hbounded).2.2]
  split
  · assumption
  · exact mem_append_right _ (mem_singleton_self d)

def Since (S : Server Ω) (A : Set SignedRequest) (s₀ : S.State)
    (u : RegistrySnapshot) (s : S.State) : Prop :=
  ∃ s₁, S.Moves A s₀ s₁ ∧ S.Shows u s₁ ∧ S.Moves A s₁ s

theorem moves_tail (s s' : S.State) (h : S.Moves A s₀ s) (hstep : S.Move A s s') :
    S.Moves A s₀ s' := h.tail hstep

theorem Since.step (h : S.Since A s₀ u s) (hstep : S.Move A s s') : S.Since A s₀ u s' := by
  obtain ⟨s₁, hbefore, hshows, hafter⟩ := h
  exact ⟨s₁, hbefore, hshows, hafter.tail hstep⟩

theorem goes_serve (hA : signed ∈ A) (o : Option Entitlement) (r : RegistrySnapshot) (now : ℕ) :
    S.Goes A (fun s => S.Serving now r s ∧ (signed, now) ∈ s.journal.consumed ∧
        S.Authenticated signed o r now s)
      (S.serve signed o r now) fun answer s => ∀ u ∈ answer.snapshots, u = r ∨ S.Shows u s := by
  unfold serve
  split
  · refine .checked fun _ => .checked fun _ => ?_
    exact .pure fun s _ u hu => absurd hu not_mem_nil
  · exact .pure fun s _ u hu => .inl (mem_singleton.mp hu)
  · rename_i grant hrequest
    refine (goes_approvePending grant signed.signer r now).mono (fun s hs => ⟨hs.1, ?_⟩)
      fun _ _ h u hu => .inl (h u hu)
    obtain ⟨_, hx, hauthenticated⟩ := hs
    cases o with
    | none => exact ⟨signed, hx, hrequest, rfl, hauthenticated⟩
    | some =>
      obtain ⟨_, hbegin | ⟨_, _, hcomplete⟩, _⟩ := hauthenticated
      · cases hrequest.symm.trans hbegin
      · cases hrequest.symm.trans hcomplete
  · rename_i pendingId hrequest
    refine .checked fun e => ?_
    refine .given (p := o = some e) (fun _ hs => elim_eq_ok hs.2) fun ho => ?_
    obtain rfl := ho
    refine (goes_begin pendingId e r now).mono (fun s hs => ?_) fun _ _ h u hu => .inl (h u hu)
    obtain ⟨⟨hserving, _, _, hstep, hgranted, _⟩, _⟩ := hs
    rw [hrequest] at hstep
    obtain hbegin | ⟨_, _, hcomplete⟩ := hstep
    · obtain rfl := RpcRequest.begin.inj hbegin
      exact ⟨hserving.1, hgranted⟩
    · cases hcomplete
  · rename_i pendingId challengeId proof hrequest
    refine .checked fun e => ?_
    refine .given (p := o = some e) (fun _ hs => elim_eq_ok hs.2) fun ho => ?_
    obtain rfl := ho
    refine .given (fun _ hs => hs.1.2.2.choose_spec.2.2) fun hverify => ?_
    refine (goes_complete hA hrequest hverify).mono (fun s hs => ?_) fun _ _ h => h
    obtain ⟨⟨hserving, hx, _, hstep, hgranted, _⟩, _⟩ := hs
    rw [hrequest] at hstep
    obtain hbegin | ⟨_, _, hcomplete⟩ := hstep
    · cases hbegin
    · obtain ⟨rfl, _⟩ := RpcRequest.complete.inj hcomplete
      exact ⟨hserving, hgranted, hx⟩
  · refine (goes_revoke _ _ _).mono (fun _ _ => trivial) fun answer _ h u hu => ?_
    rw [h] at hu
    exact absurd hu not_mem_nil

theorem goes_handle (hA : signed ∈ A) (method path : String) (now : ℕ) (s₀ : S.State) :
    S.Goes A (fun s => S.Moves A s₀ s) (S.handle signed method path now) fun answer s =>
      ∀ u ∈ answer.snapshots, S.Since A s₀ u s := by
  unfold handle
  refine .checked fun _ => .passed fun _ => ?_
  refine .given (fun _ hs => not_not.mp hs.2) fun haddressed => ?_
  refine (((goes_advanceClock now).keep moves_tail).mono (fun s hs => ⟨hs.1.1, hs⟩)
    fun _ _ h => h).bind fun _ => ?_
  refine .bind (Q := fun r s => S.Since A s₀ r s ∧ S.Moves A s₀ s ∧ S.Serving now r s)
    ((goes_snapshot.keep moves_tail).mono (fun s hs => hs) fun r s hs => ?_) fun r => ?_
  · obtain ⟨hmoved, _, hobserving⟩ := hs
    exact ⟨⟨s, hmoved, hobserving.shows, .refl⟩, hmoved, hobserving.clock, hobserving.shows⟩
  have hsince (s s' : S.State) (h : S.Since A s₀ r s ∧ S.Moves A s₀ s)
      (hstep : S.Move A s s') : S.Since A s₀ r s' ∧ S.Moves A s₀ s' :=
    ⟨h.1.step hstep, h.2.tail hstep⟩
  split
  · refine .checked fun _ => ?_
    refine .bind (Q := fun _ _ => True)
      ((goes_consumeNonce hA haddressed fun s hs => hs.1.2.2.1).mono (fun _ h => h)
        fun _ _ _ => trivial) fun _ => ?_
    refine (goes_republishRevocation _).bind fun d => .pure fun s _ u hu => ?_
    exact absurd hu not_mem_nil
  · refine .checked fun _ => ?_
    refine (goes_authenticate signed r now).bind fun o => ?_
    have hserved : S.Goes A (fun s => (S.Since A s₀ r s ∧ S.Moves A s₀ s) ∧ S.Serving now r s ∧
          S.Authenticated signed o r now s)
        (do
          S.consumeNonce signed now
          S.setChallenges (retain fun _ challenge => now < challenge.expiresAt)
          S.serve signed o r now)
        fun answer s => (S.Since A s₀ r s ∧ S.Moves A s₀ s) ∧
          ∀ u ∈ answer.snapshots, u = r ∨ S.Shows u s := by
      apply Leads.keep _ hsince
      refine .bind (Q := fun _ s => S.Serving now r s ∧ (signed, now) ∈ s.journal.consumed ∧
          S.Authenticated signed o r now s)
        ((goes_consumeNonce hA haddressed fun s hs => hs.1.1).mono (fun _ h => h)
          fun _ s hs => ?_) fun _ => ?_
      · obtain ⟨_, ⟨hserving, hauthenticated⟩, hdb, hx⟩ := hs
        have hclock := hserving.1.of_eq (congrArg (·.identity) hdb)
        refine ⟨⟨hclock, hserving.2.of_eq (congrArg (·.observed) hdb)⟩, hx, ?_⟩
        exact hauthenticated.of_granted fun _ _ hgranted => hgranted.withNonce hdb
      · refine .bind (Q := fun _ s => S.Serving now r s ∧ (signed, now) ∈ s.journal.consumed ∧
            S.Authenticated signed o r now s)
          (goes_setChallenges (fun _ _ _ h => (lookup_retain.mp h).1) fun s hs => ?_) fun _ => ?_
        · exact ⟨⟨hs.1.1, { hs.1.2 with }⟩, hs.2.1, hs.2.2.of_granted fun _ _ hgranted => hgranted⟩
        · exact goes_serve hA o r now
    refine hserved.mono (fun s hs => ?_) fun answer s hs u hu => ?_
    · obtain ⟨⟨⟨hsince, hmoved, hserving⟩, _⟩, happlies⟩ := hs
      exact ⟨⟨hsince, hmoved⟩, hserving, happlies⟩
    · obtain rfl | hshows := hs.2 u hu
      · exact hs.1.1
      · exact ⟨s, hs.1.2, hshows, .refl⟩

/-- The entry is a member's, with the member's own key. -/
def EntryOf (S : Server Ω) (id : DeviceId) (m : Member) : HostEntry → Prop
  | .peer p => p = S.hostPeer id m
  | .ssh a => a.deviceId = id ∧ some a.user = m.permissions.sshUser ∧
      a.publicKey = m.request.sshPublicKey

def LetsIn (S : Server Ω) (a : Answer) : Prop :=
  ∀ entry ∈ a.entries, ∃ r ∈ a.snapshots, ∃ now effective,
    r.effectiveMembers S.crypto now = .ok effective ∧
      ∃ id m, effective.lookup id = some m ∧ S.EntryOf id m entry

theorem goes_desiredHostState (now : ℕ) (s₀ : S.State) :
    S.Goes A (fun s => S.Moves A s₀ s) (S.desiredHostState now) fun h s =>
      S.Since A s₀ h.snapshot s ∧ S.LetsIn (.host h) := by
  unfold desiredHostState
  refine (((goes_advanceClock now).keep moves_tail).mono (fun s hs => ⟨hs, trivial⟩)
    fun _ _ h => h).bind fun _ => ?_
  refine (goes_snapshot.keep moves_tail).bind fun r => .checked fun effective => ?_
  refine .checked fun privateKey => .checked fun key => ?_
  refine .pure fun s hs => ?_
  obtain ⟨⟨⟨⟨hmoved, _, hobserving⟩, heffective⟩, _⟩, _⟩ := hs
  refine ⟨⟨s, hmoved, hobserving.shows, .refl⟩, fun listed hlisted => ?_⟩
  refine ⟨r, mem_singleton_self r, now, effective, ofDomain_eq_ok heffective, ?_⟩
  obtain hlisted | hlisted := mem_append.mp hlisted
  · obtain ⟨_, hpeer, rfl⟩ := mem_map.mp hlisted
    obtain ⟨entry, hentry, rfl⟩ := mem_map.mp hpeer
    exact ⟨entry.1, entry.2, AList.mem_lookup_iff.mpr (mem_filter.mp hentry).1, rfl⟩
  · obtain ⟨_, hgrant, rfl⟩ := mem_map.mp hlisted
    obtain ⟨entry, hentry, hsome⟩ := mem_filterMap.mp hgrant
    obtain ⟨_, huser, rfl⟩ := Option.map_eq_some_iff.mp hsome
    exact ⟨entry.1, entry.2, AList.mem_lookup_iff.mpr (mem_filter.mp hentry).1, rfl,
      huser.symm, rfl⟩

theorem goes_acknowledgeAll (applied : List Revocation) :
    S.Goes A P (S.acknowledgeAll applied) fun _ _ => True := by
  induction applied generalizing P with
  | nil => exact .pure fun _ _ => trivial
  | cons _ _ ih => exact (goes_withRegistry _ (goes_call _)).bind fun _ => ih

theorem goes_acknowledgeApplied (applied : RegistrySnapshot) :
    S.Goes A P (S.acknowledgeApplied applied) fun _ _ => True := by
  refine .checked fun _ => goes_snapshot.bind fun current => ?_
  exact .passed fun _ => goes_acknowledgeAll _

theorem goes_openRuntime : S.Goes A P S.openRuntime fun _ _ => True := by
  refine .bind (Q := fun _ _ => True)
    (goes_setChallenges (fun _ _ _ h => by cases h) fun _ _ => trivial) fun _ => ?_
  refine .checked fun _ => .checked fun id =>
    .passed fun _ => ?_
  refine .bind (Q := fun _ _ => True)
    (goes_transaction fun s a db _ hf => ⟨.single (.opened hf), trivial⟩) fun _ => ?_
  exact goes_snapshot.bind fun _ => .pure fun _ _ => trivial

/-- Whatever is called, the state goes on by moves, and a snapshot in the answer is of one. -/
theorem goes_perform (call : RuntimeCall) (hA : ∀ signed ∈ call.requests, signed ∈ A)
    (s₀ : S.State) : S.Goes A (fun s => S.Moves A s₀ s) (S.perform call) fun answer s =>
      (∀ u ∈ answer.snapshots, S.Since A s₀ u s) ∧ S.LetsIn answer := by
  have hnone (answer : Answer) (hanswer : answer.entries = []) : S.LetsIn answer := by
    intro entry hentry
    rw [hanswer] at hentry
    exact absurd hentry not_mem_nil
  cases call with
  | openRuntime => exact goes_openRuntime.map fun _ s _ => ⟨nofun, hnone _ rfl⟩
  | snapshot =>
    have hsnapshot : S.Goes A (fun s => S.Moves A s₀ s ∧ True) S.snapshot _ :=
      goes_snapshot.keep moves_tail
    refine (hsnapshot.mono (fun s hs => ⟨hs, trivial⟩) fun _ _ h => h).map fun r s hs => ?_
    obtain ⟨hmoved, _, hobserving⟩ := hs
    refine ⟨fun u hu => ?_, hnone _ rfl⟩
    rw [mem_singleton.mp hu]
    exact ⟨s, hmoved, hobserving.shows, .refl⟩
  | handle signed method path now =>
    exact (goes_handle (hA signed (mem_singleton_self signed)) method path now s₀).map
      fun _ s hs => ⟨hs, hnone _ rfl⟩
  | republishRevocation id =>
    exact (goes_republishRevocation id).map fun _ s _ => ⟨nofun, hnone _ rfl⟩
  | desiredHostState now =>
    refine (goes_desiredHostState now s₀).map fun h s hs => ⟨fun u hu => ?_, hs.2⟩
    rw [mem_singleton.mp hu]
    exact hs.1
  | acknowledgeApplied applied =>
    exact (goes_acknowledgeApplied applied).map fun _ s _ => ⟨nofun, hnone _ rfl⟩

theorem moves_perform (call : RuntimeCall) (hA : ∀ signed ∈ call.requests, signed ∈ A)
    (w : World S.exchange Ω) : S.Moves A w.state (final (S.perform call w)).state :=
  (goes_perform call hA w.state).final .refl

/-- A run of a server is one of moves. -/
theorem moves_after (w : World S.exchange Ω) (calls : List RuntimeCall)
    (hA : ∀ call ∈ calls, ∀ signed ∈ call.requests, signed ∈ A) :
    S.Moves A w.state (S.after w calls).state := by
  induction calls generalizing w with
  | nil => exact .refl
  | cons call _ ih =>
    have hcall := moves_perform call (hA call mem_cons_self) w
    exact hcall.trans (ih _ fun c hc => hA c (mem_cons_of_mem call hc))

end Tako.Network.Server
