import Tako.NetworkMerge
import Tako.NetworkMoves

/-! Nonces: a signed request takes effect once, although its nonce is forgotten when it
has expired, and revocations have room of their own. -/
namespace Tako.Network.Server
open AgreeingMap Effects Fallible List
variable {Ω : Type} {S : Server Ω} {A : Set SignedRequest} {s s' : S.State}
def nonceRow (S : Server Ω) (signed : SignedRequest) : NonceRow :=
  ⟨signed.signer, signed.nonce, signed.timestamp + S.config.limits.authWindowSeconds⟩

structure Roomy (S : Server Ω) (rows : List NonceRow) : Prop where
  all : rows.length ≤ S.config.limits.maxReplays
  signer : ∀ id, rows.countP (fun row => row.signer = id) ≤ S.principalLimit

def Remembered (S : Server Ω) (s : S.State) (c : SignedRequest × ℕ) : Prop :=
  ∃ identity, s.db.identity = some identity ∧ c.2 ≤ identity.lastTime ∧
    absDiff c.1.timestamp c.2 ≤ S.config.limits.authWindowSeconds ∧
    (identity.lastTime ≤ c.1.timestamp + S.config.limits.authWindowSeconds →
      S.nonceRow c.1 ∈ s.db.consumedNonces ++ s.db.revocationNonces)

/-- The later of two requests with one nonce came when the earlier had expired. -/
def Apart (S : Server Ω) (a b : SignedRequest × ℕ) : Prop :=
  a.1.signer = b.1.signer → a.1.nonce = b.1.nonce →
    a.1.timestamp + S.config.limits.authWindowSeconds < b.2

structure Ledger (S : Server Ω) (s : S.State) : Prop where
  remembered : ∀ c ∈ s.journal.consumed, S.Remembered s c
  apart : s.journal.consumed.Pairwise S.Apart
  consumed : S.Roomy s.db.consumedNonces
  revocation : S.Roomy s.db.revocationNonces

theorem Roomy.live {rows : List NonceRow} (h : S.Roomy rows) (now : ℕ) :
    S.Roomy (liveNonces rows now) := by
  constructor
  · exact (length_filter_le _ _).trans h.all
  · intro id
    exact (filter_sublist.countP_le).trans (h.signer id)

theorem Roomy.concat {rows : List NonceRow} {row : NonceRow} (h : S.Roomy rows)
    (hall : rows.length < S.config.limits.maxReplays)
    (hsigner : rows.countP (fun r => r.signer = row.signer) < S.principalLimit) :
    S.Roomy (rows ++ [row]) := by
  constructor
  · rw [length_append, length_singleton]
    exact hall
  · intro id
    rw [countP_append, countP_singleton]
    by_cases hid : row.signer = id
    · subst hid
      rw [if_pos (decide_eq_true rfl)]
      exact hsigner
    · rw [if_neg (by simpa using hid)]
      exact h.signer id

variable {identity : Identity} {now : ℕ}
theorem Ledger.ticked (h : S.Ledger s) (hidentity : s.db.identity = some identity)
    (hnow : identity.lastTime ≤ now) : S.Ledger
      { s with db := { s.db with identity := some { identity with lastTime := now } } } := by
  refine ⟨fun c hc => ?_, h.apart, h.consumed, h.revocation⟩
  obtain ⟨_, hidentity', htime, hwindow, hrow⟩ := h.remembered c hc
  obtain rfl := Option.some.inj (hidentity.symm.trans hidentity')
  exact ⟨_, rfl, htime.trans hnow, hwindow, fun hle => hrow (hnow.trans hle)⟩

variable {db : Database}
theorem Ledger.opened (h : S.Ledger s) (hok : S.openTransaction s.db = .ok ((), db)) :
    S.Ledger { s with db } := by
  obtain ⟨_, hok⟩ := check_eq_ok hok
  obtain ⟨_, rfl⟩ := ok_pair_inj hok
  refine ⟨fun c hc => ?_, h.apart, h.consumed, h.revocation⟩
  obtain ⟨identity, hidentity, hrest⟩ := h.remembered c hc
  refine ⟨identity, ?_, hrest⟩
  simp only [hidentity, Option.getD_some]

theorem mem_withNonce (signed : SignedRequest) (now : ℕ) (db : Database) (row : NonceRow) :
    row ∈ (withNonce (S := S) signed now db).consumedNonces ++
        (withNonce (S := S) signed now db).revocationNonces ↔
      row ∈ liveNonces db.consumedNonces now ++ liveNonces db.revocationNonces now ∨
        row = S.nonceRow signed := by
  unfold withNonce nonceRow
  cases signed.request.isRevoke <;> simp <;> tauto

theorem Ledger.withNonce (h : S.Ledger s) {signed : SignedRequest} {method path : String}
    (haddressed : S.Addressed signed method path now) (hclock : S.ClockAt now s)
    (hok : S.consumeTransaction signed now s.db = .ok ((), db)) :
    S.Ledger { s with
      db, journal := { s.journal with consumed := s.journal.consumed ++ [(signed, now)] } } := by
  obtain ⟨hfresh, hall, hsigner, rfl⟩ := consumeTransaction_eq_ok hok
  obtain ⟨identity, hidentity, rfl⟩ := hclock
  have hwindow := haddressed.2.2.2.2.2
  -- what is remembered and could still be used is still there
  have hlive (c : SignedRequest × ℕ) (hc : c ∈ s.journal.consumed)
      (hle : identity.lastTime ≤ c.1.timestamp + S.config.limits.authWindowSeconds) :
      S.nonceRow c.1 ∈ liveNonces s.db.consumedNonces identity.lastTime ++
        liveNonces s.db.revocationNonces identity.lastTime := by
    obtain ⟨identity', hidentity', _, _, hrow⟩ := h.remembered c hc
    obtain rfl := Option.some.inj (hidentity.symm.trans hidentity')
    have hmem := hrow hle
    unfold liveNonces
    rw [← filter_append]
    exact mem_filter.mpr ⟨hmem, decide_eq_true hle⟩
  have hrooms : S.Roomy (Server.withNonce (S := S) signed identity.lastTime s.db).consumedNonces ∧
      S.Roomy (Server.withNonce (S := S) signed identity.lastTime s.db).revocationNonces := by
    have hconsumed := h.consumed.live identity.lastTime
    have hrevocation := h.revocation.live identity.lastTime
    unfold nonceTable at hall hsigner
    unfold Server.withNonce
    cases hrevoke : signed.request.isRevoke with
    | true =>
      simp only [hrevoke] at hall hsigner
      exact ⟨by simpa using hconsumed, hrevocation.concat hall hsigner⟩
    | false =>
      simp only [hrevoke] at hall hsigner
      exact ⟨hconsumed.concat hall hsigner, by simpa using hrevocation⟩
  refine ⟨?_, ?_, ?_, ?_⟩
  · intro c hc
    obtain hc | hc := mem_append.mp hc
    · obtain ⟨_, hidentity', htime, hdiff, _⟩ := h.remembered c hc
      obtain rfl := Option.some.inj (hidentity.symm.trans hidentity')
      refine ⟨identity, hidentity, htime, hdiff, fun hle => ?_⟩
      exact (mem_withNonce signed _ s.db _).mpr (.inl (hlive c hc hle))
    · rw [mem_singleton.mp hc]
      exact ⟨identity, hidentity, le_rfl, hwindow,
        fun _ => (mem_withNonce signed _ s.db _).mpr (.inr rfl)⟩
  · refine pairwise_append.mpr ⟨h.apart, pairwise_singleton _ _, fun c hc d hd => ?_⟩
    rw [mem_singleton.mp hd]
    intro hsame hnonce
    by_contra hle
    exact hfresh _ (hlive c hc (not_lt.mp hle)) ⟨hsame, hnonce⟩
  · exact hrooms.1
  · exact hrooms.2

/-- A nonce is forgotten only when the window of its request is over. -/
theorem Ledger.step (h : S.Ledger s) (hmove : S.Move A s s') : S.Ledger s' := by
  cases hmove with
  | opened hok => exact h.opened hok
  | observed hok =>
    obtain ⟨_, rfl, _⟩ := observeTransaction_eq_ok hok
    exact { h with }
  | ticked hidentity hnow => exact h.ticked hidentity hnow
  | consumed _ haddressed hclock hok => exact h.withNonce haddressed hclock hok
  | _ => exact { h with }

theorem Ledger.moves (h : S.Ledger s) (hmoves : S.Moves A s s') : S.Ledger s' := by
  induction hmoves with
  | refl => exact h
  | tail _ hmove ih => exact ih.step hmove

section
structure Lost (s s' : S.State) : Prop where
  revocation : s'.db.revocationNonces.Sublist s.db.revocationNonces
  rows : ∀ row ∈ s.db.consumedNonces ++ s.db.revocationNonces,
    row ∈ s'.db.consumedNonces ++ s'.db.revocationNonces ∨
      ∃ identity, s'.db.identity = some identity ∧ row.expires < identity.lastTime

variable {t : S.State}
theorem Lost.ticked (h : Lost t s) (hidentity : s.db.identity = some identity)
    (hnow : identity.lastTime ≤ now) :
    Lost t { s with db := { s.db with identity := some { identity with lastTime := now } } } := by
  refine ⟨h.revocation, fun row hrow => ?_⟩
  obtain hkept | ⟨_, hidentity', hexpired⟩ := h.rows row hrow
  · exact .inl hkept
  · obtain rfl := Option.some.inj (hidentity.symm.trans hidentity')
    exact .inr ⟨_, rfl, lt_of_lt_of_le hexpired hnow⟩

theorem Lost.opened (h : Lost t s) (hok : S.openTransaction s.db = .ok ((), db)) :
    Lost t { s with db } := by
  obtain ⟨_, hok⟩ := check_eq_ok hok
  obtain ⟨_, rfl⟩ := ok_pair_inj hok
  refine ⟨h.revocation, fun row hrow => ?_⟩
  obtain hkept | ⟨identity, hidentity, hexpired⟩ := h.rows row hrow
  · exact .inl hkept
  · refine .inr ⟨identity, ?_, hexpired⟩
    simp only [hidentity, Option.getD_some]

variable {signed : SignedRequest}
theorem Lost.withNonce (h : Lost t s) {journal : Journal S.exchange}
    (hrevoke : signed.request.isRevoke = false) (hclock : S.ClockAt now s)
    (hok : S.consumeTransaction signed now s.db = .ok ((), db)) :
    Lost t { s with db, journal } := by
  obtain ⟨_, _, _, rfl⟩ := consumeTransaction_eq_ok hok
  obtain ⟨identity, hidentity, rfl⟩ := hclock
  constructor
  · have hsame : (Server.withNonce (S := S) signed identity.lastTime s.db).revocationNonces =
        liveNonces s.db.revocationNonces identity.lastTime := by
      simp [Server.withNonce, hrevoke]
    change List.Sublist (Server.withNonce (S := S) signed identity.lastTime s.db).revocationNonces _
    rw [hsame]
    exact filter_sublist.trans h.revocation
  · intro row hrow
    obtain hkept | ⟨_, hidentity', hexpired⟩ := h.rows row hrow
    · by_cases hlive : identity.lastTime ≤ row.expires
      · left
        apply (mem_withNonce signed identity.lastTime s.db row).mpr
        unfold liveNonces
        rw [← filter_append]
        exact .inl (mem_filter.mpr ⟨hkept, decide_eq_true hlive⟩)
      · exact .inr ⟨identity, hidentity, not_le.mp hlive⟩
    · obtain rfl := Option.some.inj (hidentity.symm.trans hidentity')
      exact .inr ⟨identity, hidentity, hexpired⟩

theorem Lost.step (h : Lost t s) (hA : ∀ signed ∈ A, signed.request.isRevoke = false)
    (hmove : S.Move A s s') : Lost t s' := by
  cases hmove with
  | opened hok => exact h.opened hok
  | observed hok =>
    obtain ⟨_, rfl, _⟩ := observeTransaction_eq_ok hok
    exact { h with }
  | ticked hidentity hnow => exact h.ticked hidentity hnow
  | consumed hsigned _ hclock hok => exact h.withNonce (hA _ hsigned) hclock hok
  | _ => exact { h with }

/-- Without a revocation, no nonce is lost before it expires. -/
theorem lost_moves (hA : ∀ signed ∈ A, signed.request.isRevoke = false) (hmoves : S.Moves A s s') :
    Lost s s' := by
  induction hmoves with
  | refl => exact ⟨List.Sublist.refl _, fun _ hrow => .inl hrow⟩
  | tail _ hmove ih => exact ih.step hA hmove

theorem consumeTransaction_eq_capacity :
    S.consumeTransaction signed now db = .error (.capacity "replays") ↔ now < 2 ^ 63 ∧
      Unseen signed now db ∧
      (S.config.limits.maxReplays ≤ (liveNonces (nonceTable signed db) now).length ∨
        S.principalLimit ≤ (liveNonces (nonceTable signed db) now).countP
          (fun row => row.signer = signed.signer)) := by
  have hfresh : ((liveNonces db.consumedNonces now ++ liveNonces db.revocationNonces now).any
        (fun row => row.signer = signed.signer && row.nonce = signed.nonce) = true) ↔
      ¬Unseen signed now db := by
    simp [Unseen, any_eq_true, or_and_right, exists_or]
  unfold consumeTransaction
  rw [liveNonces_nonceTable]
  by_cases hnow : now < 2 ^ 63
  · have htime : sqlTime now = .ok now := if_neg (not_le.mpr hnow)
    rw [ok_bind htime]
    dsimp only
    by_cases hseen : Unseen signed now db
    · rw [if_neg (fun h => hfresh.mp h hseen)]
      by_cases hroom : S.config.limits.maxReplays ≤ (if signed.request.isRevoke = true then
            liveNonces db.revocationNonces now else liveNonces db.consumedNonces now).length ∨
          S.principalLimit ≤ (if signed.request.isRevoke = true then
            liveNonces db.revocationNonces now else liveNonces db.consumedNonces now).countP
            (fun row => row.signer = signed.signer)
      · rw [if_pos hroom]
        exact ⟨fun _ => ⟨hnow, hseen, hroom⟩, fun _ => rfl⟩
      · rw [if_neg hroom]
        refine ⟨fun h => ?_, fun h => absurd h.2.2 hroom⟩
        obtain h | ⟨_, _, h⟩ := bind_eq_error h
        · unfold sqlTime at h
          split at h <;> cases h
        · cases h
    · rw [if_pos (hfresh.mpr hseen)]
      refine ⟨fun h => ?_, fun h => absurd h.2.1 hseen⟩
      cases h
  · have htime : sqlTime now = .error (.invalid "timestamp exceeds SQLite integer range") :=
      if_pos (not_lt.mp hnow)
    rw [htime]
    refine ⟨fun h => ?_, fun h => absurd h.1 hnow⟩
    cases h
end

/-- Of two requests with one signer and nonce that take effect, the later has a later
timestamp and comes after the earlier has expired, so no signed request takes effect
twice, whatever the clock readings and however often the server is opened again. The
tables of nonces stay within their bounds, in all and for each signer. A revocation is
not refused for want of room after other requests if it would not have been before. -/
theorem requests_not_replayed (S : Server Ω) (o : Ω) (calls : List RuntimeCall) :
    let window := S.config.limits.authWindowSeconds
    let w := S.after ⟨o, {}⟩ calls
    (w.state.journal.consumed.Pairwise fun a b => a.1.signer = b.1.signer → a.1.nonce = b.1.nonce →
      a.1.timestamp < b.1.timestamp ∧ a.1.timestamp + window < b.2) ∧
    (∀ table, table = w.state.db.consumedNonces ∨ table = w.state.db.revocationNonces →
      table.length ≤ S.config.limits.maxReplays ∧
      ∀ id, table.countP (fun row => row.signer = id) ≤ (S.config.limits.maxReplays + 15) / 16) ∧
    ∀ later, (∀ call ∈ later, ∀ signed ∈ call.requests, signed.request.isRevoke = false) →
      let w' := S.after w later
      ∀ signed now, signed.request.isRevoke = true →
        (∀ identity, w'.state.db.identity = some identity → identity.lastTime ≤ now) →
        S.consumeTransaction signed now w'.state.db = .error (.capacity "replays") →
        S.consumeTransaction signed now w.state.db = .error (.capacity "replays") := by
  intro _ w
  have hledger : S.Ledger w.state := by
    have hnew : S.Ledger ({} : S.State) := by
      refine ⟨fun c hc => absurd hc not_mem_nil, List.Pairwise.nil, ?_, ?_⟩
      all_goals exact ⟨Nat.zero_le _, fun _ => Nat.zero_le _⟩
    exact hnew.moves (moves_after (A := Set.univ) ⟨o, {}⟩ calls fun _ _ _ _ => trivial)
  refine ⟨?_, ?_, ?_⟩
  · refine hledger.apart.imp_of_mem fun {a b} ha hb hapart hsigner hnonce => ?_
    have hlater := hapart hsigner hnonce
    obtain ⟨_, _, _, hdiff, _⟩ := hledger.remembered b hb
    unfold absDiff at hdiff
    exact ⟨by omega, hlater⟩
  · rintro _ (rfl | rfl)
    · exact ⟨hledger.consumed.all, hledger.consumed.signer⟩
    · exact ⟨hledger.revocation.all, hledger.revocation.signer⟩
  · intro later hlater w' signed now hrevoke hclock hrefused
    have hlost : Lost w.state w'.state :=
      lost_moves (A := {signed | signed.request.isRevoke = false}) (fun _ h => h)
        (moves_after w later hlater)
    rw [consumeTransaction_eq_capacity] at hrefused ⊢
    obtain ⟨hnow, hfresh, hfull⟩ := hrefused
    have hsub : (liveNonces (nonceTable signed w'.state.db) now).Sublist
        (liveNonces (nonceTable signed w.state.db) now) := by
      simp only [nonceTable, hrevoke, if_true]
      exact hlost.revocation.filter _
    refine ⟨hnow, fun row hrow hsame => ?_, ?_⟩
    · -- a live row of the nonce would still be there
      unfold liveNonces at hrow
      rw [← filter_append] at hrow
      obtain ⟨hrow, hlive⟩ := mem_filter.mp hrow
      have hle : now ≤ row.expires := of_decide_eq_true hlive
      obtain hkept | ⟨identity, hidentity, _⟩ := hlost.rows row hrow
      · refine hfresh row ?_ hsame
        unfold liveNonces
        rw [← filter_append]
        exact mem_filter.mpr ⟨hkept, hlive⟩
      · have htime := hclock identity hidentity
        omega
    · obtain hfull | hfull := hfull
      · exact .inl (hfull.trans hsub.length_le)
      · exact .inr (hfull.trans hsub.countP_le)

def storeOf (registry : RegistrySnapshot) : Environment ⟨Unit, fun _ => .error .unknownRevocation,
    fun _ _ _ => .error .unknownRevocation⟩ Unit where
  snapshot _ := (.ok registry, ())
  appendMember _ _ := (.ok (), ())
  appendRevocation _ _ := (.ok (), ())
  appendAck _ _ := (.ok (), ())
  diskFails _ := (false, ())
  randomId _ := (.ok ⟨.replicate 16 0⟩, ())
  generateX25519 _ := (.ok (), ())

def plainRevocation : Revocation :=
  ⟨⟨.replicate 16 7⟩, plainId 3, ⟨.replicate 32 3⟩, ⟨.replicate 32 3⟩, ∅, plainId 1, 3⟩

/-- The server `left` of a registry with an administrator, to which a revocation is known. -/
def leftServer : Server Unit where
  crypto := Crypto.plain
  json := ⟨fun _ => [], fun _ => 0, fun _ => 0, fun _ => 0, fun _ => 0, fun _ => 0, fun _ => 0⟩
  exchange := _
  environment := storeOf
    ⟨plainNetwork, [plainRoot .laptop 1 "admin", plainRoot plainServer 2 "left"],
    [plainRevocation], []⟩
  config := ⟨plainNetwork, plainId 2, ⟨.replicate 16 0⟩, ⟨1024, 256, 20000, 120, 120, 604800⟩⟩
  keys := ⟨fun _ _ => .ok (plainId 2), .ok ⟨.replicate 32 2⟩, .ok ""⟩

def publishedAt (now : ℕ) : RuntimeCall :=
  .handle
    { networkId := plainNetwork.id, serverId := plainId 2, signer := plainId 1, timestamp := now
      nonce := ⟨.replicate 16 9⟩, request := .revoke plainRevocation.id (plainId 3)
      signature := "admin" }
    "POST" "/v1/network/revoke" now

/-- A signer that uses a nonce again after the first request has expired is heard twice. -/
theorem nonce_reused_after_expiry :
    let w := leftServer.after ⟨(), {}⟩ [.openRuntime, publishedAt 1000, publishedAt 2000]
    ¬(w.state.journal.consumed.map fun c => (c.1.signer, c.1.nonce)).Nodup := by
  intro w
  have hconsumed : w.state.journal.consumed.map (fun c => (c.1.signer, c.1.nonce)) =
      [(plainId 1, ⟨.replicate 16 9⟩), (plainId 1, ⟨.replicate 16 9⟩)] := by
    decide +kernel
  rw [hconsumed]
  simp

end Tako.Network.Server
