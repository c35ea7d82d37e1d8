import Tako.PresenceParts

/-! What a server makes of the publications of another. -/
namespace Tako.Presence
open Relational Fallible Replication List Function
open Tako.Network (DeviceId AppEnv)
open Tako.Workflow (i64Max i64Min saturatingAdd)
variable {J : PresenceJson}
variable {e : Ends} {L L' R : Leases J} {o peer origin : DeviceId} {now : ℕ} {env : Surroundings J}
  {p : Publication J} {l : Lease J} {nowMs allowance : ℤ} {records : List (SnapshotLease J)}
/-- What happens to the members of another server, unless it says something: they
are kept, or all of them are dropped with what was heard of them. -/
def Bystander (o : DeviceId) (now : ℕ) (L L' : Leases J) : Prop :=
  (Keeps o now L L' ∧ L'.received o = L.received o ∧ L'.snapshots o = L.snapshots o) ∨
  ((∀ l ∈ L'.members.rows, l.origin ≠ o) ∧ L'.received o = none ∧ L'.snapshots o = none)

theorem Bystander.sub (h : Bystander o now L L') :
    ∀ l ∈ L'.members.rows, l.origin = o → l ∈ L.members.rows := by
  obtain ⟨hkeeps, _⟩ | ⟨hnone, _⟩ := h
  · exact hkeeps.sub
  · intro l hl horigin
    exact absurd horigin (hnone l hl)

theorem closed_bystander {here : DeviceId} (hhere : here ≠ o) (now : ℕ) :
    Closed (Bystander (J := J) o now) here now where
  refl _ := .inl ⟨keeps_of_members rfl, rfl, rfl⟩
  trans L L' L'' h h' := by
    obtain ⟨hkeeps', hreceived', hsnapshots'⟩ | hcleared' := h'
    · obtain ⟨hkeeps, hreceived, hsnapshots⟩ | ⟨hnone, hreceived, hsnapshots⟩ := h
      · exact .inl ⟨hkeeps.trans hkeeps', hreceived'.trans hreceived,
          hsnapshots'.trans hsnapshots⟩
      · refine .inr ⟨?_, hreceived'.trans hreceived, hsnapshots'.trans hsnapshots⟩
        intro l hl horigin
        exact hnone l (hkeeps'.sub l hl horigin) horigin
    · exact .inr hcleared'
  expire L := .inl ⟨keeps_expire L, rfl, rfl⟩
  clear L := by
    refine .inr ⟨?_, rfl, rfl⟩
    intro l hl horigin
    exact hhere ((mem_retain.mp hl).2.symm.trans horigin)

theorem tolerates_bystander (hpeer : peer ≠ o) : Tolerates (Bystander (J := J) o now) peer where
  update _ l hl := .inl ⟨keeps_update (hl ▸ hpeer), rfl, rfl⟩
  leave _ channel id := .inl ⟨keeps_leave hpeer channel id, rfl, rfl⟩
  received L n := by
    refine .inl ⟨keeps_of_members rfl, ?_, rfl⟩
    exact update_of_ne (Ne.symm hpeer) _ _
  replace L L' _ _ _ _ _ hok := by
    have hkeeps : Keeps o now L L' := keeps_replaceRemote hpeer hok
    obtain ⟨_, rfl⟩ | ⟨_, _, _, _, rfl⟩ := Leases.replaceRemote_cases hok
    · exact .inl ⟨keeps_of_members rfl, rfl, rfl⟩
    · exact .inl ⟨hkeeps, update_of_ne (Ne.symm hpeer) _ _,
        update_of_ne (Ne.symm hpeer) _ _⟩

theorem local_bystander (hhere : peer ≠ o) : Local (Bystander (J := J) o now) peer where
  changes := tolerates_bystander hhere
  numbers _ _ := .inl ⟨keeps_of_members rfl, rfl, rfl⟩

/-- What the origin can have said of a member until `t`. -/
structure Vouched (e : Ends) (t : Times) (channel : String) (member : PresenceMember J)
    (expiresAtMs : ℤ) : Prop where
  valid : validateMember channel member = .ok ()
  owned : validateOwnedId e.origin member.connectionId = .ok ()
  bounded : t.Within expiresAtMs

variable {member : PresenceMember J} {t t' : Times}
def Publication.Genuine (e : Ends) (t : Times) : Publication J → Prop
  | .sync => True
  | .snapshot _ records => (records.map SnapshotLease.key).Nodup ∧
      ∀ r ∈ records, Vouched e t r.channel r.member r.expiresAtMs
  | .update channel member expiresAtMs _ => Vouched e t channel member expiresAtMs
  | .leave channel id _ => validateChannel channel = .ok () ∧ validateOwnedId e.origin id = .ok ()

theorem Publication.Genuine.mono (h : p.Genuine e t) (hle : t ≤ t') :
    p.Genuine e t' := by
  cases p with
  | sync => trivial
  | snapshot => exact ⟨h.1, fun r hr => { h.2 r hr with bounded := (h.2 r hr).bounded.mono hle }⟩
  | update => exact { valid := h.valid, owned := h.owned, bounded := h.bounded.mono hle }
  | leave => exact h

/-- What a publication tells of a member. -/
def Publication.Tells (channel : String) (entry : Entry J) : Publication J → Prop
  | .snapshot _ records => ⟨channel, entry.1, entry.2⟩ ∈ records
  | .update channel' member expiresAtMs _ => channel' = channel ∧ (member, expiresAtMs) = entry
  | .sync => False
  | .leave _ _ _ => False

theorem Publication.Genuine.bounded (h : p.Genuine e t) {channel : String} {entry : Entry J}
    (htells : p.Tells channel entry) : t.Within entry.2 := by
  cases p with
  | sync | leave => exact htells.elim
  | snapshot => exact (h.2 _ htells).bounded
  | update =>
    obtain ⟨_, rfl⟩ := htells
    exact Vouched.bounded h

/-- A lease that a publication has made of what it tells: for what is left of it on
the clock of the peer, or for less, if there was a lease with the same end. -/
structure Written (L : Leases J) (env : Surroundings J) (p : Publication J) (l : Lease J) :
    Prop where
  told : p.Tells l.channel l.entry
  left : ∃ ttl, remaining l.expiresAtMs env.nowMs = some ttl ∧ (l.expires = env.now + ttl ∨
    ∃ l₀ ∈ L.members.rows, l₀.key = l.key ∧ l₀.expiresAtMs = l.expiresAtMs ∧
      l.expires = min (env.now + ttl) l₀.expires)
  earlier : (∃ n records, p = .snapshot n records) → ∀ l₀ ∈ L.members.rows, l₀.key = l.key →
    l₀.expiresAtMs = l.expiresAtMs → l.expires ≤ l₀.expires

theorem Written.within (h : Written L env p l) :
    env.nowMs + (l.expires - env.now) ≤ l.expiresAtMs := by
  obtain ⟨ttl, httl, hexpires⟩ := h.left
  have hleft := (remaining_eq_some httl).1
  have hle : l.expires ≤ env.now + ttl := by
    obtain hexpires | ⟨_, _, _, _, hexpires⟩ := hexpires
    · exact Nat.le_of_eq hexpires
    · rw [hexpires]
      exact Nat.min_le_left _ _
  omega

theorem Written.timely (h : Written L env p l) (hgenuine : p.Genuine e (t.reading env))
    (htimely : ∀ l₀ ∈ L.members.rows, l₀.origin = l.origin → l₀.Timely (t.reading env)) :
    l.Timely (t.reading env) := by
  obtain ⟨ttl, httl, hexpires⟩ := h.left
  -- the lease for all that is left is over on this clock, or on that of the origin
  have hfull : Times.expired ⟨env.now + ttl, (t.reading env).read⟩ l.entry := by
    obtain hover | rfl := (remaining_eq_some httl).2
    · refine ⟨_, mem_cons_self, ?_⟩
      show l.expiresAtMs + env.now ≤ env.nowMs + (env.now + ttl : ℕ)
      omega
    · obtain ⟨r, hr, hnow, hstamp⟩ := hgenuine.bounded h.told
      have hnow' : r.1 ≤ env.now := hnow
      refine ⟨r, hr, ?_⟩
      show l.entry.2 + r.1 ≤ r.2 + (env.now + leaseMs : ℕ)
      omega
  show Times.expired ⟨l.expires, (t.reading env).read⟩ l.entry
  obtain hexpires | ⟨l₀, hl₀, hkey, hstamp, hexpires⟩ := hexpires
  · rw [hexpires]
    exact hfull
  · rw [hexpires]
    obtain hle | hle := Nat.le_total (env.now + ttl) l₀.expires
    · rw [min_eq_left hle]
      exact hfull
    · rw [min_eq_right hle]
      have hover := htimely l₀ hl₀ (congrArg Key.origin hkey)
      have hentry : l₀.entry.2 = l.entry.2 := hstamp
      unfold Lease.Timely Times.expired at hover
      rw [hentry] at hover
      exact hover

structure Replacement (L : Leases J) (origin : DeviceId) (now : ℕ) (nowMs : ℤ)
    (records : List (SnapshotLease J)) (R : Leases J) : Prop where
  sub : ∀ l ∈ R.members.rows, ∃ r ∈ records, ∃ ttl, remaining r.expiresAtMs nowMs = some ttl ∧
    l.key = ⟨origin, r.channel, r.member.connectionId⟩ ∧ l.entry = (r.member, r.expiresAtMs) ∧
    l.expires = L.deadline origin now ttl r
  all : ∀ r ∈ records, ∀ ttl, remaining r.expiresAtMs nowMs = some ttl →
    ∃ l ∈ R.members.rows, l.key = ⟨origin, r.channel, r.member.connectionId⟩

theorem replacement_of_foldlM
    (hR : records.foldlM (L.replaceRecord origin now nowMs allowance) Leases.empty = .ok R) :
    Replacement L origin now nowMs records R := by
  refine foldlM_invariant hR (I := fun done R => Replacement L origin now nowMs done R) ?_ ?_
  · exact ⟨(fun l hl => nomatch hl), fun r hr => nomatch hr⟩
  · intro _ r R _ _ hI hstep
    obtain ⟨_, _, hstep⟩ := bind_eq_ok hstep
    cases httl : remaining r.expiresAtMs nowMs with
    | none =>
      simp only [httl] at hstep
      rw [← Except.ok.inj hstep]
      refine ⟨?_, ?_⟩
      · intro l hl
        obtain ⟨r', hr', hl'⟩ := hI.sub l hl
        exact ⟨r', mem_append_left _ hr', hl'⟩
      · intro r' hr' ttl httl'
        obtain hr' | hr' := mem_append.mp hr'
        · exact hI.all r' hr' ttl httl'
        · rw [mem_singleton.mp hr', httl] at httl'
          cases httl'
    | some ttl =>
      simp only [httl] at hstep
      rw [← Except.ok.inj hstep]
      refine ⟨?_, ?_⟩
      · intro l hl
        obtain rfl | ⟨hl, _⟩ := R.members.mem_replaceRow.mp hl
        · exact ⟨r, mem_append_right _ (mem_singleton.mpr rfl), ttl, httl, rfl, rfl, rfl⟩
        · obtain ⟨r', hr', hl'⟩ := hI.sub l hl
          exact ⟨r', mem_append_left _ hr', hl'⟩
      · intro r' hr' ttl' httl'
        -- an earlier record of the same member has made room for this one
        by_cases hkey : r'.key = r.key
        · refine ⟨_, R.members.mem_replaceRow.mpr (.inl rfl), ?_⟩
          have hchannel : r.channel = r'.channel := (congrArg Prod.fst hkey).symm
          have hid : r.member.connectionId = r'.member.connectionId := (congrArg Prod.snd hkey).symm
          unfold Lease.key
          simp only [hchannel, hid]
        · obtain hr' | hr' := mem_append.mp hr'
          · obtain ⟨l, hl, hlkey⟩ := hI.all r' hr' ttl' httl'
            refine ⟨l, R.members.mem_replaceRow.mpr (.inr ⟨hl, ?_⟩), hlkey⟩
            rw [hlkey]
            intro hsame
            exact hkey (Prod.ext (congrArg Key.channel hsame) (congrArg Key.connectionId hsame))
          · rw [mem_singleton.mp hr'] at hkey
            exact absurd rfl hkey

theorem Replacement.fades (h : Replacement L e.origin env.now env.nowMs records R)
    (hnodup : (records.map SnapshotLease.key).Nodup) :
    Fades Times.expired (t.reading env) (recorded records) (R.part e.origin) := by
  intro k
  cases hpart : R.part e.origin k with
  | some =>
    left
    obtain ⟨l, hl, hlkey, rfl⟩ := part_eq_some.mp hpart
    obtain ⟨r, hr, ttl, _, hkey, hentry, _⟩ := h.sub l hl
    have hk : r.key = k := by
      have hsame := hkey.symm.trans hlkey
      exact Prod.ext (congrArg Key.channel hsame) (congrArg Key.connectionId hsame)
    exact ((recorded_eq_some hnodup).mpr ⟨r, hr, hk, hentry.symm⟩).symm
  | none =>
    cases hrecorded : recorded records k with
    | none => exact .inl rfl
    | some entry =>
      right
      obtain ⟨r, hr, rfl, rfl⟩ := (recorded_eq_some hnodup).mp hrecorded
      refine ⟨rfl, _, rfl, ?_⟩
      cases httl : remaining r.expiresAtMs env.nowMs with
      | none => exact expired_reading t (le_of_remaining httl)
      | some ttl =>
        obtain ⟨l, hl, hlkey⟩ := h.all r hr ttl httl
        have hsome : R.part e.origin r.key = some l.entry := part_eq_some.mpr ⟨l, hl, hlkey, rfl⟩
        rw [hpart] at hsome
        cases hsome

theorem Replacement.written (h : Replacement L origin env.now env.nowMs records R) (n : ℕ) :
    ∀ l ∈ R.members.rows, Written L env (.snapshot n records) l := by
  intro l hl
  obtain ⟨r, hr, ttl, httl, hkey, hentry, hexpires⟩ := h.sub l hl
  have hstamp : l.expiresAtMs = r.expiresAtMs := congrArg Prod.snd hentry
  have htold : (Publication.snapshot n records).Tells l.channel l.entry := by
    rw [hentry, show l.channel = r.channel from congrArg Key.channel hkey]
    exact hr
  rw [← hstamp] at httl
  unfold Leases.deadline at hexpires
  rw [← hkey] at hexpires
  cases hprevious : L.members.get? l.key with
  | none =>
    simp only [hprevious] at hexpires
    refine ⟨htold, ⟨ttl, httl, .inl hexpires⟩, ?_⟩
    intro _ l₀ hl₀ hl₀key
    exact absurd hl₀key ((L.members.get?_eq_none).mp hprevious l₀ hl₀)
  | some previous =>
    obtain ⟨hmem, hpkey⟩ := L.members.get?_eq_some.mp hprevious
    simp only [hprevious, ← hstamp] at hexpires
    have honly (l₀ : Lease J) (hl₀ : l₀ ∈ L.members.rows) (hl₀key : l₀.key = l.key) :
        l₀ = previous := L.members.key_injOn hl₀ hmem (hl₀key.trans hpkey.symm)
    split at hexpires
    · next hsame =>
      refine ⟨htold, ⟨ttl, httl, .inr ⟨previous, hmem, hpkey, hsame, hexpires⟩⟩, ?_⟩
      intro _ l₀ hl₀ hl₀key _
      rw [honly l₀ hl₀ hl₀key, hexpires]
      exact Nat.min_le_right _ _
    · next hother =>
      refine ⟨htold, ⟨ttl, httl, .inl hexpires⟩, ?_⟩
      intro _ l₀ hl₀ hl₀key hl₀stamp
      rw [honly l₀ hl₀ hl₀key] at hl₀stamp
      exact absurd hl₀stamp hother

theorem expire_empty (now : ℕ) : (Leases.empty : Leases J).expire now = .empty := rfl

theorem check_capacity {channel : String} {error' : IoError}
    (hvalid : validateMember channel member = .ok ())
    (howned : validateOwnedId origin member.connectionId = .ok ())
    (h : L.check origin channel member allowance = .error error') :
    error' ∈ capacityRejections := by
  unfold Leases.check at h
  rw [ok_bind hvalid, ok_bind howned] at h
  obtain rfl | h := check_eq_error h
  · exact mem_cons_self
  · cases h

theorem replaceRemote_capacity {sequence : ℕ} {error' : IoError}
    (hvalid : ∀ r ∈ records, validateMember r.channel r.member = .ok () ∧
      validateOwnedId origin r.member.connectionId = .ok ())
    (h : L.replaceRemote origin sequence records now nowMs allowance = .error error') :
    error' ∈ capacityRejections := by
  unfold Leases.replaceRemote at h
  split at h
  · cases h
  obtain rfl | h := check_eq_error h
  · exact mem_cons_of_mem _ mem_cons_self
  obtain hloop | ⟨R, _, h⟩ := bind_eq_error h
  · obtain ⟨R, r, hr, hround⟩ := foldlM_error hloop
    obtain ⟨hmember, howned⟩ := hvalid r hr
    unfold Leases.replaceRecord at hround
    obtain hcheck | ⟨_, _, hround⟩ := bind_eq_error hround
    · exact check_capacity hmember howned hcheck
    · split at hround <;> cases hround
  · obtain rfl | h := check_eq_error h
    · exact mem_cons_of_mem _ mem_cons_self
    · cases h

variable {b : Broker J} {n : ℕ}
theorem receives_stale {change : Change MemberKey (Entry J)} (h : L.fresh o n = false) :
    Receives Times.expired t (L.replica o) (.change change n) (L.replica o) := by
  apply Receives.old
  show n ≤ (L.received o).getD 0
  unfold Leases.fresh at h
  simp only [decide_eq_false_iff_not, not_and, not_lt] at h
  by_cases hn : n = 0
  · rw [hn]
    exact Nat.zero_le _
  · exact h hn

theorem lt_of_fresh (h : ¬L.fresh o n = false) : (L.received o).getD 0 < n := by
  unfold Leases.fresh at h
  simp only [Bool.not_eq_false, decide_eq_true_eq] at h
  exact h.2

theorem receives_setReceived {L₁ : Leases J} {k : MemberKey} {v v' : Option (Entry J)}
    (hnew : (L.received o).getD 0 < n) (hpart : L₁.part o = Function.update (L.part o) k v')
    (hsnapshots : L₁.snapshots = L.snapshots)
    (hv : v' = v ∨ (v' = none ∧ ∃ a, v = some a ∧ t.expired a)) :
    Receives Times.expired t (L.replica o) (.change (k, v) n) ((L₁.setReceived o n).replica o) := by
  have hreplica : (L₁.setReceived o n).replica o =
      ⟨Function.update (L.part o) k v', some n, L.snapshots o⟩ := by
    unfold Leases.replica Leases.setReceived
    simp only [update_self, hsnapshots]
    congr 1
  rw [hreplica]
  exact .change hnew hv

theorem receives_applyRemote {f : Replication.Frame MemberKey (Entry J)}
    (hframe : p.frame? = some f) (hfresh : ¬L.fresh e.origin p.sequence = false)
    (hchange : p.change?.isSome = true)
    (hok : Broker.applyRemote L env e.origin allowance p = .ok L') :
    Receives Times.expired (t.reading env) (L.replica e.origin) f (L'.replica e.origin) := by
  have hnew := lt_of_fresh hfresh
  cases p with
  | sync | snapshot => cases hchange
  | update channel member expiresAtMs n =>
    cases hframe
    obtain ⟨_, _, hok⟩ := bind_eq_ok hok
    cases httl : remaining expiresAtMs env.nowMs with
    | some =>
      simp only [httl] at hok
      rw [← Except.ok.inj hok]
      exact receives_setReceived hnew (part_update rfl) rfl (.inl rfl)
    | none =>
      simp only [httl] at hok
      rw [← Except.ok.inj hok]
      refine receives_setReceived hnew (part_leave ..) rfl (.inr ⟨rfl, _, rfl, ?_⟩)
      exact expired_reading t (le_of_remaining httl)
  | leave channel id n =>
    cases hframe
    obtain ⟨_, _, hok⟩ := bind_eq_ok hok
    obtain ⟨_, _, hok⟩ := bind_eq_ok hok
    rw [← Except.ok.inj hok]
    exact receives_setReceived hnew (part_leave ..) rfl (.inl rfl)

theorem receives_replaceRemote (hnodup : (records.map SnapshotLease.key).Nodup)
    (hok : L.replaceRemote e.origin n records env.now env.nowMs allowance = .ok L') :
    Receives Times.expired (t.reading env) (L.replica e.origin) (.snapshot (recorded records) n)
      (L'.replica e.origin) := by
  obtain ⟨hcurrent, rfl⟩ | ⟨R, hcurrent, hR, _, rfl⟩ := Leases.replaceRemote_cases hok
  · apply Receives.outdated
    unfold Leases.current at hcurrent
    rw [Bool.and_eq_false_iff] at hcurrent
    obtain hold | hold := hcurrent
    · obtain ⟨m, hreceived, hm⟩ := (Option.all_eq_false ..).mp hold
      exact .inl ⟨m, hreceived, Nat.lt_of_not_le (of_decide_eq_false hm)⟩
    · obtain ⟨m, hsnapshots, hm⟩ := (Option.all_eq_false ..).mp hold
      exact .inr ⟨m, hsnapshots, Nat.le_of_not_lt (of_decide_eq_false hm)⟩
  · have hreplacement := replacement_of_foldlM hR
    have hrows := Leases.rows_replaced (L := L) (Leases.origin_of_foldlM hR)
    -- the members of the origin are those of the side table
    have hpart : Leases.part { L with
        members := R.members.rows.foldl Table.replaceRow (L.others e.origin)
        bytes := L.othersBytes e.origin + R.bytes
        received := Function.update L.received e.origin (some n)
        snapshots := Function.update L.snapshots e.origin (some n) } e.origin =
        R.part e.origin := by
      funext k
      apply Option.ext
      intro _
      rw [part_eq_some, part_eq_some]
      simp only [hrows, mem_append]
      constructor
      · rintro ⟨l, hl | hl, hkey, hentry⟩
        · exact absurd (congrArg Key.origin hkey) (mem_others.mp hl).2
        · exact ⟨l, hl, hkey, hentry⟩
      · rintro ⟨l, hl, hkey, hentry⟩
        exact ⟨l, .inr hl, hkey, hentry⟩
    have hfades := hreplacement.fades (t := t) hnodup
    unfold Leases.replica
    rw [hpart]
    simp only [update_self]
    unfold Leases.current at hcurrent
    rw [Bool.and_eq_true] at hcurrent
    obtain ⟨hreceived, hsnapshots⟩ := hcurrent
    refine Receives.snapshot ?_ ?_ hfades
    · intro m hm
      replace hm : L.received e.origin = some m := hm
      rw [hm] at hreceived
      exact of_decide_eq_true hreceived
    · intro m hm
      replace hm : L.snapshots e.origin = some m := hm
      rw [hm] at hsnapshots
      exact of_decide_eq_true hsnapshots

theorem leasesOf_put {app : AppEnv} {a : Application J} (ha : b.apps.get? app = some a)
    (L : Leases J) : (b.modify app fun _ => L).leasesOf app = L := by
  unfold Broker.leasesOf
  rw [Broker.get?_modify, ha]
  simp

theorem leasesOf_expireApp (b : Broker J) (app : AppEnv) (now : ℕ) :
    (b.modify app (·.expire now)).leasesOf app = (b.leasesOf app).expire now :=
  leasesOf_modify b app (expire_empty now)

/-- Whatever a publication makes of the members of its origin: those that it leaves
were there and not due, and the others it has written. -/
theorem written_remotePresence (b : Broker J) (env : Surroundings J) (peer : DeviceId)
    (app : AppEnv) (p : Publication J) :
    ∀ l ∈ ((b.remotePresence env peer app p).broker.leasesOf app).members.rows, l.origin = peer →
      l ∈ (b.leasesOf app).members.rows ∨ Written ((b.leasesOf app).expire env.now) env p l := by
  have hkept : ∀ l ∈ ((b.leasesOf app).expire env.now).members.rows,
      l ∈ (b.leasesOf app).members.rows := fun l hl => (mem_retain.mp hl).1
  have hexpired := leasesOf_expireApp b app env.now
  obtain heq | ⟨a, L, ha, hL, heq⟩ := Broker.remotePresence_cases b env app peer p
  · rw [heq, hexpired]
    exact fun l hl _ => .inl (hkept l hl)
  · rw [heq]
    show ∀ l ∈ (((b.modify app (·.expire env.now)).modify app fun _ => L).leasesOf
      app).members.rows, _
    rw [leasesOf_put ha]
    rw [leasesOf_of_get? ha] at hexpired
    rw [← hexpired] at hkept ⊢
    obtain ⟨n, _, rfl, hreplace⟩ | happly := hL
    · obtain ⟨_, rfl⟩ | ⟨R, _, hR, _, rfl⟩ := Leases.replaceRemote_cases hreplace
      · exact fun l hl _ => .inl (hkept l hl)
      · intro l hl horigin
        have hrows := Leases.rows_replaced (L := a.presence) (Leases.origin_of_foldlM hR)
        have hl' : l ∈ (a.presence.others peer).rows ++ R.members.rows := hrows ▸ hl
        obtain hl' | hl' := mem_append.mp hl'
        · exact absurd horigin (mem_others.mp hl').2
        · exact .inr ((replacement_of_foldlM hR).written n l hl')
    · cases p with
      | sync | snapshot =>
        rw [← Except.ok.inj happly]
        exact fun l hl _ => .inl (hkept l hl)
      | update _ _ expiresAtMs =>
        obtain ⟨_, _, happly⟩ := bind_eq_ok happly
        cases httl : remaining expiresAtMs env.nowMs with
        | some ttl =>
          simp only [httl] at happly
          rw [← Except.ok.inj happly]
          intro l hl _
          obtain rfl | ⟨hl, _⟩ := a.presence.members.mem_replaceRow.mp hl
          · exact .inr ⟨⟨rfl, rfl⟩, ⟨ttl, httl, .inl rfl⟩, nofun⟩
          · exact .inl (hkept l hl)
        | none =>
          simp only [httl] at happly
          rw [← Except.ok.inj happly]
          exact fun l hl _ => .inl (hkept l (mem_leave.mp hl).1)
      | leave =>
        obtain ⟨_, _, happly⟩ := bind_eq_ok happly
        obtain ⟨_, _, happly⟩ := bind_eq_ok happly
        rw [← Except.ok.inj happly]
        exact fun l hl _ => .inl (hkept l (mem_leave.mp hl).1)

theorem applyRemote_capacity {error : IoError} (hgenuine : p.Genuine e t)
    (hchange : p.change?.isSome = true)
    (herror : Broker.applyRemote L env e.origin allowance p = .error error) :
    error ∈ capacityRejections := by
  cases p with
  | sync | snapshot => cases hchange
  | update =>
    obtain hcheck | ⟨_, _, herror⟩ := bind_eq_error herror
    · exact check_capacity hgenuine.valid hgenuine.owned hcheck
    · split at herror <;> cases herror
  | leave =>
    simp only [Broker.applyRemote] at herror
    rw [ok_bind hgenuine.1, ok_bind hgenuine.2] at herror
    cases herror

theorem receives_remotePresence (hbackend : b.backend e.app = some none)
    (hgenuine : p.Genuine e (t.reading env)) (hroom : ∀ error ∈ capacityRejections,
      (b.remotePresence env e.origin e.app p).result ≠ .error error) :
    (p.frame? = none ∧ (b.remotePresence env e.origin e.app p).broker.leasesOf e.app =
      (b.leasesOf e.app).expire env.now) ∨ ∃ f, p.frame? = some f ∧
      Receives Times.expired (t.reading env)
        (((b.leasesOf e.app).expire env.now).replica e.origin) f
        (((b.remotePresence env e.origin e.app p).broker.leasesOf e.app).replica e.origin) := by
  obtain ⟨a, ha, hurl⟩ := Option.map_eq_some_iff.mp hbackend
  have hget : (b.modify e.app (·.expire env.now)).apps.get? e.app =
      some { a with presence := a.presence.expire env.now } := by
    rw [Broker.modify, Table.get?_updateWhere_key, if_pos rfl, ha, Option.map_some]
  have hpg : ¬a.postgresUrl.isSome = true := by
    rw [hurl]
    exact Bool.false_ne_true
  have hbefore : (b.leasesOf e.app).expire env.now = a.presence.expire env.now := by
    rw [leasesOf_of_get? ha]
  have hexpired : (b.modify e.app (·.expire env.now)).leasesOf e.app =
      a.presence.expire env.now := leasesOf_of_get? hget
  unfold Broker.remotePresence at hroom ⊢
  simp only [hget, if_neg hpg] at hroom ⊢
  rw [hbefore]
  cases p with
  | sync =>
    left
    refine ⟨rfl, ?_⟩
    simp only
    split
    · exact hexpired
    split
    · exact hexpired
    split <;> exact hexpired
  | snapshot n records =>
    right
    refine ⟨_, rfl, ?_⟩
    simp only at hroom ⊢
    cases hreplace : (a.presence.expire env.now).replaceRemote e.origin n records env.now env.nowMs
        ((b.modify e.app (·.expire env.now)).presenceAllowance e.app) with
    | error error' =>
      have hvalid : ∀ r ∈ records, validateMember r.channel r.member = .ok () ∧
          validateOwnedId e.origin r.member.connectionId = .ok () :=
        fun r hr => ⟨(hgenuine.2 r hr).valid, (hgenuine.2 r hr).owned⟩
      have hfull := replaceRemote_capacity hvalid hreplace
      simp only [hreplace] at hroom
      exact absurd rfl (hroom error' hfull)
    | ok =>
      simp only
      rw [leasesOf_put hget]
      exact receives_replaceRemote hgenuine.1 hreplace
  | update | leave =>
    right
    refine ⟨_, rfl, ?_⟩
    simp only at hroom ⊢
    split
    · next hstale =>
      rw [hexpired]
      exact receives_stale hstale
    · next hfresh =>
      simp only [if_neg hfresh] at hroom
      split
      · next happly =>
        simp only [happly] at hroom
        exact absurd rfl (hroom _ (applyRemote_capacity hgenuine rfl happly))
      · next happly =>
        rw [leasesOf_put hget]
        exact receives_applyRemote rfl hfresh rfl happly
end Tako.Presence
