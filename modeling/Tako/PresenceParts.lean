import Tako.PresenceConnection

/-! The members of one server in a table of leases, and the clocks they run by. -/
namespace Tako.Presence
open Relational Fallible Replication List Function
open Tako.Network (DeviceId AppEnv)
open Tako.Workflow (i64Max i64Min saturatingAdd)
variable {J : PresenceJson}
section
variable {expiresAtMs nowMs : ℤ}
theorem remaining_eq_some {ttl : ℕ} (h : remaining expiresAtMs nowMs = some ttl) :
    nowMs + ttl ≤ expiresAtMs ∧ (expiresAtMs ≤ nowMs + ttl ∨ ttl = leaseMs) := by
  unfold remaining saturatingSub at h
  simp only at h
  split at h
  · have httl := Option.some.inj h
    unfold i64Max i64Min leaseMs at *
    omega
  · cases h

theorem le_of_remaining (h : remaining expiresAtMs nowMs = none) : expiresAtMs ≤ nowMs := by
  unfold remaining saturatingSub at h
  simp only at h
  split at h
  · cases h
  · unfold i64Max i64Min at *
    omega

theorem stamp_le (hepoch : 0 ≤ nowMs) : saturatingAdd nowMs leaseMs ≤ nowMs + leaseMs := by
  unfold saturatingAdd i64Max i64Min leaseMs
  omega
end

section
variable {t : Times} {env : Surroundings J} {entry : Entry J}
theorem Times.le_reading (h : t.now ≤ env.now) : t ≤ t.reading env :=
  ⟨h, List.subset_cons_self ..⟩

theorem expired_mono (t t' : Times) (entry : Entry J) (h : t ≤ t') (hexpired : t.expired entry) :
    t'.expired entry := by
  obtain ⟨r, hr, hle⟩ := hexpired
  have hnow : t.now ≤ t'.now := h.1
  exact ⟨r, h.2 hr, by omega⟩

/-- When it expires, a lease is over on a clock that was read. -/
def Lease.Timely (t : Times) (l : Lease J) : Prop := Times.expired ⟨l.expires, t.read⟩ l.entry

theorem Lease.Timely.mono {t' : Times} {l : Lease J} (h : l.Timely t) (hle : t ≤ t') :
    l.Timely t' :=
  expired_mono ⟨l.expires, t.read⟩ ⟨l.expires, t'.read⟩ _ ⟨Nat.le_refl _, hle.2⟩ h

theorem Times.Within.mono {t' : Times} {expiresAtMs : ℤ} (h : t.Within expiresAtMs)
    (hle : t ≤ t') : t'.Within expiresAtMs := by
  obtain ⟨r, hr, hnow, hstamp⟩ := h
  exact ⟨r, hle.2 hr, hnow.trans hle.1, hstamp⟩

theorem expired_reading (t : Times) (h : entry.2 ≤ env.nowMs) : (t.reading env).expired entry :=
  ⟨_, mem_cons_self, Int.add_le_add_right h _⟩
end

section
variable {L L' : Leases J} {o : DeviceId} {k : MemberKey}
theorem part_eq_some {entry : Entry J} : L.part o k = some entry ↔
      ∃ l ∈ L.members.rows, l.key = ⟨o, k.1, k.2⟩ ∧ l.entry = entry := by
  unfold Leases.part
  rw [Option.map_eq_some_iff]
  constructor
  · rintro ⟨l, hl, hentry⟩
    obtain ⟨hmem, hkey⟩ := L.members.get?_eq_some.mp hl
    exact ⟨l, hmem, hkey, hentry⟩
  · rintro ⟨l, hmem, hkey, hentry⟩
    exact ⟨l, L.members.get?_eq_some.mpr ⟨hmem, hkey⟩, hentry⟩

theorem fades_of_keeps {t : Times} (h : Keeps o t.now L L')
    (htimely : ∀ l ∈ L.members.rows, l.origin = o → l.Timely t) :
    Fades Times.expired t (L.part o) (L'.part o) := by
  intro k
  unfold Leases.part
  cases hl : L.members.get? ⟨o, k.1, k.2⟩ with
  | none =>
    have hgone : L'.members.get? ⟨o, k.1, k.2⟩ = none := by
      apply (L'.members.get?_eq_none).mpr
      intro l hl' hkey
      have hmem := h.sub l hl' (congrArg Key.origin hkey)
      exact (L.members.get?_eq_none).mp hl l hmem hkey
    rw [hgone]
    exact .inl rfl
  | some l =>
    obtain ⟨hmem, hkey⟩ := L.members.get?_eq_some.mp hl
    have horigin : l.origin = o := congrArg Key.origin hkey
    cases hl' : L'.members.get? ⟨o, k.1, k.2⟩ with
    | none =>
      -- it is gone, so it was due
      have hle : l.expires ≤ t.now := by
        by_contra hlive
        have hkept := h.kept l hmem horigin (Nat.lt_of_not_le hlive)
        exact (L'.members.get?_eq_none).mp hl' l hkept hkey
      have hexpired : t.expired l.entry :=
        expired_mono ⟨l.expires, t.read⟩ t _ ⟨hle, List.Subset.refl _⟩ (htimely l hmem horigin)
      exact .inr ⟨rfl, l.entry, rfl, hexpired⟩
    | some l' =>
      obtain ⟨hmem', hkey'⟩ := L'.members.get?_eq_some.mp hl'
      have hold := h.sub l' hmem' (congrArg Key.origin hkey')
      have hsame : l' = l := L.members.key_injOn hold hmem (hkey'.trans hkey.symm)
      rw [hsame]
      exact .inl rfl

theorem part_update {l : Lease J} (hl : l.origin = o) : (L.update l).part o =
      Function.update (L.part o) (l.channel, l.member.connectionId) (some l.entry) := by
  subst hl
  funext k
  have hget : (L.update l).members.get? ⟨l.origin, k.1, k.2⟩ =
      Function.update L.members.get? l.key (some l) ⟨l.origin, k.1, k.2⟩ :=
    congrFun (L.members.get?_replaceRow l) _
  unfold Leases.part
  rw [hget]
  by_cases hk : k = (l.channel, l.member.connectionId)
  · have hkey : (⟨l.origin, k.1, k.2⟩ : Key) = l.key := by
      rw [hk]
      rfl
    rw [hkey, hk, update_self, update_self]
    rfl
  · rw [update_of_ne hk, update_of_ne]
    intro hkey
    exact hk (Prod.ext (congrArg Key.channel hkey) (congrArg Key.connectionId hkey))

theorem part_leave (L : Leases J) (o : DeviceId) (channel id : String) :
    (L.leave o channel id).part o = Function.update (L.part o) (channel, id) none := by
  funext k
  have hget : (L.leave o channel id).members.get? ⟨o, k.1, k.2⟩ =
      if (⟨o, k.1, k.2⟩ : Key) = ⟨o, channel, id⟩ then none else L.members.get? ⟨o, k.1, k.2⟩ := by
    apply Table.get?_deleteWhere_of_iff
    intro l hl
    rw [L.members.get?_key hl]
  unfold Leases.part
  by_cases hk : k = (channel, id)
  · rw [hget, hk, if_pos rfl, update_self]
    rfl
  · rw [hget, update_of_ne hk, if_neg]
    intro hkey
    exact hk (Prod.ext (congrArg Key.channel hkey) (congrArg Key.connectionId hkey))

theorem recorded_eq_some {records : List (SnapshotLease J)}
    (hnodup : (records.map SnapshotLease.key).Nodup) {entry : Entry J} :
    recorded records k = some entry ↔
      ∃ r ∈ records, r.key = k ∧ (r.member, r.expiresAtMs) = entry := by
  unfold recorded
  rw [Option.map_eq_some_iff]
  constructor
  · rintro ⟨r, hr, hentry⟩
    have hkey := find?_some hr
    exact ⟨r, mem_of_find?_eq_some hr, of_decide_eq_true hkey, hentry⟩
  · rintro ⟨r, hr, rfl, hentry⟩
    refine ⟨r, ?_, hentry⟩
    cases hfind : records.find? (fun r' => r'.key = r.key) with
    | none => simpa using find?_eq_none.mp hfind r hr
    | some =>
      have hkey := find?_some hfind
      have hmem := mem_of_find?_eq_some hfind
      rw [inj_on_of_nodup_map hnodup hmem hr (of_decide_eq_true hkey)]

def Leases.records (L : Leases J) (here : DeviceId) : List (SnapshotLease J) :=
  (L.members.rows.filter (fun l => l.origin = here)).map
    fun l => ⟨l.channel, l.member, l.expiresAtMs⟩

theorem mem_records {r : SnapshotLease J} : r ∈ L.records o ↔
      ∃ l ∈ L.members.rows, l.origin = o ∧ r = ⟨l.channel, l.member, l.expiresAtMs⟩ := by
  unfold Leases.records
  rw [mem_map]
  constructor
  · rintro ⟨l, hl, hr⟩
    obtain ⟨hmem, horigin⟩ := mem_filter.mp hl
    exact ⟨l, hmem, of_decide_eq_true horigin, hr.symm⟩
  · rintro ⟨l, hmem, horigin, hr⟩
    exact ⟨l, mem_filter.mpr ⟨hmem, decide_eq_true horigin⟩, hr.symm⟩

theorem nodup_records (L : Leases J) (here : DeviceId) :
    ((L.records here).map SnapshotLease.key).Nodup := by
  unfold Leases.records
  rw [map_map]
  apply List.Nodup.map_on
  · intro l hl l' hl' hkey
    obtain ⟨hmem, horigin⟩ := mem_filter.mp hl
    obtain ⟨hmem', horigin'⟩ := mem_filter.mp hl'
    apply L.members.key_injOn hmem hmem'
    -- the origin is the same, and the rest of the key is that of the record
    have hsame : l.origin = l'.origin :=
      (of_decide_eq_true horigin).trans (of_decide_eq_true horigin').symm
    have hchannel : l.channel = l'.channel := congrArg Prod.fst hkey
    have hid : l.member.connectionId = l'.member.connectionId := congrArg Prod.snd hkey
    unfold Lease.key
    rw [hsame, hchannel, hid]
  · exact L.members.nodup_rows.filter _

theorem recorded_records (L : Leases J) (here : DeviceId) :
    recorded (L.records here) = L.part here := by
  funext k
  apply Option.ext
  intro _
  rw [recorded_eq_some (nodup_records L here), part_eq_some]
  constructor
  · rintro ⟨r, hr, rfl, hentry⟩
    obtain ⟨l, hl, rfl, rfl⟩ := mem_records.mp hr
    exact ⟨l, hl, rfl, hentry⟩
  · rintro ⟨l, hl, hkey, hentry⟩
    have horigin : l.origin = here := congrArg Key.origin hkey
    refine ⟨_, mem_records.mpr ⟨l, hl, horigin, rfl⟩, ?_, hentry⟩
    exact Prod.ext (congrArg Key.channel hkey) (congrArg Key.connectionId hkey)
end

end Tako.Presence
