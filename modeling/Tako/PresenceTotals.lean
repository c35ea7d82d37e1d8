import Tako.FallibleLoops
import Tako.PresenceLeases

/-! The byte total of an application's leases counts them, and what `check` lets
through keeps them within their limits. -/
namespace Tako.Presence
open Relational Fallible List
open Tako.Network (DeviceId)
variable {J : PresenceJson}
structure Lease.Valid (l : Lease J) : Prop where
  member : validateMember l.channel l.member = .ok ()
  owned : validateOwnedId l.origin l.member.connectionId = .ok ()
  bytes : l.bytes = leaseBytes l.channel l.member

theorem weight_nonneg (l : Lease J) : 0 ≤ l.weight := Int.natCast_nonneg _

namespace Leases
variable {L L' : Leases J}
def tally (L : Leases J) : ℤ × ℤ := Relational.tally Lease.weight L.members.rows

structure Sound (L : Leases J) : Prop where
  bytes : L.bytes = L.tally.2
  within : L.tally ≤ (maxAppMembers, maxAppBytes)
  valid : ∀ l ∈ L.members.rows, l.Valid

theorem Sound.nonneg (h : L.Sound) : 0 ≤ L.bytes := by
  rw [h.bytes]
  exact (tally_le_of_sublist weight_nonneg (nil_sublist L.members.rows)).2

theorem sound_empty : (empty : Leases J).Sound where
  bytes := rfl
  within := ⟨(by decide : (0 : ℤ) ≤ 256), (by decide : (0 : ℤ) ≤ 524288)⟩
  valid l hl := by cases hl

theorem Sound.shrink (h : L.Sound) (hrows : L'.members.rows.Sublist L.members.rows)
    (hbytes : L'.bytes = L'.tally.2) : L'.Sound ∧ L'.bytes ≤ L.bytes := by
  have hle : L'.tally ≤ L.tally := tally_le_of_sublist weight_nonneg hrows
  refine ⟨⟨hbytes, hle.trans h.within, fun l hl => h.valid l (hrows.subset hl)⟩, ?_⟩
  rw [hbytes, h.bytes]
  exact hle.2

theorem foldl_retain (p : Lease J → Prop) [DecidablePred p] (rows : List (Lease J)) (bytes : ℤ) :
    rows.foldl (fun bytes l => if p l then bytes else bytes - l.weight) bytes =
      bytes - (Relational.tally Lease.weight (rows.filter (fun l => ¬p l))).2 := by
  induction rows generalizing bytes with
  | nil => exact (sub_zero bytes).symm
  | cons l _ ih =>
    rw [foldl_cons, ih]
    by_cases hl : p l
    · rw [if_pos hl, filter_cons_of_neg (by simpa using hl)]
    · rw [if_neg hl, filter_cons_of_pos (by simpa using hl), tally_cons, tally_singleton]
      exact sub_sub _ _ _

theorem Sound.retain (h : L.Sound) (p : Lease J → Prop) [DecidablePred p] :
    (L.retain p).Sound ∧ (L.retain p).bytes ≤ L.bytes := by
  apply h.shrink filter_sublist
  have hsplit := congrArg Prod.snd (tally_deleteWhere Lease.weight L.members (fun l => ¬p l))
  have hfold : (L.retain p).bytes = L.bytes -
      (Relational.tally Lease.weight (L.members.rows.filter (fun l => ¬p l))).2 :=
    foldl_retain p L.members.rows L.bytes
  rw [hfold, h.bytes]
  exact sub_eq_of_eq_add hsplit.symm

theorem Sound.expire (h : L.Sound) (now : ℕ) :
    (L.expire now).Sound ∧ (L.expire now).bytes ≤ L.bytes :=
  h.retain _

theorem Sound.clearRemote (h : L.Sound) (here : DeviceId) :
    (L.clearRemote here).Sound ∧ (L.clearRemote here).bytes ≤ L.bytes := by
  obtain ⟨hsound, hle⟩ := h.retain (fun l => l.origin = here)
  exact ⟨⟨hsound.bytes, hsound.within, hsound.valid⟩, hle⟩

theorem stored_eq (L : Leases J) (key : Key) :
    L.stored key = (Relational.tally Lease.weight (L.members.get? key).toList).2 := by
  unfold stored
  cases L.members.get? key with
  | none => rfl
  | some l => exact (congrArg Prod.snd (tally_singleton Lease.weight l)).symm

theorem Sound.leave (h : L.Sound) (origin : DeviceId) (channel connectionId : String) :
    (L.leave origin channel connectionId).Sound ∧
      (L.leave origin channel connectionId).bytes ≤ L.bytes := by
  apply h.shrink filter_sublist
  have hsplit := tally_deleteWhere Lease.weight L.members
    (fun l => l.key = ⟨origin, channel, connectionId⟩)
  rw [filter_key] at hsplit
  have hbytes : (L.leave origin channel connectionId).bytes =
      L.bytes - L.stored ⟨origin, channel, connectionId⟩ := rfl
  rw [hbytes, stored_eq, h.bytes]
  exact sub_eq_of_eq_add (congrArg Prod.snd hsplit).symm

theorem Sound.of_members (h : L.Sound) (hmembers : L'.members = L.members)
    (hbytes : L'.bytes = L.bytes) : L'.Sound := by
  have htally : L'.tally = L.tally := by
    unfold tally
    rw [hmembers]
  refine ⟨?_, ?_, ?_⟩
  · rw [hbytes, htally]
    exact h.bytes
  · rw [htally]
    exact h.within
  · rw [hmembers]
    exact h.valid

structure Checked (L : Leases J) (l : Lease J) (allowance : ℤ) : Prop where
  valid : l.Valid
  room : L.stored l.key = 0 → (L.members.rows.length : ℤ) < maxAppMembers
  fits : L.bytes - L.stored l.key + l.weight ≤ min allowance maxAppBytes

variable {origin : DeviceId} {allowance : ℤ}
theorem check_eq_ok {channel : String} {member : PresenceMember J} {bytes : ℕ}
    (h : L.check origin channel member allowance = .ok bytes) (expires : ℕ) (expiresAtMs : ℤ) :
    L.Checked ⟨origin, channel, member, expires, expiresAtMs, bytes⟩ allowance := by
  obtain ⟨_, hmember, h⟩ := bind_eq_ok h
  obtain ⟨_, howned, h⟩ := bind_eq_ok h
  obtain ⟨hroom, h⟩ := Fallible.check_eq_ok h
  obtain ⟨hcount, hfits⟩ := not_or.mp hroom
  have hbytes : bytes = leaseBytes channel member := (Except.ok.inj h).symm
  refine ⟨⟨hmember, howned, hbytes⟩, ?_, ?_⟩
  · intro hnew
    exact lt_of_not_ge fun hfull => hcount ⟨hnew, hfull⟩
  · have hle := le_of_not_gt hfits
    have hmax := le_max_left (L.bytes - L.stored ⟨origin, channel, member.connectionId⟩) 0
    show L.bytes - L.stored ⟨origin, channel, member.connectionId⟩ + (bytes : ℤ) ≤ _
    rw [hbytes]
    exact (add_le_add_left hmax _).trans hle

theorem Sound.update (h : L.Sound) {l : Lease J} (hl : L.Checked l allowance) :
    (L.update l).Sound ∧ (L.update l).bytes ≤ min allowance maxAppBytes := by
  have hsplit := tally_replaceRow Lease.weight L.members l
  have hbytes : (L.update l).bytes = (L.update l).tally.2 := by
    have hsum := congrArg Prod.snd hsplit
    have hdef : (L.update l).bytes = L.bytes - L.stored l.key + l.weight := rfl
    rw [hdef, stored_eq, h.bytes]
    rw [tally_singleton] at hsum
    have hsum' : (L.update l).tally.2 + (Relational.tally Lease.weight
        (L.members.get? l.key).toList).2 = L.tally.2 + l.weight := hsum
    omega
  have hle : (L.update l).bytes ≤ min allowance maxAppBytes := hl.fits
  have hcount : (L.update l).tally.1 ≤ maxAppMembers := by
    have hcounts : (L.update l).tally.1 + (L.members.get? l.key).toList.length =
        L.tally.1 + 1 := by
      have := congrArg Prod.fst hsplit
      rwa [tally_singleton] at this
    cases hold : L.members.get? l.key with
    | none =>
      have hroom := hl.room (by rw [stored, hold]; rfl)
      have hrows : L.tally.1 = L.members.rows.length := rfl
      rw [hold] at hcounts
      simp only [Option.toList_none, length_nil] at hcounts
      omega
    | some =>
      have hwithin := h.within.1
      rw [hold] at hcounts
      simp only [Option.toList_some, length_singleton] at hcounts
      have hmax : (maxAppMembers, maxAppBytes).1 = maxAppMembers := rfl
      omega
  refine ⟨⟨hbytes, ⟨hcount, ?_⟩, ?_⟩, hle⟩
  · rw [← hbytes]
    exact hle.trans (min_le_right _ _)
  · intro x hx
    obtain rfl | ⟨hx, _⟩ := L.members.mem_replaceRow.mp hx
    · exact hl.valid
    · exact h.valid x hx

section
variable {now : ℕ} {nowMs : ℤ}
/-- The table that `replace_remote` builds on the side. -/
structure Replaces (origin : DeviceId) (allowance : ℤ) (R : Leases J) : Prop where
  sound : R.Sound
  fits : R.bytes ≤ max allowance 0
  origin : ∀ l ∈ R.members.rows, l.origin = origin

theorem replaces_empty : Replaces origin allowance (empty : Leases J) :=
  ⟨sound_empty, le_max_right _ _, nofun⟩

theorem Replaces.replaceRecord {R R' : Leases J} {record : SnapshotLease J}
    (h : Replaces origin allowance R)
    (hok : L.replaceRecord origin now nowMs allowance R record = .ok R') :
    Replaces origin allowance R' := by
  obtain ⟨_, hcheck, hok⟩ := bind_eq_ok hok
  cases httl : remaining record.expiresAtMs nowMs with
  | none =>
    simp only [httl] at hok
    rw [← Except.ok.inj hok]
    exact h
  | some =>
    simp only [httl] at hok
    obtain ⟨hsound, hle⟩ := h.sound.update (check_eq_ok hcheck _ _)
    rw [← Except.ok.inj hok]
    refine ⟨hsound, ?_, ?_⟩
    · exact hle.trans ((min_le_left _ _).trans (le_max_left _ _))
    · intro l hl
      obtain rfl | ⟨hl, _⟩ := R.members.mem_replaceRow.mp hl
      · rfl
      · exact h.origin l hl

variable {records : List (SnapshotLease J)}
theorem replaceRemote_cases {sequence : ℕ}
    (hok : L.replaceRemote origin sequence records now nowMs allowance = .ok L') :
    (L.current origin sequence = false ∧ L' = L) ∨ ∃ R : Leases J,
      L.current origin sequence = true ∧ records.foldlM (L.replaceRecord origin now nowMs
        (max (min allowance maxAppBytes - L.othersBytes origin) 0)) empty = .ok R ∧
      ((L.others origin).rows.length : ℤ) + R.members.rows.length ≤ maxAppMembers ∧
      L' = { L with
        members := R.members.rows.foldl Table.replaceRow (L.others origin)
        bytes := L.othersBytes origin + R.bytes
        received := Function.update L.received origin (some sequence)
        snapshots := Function.update L.snapshots origin (some sequence) } := by
  unfold replaceRemote at hok
  by_cases hcurrent : L.current origin sequence = false
  · rw [if_pos hcurrent] at hok
    exact .inl ⟨hcurrent, (Except.ok.inj hok).symm⟩
  · rw [if_neg hcurrent] at hok
    obtain ⟨_, hok⟩ := Fallible.check_eq_ok hok
    obtain ⟨R, hR, hok⟩ := bind_eq_ok hok
    obtain ⟨hcount, hok⟩ := Fallible.check_eq_ok hok
    rw [Bool.not_eq_false] at hcurrent
    exact .inr ⟨R, hcurrent, hR, le_of_not_gt hcount, (Except.ok.inj hok).symm⟩

variable {R : Leases J}
theorem rows_replaced (horigin : ∀ l ∈ R.members.rows, l.origin = origin) :
    (R.members.rows.foldl Table.replaceRow (L.others origin)).rows =
      (L.others origin).rows ++ R.members.rows := by
  apply rows_foldl_replaceRow _ R.members.nodup_keys
  intro l hl
  apply (Table.get?_eq_none _).mpr
  intro kept hkept hkey
  have hne : ¬kept.origin = origin := of_decide_eq_true (mem_filter.mp hkept).2
  exact hne ((congrArg Key.origin hkey).trans (horigin l hl))

theorem replaces_of_foldlM
    (hR : records.foldlM (L.replaceRecord origin now nowMs allowance) empty = .ok R) :
    Replaces origin allowance R :=
  foldlM_invariant hR (I := fun _ R => Replaces origin allowance R) replaces_empty
    fun _ _ _ _ _ hI => hI.replaceRecord

theorem origin_of_foldlM
    (hR : records.foldlM (L.replaceRecord origin now nowMs allowance) empty = .ok R) :
    ∀ l ∈ R.members.rows, l.origin = origin :=
  (replaces_of_foldlM hR).origin

theorem Sound.replaceRemote (h : L.Sound) {sequence : ℕ}
    (hok : L.replaceRemote origin sequence records now nowMs allowance = .ok L') :
    L'.Sound ∧ L'.bytes ≤ max allowance L.bytes := by
  obtain ⟨_, rfl⟩ | ⟨R, _, hR, hcount, rfl⟩ := replaceRemote_cases hok
  · exact ⟨h, le_max_right _ _⟩
  have hreplaces := replaces_of_foldlM hR
  have hrows := rows_replaced (L := L) hreplaces.origin
  have hkept : (L.others origin).rows.Sublist L.members.rows := filter_sublist
  have hkeptLe : L.othersBytes origin ≤ L.bytes := by
    rw [h.bytes]
    exact (tally_le_of_sublist weight_nonneg hkept).2
  -- the side table was checked against what the other origins leave free
  have htotal : L.othersBytes origin + R.bytes ≤ max (min allowance maxAppBytes) L.bytes := by
    have hfits := hreplaces.fits
    rw [max_eq_left (le_max_right _ _)] at hfits
    rcases max_choice (min allowance maxAppBytes - L.othersBytes origin) 0 with hfree | hnone
    · rw [hfree] at hfits
      exact le_max_of_le_left (by omega)
    · rw [hnone] at hfits
      exact le_max_of_le_right (by omega)
  have hlimit : L.bytes ≤ maxAppBytes := by
    rw [h.bytes]
    exact h.within.2
  have htally : Relational.tally Lease.weight
      (R.members.rows.foldl Table.replaceRow (L.others origin)).rows =
      Relational.tally Lease.weight (L.others origin).rows + R.tally := by
    rw [hrows, tally_append]
    rfl
  have hbytes : L.othersBytes origin + R.bytes = (Relational.tally Lease.weight
      (R.members.rows.foldl Table.replaceRow (L.others origin)).rows).2 := by
    rw [htally, hreplaces.sound.bytes]
    rfl
  refine ⟨⟨hbytes, ⟨?_, ?_⟩, ?_⟩, ?_⟩
  · have hsplit := congrArg Prod.fst htally
    exact hsplit.trans_le hcount
  · calc
      _ = L.othersBytes origin + R.bytes := hbytes.symm
      _ ≤ max (min allowance maxAppBytes) L.bytes := htotal
      _ ≤ maxAppBytes := max_le (min_le_right _ _) hlimit
  · intro l hl
    have hl' : l ∈ (L.others origin).rows ++ R.members.rows := hrows ▸ hl
    obtain hl' | hl' := mem_append.mp hl'
    · exact h.valid l (hkept.subset hl')
    · exact hreplaces.sound.valid l hl'
  · calc
      L.othersBytes origin + R.bytes ≤ max (min allowance maxAppBytes) L.bytes := htotal
      _ ≤ max allowance L.bytes := max_le_max_right _ (min_le_left _ _)
end
end Leases
end Tako.Presence
