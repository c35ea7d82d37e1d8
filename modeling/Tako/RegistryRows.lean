import Tako.NetworkMerge
import Tako.NetworkMoves
import Tako.NetworkStore

/-! What is read from the rows of a network, and which rows can be read. -/
namespace Tako.Network
open AgreeingMap Fallible RegistrySnapshot List
def Capacity (e : RuntimeError) : Prop := ∃ what, e = .capacity what

namespace Record
def asMember : Record → Option Member
  | .member m => some m
  | _ => none

def asRevocation : Record → Option Revocation
  | .revocation r => some r
  | _ => none
end Record

section
variable (C : Crypto) (network : NetworkDescriptor) (rows : List Record)
/-- The records of the rows, as a snapshot. -/
def collected : RegistrySnapshot :=
  ⟨network, rows.filterMap Record.asMember, rows.filterMap Record.asRevocation, []⟩

structure SoundMember (m : Member) : Prop where
  valid : m.validate C = .ok ()
  network : m.networkId = network.id
  readable : m.wgVerified = true → ∃ ssh, m.request.sshPublicKey.fingerprint C = .ok ssh

def Record.Sound : Record → Prop
  | .member m => SoundMember C network m
  | .network d => d = network
  | _ => True

structure SoundRows : Prop where
  nodup : rows.Nodup
  pinned : .network network ∈ rows
  sound : ∀ row ∈ rows, row.Sound C network

def Record.Shares (counts : Member → Prop) : Record → Record → Prop
  | .member m, .member m' => counts m ∧ counts m' ∧
    (m.request.wgPublicKey = m'.request.wgPublicKey ∨
      m.request.sshPublicKey = m'.request.sshPublicKey ∨
      network.id.address C m.request.wgPublicKey = network.id.address C m'.request.wgPublicKey)
  | _, _ => False

instance {counts : Member → Prop} [DecidablePred counts] (x y : Record) :
    Decidable (x.Shares C network counts y) := by
  unfold Record.Shares
  split <;> infer_instance

/-- The rows are of one kind and id, or of members who count and share a key or an
address. -/
def Record.Clashes (counts : Member → Prop) (x y : Record) : Prop :=
  x.kind = y.kind ∧ x.id = y.id ∨ x.Shares C network counts y

instance {counts : Member → Prop} [DecidablePred counts] (x y : Record) :
    Decidable (x.Clashes C network counts y) :=
  inferInstanceAs (Decidable (_ ∨ _))

/-- No two rows contradict each other. Those who are denied do not count. -/
def Agreeing : Prop :=
  ∀ x ∈ rows, ∀ y ∈ rows,
    x.Clashes C network (Admissible C (collected network rows)) y → x = y

/-- The snapshot is valid, and no two of its members have one id, verified or not. -/
structure Coherent (t : RegistrySnapshot) : Prop extends Valid C t where
  ids : ∀ x ∈ t.members, ∀ y ∈ t.members, x.deviceId = y.deviceId → x = y

/-- The snapshots hold the same members and revocations. -/
def Lists (u t : RegistrySnapshot) : Prop := Restricts u t ∧ Restricts t u
end

variable {C : Crypto} {network : NetworkDescriptor} {rows : List Record} {row : Record}
  {s t u : RegistrySnapshot} {m : Member}
section
variable {x y : Record} {P Q : Member → Prop}

theorem mem_members_collected :
    m ∈ (collected network rows).members ↔ .member m ∈ rows := by
  have hrow (row : Record) : row.asMember = some m ↔ row = .member m := by
    cases row <;> simp [Record.asMember]
  simp [collected, hrow]

theorem mem_revocations_collected {r : Revocation} :
    r ∈ (collected network rows).revocations ↔ .revocation r ∈ rows := by
  have hrow (row : Record) : row.asRevocation = some r ↔ row = .revocation r := by
    cases row <;> simp [Record.asRevocation]
  simp [collected, hrow]

theorem deviceId_inj {a b : DeviceId} (h : a.bytes.toList = b.bytes.toList) : a = b :=
  congrArg DeviceId.mk (Vector.toList_inj.mp h)

theorem ack_inj {a b : Ack} (h : (Record.ack a).id = (Record.ack b).id) : a = b := by
  obtain ⟨⟨ar⟩, ⟨as⟩, ⟨ab⟩⟩ := a
  obtain ⟨⟨br⟩, ⟨bs⟩, ⟨bb⟩⟩ := b
  have h : ar.toList ++ as.toList ++ ab.toList = br.toList ++ bs.toList ++ bb.toList := h
  rw [append_assoc, append_assoc] at h
  obtain ⟨hr, h⟩ := append_inj h (by simp only [Vector.length_toList])
  obtain ⟨hs, hb⟩ := append_inj h (by simp only [Vector.length_toList])
  rw [Vector.toList_inj.mp hr, Vector.toList_inj.mp hs, Vector.toList_inj.mp hb]

theorem Record.Clashes.kind (h : x.Clashes C network P y) : x.kind = y.kind := by
  obtain ⟨hkind, _⟩ | h := h
  · exact hkind
  · cases x <;> cases y <;> first | rfl | cases h

theorem Record.Clashes.eq_of_ack (h : x.Clashes C network P y) (hx : x.kind = .ack) : x = y := by
  have hy := h.kind.symm.trans hx
  cases x <;> cases hx
  cases y <;> cases hy
  obtain ⟨_, hid⟩ | hshares := h
  · rw [ack_inj hid]
  · cases hshares

theorem Record.Clashes.symm (h : x.Clashes C network P y) : y.Clashes C network P x := by
  obtain ⟨hkind, hid⟩ | h := h
  · exact .inl ⟨hkind.symm, hid.symm⟩
  · cases x <;> cases y <;> try cases h
    rename_i hm h
    exact .inr ⟨h.1, hm, h.2.imp Eq.symm (Or.imp Eq.symm Eq.symm)⟩

theorem Record.Clashes.mono (h : x.Clashes C network P y) (hP : ∀ m, P m → Q m) :
    x.Clashes C network Q y := by
  refine h.imp_right fun h => ?_
  cases x <;> cases y <;> try cases h
  rename_i hm h
  exact ⟨hP _ hm, hP _ h.1, h.2⟩

theorem Admissible.anti (h : Admissible C t m) (hrevocations : s.revocations ⊆ t.revocations) :
    Admissible C s m := by
  obtain ⟨hverified, hreadable, hnot⟩ := admissible_iff.mp h
  exact admissible_iff.mpr ⟨hverified, hreadable, fun r hr => hnot r (hrevocations hr)⟩

/-- Who counts where there are more denials counts where there are fewer. -/
theorem Record.Clashes.before {rows' : List Record}
    (h : x.Clashes C network (Admissible C (collected network rows')) y)
    (hkept : ∀ r, .revocation r ∈ rows → .revocation r ∈ rows') :
    x.Clashes C network (Admissible C (collected network rows)) y := by
  refine h.mono fun m hm => Admissible.anti hm fun r hr => ?_
  exact mem_revocations_collected.mpr (hkept r (mem_revocations_collected.mp hr))

theorem Lists.valid (h : Lists u t) (ht : Valid C t) : Valid C u := by
  apply h.1.valid ht
  intro r hr r' hr'
  exact ht.revocation r (h.2.revocations r hr) r' (h.2.revocations r' hr')

theorem Lists.effective_iff (h : Lists u t) {now : ℕ} {id : DeviceId} :
    Effective C u now id m ↔ Effective C t now id m :=
  ⟨h.1.effective, h.2.effective⟩

theorem Lists.of_eq (h : Lists u t) (hnetwork : s.network = u.network)
    (hmembers : s.members = u.members) (hrevocations : s.revocations = u.revocations) :
    Lists s t := by
  obtain ⟨_, _, _, _⟩ := s
  obtain ⟨_, _, _, _⟩ := u
  cases hnetwork
  cases hmembers
  cases hrevocations
  exact ⟨⟨h.1.network, h.1.members, h.1.revocations⟩, h.2.network, h.2.members, h.2.revocations⟩
end

section
variable {J : Json} {done : List Record} {p p' : RecordProjection} {e : RuntimeError}

/-- What the projection has taken from the rows so far. -/
structure Gathered (network : NetworkDescriptor) (done : List Record) (p : RecordProjection) :
    Prop where
  pinned : p.snapshot.network = network
  members : ∀ m, m ∈ p.snapshot.members ↔ .member m ∈ done
  revocations : ∀ r, r ∈ p.snapshot.revocations ↔ .revocation r ∈ done
  last : ∀ row ∈ p.last, row ∈ done
  seen : .network network ∈ done → p.networkSeen = true

theorem Gathered.take (h : Gathered network done p)
    (htake : { p with last := some row }.take J row = .ok p') :
    Gathered network (done ++ [row]) p' := by
  have hlast : ∀ x ∈ some row, x ∈ done ++ [row] := by simp
  cases row with
  | ack a =>
    unfold RecordProjection.take at htake
    dsimp only at htake
    split at htake
    all_goals
      cases htake
      exact ⟨h.pinned, by simp [h.members], by simp [h.revocations], hlast, by simpa using h.seen⟩
  | member m =>
    obtain ⟨_, _, htake⟩ := bind_eq_ok htake
    cases htake
    exact ⟨h.pinned, by simp [h.members], by simp [h.revocations], hlast, by simpa using h.seen⟩
  | network d =>
    obtain ⟨_, htake⟩ := check_eq_ok htake
    obtain ⟨_, _, htake⟩ := bind_eq_ok htake
    cases htake
    exact ⟨h.pinned, by simp [h.members], by simp [h.revocations], hlast, fun _ => rfl⟩
  | revocation r =>
    obtain ⟨_, _, htake⟩ := bind_eq_ok htake
    cases htake
    exact ⟨h.pinned, by simp [h.members], by simp [h.revocations], hlast, by simpa using h.seen⟩

theorem Gathered.push (h : Gathered network done p) (hpush : p.push J row = .ok p') :
    Gathered network (done ++ [row]) p' := by
  obtain ⟨_, hpush⟩ := check_eq_ok hpush
  split at hpush
  · obtain ⟨hsame, hpush⟩ := check_eq_ok hpush
    cases hpush
    -- the row is there already
    have hmem (x : Record) : x ∈ done ++ [row] ↔ x ∈ done := by
      have hrow : row ∈ done := h.last row (not_not.mp hsame)
      rw [mem_append, mem_singleton]
      exact or_iff_left_of_imp fun hx => hx ▸ hrow
    exact ⟨h.pinned, fun m => (h.members m).trans (hmem _).symm,
      fun r => (h.revocations r).trans (hmem _).symm, fun x hx => (hmem x).mpr (h.last x hx),
      fun hseen => h.seen ((hmem _).mp hseen)⟩
  · obtain ⟨_, htake, hpush⟩ := bind_eq_ok hpush
    obtain ⟨_, hpush⟩ := check_eq_ok hpush
    cases hpush
    exact h.take htake

theorem gathered_new : Gathered network [] (RecordProjection.new network) :=
  ⟨rfl, by simp [RecordProjection.new], by simp [RecordProjection.new],
    by simp [RecordProjection.new], nofun⟩

theorem Gathered.lists {acks : List Ack}
    (h : Gathered network (rows.insertionSort Record.Before) p) :
    Lists { p.snapshot with acks } (collected network rows) := by
  have hmember (m : Member) : m ∈ p.snapshot.members ↔ m ∈ (collected network rows).members := by
    rw [h.members, mem_insertionSort, mem_members_collected]
  have hrevocation (r : Revocation) :
      r ∈ p.snapshot.revocations ↔ r ∈ (collected network rows).revocations := by
    rw [h.revocations, mem_insertionSort, mem_revocations_collected]
  exact ⟨⟨h.pinned, fun m => (hmember m).mp, fun r => (hrevocation r).mpr⟩,
    h.pinned.symm, fun m => (hmember m).mpr, fun r => (hrevocation r).mp⟩

theorem project_eq_ok (h : project C J network rows = .ok s) :
    Lists s (collected network rows) ∧ Valid C s := by
  obtain ⟨p, hrows, h⟩ := bind_eq_ok h
  have hgathered : Gathered network (rows.insertionSort Record.Before) p :=
    foldlM_invariant hrows gathered_new fun _ _ _ _ _ hp hpush => hp.push hpush
  obtain ⟨_, h⟩ := check_eq_ok h
  obtain ⟨_, hbound, h⟩ := bind_eq_ok h
  obtain ⟨_, hvalid, h⟩ := bind_eq_ok h
  cases h
  obtain ⟨hnetwork, hmembers, hrevocations⟩ := Server.boundProjection_eq_ok hbound
  exact ⟨hgathered.lists.of_eq hnetwork hmembers hrevocations,
    validate_eq_ok_iff.mp (Server.ofDomain_eq_ok hvalid)⟩

end

end Tako.Network
