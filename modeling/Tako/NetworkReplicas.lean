import Mathlib.Data.List.Nodup
import Tako.RegistryRows

/-! Replicas of the table of a network: servers write to their own, and rows pass from one to
another. A server writes no row that clashes with one it has. -/
namespace Tako.Network
open Effects Fallible RegistrySnapshot List Relation
section
variable (C : Crypto) (J : Json) (network : NetworkDescriptor)
/-- How the store writes a row. The descriptor is there from the start. -/
def write : Record → List Record → Except RuntimeError Unit × List Record
  | .ack a => appendAck C J network a
  | .member m => appendMember C J network m
  | .network _ => fun rows => (.ok (), rows)
  | .revocation r => appendRevocation J network r

/-- Rows stay, but for acknowledgements, and only the one may be new. Then none clashes with
it. -/
structure Writes (row : Record) (rows rows' : List Record) : Prop where
  kept : ∀ x ∈ rows, x.kind ≠ .ack → x ∈ rows'
  only : ∀ x ∈ rows', x ∈ rows ∨ x = row
  nodup : rows'.Nodup
  fresh : row ∉ rows → row ∈ rows' → row.Sound C network ∧ ∀ x ∈ rows',
    x.Clashes C network (Admissible C (collected network rows')) row → x = row
end

section
variable {C : Crypto} {J : Json} {network : NetworkDescriptor} {rows rows' : List Record}
  {row : Record}

theorem Writes.sound (h : Writes C network row rows rows') (hrows : SoundRows C network rows) :
    SoundRows C network rows' := by
  refine ⟨h.nodup, h.kept _ hrows.pinned nofun, fun x hx => ?_⟩
  obtain hold | rfl := h.only x hx
  · exact hrows.sound x hold
  · by_cases hold : x ∈ rows
    · exact hrows.sound x hold
    · exact (h.fresh hold hx).1

theorem writes_refl (hnodup : rows.Nodup) : Writes C network row rows rows :=
  ⟨fun _ hx _ => hx, fun _ hx => .inl hx, hnodup, fun hnew hrow => absurd hrow hnew⟩

theorem writes_insertRecord (hnodup : rows.Nodup) (hsound : row.Sound C network)
    (halone : ∀ x ∈ rows,
      x.Clashes C network (Admissible C (collected network (rows ++ [row]))) row → x = row) :
    Writes C network row rows (insertRecord J rows row).2 := by
  unfold insertRecord
  split
  · exact writes_refl hnodup
  · dsimp only
    split
    · exact writes_refl hnodup
    · rename_i hnew
      refine ⟨fun x hx _ => mem_append_left _ hx, fun x hx => ?_, ?_, fun _ _ => ⟨hsound, ?_⟩⟩
      · exact (mem_append.mp hx).imp_right mem_singleton.mp
      · rw [← concat_eq_append]
        exact hnodup.concat hnew
      · exact forall_concat halone fun _ => rfl

theorem checkMember_eq_true {m : Member} (h : checkMember C J network rows m = .ok true) :
    SoundMember C network m ∧ ∀ x ∈ rows, x.Clashes C network
      (Admissible C (collected network (rows ++ [.member m]))) (.member m) → x = .member m := by
  obtain ⟨_, _, h⟩ := bind_eq_ok h
  obtain ⟨s, hproject, h⟩ := bind_eq_ok h
  obtain ⟨hlists, _⟩ := project_eq_ok hproject
  split at h
  · split at h <;> cases h
  rename_i hnone
  obtain ⟨_, h⟩ := check_eq_ok h
  obtain ⟨_, _, h⟩ := bind_eq_ok h
  obtain ⟨_, h⟩ := check_eq_ok h
  obtain ⟨_, hvalid, _⟩ := bind_eq_ok h
  have hvalid : Valid C (s.withMembers [m]) :=
    validate_eq_ok_iff.mp (Server.ofDomain_eq_ok hvalid)
  have hm : m ∈ (s.withMembers [m]).members := mem_concat_self
  have hnetwork : s.network = network := hlists.1.network
  have hadmissible {x : Member} (hx : Admissible C (collected network (rows ++ [.member m])) x) :
      Admissible C (s.withMembers [m]) x := by
    refine Admissible.anti hx fun r hr => mem_revocations_collected.mpr (mem_append_left _ ?_)
    exact mem_revocations_collected.mp (hlists.2.revocations r hr)
  constructor
  · have hm := hvalid.acceptable m hm
    rw [← hnetwork]
    refine ⟨hm.valid, hm.network, fun hverified => ?_⟩
    obtain ⟨_, hdenied⟩ := hm.readable hverified
    exact (denied_eq_ok_iff.mp hdenied).1
  · intro x hx hclash
    cases x with
    | member x =>
      have hx := hlists.2.members x (mem_members_collected.mpr hx)
      have hx' : x ∈ (s.withMembers [m]).members := mem_append_left _ hx
      have hid : x.deviceId = m.deviceId := by
        obtain ⟨_, hid⟩ | ⟨hcounts, hcounts', hkey | hkey | hkey⟩ := hclash
        · exact deviceId_inj hid
        · exact hvalid.wgKey x hx' m hm (hadmissible hcounts) (hadmissible hcounts') hkey
        · exact hvalid.sshKey x hx' m hm (hadmissible hcounts) (hadmissible hcounts') hkey
        · rw [← hnetwork] at hkey
          exact hvalid.address x hx' m hm (hadmissible hcounts) (hadmissible hcounts') hkey
      simpa [hid] using find?_eq_none.mp hnone x hx
    | ack | network | revocation => cases hclash.kind

theorem writes_appendMember (h : SoundRows C network rows) (m : Member) :
    Writes C network (.member m) rows (appendMember C J network m rows).2 := by
  unfold appendMember
  split
  · exact writes_refl h.nodup
  · exact writes_refl h.nodup
  · rename_i hcheck
    obtain ⟨hsound, halone⟩ := checkMember_eq_true hcheck
    have hinsert : Writes C network (.member m) rows (insertRecord J rows (.member m)).2 :=
      writes_insertRecord h.nodup hsound halone
    split
    all_goals
      rename_i hrun
      rw [hrun] at hinsert
      exact hinsert

theorem findRecord_eq_none {kind : RecordKind} {id : List UInt8}
    (h : findRecord J rows kind id = .ok none) : ∀ x ∈ rows, x.kind = kind → x.id ≠ id := by
  unfold findRecord at h
  split at h
  · rename_i hfilter
    intro x hx hkind hid
    simpa [hkind, hid] using filter_eq_nil_iff.mp hfilter x hx
  · split at h <;> cases h
  · cases h

theorem writes_appendRevocation (h : SoundRows C network rows) (r : Revocation) :
    Writes C network (.revocation r) rows (appendRevocation J network r rows).2 := by
  unfold appendRevocation
  split
  · exact writes_refl h.nodup
  · exact writes_refl h.nodup
  · rename_i hcheck
    have hnone : findRecord J rows .revocation r.id.bytes.toList = .ok none := by
      obtain ⟨_, _, hcheck⟩ := bind_eq_ok hcheck
      obtain ⟨row, hfind, hcheck⟩ := bind_eq_ok hcheck
      cases row with
      | none => exact hfind
      | some =>
        dsimp only at hcheck
        split at hcheck <;> cases hcheck
    have hinsert : Writes C network (.revocation r) rows
        (insertRecord J rows (.revocation r)).2 := by
      refine writes_insertRecord h.nodup trivial fun x hx hclash => ?_
      obtain ⟨hkind, hid⟩ | hshares := hclash
      · exact absurd hid (findRecord_eq_none hnone x hx hkind)
      · cases x <;> cases hshares
    split
    all_goals
      rename_i hrun
      rw [hrun] at hinsert
      exact hinsert

theorem writes_appendAck (h : SoundRows C network rows) (a : Ack) :
    Writes C network (.ack a) rows (appendAck C J network a rows).2 := by
  unfold appendAck
  split
  · exact writes_refl h.nodup
  · have hmem (x : Record) :
        x ∈ (if .ack a ∈ rows then rows else rows ++ [.ack a]) ↔ x ∈ rows ∨ x = .ack a := by
      split
      · rename_i ha
        exact (or_iff_left_of_imp fun hx => hx ▸ ha).symm
      · rw [mem_append, mem_singleton]
    refine ⟨fun x hx hkind => mem_filter.mpr ⟨(hmem x).mpr (.inl hx), ?_⟩,
      fun x hx => (hmem x).mp (mem_filter.mp hx).1, ?_, fun _ _ => ⟨trivial, fun x _ hclash => ?_⟩⟩
    · cases x with
      | ack => exact absurd rfl hkind
      | member | network | revocation => rfl
    · apply Nodup.filter
      split
      · exact h.nodup
      · rename_i hnew
        rw [← concat_eq_append]
        exact h.nodup.concat hnew
    · exact hclash.eq_of_ack hclash.kind

theorem writes_write (h : SoundRows C network rows) (row : Record) :
    Writes C network row rows (write C J network row rows).2 := by
  cases row with
  | ack a => exact writes_appendAck h a
  | member m => exact writes_appendMember h m
  | network => exact writes_refl h.nodup
  | revocation r => exact writes_appendRevocation h r
end

section
variable (C : Crypto) (J : Json) (network : NetworkDescriptor)
structure Replica where
  rows : List Record
  sound : SoundRows C network rows

variable {C network}
def Replica.write (R : Replica C network) (row : Record) :
    Except RuntimeError Unit × Replica C network :=
  ((Network.write C J network row R.rows).1, ⟨_, (writes_write (J := J) R.sound row).sound R.sound⟩)

def Written (R R' : Replica C network) : Prop := ∃ row, (R.write J row).2 = R'

/-- A replica that has come from another one by writes. -/
structure Grown (R₀ : Replica C network) where
  replica : Replica C network
  grown : ReflTransGen (Written J) R₀ replica

def Grown.write {R₀ : Replica C network} (R : Grown J R₀) (row : Record) :
    Except RuntimeError Unit × Grown J R₀ :=
  ((R.replica.write J row).1, ⟨_, R.grown.tail ⟨row, rfl⟩⟩)

variable {J} {R R' : Replica C network}
theorem Written.kept (h : Written J R R') {x : Record} (hx : x ∈ R.rows) (hkind : x.kind ≠ .ack) :
    x ∈ R'.rows := by
  obtain ⟨row, rfl⟩ := h
  exact (writes_write (J := J) R.sound row).kept x hx hkind

theorem kept_of_grown (h : ReflTransGen (Written J) R R') {x : Record} (hx : x ∈ R.rows)
    (hkind : x.kind ≠ .ack) : x ∈ R'.rows := by
  induction h with
  | refl => exact hx
  | tail _ hstep ih => exact hstep.kept ih hkind

/-- However many rows were written: a new one clashes with none that counts. -/
theorem alone_of_grown (h : ReflTransGen (Written J) R R') {x y : Record} (hx : x ∈ R'.rows)
    (hy : y ∈ R'.rows) (hnew : y ∉ R.rows)
    (hclash : x.Clashes C network (Admissible C (collected network R'.rows)) y) : x = y := by
  induction h with
  | refl => exact absurd hy hnew
  | @tail R₁ _ _ hstep ih =>
    have hbefore := hclash.before fun r hr => hstep.kept hr nofun
    obtain ⟨row, rfl⟩ := hstep
    have hwrites := writes_write (J := J) R₁.sound row
    by_cases hy₁ : y ∈ R₁.rows
    · by_cases hx₁ : x ∈ R₁.rows
      · exact ih hx₁ hy₁ hbefore
      · obtain rfl := (hwrites.only x hx).resolve_left hx₁
        exact ((hwrites.fresh hx₁ hx).2 y hy hclash.symm).symm
    · obtain rfl := (hwrites.only y hy).resolve_left hy₁
      exact (hwrites.fresh hy₁ hy).2 x hx hclash
end

end Tako.Network
