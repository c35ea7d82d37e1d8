import Tako.NetworkHistories
import Tako.StickyDenial

/-! Servers that admit and revoke on replicas of their own make the registry unreadable only where
two of them write rows that clash and do not know of each other's, or by too many rows. -/
namespace Tako.Network
open AgreeingMap Effects Fallible RegistrySnapshot
open Server (Unseen)
variable {C : Crypto} {J : Json} {X : Exchange} {network : NetworkDescriptor} {Ω α : Type}
  {R₀ : Replica C network} {site : Site X Ω} {G : Set Ω} {s t u : RegistrySnapshot} {S : Server Ω}
  {db : Database}
section
open List
variable {rows : List Record}
/-- What was observed is in the snapshot, under its own ids. -/
structure Observed.Within (o : Observed) (t : RegistrySnapshot) : Prop where
  members : ∀ k m, o.members.lookup k = some m → m ∈ t.members ∧ m.deviceId = k
  revocations : ∀ k r, o.revocations.lookup k = some r → r ∈ t.revocations ∧ r.id = k

theorem foldlM_observeRecord_ok {κ τ : Type} [DecidableEq κ] [DecidableEq τ] {key : τ → κ}
    {all records : List τ} {seen : AList (fun _ : κ => τ)}
    (hids : ∀ x ∈ all, ∀ y ∈ all, key x = key y → x = y) (hrecords : records ⊆ all)
    (hseen : ∀ k v, seen.lookup k = some v → v ∈ all ∧ key v = k) :
    ∃ seen', records.foldlM (observeRecord key) seen = .ok seen' ∧
      ∀ k v, seen'.lookup k = some v → v ∈ all ∧ key v = k := by
  refine foldlM_ok (fun _ (seen : AList (fun _ : κ => τ)) =>
    ∀ k v, seen.lookup k = some v → v ∈ all ∧ key v = k) hseen fun done x seen hdone hseen => ?_
  have hx := hrecords (hdone x mem_concat_self)
  unfold observeRecord
  cases hold : seen.lookup (key x) with
  | some old =>
    obtain ⟨hmem, hkey⟩ := hseen _ old hold
    exact ⟨seen, if_neg (not_not.mpr (hids old hmem x hx hkey)), hseen⟩
  | none =>
    refine ⟨_, rfl, fun k v hv => ?_⟩
    by_cases hk : k = key x
    · rw [hk, AList.lookup_insert] at hv
      obtain rfl := Option.some.inj hv
      exact ⟨hx, hk.symm⟩
    · rw [AList.lookup_insert_ne hk] at hv
      exact hseen k v hv

theorem Observed.Within.add {o : Observed} (h : o.Within t) (ht : Coherent C t) (hs : Lists s t) :
    ∃ o', o.add s = .ok o' ∧ o'.Within t ∧
      Lists ⟨s.network, o'.memberList, o'.revocationList, s.acks⟩ t := by
  obtain ⟨_, hmembers, hwithin⟩ := foldlM_observeRecord_ok ht.ids hs.1.members h.members
  obtain ⟨_, hrevocations, hwithin'⟩ :=
    foldlM_observeRecord_ok ht.revocation hs.2.revocations h.revocations
  have hadd : o.add s = .ok ⟨_, _⟩ := (ok_bind hmembers).trans (ok_bind hrevocations)
  obtain ⟨_, hnew, hnew'⟩ := Server.add_eq_ok hadd
  refine ⟨_, hadd, ⟨hwithin, hwithin'⟩, ⟨hs.1.network, fun m hm => ?_, fun r hr => ?_⟩,
    hs.2.network, fun m hm => ?_, fun r hr => ?_⟩
  · obtain ⟨k, hk⟩ := Server.mem_memberList.mp hm
    exact (hwithin k m hk).1
  · exact Server.mem_revocationList.mpr ⟨_, hnew' r (hs.1.revocations r hr)⟩
  · exact Server.mem_memberList.mpr ⟨_, hnew m (hs.2.members m hm)⟩
  · obtain ⟨k, hk⟩ := Server.mem_revocationList.mp hr
    exact (hwithin' k r hk).1

theorem Coherent.revoke (h : Coherent C t) {r : Revocation}
    (hfresh : ∀ x ∈ t.revocations, x.id ≠ r.id) : Coherent C (t.revoke r) := by
  refine ⟨(restricts_revoke t r).valid h.toValid ?_, h.ids⟩
  refine forall_concat (fun x hx => forall_concat (h.revocation x hx) fun hid => ?_)
    (forall_concat (fun x hx hid => ?_) fun _ => rfl)
  · exact absurd hid (hfresh x hx)
  · exact absurd hid.symm (hfresh x hx)

theorem Observed.Within.revoke {o : Observed} (h : o.Within t) (r : Revocation) :
    o.Within (t.revoke r) :=
  ⟨h.members, fun k x hx => ⟨mem_append_left _ (h.revocations k x hx).1, (h.revocations k x hx).2⟩⟩

theorem Lists.revoke (h : Lists s t) (r : Revocation) : Lists (s.revoke r) (t.revoke r) := by
  refine ⟨⟨h.1.network, h.1.members, ?_⟩, h.2.network, h.2.members, ?_⟩
  · exact forall_concat (fun x hx => mem_append_left _ (h.1.revocations x hx)) mem_concat_self
  · exact forall_concat (fun x hx => mem_append_left _ (h.2.revocations x hx)) mem_concat_self

end

/-- The store and the disk answer, from these surroundings on. -/
structure Steady (E : Surroundings X Ω) (G : Set Ω) : Prop where
  fate : ∀ o ∈ G, (E.fate o).1 = .answered ∧ (E.fate o).2 ∈ G
  disk : ∀ o ∈ G, (E.diskFails o).1 = false ∧ (E.diskFails o).2 ∈ G

def At (G : Set Ω) (K : Grown J R₀ → RuntimeState X → Prop) (w : World X (Outside J R₀ Ω)) :
    Prop :=
  w.outside.rest ∈ G ∧ K w.outside.replica w.state

abbrev Runs (site : Site X Ω) (G : Set Ω) (K : Grown J R₀ → RuntimeState X → Prop)
    (m : (site.server : Server (Outside J R₀ Ω)).Prog α)
    (K' : α → Grown J R₀ → RuntimeState X → Prop) : Prop :=
  Settles (fun e => At G fun _ _ => Capacity e) (At G K) m fun a => At G (K' a)

variable {K : Grown J R₀ → RuntimeState X → Prop} {K' : α → Grown J R₀ → RuntimeState X → Prop}
variable {f : RuntimeState X → Except RuntimeError (α × RuntimeState X)}
section
variable (hG : Steady site.surroundings G)
include hG
variable {R₁ : Grown J R₀} {P : Database → Prop}
def InTime (now : ℕ) (db : Database) : Prop := ∃ identity ∈ db.identity, identity.lastTime ≤ now

end

variable {p : Place C X network Ω} {signed : SignedRequest} {now : ℕ} {m : Member}
  {id : RevocationId} {signer target : DeviceId}
section
variable {ι Ω : Type} [DecidableEq ι]
/-- The request is answered as said, unless it is too much. -/
def Answers (J : Json) (site : Site X Ω) (p : Place C X network Ω) (signed : SignedRequest)
    (now : ℕ) (Q : RpcResponse → List Record → Prop) : Prop :=
  Settles (fun e _ => Capacity e) (· = p.world J)
    (site.server.perform (.handle signed "POST" signed.request.path now))
    fun answer w => ∃ a, answer = .response a ∧ Q a (arrived w).rows

end

section
def Exchange.plain : Exchange where
  Private := Vector UInt8 32
  publicKey key := .ok ⟨key⟩
  response key peer _ := .ok ⟨key.zipWith (· + ·) peer.bytes⟩

def Json.plain : Json :=
  ⟨fun _ => [], fun _ => 0, fun _ => 0, fun _ => 0, fun _ => 0, fun _ => 0, fun _ => 0⟩

variable (right : Bool)
def plainSites : Site Exchange.plain Unit where
  serverId := plainId (if right then 3 else 2)
  bootId := ⟨.replicate 16 0⟩
  limits := ⟨1024, 256, 20000, 120, 120, 604800⟩
  keys := ⟨fun _ _ => .ok (plainId (if right then 3 else 2)),
    .ok ⟨.replicate 32 (if right then 3 else 2)⟩, .ok ""⟩
  surroundings :=
    { fate := fun _ => (.answered, ())
      diskFails := fun _ => (false, ())
      randomId := fun _ => (.ok ⟨.replicate 16 5⟩, ())
      generateX25519 := fun _ => (.ok (.replicate 32 6), ()) }

def asked (signer : UInt8) (name : String) (now : ℕ) (request : RpcRequest) : SignedRequest :=
  { networkId := plainNetwork.id, serverId := (plainSites right).serverId, signer := plainId signer
    timestamp := now, nonce := ⟨.replicate 16 (UInt8.ofNat now)⟩, request, signature := name }

end

end Tako.Network
