import Tako.PresenceBudget

/-! What an operation of a broker can do to the leases of one application, to those
of one origin among them, and to its peers. -/
namespace Tako.Presence
open Relational Fallible List
open Tako.Network (DeviceId AppEnv)
variable {J : PresenceJson}
variable {a : Application J} {operation : Broker.Operation J} {env : Surroundings J}
  {peer : DeviceId} {allowance : ℤ} {b b' : Broker J}
section
variable {o : DeviceId} {now : ℕ} {L L' L'' : Leases J}
structure Keeps (o : DeviceId) (now : ℕ) (L L' : Leases J) : Prop where
  sub : ∀ l ∈ L'.members.rows, l.origin = o → l ∈ L.members.rows
  kept : ∀ l ∈ L.members.rows, l.origin = o → now < l.expires → l ∈ L'.members.rows

theorem keeps_of_members (h : L'.members = L.members) : Keeps o now L L' := by
  refine ⟨?_, ?_⟩
  · intro l hl _
    rwa [h] at hl
  · intro _ _ _ _
    rwa [h]

theorem Keeps.trans (h : Keeps o now L L') (h' : Keeps o now L' L'') : Keeps o now L L'' := by
  refine ⟨?_, ?_⟩
  · intro l hl ho
    exact h.sub l (h'.sub l hl ho) ho
  · intro l hl ho hlive
    exact h'.kept l (h.kept l hl ho hlive) ho hlive

variable {l : Lease J}
theorem mem_retain {p : Lease J → Prop} [DecidablePred p] :
    l ∈ (L.retain p).members.rows ↔ l ∈ L.members.rows ∧ p l := by
  have hrows : (L.retain p).members.rows = L.members.rows.filter (fun l => ¬¬p l) := rfl
  rw [hrows, mem_filter]
  simp

theorem keeps_expire (L : Leases J) : Keeps o now L (L.expire now) :=
  ⟨fun _ hl _ => (mem_retain.mp hl).1, fun _ hl _ hlive => mem_retain.mpr ⟨hl, hlive⟩⟩

theorem keeps_clearRemote (L : Leases J) : Keeps o now L (L.clearRemote o) :=
  ⟨fun _ hl _ => (mem_retain.mp hl).1, fun _ hl ho _ => mem_retain.mpr ⟨hl, ho⟩⟩

theorem keeps_update (hl : l.origin ≠ o) : Keeps o now L (L.update l) := by
  refine ⟨?_, ?_⟩
  · intro x hx hxo
    obtain rfl | ⟨hx, _⟩ := L.members.mem_replaceRow.mp hx
    · exact absurd hxo hl
    · exact hx
  · intro x hx hxo _
    apply L.members.mem_replaceRow.mpr
    refine .inr ⟨hx, ?_⟩
    intro hkey
    exact hl ((congrArg Key.origin hkey).symm.trans hxo)

variable {origin : DeviceId}
theorem mem_leave {channel id : String} : l ∈ (L.leave origin channel id).members.rows ↔
      l ∈ L.members.rows ∧ l.key ≠ ⟨origin, channel, id⟩ := by
  have hrows : (L.leave origin channel id).members.rows =
      L.members.rows.filter (fun l => ¬l.key = ⟨origin, channel, id⟩) := rfl
  rw [hrows, mem_filter]
  simp

theorem keeps_leave (horigin : origin ≠ o) (channel id : String) :
    Keeps o now L (L.leave origin channel id) := by
  refine ⟨fun l hl _ => (mem_leave.mp hl).1, ?_⟩
  intro l hl ho _
  refine mem_leave.mpr ⟨hl, ?_⟩
  intro hkey
  exact horigin ((congrArg Key.origin hkey).symm.trans ho)

theorem mem_others : l ∈ (L.others origin).rows ↔ l ∈ L.members.rows ∧ l.origin ≠ origin := by
  have hrows : (L.others origin).rows = L.members.rows.filter (fun l => ¬l.origin = origin) := rfl
  rw [hrows, mem_filter]
  simp

theorem keeps_replaceRemote (horigin : origin ≠ o) {sequence now' : ℕ}
    {records : List (SnapshotLease J)} {nowMs : ℤ}
    (hok : L.replaceRemote origin sequence records now' nowMs allowance = .ok L') :
    Keeps o now L L' := by
  obtain ⟨_, rfl⟩ | ⟨R, _, hR, _, rfl⟩ := Leases.replaceRemote_cases hok
  · exact keeps_of_members rfl
  have hrows := Leases.rows_replaced (L := L) (Leases.origin_of_foldlM hR)
  refine ⟨?_, ?_⟩
  · intro l hl ho
    have hl' : l ∈ (L.others origin).rows ++ R.members.rows := hrows ▸ hl
    obtain hl' | hl' := mem_append.mp hl'
    · exact (mem_others.mp hl').1
    · exact absurd ((Leases.origin_of_foldlM hR l hl').symm.trans ho) horigin
  · intro l hl ho _
    have hl' : l ∈ (L.others origin).rows ++ R.members.rows :=
      mem_append_left _ (mem_others.mpr ⟨hl, fun h => horigin (h.symm.trans ho)⟩)
    exact hrows ▸ hl'
end

section
variable {R : Leases J → Leases J → Prop} {b'' : Broker J} {app app' : AppEnv}

def Broker.leasesOf (b : Broker J) (app : AppEnv) : Leases J :=
  ((b.apps.get? app).map Application.presence).getD .empty

def Broker.backend (b : Broker J) (app : AppEnv) : Option (Option String) :=
  (b.apps.get? app).map Application.postgresUrl

theorem leasesOf_of_get? (ha : b.apps.get? app = some a) :
    b.leasesOf app = a.presence := by
  unfold Broker.leasesOf
  rw [ha]
  rfl

theorem leasesOf_of_none (h : b.apps.get? app = none) : b.leasesOf app = .empty := by
  unfold Broker.leasesOf
  rw [h]
  rfl

theorem leasesOf_modify (b : Broker J) (app : AppEnv) {f : Leases J → Leases J}
    (hempty : f .empty = .empty) : (b.modify app f).leasesOf app = f (b.leasesOf app) := by
  unfold Broker.leasesOf
  rw [Broker.get?_modify]
  cases b.apps.get? app with
  | none => exact hempty.symm
  | some => simp

/-- A relation that holds between the leases of an application before and after an
operation, whatever the broker does to them on its own. -/
structure Closed (R : Leases J → Leases J → Prop) (here : DeviceId) (now : ℕ) : Prop where
  refl : ∀ L, R L L
  trans : ∀ L L' L'', R L L' → R L' L'' → R L L''
  expire : ∀ L, R L (L.expire now)
  clear : ∀ L, R L (L.clearRemote here)

/-- A relation that also holds when `origin` changes its own leases. -/
structure Tolerates (R : Leases J → Leases J → Prop) (origin : DeviceId) : Prop where
  update : ∀ L l, l.origin = origin → R L (L.update l)
  leave : ∀ L channel id, R L (L.leave origin channel id)
  received : ∀ L n, R L (L.setReceived origin n)
  replace : ∀ L L' sequence records now nowMs allowance,
    L.replaceRemote origin sequence records now nowMs allowance = .ok L' → R L L'

/-- What an operation does to an application. Only a registration changes its backend. -/
structure Affects (R : Leases J → Leases J → Prop) (operation : Broker.Operation J) (app : AppEnv)
    (b b' : Broker J) : Prop where
  here : b'.here = b.here
  leases : R (b.leasesOf app) (b'.leasesOf app)
  backend : (∀ url, operation ≠ .register app url) → b'.backend app = b.backend app

theorem Affects.trans (htrans : ∀ L L' L'', R L L' → R L' L'' → R L L'')
    (h : Affects R operation app b b') (h' : Affects R operation app b' b'') :
    Affects R operation app b b'' :=
  ⟨h'.here.trans h.here, htrans _ _ _ h.leases h'.leases,
    fun hregister => (h'.backend hregister).trans (h.backend hregister)⟩

section
variable (hrefl : ∀ L, R L L)
include hrefl
theorem affects_of_get? (hhere : b'.here = b.here) {f : Application J → Application J}
    (hget : b'.apps.get? app = (b.apps.get? app).map f)
    (hf : ∀ a, b.apps.get? app = some a → R a.presence (f a).presence)
    (hurl : (∀ url, operation ≠ .register app url) → ∀ a, (f a).postgresUrl = a.postgresUrl) :
    Affects R operation app b b' := by
  refine ⟨hhere, ?_, fun hregister => ?_⟩
  · cases ha : b.apps.get? app with
    | none =>
      rw [ha] at hget
      rw [leasesOf_of_none ha, leasesOf_of_none hget]
      exact hrefl _
    | some a =>
      rw [ha] at hget
      rw [leasesOf_of_get? ha, leasesOf_of_get? hget]
      exact hf a ha
  · unfold Broker.backend
    rw [hget, Option.map_map]
    congr 1
    exact funext (hurl hregister)

theorem affects_of_apps (hhere : b'.here = b.here) (happs : b'.apps = b.apps) :
    Affects R operation app b b' :=
  affects_of_get? hrefl hhere (f := id) (by rw [happs, Option.map_id, id]) (fun _ _ => hrefl _)
    fun _ _ => rfl

theorem affects_updateWhere (app' : AppEnv) (f : Application J → Application J)
    (hf : ∀ a, (f a).app = a.app)
    (hpresence : app' = app → ∀ a, b.apps.get? app = some a → R a.presence (f a).presence)
    (hurl : app' = app → (∀ url, operation ≠ .register app url) →
      ∀ a, (f a).postgresUrl = a.postgresUrl) : Affects R operation app b
      { b with apps := b.apps.updateWhere (fun a => a.app = app') f hf } := by
  by_cases happ : app' = app
  · exact affects_of_get? hrefl rfl ((b.apps.get?_updateWhere_key _ f hf app).trans
      (if_pos happ.symm)) (hpresence happ) (hurl happ)
  · refine affects_of_get? hrefl rfl (f := id) ?_ (fun _ _ => hrefl _) fun _ _ => rfl
    rw [Option.map_id, id, Table.get?_updateWhere_key, if_neg (Ne.symm happ)]

theorem affects_modify (f : Leases J → Leases J)
    (hf : app' = app → ∀ a, b.apps.get? app = some a → R a.presence (f a.presence)) :
    Affects R operation app b (b.modify app' f) :=
  affects_updateWhere hrefl app' (fun a => { a with presence := f a.presence }) (fun _ => rfl) hf
    fun _ _ _ => rfl

theorem affects_put {L : Leases J} (ha : b.apps.get? app' = some a)
    (hL : app' = app → R a.presence L) : Affects R operation app b (b.modify app' fun _ => L) := by
  apply affects_modify hrefl
  rintro rfl _ ha'
  rw [ha] at ha'
  cases ha'
  exact hL rfl
end

structure Local (R : Leases J → Leases J → Prop) (here : DeviceId) : Prop where
  changes : Tolerates R here
  numbers : ∀ L n, R L { L with sequence := n }

section
variable {here : DeviceId} (hR : Closed R here env.now)
include hR
theorem affects_expireApp : Affects R operation app b (b.modify app' (·.expire env.now)) :=
  affects_modify hR.refl _ fun _ _ _ => hR.expire _

theorem related_applyRemote (htolerates : Tolerates R peer) {L L' : Leases J}
    {publication : Publication J}
    (hok : Broker.applyRemote L env peer allowance publication = .ok L') : R L L' := by
  cases publication with
  | sync | snapshot =>
    rw [← Except.ok.inj hok]
    exact hR.refl L
  | update channel member expiresAtMs sequence =>
    obtain ⟨_, _, hok⟩ := bind_eq_ok hok
    cases httl : remaining expiresAtMs env.nowMs with
    | none =>
      simp only [httl] at hok
      rw [← Except.ok.inj hok]
      exact hR.trans _ _ _ (htolerates.leave L channel member.connectionId)
        (htolerates.received _ sequence)
    | some =>
      simp only [httl] at hok
      rw [← Except.ok.inj hok]
      exact hR.trans _ _ _ (htolerates.update L _ rfl) (htolerates.received _ sequence)
  | leave channel connectionId sequence =>
    obtain ⟨_, _, hok⟩ := bind_eq_ok hok
    obtain ⟨_, _, hok⟩ := bind_eq_ok hok
    rw [← Except.ok.inj hok]
    exact hR.trans _ _ _ (htolerates.leave L channel connectionId)
      (htolerates.received _ sequence)

theorem affects_remotePresence (htolerates : app' = app → Tolerates R peer)
    (publication : Publication J) :
    Affects R operation app b (b.remotePresence env peer app' publication).broker := by
  have hexpired : Affects R operation app b (b.modify app' (·.expire env.now)) :=
    affects_expireApp hR
  obtain heq | ⟨a, L, ha, hL, heq⟩ := Broker.remotePresence_cases b env app' peer publication
  · rw [heq]
    exact hexpired
  · rw [heq]
    refine hexpired.trans hR.trans (affects_put hR.refl ha ?_)
    intro happ
    obtain ⟨_, _, _, hreplace⟩ | happly := hL
    · exact (htolerates happ).replace _ _ _ _ _ _ _ hreplace
    · exact related_applyRemote hR (htolerates happ) happly

section
variable (hlocal : operation.Changes app → Local R here)
  (hremote : ∀ peer publication, operation = .remote peer app publication → Tolerates R peer)
include hlocal hremote
theorem related_writes {L : Leases J} (hhere : b.here = here)
    (h : Broker.Writes env b app a operation L) : R a.presence L := by
  subst hhere
  induction h with
  | update => exact (hlocal rfl).changes.update _ _ rfl
  | leave => exact (hlocal rfl).changes.leave _ _ _
  | number hchanges _ ih =>
    exact hR.trans _ _ _ (ih hremote hlocal) ((hlocal hchanges).numbers _ _)
  | replace hok => exact (hremote _ _ rfl).replace _ _ _ _ _ _ _ hok
  | apply hok => exact related_applyRemote hR (hremote _ _ rfl) hok

/-- What each change of the leases keeps, an operation keeps. -/
theorem affects_moves (hhere : b.here = here) (hmoves : Broker.Moves env operation b b') :
    Affects R operation app b b' := by
  induction hmoves with
  | refl | drops | attaches => exact affects_of_apps hR.refl rfl rfl
  | trans _ _ ih ih' =>
    have h := ih hhere
    exact h.trans hR.trans (ih' (h.here.trans hhere))
  | expires => exact affects_expireApp hR
  | expiresAll =>
    refine affects_of_get? hR.refl rfl
      (f := fun a => { a with presence := a.presence.expire env.now })
      ?_ (fun _ _ => hR.expire _) fun _ _ => rfl
    unfold Broker.expirePresence
    rw [Table.get?_updateWhere]
    simp only [if_true]
  | @changes b app' f hf hpresence hurl =>
    refine affects_updateWhere hR.refl app' f hf (fun _ a _ => ?_) fun happ hregister => ?_
    · obtain heq | heq := hpresence a
      · rw [heq]
        exact hR.refl _
      · rw [heq, hhere]
        exact hR.clear _
    · obtain hurl | ⟨url, hoperation⟩ := hurl
      · exact hurl
      · exact absurd (happ ▸ hoperation) (hregister url)
  | writes ha hwrites =>
    apply affects_put hR.refl ha
    rintro rfl
    exact related_writes hR hlocal hremote hhere hwrites
  | @adds b app' url hnone hoperation =>
    by_cases happ : app' = app
    · subst happ
      refine ⟨rfl, ?_, fun hregister => absurd hoperation (hregister url)⟩
      rw [leasesOf_of_none hnone]
      unfold Broker.leasesOf
      rw [Table.get?_insertIgnore]
      simp only [hnone]
      exact hR.refl _
    · refine affects_of_get? hR.refl rfl (f := id) ?_ (fun _ _ => hR.refl _) fun _ _ => rfl
      rw [Option.map_id, id, Table.get?_insertIgnore]
      simp [happ]

theorem affects_exec (hhere : b.here = here) :
    Affects R operation app b (Broker.exec (operation, env) b).broker :=
  affects_moves hR hlocal hremote hhere (Broker.moves_exec operation env b)
end
end

def Anyhow (_ _ : Leases J) : Prop := True

theorem closed_anyhow (here : DeviceId) (now : ℕ) : Closed (Anyhow (J := J)) here now where
  refl _ := trivial
  trans _ _ _ _ _ := trivial
  expire _ := trivial
  clear _ := trivial

theorem tolerates_anyhow (origin : DeviceId) : Tolerates (Anyhow (J := J)) origin where
  update _ _ _ := trivial
  leave _ _ _ := trivial
  received _ _ := trivial
  replace _ _ _ _ _ _ _ _ := trivial

theorem local_anyhow (here : DeviceId) : Local (Anyhow (J := J)) here where
  changes := tolerates_anyhow here
  numbers _ _ := trivial

theorem affects_anyhow (operation : Broker.Operation J) (env : Surroundings J) (b : Broker J)
    (app : AppEnv) : Affects Anyhow operation app b (Broker.exec (operation, env) b).broker :=
  affects_exec (closed_anyhow b.here env.now) (fun _ => local_anyhow b.here)
    (fun peer _ _ => tolerates_anyhow peer) rfl
end

theorem nodup_peers (hmoves : Broker.Moves env operation b b') (h : b.peers.Nodup) :
    b'.peers.Nodup := by
  induction hmoves with
  | trans _ _ ih ih' => exact ih' (ih h)
  | drops hsublist => exact h.sublist hsublist
  | attaches hnew =>
    apply nodup_append.mpr
    refine ⟨h, nodup_singleton _, ?_⟩
    intro p hp q hq hpq
    rw [hpq, mem_singleton.mp hq] at hp
    exact hnew hp
  | _ => exact h

end Tako.Presence
