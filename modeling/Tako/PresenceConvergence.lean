import Tako.PresenceSource

/-! The connection of two brokers refines a replicated table: what the peer holds is
what the source said, and once all of it has arrived it is what the source has. -/
namespace Tako.Presence
open Relational Replication List Option
open Tako.Network (DeviceId AppEnv)
open Tako.Workflow (saturatingAdd)
variable {J : PresenceJson} {e : Ends} {c c' : Connection J} {env : Surroundings J}
  {L L' : Leases J} {q : List (Publication J)} {lossless : Prop} {now : ℕ} {t : Times}

/-- The source's own leases: over on its clock when they expire, and not before that
for longer than a lease lasts. -/
def Own (e : Ends) (t : Times) (L : Leases J) : Prop :=
  ∀ l ∈ L.members.rows, l.origin = e.origin → l.Timely t ∧ t.Within l.expiresAtMs

theorem Own.mono {t' : Times} (h : Own e t L) (hle : t ≤ t') : Own e t' L := by
  intro l hl horigin
  obtain ⟨htimely, hbounded⟩ := h l hl horigin
  exact ⟨htimely.mono hle, hbounded.mono hle⟩

theorem Own.idle (h : Own e t L) (hidle : Idle e.origin now L L') : Own e t L' := by
  intro l hl horigin
  exact h l (hidle.1.sub l hl horigin) horigin

theorem filterMap_sync {β : Type} {f : Publication J → Option β} (hf : f .sync = none)
    (hq : ∀ p ∈ q, p = .sync) : q.filterMap f = [] := by
  apply filterMap_eq_nil_iff.mpr
  intro p hp
  rw [hq p hp, hf]

variable {l : Link MemberKey (Entry J) Times}
theorem consistent_idle (h : Consistent Times.expired l) (hown : Own e l.now L)
    (hsource : l.source = L.part e.origin) (hidle : Idle e.origin l.now.now L L') :
    Consistent Times.expired { l with source := L'.part e.origin } := by
  have hfades := fades_of_keeps hidle.1 fun l hl horigin => (hown l hl horigin).1
  rw [← hsource] at hfades
  exact consistent_step expired_mono h (.fadeSource l _ hfades)

section
variable {publication : ℕ → Publication J}
theorem told_changes (hchange : Changes e env L L' publication) :
    ∃ change, L'.part e.origin = Function.update (L.part e.origin) change.1 change.2 ∧
      ∀ n, (publication n).numbered? = some (change, n) ∧ (publication n).change? = some change ∧
        (publication n).frame? = some (.change change n) := by
  cases hchange with
  | @update l _ horigin =>
    exact ⟨((l.channel, l.member.connectionId), some l.entry), part_update horigin,
      fun _ => ⟨rfl, rfl, rfl⟩⟩
  | @leave channel id =>
    exact ⟨((channel, id), none), part_leave L e.origin channel id, fun _ => ⟨rfl, rfl, rfl⟩⟩

variable (hepoch : 0 ≤ env.nowMs)
include hepoch
theorem within_reading (t : Times) : (t.reading env).Within (saturatingAdd env.nowMs leaseMs) :=
  ⟨_, mem_cons_self, Nat.le_refl _, stamp_le hepoch⟩

theorem Own.changes (h : Own e (t.reading env) L) (hchange : Changes e env L L' publication) :
    Own e (t.reading env) L' := by
  cases hchange with
  | @update l _ _ hexpires hstamp =>
    intro x hx horigin
    obtain rfl | ⟨hx, _⟩ := L.members.mem_replaceRow.mp hx
    · refine ⟨⟨_, mem_cons_self, ?_⟩, hstamp ▸ within_reading hepoch t⟩
      have hbounded := stamp_le hepoch
      rw [← hstamp] at hbounded
      show x.expiresAtMs + env.now ≤ env.nowMs + x.expires
      rw [hexpires, Nat.cast_add]
      omega
    · exact h x hx horigin
  | leave => exact fun l hl => h l (mem_leave.mp hl).1

theorem genuine_changes (hchange : Changes e env L L' publication) (n : ℕ) :
    (publication n).Genuine e (t.reading env) := by
  cases hchange with
  | update hlease horigin _ hstamp =>
    have howned := hlease.owned
    rw [horigin] at howned
    exact ⟨hlease.member, howned, hstamp ▸ within_reading hepoch t⟩
  | leave hchannel hid => exact ⟨hchannel, hid⟩

theorem Own.acts (h : Own e (t.reading env) L) (hacts : Acts e env lossless L L' q) :
    Own e (t.reading env) L' := by
  cases hacts with
  | quiet hidle | answer hidle => exact h.idle hidle
  | @change L₁ L₂ _ n _ hidle hchange hidle' _ _ =>
    have hchanged := (h.idle hidle).changes hepoch hchange
    exact Own.idle (L := { L₂ with sequence := n }) hchanged hidle'

theorem genuine_acts (hvalid : ∀ l ∈ L'.members.rows, l.Valid) (hown : Own e (t.reading env) L')
    (hacts : Acts e env lossless L L' q) : ∀ p ∈ q, p.Genuine e (t.reading env) := by
  intro p hp
  cases hacts with
  | quiet _ hq =>
    rw [hq p hp]
    trivial
  | answer =>
    rw [mem_singleton.mp hp]
    refine ⟨nodup_records L' e.origin, ?_⟩
    intro r hr
    obtain ⟨l, hl, horigin, rfl⟩ := mem_records.mp hr
    have howned := (hvalid l hl).owned
    rw [horigin] at howned
    exact ⟨(hvalid l hl).member, howned, (hown l hl horigin).2⟩
  | change _ hchange _ hq =>
    obtain rfl | rfl := hq
    · cases hp
    · rw [mem_singleton.mp hp]
      exact genuine_changes hepoch hchange _

theorem consistent_acts (h : Consistent Times.expired l) (hown : Own e l.now L)
    (hnow : l.now = t.reading env) (hsource : l.source = L.part e.origin)
    (hnumber : L.sequence = l.first + l.log.length) (hlossless : lossless)
    (hacts : Acts e env lossless L L' q) :
    L'.sequence = l.first + (l.log ++ q.filterMap Publication.change?).length ∧
    Consistent Times.expired { l with
      source := L'.part e.origin
      log := l.log ++ q.filterMap Publication.change?
      queue := l.queue ++ q.filterMap Publication.frame? } := by
  have hmono := expired_mono (J := J)
  have htime : env.now = l.now.now := by
    rw [hnow]
    rfl
  cases hacts with
  | quiet hidle hq =>
    rw [filterMap_sync rfl hq, filterMap_sync rfl hq, append_nil, append_nil]
    exact ⟨hidle.2.trans hnumber, consistent_idle h hown hsource (htime ▸ hidle)⟩
  | answer hidle =>
    have hanswered := consistent_step hmono (consistent_idle h hown hsource (htime ▸ hidle))
      (.answer _)
    have hsequence : L'.sequence = l.first + l.log.length := hidle.2.trans hnumber
    have hframe : [Publication.snapshot L'.sequence (L'.records e.origin)].filterMap
        Publication.frame? = [.snapshot (L'.part e.origin) (l.first + l.log.length)] := by
      rw [← recorded_records, ← hsequence]
      rfl
    have hchange : [Publication.snapshot L'.sequence (L'.records e.origin)].filterMap
        Publication.change? = [] := rfl
    rw [hframe, hchange, append_nil]
    exact ⟨hsequence, hanswered⟩
  | @change L₁ L₂ publication n q hidle hchange hidle' hq hall =>
    obtain ⟨rfl, hsent⟩ := hall hlossless
    obtain rfl := hq.resolve_left hsent
    obtain ⟨change, hpart, htold⟩ := told_changes hchange
    have hpublished := consistent_step hmono (consistent_idle h hown hsource (htime ▸ hidle))
      (.publish _ change)
    have hsequence : L₁.sequence = l.first + l.log.length := hidle.2.trans hnumber
    -- what is expired or cleared after that
    have hown' : Own e l.now L₂ := by
      rw [hnow] at hown ⊢
      exact (hown.idle hidle).changes hepoch hchange
    have hfaded := consistent_idle (L := { L₂ with sequence := L₁.sequence + 1 }) hpublished
      hown' hpart.symm (htime ▸ hidle')
    rw [filterMap_cons_some (htold _).2.1, filterMap_cons_some (htold _).2.2, hsequence]
    refine ⟨?_, hfaded⟩
    rw [hidle'.2, List.length_append, ← add_assoc, ← hsequence]
    rfl
end

theorem numbered_acts (hlossless : lossless) (hacts : Acts e env lossless L L' q) :
    q.filterMap Publication.numbered? = [] ∨
      ∃ change, q.filterMap Publication.numbered? = [(change, L.sequence + 1)] := by
  cases hacts with
  | quiet _ hq => exact .inl (filterMap_sync rfl hq)
  | answer => exact .inl rfl
  | change hidle hchange _ hq hall =>
    obtain ⟨rfl, hsent⟩ := hall hlossless
    obtain rfl := hq.resolve_left hsent
    obtain ⟨change, _, htold⟩ := told_changes hchange
    rw [filterMap_cons_some (htold _).1, hidle.2]
    exact .inr ⟨change, rfl⟩

section
def Connection.Numbered (c : Connection J) : Prop :=
  ∀ i x, (c.log.filterMap Publication.numbered?)[i]? = some x → x.2 = c.base.sequence + i + 1

structure Agreeing (e : Ends) (c : Connection J) : Prop where
  source : c.source.backend e.app = some none
  replica : c.replica.backend e.app = some none
  sequence : (c.source.leasesOf e.app).sequence =
    c.base.sequence + (c.log.filterMap Publication.change?).length
  numbered : c.Numbered
  consistent : Consistent Times.expired (c.link e)

structure Connected (e : Ends) (c : Connection J) : Prop where
  sourceHere : c.source.here = e.origin
  replicaHere : c.replica.here = e.peer
  sound : c.source.Sound
  peers : c.source.peers.Nodup
  own : Own e c.times (c.source.leasesOf e.app)
  timely : ∀ l ∈ (c.replica.leasesOf e.app).members.rows, l.origin = e.origin →
    l.Timely c.times
  queued : ∀ p ∈ c.queue, p.Genuine e c.times
  seen : ∀ p ∈ c.seen, p.Genuine e c.times ∧ ∃ n records, p = .snapshot n records
  intact : c.intact = true → Agreeing e c

theorem connected_start (e : Ends) : Connected (J := J) e (.start e) where
  sourceHere := rfl
  replicaHere := rfl
  sound := Broker.sound_new e.origin
  peers := nodup_nil
  own _ hl := nomatch hl
  timely _ hl := nomatch hl
  queued _ hp := nomatch hp
  seen _ hp := nomatch hp
  intact h := nomatch h

theorem map_numbered (log : List (Publication J)) :
    (log.filterMap Publication.numbered?).map Prod.fst = log.filterMap Publication.change? := by
  rw [map_filterMap]
  congr 1
  funext p
  unfold Publication.numbered?
  rw [Option.map_map]
  cases p.change? <;> rfl

theorem valid_leasesOf {b : Broker J} (h : b.Sound) (app : AppEnv) :
    ∀ l ∈ (b.leasesOf app).members.rows, l.Valid := by
  cases ha : b.apps.get? app with
  | none =>
    rw [leasesOf_of_none ha]
    exact fun l hl => nomatch hl
  | some =>
    rw [leasesOf_of_get? ha]
    exact (h.presence_of_get? ha).valid

theorem Connected.wait (h : Connected e c) (hnow : c.times ≤ t) :
    Connected e { c with times := t } :=
  { h with
    own := h.own.mono hnow
    timely := fun l hl horigin => (h.timely l hl horigin).mono hnow
    queued := fun p hp => (h.queued p hp).mono hnow
    seen := fun p hp => ⟨(h.seen p hp).1.mono hnow, (h.seen p hp).2⟩
    intact := fun hi => { h.intact hi with
      consistent := consistent_step expired_mono (h.intact hi).consistent (.wait _ t hnow) } }

theorem consistent_fade (h : Connected e c) (hconsistent : Consistent Times.expired (c.link e))
    (hkeeps : Keeps e.origin c.times.now (c.replica.leasesOf e.app) L) :
    Consistent Times.expired { c.link e with
      replica := { (c.link e).replica with table := L.part e.origin } } := by
  exact consistent_step expired_mono hconsistent (.fadeReplica _ _ (fades_of_keeps hkeeps h.timely))

theorem replica_eq_empty {origin : DeviceId} (hnone : ∀ l ∈ L.members.rows, l.origin ≠ origin)
    (hreceived : L.received origin = none) (hsnapshots : L.snapshots origin = none) :
    L.replica origin = Replica.empty := by
  unfold Leases.replica Replica.empty
  rw [hreceived, hsnapshots]
  congr 1
  funext k
  apply eq_none_iff_forall_not_mem.mpr
  intro _ hentry
  obtain ⟨l, hl, hkey, _⟩ := part_eq_some.mp hentry
  exact hnone l hl (congrArg Key.origin hkey)

variable {intact : Bool} {operation : Broker.Operation J}
theorem connected_source (h : Connected e c) (hnow : c.times.now ≤ env.now)
    (hepoch : 0 ≤ env.nowMs)
    (hself : ∀ app publication, operation ≠ .remote e.origin app publication)
    (hintact : intact = true → c.intact = true ∧ Lossless e c.source operation env) :
    Connected e { c.tell e operation env with intact } := by
  dsimp only [Connection.tell]
  have hacts : Acts e env (intact = true) (c.source.leasesOf e.app)
      ((Broker.exec (operation, env) c.source).broker.leasesOf e.app)
      (e.carried (Broker.exec (operation, env) c.source).sent) :=
    acts_exec h.sourceHere h.peers (fun hi => (hintact hi).2)
      (fun hi => (h.intact (hintact hi).1).source) hself
  have h := h.wait (Times.le_reading hnow)
  have hsound := (Broker.moves_exec operation env c.source).sound h.sound
  have hown := h.own.acts hepoch hacts
  have hsent := genuine_acts hepoch (valid_leasesOf hsound e.app) hown hacts
  refine
    { h with
      sourceHere := (affects_anyhow operation env c.source e.app).here.trans h.sourceHere
      sound := hsound
      peers := nodup_peers (Broker.moves_exec operation env c.source) h.peers
      own := hown
      queued := ?_
      intact := ?_ }
  · intro p hp
    obtain hp | hp := mem_append.mp hp
    · exact h.queued p hp
    · exact hsent p hp
  · intro hi
    have hagree := h.intact (hintact hi).1
    obtain ⟨hsequence, hconsistent⟩ := consistent_acts hepoch hagree.consistent h.own rfl rfl
      hagree.sequence hi hacts
    refine ⟨((affects_anyhow ..).backend (hintact hi).2.backend).trans hagree.source,
      hagree.replica, ?_, ?_, ?_⟩
    · rw [filterMap_append]
      exact hsequence
    · intro i x hx
      rw [filterMap_append] at hx
      obtain hnone | ⟨_, hone⟩ := numbered_acts hi hacts
      · rw [hnone, append_nil] at hx
        exact hagree.numbered i x hx
      · rw [hone] at hx
        obtain ⟨hlt, _⟩ := List.getElem?_eq_some_iff.mp hx
        rw [List.length_append, List.length_singleton] at hlt
        obtain hlt | rfl := Nat.lt_or_eq_of_le (Nat.le_of_lt_succ hlt)
        · rw [List.getElem?_append_left hlt] at hx
          exact hagree.numbered i x hx
        · rw [getElem?_concat_length] at hx
          rw [← Option.some.inj hx, hagree.sequence, ← map_numbered, length_map]
    · unfold Connection.link at hconsistent ⊢
      simp only [filterMap_append]
      exact hconsistent

theorem connected_replica (h : Connected e c) (hnow : c.times.now ≤ env.now)
    (hqueue : ∀ publication, operation ≠ .remote e.origin e.app publication)
    (hintact : intact = true → c.intact = true ∧ ∀ url, operation ≠ .register e.app url) :
    Connected e { c.attend e operation env with intact } := by
  dsimp only [Connection.attend]
  have hbystander : Bystander e.origin env.now (c.replica.leasesOf e.app)
      ((Broker.exec (operation, env) c.replica).broker.leasesOf e.app) := by
    refine (affects_exec (closed_bystander (Ne.symm e.distinct) env.now)
      (fun _ => local_bystander (Ne.symm e.distinct)) ?_ h.replicaHere).leases
    intro peer publication hremote
    apply tolerates_bystander
    rintro rfl
    exact hqueue publication hremote
  have hcurrent : ∀ p ∈ e.current (Broker.exec (operation, env) c.replica).broker c.seen,
      p ∈ c.seen := by
    unfold Ends.current
    split
    · exact fun p hp => nomatch hp
    · exact fun p hp => hp
  have h := h.wait (Times.le_reading hnow)
  refine
    { h with
      replicaHere := (affects_anyhow operation env c.replica e.app).here.trans h.replicaHere
      timely := fun l hl horigin => h.timely l (hbystander.sub l hl horigin) horigin
      seen := fun p hp => h.seen p (hcurrent p hp)
      intact := ?_ }
  intro hi
  obtain ⟨hsource, hreplica, hsequence, hnumbered, hconsistent⟩ := h.intact (hintact hi).1
  refine ⟨hsource, ((affects_anyhow ..).backend (hintact hi).2).trans hreplica, hsequence,
    hnumbered, ?_⟩
  obtain ⟨hkeeps, hreceived, hsnapshots⟩ | ⟨hnone, hreceived, hsnapshots⟩ := hbystander
  · have hfaded := consistent_fade h hconsistent hkeeps
    -- snapshots were only seen if one of them still counts
    have hseen : e.current (Broker.exec (operation, env) c.replica).broker c.seen = c.seen := by
      unfold Ends.current
      rw [hsnapshots]
      split
      · rename_i hunseen
        obtain ⟨_, d, _, hholds⟩ := hconsistent
        have hempty : c.seen.map Publication.sequence = [] :=
          hholds.unseen (isNone_iff_eq_none.mp hunseen)
        exact (map_eq_nil_iff.mp hempty).symm
      · rfl
    unfold Connection.link Leases.replica at hfaded ⊢
    simp only [hseen, hreceived, hsnapshots]
    exact hfaded
  · have hfenced := consistent_step expired_mono hconsistent (.fence _)
    have hempty := replica_eq_empty hnone hreceived hsnapshots
    have hseen : e.current (Broker.exec (operation, env) c.replica).broker c.seen = [] := by
      unfold Ends.current
      rw [hsnapshots]
      rfl
    unfold Connection.link at hfenced ⊢
    simp only [hseen, hempty]
    exact hfenced

variable {p : Publication J}
theorem map_seen {f : Replication.Frame MemberKey (Entry J)} (hframe : p.frame? = some f)
    (seen : List (Publication J)) :
    (p.seen seen).map Publication.sequence = f.seen (seen.map Publication.sequence) := by
  cases p with
  | sync => cases hframe
  | snapshot =>
    cases hframe
    exact map_append
  | update | leave =>
    cases hframe
    rfl

theorem seen_of_frame?_none (h : p.frame? = none) (seen : List (Publication J)) :
    p.seen seen = seen := by
  cases p with
  | sync | update | leave => rfl
  | snapshot => cases h

theorem mem_seen {p p' : Publication J} {seen : List (Publication J)} (h : p' ∈ p.seen seen) :
    p' ∈ seen ∨ p' = p ∧ ∃ n records, p = .snapshot n records := by
  cases p with
  | sync | update | leave => exact .inl h
  | snapshot n records =>
    obtain h | h := mem_append.mp h
    · exact .inl h
    · exact .inr ⟨mem_singleton.mp h, n, records, rfl⟩

section
variable (h : Connected e c) (hnow : c.times.now ≤ env.now)
  (hintact : intact = true → c.intact = true ∧
    ∀ error ∈ capacityRejections, (c.receive e env p).result ≠ .error error)

include h hnow hintact
theorem connected_receive (hgenuine : p.Genuine e c.times) {queue seen : List (Publication J)}
    (hqueue : ∀ p' ∈ queue, p' ∈ c.queue)
    (hseen : ∀ p' ∈ seen, p' ∈ c.seen ∨ p' = p ∧ ∃ n records, p = .snapshot n records)
    (hignored : p.frame? = none → queue.filterMap Publication.frame? = (c.link e).queue ∧
      seen = c.seen) (hreceived : ∀ l : Link MemberKey (Entry J) Times, Consistent Times.expired l →
      l.queue = (c.link e).queue → l.seen = (c.link e).seen → ∀ f r, p.frame? = some f →
      Receives Times.expired l.now l.replica f r → Consistent Times.expired { l with
        queue := queue.filterMap Publication.frame?
        replica := r
        seen := seen.map Publication.sequence }) :
    Connected e { c.hear e env p with queue, seen, intact } := by
  dsimp only [Connection.hear]
  have haffects := affects_anyhow (.remote e.origin e.app p) env c.replica e.app
  have hgenuine := hgenuine.mono (Times.le_reading hnow)
  have h := h.wait (Times.le_reading hnow)
  refine
    { h with
      replicaHere := haffects.here.trans h.replicaHere
      timely := ?_
      queued := fun p' hp' => h.queued p' (hqueue p' hp')
      seen := ?_
      intact := ?_ }
  · intro l hl horigin
    obtain hl | hwritten := written_remotePresence c.replica env e.origin e.app p l hl horigin
    · exact h.timely l hl horigin
    · apply hwritten.timely hgenuine
      intro l₀ hl₀ horigin₀
      exact h.timely l₀ (mem_retain.mp hl₀).1 (horigin₀.trans horigin)
  · intro p' hp'
    obtain hp' | ⟨rfl, hsnapshot⟩ := hseen p' hp'
    · exact h.seen p' hp'
    · exact ⟨hgenuine, hsnapshot⟩
  · intro hi
    obtain ⟨hsource, hreplica, hsequence, hnumbered, hconsistent⟩ := h.intact (hintact hi).1
    refine ⟨hsource, (haffects.backend nofun).trans hreplica, hsequence, hnumbered, ?_⟩
    have hexpired := consistent_fade h hconsistent (keeps_expire _)
    obtain ⟨hframe, hleases⟩ | ⟨f, hframe, hreceives⟩ := receives_remotePresence hreplica
      hgenuine (hintact hi).2
    · -- a request of the source says nothing of its members
      obtain ⟨hqueue, rfl⟩ := hignored hframe
      unfold Connection.link Connection.receive at *
      simp only [hleases, hqueue]
      exact hexpired
    · exact hreceived _ hexpired rfl rfl f _ hframe hreceives

theorem connected_deliver {rest : List (Publication J)} (hqueue : c.queue = p :: rest) :
    Connected e { c.hear e env p with queue := rest, seen := p.seen c.seen, intact } := by
  have hmem (p' : Publication J) (hp' : p' ∈ p :: rest) : p' ∈ c.queue := hqueue ▸ hp'
  apply connected_receive h hnow hintact (h.queued p (hmem p mem_cons_self))
    (fun p' hp' => hmem p' (mem_cons_of_mem _ hp')) fun p' => mem_seen
  · intro hframe
    refine ⟨?_, seen_of_frame?_none hframe c.seen⟩
    unfold Connection.link
    rw [hqueue, filterMap_cons_none hframe]
  · intro l hl hqueue' hseen f r hframe hreceives
    have hlink : l.queue = f :: rest.filterMap Publication.frame? := by
      rw [hqueue']
      unfold Connection.link
      rw [hqueue, filterMap_cons_some hframe]
    rw [map_seen hframe]
    have hdelivered := consistent_step expired_mono hl (.deliver _ f _ r hlink hreceives)
    rw [hseen] at hdelivered
    exact hdelivered

theorem connected_duplicate (hseen : p ∈ c.seen) :
    Connected e { c.hear e env p with intact } := by
  obtain ⟨hgenuine, n, _, rfl⟩ := h.seen p hseen
  apply connected_receive h hnow hintact hgenuine (fun _ => id) (fun _ => .inl) nofun
  intro l hl hqueue hseen' f r hframe hreceives
  cases hframe
  have hmem : n ∈ l.seen := hseen' ▸ mem_map.mpr ⟨_, hseen, rfl⟩
  have hsame := consistent_step expired_mono hl (.duplicate l _ n r hmem hreceives)
  cases l
  cases hqueue
  cases hseen'
  exact hsame
end

theorem replica_fenceApp {b : Broker J} (hhere : b.here = e.peer)
    (hbackend : b.backend e.app = some none) (env : Surroundings J) :
    ((b.fenceApp env e.app).broker.leasesOf e.app).replica e.origin = Replica.empty := by
  obtain ⟨a, ha, _⟩ := map_eq_some_iff.mp hbackend
  have hget : (b.apps.updateWhere (fun a => a.app = e.app) (·.clearRemote b.here)
      (fun _ => rfl)).get? e.app = some (a.clearRemote b.here) := by
    rw [b.apps.get?_updateWhere_key e.app (·.clearRemote b.here) (fun _ => rfl), if_pos rfl, ha,
      map_some]
  have hleases : (b.fenceApp env e.app).broker.leasesOf e.app = a.presence.clearRemote b.here := by
    unfold Broker.fenceApp
    rw [ha]
    unfold Broker.leasesOf
    simp only
    split
    · rw [hget]
      rfl
    · rw [hget]
      rfl
  rw [hleases]
  apply replica_eq_empty _ rfl rfl
  intro l hl horigin
  -- what is left belongs to the peer itself
  have hlocal : l.origin = b.here := (mem_retain.mp hl).2
  exact e.distinct (horigin.symm.trans (hlocal.trans hhere))

theorem connected_connect (h : Connected e c) (hnow : c.times.now ≤ env.now)
    (hsource : c.source.backend e.app = some none)
    (hreplica : c.replica.backend e.app = some none) : Connected e (c.connect e env) := by
  have hfenced : Affects (Bystander e.origin env.now) .expire e.app c.replica
      (c.replica.fenceApp env e.app).broker :=
    affects_moves (closed_bystander (Ne.symm e.distinct) env.now) nofun nofun h.replicaHere
      (Broker.moves_fenceApp c.replica e.app)
  refine
    { h with
      replicaHere := hfenced.here.trans h.replicaHere
      own := h.own.mono (Times.le_reading hnow)
      timely := fun l hl horigin => (h.timely l (hfenced.leases.sub l hl horigin) horigin).mono
        (Times.le_reading hnow)
      queued := fun _ hp => nomatch hp
      seen := fun _ hp => nomatch hp
      intact := ?_ }
  intro _
  refine ⟨hsource, (hfenced.backend nofun).trans hreplica, rfl, (fun _ _ hx => nomatch hx), ?_⟩
  unfold Connection.link
  simp only [Connection.connect, replica_fenceApp h.replicaHere hreplica]
  exact consistent_start ((c.source.leasesOf e.app).part e.origin)
    (c.source.leasesOf e.app).sequence (c.times.reading env)

/-- Each step of the two ends keeps the link between them. -/
theorem connected_step (h : Connected e c) (hstep : Connection.Step e c c') : Connected e c' := by
  cases hstep with
  | source _ _ _ hnow hepoch hself hintact =>
    exact connected_source h hnow hepoch hself hintact
  | replica _ _ _ hnow hqueue hintact => exact connected_replica h hnow hqueue hintact
  | deliver _ _ _ _ hqueue hnow hintact => exact connected_deliver h hnow hintact hqueue
  | duplicate _ _ _ hseen hnow hintact => exact connected_duplicate h hnow hintact hseen
  | connect _ hnow hsource hreplica => exact connected_connect h hnow hsource hreplica

theorem connected_of_reachable (h : c.Reachable e) : Connected e c := by
  induction h with
  | refl => exact connected_start e
  | tail _ hstep ih => exact connected_step ih hstep
end

theorem keeps_remotePresence (b : Broker J) (env : Surroundings J) {peer origin : DeviceId}
    (horigin : origin ≠ peer) (app app' : AppEnv) (publication : Publication J) :
    Keeps origin env.now (b.leasesOf app')
      ((b.remotePresence env peer app publication).broker.leasesOf app') := by
  -- a fence of the server itself does not occur, so any server may take its place
  have hclosed := closed_idle (J := J) origin env.now
  have haffects : Affects (Idle origin env.now) .expire app' b
      (b.remotePresence env peer app publication).broker :=
    affects_remotePresence hclosed (fun _ => tolerates_idle (Ne.symm horigin)) publication
  exact haffects.leases.1

variable {k : MemberKey} {entry : Entry J}
theorem eq_of_fades {table own theirs : MemberKey → Option (Entry J)}
    (hown : Fades Times.expired t table own) (htheirs : Fades Times.expired t table theirs)
    (hk : own k = some entry) (hlive : ¬t.expired entry) : theirs k = some entry := by
  have htable := hown.eq_of_some hk
  obtain heq | ⟨_, _, hentry', hexpired⟩ := htheirs k
  · exact heq.trans htable
  · rw [htable] at hentry'
    rw [Option.some.inj hentry'] at hlive
    exact absurd hexpired hlive

theorem Agreeing.converged (h : Agreeing e c) (hqueue : c.queue = [])
    (happlied : ((c.replica.leasesOf e.app).snapshots e.origin).isSome)
    (hlive : ¬c.times.expired entry) :
    (c.source.leasesOf e.app).part e.origin k = some entry ↔
      (c.replica.leasesOf e.app).part e.origin k = some entry := by
  obtain ⟨m, hm⟩ := isSome_iff_exists.mp happlied
  have hempty : (c.link e).queue = [] := by
    unfold Connection.link
    rw [hqueue]
    rfl
  obtain ⟨hsource, hreplica⟩ := h.consistent.converged hempty hm
  constructor
  · intro hk
    exact eq_of_fades hsource hreplica hk hlive
  · intro hk
    exact eq_of_fades hreplica hsource hk hlive

theorem Agreeing.not_resurrected (h : Agreeing e c) {channel id : String} {m n : ℕ}
    (hleave : .leave channel id m ∈ c.log)
    (hreceived : (c.replica.leasesOf e.app).received e.origin = some n) (hle : m ≤ n)
    (hlast : ∀ member expiresAtMs m', .update channel member expiresAtMs m' ∈ c.log →
      member.connectionId = id → m' ≤ n → m' < m) :
    (c.replica.leasesOf e.app).part e.origin (channel, id) = none := by
  have hchanges := map_numbered c.log
  -- the place of the change in the log is its number
  have hmem : (((channel, id), none), m) ∈ c.log.filterMap Publication.numbered? :=
    mem_filterMap.mpr ⟨_, hleave, rfl⟩
  obtain ⟨i, hi⟩ := getElem?_of_mem hmem
  have hm : m = c.base.sequence + i + 1 := h.numbered i _ hi
  have hlog : (c.log.filterMap Publication.change?)[i]? = some ((channel, id), none) := by
    rw [← hchanges, getElem?_map, hi]
    rfl
  apply eq_none_iff_forall_not_mem.mpr
  intro entry hentry
  obtain ⟨d, _, hd, hsound⟩ := h.consistent.sound hentry
  have hn : n = c.base.sequence + d := Option.some.inj (hreceived.symm.trans hd)
  have hnone : tableAt (c.base.part e.origin) (c.log.filterMap Publication.change?) d
      (channel, id) = none := by
    apply tableAt_eq_none hlog (by omega)
    intro j _ _ _ hj
    rw [← hchanges, getElem?_map] at hj
    obtain ⟨x, hx, hchange⟩ := map_eq_some_iff.mp hj
    have hnumber := h.numbered j x hx
    obtain ⟨p, hp, hpx⟩ := mem_filterMap.mp (mem_of_getElem? hx)
    obtain ⟨change, hpc, rfl⟩ := map_eq_some_iff.mp hpx
    cases p with
    | sync | snapshot => cases hpc
    | leave =>
      cases hpc
      cases hchange
    | update channel' member expiresAtMs number =>
      cases hpc
      have hkey : (channel', member.connectionId) = (channel, id) := congrArg Prod.fst hchange
      obtain ⟨rfl, hid⟩ := Prod.mk.inj hkey
      have hnumber' : number = c.base.sequence + j + 1 := hnumber
      have hearlier := hlast member expiresAtMs number hp hid (by omega)
      omega
  have hsound' : tableAt (c.base.part e.origin) (c.log.filterMap Publication.change?) d
      (channel, id) = some entry := hsound
  rw [hnone] at hsound'
  cases hsound'

/-- Peers cannot touch each other's members, and the replica of a server's members
converges to them. -/
theorem presence_replicas_converge (e : Ends) {c : Connection J} (h : c.Reachable e) :
    (∀ (b : Broker J) (env : Surroundings J) (peer origin : DeviceId) (app app' : AppEnv)
        (publication : Publication J), origin ≠ peer →
      Keeps origin env.now (b.leasesOf app')
        ((b.remotePresence env peer app publication).broker.leasesOf app')) ∧
    (c.intact = true → c.queue = [] →
      ((c.replica.leasesOf e.app).snapshots e.origin).isSome →
      ∀ (k : MemberKey) (entry : Entry J), ¬c.times.expired entry →
        ((c.source.leasesOf e.app).part e.origin k = some entry ↔
          (c.replica.leasesOf e.app).part e.origin k = some entry)) ∧
    (c.intact = true → ∀ (k : MemberKey) (entry : Entry J),
      (c.replica.leasesOf e.app).part e.origin k = some entry →
        ∃ d, (c.replica.leasesOf e.app).received e.origin = some (c.base.sequence + d) ∧
          tableAt (c.base.part e.origin) (c.log.filterMap Publication.change?) d k = some entry) ∧
    (c.intact = true → ∀ channel id m n, .leave channel id m ∈ c.log →
      (c.replica.leasesOf e.app).received e.origin = some n → m ≤ n →
      (∀ member expiresAtMs m', .update channel member expiresAtMs m' ∈ c.log →
        member.connectionId = id → m' ≤ n → m' < m) →
      (c.replica.leasesOf e.app).part e.origin (channel, id) = none) ∧
    ∀ (b : Broker J) (env : Surroundings J) (peer : DeviceId) (app : AppEnv)
        (publication : Publication J),
      ∀ l ∈ ((b.remotePresence env peer app publication).broker.leasesOf app).members.rows,
        l.origin = peer → l ∈ (b.leasesOf app).members.rows ∨
          (publication.Tells l.channel l.entry ∧
            env.nowMs + (l.expires - env.now) ≤ l.expiresAtMs ∧
            ((∃ n records, publication = .snapshot n records) →
              ∀ l₀ ∈ (b.leasesOf app).members.rows, env.now < l₀.expires → l₀.key = l.key →
                l₀.expiresAtMs = l.expiresAtMs → l.expires ≤ l₀.expires)) := by
  have hconnected := connected_of_reachable h
  refine ⟨?_, ?_, ?_, ?_, ?_⟩
  · intro b env _ _ app app' publication horigin
    exact keeps_remotePresence b env horigin app app' publication
  · intro hintact hqueue happlied k entry hlive
    exact (hconnected.intact hintact).converged hqueue happlied hlive
  · intro hintact _ _ hentry
    obtain ⟨d, _, hd, hsound⟩ := (hconnected.intact hintact).consistent.sound hentry
    exact ⟨d, hd, hsound⟩
  · intro hintact _ _ _ _ hleave hreceived hle hlast
    exact (hconnected.intact hintact).not_resurrected hleave hreceived hle hlast
  · intro b env peer app publication l hl horigin
    obtain hl | hwritten := written_remotePresence b env peer app publication l hl horigin
    · exact .inl hl
    · refine .inr ⟨hwritten.told, hwritten.within, ?_⟩
      intro hsnapshot l₀ hl₀ hlive
      exact hwritten.earlier hsnapshot l₀ (mem_retain.mpr ⟨hl₀, hlive⟩)

def shopEnds : Ends where
  origin := thisServer
  peer := otherServer
  app := shop
  distinct := by decide

def guest : PresenceMember PresenceJson.nulls where
  connectionId := "abababababababababababababababab"
  subject := none
  data := ()

def guestKey : MemberKey := ("room", qualified thisServer guest.connectionId)

def connected : Connection PresenceJson.nulls where
  source := Broker.after thisServer
    [(.register shop none, atTime 0), (.attach otherServer, atTime 0)]
  replica := Broker.after otherServer
    [(.register shop none, atTime 0), (.fenceApp shop, atTime 0)]
  base := .empty
  queue := []
  log := []
  seen := []
  intact := true
  times := ⟨0, [(0, 0), (0, 0), (0, 0), (0, 0)]⟩

def told (c : Connection PresenceJson.nulls) (operation : Broker.Operation PresenceJson.nulls)
    (now : ℕ) : Connection PresenceJson.nulls :=
  c.tell shopEnds operation (atTime now)

def guestSent : Connection PresenceJson.nulls :=
  told (told connected (.update shop "room" guest) 1) (.remote otherServer shop .sync) 2

def heard (c : Connection PresenceJson.nulls) (now : ℕ) (nowMs : ℤ) :
    Connection PresenceJson.nulls :=
  let publication := c.queue.headD .sync
  { c.hear shopEnds { atTime now with nowMs := nowMs } publication with
    queue := c.queue.tail
    seen := publication.seen c.seen }

/-- The clock of the other server is set back before the snapshot arrives. -/
def guestHeard : Connection PresenceJson.nulls := heard (heard guestSent 3 3) 4 1

theorem reachable_connected : connected.Reachable shopEnds := by
  refine .tail (.tail (.tail (.tail .refl (.source (.register shop none) (atTime 0) false
    (by decide) (by decide) nofun nofun)) (.source (.attach otherServer) (atTime 0) false
    (by decide) (by decide) nofun nofun)) (.replica (.register shop none) (atTime 0) false
    (by decide) nofun nofun)) ?_
  exact .connect (atTime 0) (by decide) (by decide) (by decide)

variable {c : Connection PresenceJson.nulls}
theorem told_step {operation : Broker.Operation PresenceJson.nulls} {now : ℕ}
    (hintact : c.intact = true) (hnow : c.times.now ≤ now)
    (hself : ∀ app publication, operation ≠ .remote thisServer app publication)
    (hattached : otherServer ∈ c.source.peers) (hstays : operation ≠ .detach otherServer)
    (hbackend : ∀ url, operation ≠ .register shop url)
    (hnumbers : (Broker.exec (operation, atTime now) c.source).result = .ok ()) :
    Connection.Step shopEnds c (told c operation now) := by
  have hstep := Connection.Step.source (e := shopEnds) (c := c) operation (atTime now) true hnow
    (Int.natCast_nonneg now) hself fun _ =>
      ⟨hintact, hattached, rfl, fun _ _ => rfl, hstays, hbackend, by
        rw [hnumbers]
        exact nofun⟩
  rw [← hintact] at hstep
  exact hstep

theorem heard_step {now : ℕ} {nowMs : ℤ} (hintact : c.intact = true) (hqueue : c.queue ≠ [])
    (hnow : c.times.now ≤ now)
    (hok : (c.receive shopEnds { atTime now with nowMs := nowMs }
      (c.queue.headD .sync)).result = .ok ()) :
    Connection.Step shopEnds c (heard c now nowMs) := by
  have hsplit : c.queue = c.queue.headD .sync :: c.queue.tail := by
    cases hq : c.queue with
    | nil => exact absurd hq hqueue
    | cons => rfl
  have hstep := Connection.Step.deliver (e := shopEnds) (c := c) _ _
    { atTime now with nowMs := nowMs } true hsplit hnow fun _ => ⟨hintact, fun _ _ => by
      rw [hok]
      exact nofun⟩
  rw [← hintact] at hstep
  exact hstep

theorem reachable_guestHeard : guestHeard.Reachable shopEnds := by
  have hupdate : Connection.Step shopEnds connected
      (told connected (.update shop "room" guest) 1) :=
    told_step rfl (by decide) nofun (by decide) nofun nofun (by decide +kernel)
  have hanswer : Connection.Step shopEnds (told connected (.update shop "room" guest) 1)
      guestSent :=
    told_step rfl (by decide) nofun (by decide +kernel) nofun nofun (by decide +kernel)
  have hfirst : Connection.Step shopEnds guestSent (heard guestSent 3 3) :=
    heard_step rfl (by decide +kernel) (by decide) (by decide +kernel)
  have hsecond : Connection.Step shopEnds (heard guestSent 3 3) guestHeard :=
    heard_step rfl (by decide +kernel) (by decide) (by decide +kernel)
  exact .tail (.tail (.tail (.tail reachable_connected hupdate) hanswer) hfirst) hsecond

/-- Everything that was sent has arrived, and the other server knows the guest, for as
long as it did before its clock was set back. -/
theorem presence_replicas_converge_guest :
    guestHeard.Reachable shopEnds ∧ guestHeard.intact = true ∧ guestHeard.queue = [] ∧
    ((guestHeard.replica.leasesOf shop).part thisServer guestKey).map Prod.snd = some 45001 ∧
    (guestHeard.replica.leasesOf shop).members.rows.map Lease.expires = [45001] := by
  have hsource : ((guestHeard.source.leasesOf shop).part thisServer guestKey).map Prod.snd =
      some 45001 := by decide +kernel
  have hqueue : guestHeard.queue = [] := isEmpty_iff.mp (by decide +kernel)
  obtain ⟨entry, hentry, hstamp⟩ := map_eq_some_iff.mp hsource
  have hlive : ¬guestHeard.times.expired entry := by
    unfold Times.expired
    rw [hstamp]
    decide
  obtain ⟨_, hconverged, _⟩ := presence_replicas_converge shopEnds reachable_guestHeard
  have hreplica := (hconverged rfl hqueue (by decide +kernel) guestKey entry hlive).mp hentry
  refine ⟨reachable_guestHeard, rfl, hqueue, ?_, by decide +kernel⟩
  exact map_eq_some_iff.mpr ⟨entry, hreplica, hstamp⟩

end Tako.Presence
