import Tako.WorkflowFencing

/-! The per-worker cap. As long as one limiter admits the claims on a store, its map covers every
running run. -/
namespace Tako.Workflow
open Relational List
variable {J : JsonCodec} {ι : Type} {sys sys' : System ι} {s : ι} {cap : UInt32} {base : String → ℕ}
  {claims : Claims} {counts : List (String × ℕ)} {reply : Reply J} {owner : String}
theorem Nanoid.no_colon (n : Nanoid) : ':' ∉ n.text.toList := by
  intro h
  rcases n.alphabet ':' h with h | h | h
  · exact absurd h (by decide)
  · exact absurd h (by decide)
  · exact absurd h (by decide)

theorem processWorker_newClaimOwner (workerId : String) (nanoid : Nanoid) :
    processWorker (newClaimOwner workerId nanoid) = workerId := by
  have hlist : (newClaimOwner workerId nanoid).toList =
      workerId.toList ++ ':' :: nanoid.text.toList := by
    simp [newClaimOwner, String.toList_append]
  rw [processWorker, hlist, rsplitOnce_append _ nanoid.no_colon]
  exact String.ofList_toList

def ownersOf (claims : Claims) (workerId : String) : List (String × ℕ) :=
  claims.rows.filter (fun kv => processWorker kv.1 = workerId)

theorem foldl_saturating (l : List (String × ℕ)) (h : ∀ kv ∈ l, kv.2 = 1) (n : ℕ)
    (hn : n ≤ u32Max) :
    l.foldl (fun total kv => min (total + kv.2) u32Max) n = min (n + l.length) u32Max := by
  induction l generalizing n with
  | nil =>
    simp only [foldl_nil, length_nil]
    omega
  | cons kv l ih =>
    have hone := h kv mem_cons_self
    rw [foldl_cons, hone, ih (fun kv hkv => h kv (mem_cons_of_mem _ hkv)) _ (by omega),
      length_cons]
    omega

theorem countWorker_eq (h : ∀ kv ∈ claims.rows, kv.2 = 1) (workerId : String) :
    countWorker claims workerId = min (ownersOf claims workerId).length u32Max := by
  rw [countWorker, foldl_saturating _ (fun kv hkv => h kv (mem_filter.mp hkv).1) 0 (by decide),
    zero_add]
  rfl

theorem mem_foldl_replaceRow (counts : List (String × ℕ)) (hn : (counts.map Prod.fst).Nodup)
    (t : Claims) (kv : String × ℕ) :
    kv ∈ (counts.foldl (fun claims kv => claims.replaceRow kv) t).rows ↔
      kv ∈ counts ∨ (kv ∈ t.rows ∧ kv.1 ∉ counts.map Prod.fst) := by
  induction counts generalizing t with
  | nil => simp
  | cons _ _ ih =>
    rw [map_cons, nodup_cons] at hn
    rw [foldl_cons, ih hn.2, Table.mem_replaceRow, map_cons, mem_cons,
      mem_cons]
    constructor
    · rintro (hm | ⟨rfl | ⟨hm, hne⟩, hnot⟩)
      · exact .inl (.inr hm)
      · exact .inl (.inl rfl)
      · exact .inr ⟨hm, fun h => h.elim hne hnot⟩
    · rintro ((rfl | hm) | ⟨hm, hnot⟩)
      · exact .inr ⟨.inl rfl, hn.1⟩
      · exact .inl hm
      · rw [not_or] at hnot
        exact .inr ⟨.inr ⟨hm, hnot.1⟩, hnot.2⟩

theorem mem_snapshot (hn : (counts.map Prod.fst).Nodup) (kv : String × ℕ) :
    kv ∈ (snapshot counts).rows ↔ kv ∈ counts := by
  rw [snapshot, mem_foldl_replaceRow counts hn]
  simp [Table.empty]

variable {rejects : Call J → RunsDbError → Prop} {q q' : Queue} {c : Call J}
theorem Step.inFlight_cases (hs : Step rejects q .inFlightByWorker (.ok reply) q') :
    ∃ counts, reply = .inFlight counts ∧ (counts.map Prod.fst).Nodup ∧
      ∀ o n, (o, n) ∈ counts ↔ (q.runsWith (Run.OwnedBy o)).ncard ≠ 0 ∧
        n = asU32 (q.runsWith (Run.OwnedBy o)).ncard := by
  cases hs with
  | written hc => cases hc
  | inFlight hn hm => exact ⟨_, rfl, hn, hm⟩

/-- The replies after which `handle_command` and the cron ticker release an owner. -/
def Call.Releases : Call J → Reply J → String → Prop
  | .complete _ _ owner, _, o => owner = o
  | .cancel _ _ owner _, _, o => owner = o
  | .fail _ _ owner _ _ _, _, o => owner = o
  | .defer _ owner _, _, o => owner = o
  | .waitForEvent _ owner _ _ _, _, o => owner = o
  | .reclaimExpiredWithWorkers _, .workers owners, o => o ∈ owners
  | _, _, _ => False

theorem Call.Releases.not_claim (h : c.Releases reply owner) (plan : Planner) :
    (StoreEvent.call plan c).isClaim = false := by
  cases c <;> first | rfl | exact h.elim

theorem Call.Releases.not_ownedBy (h : c.Releases reply owner) {id o : String}
    (hc : c.caller = some (id, o)) :
    o = owner ∧ ∀ f, c.write = some f → ∀ r, ¬(f r).OwnedBy owner := by
  constructor
  · cases c <;> cases hc <;> first | exact h | exact h.elim
  · intro f hw r ho
    obtain ⟨-, _, _, _, _, rfl⟩ := Call.write_ownedBy hw ho
    exact h.elim

theorem Step.releases (hs : Step rejects q c (.ok reply) q') (hq : q.Inv)
    (h : c.Releases reply owner) : ∃ id, q.Owns id owner ∧ ¬q'.Owns id owner := by
  generalize hres : (Except.ok reply : Result J) = res at hs
  cases hs with
  | rejected | stale => cases hres
  | @written c id owner' f r hc hw hr ho =>
    obtain ⟨howner, hends⟩ := h.not_ownedBy hc
    refine ⟨id, ⟨r, hr, by rw [← howner]; exact ho⟩, ?_⟩
    rintro ⟨r', hr', ho'⟩
    have hid := (Call.write_wellFormed hw (hq.run_wellFormed id r hr) ho).2
    simp only [Queue.setRun, hid, hq.run_id id r hr, Function.update_self, Option.some.injEq] at hr'
    rw [← hr'] at ho'
    exact hends f hw r ho'
  | @waiting id owner' stepName eventName timeoutAtMs r hr ho =>
    have howner : owner' = owner := h
    subst howner
    refine ⟨id, ⟨r, hr, ho⟩, ?_⟩
    rintro ⟨r', hr', ho'⟩
    have hid : (r.parked (timeoutAtMs.getD i64Max)).id = id := hq.run_id id r hr
    simp only [Queue.setWaiter, Queue.setRun, hid, Function.update_self, Option.some.injEq] at hr'
    rw [← hr'] at ho'
    exact absurd ho'.1 (by simp [Run.parked, Run.released])
  | @reclaimedFrom now owners hcount =>
    cases hres
    have hmem : owner ∈ owners := h
    have hpos := count_pos_iff.mpr hmem
    rw [hcount owner] at hpos
    obtain ⟨id, r, hr, hexp, hw⟩ := Set.nonempty_of_ncard_ne_zero (Nat.pos_iff_ne_zero.mp hpos)
    refine ⟨id, ⟨r, hr, hw, hexp.1⟩, ?_⟩
    rintro ⟨_, hr', ho'⟩
    simp only [Queue.reclaim, hr, Option.map_some, if_pos hexp, Option.some.injEq] at hr'
    rw [← hr'] at ho'
    exact Run.not_ownedBy_released r owner ho'
  | _ => exact h.elim

theorem InFlightLimiter.admit_cases (l : InFlightLimiter) (workerId : String) {inFlight : Result J}
    (hr : ∀ reply, inFlight = .ok reply → ∃ counts, reply = .inFlight counts) :
    ((l.admission workerId inFlight).2 = l ∨ ∃ counts, inFlight = .ok (.inFlight counts) ∧
        (l.admission workerId inFlight).2 = l.rehydrate counts) ∧
    ((l.admission workerId inFlight).1 = .admitted →
      countWorker (l.admission workerId inFlight).2.claims workerId < l.maxPerWorker.toNat) ∧
    ((l.admission workerId inFlight).1 = .refused → ∃ counts, inFlight = .ok (.inFlight counts) ∧
        l.maxPerWorker.toNat ≤ countWorker (snapshot counts) workerId) := by
  unfold admission
  by_cases hlt : countWorker l.claims workerId < l.maxPerWorker.toNat
  · rw [if_pos hlt]
    exact ⟨.inl rfl, fun _ => hlt, nofun⟩
  · rw [if_neg hlt]
    cases inFlight with
    | error => exact ⟨.inl rfl, nofun, nofun⟩
    | ok reply =>
      obtain ⟨counts, rfl⟩ := hr reply rfl
      dsimp only
      by_cases hre : countWorker (l.rehydrate counts).claims workerId < l.maxPerWorker.toNat
      · rw [if_pos hre]
        exact ⟨.inr ⟨counts, rfl, rfl⟩, fun _ => hre, nofun⟩
      · rw [if_neg hre]
        exact ⟨.inr ⟨counts, rfl, rfl⟩, nofun,
          fun _ => ⟨counts, rfl, Nat.le_of_not_lt hre⟩⟩

/-- The event is no claim of another server, and `s` itself does not restart. -/
def Event.ClaimsAt (s : ι) : Event ι J → Prop
  | .beginClaim t .. => t = s
  | .commitClaim t .. => t = s
  | .recordClaim t => t = s
  | .restart t .. => t ≠ s
  | _ => True

namespace System
def running (sys : System ι) (workerId : String) : Set String :=
  {id | ∃ o, sys.Owns id o ∧ processWorker o = workerId}

def Covers (claims : Claims) (sys : System ι) : Prop :=
  ∀ id o, sys.Owns id o → (o, 1) ∈ claims.rows

theorem running_finite (sys : System ι) (workerId : String) : (sys.running workerId).Finite := by
  apply sys.store.finite_runs.subset
  rintro _ ⟨_, ⟨_, hr, -⟩, -⟩
  simp [hr]

abbrev OwnersUnique (sys : System ι) : Prop := ∀ i j o, sys.Owns i o → sys.Owns j o → i = j

def owners (sys : System ι) (workerId : String) : Set String :=
  {o | (∃ id, sys.Owns id o) ∧ processWorker o = workerId}

theorem length_ownersOf (claims : Claims) (workerId : String) : (ownersOf claims workerId).length =
      (((ownersOf claims workerId).map Prod.fst).toFinset : Set String).ncard := by
  rw [Set.ncard_coe_finset, toFinset_card_of_nodup, length_map]
  exact (filter_sublist.map _).nodup claims.nodup_keys

theorem mem_keys_ownersOf {workerId o : String} :
    o ∈ (((ownersOf claims workerId).map Prod.fst).toFinset : Set String) ↔
      (∃ n, (o, n) ∈ claims.rows) ∧ processWorker o = workerId := by
  simp [ownersOf]

section
variable (hone : sys.OwnersUnique)
include hone
theorem ncard_owners (workerId : String) :
    (sys.owners workerId).ncard = (sys.running workerId).ncard := by
  refine Set.ncard_congr (fun o ho => ho.1.choose) ?_ ?_ ?_
  · intro o ho
    exact ⟨o, ho.1.choose_spec, ho.2⟩
  · intro a b ha hb hab
    have hown := ha.1.choose_spec
    rw [hab] at hown
    exact hown.unique hb.1.choose_spec
  · rintro id ⟨o, ho, hp⟩
    have hex : ∃ id, sys.Owns id o := ⟨id, ho⟩
    exact ⟨o, ⟨hex, hp⟩, hone _ _ o hex.choose_spec ho⟩

theorem ncard_running_le (hc : sys.Covers claims) (workerId : String) :
    (sys.running workerId).ncard ≤ (ownersOf claims workerId).length := by
  rw [← ncard_owners hone, length_ownersOf]
  refine Set.ncard_le_ncard ?_ (Finset.finite_toSet _)
  rintro o ⟨⟨id, ho⟩, hp⟩
  exact mem_keys_ownersOf.mpr ⟨⟨1, hc id o ho⟩, hp⟩

theorem inFlight_counts (h : sys.store.Inv) {plan : Planner}
    (hr : (sys.store.call plan .inFlightByWorker).1 = .ok reply) :
    ∃ counts, reply = .inFlight counts ∧ (counts.map Prod.fst).Nodup ∧
      ∀ o n, (o, n) ∈ counts ↔ (∃ id, sys.Owns id o) ∧ n = 1 := by
  have hstep := RunsDb.call_refines h plan (.inFlightByWorker : Call J)
  rw [hr] at hstep
  obtain ⟨counts, hreply, hn, hm⟩ := hstep.inFlight_cases
  refine ⟨counts, hreply, hn, ?_⟩
  intro o n
  have hset : sys.store.abs.runsWith (Run.OwnedBy o) = {id | sys.Owns id o} := rfl
  rw [hm o n, hset]
  by_cases hex : ∃ id, sys.Owns id o
  · obtain ⟨id, hid⟩ := hex
    have hsingle : {id | sys.Owns id o} = {id} := by
      ext j
      constructor
      · intro hj
        exact hone j id o hj hid
      · intro hj
        rw [Set.mem_singleton_iff.mp hj]
        exact hid
    rw [hsingle, Set.ncard_singleton]
    exact ⟨fun hn => ⟨⟨id, hid⟩, hn.2⟩, fun hn => ⟨one_ne_zero, hn.2⟩⟩
  · have hempty : {id | sys.Owns id o} = ∅ := by
      ext j
      exact ⟨fun hj => hex ⟨j, hj⟩, fun hj => hj.elim⟩
    rw [hempty, Set.ncard_empty]
    exact ⟨fun hn => absurd rfl hn.1, fun hn => absurd hn.1 hex⟩

theorem snapshot_spec (hn : (counts.map Prod.fst).Nodup)
    (hm : ∀ o n, (o, n) ∈ counts ↔ (∃ id, sys.Owns id o) ∧ n = 1) :
    (∀ kv ∈ (snapshot counts).rows, kv.2 = 1) ∧ sys.Covers (snapshot counts) ∧
      ∀ w, (ownersOf (snapshot counts) w).length = (sys.running w).ncard := by
  have hrow (kv : String × ℕ) : kv ∈ (snapshot counts).rows ↔
      (∃ id, sys.Owns id kv.1) ∧ kv.2 = 1 := (mem_snapshot hn kv).trans (hm kv.1 kv.2)
  refine ⟨fun kv hkv => ((hrow kv).mp hkv).2, ?_, ?_⟩
  · intro id o ho
    exact (hrow (o, 1)).mpr ⟨⟨id, ho⟩, rfl⟩
  · intro w
    rw [← ncard_owners hone, length_ownersOf]
    congr 1
    ext o
    rw [mem_keys_ownersOf]
    simp [owners, hrow]

theorem running_lt_cap (hones : ∀ kv ∈ claims.rows, kv.2 = 1) (hc : sys.Covers claims) {w : String}
    (h : countWorker claims w < cap.toNat) : (sys.running w).ncard < cap.toNat := by
  have hle := ncard_running_le hone hc w
  have hmax : cap.toNat ≤ u32Max := Nat.le_of_lt_succ cap.toNat_lt
  rw [countWorker_eq hones] at h
  omega
end

/-- The state of a store whose claims all come from server `s`. The map covers the
running runs, up to the one that is just being recorded, and an admitted claim
finds room. -/
structure Capped (s : ι) (cap : UInt32) (base : String → ℕ) (sys : System ι) : Prop where
  max_eq : (sys.server s).limiter.maxPerWorker = cap
  ones : ∀ kv ∈ (sys.server s).limiter.claims.rows, kv.2 = 1
  covered : ∀ id o, sys.Owns id o →
    (o, 1) ∈ (sys.server s).limiter.claims.rows ∨ (sys.server s).phase = .claimed o
  room : ∀ o names leaseMs, (sys.server s).phase = .admitted o names leaseMs →
    (sys.running (processWorker o)).ncard < cap.toNat
  bound : ∀ w, (sys.running w).ncard ≤ max cap.toNat (base w)

theorem ncard_running_mono (h : ∀ id o, sys'.Owns id o → sys.Owns id o)
    (w : String) : (sys'.running w).ncard ≤ (sys.running w).ncard := by
  apply Set.ncard_le_ncard _ (sys.running_finite w)
  rintro id ⟨o, ho, hp⟩
  exact ⟨o, h id o ho, hp⟩

variable (hc : sys.Capped s cap base)
include hc
theorem Capped.of_fewer (hown : ∀ id o, sys'.Owns id o → sys.Owns id o)
    (hserver : sys'.server s = sys.server s) : sys'.Capped s cap base := by
  refine ⟨?_, ?_, ?_, ?_, ?_⟩
  · rw [hserver]
    exact hc.max_eq
  · rw [hserver]
    exact hc.ones
  · rw [hserver]
    exact fun id o ho => hc.covered id o (hown id o ho)
  · rw [hserver]
    exact fun o names leaseMs hp =>
      lt_of_le_of_lt (ncard_running_mono hown _) (hc.room o names leaseMs hp)
  · exact fun w => (ncard_running_mono hown w).trans (hc.bound w)

theorem Capped.covers (hidle : (sys.server s).phase = .idle) :
    sys.Covers (sys.server s).limiter.claims := by
  intro id o ho
  rcases hc.covered id o ho with hm | hp
  · exact hm
  · rw [hidle] at hp
    cases hp

theorem Capped.admission (h : sys.store.Inv) (hone : sys.OwnersUnique)
    (hidle : (sys.server s).phase = .idle) (plan : Planner) (workerId : String) :
    let out := (sys.server s).limiter.admission (J := J) workerId
      (sys.store.call plan .inFlightByWorker).1
    out.2.maxPerWorker = cap ∧ (∀ kv ∈ out.2.claims.rows, kv.2 = 1) ∧ sys.Covers out.2.claims ∧
      (out.1 = .admitted → (sys.running workerId).ncard < cap.toNat) ∧
      (out.1 = .refused → cap.toNat ≤ (sys.running workerId).ncard) := by
  intro out
  have hreply : ∀ reply, (sys.store.call (J := J) plan .inFlightByWorker).1 = .ok reply →
      ∃ counts, reply = .inFlight counts := by
    intro _ hr
    obtain ⟨counts, hcounts, -⟩ := inFlight_counts hone h hr
    exact ⟨counts, hcounts⟩
  obtain ⟨hlim, hadm, href⟩ := (sys.server s).limiter.admit_cases workerId hreply
  have hkeep : out.2.maxPerWorker = cap ∧ (∀ kv ∈ out.2.claims.rows, kv.2 = 1) ∧
      sys.Covers out.2.claims := by
    rcases hlim with hsame | ⟨counts, hr, hnew⟩
    · have hout : out.2 = (sys.server s).limiter := hsame
      rw [hout]
      exact ⟨hc.max_eq, hc.ones, hc.covers hidle⟩
    · obtain ⟨counts', heq, hn, hm⟩ := inFlight_counts hone h hr
      cases heq
      obtain ⟨hones, hcov, -⟩ := snapshot_spec hone hn hm
      have hout : out.2 = (sys.server s).limiter.rehydrate counts := hnew
      rw [hout]
      exact ⟨hc.max_eq, hones, hcov⟩
  refine ⟨hkeep.1, hkeep.2.1, hkeep.2.2, ?_, ?_⟩
  · intro ha
    have hlt := hadm ha
    rw [hc.max_eq] at hlt
    exact running_lt_cap hone hkeep.2.1 hkeep.2.2 hlt
  · intro hr
    obtain ⟨_, hin, hge⟩ := href hr
    obtain ⟨_, heq, hn, hm⟩ := inFlight_counts hone h hin
    cases heq
    obtain ⟨hones, -, hlen⟩ := snapshot_spec hone hn hm
    rw [hc.max_eq, countWorker_eq hones] at hge
    have hle := hlen workerId
    omega

variable [DecidableEq ι]
theorem Capped.setServer {limiter : InFlightLimiter} {phase : Phase}
    (hmax : limiter.maxPerWorker = cap) (hones : ∀ kv ∈ limiter.claims.rows, kv.2 = 1)
    (hcov : sys.Covers limiter.claims)
    (hroom : ∀ o names leaseMs, phase = .admitted o names leaseMs →
      (sys.running (processWorker o)).ncard < cap.toNat) :
    (sys.setServer s ⟨limiter, phase⟩).Capped s cap base := by
  have hs : (sys.setServer s ⟨limiter, phase⟩).server s = ⟨limiter, phase⟩ := by
    rw [server_setServer, if_pos rfl]
  refine ⟨by rw [hs]; exact hmax, by rw [hs]; exact hones, ?_, ?_, hc.bound⟩
  · rw [hs]
    exact fun id o ho => .inl (hcov id o ho)
  · rw [hs]
    exact hroom

theorem Capped.commit (h : sys.store.Inv) {names : List String} {leaseMs : ℕ}
    (hp : (sys.server s).phase = .admitted owner names leaseMs) (plan : Planner) (now : ClockMs) :
    (sys.commitClaim (J := J) s plan now).2.Capped s cap base := by
  set out := (sys.commitClaim (J := J) s plan now).2 with hout
  have hstep := RunsDb.call_refines h plan (.claim now owner names leaseMs : Call J)
  have hstore : out.store = (sys.store.call (J := J) plan (.claim now owner names leaseMs)).2 := by
    rw [hout]
    simp only [commitClaim, hp]
  -- the server keeps its limiter, and the reply decides the phase
  have hserver : (out.server s).limiter = (sys.server s).limiter ∧
      ((out.server s).phase = .claimed owner ∨ (out.server s).phase = .idle) ∧
      ∀ p : RunPayload J, (sys.store.call plan (.claim now owner names leaseMs)).1 =
        .ok (.claimed (some p)) → (out.server s).phase = .claimed owner := by
    rw [hout]
    simp only [commitClaim, hp]
    rw [server_setServer, if_pos rfl]
    refine ⟨rfl, ?_, ?_⟩
    · split
      · exact .inl rfl
      · exact .inr rfl
    · intro p hr
      rw [hr]
  have hmap (id o : String) (ho : sys.Owns id o) : (o, 1) ∈ (sys.server s).limiter.claims.rows := by
    rcases hc.covered id o ho with hm | hx
    · exact hm
    · rw [hp] at hx
      cases hx
  -- whoever owns a run now owned it before, or is the admitted owner with the run it claimed
  have howned (id o : String) (ho : out.Owns id o) : sys.Owns id o ∨ ∃ p : RunPayload J,
      (sys.store.call plan (.claim now owner names leaseMs)).1 = .ok (.claimed (some p)) ∧
        p.id = id ∧ o = owner := by
    rw [Owns, hstore] at ho
    rcases hstep.owns_cases h.abs ho with hold | ⟨_, _, _, p, hcall, hr, hid, -⟩
    · exact .inl hold
    · cases hcall
      exact .inr ⟨p, hr, hid, rfl⟩
  have hlim := hserver.1
  have hnot : ∀ o names leaseMs, (out.server s).phase ≠ .admitted o names leaseMs := by
    intro o names leaseMs hx
    obtain hphase | hphase := hserver.2.1
    · rw [hphase] at hx
      cases hx
    · rw [hphase] at hx
      cases hx
  refine ⟨by rw [hlim]; exact hc.max_eq, by rw [hlim]; exact hc.ones, ?_,
    fun o names leaseMs hx => absurd hx (hnot o names leaseMs), ?_⟩
  · intro id o ho
    rw [hlim]
    rcases howned id o ho with hold | ⟨p, hr, -, rfl⟩
    · exact .inl (hmap id o hold)
    · exact .inr (hserver.2.2 p hr)
  · intro w
    by_cases hnew : ∃ p : RunPayload J, (sys.store.call plan (.claim now owner names leaseMs)).1 =
        .ok (.claimed (some p)) ∧ processWorker owner = w
    · -- the admission check left room for this run
      obtain ⟨p, hr, hw⟩ := hnew
      have hroom := hc.room owner names leaseMs hp
      rw [hw] at hroom
      have hsub : out.running w ⊆ insert p.id (sys.running w) := by
        rintro id ⟨o, ho, hpo⟩
        rcases howned id o ho with hold | ⟨p', hr', rfl, -⟩
        · exact .inr ⟨o, hold, hpo⟩
        · rw [hr] at hr'
          cases hr'
          exact .inl rfl
      have hle := Set.ncard_le_ncard hsub ((sys.running_finite w).insert p.id)
      have hins := Set.ncard_insert_le p.id (sys.running w)
      omega
    · have hsub : out.running w ⊆ sys.running w := by
        rintro id ⟨o, ho, hpo⟩
        rcases howned id o ho with hold | ⟨p, hr, -, rfl⟩
        · exact ⟨o, hold, hpo⟩
        · exact absurd ⟨p, hr, hpo⟩ hnew
      exact (Set.ncard_le_ncard hsub (sys.running_finite w)).trans (hc.bound w)

theorem Capped.record (hp : (sys.server s).phase = .claimed owner) :
    (sys.recordClaim s).Capped s cap base := by
  simp only [recordClaim, hp]
  refine hc.setServer ?_ ?_ ?_ ?_
  · exact hc.max_eq
  · intro kv hkv
    rcases (Table.mem_replaceRow _).mp hkv with rfl | ⟨hm, -⟩
    · rfl
    · exact hc.ones kv hm
  · intro id o ho
    apply (Table.mem_replaceRow _).mpr
    by_cases he : o = owner
    · exact .inl (by rw [he])
    · rcases hc.covered id o ho with hm | hx
      · exact .inr ⟨hm, he⟩
      · rw [hp] at hx
        cases hx
        exact absurd rfl he
  · intro _ _ _ hx
    cases hx

theorem Capped.release (hidle : (sys.server s).phase = .idle) {claimOwner : String}
    (hended : ∀ id, ¬sys.Owns id claimOwner) :
    (sys.setServer s
      ⟨(sys.server s).limiter.releaseClaim claimOwner, .idle⟩).Capped s cap base := by
  have hcov := hc.covers hidle
  have hnone : ∀ o names leaseMs, Phase.idle = .admitted o names leaseMs →
      (sys.running (processWorker o)).ncard < cap.toNat := by
    intro o _ _ hx
    cases hx
  unfold InFlightLimiter.releaseClaim
  cases hg : (sys.server s).limiter.claims.get? claimOwner with
  | none => exact hc.setServer hc.max_eq hc.ones hcov hnone
  | some kv =>
    have hone : kv.2 = 1 := hc.ones kv (Table.get?_eq_some _ |>.mp hg).1
    have hle : ¬kv.2 > 1 := by omega
    obtain ⟨k, n⟩ := kv
    dsimp only at hle ⊢
    rw [if_neg hle]
    refine hc.setServer ?_ ?_ ?_ hnone
    · exact hc.max_eq
    · intro kv hkv
      exact hc.ones kv (mem_filter.mp hkv).1
    · intro id o ho
      refine mem_filter.mpr ⟨hcov id o ho, decide_eq_true ?_⟩
      intro he
      have ho' : sys.Owns id claimOwner := by
        rw [← he]
        exact ho
      exact hended id ho'

/-- The map covers what runs, and a claim is admitted where it leaves room. -/
theorem Capped.exec (h : sys.store.Inv) (hone : sys.OwnersUnique)
    (e : Event ι J) (he : e.ClaimsAt s) (hrel : ∀ o, e = .releaseClaim s o → ∀ id, ¬sys.Owns id o) :
    (sys.exec e).2.Capped s cap base := by
  have hsame : ∀ sys' : System ι, sys'.store = sys.store → sys'.server s = sys.server s →
      sys'.Capped s cap base := by
    intro sys' hstore hserver
    refine hc.of_fewer ?_ hserver
    intro id o ho
    rw [Owns, hstore] at ho
    exact ho
  cases e with
  | beginClaim t plan workerId nanoid names leaseMs =>
    have ht : t = s := he
    subst ht
    simp only [System.exec, beginClaim]
    split
    · rename_i hidle
      obtain ⟨hmax, hones, hcov, hadm, -⟩ := hc.admission (J := J) h hone hidle plan workerId
      apply hc.setServer hmax hones hcov
      intro o names' leaseMs' hx
      split at hx
      · rename_i hout
        cases hx
        rw [processWorker_newClaimOwner]
        exact hadm hout
      · cases hx
    · exact hc
  | commitClaim t plan now =>
    have ht : t = s := he
    subst ht
    cases hp : (sys.server t).phase with
    | admitted => exact hc.commit h hp plan now
    | idle => simpa only [System.exec, commitClaim, hp] using hc
    | claimed => simpa only [System.exec, commitClaim, hp] using hc
  | recordClaim t =>
    have ht : t = s := he
    subst ht
    cases hp : (sys.server t).phase with
    | claimed => exact hc.record hp
    | idle => simpa only [System.exec, recordClaim, hp] using hc
    | admitted => simpa only [System.exec, recordClaim, hp] using hc
  | releaseClaim t claimOwner =>
    simp only [System.exec, releaseClaim]
    split
    · rename_i hidle
      by_cases ht : t = s
      · subst ht
        exact hc.release hidle (hrel claimOwner rfl)
      · exact hsame _ rfl (by rw [server_setServer, if_neg (Ne.symm ht)])
    · exact hc
  | restart t =>
    have ht : t ≠ s := he
    exact hsame _ rfl (by
      simp only [System.exec, restart]
      rw [server_setServer, if_neg (Ne.symm ht)])
  | store se =>
    by_cases hcl : se.isClaim = true
    · simpa only [System.exec, hcl, if_true] using hc
    · have hstore : (sys.exec (.store se : Event ι J)).2.store = (sys.store.exec se).2 := by
        simp [System.exec, hcl]
      refine hc.of_fewer ?_ ?_
      · intro _ _ ho
        rw [Owns, hstore] at ho
        exact owns_of_store_exec h (by simpa using hcl) ho
      · simp [System.exec, hcl]

/-- A call that lets its caller release `owner` has succeeded before. -/
def TransitionSucceeded (sys : System ι) (before : List (Event ι J)) (owner : String) : Prop :=
  ∃ earlier plan c later reply, before = earlier ++ .store (.call plan c) :: later ∧
    ((sys.after earlier).store.call plan c).1 = .ok reply ∧ c.Releases reply owner

omit hc in
theorem not_owns_of_transition (hnew : sys.IsNew) {before : List (Event ι J)}
    (hnd : (before.filterMap Event.owner).Nodup) {owner : String}
    (h : sys.TransitionSucceeded before owner) (id : String) :
    ¬(sys.after before).Owns id owner := by
  obtain ⟨earlier, plan, c, later, _, rfl, hok, hrel⟩ := h
  have hnd' : (earlier.filterMap Event.owner).Nodup := by
    rw [filterMap_append] at hnd
    exact hnd.of_append_left
  have hinv := (hnew.fresh.after hnew.store.inv earlier (by simpa using hnd')).2
  have hstep := RunsDb.call_refines hinv plan c
  rw [hok] at hstep
  obtain ⟨i, hheld, hended⟩ := hstep.releases hinv.abs hrel
  have hlast : (sys.after (earlier ++ [.store (.call plan c)])).store =
      ((sys.after earlier).store.call plan c).2 := by
    rw [System.after, Execution.after_concat]
    simp only [System.exec, hrel.not_claim, Bool.false_eq_true, if_false]
    rfl
  have hsplit : earlier ++ .store (.call plan c) :: later =
      earlier ++ [.store (.call plan c)] ++ later := by simp
  rw [hsplit] at hnd ⊢
  have hnone : ¬(sys.after (earlier ++ [.store (.call plan c)])).Owns i owner := by
    rw [Owns, hlast]
    exact hended
  intro ho
  exact (confined_of_ended hnew hnd hheld hnone).owned id ho

omit hc in
theorem capped_restart (h : sys.store.Inv) (hone : sys.OwnersUnique) (s : ι)
    (plan : Planner) (maxPerWorker : UInt32)
    (hr : (sys.store.call (J := J) plan .inFlightByWorker).1 = .ok (.inFlight counts)) :
    (sys.restart J s plan maxPerWorker).Capped s (max maxPerWorker 1)
      (fun w => (sys.running w).ncard) := by
  obtain ⟨_, heq, hn, hm⟩ := inFlight_counts hone h hr
  cases heq
  obtain ⟨hones, hcov, -⟩ := snapshot_spec hone hn hm
  have hserver : (sys.restart J s plan maxPerWorker).server s =
      ⟨⟨max maxPerWorker 1, snapshot counts⟩, .idle⟩ := by
    simp only [restart, server_setServer, if_true, hr]
    rfl
  refine ⟨?_, ?_, ?_, ?_, ?_⟩
  · rw [hserver]
  · rw [hserver]
    exact hones
  · intro id o ho
    rw [hserver]
    exact .inl (hcov id o ho)
  · intro _ _ _ hp
    rw [hserver] at hp
    cases hp
  · intro w
    exact le_max_right _ _
end System

/-- One limiter makes all claims since it was filled from the database, and its
owners are released after their transitions. No worker ever has more runs than
the cap or than it had at that time, the map counts every run, but for the one
whose claim still holds the lock, and a refusal is backed by the database. -/
theorem worker_runs_capped [DecidableEq ι] {sys : System ι} (hnew : sys.IsNew)
    (pre post : List (Event ι J)) (s : ι) (plan : Planner) (maxPerWorker : UInt32)
    (hnd : ((pre ++ .restart s plan maxPerWorker :: post).filterMap Event.owner).Nodup)
    (hrehydrated : ∃ counts, ((sys.after pre).store.call (J := J) plan .inFlightByWorker).1 =
      .ok (.inFlight counts))
    (hclaims : ∀ e ∈ post, e.ClaimsAt s)
    (hreleases : ∀ done owner rest, post = done ++ .releaseClaim s owner :: rest →
      sys.TransitionSucceeded (pre ++ .restart s plan maxPerWorker :: done) owner) :
    let cap := (max maxPerWorker 1).toNat
    let now := sys.after (pre ++ .restart s plan maxPerWorker :: post)
    (∀ w, (now.running w).ncard ≤ max cap ((sys.after pre).running w).ncard) ∧
    (∀ id o, now.Owns id o →
      (o, 1) ∈ (now.server s).limiter.claims.rows ∨ (now.server s).phase = .claimed o) ∧
    ∀ plan' w nanoid names leaseMs,
      (now.exec (.beginClaim s plan' w nanoid names leaseMs : Event ι J)).1 =
        .admission .refused → cap ≤ (now.running w).ncard := by
  intro cap now
  have hfresh (events : List (Event ι J)) (hev : (events.filterMap Event.owner).Nodup) :=
    hnew.fresh.after hnew.store.inv events (by simpa using hev)
  obtain ⟨hf, hinv⟩ := hfresh _ hnd
  have hcapped : now.Capped s (max maxPerWorker 1)
      (fun w => ((sys.after pre).running w).ncard) := by
    clear hf hinv
    revert now
    -- the last event acts on a state that meets the bounds already
    induction post using List.reverseRecOn with
    | nil =>
      intro now
      have hnow : now = (sys.after pre).restart J s plan maxPerWorker :=
        Execution.after_concat _ _ _ _
      obtain ⟨counts, hr⟩ := hrehydrated
      have hpre := hfresh pre (by rw [filterMap_append] at hnd; exact hnd.of_append_left)
      rw [hnow]
      exact System.capped_restart hpre.2 hpre.1.owned_unique s plan maxPerWorker hr
    | append_singleton done e ih =>
      intro now
      have hsplit : pre ++ .restart s plan maxPerWorker :: (done ++ [e]) =
          (pre ++ .restart s plan maxPerWorker :: done) ++ [e] := by simp
      have hnow : now =
          ((sys.after (pre ++ .restart s plan maxPerWorker :: done)).exec e).2 := by
        show sys.after (pre ++ .restart s plan maxPerWorker :: (done ++ [e])) = _
        rw [hsplit]
        exact Execution.after_concat _ _ _ _
      have hnd' : ((pre ++ .restart s plan maxPerWorker :: done).filterMap
          Event.owner).Nodup := by
        rw [hsplit, filterMap_append] at hnd
        exact hnd.of_append_left
      have hdone := ih hnd' (fun e' he' => hclaims e' (mem_append_left _ he')) (by
        intro a o b hab
        apply hreleases a o (b ++ [e])
        rw [hab]
        simp)
      obtain ⟨hf, hinv⟩ := hfresh _ hnd'
      rw [hnow]
      refine hdone.exec hinv hf.owned_unique e (hclaims e (by simp)) ?_
      intro o he
      exact System.not_owns_of_transition hnew hnd' (hreleases done o [] (by rw [he]))
  refine ⟨hcapped.bound, hcapped.covered, ?_⟩
  intro plan' w nanoid names leaseMs href
  simp only [System.exec, System.beginClaim] at href
  split at href
  · rename_i hidle
    obtain ⟨-, -, -, -, hge⟩ := hcapped.admission (J := J) hinv hf.owned_unique hidle plan' w
    exact hge (Answer.admission.inj href)
  · cases href

def claimAndRelease : List (Event Unit JsonCodec.literals) :=
  claimOnce ++ completeOnce ++ [.releaseClaim () "worker:abc"]

theorem worker_runs_capped_claimAndRelease :
    ((oneServer.after ([] ++ .restart () .stored 1 :: claimAndRelease)).running "worker").ncard ≤
      max (max 1 1 : UInt32).toNat
        ((oneServer.after (J := JsonCodec.literals) []).running "worker").ncard := by
  have hnew : oneServer.IsNew := ⟨.sqlite, fun _ => rfl⟩
  have hclaims : ∀ e ∈ claimAndRelease, e.ClaimsAt () := by
    intro e he
    simp only [claimAndRelease, claimOnce, completeOnce, cons_append, nil_append,
      mem_cons, not_mem_nil, or_false] at he
    rcases he with rfl | rfl | rfl | rfl | rfl | rfl <;> trivial
  refine (worker_runs_capped hnew [] claimAndRelease () .stored 1 (by decide) ⟨[], rfl⟩ hclaims
    ?_).1 "worker"
  intro done _ _ h
  -- only the last event is a release, and the completion precedes it
  rcases done with _ | ⟨e₁, _ | ⟨e₂, _ | ⟨e₃, _ | ⟨e₄, _ | ⟨e₅, _ | ⟨e₆, done⟩⟩⟩⟩⟩⟩
  · cases h
  · cases h
  · cases h
  · cases h
  · cases h
  · cases h
    exact ⟨.restart () .stored 1 :: claimOnce, .stored, .complete .epoch "run" "worker:abc", [],
      .done, rfl, rfl, rfl⟩
  · simp [claimAndRelease, claimOnce, completeOnce] at h

end Tako.Workflow
