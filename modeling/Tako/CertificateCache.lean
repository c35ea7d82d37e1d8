import Mathlib.Logic.Embedding.Basic
import Tako.TaskPools

/-! The certificate files of one domain and their cache. A renewal writes the certificate and the
key one after the other. -/
namespace Tako.Tls
open Tasks List
variable {C K Time : Type}
structure CachedCert (C K Time : Type) where
  cert : C
  key : K
  mtime : Time
deriving DecidableEq

/-- `fullchain.pem` with its modification time, `privkey.pem` and the cache entry of
the domain. `stored` has the pairs of all renewals, for the record. -/
structure Disk (C K Time : Type) where
  fullchain : Option (C × Time)
  privkey : Option K
  cache : Option (CachedCert C K Time)
  stored : List (C × K)

/-- How far `store_certificate` has come. The marker of the issuer and the list of
certificates are not read by a handshake. -/
inductive StorePhase where
  | writeCert
  | writeKey
  | writeIssuer
  | addCert
  | done
deriving DecidableEq

inductive LoadPhase (C K Time : Type) where
  | compare
  | remove
  | stat
  | readCert (mtime : Time)
  | readKey (mtime : Time) (cert : C)
  | insert (mtime : Time) (cert : C) (key : K)
  | done (result : Option (C × K))
deriving DecidableEq

inductive Task (C K Time : Type) where
  | storing (cert : C) (key : K) (phase : StorePhase)
  | loading (phase : LoadPhase C K Time)
deriving DecidableEq

inductive Call (C K : Type) where
  | storeCertificate (cert : C) (key : K)
  | getOrLoadCert

def Call.task : Call C K → Task C K Time
  | .storeCertificate cert key => .storing cert key .writeCert
  | .getOrLoadCert => .loading .compare

namespace Task
/-- The files were looked at again, and the entry is yet to be put in the cache. -/
def reloads : Task C K Time → Bool
  | .loading (.readCert _) => true
  | .loading (.readKey ..) => true
  | .loading (.insert ..) => true
  | _ => false

def halfway : Task C K Time → Bool
  | .storing _ _ .writeKey => true
  | _ => false

def renews : Task C K Time → Bool
  | .storing _ _ phase => phase ≠ .writeCert && phase ≠ .done
  | _ => false
end Task

abbrev Server (C K Time : Type) := Pool (Task C K Time) (Disk C K Time)

abbrev Moment (C K : Type) := Event (Call C K) Unit

def fresh : Server C K Time := ⟨[], ⟨none, none, none, []⟩⟩

section
variable [DecidableEq Time] (modified : ℕ ↪ Time) (unixEpoch : Time)
/-- One access to the files or to the cache. The `i`-th certificate that is written
has the modification time `modified i`. -/
def step : Task C K Time → Unit → Disk C K Time → Option (Task C K Time × Disk C K Time)
  | .storing cert key .writeCert, _, d =>
    some (.storing cert key .writeKey,
      { d with
        fullchain := some (cert, modified d.stored.length), stored := d.stored ++ [(cert, key)] })
  | .storing cert key .writeKey, _, d =>
    some (.storing cert key .writeIssuer, { d with privkey := some key })
  | .storing cert key .writeIssuer, _, d => some (.storing cert key .addCert, d)
  | .storing cert key .addCert, _, d => some (.storing cert key .done, d)
  | .storing _ _ .done, _, _ => none
  | .loading .compare, _, d =>
    match d.cache with
    | none => some (.loading .stat, d)
    | some cached =>
      -- without the file the entry counts as current
      if (d.fullchain.map Prod.snd).getD cached.mtime = cached.mtime then
        some (.loading (.done (some (cached.cert, cached.key))), d)
      else some (.loading .remove, d)
  | .loading .remove, _, d => some (.loading .stat, { d with cache := none })
  | .loading .stat, _, d =>
    some (.loading (.readCert ((d.fullchain.map Prod.snd).getD unixEpoch)), d)
  | .loading (.readCert mtime), _, d =>
    match d.fullchain with
    | none => some (.loading (.done none), d)
    | some (cert, _) => some (.loading (.readKey mtime cert), d)
  | .loading (.readKey mtime cert), _, d =>
    match d.privkey with
    | none => some (.loading (.done none), d)
    | some key => some (.loading (.insert mtime cert key), d)
  | .loading (.insert mtime cert key), _, d =>
    some (.loading (.done (some (cert, key))), { d with cache := some ⟨cert, key, mtime⟩ })
  | .loading (.done _), _, _ => none

/-- Renewals come one at a time, and neither of the two writes falls into a reload,
nor does a reload begin between them. -/
def undisturbed : Moment C K → Server C K Time → Bool
  | .start _, _ => true
  | .run k _, p =>
    match p.tasks[k]? with
    | some (.storing _ _ .writeCert) => p.tasks.all fun t => !t.renews && !t.reloads
    | some (.storing _ _ .writeKey) => p.tasks.all fun t => !t.reloads
    | some (.loading .stat) => p.tasks.all fun t => !t.halfway
    | _ => true

abbrev serve (p : Server C K Time) (events : List (Moment C K)) : Server C K Time :=
  after Call.task (step modified unixEpoch) p events

abbrev Undisturbed (p : Server C K Time) (events : List (Moment C K)) : Prop :=
  Meets Call.task (step modified unixEpoch) (fun event p => undisturbed event p = true) p events
end

def Relies (d : Disk C K Time) : Task C K Time → Prop
  | .storing cert key .writeKey => d.stored.getLast? = some (cert, key)
  | .loading (.readCert mtime) => ∀ cert m, d.fullchain = some (cert, m) → mtime = m
  | .loading (.readKey mtime cert) => d.fullchain = some (cert, mtime)
  | .loading (.insert mtime cert key) => d.fullchain = some (cert, mtime) ∧ d.privkey = some key
  | .loading (.done (some pair)) => pair ∈ d.stored
  | _ => True

/-- The files are those of the last renewal, up to a key that is yet to be written,
and a cache entry has the pair of the renewal that its time is of. -/
structure Sound (modified : ℕ ↪ Time) (p : Server C K Time) : Prop where
  fullchain : p.shared.fullchain =
    p.shared.stored.getLast?.map fun pair => (pair.1, modified (p.shared.stored.length - 1))
  privkey : (∀ t ∈ p.tasks, t.halfway = false) →
    p.shared.privkey = p.shared.stored.getLast?.map Prod.snd
  cache : ∀ cached, p.shared.cache = some cached →
    ∃ i, p.shared.stored[i]? = some (cached.cert, cached.key) ∧ modified i = cached.mtime
  relies : ∀ t ∈ p.tasks, Relies p.shared t
  apart : (∀ t ∈ p.tasks, t.halfway = false) ∨ ∀ t ∈ p.tasks, t.reloads = false

section
variable {modified : ℕ ↪ Time} {p : Server C K Time} {k : ℕ} {t t' : Task C K Time}
  (h : Sound modified p)

include h
theorem Sound.start (call : Call C K) :
    Sound modified { p with tasks := p.tasks ++ [call.task] } := by
  have hnew : Relies p.shared (call.task : Task C K Time) ∧
      (call.task : Task C K Time).halfway = false ∧
      (call.task : Task C K Time).reloads = false := by
    cases call <;> exact ⟨trivial, rfl, rfl⟩
  refine ⟨h.fullchain, fun hnone => h.privkey ?_, h.cache, forall_append h.relies hnew.1, ?_⟩
  · exact fun t ht => hnone t (mem_append_left _ ht)
  · obtain hnone | hnone := h.apart
    · exact .inl (forall_append hnone hnew.2.1)
    · exact .inr (forall_append hnone hnew.2.2)

theorem Sound.whole (ht : t ∈ p.tasks) (hreloads : t.reloads = true) :
    ∀ u ∈ p.tasks, u.halfway = false := by
  refine h.apart.resolve_right fun hnone => ?_
  rw [hnone t ht] at hreloads
  cases hreloads

theorem Sound.newest (hwhole : ∀ u ∈ p.tasks, u.halfway = false) {cert : C} {mtime : Time} {key : K}
    (hcert : p.shared.fullchain = some (cert, mtime)) (hkey : p.shared.privkey = some key) :
    p.shared.stored.getLast? = some (cert, key) ∧
      modified (p.shared.stored.length - 1) = mtime := by
  have hfull := h.fullchain.symm.trans hcert
  have hpriv := (h.privkey hwhole).symm.trans hkey
  cases hlast : p.shared.stored.getLast? with
  | none => simp [hlast] at hfull
  | some =>
    simp only [hlast, Option.map_some, Option.some.injEq, Prod.mk.injEq] at hfull hpriv
    exact ⟨by rw [← hfull.1, ← hpriv], hfull.2⟩

theorem Sound.pass (ht : p.tasks[k]? = some t) (hhalf : t.halfway = false ∧ t'.halfway = false)
    (hrelies : Relies p.shared t') (hreloads : t'.reloads = true → ∀ u ∈ p.tasks, u.halfway = false)
    {cache : Option (CachedCert C K Time)} (hcache : ∀ cached, cache = some cached →
      ∃ i, p.shared.stored[i]? = some (cached.cert, cached.key) ∧ modified i = cached.mtime) :
    Sound modified ⟨p.tasks.set k t', { p.shared with cache := cache }⟩ := by
  refine ⟨h.fullchain, fun hnone => h.privkey ?_, hcache, ?_, ?_⟩
  · intro u hu
    by_contra hu'
    obtain ⟨v, hv, hv'⟩ := Has.set (P := fun u : Task C K Time => u.halfway ≠ false) ht ⟨u, hu, hu'⟩
      (by simpa using hhalf.1) t'
    exact hv' (hnone v hv)
  · exact forall_set h.relies hrelies
  · cases hr : t'.reloads with
    | true => exact .inl (forall_set (hreloads hr) hhalf.2)
    | false => exact h.apart.imp (fun hn => forall_set hn hhalf.2) fun hn => forall_set hn hr

variable [DecidableEq Time] {unixEpoch : Time} {d : Disk C K Time}
/-- The files change in two writes, and nobody loads between them. -/
theorem Sound.run (hC : undisturbed (.run k () : Moment C K) p = true) (ht : p.tasks[k]? = some t)
    (hstep : step modified unixEpoch t () p.shared = some (t', d)) :
    Sound modified ⟨p.tasks.set k t', d⟩ := by
  have hmem := mem_of_getElem? ht
  have hrelies := h.relies t hmem
  have hwhole := h.whole hmem
  have hquiet (hhalf : t.halfway = false) (u : Task C K Time) (hu : Relies p.shared u)
      (hu' : u.halfway = false ∧ u.reloads = false) :
      Sound modified ⟨p.tasks.set k u, p.shared⟩ :=
    h.pass ht ⟨hhalf, hu'.1⟩ hu (fun hr => absurd (hr.symm.trans hu'.2) (by decide)) h.cache
  simp only [undisturbed, ht] at hC
  cases t with
  | storing cert key phase =>
    cases phase with
    | done => cases hstep
    | writeIssuer =>
      cases hstep
      exact hquiet rfl (.storing cert key .addCert) trivial ⟨rfl, rfl⟩
    | addCert =>
      cases hstep
      exact hquiet rfl (.storing cert key .done) trivial ⟨rfl, rfl⟩
    | writeCert =>
      cases hstep
      simp only [all_eq_true, Bool.and_eq_true, Bool.not_eq_true'] at hC
      refine ⟨by simp, fun hnone => ?_, ?_, forall_set ?_ ?_, .inr (forall_set ?_ rfl)⟩
      · obtain ⟨hk, _⟩ := List.getElem?_eq_some_iff.mp ht
        cases hnone _ (List.mem_set hk _)
      · intro cached hcached
        obtain ⟨i, hi, hmtime⟩ := h.cache cached hcached
        have hlt := (List.getElem?_eq_some_iff.mp hi).1
        exact ⟨i, (List.getElem?_append_left hlt).trans hi, hmtime⟩
      · -- the others neither renew nor reload, so they only rely on what was stored
        intro u hu
        have hu' := hC u hu
        have hold := h.relies u hu
        rcases u with ⟨c, key', _ | _ | _ | _ | _⟩ |
          (_ | _ | _ | m | ⟨m, c⟩ | ⟨m, c, key'⟩ | _ | pair)
        case storing.writeKey => cases hu'.1
        case loading.readCert => cases hu'.2
        case loading.readKey => cases hu'.2
        case loading.insert => cases hu'.2
        case loading.done.some => exact mem_append_left _ hold
        all_goals trivial
      · simp [Relies]
      · exact fun u hu => (hC u hu).2
    | writeKey =>
      cases hstep
      simp only [all_eq_true, Bool.not_eq_true'] at hC
      refine ⟨h.fullchain, fun _ => ?_, h.cache, forall_set ?_ trivial, .inr (forall_set hC rfl)⟩
      · show some key = p.shared.stored.getLast?.map Prod.snd
        rw [hrelies]
        rfl
      · intro u hu
        have hu' := hC u hu
        have hold := h.relies u hu
        rcases u with ⟨c, key', _ | _ | _ | _ | _⟩ |
          (_ | _ | _ | m | ⟨m, c⟩ | ⟨m, c, key'⟩ | _ | pair)
        case loading.insert => cases hu'
        all_goals exact hold
  | loading phase =>
    cases phase with
    | done => cases hstep
    | compare =>
      simp only [step] at hstep
      split at hstep
      · cases hstep
        exact hquiet rfl (.loading .stat) trivial ⟨rfl, rfl⟩
      · rename_i cached hcached
        split at hstep <;> cases hstep
        · obtain ⟨i, hi, _⟩ := h.cache cached hcached
          exact hquiet rfl (.loading (.done (some (cached.cert, cached.key))))
            (mem_of_getElem? hi) ⟨rfl, rfl⟩
        · exact hquiet rfl (.loading .remove) trivial ⟨rfl, rfl⟩
    | remove =>
      cases hstep
      exact h.pass ht ⟨rfl, rfl⟩ (by trivial) (fun hr => by cases hr)
        fun cached hnone => by cases hnone
    | stat =>
      cases hstep
      simp only [all_eq_true, Bool.not_eq_true'] at hC
      refine h.pass ht ⟨rfl, rfl⟩ ?_ (fun _ => hC) h.cache
      intro cert m hfull
      rw [hfull]
      rfl
    | readCert mtime =>
      simp only [step] at hstep
      split at hstep <;> cases hstep
      · exact hquiet rfl (.loading (.done none)) trivial ⟨rfl, rfl⟩
      · rename_i cert m hfull
        refine h.pass ht ⟨rfl, rfl⟩ ?_ (fun _ => hwhole rfl) h.cache
        show p.shared.fullchain = some (cert, mtime)
        rw [hrelies cert m hfull, hfull]
    | readKey mtime cert =>
      simp only [step] at hstep
      split at hstep <;> cases hstep
      · exact hquiet rfl (.loading (.done none)) trivial ⟨rfl, rfl⟩
      · rename_i key hkey
        exact h.pass ht ⟨rfl, rfl⟩ (by exact ⟨hrelies, hkey⟩) (fun _ => hwhole rfl) h.cache
    | insert =>
      cases hstep
      obtain ⟨hlast, hmtime⟩ := h.newest (hwhole rfl) hrelies.1 hrelies.2
      refine h.pass ht ⟨rfl, rfl⟩ (by exact mem_of_getLast? hlast) (fun hr => by cases hr) ?_
      rintro _ ⟨⟩
      exact ⟨_, getLast?_eq_getElem? ▸ hlast, hmtime⟩

theorem Sound.result (hne : p.shared.stored ≠ []) (hwhole : ∀ u ∈ p.tasks, u.halfway = false)
    (ht : t ∈ p.tasks) {r : Option (C × K)}
    (hstep : step modified unixEpoch t () p.shared = some (.loading (.done r), d)) :
    r = p.shared.stored.getLast? := by
  have hrelies := h.relies t ht
  have hlast := getLast?_eq_some_getLast hne
  have hfull := h.fullchain
  have hpriv := h.privkey hwhole
  rw [hlast, Option.map_some] at hfull hpriv
  cases t with
  | storing _ _ phase => cases phase <;> cases hstep
  | loading phase =>
    cases phase with
    | compare =>
      simp only [step] at hstep
      split at hstep
      · cases hstep
      · rename_i cached hcached
        split at hstep <;> cases hstep
        rename_i hcurrent
        obtain ⟨i, hi, hmtime⟩ := h.cache cached hcached
        -- the times are the same, so the entry is of the last renewal
        rw [hfull, ← hmtime] at hcurrent
        have hindex : p.shared.stored.length - 1 = i := modified.injective hcurrent
        rw [getLast?_eq_getElem?, hindex, hi]
    | readCert => simp [step, hfull] at hstep
    | readKey => simp [step, hpriv] at hstep
    | insert =>
      cases hstep
      exact (h.newest hwhole hrelies.1 hrelies.2).1.symm
    | _ => cases hstep

/-- As long as nothing was stored since `stored`, no renewal is under way, and the
handshakes from the `n`-th on get the newest pair. -/
def Current (stored : List (C × K)) (n : ℕ) (p : Server C K Time) : Prop :=
  stored <+: p.shared.stored ∧ (p.shared.stored = stored →
    (∀ t ∈ p.tasks, t.renews = false) ∧
    ∀ i r, n ≤ i → p.tasks[i]? = some (.loading (.done r)) → r = stored.getLast?)

/-- A handshake that comes later sees the time of the newest pair. -/
theorem Current.run {stored : List (C × K)} {n : ℕ} (hcur : Current stored n p) (hne : stored ≠ [])
    (ht : p.tasks[k]? = some t) (hstep : step modified unixEpoch t () p.shared = some (t', d)) :
    Current stored n ⟨p.tasks.set k t', d⟩ := by
  have hmem := mem_of_getElem? ht
  -- a step stores another pair, or stores nothing and begins no renewal
  have hcases : (∃ pair, d.stored = p.shared.stored ++ [pair]) ∨
      d.stored = p.shared.stored ∧ (t.renews = false → t'.renews = false) := by
    rcases t with ⟨cert, key, _ | _ | _ | _ | _⟩ | (_ | _ | _ | m | ⟨m, c⟩ | ⟨m, c, key⟩ | _)
    case storing.writeCert => exact .inl ⟨(cert, key), by cases hstep; rfl⟩
    all_goals
      right
      simp only [step] at hstep
      repeat' split at hstep
      all_goals cases hstep
      all_goals exact ⟨rfl, fun hr => by simp_all [Task.renews]⟩
  obtain ⟨_, hd⟩ | ⟨hd, hrenews⟩ := hcases
  · refine ⟨hcur.1.trans (hd ▸ prefix_append _ _), fun heq => ?_⟩
    have hlength := congrArg List.length (hd.symm.trans heq)
    have hle := hcur.1.length_le
    rw [length_append, length_singleton] at hlength
    omega
  · refine ⟨hd ▸ hcur.1, fun heq => ?_⟩
    have hsame : p.shared.stored = stored := hd.symm.trans heq
    obtain ⟨hquiet, hresults⟩ := hcur.2 hsame
    refine ⟨forall_set hquiet (hrenews (hquiet t hmem)), fun i r hi hr => ?_⟩
    by_cases hk : k = i
    · subst hk
      obtain ⟨hlt, _⟩ := List.getElem?_eq_some_iff.mp ht
      rw [List.getElem?_set_self hlt] at hr
      cases hr
      rw [← hsame]
      refine h.result (hsame ▸ hne) (fun u hu => ?_) hmem hstep
      have hu' := hquiet u hu
      rcases u with ⟨_, _, _ | _ | _ | _ | _⟩ | _ <;> first | rfl | cases hu'
    · rw [getElem?_set_ne hk] at hr
      exact hresults i r hi hr
end

section
variable [DecidableEq Time] (modified : ℕ ↪ Time) (unixEpoch : Time)
theorem sound_kept : Kept Call.task (step modified unixEpoch)
    (fun event (p : Server C K Time) => undisturbed event p = true) (Sound modified) :=
  ⟨fun _ call h _ => h.start call, fun _ _ _ _ _ _ h => h.run⟩

theorem current_kept {stored : List (C × K)} (hne : stored ≠ []) (n : ℕ) :
    Kept Call.task (step modified unixEpoch)
      (fun event (p : Server C K Time) => undisturbed event p = true)
      (fun p => Sound modified p ∧ Current stored n p) := by
  refine ⟨fun p call h _ => ⟨h.1.start call, h.2.1, fun heq => ?_⟩,
    fun p k _ t t' d h hC ht hstep => ⟨h.1.run hC ht hstep, h.2.run h.1 hne ht hstep⟩⟩
  obtain ⟨hquiet, hresults⟩ := h.2.2 heq
  refine ⟨forall_append hquiet (by cases call <;> rfl), fun i r hi hr => ?_⟩
  rcases Nat.lt_trichotomy i p.tasks.length with hlt | rfl | hgt
  · exact hresults i r hi ((List.getElem?_append_left hlt).symm.trans hr)
  · rw [getElem?_concat_length] at hr
    cases call <;> cases hr
  · rw [getElem?_eq_none (by rw [length_append]; exact hgt)] at hr
    cases hr

/-- While no write of a renewal falls into a reload and no reload begins between two
writes, every handshake gets the pair of one renewal, and one that begins after a
renewal has ended gets the newest pair until the next one writes. -/
theorem handshakes_get_one_pair (events later : List (Moment C K)) :
    let p : Server C K Time := serve modified unixEpoch fresh events
    let q := serve modified unixEpoch p later
    Undisturbed modified unixEpoch fresh events → Undisturbed modified unixEpoch p later →
    (∀ pair, .loading (.done (some pair)) ∈ p.tasks → pair ∈ p.shared.stored) ∧
    (p.shared.stored ≠ [] → (∀ t ∈ p.tasks, t.renews = false) → q.shared.stored = p.shared.stored →
      ∀ i r, p.tasks.length ≤ i → q.tasks[i]? = some (.loading (.done r)) →
        r = p.shared.stored.getLast?) := by
  intro p q h hlater
  have hfresh : Sound modified (fresh : Server C K Time) := by
    refine ⟨rfl, fun _ => rfl, ?_, ?_, .inl ?_⟩ <;> simp [fresh]
  have hsound : Sound modified p := (sound_kept modified unixEpoch).after hfresh h
  refine ⟨fun _ => hsound.relies _, fun hne hquiet hsame i r hi hr => ?_⟩
  have hstart : Current p.shared.stored p.tasks.length p := by
    refine ⟨prefix_rfl, fun _ => ⟨hquiet, fun i r hi hr => ?_⟩⟩
    rw [getElem?_eq_none hi] at hr
    cases hr
  have hend := (current_kept modified unixEpoch hne _).after ⟨hsound, hstart⟩ hlater
  exact (hend.2.2 hsame).2 i r hi hr
end

def steps (tasks : List ℕ) : List (Moment ℕ ℕ) := tasks.map fun k => .run k ()

def renewal : List (Moment ℕ ℕ) := .start (.storeCertificate 1 1) :: steps [0, 0, 0, 0]

def renewed : Server ℕ ℕ ℕ := serve (.refl ℕ) 0 fresh renewal

/-- A handshake falls into the second renewal and finds that the cached pair is old. -/
def renewedTwice : List (Moment ℕ ℕ) :=
  renewal ++ .start .getOrLoadCert :: steps [1, 1, 1, 1, 1] ++
    .start (.storeCertificate 2 2) :: .start .getOrLoadCert ::
      steps [2, 3, 3, 2, 3, 3, 3, 3, 2, 2]

/-- Two more take the new pair from the cache. -/
def loads : List (Moment ℕ ℕ) :=
  .start .getOrLoadCert :: .start .getOrLoadCert :: steps [4, 5]

theorem handshakes_get_one_pair_renewedTwice :
    let p : Server ℕ ℕ ℕ := serve (.refl ℕ) 0 fresh renewedTwice
    p.tasks = [.storing 1 1 .done, .loading (.done (some (1, 1))), .storing 2 2 .done,
      .loading (.done (some (2, 2)))] ∧
    (serve (.refl ℕ) 0 p loads).tasks[5]? = some (.loading (.done (some (2, 2)))) ∧
    ∀ i r, 4 ≤ i → (serve (.refl ℕ) 0 p loads).tasks[i]? = some (.loading (.done r)) →
      r = some (2, 2) := by
  refine ⟨by decide +kernel, by decide +kernel, ?_⟩
  exact (handshakes_get_one_pair (.refl ℕ) 0 renewedTwice loads (by decide +kernel)
    (by decide +kernel)).2 (by decide +kernel) (by decide +kernel) (by decide +kernel)

/-- A handshake reloads between the two writes of a second renewal. It gets the new
certificate with the old key, and so does one that begins when all have ended. -/
def loadBetweenWrites : List (Moment ℕ ℕ) :=
  .start (.storeCertificate 2 2) :: .start .getOrLoadCert ::
    (steps [1, 2, 2, 2, 2, 2, 1, 1, 1] ++ .start .getOrLoadCert :: steps [3])

theorem handshake_gets_mixed_pair :
    (serve (.refl ℕ) 0 renewed loadBetweenWrites).shared.stored = [(1, 1), (2, 2)] ∧
    (serve (.refl ℕ) 0 renewed loadBetweenWrites).tasks =
      [.storing 1 1 .done, .storing 2 2 .done, .loading (.done (some (2, 1))),
        .loading (.done (some (2, 1)))] := by
  decide

end Tako.Tls
