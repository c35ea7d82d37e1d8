import Tako.DeployPersistence

/-! Which mixtures of an old and a new deployment the state store can hold, at any point
of a deployment and after it. -/
namespace Tako.Deploy
open Tasks Operation List
variable {V α β : Type} {old new s s' : Stored V}
inductive Part where
  | app
  | secrets
  | runtimeCredentials
  | storages
  | ssl
  | backup
  deriving DecidableEq

def Same : Part → Stored V → Stored V → Prop
  | .app, s, s' => s.row = s'.row ∧ s.routes = s'.routes
  | .secrets, s, s' => s.secrets = s'.secrets
  | .runtimeCredentials, s, s' => s.runtimeCredentials = s'.runtimeCredentials
  | .storages, s, s' => s.storages = s'.storages
  | .ssl, s, s' => s.ssl = s'.ssl
  | .backup, s, s' => s.backup = s'.backup

theorem eq_of_same (h : ∀ part, Same part s s') : s = s' := by
  obtain ⟨_, _⟩ := h .app
  have hsecrets : s.secrets = s'.secrets := h .secrets
  have hcredentials : s.runtimeCredentials = s'.runtimeCredentials := h .runtimeCredentials
  have hstorages : s.storages = s'.storages := h .storages
  have hssl : s.ssl = s'.ssl := h .ssl
  have hbackup : s.backup = s'.backup := h .backup
  cases s
  cases s'
  simp_all

def Mixed (old new s : Stored V) : Prop := ∀ part, Same part s old ∨ Same part s new

def Write.Within (old new : Stored V) : Write V → Prop
  | .secrets v => v = old.secrets ∨ v = new.secrets
  | .runtimeCredentials v => v = old.runtimeCredentials ∨ v = new.runtimeCredentials
  | .storages v => v = old.storages ∨ v = new.storages
  | .ssl v => v = old.ssl ∨ v = new.ssl
  | .backup v => v = old.backup ∨ v = new.backup
  | .app row routes => (row = old.row ∧ routes = old.routes) ∨
      (row = new.row ∧ routes = new.routes)

theorem Mixed.put {w : Write V} (h : Mixed old new s) (hw : w.Within old new) :
    Mixed old new (s.put w) := by
  intro part
  have hpart := h part
  -- a write is seen in its own part only
  cases w <;> cases part <;> first | exact hw | exact hpart

theorem Mixed.all_or_nothing (h : Mixed old new s)
    (hone : ∃ part, ∀ part', part' ≠ part → Same part' old new) : s = old ∨ s = new := by
  obtain ⟨part, hothers⟩ := hone
  have hsame (part' : Part) (hne : part' ≠ part) : Same part' s old ∧ Same part' s new := by
    have hequal := hothers part' hne
    obtain hold | hnew := h part'
    · refine ⟨hold, ?_⟩
      cases part' <;> simp_all [Same]
    · refine ⟨?_, hnew⟩
      cases part' <;> simp_all [Same]
  obtain hold | hnew := h part
  · left
    refine eq_of_same fun part' => ?_
    by_cases hne : part' = part
    · exact hne ▸ hold
    · exact (hsame part' hne).1
  · right
    refine eq_of_same fun part' => ?_
    by_cases hne : part' = part
    · exact hne ▸ hnew
    · exact (hsame part' hne).2

section
variable {I : Server V → Prop} {Q : α → Server V → Prop} {R : β → Server V → Prop} {a b : Server V}
def nobody : Empty → Server V → Option (Server V) := fun o _ => o.elim

def Ends (I : Server V → Prop) (Q : α → Server V → Prop) (x : Operation V α)
    (a : Server V) : Prop :=
  ∀ made, Ensures Call.perform nobody (fun _ _ _ => True) (fun a _ => I a) (fun r a _ => Q r a) x
    a made

theorem drifts_nobody {C : Empty → Server V → List (Made (Call V) Call.Reply (Server V)) → Prop}
    {made : List (Made (Call V) Call.Reply (Server V))} (h : Drifts nobody C made a b) : b = a := by
  induction h with
  | refl => rfl
  | tail _ hstep => exact hstep.choose.elim

theorem ends_ret {r : α} (hI : I a) (hQ : Q r a) : Ends I Q (pure r) a := by
  intro _ _ hb
  rw [drifts_nobody hb]
  exact ⟨hI, hQ⟩

theorem ends_call {p : Call V} {f : p.Reply → Operation V α} {r : p.Reply} {b : Server V} (hI : I a)
    (hperform : p.perform a = some (r, b)) (h : Ends I Q (f r) b) :
    Ends I Q (invoke p >>= f) a := by
  intro _ _ ha
  rw [drifts_nobody ha]
  refine ⟨hI, fun r' b' hperform' => ?_⟩
  rw [hperform] at hperform'
  cases hperform'
  exact h _

theorem ends_fails {f : Bool → Operation V α} (hI : I a) (h : ∀ failed, Ends I Q (f failed) a) :
    Ends I Q (fails >>= f) a := by
  intro made b hb
  rw [drifts_nobody hb]
  exact ⟨hI, fun n => h _ made⟩

theorem ends_bind {x : Operation V α} {f : α → Operation V β} (hx : Ends I Q x a)
    (hf : ∀ r b, Q r b → Ends I R (f r) b) : Ends I R (x >>= f) a := by
  intro made
  exact ensures_bind (hx made) fun r b made hr => hf r b hr made

theorem Ends.mono {Q' : α → Server V → Prop} {x : Operation V α} (h : Ends I Q x a)
    (hQ : ∀ r b, Q r b → Q' r b) : Ends I Q' x a := by
  intro made
  exact (h made).mono fun r b _ hr => hQ r b hr
end

section
variable {before a : Server V} {q : DeployRequest V}
structure Unchanged (before a : Server V) : Prop where
  stored : a.stored = before.stored
  config : a.config = before.config
  routes : a.routes = before.routes

/-- While no read has failed, only old and new values are stored. -/
def Tidy (before : Server V) (q : DeployRequest V) (a : Server V) : Prop :=
  a.readFailures = 0 → Mixed before.stored (q.applied before.stored) a.stored

theorem mixed_self (old new : Stored V) : Mixed old new old := by
  intro part
  left
  cases part <;> first | exact ⟨rfl, rfl⟩ | rfl

theorem Unchanged.tidy (h : Unchanged before a) : Tidy before q a := by
  intro _
  rw [h.stored]
  exact mixed_self _ _

theorem ends_read {get : Stored V → β} (h : Unchanged before a) : Ends (Tidy before q)
      (fun r b => Unchanged before b ∧ (∀ v, r = some v → v = get before.stored) ∧
        (r = none → b.readFailures ≠ 0) ∧ (b.readFailures = 0 → a.readFailures = 0))
      (read get) a := by
  refine ends_fails h.tidy fun failed => ?_
  cases failed with
  | true =>
    refine ends_call h.tidy rfl ?_
    have hb : Unchanged before { a with readFailures := a.readFailures + 1 } :=
      ⟨h.stored, h.config, h.routes⟩
    refine ends_ret hb.tidy ⟨hb, nofun, fun _ => ?_, fun hzero => ?_⟩
    · exact Nat.succ_ne_zero _
    · exact absurd hzero (Nat.succ_ne_zero _)
  | false =>
    refine ends_call h.tidy rfl ?_
    refine ends_ret h.tidy ⟨h, fun v hv => ?_, nofun, id⟩
    cases hv
    rw [h.stored]

theorem ends_given {part : Option β} {get : Stored V → β} (h : Unchanged before a) :
    Ends (Tidy before q)
      (fun r b => Unchanged before b ∧ ∀ v, r = some v → v = part.getD (get before.stored))
      (given part get) a := by
  cases part with
  | some => exact ends_ret h.tidy ⟨h, fun v' hv => (Option.some.inj hv).symm⟩
  | none => exact (ends_read h).mono fun r b hr => ⟨hr.1, hr.2.1⟩

/-- How a deployment ends: refused or rolled back without a trace, as long as the store
works. -/
def Undone (before : Server V) (response : Response) (a : Server V) : Prop :=
  a.readFailures = 0 → a.writeFailures = 0 → response ≠ .deployed → Unchanged before a

theorem ends_orRefuse {x : Operation V (Option β)} {f : β → Operation V Response}
    {P : β → Server V → Prop}
    (hx : Ends (Tidy before q) (fun r b => Unchanged before b ∧ ∀ v, r = some v → P v b) x a)
    (hf : ∀ v b, Unchanged before b → P v b → Ends (Tidy before q) (Undone before) (f v) b) :
    Ends (Tidy before q) (Undone before) (orRefuse x f) a := by
  refine ends_bind hx fun r b hr => ?_
  cases r with
  | none => exact ends_ret hr.1.tidy fun _ _ _ => hr.1
  | some v => exact hf v b hr.1 (hr.2 v rfl)

theorem ends_unlessFails {x : Operation V Response} (h : Unchanged before a)
    (hx : Ends (Tidy before q) (Undone before) x a) :
    Ends (Tidy before q) (Undone before) (unlessFails x) a := by
  refine ends_fails h.tidy fun failed => ?_
  cases failed with
  | true => exact ends_ret h.tidy fun _ _ _ => h
  | false => exact hx

abbrev Allowed (before : Server V) (q : DeployRequest V) (a : Server V) (w : Write V) : Prop :=
  a.readFailures = 0 → w.Within before.stored (q.applied before.stored)

theorem ends_persist {w : Write V} (h : Tidy before q a) (hw : Allowed before q a w) :
    Ends (Tidy before q)
      (fun ok b => Tidy before q b ∧ b = if ok then { a with stored := a.stored.put w }
        else { a with writeFailures := a.writeFailures + 1 })
      (persist w) a := by
  refine ends_fails h fun failed => ?_
  cases failed with
  | true =>
    refine ends_call h rfl ?_
    exact ends_ret h ⟨h, rfl⟩
  | false =>
    refine ends_call h rfl ?_
    have hput : Tidy before q { a with stored := a.stored.put w } :=
      fun hread => (h hread).put (hw hread)
    exact ends_ret hput ⟨hput, rfl⟩

/-- What writes leave, besides the store: nothing, and all of them are done if none
has failed. -/
structure Wrote (writes : List (Write V)) (a b : Server V) : Prop where
  config : b.config = a.config
  routes : b.routes = a.routes
  readFailures : b.readFailures = a.readFailures
  failures : a.writeFailures ≤ b.writeFailures
  stored : b.writeFailures = a.writeFailures → b.stored = writes.foldl Stored.put a.stored

variable {writes : List (Write V)}
/-- The rollback makes every write, also after one that failed. -/
theorem ends_restoreAll (h : Tidy before q a) (hw : ∀ w ∈ writes, Allowed before q a w) :
    Ends (Tidy before q) (fun _ b => Tidy before q b ∧ Wrote writes a b) (restoreAll writes) a := by
  induction writes generalizing a with
  | nil => exact ends_ret h ⟨h, rfl, rfl, rfl, Nat.le_refl _, fun _ => rfl⟩
  | cons w rest ih =>
    obtain ⟨hfirst, hrest⟩ := forall_mem_cons.mp hw
    refine ends_bind (ends_persist h hfirst) fun ok b hb => ?_
    obtain ⟨htidy, rfl⟩ := hb
    cases ok with
    | true =>
      refine (ih htidy hrest).mono fun _ c hc => ⟨hc.1, ?_⟩
      exact { hc.2 with }
    | false =>
      refine (ih htidy hrest).mono fun _ c hc => ⟨hc.1, ?_⟩
      have hfailures : a.writeFailures + 1 ≤ c.writeFailures := hc.2.failures
      refine { hc.2 with failures := by omega, stored := fun heq => ?_ }
      omega

/-- The writes stop at the first that fails, and mix old and new values only. -/
theorem ends_persistAll (h : Tidy before q a) (hw : ∀ w ∈ writes, Allowed before q a w) :
    Ends (Tidy before q) (fun ok b => Tidy before q b ∧ b.config = a.config ∧ b.routes = a.routes ∧
        b.readFailures = a.readFailures ∧ (ok = false → b.writeFailures ≠ 0))
      (persistAll writes) a := by
  induction writes generalizing a with
  | nil => exact ends_ret h ⟨h, rfl, rfl, rfl, nofun⟩
  | cons w rest ih =>
    obtain ⟨hfirst, hrest⟩ := forall_mem_cons.mp hw
    refine ends_bind (ends_persist h hfirst) fun ok b hb => ?_
    obtain ⟨htidy, rfl⟩ := hb
    cases ok with
    | true => exact ih htidy hrest
    | false =>
      refine ends_ret htidy ⟨htidy, rfl, rfl, rfl, fun _ => ?_⟩
      exact Nat.succ_ne_zero _

theorem ends_persistAppState (h : Tidy before q a)
    (hw : Allowed before q a (.app a.config.row a.routes)) : Ends (Tidy before q)
      (fun _ b => Tidy before q b ∧ Wrote [.app a.config.row a.routes] a b) persistAppState a := by
  refine ends_call h rfl ?_
  refine ends_call h rfl ?_
  refine ends_bind (ends_persist h hw) fun ok b hb => ?_
  obtain ⟨htidy, rfl⟩ := hb
  refine ends_ret htidy ⟨htidy, ?_⟩
  cases ok with
  | true => exact ⟨rfl, rfl, rfl, Nat.le_refl _, fun _ => rfl⟩
  | false =>
    refine ⟨rfl, rfl, rfl, Nat.le_succ _, fun heq => ?_⟩
    exact absurd heq (Nat.succ_ne_self _)

structure Server.Consistent (a : Server V) : Prop where
  row : a.config.row = a.stored.row
  secrets : a.config.secrets = a.stored.secrets
  storages : a.config.storages = a.stored.storages
  routes : a.routes = a.stored.routes

structure Snapshot (before : Server V) (snapshot : RollbackSnapshot V) (a : Server V) : Prop where
  config : snapshot.config = before.config
  routes : snapshot.routes = before.routes
  ssl : snapshot.ssl = before.stored.ssl
  backup : snapshot.backup = before.stored.backup
  runtimeCredentials : a.readFailures = 0 →
    snapshot.runtimeCredentials = before.stored.runtimeCredentials

variable {snapshot : RollbackSnapshot V}
theorem foldl_restored (hbefore : before.Consistent) (hsnapshot : Snapshot before snapshot a)
    (hread : a.readFailures = 0) (s : Stored V) :
    [Write.secrets snapshot.config.secrets, .runtimeCredentials snapshot.runtimeCredentials,
      .storages snapshot.config.storages, .ssl snapshot.ssl, .backup snapshot.backup,
      .app snapshot.config.row snapshot.routes].foldl Stored.put s = before.stored := by
  rw [hsnapshot.config, hsnapshot.routes, hsnapshot.ssl, hsnapshot.backup,
    hsnapshot.runtimeCredentials hread, hbefore.secrets, hbefore.storages, hbefore.row,
    hbefore.routes]
  rfl

theorem ends_restore (hbefore : before.Consistent) (hsnapshot : Snapshot before snapshot a)
    (h : Tidy before q a) :
    Ends (Tidy before q) (fun _ b => Tidy before q b ∧ Undone before .rolledBack b)
      (restoreFailedRolloutSnapshot snapshot) a := by
  refine ends_call h rfl ?_
  have htidy : Tidy before q { a with config := snapshot.config } := h
  have hwithin : ∀ w ∈ [Write.secrets snapshot.config.secrets,
      .runtimeCredentials snapshot.runtimeCredentials, .storages snapshot.config.storages,
      .ssl snapshot.ssl, .backup snapshot.backup], Allowed before q a w := by
    have hsecrets : snapshot.config.secrets = before.stored.secrets := by
      rw [hsnapshot.config, hbefore.secrets]
    have hstorages : snapshot.config.storages = before.stored.storages := by
      rw [hsnapshot.config, hbefore.storages]
    simp only [mem_cons, not_mem_nil, or_false, forall_eq_or_imp, forall_eq]
    exact ⟨fun _ => .inl hsecrets, fun hread => .inl (hsnapshot.runtimeCredentials hread),
      fun _ => .inl hstorages, fun _ => .inl hsnapshot.ssl, fun _ => .inl hsnapshot.backup⟩
  refine ends_bind (ends_restoreAll htidy hwithin) fun _ b hb => ?_
  obtain ⟨htidy, hwrote⟩ := hb
  refine ends_call htidy rfl ?_
  have hconfig : b.config = snapshot.config := hwrote.config
  have hread : b.readFailures = a.readFailures := hwrote.readFailures
  have htidy : Tidy before q { b with routes := snapshot.routes } := htidy
  refine (ends_persistAppState htidy fun _ => .inl ?_).mono fun _ c hc => ⟨hc.1, ?_⟩
  · rw [hconfig, hsnapshot.config, hsnapshot.routes, hbefore.row, hbefore.routes]
    exact ⟨rfl, rfl⟩
  · intro hreadc _ _
    have hreadb : b.readFailures = 0 := hc.2.readFailures.symm.trans hreadc
    have hfailures : b.writeFailures ≤ c.writeFailures := hc.2.failures
    have hfailures' : a.writeFailures ≤ b.writeFailures := hwrote.failures
    have hb0 : b.writeFailures = a.writeFailures := by omega
    have hc0 : c.writeFailures = b.writeFailures := by omega
    refine ⟨?_, ?_, ?_⟩
    · have hc := hc.2.stored hc0
      rw [hwrote.stored hb0, hconfig] at hc
      have hrestored := foldl_restored hbefore hsnapshot (hread.symm.trans hreadb) a.stored
      exact hc.trans hrestored
    · exact (hc.2.config.trans hconfig).trans hsnapshot.config
    · exact hc.2.routes.trans hsnapshot.routes

theorem ends_commit {config : AppConfig V} (hbefore : before.Consistent)
    (hsnapshot : Snapshot before snapshot a) (h : Tidy before q a)
    (hconfig : config.row = (q.applied before.stored).row)
    (hw : ∀ w ∈ writes, Allowed before q a w) :
    Ends (Tidy before q) (Undone before) (commit snapshot config q.routes writes) a := by
  refine ends_bind (ends_persistAll h hw) fun ok b hb => ?_
  obtain ⟨htidy, _, _, hread, hfailed⟩ := hb
  cases ok with
  | false => exact ends_ret htidy fun _ hwrite _ => absurd hwrite (hfailed rfl)
  | true =>
    refine ends_call htidy rfl ?_
    refine ends_call htidy rfl ?_
    have htidy : Tidy before q { b with config := config, routes := q.routes } := htidy
    refine ends_fails htidy fun failed => ?_
    cases failed with
    | true =>
      have hsnapshot : Snapshot before snapshot { b with config := config, routes := q.routes } :=
        { hsnapshot with
          runtimeCredentials := fun hb => hsnapshot.runtimeCredentials (hread.symm.trans hb) }
      exact ends_bind (ends_restore hbefore hsnapshot htidy) fun _ c hc => ends_ret hc.1 hc.2
    | false =>
      refine ends_bind (ends_persistAppState htidy fun _ => .inr ⟨hconfig, rfl⟩) fun _ c hc => ?_
      exact ends_ret hc.1 fun _ _ => absurd rfl

theorem ends_deployApp (default : V) (hbefore : before.Consistent) :
    Ends (Tidy before q) (Undone before) (deployApp default q) before := by
  have hself : Unchanged before before := ⟨rfl, rfl, rfl⟩
  refine ends_unlessFails hself ?_
  refine ends_orRefuse (ends_given hself) fun secrets a ha hsecrets => ?_
  refine ends_orRefuse (ends_given ha) fun runtimeCredentials a ha hcredentials => ?_
  refine ends_orRefuse (ends_given ha) fun storages a ha hstorages => ?_
  refine ends_unlessFails ha ?_
  refine ends_orRefuse ((ends_read ha).mono fun r b hr => ⟨hr.1, hr.2.1⟩)
    fun previousSsl a ha hssl => ?_
  refine ends_orRefuse ((ends_read ha).mono fun r b hr => ⟨hr.1, hr.2.1⟩)
    fun previousBackup a ha hbackup => ?_
  refine ends_call ha.tidy rfl ?_
  refine ends_call ha.tidy rfl ?_
  refine ends_bind (ends_bind (ends_read ha) fun r b hr => ?_ :
    Ends _ (fun credentials b => Unchanged before b ∧
      (b.readFailures = 0 → credentials = before.stored.runtimeCredentials)) _ a)
    fun credentials b hb => ?_
  · refine ends_ret hr.1.tidy ⟨hr.1, fun hread => ?_⟩
    cases r with
    | none => exact absurd hread (hr.2.2.1 rfl)
    | some v => exact hr.2.1 v rfl
  · obtain ⟨hb, hsnapshotCredentials⟩ := hb
    refine ends_unlessFails hb (ends_commit hbefore ?_ hb.tidy ?_ ?_)
    · exact ⟨ha.config, ha.routes, hssl, hbackup, hsnapshotCredentials⟩
    · rw [ha.config, hbefore.row]
      rfl
    · simp only [mem_cons, not_mem_nil, or_false, forall_eq_or_imp, forall_eq]
      refine ⟨fun _ => .inr hsecrets, fun _ => .inr hcredentials, fun _ => .inr hstorages,
        fun _ => .inr rfl, fun _ => .inr ?_⟩
      rw [hbackup]
      rfl
end

def deploying (default : V) (q : DeployRequest V) (before : Server V) (inputs : List ℕ) :
    Course (Call V) Call.Reply (Server V) Response :=
  (⟨deployApp default q, before, []⟩ : Course _ _ _ _).after Call.perform nobody
    (inputs.map .own)

/-- The deployment changes one of the separately written parts at most. -/
def ChangesOnePart (q : DeployRequest V) (s : Stored V) : Prop :=
  ∃ part, ∀ part', part' ≠ part → Same part' s (q.applied s)

/-- A deployment that changes one part at most is stored as a whole or not at all, at
every point; and any one that fails while the store works leaves nothing behind. -/
theorem deployment_all_or_nothing (default : V) (q : DeployRequest V) (before : Server V)
    (hbefore : before.Consistent) (inputs : List ℕ)
    (hread : (deploying default q before inputs).state.readFailures = 0) :
    (ChangesOnePart q before.stored →
        (deploying default q before inputs).state.stored = before.stored ∨
          (deploying default q before inputs).state.stored = q.applied before.stored) ∧
      ∀ response, (deploying default q before inputs).rest = .ret response →
        response ≠ .deployed → (deploying default q before inputs).state.writeFailures = 0 →
        Unchanged before (deploying default q before inputs).state := by
  have hends := ends_deployApp (q := q) default hbefore []
  have hmeets : Course.Meets Call.perform nobody (fun _ _ _ => True)
      (⟨deployApp default q, before, []⟩ : Course (Call V) Call.Reply (Server V) Response)
      (inputs.map .own) := meets_true _ _
  have hafter := ensures_after (c := ⟨deployApp default q, before, []⟩) hends hmeets
  refine ⟨(hafter.invariant hread).all_or_nothing, fun response hret hfailed hwrite => ?_⟩
  have hundone := ensures_after_ret (c := ⟨deployApp default q, before, []⟩) hends hmeets hret
  exact hundone hread hwrite hfailed

def deployed : Server ℕ where
  stored := ⟨⟨"v1", 1, 4, .auto⟩, ["shop.example"], 1, 1, 1, none, none⟩
  config := ⟨⟨"v1", 1, 4, .auto⟩, 1, 1, 1⟩
  routes := ["shop.example"]

def release : DeployRequest ℕ :=
  { version := "v2", sourceIp := .auto, routes := ["shop.example"], release := 2 }

theorem changesOnePart_release : ChangesOnePart release deployed.stored := by
  refine ⟨.app, fun part' hne => ?_⟩
  cases part' with
  | app => exact absurd rfl hne
  | _ => rfl

theorem deployment_all_or_nothing_release :
    (deploying 0 release deployed (List.replicate 34 0)).rest = .ret .deployed ∧
      ((deploying 0 release deployed (List.replicate 34 0)).state.stored = deployed.stored ∨
        (deploying 0 release deployed (List.replicate 34 0)).state.stored =
          release.applied deployed.stored) :=
  ⟨rfl, (deployment_all_or_nothing 0 release deployed ⟨rfl, rfl, rfl, rfl⟩ _ rfl).1
    changesOnePart_release⟩

def rotation : DeployRequest ℕ :=
  { release with secrets := some 2, runtimeCredentials := some 2 }

/-- After the first write the server stops, or the second one fails: the new secrets are
stored with the old credentials and the old version. -/
theorem half_stored_deployment :
    (deploying 0 rotation deployed (List.replicate 15 0)).state.stored =
        { deployed.stored with secrets := 2 } ∧
      (deploying 0 rotation deployed (List.replicate 15 0 ++ [1, 0])).rest = .ret .notStored ∧
      (deploying 0 rotation deployed (List.replicate 15 0 ++ [1, 0])).state.stored =
        { deployed.stored with secrets := 2 } ∧
      { deployed.stored with secrets := 2 } ≠ deployed.stored ∧
      { deployed.stored with secrets := 2 } ≠ rotation.applied deployed.stored := by
  refine ⟨by decide +kernel, rfl, by decide +kernel, by decide +kernel, by decide +kernel⟩

end Tako.Deploy
