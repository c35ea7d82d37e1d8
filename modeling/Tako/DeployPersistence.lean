import Tako.ScriptRules

/-! What a deployment of an existing native app writes to the state store, and how a failed
rollout takes it back. -/
namespace Tako.Deploy
open Tasks
inductive SourceIpMode where
  | auto
  | direct
  | cloudflareProxy
  | trustedProxy
  deriving DecidableEq

/-- The row of an app, which is written together with its routes. -/
structure AppRow where
  version : String
  minInstances : ℕ
  maxInstances : ℕ
  sourceIp : SourceIpMode
  deriving DecidableEq

variable {V : Type}
structure Stored (V : Type) where
  row : AppRow
  routes : List String
  secrets : V
  runtimeCredentials : V
  storages : V
  ssl : Option V
  backup : Option V
  deriving DecidableEq

/-- The configuration in memory. What the release says about how to run the app is
not stored: it is read again from the release. -/
structure AppConfig (V : Type) where
  row : AppRow
  secrets : V
  storages : V
  release : V
  deriving DecidableEq

structure Server (V : Type) where
  stored : Stored V
  config : AppConfig V
  -- the route table
  routes : List String
  -- the reads and the writes of the store that have failed
  readFailures : ℕ := 0
  writeFailures : ℕ := 0
  deriving DecidableEq

inductive Write (V : Type) where
  | secrets (v : V)
  | runtimeCredentials (v : V)
  | storages (v : V)
  | ssl (v : Option V)
  | backup (v : Option V)
  | app (row : AppRow) (routes : List String)

def Stored.put (s : Stored V) : Write V → Stored V
  | .secrets v => { s with secrets := v }
  | .runtimeCredentials v => { s with runtimeCredentials := v }
  | .storages v => { s with storages := v }
  | .ssl v => { s with ssl := v }
  | .backup v => { s with backup := v }
  | .app row routes => { s with row := row, routes := routes }

inductive Call (V : Type) where
  | read
  | write (w : Write V)
  | readFails
  | writeFails
  | config
  | updateConfig (config : AppConfig V)
  | routes
  | setRoutes (routes : List String)

@[reducible] def Call.Reply : Call V → Type
  | .read => Stored V
  | .config => AppConfig V
  | .routes => List String
  | _ => Unit

def Call.perform : (p : Call V) → Server V → Option (p.Reply × Server V)
  | .read, s => some (s.stored, s)
  | .write w, s => some ((), { s with stored := s.stored.put w })
  | .readFails, s => some ((), { s with readFailures := s.readFailures + 1 })
  | .writeFails, s => some ((), { s with writeFailures := s.writeFailures + 1 })
  | .config, s => some (s.config, s)
  | .updateConfig c, s => some ((), { s with config := c })
  | .routes, s => some (s.routes, s)
  | .setRoutes rs, s => some ((), { s with routes := rs })

abbrev Operation (V α : Type) := Script (Call V) Call.Reply α

/-- What a deployment asks for. A part that is not given is kept; `release` is what
the release directory says. The TLS binding is stored only with a token. -/
structure DeployRequest (V : Type) where
  version : String
  sourceIp : SourceIpMode
  routes : List String
  secrets : Option V := none
  runtimeCredentials : Option V := none
  storages : Option V := none
  ssl : Option V := none
  -- `none` is `BackupUpdate::Preserve`
  backup : Option (Option V) := none
  release : V

def DeployRequest.applied (q : DeployRequest V) (s : Stored V) : Stored V where
  row := { s.row with version := q.version, sourceIp := q.sourceIp }
  routes := q.routes
  secrets := q.secrets.getD s.secrets
  runtimeCredentials := q.runtimeCredentials.getD s.runtimeCredentials
  storages := q.storages.getD s.storages
  ssl := q.ssl
  backup := q.backup.getD s.backup

inductive Response where
  -- a check before the first write, or a read, failed
  | refused
  -- a write failed: "Failed to store …"
  | notStored
  -- "Deploy failed; rolled back to previous release: …"
  | rolledBack
  | deployed
  deriving DecidableEq

namespace Operation
def invoke (p : Call V) : Operation V p.Reply := Script.invoke p

def fails : Operation V Bool := do
  return (← Script.pick) ≠ 0

def read {β : Type} (get : Stored V → β) : Operation V (Option β) := do
  if ← fails then
    invoke .readFails
    return none
  else return some (get (← invoke .read))

def given {β : Type} (part : Option β) (get : Stored V → β) : Operation V (Option β) :=
  match part with
  | some v => pure (some v)
  | none => read get

def persist (w : Write V) : Operation V Bool := do
  if ← fails then
    invoke .writeFails
    return false
  else
    invoke (.write w)
    return true

/-- `persist_credentials`, `persist_ssl_binding` and `persist_backup_binding`, up to
the first write that fails. -/
def persistAll : List (Write V) → Operation V Bool
  | [] => return true
  | w :: rest => do
    if ← persist w then persistAll rest else return false

def restoreAll : List (Write V) → Operation V Unit
  | [] => return ()
  | w :: rest => do
    let _ ← persist w
    restoreAll rest

def persistAppState : Operation V Unit := do
  let config ← invoke .config
  let routes ← invoke .routes
  let _ ← persist (.app config.row routes)

structure RollbackSnapshot (V : Type) where
  config : AppConfig V
  routes : List String
  ssl : Option V
  backup : Option V
  runtimeCredentials : V

variable (snapshot : RollbackSnapshot V)
/-- `restore_failed_rollout_snapshot` of an app without a Compose project. -/
def restoreFailedRolloutSnapshot : Operation V Unit := do
  invoke (.updateConfig snapshot.config)
  restoreAll [.secrets snapshot.config.secrets, .runtimeCredentials snapshot.runtimeCredentials,
    .storages snapshot.config.storages, .ssl snapshot.ssl, .backup snapshot.backup]
  invoke (.setRoutes snapshot.routes)
  persistAppState

/-- The rollout: a start of the first instance or of all, or a rolling update. None of
them writes to the store. -/
def rollout : Operation V Response := do
  if ← fails then
    restoreFailedRolloutSnapshot snapshot
    return .rolledBack
  else
    persistAppState
    return .deployed

def commit (config : AppConfig V) (routes : List String) (writes : List (Write V)) :
    Operation V Response := do
  if ← persistAll writes then
    invoke (.updateConfig config)
    invoke (.setRoutes routes)
    rollout snapshot
  else return .notStored

/-- The credentials of the snapshot; a read that fails counts as none. -/
def snapshotCredentials (default : V) : Operation V V := do
  return (← read Stored.runtimeCredentials).getD default

def orRefuse {β : Type} (x : Operation V (Option β)) (f : β → Operation V Response) :
    Operation V Response := do
  match ← x with
  | none => return .refused
  | some v => f v

def unlessFails (x : Operation V Response) : Operation V Response := do
  if ← fails then return .refused else x

/-- `deploy_app` of an existing native app, to a native release. -/
def deployApp (default : V) (q : DeployRequest V) : Operation V Response :=
  -- names, routes, paths, the TLS binding, the deploy lock, the release directory
  unlessFails <|
  orRefuse (given q.secrets Stored.secrets) fun secrets =>
  orRefuse (given q.runtimeCredentials Stored.runtimeCredentials) fun runtimeCredentials =>
  orRefuse (given q.storages Stored.storages) fun storages =>
  -- the runtime of the release
  unlessFails <|
  orRefuse (read Stored.ssl) fun previousSsl =>
  orRefuse (read Stored.backup) fun previousBackup => do
    let previous ← invoke .config
    let previousRoutes ← invoke .routes
    let credentials ← snapshotCredentials default
    -- the configuration of the release, the instance limit
    unlessFails <|
      commit ⟨previous, previousRoutes, previousSsl, previousBackup, credentials⟩
        { row := { previous.row with version := q.version, sourceIp := q.sourceIp }
          secrets := secrets
          storages := storages
          release := q.release }
        q.routes
        [.secrets secrets, .runtimeCredentials runtimeCredentials, .storages storages,
          .ssl q.ssl, .backup (q.backup.getD previousBackup)]
end Operation
end Tako.Deploy
