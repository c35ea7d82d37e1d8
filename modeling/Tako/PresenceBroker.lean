import Tako.Executions
import Tako.PresenceLeases

/-! The presence operations of a broker. It runs one command at a time; what the
clocks, the stores and the connections do in an operation is an input of it. -/
namespace Tako.Presence
open Relational
open Tako.Network (DeviceId AppEnv)
open Tako.Workflow (saturatingAdd)
variable {J : PresenceJson}
structure Application (J : PresenceJson) where
  app : AppEnv
  postgresUrl : Option String
  presence : Leases J
  presenceQueried : List DeviceId

def Application.clearRemote (a : Application J) (here : DeviceId) : Application J :=
  { a with
    presence := a.presence.clearRemote here
    presenceQueried := [] }

structure Broker (J : PresenceJson) where
  here : DeviceId
  apps : Table (Application.app (J := J))
  peers : List DeviceId

inductive Frame (J : PresenceJson) where
  | presence (app : AppEnv) (publication : Publication J)
  | gap (app : AppEnv)

structure Surroundings (J : PresenceJson) where
  now : ℕ
  nowMs : ℤ
  /-- The store of the application does what it is asked. -/
  stores : Bool
  /-- `invalidate_replay` of an application succeeds. -/
  fences : AppEnv → Bool
  /-- The members that Postgres has of a channel. -/
  rows : Option (List (PresenceMember J))
  encodes : Frame J → Bool
  reaches : DeviceId → Bool

structure Outcome (J : PresenceJson) where
  result : Except IoError Unit
  sent : List (DeviceId × Frame J)
  broker : Broker J

namespace Broker
def new (here : DeviceId) : Broker J := ⟨here, .empty, []⟩

variable (b : Broker J)
def modify (app : AppEnv) (f : Leases J → Leases J) : Broker J :=
  { b with
    apps := b.apps.updateWhere (fun a => a.app = app) (fun a => { a with presence := f a.presence })
      (fun _ => rfl) }

def expirePresence (now : ℕ) : Broker J :=
  { b with
    apps := b.apps.updateWhere (fun _ => True)
      (fun a => { a with presence := a.presence.expire now }) (fun _ => rfl) }

def presenceAllowance (app : AppEnv) : ℤ :=
  let others := b.apps.rows.filter (fun a => a.app ≠ app)
  max (maxTotalBytes - (others.map fun a => a.presence.bytes).sum) 0

variable (env : Surroundings J)
/-- A peer that a frame does not reach is dropped. -/
def fanout (frame : Frame J) : Bool × Outcome J :=
  if env.encodes frame = false then (false, ⟨.ok (), [], b⟩)
  else
    let reached := b.peers.filter env.reaches
    (b.peers.all env.reaches, ⟨.ok (), reached.map (·, frame), { b with peers := reached }⟩)

def fenceApp (app : AppEnv) : Outcome J :=
  match b.apps.get? app with
  | none => ⟨.ok (), [], b⟩
  | some _ =>
    let b := { b with
      apps := b.apps.updateWhere (fun a => a.app = app) (·.clearRemote b.here) (fun _ => rfl) }
    if env.fences app then ⟨.ok (), [], b⟩
    else ⟨.error (error "cannot fence channel replay"), [], b⟩

def fenceApps (env : Surroundings J) : List AppEnv → Broker J → Outcome J
  | [], b => ⟨.ok (), [], b⟩
  | app :: apps, b =>
    let fenced := b.fenceApp env app
    match fenced.result with
    | .error e => ⟨.error e, [], fenced.broker⟩
    | .ok () =>
      let notified := (fenced.broker.fanout env (.gap app)).2
      let rest := fenceApps env apps notified.broker
      { rest with sent := notified.sent ++ rest.sent }

def fence : Outcome J :=
  fenceApps env (b.apps.rows.map Application.app) b

/-- The last step of a local change: everyone hears of it, or the broker fences. -/
def announce (frame : Frame J) : Outcome J :=
  let (complete, told) := b.fanout env frame
  if complete then told
  else
    let fenced := told.broker.fence env
    { fenced with sent := told.sent ++ fenced.sent }

/-- The end of a local change. With Postgres the store is written first, and hears
of it alone; otherwise the change is numbered and announced. -/
def commit (app : AppEnv) (application : Application J) (failure : String) (changed : Leases J)
    (publication : ℕ → Publication J) : Outcome J :=
  if application.postgresUrl.isSome then
    if env.stores then ⟨.ok (), [], b.modify app fun _ => changed⟩
    else ⟨.error (error failure), [], b⟩
  else
    match changed.nextSequence with
    | .error e => ⟨.error e, [], b.modify app fun _ => changed⟩
    | .ok numbered =>
      (b.modify app fun _ => numbered).announce env
        (.presence app (publication numbered.sequence))

def localLease (channel : String) (member : PresenceMember J) (bytes : ℕ) : Lease J where
  origin := b.here
  channel := channel
  member := member
  expires := env.now + leaseMs
  expiresAtMs := saturatingAdd env.nowMs leaseMs
  bytes := bytes

def updatePresence (app : AppEnv) (channel : String) (member : PresenceMember J) : Outcome J :=
  let b := b.modify app (·.expire env.now)
  match localMember b.here channel member with
  | .error e => ⟨.error e, [], b⟩
  | .ok member =>
    match b.apps.get? app with
    | none => ⟨.error (error "unknown presence app"), [], b⟩
    | some application =>
      match application.presence.check b.here channel member (b.presenceAllowance app) with
      | .error e => ⟨.error e, [], b⟩
      | .ok bytes =>
        let lease := b.localLease env channel member bytes
        b.commit env app application "presence database update failed"
          (application.presence.update lease) (.update channel member lease.expiresAtMs)

def maxFrame : ℕ := 1048576

def fitsFrame (members : List (PresenceMember J)) : Except IoError Unit :=
  if maxFrame - 1024 < J.listBytes (members.map fun m => (m.connectionId, m.subject, m.data)) then
    .error (error "presence snapshot exceeds frame limit")
  else .ok ()

def unasked (application : Application J) : List DeviceId :=
  b.peers.filter fun peer => peer ∉ application.presenceQueried && env.reaches peer

/-- The members of Postgres whose origin, the part of their id before the colon, is this
server or a peer of it. -/
def liveRows (rows : List (PresenceMember J)) : List (PresenceMember J) :=
  (rows.filter fun member => (b.here :: b.peers).any fun origin =>
    (validateOwnedId origin member.connectionId).toBool).map (projectMember b.here)

def presence (app : AppEnv) (channel : String) : Outcome J :=
  match validateChannel channel with
  | .error e => ⟨.error e, [], b⟩
  | .ok () =>
    let b := b.modify app (·.expire env.now)
    match b.apps.get? app with
    | none => ⟨.error (error "unknown presence app"), [], b⟩
    | some application =>
      if application.postgresUrl.isSome then
        match env.rows with
        | none => ⟨.error (error "presence database read failed"), [], b⟩
        | some rows => ⟨fitsFrame (b.liveRows rows), [], b⟩
      else
        let asked := b.unasked env application
        let b := { b with
          apps := b.apps.updateWhere (fun a => a.app = app)
            (fun a => { a with presenceQueried := a.presenceQueried ++ asked }) (fun _ => rfl) }
        ⟨fitsFrame (application.presence.snapshot channel b.here),
          asked.map (·, .presence app .sync), b⟩

def removePresence (app : AppEnv) (channel connectionId : String) : Outcome J :=
  match validateChannel channel, localId b.here connectionId with
  | .error e, _ => ⟨.error e, [], b⟩
  | .ok (), .error e => ⟨.error e, [], b⟩
  | .ok (), .ok connectionId =>
    match b.apps.get? app with
    | none => ⟨.error (error "unknown presence app"), [], b⟩
    | some application =>
      b.commit env app application "presence database cleanup failed"
        (application.presence.leave b.here channel connectionId) (.leave channel connectionId)

/-- `Update` and `Leave` of a peer, once their number is fresh. -/
def applyRemote (L : Leases J) (env : Surroundings J) (peer : DeviceId) (allowance : ℤ) :
    Publication J → Except IoError (Leases J)
  | .update channel member expiresAtMs sequence => do
    let bytes ← L.check peer channel member allowance
    match remaining expiresAtMs env.nowMs with
    | some ttl =>
      .ok ((L.update
        { origin := peer
          channel := channel
          member := member
          expires := env.now + ttl
          expiresAtMs := expiresAtMs
          bytes := bytes }).setReceived peer sequence)
    | none => .ok ((L.leave peer channel member.connectionId).setReceived peer sequence)
  | .leave channel connectionId sequence => do
    validateChannel channel
    validateOwnedId peer connectionId
    .ok ((L.leave peer channel connectionId).setReceived peer sequence)
  | .sync => .ok L
  | .snapshot _ _ => .ok L

def remotePresence (peer : DeviceId) (app : AppEnv) (publication : Publication J) : Outcome J :=
  let b := b.modify app (·.expire env.now)
  let allowance := b.presenceAllowance app
  match b.apps.get? app with
  | none => ⟨.ok (), [], b⟩
  | some application =>
    if application.postgresUrl.isSome then ⟨.ok (), [], b⟩
    else
      match publication with
      | .sync =>
        let snapshot := Frame.presence app (application.presence.localSnapshot b.here)
        if peer ∉ b.peers then ⟨.ok (), [], b⟩
        else if env.encodes snapshot = false then
          ⟨.error (error "channel frame exceeds limit"), [], b⟩
        else if env.reaches peer = false then ⟨.error (error "channel queue unavailable"), [], b⟩
        else ⟨.ok (), [(peer, snapshot)], b⟩
      | .snapshot sequence leases =>
        match application.presence.replaceRemote peer sequence leases env.now env.nowMs
            allowance with
        | .error e => ⟨.error e, [], b⟩
        | .ok replaced => ⟨.ok (), [], b.modify app fun _ => replaced⟩
      | publication =>
        if application.presence.fresh peer publication.sequence = false then ⟨.ok (), [], b⟩
        else
          match applyRemote application.presence env peer allowance publication with
          | .error e => ⟨.error e, [], b⟩
          | .ok applied => ⟨.ok (), [], b.modify app fun _ => applied⟩

def maxApps : ℕ := 128

/-- `register`, of which presence only sees that a new application has no leases
and that a switched backend loses the remote ones. -/
def register (app : AppEnv) (postgresUrl : Option String) : Outcome J :=
  let long := postgresUrl.any (fun url => 16384 < url.utf8ByteSize)
  match b.apps.get? app with
  | some existing =>
    if existing.postgresUrl = postgresUrl then ⟨.ok (), [], b⟩
    else if long then ⟨.error (error "channel URL exceeds limit"), [], b⟩
    else if env.stores = false then ⟨.error (error "cannot open channel storage"), [], b⟩
    else
      ⟨.ok (), [], { b with
        apps := b.apps.updateWhere (fun a => a.app = app)
          (fun a => { a.clearRemote b.here with postgresUrl := postgresUrl }) (fun _ => rfl) }⟩
  | none =>
    if maxApps ≤ b.apps.rows.length then ⟨.error (error "channel app limit reached"), [], b⟩
    else if long then ⟨.error (error "channel URL exceeds limit"), [], b⟩
    else if env.stores = false then ⟨.error (error "cannot open channel storage"), [], b⟩
    else ⟨.ok (), [], { b with apps := b.apps.insertIgnore ⟨app, postgresUrl, .empty, []⟩ }⟩

inductive Operation (J : PresenceJson) where
  | register (app : AppEnv) (postgresUrl : Option String)
  | attach (peer : DeviceId)
  | detach (peer : DeviceId)
  | update (app : AppEnv) (channel : String) (member : PresenceMember J)
  | remove (app : AppEnv) (channel connectionId : String)
  | presence (app : AppEnv) (channel : String)
  | remote (peer : DeviceId) (app : AppEnv) (publication : Publication J)
  | expire
  | fence
  | fenceApp (app : AppEnv)

def exec (step : Operation J × Surroundings J) (b : Broker J) : Outcome J :=
  match step.1 with
  | .register app postgresUrl => b.register step.2 app postgresUrl
  | .attach peer =>
    ⟨.ok (), [], if peer ∈ b.peers then b else { b with peers := b.peers ++ [peer] }⟩
  | .detach peer => ⟨.ok (), [], { b with peers := b.peers.filter (· ≠ peer) }⟩
  | .update app channel member => b.updatePresence step.2 app channel member
  | .remove app channel connectionId => b.removePresence step.2 app channel connectionId
  | .presence app channel => b.presence step.2 app channel
  | .remote peer app publication => b.remotePresence step.2 peer app publication
  | .expire => ⟨.ok (), [], b.expirePresence step.2.now⟩
  | .fence => b.fence step.2
  | .fenceApp app => b.fenceApp step.2 app

def after (here : DeviceId) (steps : List (Operation J × Surroundings J)) : Broker J :=
  Execution.after (fun step b => (exec step b, (exec step b).broker)) (new here) steps
end Broker
end Tako.Presence
