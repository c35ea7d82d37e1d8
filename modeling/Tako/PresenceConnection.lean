import Tako.PresenceEffects
import Tako.SequencedReplica

/-! The connection on which one server tells another of the members it has. What
the two brokers do is `Broker.exec`; the connection carries the frames in between. -/
namespace Tako.Presence
open Relational Replication
open Tako.Network (DeviceId AppEnv)
variable {J : PresenceJson}
/-- The ends of a connection and the application it is about. -/
structure Ends where
  origin : DeviceId
  peer : DeviceId
  app : AppEnv
  distinct : origin ≠ peer

abbrev MemberKey := String × String

abbrev Entry (J : PresenceJson) := PresenceMember J × ℤ

def Lease.entry (l : Lease J) : Entry J := (l.member, l.expiresAtMs)

/-- The time, with what both servers have read so far: the monotonic clock and next
to it `now_ms`, which may be set to anything in between. -/
structure Times where
  now : ℕ
  read : List (ℕ × ℤ)

instance : LE Times := ⟨fun t t' => t.now ≤ t'.now ∧ t.read ⊆ t'.read⟩

def Times.reading (t : Times) (env : Surroundings J) : Times :=
  ⟨env.now, (env.now, env.nowMs) :: t.read⟩

/-- A clock that was read has come to the end of the entry, had it only gone on. -/
def Times.expired (t : Times) (entry : Entry J) : Prop :=
  ∃ r ∈ t.read, entry.2 + r.1 ≤ r.2 + t.now

/-- It ends no later than a lease of now by a clock that was read. -/
def Times.Within (t : Times) (expiresAtMs : ℤ) : Prop :=
  ∃ r ∈ t.read, r.1 ≤ t.now ∧ expiresAtMs ≤ r.2 + leaseMs

variable (e : Ends)
def Leases.part (L : Leases J) (origin : DeviceId) (k : MemberKey) : Option (Entry J) :=
  (L.members.get? ⟨origin, k.1, k.2⟩).map Lease.entry

def Leases.replica (L : Leases J) (origin : DeviceId) : Replica MemberKey (Entry J) where
  table := L.part origin
  received := L.received origin
  snapshots := L.snapshots origin

def SnapshotLease.key (r : SnapshotLease J) : MemberKey := (r.channel, r.member.connectionId)

def recorded (records : List (SnapshotLease J)) (k : MemberKey) : Option (Entry J) :=
  (records.find? (fun r => r.key = k)).map fun r => (r.member, r.expiresAtMs)

def Publication.change? : Publication J → Option (Change MemberKey (Entry J))
  | .sync => none
  | .snapshot _ _ => none
  | .update channel member expiresAtMs _ =>
    some ((channel, member.connectionId), some (member, expiresAtMs))
  | .leave channel connectionId _ => some ((channel, connectionId), none)

def Publication.numbered? (p : Publication J) : Option (Change MemberKey (Entry J) × ℕ) :=
  p.change?.map (·, p.sequence)

def Publication.frame? : Publication J → Option (Replication.Frame MemberKey (Entry J))
  | .sync => none
  | .snapshot sequence leases => some (.snapshot (recorded leases) sequence)
  | .update channel member expiresAtMs sequence =>
    some (.change ((channel, member.connectionId), some (member, expiresAtMs)) sequence)
  | .leave channel connectionId sequence => some (.change ((channel, connectionId), none) sequence)

def Publication.seen (seen : List (Publication J)) : Publication J → List (Publication J)
  | .snapshot sequence leases => seen ++ [.snapshot sequence leases]
  | .sync => seen
  | .update _ _ _ _ => seen
  | .leave _ _ _ => seen

def Ends.carried (sent : List (DeviceId × Frame J)) : List (Publication J) :=
  sent.filterMap fun s =>
    match s.2 with
    | .presence app publication => if s.1 = e.peer ∧ app = e.app then some publication else none
    | .gap _ => none

/-- `base` is what the source had when the connection was made, and `log` what it
has sent since; `seen` are the snapshots that arrived since the peer was fenced.
A connection is intact as long as nothing was lost on it. -/
structure Connection (J : PresenceJson) where
  source : Broker J
  replica : Broker J
  base : Leases J
  queue : List (Publication J)
  log : List (Publication J)
  seen : List (Publication J)
  intact : Bool
  times : Times

def Connection.start : Connection J where
  source := .new e.origin
  replica := .new e.peer
  base := .empty
  queue := []
  log := []
  seen := []
  intact := false
  times := ⟨0, []⟩

/-- An operation of the source that sends what it has to say of its members. -/
structure Lossless (e : Ends) (b : Broker J) (operation : Broker.Operation J)
    (env : Surroundings J) : Prop where
  attached : e.peer ∈ b.peers
  reaches : env.reaches e.peer = true
  encodes : ∀ publication : Publication J, publication.change?.isSome = true →
    env.encodes (.presence e.app publication) = true
  stays : operation ≠ .detach e.peer
  backend : ∀ url, operation ≠ .register e.app url
  numbers : (Broker.exec (operation, env) b).result ≠ .error (error "presence sequence exhausted")

def capacityRejections : List IoError :=
  [error "presence lease capacity exceeded", error "presence snapshot exceeds member limit"]

def Connection.receive (c : Connection J) (e : Ends) (env : Surroundings J)
    (publication : Publication J) : Outcome J :=
  c.replica.remotePresence env e.origin e.app publication

/-- The snapshots that still count: none of those from before the peer was fenced. -/
def Ends.current (replica : Broker J) (seen : List (Publication J)) : List (Publication J) :=
  if ((replica.leasesOf e.app).snapshots e.origin).isNone then [] else seen

namespace Connection
section
variable (c : Connection J) (e : Ends) (operation : Broker.Operation J) (env : Surroundings J)
/-- The source performs an operation, and what it sends is on its way. -/
def tell : Connection J :=
  let outcome := Broker.exec (operation, env) c.source
  { c with
    source := outcome.broker
    queue := c.queue ++ e.carried outcome.sent
    log := c.log ++ e.carried outcome.sent
    times := c.times.reading env }

def attend : Connection J :=
  let replica := (Broker.exec (operation, env) c.replica).broker
  { c with replica, seen := e.current replica c.seen, times := c.times.reading env }

def hear (publication : Publication J) : Connection J :=
  { c with replica := (c.receive e env publication).broker, times := c.times.reading env }

/-- Both ends start over, the peer without what it had from the source. -/
def connect : Connection J where
  source := c.source
  replica := (c.replica.fenceApp env e.app).broker
  base := c.source.leasesOf e.app
  queue := []
  log := []
  seen := []
  intact := true
  times := c.times.reading env
end

/-- A frame that tells of a gap fences the peer, which it may also do at any other
time: both are operations of the replica. -/
inductive Step (e : Ends) (c : Connection J) : Connection J → Prop
  | source (operation : Broker.Operation J) (env : Surroundings J) (intact : Bool)
      (hnow : c.times.now ≤ env.now) (hepoch : 0 ≤ env.nowMs)
      (hself : ∀ app publication, operation ≠ .remote e.origin app publication)
      (hintact : intact = true → c.intact = true ∧ Lossless e c.source operation env) :
      Step e c { c.tell e operation env with intact }
  | replica (operation : Broker.Operation J) (env : Surroundings J) (intact : Bool)
      (hnow : c.times.now ≤ env.now)
      (hqueue : ∀ publication, operation ≠ .remote e.origin e.app publication)
      (hintact : intact = true → c.intact = true ∧ ∀ url, operation ≠ .register e.app url) :
      Step e c { c.attend e operation env with intact }
  | deliver (publication : Publication J) (rest : List (Publication J)) (env : Surroundings J)
      (intact : Bool) (hqueue : c.queue = publication :: rest) (hnow : c.times.now ≤ env.now)
      (hintact : intact = true → c.intact = true ∧
        ∀ error ∈ capacityRejections, (c.receive e env publication).result ≠ .error error) :
      Step e c { c.hear e env publication with
        queue := rest, seen := publication.seen c.seen, intact }
  | duplicate (publication : Publication J) (env : Surroundings J) (intact : Bool)
      (hseen : publication ∈ c.seen) (hnow : c.times.now ≤ env.now)
      (hintact : intact = true → c.intact = true ∧
        ∀ error ∈ capacityRejections, (c.receive e env publication).result ≠ .error error) :
      Step e c { c.hear e env publication with intact }
  | connect (env : Surroundings J) (hnow : c.times.now ≤ env.now)
      (hsource : c.source.backend e.app = some none)
      (hreplica : c.replica.backend e.app = some none) : Step e c (c.connect e env)

def Reachable (e : Ends) (c : Connection J) : Prop := Relation.ReflTransGen (Step e) (start e) c

def link (c : Connection J) (e : Ends) : Link MemberKey (Entry J) Times where
  start := c.base.part e.origin
  first := c.base.sequence
  log := c.log.filterMap Publication.change?
  source := (c.source.leasesOf e.app).part e.origin
  queue := c.queue.filterMap Publication.frame?
  replica := (c.replica.leasesOf e.app).replica e.origin
  seen := c.seen.map Publication.sequence
  now := c.times
end Connection
end Tako.Presence
