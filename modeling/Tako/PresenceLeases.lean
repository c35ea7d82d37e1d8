import Tako.NetworkKeys
import Tako.RelationalTally
import Tako.WorkflowRows

/-! Ephemeral presence leases of one application, keyed by the authenticated
server that the connection is on. -/
namespace Tako.Presence
open Relational
open Tako.Network (DeviceId AppEnv)
open Tako.Workflow (i64Max i64Min saturatingAdd)
structure IoError where
  message : String
deriving DecidableEq

def error (message : String) : IoError := ⟨message⟩

def leaseMs : ℕ := 45000

def maxTotalBytes : ℤ := 8388608

def maxAppBytes : ℤ := 524288

def maxAppMembers : ℤ := 256

def saturatingSub (a b : ℤ) : ℤ := max i64Min (min i64Max (a - b))

/-- How long `serde_json` makes the metadata of a member, a member and a list of
members. -/
structure PresenceJson where
  Value : Type
  dataBytes : Value → ℕ
  memberBytes : String → Option String → Value → ℕ
  listBytes : List (String × Option String × Value) → ℕ

variable {J : PresenceJson}
structure PresenceMember (J : PresenceJson) where
  connectionId : String
  subject : Option String
  data : J.Value

structure SnapshotLease (J : PresenceJson) where
  channel : String
  member : PresenceMember J
  expiresAtMs : ℤ

inductive Publication (J : PresenceJson) where
  | sync
  | snapshot (sequence : ℕ) (leases : List (SnapshotLease J))
  | update (channel : String) (member : PresenceMember J) (expiresAtMs : ℤ) (sequence : ℕ)
  | leave (channel : String) (connectionId : String) (sequence : ℕ)

def Publication.sequence : Publication J → ℕ
  | .sync => 0
  | .snapshot sequence _ => sequence
  | .update _ _ _ sequence => sequence
  | .leave _ _ sequence => sequence

structure Key where
  origin : DeviceId
  channel : String
  connectionId : String
deriving DecidableEq

/-- A lease, together with the parts of its key. Times of the monotonic clock are
in milliseconds. -/
structure Lease (J : PresenceJson) where
  origin : DeviceId
  channel : String
  member : PresenceMember J
  expires : ℕ
  expiresAtMs : ℤ
  bytes : ℕ

def Lease.key (l : Lease J) : Key := ⟨l.origin, l.channel, l.member.connectionId⟩

def Lease.weight (l : Lease J) : ℤ := l.bytes

section
def hexDigit (n : ℕ) : Char := if n < 10 then Char.ofNat (48 + n) else Char.ofNat (87 + n)

def display (id : DeviceId) : List Char :=
  id.bytes.toList.flatMap fun b => [hexDigit (b.toNat / 16), hexDigit (b.toNat % 16)]

def lowerHex (c : Char) : Bool := ('0' ≤ c && c ≤ '9') || ('a' ≤ c && c ≤ 'f')

variable (origin : DeviceId) (id : String)
/-- `strip_prefix` with `"<origin>:"`. -/
def stripOrigin : Option String :=
  let owner := display origin ++ [':']
  if owner <+: id.toList then some (String.ofList (id.toList.drop owner.length)) else none

def qualified : String :=
  String.ofList (display origin ++ [':'] ++ id.toList)

variable (channel : String)
def validateChannel : Except IoError Unit :=
  if channel = "" ∨ 1024 < channel.utf8ByteSize then .error (error "invalid presence scope")
  else .ok ()

/-- A text all of whose bytes are hex digits has as many characters as bytes. -/
def validateLocalId : Except IoError Unit :=
  if id.length ≠ 32 ∨ id.toList.all lowerHex = false then
    .error (error "invalid presence connection identity")
  else .ok ()

def validateOwnedId : Except IoError Unit :=
  match stripOrigin origin id with
  | none => .error (error "foreign presence connection identity")
  | some raw => validateLocalId raw

def validateMember (member : PresenceMember J) : Except IoError Unit := do
  validateChannel channel
  if member.subject.any (fun subject => 1024 < subject.utf8ByteSize) ∨
      16384 < J.dataBytes member.data then
    .error (error "presence metadata exceeds limit")
  else .ok ()

variable (here : DeviceId)
def localMember (channel : String) (member : PresenceMember J) :
    Except IoError (PresenceMember J) := do
  validateMember channel member
  validateLocalId member.connectionId
  .ok { member with connectionId := qualified here member.connectionId }

def localId (connectionId : String) : Except IoError String := do
  validateLocalId connectionId
  .ok (qualified here connectionId)

/-- A local connection is shown under the id that it knows, a foreign one under
its qualified id. -/
def projectMember (member : PresenceMember J) : PresenceMember J :=
  { member with connectionId := (stripOrigin here member.connectionId).getD member.connectionId }
end

def remaining (expiresAtMs nowMs : ℤ) : Option ℕ :=
  let remaining := saturatingSub expiresAtMs nowMs
  if 0 < remaining then some (min remaining leaseMs).toNat else none

def leaseBytes (channel : String) (member : PresenceMember J) : ℕ :=
  J.memberBytes member.connectionId member.subject member.data + channel.utf8ByteSize

/-- `bytes` is a `usize`; here it would go below zero rather than underflow. -/
structure Leases (J : PresenceJson) where
  members : Table (Lease.key (J := J))
  received : DeviceId → Option ℕ
  snapshots : DeviceId → Option ℕ
  sequence : ℕ
  bytes : ℤ

namespace Leases
def empty : Leases J := ⟨.empty, fun _ => none, fun _ => none, 0, 0⟩

variable (L : Leases J)
def nextSequence : Except IoError (Leases J) :=
  if L.sequence + 1 < 18446744073709551616 then .ok { L with sequence := L.sequence + 1 }
  else .error (error "presence sequence exhausted")

variable (origin : DeviceId) (sequence : ℕ)
def fresh : Bool :=
  sequence ≠ 0 ∧ (L.received origin).getD 0 < sequence

def setReceived : Leases J :=
  { L with received := Function.update L.received origin (some sequence) }

def stored (key : Key) : ℤ := ((L.members.get? key).map Lease.weight).getD 0

variable (channel : String)
def check (member : PresenceMember J) (allowance : ℤ) : Except IoError ℕ := do
  validateMember channel member
  validateOwnedId origin member.connectionId
  let bytes := leaseBytes channel member
  let old := L.stored ⟨origin, channel, member.connectionId⟩
  if (old = 0 ∧ maxAppMembers ≤ L.members.rows.length) ∨
      min allowance maxAppBytes < max (L.bytes - old) 0 + bytes then
    .error (error "presence lease capacity exceeded")
  else .ok bytes

/-- `insert`; the size of what it replaces is given back. -/
def update (l : Lease J) : Leases J :=
  { L with
    members := L.members.replaceRow l
    bytes := L.bytes - L.stored l.key + l.bytes }

def leave (connectionId : String) : Leases J :=
  let key : Key := ⟨origin, channel, connectionId⟩
  { L with
    members := L.members.deleteWhere (fun l => l.key = key)
    bytes := L.bytes - L.stored key }

/-- `retain`, with the sizes of what is dropped taken off one by one. -/
def retain (p : Lease J → Prop) [DecidablePred p] : Leases J :=
  { L with
    members := L.members.deleteWhere (fun l => ¬p l)
    bytes := L.members.rows.foldl (fun bytes l => if p l then bytes else bytes - l.weight) L.bytes }

def expire (now : ℕ) : Leases J := L.retain (fun l => now < l.expires)

variable (here : DeviceId)
def clearRemote : Leases J :=
  { L.retain (fun l => l.origin = here) with
    received := fun _ => none
    snapshots := fun _ => none }

def localSnapshot : Publication J :=
  .snapshot L.sequence ((L.members.rows.filter (fun l => l.origin = here)).map
    fun l => ⟨l.channel, l.member, l.expiresAtMs⟩)

/-- When a lease of a snapshot expires: the same lease never later than before. -/
def deadline (now ttl : ℕ) (record : SnapshotLease J) : ℕ :=
  match L.members.get? ⟨origin, record.channel, record.member.connectionId⟩ with
  | none => now + ttl
  | some previous =>
    if previous.expiresAtMs = record.expiresAtMs then min (now + ttl) previous.expires
    else now + ttl

/-- One round of the loop of `replace_remote`. -/
def replaceRecord (now : ℕ) (nowMs allowance : ℤ) (replacement : Leases J)
    (record : SnapshotLease J) : Except IoError (Leases J) := do
  let bytes ← replacement.check origin record.channel record.member allowance
  match remaining record.expiresAtMs nowMs with
  | none => .ok replacement
  | some ttl =>
    .ok (replacement.update
      { origin := origin
        channel := record.channel
        member := record.member
        expires := L.deadline origin now ttl record
        expiresAtMs := record.expiresAtMs
        bytes := bytes })

/-- Not older than what was received, and not a snapshot that was applied before. -/
def current : Bool :=
  (L.received origin).all (fun seen => seen ≤ sequence) &&
    (L.snapshots origin).all (fun seen => seen < sequence)

/-- What a snapshot of `origin` leaves alone. -/
def others : Table (Lease.key (J := J)) :=
  L.members.deleteWhere (fun l => l.origin = origin)

def othersBytes : ℤ :=
  ((L.others origin).rows.map Lease.weight).sum

def replaceRemote (records : List (SnapshotLease J)) (now : ℕ) (nowMs allowance : ℤ) :
    Except IoError (Leases J) :=
  if L.current origin sequence = false then .ok L
  else if maxAppMembers < records.length then
    .error (error "presence snapshot exceeds member limit")
  else do
    let allowance := max (min allowance maxAppBytes - L.othersBytes origin) 0
    let replacement ← records.foldlM (L.replaceRecord origin now nowMs allowance) .empty
    if maxAppMembers < (L.others origin).rows.length + replacement.members.rows.length then
      .error (error "presence snapshot exceeds member limit")
    else
      .ok { L with
        members := replacement.members.rows.foldl Table.replaceRow (L.others origin)
        bytes := L.othersBytes origin + replacement.bytes
        received := Function.update L.received origin (some sequence)
        snapshots := Function.update L.snapshots origin (some sequence) }

def snapshot : List (PresenceMember J) :=
  (L.members.rows.filter (fun l => l.channel = channel)).map fun l => projectMember here l.member
end Leases
end Tako.Presence
