import Tako.NetworkRuntime
import Tako.NetworkValidity

/-! The replicated table of a network: rows that are inserted and never changed, and the
snapshot that is read from them. -/
namespace Tako.Network
open AgreeingMap Fallible
def maxAdmissionRows : ℕ := maxRegistryRows / 2

def maxAdmissionBytes : ℕ := maxRegistryBytes / 2

def maxRevocationBytes : ℕ := maxRegistryRows * 67 + 1024

/-- The kinds of rows, in the order of their texts. -/
inductive RecordKind where
  | ack
  | member
  | network
  | revocation
deriving DecidableEq

/-- The payload of a row of `tako_network_records`. Its digest stands for it. -/
inductive Record where
  | ack (ack : Ack)
  | member (m : Member)
  | network (network : NetworkDescriptor)
  | revocation (r : Revocation)
deriving DecidableEq

namespace RecordKind
def place : RecordKind → ℕ
  | .ack => 0
  | .member => 1
  | .network => 2
  | .revocation => 3

def limit : RecordKind → ℕ
  | .revocation => maxRevocationBytes
  | _ => maxRecordBytes
end RecordKind

namespace Record
def kind : Record → RecordKind
  | .ack _ => .ack
  | .member _ => .member
  | .network _ => .network
  | .revocation _ => .revocation

/-- The bytes that `record_id` is the text of. -/
def id : Record → List UInt8
  | .ack a => a.revocation.bytes.toList ++ a.server.bytes.toList ++ a.boot.bytes.toList
  | .member m => m.deviceId.bytes.toList
  | .network _ => utf8 "network"
  | .revocation r => r.id.bytes.toList

def Before (a b : Record) : Prop :=
  a.kind.place < b.kind.place ∨ a.kind.place = b.kind.place ∧ a.id ≤ b.id

instance (a b : Record) : Decidable (a.Before b) := by
  unfold Before
  infer_instance

/-- The length of the payload; that of a network has no field of its own length. -/
def bytes (J : Json) : Record → ℕ
  | .ack a => J.ack a
  | .member m => J.member m
  | .network _ => 124
  | .revocation r => J.revocation r
end Record

structure RecordProjection where
  snapshot : RegistrySnapshot
  acks : AList (fun _ : RevocationId × DeviceId => Ack)
  last : Option Record
  bytes : ℕ
  networkSeen : Bool

section
variable (C : Crypto) (J : Json) (pinned : NetworkDescriptor)
namespace RecordProjection
def new : RecordProjection := ⟨⟨pinned, [], [], []⟩, ∅, none, 0, false⟩

variable (p : RecordProjection)
def take : Record → Except RuntimeError RecordProjection
  | .network network =>
    if network ≠ p.snapshot.network then .error (.conflict "network descriptor")
    else do
      let size ← boundedJsonSize (Record.bytes J (.network network))
      .ok { p with bytes := p.bytes + size, networkSeen := true }
  | .member m => do
    let size ← boundedJsonSize (J.member m)
    .ok { p with
      bytes := p.bytes + size
      snapshot := { p.snapshot with members := p.snapshot.members ++ [m] } }
  | .revocation r => do
    let size ← boundedJsonSize (J.revocation r)
    .ok { p with
      bytes := p.bytes + size
      snapshot := { p.snapshot with revocations := p.snapshot.revocations ++ [r] } }
  | .ack a =>
    let key := (a.revocation, a.server)
    if p.acks.keys.length < maxRegistryRows ∨ key ∈ p.acks then
      .ok { p with acks := p.acks.insert key a }
    else .ok p

def push (row : Record) : Except RuntimeError RecordProjection :=
  if row.kind.limit < row.bytes J then .error (.capacity "registry stored record")
  else if p.last.any (fun last => last.kind = row.kind && last.id = row.id) then
    if p.last ≠ some row then .error (.conflict "record ID") else .ok p
  else do
    let p ← { p with last := some row }.take J row
    if maxRegistryBytes < p.bytes ∨
        maxRegistryRows < p.snapshot.members.length + p.snapshot.revocations.length + 1 then
      .error (.capacity "registry projection")
    else .ok p

def finish : Except RuntimeError RegistrySnapshot :=
  if p.networkSeen = false then .error (.corrosion "missing pinned network descriptor")
  else do
    let acks := (p.acks.entries.map (·.2)).insertionSort fun a b =>
      a.revocation.bytes.toList ++ a.server.bytes.toList ≤
        b.revocation.bytes.toList ++ b.server.bytes.toList
    let s ← boundProjection J { p.snapshot with acks }
    ofDomain (s.validate C)
    .ok s
end RecordProjection

def project (rows : List Record) : Except RuntimeError RegistrySnapshot := do
  let p ← (rows.insertionSort Record.Before).foldlM (RecordProjection.push J)
    (RecordProjection.new pinned)
  p.finish C J
end

section
variable (C : Crypto) (J : Json) (pinned : NetworkDescriptor) (rows : List Record)
def findRecord (kind : RecordKind) (id : List UInt8) : Except RuntimeError (Option Record) :=
  match rows.filter (fun row => row.kind = kind && row.id = id) with
  | [] => .ok none
  | [row] =>
    if row.kind.limit < row.bytes J then .error (.capacity "registry stored record")
    else .ok (some row)
  | _ => .error (.conflict "record ID")

def requireNetwork : Except RuntimeError Unit := do
  let row ← findRecord J rows .network (utf8 "network")
  if row ≠ some (.network pinned) then .error (.conflict "network descriptor") else .ok ()

def insertRecord (row : Record) : Except RuntimeError Unit × List Record :=
  if row.kind.limit < row.bytes J then (.error (.capacity "registry record"), rows)
  else (.ok (), if row ∈ rows then rows else rows ++ [row])

def checkMember (m : Member) : Except RuntimeError Bool := do
  ofDomain (m.validate C)
  let s ← project C J pinned rows
  match s.members.find? (fun previous => previous.deviceId = m.deviceId) with
  | some previous => if previous = m then .ok false else .error (.conflict "member")
  | none =>
    let s := { s with members := s.members ++ [m] }
    if maxAdmissionRows < s.members.length + s.revocations.length + 1 then
      .error (.capacity "registry admissions")
    else do
      let size ← boundedJsonSize (J.snapshot s)
      if maxAdmissionBytes < size then .error (.capacity "registry admissions")
      else do
        ofDomain (s.validate C)
        .ok true

def appendMember (m : Member) (rows : List Record) : Except RuntimeError Unit × List Record :=
  match checkMember C J pinned rows m with
  | .error e => (.error e, rows)
  | .ok false => (.ok (), rows)
  | .ok true =>
    match insertRecord J rows (.member m) with
    | (.error e, rows) => (.error e, rows)
    | (.ok (), rows) => ((project C J pinned rows).map fun _ => (), rows)

def checkRevocation (r : Revocation) : Except RuntimeError Bool := do
  requireNetwork J pinned rows
  let row ← findRecord J rows .revocation r.id.bytes.toList
  match row with
  | some previous =>
    if previous ≠ .revocation r then .error (.conflict "revocation") else .ok false
  | none => .ok true

def appendRevocation (r : Revocation) (rows : List Record) :
    Except RuntimeError Unit × List Record :=
  match checkRevocation J pinned rows r with
  | .error e => (.error e, rows)
  | .ok false => (.ok (), rows)
  | .ok true =>
    match insertRecord J rows (.revocation r) with
    | (.error e, rows) => (.error e, rows)
    | (.ok (), rows) =>
      (do
        let row ← findRecord J rows .revocation r.id.bytes.toList
        if row ≠ some (.revocation r) then .error (.corrosion "revocation absent after write")
        else .ok (), rows)

def checkAck (ack : Ack) : Except RuntimeError Unit := do
  requireNetwork J pinned rows
  let revocation ← findRecord J rows .revocation ack.revocation.bytes.toList
  let server ← findRecord J rows .member ack.server.bytes.toList
  match server with
  | some (.member m) => do
    ofDomain (m.validate C)
    if m.networkId ≠ pinned.id then .error (.conflict "member network")
  | _ => .ok ()
  let captured : Bool :=
    match server with
    | some (.member m) => m.wgVerified && m.kind.isServer
    | _ => false
  if revocation.isNone ∨ captured = false then .error (.invalid "ACK target or server")
  else do
    let previous ← findRecord J rows .ack (Record.id (.ack ack))
    if previous.any (fun row => row ≠ .ack ack) then .error (.conflict "ACK ID") else .ok ()

/-- Only the acknowledgements of earlier boots are ever deleted. -/
def appendAck (ack : Ack) (rows : List Record) : Except RuntimeError Unit × List Record :=
  match checkAck C J pinned rows ack with
  | .error e => (.error e, rows)
  | .ok () =>
    let earlier : Record → Bool
      | .ack a => a.revocation = ack.revocation && a.server = ack.server && a ≠ ack
      | _ => false
    let inserted := if .ack ack ∈ rows then rows else rows ++ [.ack ack]
    (.ok (), inserted.filter fun row => !earlier row)
end

end Tako.Network
