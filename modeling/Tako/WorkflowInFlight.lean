import Tako.WorkflowRunsDb
import Tako.WorkflowOwners

/-! `InFlightLimiter` and the servers that claim through it. A server holds its limiter's lock
from the admission check to the insert into the claims map. -/
namespace Tako.Workflow
open Relational
/-- The default alphabet of `nanoid!`. -/
structure Nanoid where
  text : String
  alphabet : ∀ c ∈ text.toList, c.isAlphanum ∨ c = '_' ∨ c = '-'

def newClaimOwner (workerId : String) (nanoid : Nanoid) : String :=
  workerId ++ ":" ++ nanoid.text

/-- `str::rsplit_once` on characters. -/
def rsplitOnce (sep : Char) : List Char → Option (List Char × List Char)
  | [] => none
  | c :: rest =>
    match rsplitOnce sep rest with
    | some (before, last) => some (c :: before, last)
    | none => if c = sep then some ([], rest) else none

theorem rsplitOnce_eq_none {sep : Char} {l : List Char} (h : sep ∉ l) :
    rsplitOnce sep l = none := by
  induction l with
  | nil => rfl
  | cons c l ih =>
    rw [List.mem_cons, not_or] at h
    rw [rsplitOnce, ih h.2]
    exact if_neg (Ne.symm h.1)

theorem rsplitOnce_append {sep : Char} (before : List Char) {last : List Char} (h : sep ∉ last) :
    rsplitOnce sep (before ++ sep :: last) = some (before, last) := by
  induction before with
  | nil =>
    rw [List.nil_append, rsplitOnce, rsplitOnce_eq_none h]
    exact if_pos rfl
  | cons _ _ ih => rw [List.cons_append, rsplitOnce, ih]

def processWorker (claimOwner : String) : String :=
  match rsplitOnce ':' claimOwner.toList with
  | some (worker, _) => String.ofList worker
  | none => claimOwner

def u32Max : ℕ := 2 ^ 32 - 1

/-- `HashMap<String, u32>`. -/
abbrev Claims := Table (Prod.fst : String × ℕ → String)

def countWorker (claims : Claims) (workerId : String) : ℕ :=
  (claims.rows.filter (fun kv => processWorker kv.1 = workerId)).foldl
    (fun total kv => min (total + kv.2) u32Max) 0

/-- The map that `in_flight_by_worker` returns. -/
def snapshot (counts : List (String × ℕ)) : Claims :=
  counts.foldl (fun claims kv => claims.replaceRow kv) .empty

structure InFlightLimiter where
  maxPerWorker : UInt32
  claims : Claims

variable {J : JsonCodec}
namespace InFlightLimiter
def new (maxPerWorker : UInt32) : InFlightLimiter := ⟨max maxPerWorker 1, .empty⟩

def rehydrate (l : InFlightLimiter) (counts : List (String × ℕ)) : InFlightLimiter :=
  { l with claims := snapshot counts }

/-- `InFlightLimiter::new`, rehydrated when the query succeeds. -/
def start (maxPerWorker : UInt32) (inFlight : Result J) : InFlightLimiter :=
  match inFlight with
  | .ok (.inFlight counts) => (new maxPerWorker).rehydrate counts
  | _ => new maxPerWorker

def releaseClaim (l : InFlightLimiter) (claimOwner : String) : InFlightLimiter :=
  match l.claims.get? claimOwner with
  | none => l
  | some (_, count) =>
    if count > 1 then
      { l with
        claims := l.claims.updateWhere (fun kv => kv.1 = claimOwner)
          (fun kv => (kv.1, kv.2 - 1)) (fun _ => rfl) }
    else { l with claims := l.claims.deleteWhere (fun kv => kv.1 = claimOwner) }
end InFlightLimiter

inductive Admission where
  | admitted
  | refused
  | failed (e : RunsDbError)
deriving DecidableEq, Repr

/-- The first part of `InFlightLimiter::claim`: the cached count, and at the cap
the count in the database. -/
def InFlightLimiter.admission (l : InFlightLimiter) (workerId : String) (inFlight : Result J) :
    Admission × InFlightLimiter :=
  if countWorker l.claims workerId < l.maxPerWorker.toNat then (.admitted, l)
  else
    match inFlight with
    | .error e => (.failed e, l)
    | .ok (.inFlight counts) =>
      let refreshed := l.rehydrate counts
      if countWorker refreshed.claims workerId < l.maxPerWorker.toNat then (.admitted, refreshed)
      else (.refused, refreshed)
    | .ok _ => (.refused, l)

/-- How far the call of `InFlightLimiter::claim` that holds the lock has come. -/
inductive Phase where
  | idle
  | admitted (owner : String) (names : List String) (leaseMs : ℕ)
  | claimed (owner : String)
deriving DecidableEq, Repr

structure Server where
  limiter : InFlightLimiter
  phase : Phase

structure System (ι : Type) where
  store : RunsDb
  server : ι → Server

/-- One step of one server, or a call that reaches the store by any other way.
An event that finds the lock taken has to wait: it changes nothing. -/
inductive Event (ι : Type) (J : JsonCodec) where
  | beginClaim (s : ι) (plan : Planner) (workerId : String) (nanoid : Nanoid)
      (names : List String) (leaseMs : ℕ)
  | commitClaim (s : ι) (plan : Planner) (now : ClockMs)
  | recordClaim (s : ι)
  | releaseClaim (s : ι) (claimOwner : String)
  | restart (s : ι) (plan : Planner) (maxPerWorker : UInt32)
  | store (e : StoreEvent J)

inductive Answer (J : JsonCodec) where
  | silent
  | admission (a : Admission)
  | replied (r : Result J)

def Event.owner {ι : Type} : Event ι J → Option String
  | .beginClaim _ _ workerId nanoid _ _ => some (newClaimOwner workerId nanoid)
  | _ => none

def StoreEvent.isClaim : StoreEvent J → Bool
  | .call _ (.claim ..) => true
  | _ => false

namespace System
variable {ι : Type} [DecidableEq ι] (sys : System ι) (s : ι)
def setServer (server : Server) : System ι :=
  { sys with server := Function.update sys.server s server }

def beginClaim (plan : Planner) (workerId : String) (nanoid : Nanoid) (names : List String)
    (leaseMs : ℕ) : Answer J × System ι :=
  let server := sys.server s
  if server.phase = .idle then
    let inFlight : Result J := (sys.store.call plan .inFlightByWorker).1
    let (outcome, limiter) := server.limiter.admission workerId inFlight
    let owner := newClaimOwner workerId nanoid
    (.admission outcome, sys.setServer s
      ⟨limiter, if outcome = .admitted then .admitted owner names leaseMs else .idle⟩)
  else (.silent, sys)

def commitClaim (plan : Planner) (now : ClockMs) : Answer J × System ι :=
  let server := sys.server s
  match server.phase with
  | .admitted owner names leaseMs =>
    let (reply, store) := sys.store.call (J := J) plan (.claim now owner names leaseMs)
    let phase := match reply with
      | .ok (.claimed (some _)) => .claimed owner
      | _ => .idle
    (.replied reply, { sys.setServer s ⟨server.limiter, phase⟩ with store := store })
  | _ => (.silent, sys)

def recordClaim : System ι :=
  let server := sys.server s
  match server.phase with
  | .claimed owner => sys.setServer s
      ⟨{ server.limiter with claims := server.limiter.claims.replaceRow (owner, 1) }, .idle⟩
  | _ => sys

def releaseClaim (claimOwner : String) : System ι :=
  let server := sys.server s
  if server.phase = .idle then
    sys.setServer s ⟨server.limiter.releaseClaim claimOwner, .idle⟩
  else sys

/-- The process starts again: whatever it was doing is lost. -/
def restart (J : JsonCodec) (sys : System ι) (s : ι) (plan : Planner) (maxPerWorker : UInt32) :
    System ι :=
  let inFlight : Result J := (sys.store.call plan .inFlightByWorker).1
  sys.setServer s ⟨.start maxPerWorker inFlight, .idle⟩

def exec (e : Event ι J) (sys : System ι) : Answer J × System ι :=
  match e with
  | .beginClaim s plan workerId nanoid names leaseMs =>
    sys.beginClaim s plan workerId nanoid names leaseMs
  | .commitClaim s plan now => sys.commitClaim s plan now
  | .recordClaim s => (.silent, sys.recordClaim s)
  | .releaseClaim s claimOwner => (.silent, sys.releaseClaim s claimOwner)
  | .restart s plan maxPerWorker => (.silent, sys.restart J s plan maxPerWorker)
  | .store e =>
    if e.isClaim then (.silent, sys)
    else
      let (reply, store) := sys.store.exec e
      (match reply with
        | some r => .replied r
        | none => .silent, { sys with store := store })

def after (events : List (Event ι J)) : System ι :=
  Execution.after exec sys events
end System
end Tako.Workflow
