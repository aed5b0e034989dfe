import Mathlib.Data.Finset.Card
import Ferrum.Lib.HashMap
import Ferrum.Lib.I64
import Ferrum.Lib.MinHeap
import Ferrum.Tun.Packet

namespace Ferrum.Tun

open Function

def u32Max : Nat := 2 ^ 32 - 1
def udpAdfPeerCap : Nat := 256

structure GenerationId where
  slot : Nat
  generation : Nat
  deriving DecidableEq, Repr

/-- The generation of each slot; the last one is never given out. -/
structure GenerationTable where
  capacity : Nat
  slots : Nat → Nat
  bounded : ∀ slot, slots slot ≤ u32Max

namespace GenerationTable

def new (capacity : Nat) : GenerationTable := ⟨capacity, fun _ => 0, fun _ => Nat.zero_le _⟩

variable (generations : GenerationTable)

def current (slot : Nat) : Option GenerationId :=
  if slot < generations.capacity ∧ generations.slots slot ≠ u32Max then some ⟨slot, generations.slots slot⟩ else none

def set (slot generation : Nat) (valid : generation ≤ u32Max) : GenerationTable where
  capacity := generations.capacity
  slots := update generations.slots slot generation
  bounded other := by
    rw [update_apply]
    split
    · exact valid
    · exact generations.bounded other

/-- The table after an identity was recycled, and whether it was. -/
def recycle (id : GenerationId) : GenerationTable × Bool :=
  if ¬id.slot < generations.capacity then (generations, false)
  else if generations.slots id.slot ≠ id.generation then (generations, false)
  else if fits : generations.slots id.slot + 1 ≤ u32Max then (generations.set id.slot (generations.slots id.slot + 1) fits, true)
  else (generations, false)

end GenerationTable

inductive UdpFiltering
  | addressDependent | endpointIndependent
  deriving DecidableEq, Repr

inductive UdpPeerAuthorization
  | authorized | alreadyAuthorized | notRequired | invalidPeer | limitReached | staleGeneration
  deriving DecidableEq, Repr

def sameIpFamily (left right : IpAddr) : Bool := left.isIpv4 == right.isIpv4

/-- Which peers may answer one association. -/
structure PeerPolicy where
  filtering : UdpFiltering
  localIp : IpAddr
  authorized : Finset IpAddr
  reserved : HashMap IpAddr Nat

namespace PeerPolicy

def new (filtering : UdpFiltering) (localIp : IpAddr) : PeerPolicy := ⟨filtering, localIp, ∅, ∅⟩

variable (policy : PeerPolicy)

def authorize (peer : IpAddr) : PeerPolicy × UdpPeerAuthorization :=
  if sameIpFamily policy.localIp peer = false ∨ peer.unicast = false then (policy, .invalidPeer)
  else if policy.filtering = .endpointIndependent then (policy, .notRequired)
  else if peer ∈ policy.authorized then (policy, .alreadyAuthorized)
  else if policy.authorized.card + policy.reserved.len = udpAdfPeerCap ∧ peer ∉ policy.reserved then (policy, .limitReached)
  else ({ policy with reserved := policy.reserved.erase peer, authorized := insert peer policy.authorized }, .authorized)

/-- Takes one unit of capacity for a peer that is not authorized yet. -/
def reserve (peer : IpAddr) : PeerPolicy :=
  if sameIpFamily policy.localIp peer = false ∨ peer.unicast = false then policy
  else if policy.filtering = .endpointIndependent then policy
  else if peer ∈ policy.authorized then policy
  else
    match policy.reserved.lookup peer with
    | some count => { policy with reserved := policy.reserved.insert peer (count + 1) }
    | none =>
      if policy.authorized.card + policy.reserved.len = udpAdfPeerCap then policy
      else { policy with reserved := policy.reserved.insert peer 1 }

def finishReservation (peer : IpAddr) (authorize : Bool) : PeerPolicy :=
  if peer ∈ policy.authorized then policy
  else
    match policy.reserved.lookup peer with
    | none => policy
    | some count =>
      if authorize then
        { policy with reserved := policy.reserved.erase peer, authorized := insert peer policy.authorized }
      else if count - 1 = 0 then { policy with reserved := policy.reserved.erase peer }
      else { policy with reserved := policy.reserved.insert peer (count - 1) }

/-- Nothing for a malformed source; otherwise whether it may answer. -/
def allows (source : SocketAddr) : Option Bool :=
  if source.port = 0 ∨ sameIpFamily policy.localIp source.ip = false ∨ source.ip.unicast = false then none
  else some (policy.filtering = .endpointIndependent ∨ source.ip ∈ policy.authorized)

end PeerPolicy

inductive LeasePhase
  | candidate | commitPending | association | closed
  deriving DecidableEq, Repr

inductive UdpCommitError
  | rejected | unavailable
  deriving DecidableEq, Repr

/-- A request of a handle; its reply goes to that handle. -/
structure CommitRequest where
  selectedPayloadBound : Nat
  deriving DecidableEq, Repr

/-- The lease that the owner and one handle share. -/
structure AssociationLease where
  id : GenerationId
  sessionGeneration : Nat
  phase : LeasePhase
  commit : Option CommitRequest
  peerPolicy : PeerPolicy

inductive ControlNoticeKind
  | commit | close
  deriving DecidableEq, Repr

structure ControlNotice where
  id : GenerationId
  sessionGeneration : Nat
  kind : ControlNoticeKind
  deriving DecidableEq, Repr

def AssociationLease.notice (lease : AssociationLease) (kind : ControlNoticeKind) : ControlNotice :=
  ⟨lease.id, lease.sessionGeneration, kind⟩

def AssociationLease.isStale (lease : AssociationLease) (sessionEpoch : Nat) : Bool := sessionEpoch != lease.sessionGeneration

/-- Where a handle stands: in `request_commit` between its shared accesses, waiting for the
reply, holding the association, or in `close`. -/
inductive HandlePoint
  | holding
  | locking (bound : Nat)
  | stored (bound : Nat)
  | withdrawing
  | notifying (bound : Nat)
  | awaiting (bound : Nat)
  | associated
  | dropping
  | closing
  | gone
  deriving DecidableEq, Repr

/-- The candidate or association handle of one lease. A response sink, once there is one, keeps
its bound, and its clones outlive the handle. -/
structure UdpHandle where
  point : HandlePoint
  source : SocketAddr
  packetPayloadBound : Nat
  sinkBound : Option Nat

def HandlePoint.receives : HandlePoint → Bool
  | .stored _ | .withdrawing | .notifying _ | .awaiting _ => true
  | _ => false

def candidateTimeoutMillis : Int := 5000

inductive SlotKind
  | candidate | association
  deriving DecidableEq, Repr

/-- A slot in use; the lease is named by its place among all leases. -/
structure Slot where
  kind : SlotKind
  source : SocketAddr
  payloadBound : Nat
  lease : Nat
  deadlineMillis : Int
  deriving DecidableEq

/-- A deadline, the session that scheduled it, and the identity, compared in that order. -/
abbrev UdpDeadline := Int ×ₗ Nat ×ₗ Nat ×ₗ Nat

namespace UdpDeadline

def new (deadlineMillis : Int) (sessionGeneration : Nat) (id : GenerationId) : UdpDeadline :=
  toLex (deadlineMillis, toLex (sessionGeneration, toLex (id.slot, id.generation)))

variable (deadline : UdpDeadline)

def deadlineMillis : Int := (ofLex deadline).1

def sessionGeneration : Nat := (ofLex (ofLex deadline).2).1

def id : GenerationId :=
  ⟨(ofLex (ofLex (ofLex deadline).2).2).1, (ofLex (ofLex (ofLex deadline).2).2).2⟩

end UdpDeadline

/-- The storage of the owner thread. The head of the free list is the slot that is taken next.
`fallbacks` counts how often a branch was taken that gives a slot up for lost. -/
structure UdpTable where
  slots : Nat → Option Slot
  generations : GenerationTable
  index : HashMap SocketAddr Nat
  freeList : List Nat
  associationCount : Nat
  candidateCount : Nat
  deadlines : MinHeap UdpDeadline
  filtering : UdpFiltering
  idleMillis : Int
  sessionGeneration : Nat
  fallbacks : Nat

namespace UdpTable

def withOptions (capacity : Nat) (idleMillis : Int) (filtering : UdpFiltering) (sessionGeneration : Nat) : UdpTable where
  slots _ := none
  generations := .new capacity
  index := ∅
  freeList := List.range capacity
  associationCount := 0
  candidateCount := 0
  deadlines := .empty
  filtering := filtering
  idleMillis := idleMillis
  sessionGeneration := sessionGeneration
  fallbacks := 0

variable (table : UdpTable)

/-- The deadlines of the slots in use, for a rebuilt heap. -/
def liveDeadlines : List UdpDeadline :=
  (List.range table.generations.capacity).filterMap fun slot => do
    let entry ← table.slots slot
    let id ← table.generations.current slot
    return .new entry.deadlineMillis table.sessionGeneration id

def compactDeadlinesIfNeeded : UdpTable :=
  if table.deadlines.len ≤ max (table.generations.capacity * 2) 1 then table
  else { table with deadlines := .ofList table.liveDeadlines }

def scheduleDeadline (id : GenerationId) (deadlineMillis : Int) : UdpTable :=
  { table with deadlines := table.deadlines.push (.new deadlineMillis table.sessionGeneration id) }.compactDeadlinesIfNeeded

def popDeadline : UdpTable := { table with deadlines := table.deadlines.pop }

/-- A fresh candidate in a slot that was free. -/
def insertCandidate (id : GenerationId) (source : SocketAddr) (payloadBound lease : Nat) (deadlineMillis : Int) :
    UdpTable :=
  { table with
    slots := update table.slots id.slot (some ⟨.candidate, source, payloadBound, lease, deadlineMillis⟩)
    index := table.index.insert source id.slot
    candidateCount := table.candidateCount + 1 }.scheduleDeadline id deadlineMillis

/-- The candidate of a slot becomes an association. -/
def promote (id : GenerationId) (entry : Slot) (selectedPayloadBound : Nat) (deadlineMillis : Int) : UdpTable :=
  { table with
    slots := update table.slots id.slot
      (some ⟨.association, entry.source, selectedPayloadBound, entry.lease, deadlineMillis⟩)
    candidateCount := table.candidateCount - 1
    associationCount := table.associationCount + 1 }.scheduleDeadline id deadlineMillis

/-- A slot that was to be promoted and held no candidate. -/
def giveUp (slot : Nat) : UdpTable :=
  { table with slots := update table.slots slot none, fallbacks := table.fallbacks + 1 }

/-- A later deadline of an association; an equal one is left as it is. -/
def refreshDeadline (id : GenerationId) (entry : Slot) (deadlineMillis : Int) : UdpTable :=
  if entry.deadlineMillis = deadlineMillis then table
  else
    { table with
      slots := update table.slots id.slot (some { entry with deadlineMillis := deadlineMillis })
    }.scheduleDeadline id deadlineMillis

/-- The first part of `remove`: the slot is emptied, before its lease is closed. -/
def detach (id : GenerationId) (entry : Slot) : UdpTable :=
  { table with
    slots := update table.slots id.slot none
    index := if table.index.lookup entry.source = some id.slot then table.index.erase entry.source else table.index
    candidateCount := if entry.kind = .candidate then table.candidateCount - 1 else table.candidateCount
    associationCount := if entry.kind = .association then table.associationCount - 1 else table.associationCount }

/-- The last part of `remove`: the identity is recycled and its slot is free again, unless its
generations are used up. -/
def reclaim (id : GenerationId) : UdpTable :=
  match table.generations.recycle id with
  | (_, false) => { table with fallbacks := table.fallbacks + 1 }
  | (generations, true) =>
    if (generations.current id.slot).isSome then { table with generations := generations, freeList := id.slot :: table.freeList }
    else { table with generations := generations }

def occupant (id : GenerationId) : Option Slot :=
  if table.generations.current id.slot = some id then table.slots id.slot else none

end UdpTable

end Ferrum.Tun
