import Ferrum.Tun.UdpTableInvariant

namespace Ferrum.Tun

open Function

/-- One datagram of an application with the arguments of its admission. -/
structure UdpPacket where
  source : SocketAddr
  target : SocketAddr
  payload : List UInt8
  responsePayloadBound : Nat
  ingressPayloadBound : Nat
  nowMillis : Int
  admitting : Bool

/-- What the owner goes on with after a removal. -/
inductive Next
  | done
  | expire (nowMillis : Int) (packet : Option UdpPacket)
  | enter (packet : UdpPacket)
  | invalidate (slot newGeneration : Nat)

/-- Where the owner thread stands inside its calls, between two accesses to what it shares with
the handles. -/
inductive OwnerPoint
  | idle
  | expiring (nowMillis : Int) (packet : Option UdpPacket)
  | looking (packet : UdpPacket)
  | entering (packet : UdpPacket)
  | taking (id : GenerationId) (lease : Nat) (nowMillis : Int) (admitting : Bool)
  | validating (id : GenerationId) (lease : Nat) (commit : CommitRequest) (nowMillis : Int) (admitting : Bool)
  | marking (id : GenerationId) (lease : Nat) (commit : CommitRequest) (nowMillis : Int)
  | replying (id : GenerationId) (lease : Nat)
  | rejecting (id : GenerationId) (lease : Nat)
  | removing (id : GenerationId) (next : Next)
  | reclaiming (id : GenerationId) (lease : Nat) (next : Next)
  | invalidating (slot newGeneration : Nat)

structure OwnerResponse where
  lease : Nat
  associationSource : SocketAddr
  responseSource : SocketAddr
  payload : List UInt8
  deriving DecidableEq

inductive InjectOutcome
  | injected | backpressured | rejected
  deriving DecidableEq, Repr

/-- What the outside answers in one step of the owner: whether the queue of the slot takes the
datagram, the budget its bytes, and the candidate queue a new candidate. -/
structure OwnerEnvironment where
  queueRoom : Bool
  budget : Bool
  firstSend : Bool
  candidateRoom : Bool

/-- The owner, all leases with their handles, what is under way between them, and the log of the
replies and the injected packets. -/
structure UdpBridge where
  table : UdpTable
  owner : OwnerPoint
  leases : Nat → AssociationLease
  handles : Nat → UdpHandle
  leaseCount : Nat
  controls : List ControlNotice
  inFlight : List OwnerResponse
  responses : List OwnerResponse
  pendingResponse : Option OwnerResponse
  sessionEpoch : Nat
  replies : List (Nat × Except UdpCommitError Unit)
  injected : List OwnerResponse

/-- A step of one handle. -/
inductive HandleStep
  | request (selectedPayloadBound : Nat)
  | store | exchange | withdraw | notify | receive | cancel | close | notifyClose
  | authorizePeer (peer : IpAddr)
  | reservePeer (peer : IpAddr)
  | finishReservation (peer : IpAddr) (authorize : Bool)
  | send (source : SocketAddr) (payload : List UInt8)

/-- The calls of the owner, its next step, and the steps of the handles. -/
inductive UdpEvent
  | expire (nowMillis : Int)
  | admitPacket (packet : UdpPacket)
  | processOneControl (nowMillis : Int) (admitting : Bool)
  | processOneResponse (nowMillis : Int) (inject : InjectOutcome)
  | fenceSession (newGeneration : Nat)
  | invalidateSession (newGeneration : Nat)
  | owner (environment : OwnerEnvironment)
  | handle (lease : Nat) (step : HandleStep)
  | enqueue (place : Nat)

def emptyPolicy : PeerPolicy := .new .endpointIndependent (.v4 (Vector.replicate 4 0))

namespace UdpBridge

def withOptions (capacity : Nat) (idleMillis : Int) (filtering : UdpFiltering) (sessionGeneration : Nat) : UdpBridge where
  table := .withOptions capacity idleMillis filtering sessionGeneration
  owner := .idle
  leases _ := ⟨⟨0, 0⟩, 0, .closed, none, emptyPolicy⟩
  handles _ := ⟨.gone, ⟨.v4 (Vector.replicate 4 0), 0⟩, 0, none⟩
  leaseCount := 0
  controls := []
  inFlight := []
  responses := []
  pendingResponse := none
  sessionEpoch := sessionGeneration
  replies := []
  injected := []

section

variable (bridge : UdpBridge)

def setPhase (lease : Nat) (phase : LeasePhase) : UdpBridge :=
  { bridge with leases := update bridge.leases lease { bridge.leases lease with phase := phase } }

def setCommit (lease : Nat) (commit : Option CommitRequest) : UdpBridge :=
  { bridge with leases := update bridge.leases lease { bridge.leases lease with commit := commit } }

def setPolicy (lease : Nat) (policy : PeerPolicy) : UdpBridge :=
  { bridge with leases := update bridge.leases lease { bridge.leases lease with peerPolicy := policy } }

def setPoint (lease : Nat) (point : HandlePoint) : UdpBridge :=
  { bridge with handles := update bridge.handles lease { bridge.handles lease with point := point } }

def notify (lease : Nat) (kind : ControlNoticeKind) : UdpBridge :=
  { bridge with controls := bridge.controls ++ [(bridge.leases lease).notice kind] }

def reply (lease : Nat) (result : Except UdpCommitError Unit) : UdpBridge :=
  { bridge with replies := bridge.replies ++ [(lease, result)] }

end

def resume (bridge : UdpBridge) : Next → UdpBridge
  | .done => { bridge with owner := .idle }
  | .expire nowMillis packet => { bridge with owner := .expiring nowMillis packet }
  | .enter packet => { bridge with owner := .entering packet }
  | .invalidate slot newGeneration => { bridge with owner := .invalidating slot newGeneration }

/-- `remove` up to the store that closes the lease. -/
def remove (bridge : UdpBridge) (id : GenerationId) (next : Next) : UdpBridge :=
  match bridge.table.occupant id with
  | none => bridge.resume next
  | some entry =>
    { bridge with table := bridge.table.detach id entry, owner := .reclaiming id entry.lease next }.setPhase entry.lease .closed

/-- A request that waits is taken and refused. -/
def refuse (bridge : UdpBridge) (lease : Nat) : UdpBridge :=
  if (bridge.leases lease).commit.isSome then (bridge.setCommit lease none).reply lease (.error .rejected) else bridge

/-- The rest of `remove`: a request that waits is refused, and the identity is recycled. -/
def reclaim (bridge : UdpBridge) (id : GenerationId) (lease : Nat) (next : Next) : UdpBridge :=
  { bridge.refuse lease with table := bridge.table.reclaim id }.resume next

/-- What follows the loop of `expire`, alone or at the start of an admission. -/
def expired (bridge : UdpBridge) : Option UdpPacket → UdpBridge
  | none => { bridge with owner := .idle }
  | some packet => { bridge with owner := .looking packet }

/-- A deadline that is due removes its slot, if it is still the deadline of this slot. -/
def expireDue (bridge : UdpBridge) (deadline : UdpDeadline) (nowMillis : Int) (packet : Option UdpPacket) : UdpBridge :=
  if deadline.sessionGeneration ≠ bridge.table.sessionGeneration then bridge
  else
    match bridge.table.occupant deadline.id with
    | none => bridge
    | some entry =>
      if entry.deadlineMillis ≠ deadline.deadlineMillis then bridge
      else { bridge with owner := .removing deadline.id (.expire nowMillis packet) }

/-- One turn of the loop of `expire`. -/
def expireTurn (bridge : UdpBridge) (nowMillis : Int) (packet : Option UdpPacket) : UdpBridge :=
  match bridge.table.deadlines.peek with
  | none => bridge.expired packet
  | some deadline =>
    if nowMillis < deadline.deadlineMillis then bridge.expired packet
    else { bridge with table := bridge.table.popDeadline }.expireDue deadline nowMillis packet

def validDatagramEndpoint (packet : UdpPacket) : Bool :=
  packet.source.port != 0 && packet.source.ip.unicast && packet.target.port != 0 && packet.target.ip.unicast &&
    sameIpFamily packet.source.ip packet.target.ip

section

variable (bridge : UdpBridge)

/-- The slot that the index named is removed, and the packet is admitted anew. -/
def replaceExisting (current : Option GenerationId) (packet : UdpPacket) : UdpBridge :=
  match current with
  | some id => { bridge with owner := .removing id (.enter packet) }
  | none => { bridge with owner := .entering packet }

/-- `enqueue_existing`. An entry that is closed, stale or expired is replaced. -/
def enqueueExisting (slot : Nat) (packet : UdpPacket) (environment : OwnerEnvironment) : UdpBridge :=
  match bridge.table.slots slot with
  | none => bridge.replaceExisting (bridge.table.generations.current slot) packet
  | some entry =>
    if (bridge.leases entry.lease).phase = .closed ∨ (bridge.leases entry.lease).isStale bridge.sessionEpoch ∨
        bridge.table.generations.current slot ≠ some (bridge.leases entry.lease).id ∨ entry.deadlineMillis ≤ packet.nowMillis then
      bridge.replaceExisting (bridge.table.generations.current slot) packet
    else if environment.queueRoom = false ∨ environment.budget = false then { bridge with owner := .idle }
    else
      match entry.kind with
      | .candidate => { bridge with owner := .idle }
      | .association =>
        { bridge with
          table := bridge.table.refreshDeadline (bridge.leases entry.lease).id entry
            (saturatingAdd packet.nowMillis bridge.table.idleMillis)
          owner := .idle }

/-- `admit_with_ingress_bound` after its call of `expire`. -/
def look (packet : UdpPacket) (environment : OwnerEnvironment) : UdpBridge :=
  if validDatagramEndpoint packet = false ∨ packet.ingressPayloadBound < packet.payload.length then { bridge with owner := .idle }
  else
    match bridge.table.index.lookup packet.source with
    | some slot => bridge.enqueueExisting slot packet environment
    | none => { bridge with owner := .entering packet }

/-- A new candidate for the packet, with its lease and its handle. -/
def openCandidate (id : GenerationId) (packet : UdpPacket) : UdpBridge :=
  { bridge with
    table := bridge.table.insertCandidate id packet.source packet.responsePayloadBound bridge.leaseCount
      (saturatingAdd packet.nowMillis candidateTimeoutMillis)
    leases := update bridge.leases bridge.leaseCount ⟨id, bridge.table.sessionGeneration, .candidate, none,
      .new bridge.table.filtering packet.source.ip⟩
    handles := update bridge.handles bridge.leaseCount
      ⟨.holding, packet.source, packet.responsePayloadBound, none⟩
    leaseCount := bridge.leaseCount + 1
    owner := .idle }

/-- A handle that the candidate queue does not take is dropped on the spot, and its slot is
removed. -/
def dropCandidate (lease : Nat) : UdpBridge :=
  { ((bridge.setPhase lease .closed).setPoint lease .gone).notify lease .close with
    owner := .removing (bridge.leases lease).id .done }

/-- The part of `admit_with_ingress_bound` that opens a new slot. -/
def enter (packet : UdpPacket) (environment : OwnerEnvironment) : UdpBridge :=
  if packet.admitting = false then { bridge with owner := .idle }
  else
    match bridge.table.freeList with
    | [] => { bridge with owner := .idle }
    | slot :: rest =>
      match bridge.table.generations.current slot with
      | none => { bridge with table := { bridge.table with freeList := rest, fallbacks := bridge.table.fallbacks + 1 }, owner := .idle }
      | some id =>
        if environment.budget = false ∨ environment.firstSend = false then
          { bridge with table := { bridge.table with freeList := slot :: rest }, owner := .idle }
        else if environment.candidateRoom then
          { bridge with table := { bridge.table with freeList := rest } }.openCandidate id packet
        else
          ({ bridge with table := { bridge.table with freeList := rest } }.openCandidate id packet).dropCandidate bridge.leaseCount

/-- `process_one_control` for one notice, up to where it calls `commit_candidate`. -/
def handleControl (notice : ControlNotice) (nowMillis : Int) (admitting : Bool) : UdpBridge :=
  if notice.sessionGeneration ≠ bridge.table.sessionGeneration then bridge
  else
    match bridge.table.occupant notice.id with
    | none => bridge
    | some entry =>
      match (bridge.leases entry.lease).phase with
      | .closed => bridge.remove notice.id .done
      | .commitPending => { bridge with owner := .taking notice.id entry.lease nowMillis admitting }
      | .candidate | .association => bridge

def processOneControl (nowMillis : Int) (admitting : Bool) : UdpBridge :=
  match bridge.controls with
  | [] => bridge
  | notice :: rest => { bridge with controls := rest }.handleControl notice nowMillis admitting

/-- The test of `commit_candidate` before it marks the lease live. -/
def validCommit (id : GenerationId) (lease : Nat) (commit : CommitRequest) (nowMillis : Int)
    (admitting : Bool) : Bool :=
  admitting && (bridge.leases lease).sessionGeneration == bridge.table.sessionGeneration &&
    !(bridge.leases lease).isStale bridge.sessionEpoch && (bridge.leases lease).phase == .commitPending &&
    (bridge.table.occupant id).any fun entry => entry.kind == .candidate && entry.lease == lease &&
      decide (nowMillis < entry.deadlineMillis) && decide (commit.selectedPayloadBound ≤ entry.payloadBound)

/-- The candidate of a live lease becomes an association. A slot without a candidate is given up. -/
def promoteSlot (id : GenerationId) (lease : Nat) (commit : CommitRequest) (nowMillis : Int) : UdpBridge :=
  match bridge.table.slots id.slot with
  | none => { bridge with table := bridge.table.giveUp id.slot, owner := .rejecting id lease }
  | some entry =>
    if entry.kind = .candidate then
      { bridge with
        table := bridge.table.promote id entry commit.selectedPayloadBound (saturatingAdd nowMillis bridge.table.idleMillis)
        owner := .replying id lease }
    else { bridge with table := bridge.table.giveUp id.slot, owner := .rejecting id lease }

/-- The exchange that marks the lease live, and the move of its slot. -/
def markLive (id : GenerationId) (lease : Nat) (commit : CommitRequest) (nowMillis : Int) : UdpBridge :=
  if (bridge.leases lease).phase = .commitPending then (bridge.setPhase lease .association).promoteSlot id lease commit nowMillis
  else { bridge with owner := .rejecting id lease }

/-- One turn of the loop of `invalidate_session`, and what follows it. -/
def invalidateTurn (slot newGeneration : Nat) : UdpBridge :=
  if slot < bridge.table.generations.capacity then
    match bridge.table.slots slot, bridge.table.generations.current slot with
    | some _, some id => { bridge with owner := .removing id (.invalidate (slot + 1) newGeneration) }
    | _, _ => { bridge with owner := .invalidating (slot + 1) newGeneration }
  else
    { bridge with
      table := { bridge.table with deadlines := .empty, sessionGeneration := newGeneration }
      pendingResponse := none
      responses := []
      owner := .idle }

/-- The next step of the call that the owner is in. -/
def ownerStep (environment : OwnerEnvironment) : UdpBridge :=
  match bridge.owner with
  | .idle => bridge
  | .expiring nowMillis packet => bridge.expireTurn nowMillis packet
  | .looking packet => bridge.look packet environment
  | .entering packet => bridge.enter packet environment
  | .taking id lease nowMillis admitting =>
    match (bridge.leases lease).commit with
    | none => { bridge with owner := .idle }
    | some commit => { bridge.setCommit lease none with owner := .validating id lease commit nowMillis admitting }
  | .validating id lease commit nowMillis admitting =>
    if bridge.validCommit id lease commit nowMillis admitting then { bridge with owner := .marking id lease commit nowMillis }
    else { bridge with owner := .rejecting id lease }
  | .marking id lease commit nowMillis => bridge.markLive id lease commit nowMillis
  | .replying id lease =>
    if (bridge.handles lease).point.receives then { bridge.reply lease (.ok ()) with owner := .idle }
    else { bridge.reply lease (.ok ()) with owner := .removing id .done }
  | .rejecting id lease => { bridge.reply lease (.error .rejected) with owner := .removing id .done }
  | .removing id next => bridge.remove id next
  | .reclaiming id lease next => bridge.reclaim id lease next
  | .invalidating slot newGeneration => bridge.invalidateTurn slot newGeneration

/-- The tests that `process_one_response` makes on the slot before it injects. -/
def matchesAssociation (response : OwnerResponse) : Option Slot :=
  (bridge.table.slots (bridge.leases response.lease).id.slot).filter fun entry =>
    entry.kind == .association && (bridge.leases response.lease).phase == .association &&
      entry.source == response.associationSource && entry.lease == response.lease

/-- The tests on a response for a live slot, and its injection. -/
def inject (response : OwnerResponse) (nowMillis : Int) (outcome : InjectOutcome) : UdpBridge :=
  match bridge.matchesAssociation response with
  | none => bridge
  | some entry =>
    if entry.payloadBound < response.payload.length then bridge
    else if (bridge.leases response.lease).peerPolicy.allows response.responseSource ≠ some true then bridge
    else
      match outcome with
      | .injected =>
        { bridge with
          injected := bridge.injected ++ [response]
          table := bridge.table.refreshDeadline (bridge.leases response.lease).id entry
            (saturatingAdd nowMillis bridge.table.idleMillis) }
      | .backpressured => { bridge with pendingResponse := some response }
      | .rejected => bridge

/-- The response that is handled next: a retained one, else the head of the queue. -/
def takeResponse : Option (OwnerResponse × UdpBridge) :=
  match bridge.pendingResponse, bridge.responses with
  | some response, _ => some (response, { bridge with pendingResponse := none })
  | none, response :: rest => some (response, { bridge with responses := rest })
  | none, [] => none

/-- The response belongs to an earlier session or an earlier generation of its slot. -/
def isStaleResponse (response : OwnerResponse) : Bool :=
  (bridge.leases response.lease).sessionGeneration != bridge.table.sessionGeneration ||
    (bridge.leases response.lease).isStale bridge.sessionEpoch ||
    bridge.table.generations.current (bridge.leases response.lease).id.slot != some (bridge.leases response.lease).id

def isExpiredResponse (response : OwnerResponse) (nowMillis : Int) : Bool :=
  (bridge.table.slots (bridge.leases response.lease).id.slot).any fun entry =>
    entry.lease == response.lease && decide (entry.deadlineMillis ≤ nowMillis)

/-- `process_one_response` for one response. Nothing matches a slot that it has removed. -/
def handleResponse (response : OwnerResponse) (nowMillis : Int) (outcome : InjectOutcome) : UdpBridge :=
  if bridge.isStaleResponse response then bridge
  else if bridge.isExpiredResponse response nowMillis then bridge.remove (bridge.leases response.lease).id .done
  else bridge.inject response nowMillis outcome

def processOneResponse (nowMillis : Int) (outcome : InjectOutcome) : UdpBridge :=
  match bridge.takeResponse with
  | none => bridge
  | some (response, bridge) => bridge.handleResponse response nowMillis outcome

/-- `close`, up to its notice. -/
def close (lease : Nat) : UdpBridge :=
  if (bridge.leases lease).phase = .closed then bridge.setPoint lease .gone
  else (bridge.setPhase lease .closed).setPoint lease .closing

/-- The candidate handle hands over to an association handle with its response sink. -/
def associate (lease bound : Nat) : UdpBridge :=
  let handle := { bridge.handles lease with point := .associated, sinkBound := some bound }
  { bridge with handles := update bridge.handles lease handle }

/-- The reply that a handle waits for. -/
def receive (lease bound : Nat) : UdpBridge :=
  match bridge.replies.find? (·.1 == lease) with
  | none => bridge
  | some (_, .error _) => bridge.setPoint lease .dropping
  | some (_, .ok ()) =>
    if (bridge.leases lease).isStale bridge.sessionEpoch ∨ (bridge.leases lease).phase ≠ .association then
      bridge.setPoint lease .dropping
    else bridge.associate lease bound

/-- `UdpResponseSink::send`, up to the reserved place in the queue. -/
def send (lease : Nat) (source : SocketAddr) (payload : List UInt8) : UdpBridge :=
  match (bridge.handles lease).sinkBound with
  | none => bridge
  | some bound =>
    if (bridge.leases lease).isStale bridge.sessionEpoch ∨ (bridge.leases lease).phase ≠ .association ∨
        bound < payload.length ∨ (bridge.leases lease).peerPolicy.allows source ≠ some true then bridge
    else { bridge with inFlight := bridge.inFlight ++ [⟨lease, (bridge.handles lease).source, source, payload⟩] }

end

/-- The next access of a handle; a step that it is not ready for changes nothing. -/
def handleStep (bridge : UdpBridge) (lease : Nat) : HandleStep → UdpBridge
  | .request bound =>
    if (bridge.handles lease).point ≠ .holding then bridge
    else if (bridge.handles lease).packetPayloadBound < bound ∨ (bridge.leases lease).isStale bridge.sessionEpoch ∨
        (bridge.leases lease).phase ≠ .candidate then bridge.setPoint lease .dropping
    else bridge.setPoint lease (.locking bound)
  | .store =>
    match (bridge.handles lease).point with
    | .locking bound =>
      if (bridge.leases lease).commit.isSome ∨ (bridge.leases lease).phase ≠ .candidate then bridge.setPoint lease .dropping
      else (bridge.setCommit lease (some ⟨bound⟩)).setPoint lease (.stored bound)
    | _ => bridge
  | .exchange =>
    match (bridge.handles lease).point with
    | .stored bound =>
      if (bridge.leases lease).phase = .candidate then (bridge.setPhase lease .commitPending).setPoint lease (.notifying bound)
      else bridge.setPoint lease .withdrawing
    | _ => bridge
  | .withdraw =>
    if (bridge.handles lease).point = .withdrawing then (bridge.setCommit lease none).setPoint lease .dropping else bridge
  | .notify =>
    match (bridge.handles lease).point with
    | .notifying bound => (bridge.notify lease .commit).setPoint lease (.awaiting bound)
    | _ => bridge
  | .receive =>
    match (bridge.handles lease).point with
    | .awaiting bound => bridge.receive lease bound
    | _ => bridge
  | .cancel =>
    match (bridge.handles lease).point with
    | .holding | .awaiting _ | .associated => bridge.setPoint lease .dropping
    | _ => bridge
  | .close => if (bridge.handles lease).point = .dropping then bridge.close lease else bridge
  | .notifyClose =>
    if (bridge.handles lease).point = .closing then (bridge.notify lease .close).setPoint lease .gone else bridge
  | .authorizePeer peer =>
    if (bridge.leases lease).isStale bridge.sessionEpoch then bridge
    else bridge.setPolicy lease ((bridge.leases lease).peerPolicy.authorize peer).1
  | .reservePeer peer =>
    if (bridge.leases lease).isStale bridge.sessionEpoch then bridge
    else bridge.setPolicy lease ((bridge.leases lease).peerPolicy.reserve peer)
  | .finishReservation peer authorize =>
    bridge.setPolicy lease ((bridge.leases lease).peerPolicy.finishReservation peer authorize)
  | .send source payload => bridge.send lease source payload

def enqueue (bridge : UdpBridge) (place : Nat) : UdpBridge :=
  match bridge.inFlight[place]? with
  | none => bridge
  | some response =>
    { bridge with inFlight := bridge.inFlight.eraseIdx place, responses := bridge.responses ++ [response] }

/-- One event. The owner starts a call only after it has finished the last. -/
def step (bridge : UdpBridge) : UdpEvent → UdpBridge
  | .owner environment => bridge.ownerStep environment
  | .handle lease step => if lease < bridge.leaseCount then bridge.handleStep lease step else bridge
  | .enqueue place => bridge.enqueue place
  | .expire nowMillis =>
    match bridge.owner with
    | .idle => { bridge with owner := .expiring nowMillis none }
    | _ => bridge
  | .admitPacket packet =>
    match bridge.owner with
    | .idle => { bridge with owner := .expiring packet.nowMillis (some packet) }
    | _ => bridge
  | .processOneControl nowMillis admitting =>
    match bridge.owner with
    | .idle => bridge.processOneControl nowMillis admitting
    | _ => bridge
  | .processOneResponse nowMillis outcome =>
    match bridge.owner with
    | .idle => bridge.processOneResponse nowMillis outcome
    | _ => bridge
  | .fenceSession newGeneration =>
    match bridge.owner with
    | .idle => { bridge with sessionEpoch := newGeneration }
    | _ => bridge
  | .invalidateSession newGeneration =>
    match bridge.owner with
    | .idle => { bridge with sessionEpoch := newGeneration, owner := .invalidating 0 newGeneration }
    | _ => bridge

def run (bridge : UdpBridge) (events : List UdpEvent) : UdpBridge := events.foldl step bridge

end UdpBridge

/-- What the owner relies on when it goes on after a removal. -/
def Next.Ready (table : UdpTable) : Next → Prop
  | .enter packet => table.index.lookup packet.source = none
  | .invalidate slot _ => ∀ other < slot, table.slots other = none
  | .done | .expire _ _ => True

theorem Next.Ready.congr {before after : UdpTable} {next : Next} (ready : next.Ready before)
    (slots : after.slots = before.slots) (index : after.index = before.index) : next.Ready after := by
  cases next with
  | done => trivial
  | expire nowMillis packet => trivial
  | enter packet =>
    unfold Next.Ready at ready ⊢
    rw [index]
    exact ready
  | invalidate slot newGeneration =>
    unfold Next.Ready at ready ⊢
    rw [slots]
    exact ready

def UdpTable.Holds (table : UdpTable) (id : GenerationId) (lease : Nat) (kind : SlotKind) : Prop :=
  ∃ entry, table.occupant id = some entry ∧ entry.lease = lease ∧ entry.kind = kind

/-- What the owner relies on after the removal of an identity. -/
def UdpTable.Removable (table : UdpTable) (id : GenerationId) (next : Next) : Prop :=
  match table.occupant id with
  | none => next.Ready table
  | some entry => next.Ready (table.detach id entry)

/-- What the owner relies on where it stands. -/
def OwnerPoint.Supported (table : UdpTable) : OwnerPoint → Prop
  | .entering packet => table.index.lookup packet.source = none
  | .marking id lease _ _ => table.Holds id lease .candidate
  | .replying id lease => table.Holds id lease .association
  | .removing id next => table.Removable id next
  | .reclaiming id _ next => table.generations.current id.slot = some id ∧ table.slots id.slot = none ∧ next.Ready table
  | .invalidating slot _ => ∀ other < slot, table.slots other = none
  | _ => True

def OwnerPoint.reclaimed : OwnerPoint → Option Nat
  | .reclaiming id _ _ => some id.slot
  | _ => none

namespace UdpBridge

/-- Each slot in use holds a lease of its current generation and of this session. -/
def Leased (bridge : UdpBridge) : Prop :=
  ∀ slot entry, bridge.table.slots slot = some entry → entry.lease < bridge.leaseCount ∧
    (bridge.leases entry.lease).id = ⟨slot, bridge.table.generations.slots slot⟩ ∧
    (bridge.leases entry.lease).sessionGeneration = bridge.table.sessionGeneration

/-- The invariant of the table between and inside the calls of the owner. -/
structure Sound (bridge : UdpBridge) : Prop where
  represents : bridge.table.Represents bridge.owner.reclaimed
  supported : bridge.owner.Supported bridge.table
  leased : bridge.Leased
  complete : bridge.table.fallbacks = 0

/-- The part of the invariant that holds wherever no slot is being reclaimed. -/
structure Steady (bridge : UdpBridge) : Prop where
  represents : bridge.table.Represents none
  leased : bridge.Leased
  complete : bridge.table.fallbacks = 0

variable {bridge before after : UdpBridge}

theorem Sound.steady (sound : bridge.Sound) (whole : bridge.owner.reclaimed = none) : bridge.Steady :=
  ⟨whole ▸ sound.represents, sound.leased, sound.complete⟩

theorem Steady.sound (steady : bridge.Steady) (whole : bridge.owner.reclaimed = none)
    (supported : bridge.owner.Supported bridge.table) : bridge.Sound :=
  ⟨whole ▸ steady.represents, supported, steady.leased, steady.complete⟩

theorem withOptions_sound (capacity : Nat) (idleMillis : Int) (filtering : UdpFiltering) (sessionGeneration : Nat) :
    (withOptions capacity idleMillis filtering sessionGeneration).Sound := by
  refine ⟨UdpTable.withOptions_represents capacity idleMillis filtering sessionGeneration, trivial, ?_, rfl⟩
  intro slot entry held
  cases held

def SameIdentities (before after : UdpBridge) : Prop :=
  ∀ lease, (after.leases lease).id = (before.leases lease).id ∧
    (after.leases lease).sessionGeneration = (before.leases lease).sessionGeneration

section

variable (bridge : UdpBridge)

theorem setPhase_identities (lease : Nat) (phase : LeasePhase) :
    bridge.SameIdentities (bridge.setPhase lease phase) := by
  intro other
  simp only [setPhase, update_apply]
  split
  · rename_i same
    simp [same]
  · simp

theorem setCommit_identities (lease : Nat) (commit : Option CommitRequest) :
    bridge.SameIdentities (bridge.setCommit lease commit) := by
  intro other
  simp only [setCommit, update_apply]
  split
  · rename_i same
    simp [same]
  · simp

theorem setPolicy_identities (lease : Nat) (policy : PeerPolicy) :
    bridge.SameIdentities (bridge.setPolicy lease policy) := by
  intro other
  simp only [setPolicy, update_apply]
  split
  · rename_i same
    simp [same]
  · simp

theorem refuse_leaseCount (lease : Nat) : (bridge.refuse lease).leaseCount = bridge.leaseCount := by
  unfold refuse
  split
  · rfl
  · rfl

theorem refuse_identities (lease : Nat) : bridge.SameIdentities (bridge.refuse lease) := by
  unfold refuse
  split
  · exact setCommit_identities bridge lease none
  · exact fun _ => ⟨rfl, rfl⟩

end

theorem Leased.keeps (leased : before.Leased) (keeps : before.table.Keeps after.table)
    (count : after.leaseCount = before.leaseCount) (same : before.SameIdentities after) : after.Leased := by
  intro slot entry held
  obtain ⟨old, inside, lease, generation, session⟩ := keeps slot entry held
  obtain ⟨counted, id, sameSession⟩ := leased slot old inside
  rw [lease] at counted id sameSession
  rw [count, (same entry.lease).1, (same entry.lease).2, generation, session]
  exact ⟨counted, id, sameSession⟩

theorem Leased.frame (leased : before.Leased) (table : after.table = before.table) (count : after.leaseCount = before.leaseCount)
    (same : before.SameIdentities after) : after.Leased :=
  leased.keeps (table ▸ UdpTable.Keeps.refl before.table) count same

theorem Steady.frame (steady : before.Steady) (table : after.table = before.table) (count : after.leaseCount = before.leaseCount)
    (same : before.SameIdentities after) : after.Steady :=
  ⟨table ▸ steady.represents, steady.leased.frame table count same, table ▸ steady.complete⟩

theorem Sound.frame (sound : before.Sound) (table : after.table = before.table) (owner : after.owner = before.owner)
    (count : after.leaseCount = before.leaseCount) (same : before.SameIdentities after) : after.Sound := by
  refine ⟨?_, ?_, sound.leased.frame table count same, table ▸ sound.complete⟩
  · rw [table, owner]
    exact sound.represents
  · rw [table, owner]
    exact sound.supported

theorem Steady.move (steady : bridge.Steady) {point : OwnerPoint} (whole : point.reclaimed = none)
    (supported : point.Supported bridge.table) : { bridge with owner := point }.Sound :=
  ⟨whole ▸ steady.represents, supported, steady.leased, steady.complete⟩

theorem resume_sound (steady : bridge.Steady) {next : Next} (ready : next.Ready bridge.table) : (bridge.resume next).Sound := by
  cases next with
  | done | expire nowMillis packet => exact steady.move rfl trivial
  | enter packet | invalidate slot newGeneration => exact steady.move rfl ready

theorem remove_sound (steady : bridge.Steady) {id : GenerationId} {next : Next} (removable : bridge.table.Removable id next) :
    (bridge.remove id next).Sound := by
  unfold UdpTable.Removable at removable
  unfold remove
  cases occupied : bridge.table.occupant id with
  | none =>
    simp only [occupied] at removable ⊢
    exact resume_sound steady removable
  | some entry =>
    simp only [occupied] at removable ⊢
    obtain ⟨current, held⟩ := UdpTable.occupant_eq_some.mp occupied
    have detached : { bridge with table := bridge.table.detach id entry, owner := .reclaiming id entry.lease next }.Sound := by
      refine ⟨steady.represents.detach held, ⟨current, ?_, removable⟩, ?_, steady.complete⟩
      · simp [UdpTable.detach]
      · exact steady.leased.keeps (UdpTable.detach_keeps bridge.table id entry) rfl fun _ => ⟨rfl, rfl⟩
    exact detached.frame rfl rfl rfl (setPhase_identities _ _ _)

theorem reclaim_sound (sound : bridge.Sound) {id : GenerationId} {lease : Nat} {next : Next}
    (point : bridge.owner = .reclaiming id lease next) : (bridge.reclaim id lease next).Sound := by
  have represents := sound.represents
  have supported := sound.supported
  rw [point] at represents supported
  obtain ⟨current, empty, ready⟩ := supported
  obtain ⟨slots, index, _, fallbacks, _⟩ := UdpTable.reclaim_storage current
  have steady : { bridge with table := bridge.table.reclaim id }.Steady := by
    refine ⟨represents.reclaim empty current, ?_, fallbacks.trans sound.complete⟩
    exact sound.leased.keeps (UdpTable.reclaim_keeps empty current) rfl fun _ => ⟨rfl, rfl⟩
  unfold reclaim
  refine resume_sound ?_ (Next.Ready.congr ready slots index)
  exact steady.frame rfl (refuse_leaseCount bridge lease) (refuse_identities bridge lease)

end UdpBridge

end Ferrum.Tun
