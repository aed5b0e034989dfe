import Ferrum.Lib.HashMap
import Ferrum.Tun.PacketRewrite
import Ferrum.Tun.PortQuarantine

namespace Ferrum.Tun

def maxRetiredIdentities : Nat := 65535 * 2

structure FlowTuple where
  source : SocketAddr
  target : SocketAddr
  deriving DecidableEq

structure ReverseTuple where
  listener : SocketAddr
  peer : SocketAddr
  deriving DecidableEq

def AddressFamily.fromIpFamily : IpFamily → AddressFamily
  | .ipv4 => .ipv4
  | .ipv6 => .ipv6

/-- The family of an address. -/
def IpAddr.addressFamily : IpAddr → AddressFamily
  | .v4 _ => .ipv4
  | .v6 _ => .ipv6

/-- A listener identity: its addresses are of its family. -/
structure Binding where
  family : AddressFamily
  listener : SocketAddr
  peer : IpAddr
  epoch : Nat
  listenerFamily : listener.ip.addressFamily = family
  peerFamily : peer.addressFamily = family

inductive ResetNotification
  | notRequired | awaitingKernelReset | awaitingDelivery | delivered
  deriving DecidableEq, Repr

/-- The lease of an accepted socket, of which the table reads the generation. -/
structure TcpSocketLease where
  generation : Nat
  deriving DecidableEq, Repr

structure Mapping where
  forward : FlowTuple
  reverse : ReverseTuple
  family : AddressFamily
  translatedPort : Port
  initialIsn : U32
  deadlineMillis : Int
  established : Bool
  applicationFin : Bool
  listenerFin : Bool
  closing : Bool
  resetNotification : ResetNotification
  socket : Option TcpSocketLease
  pendingFlow : Bool
  deriving DecidableEq

structure RetiredMapping where
  forwardPlan : RewritePlan
  reversePlan : RewritePlan
  reverse : ReverseTuple
  expiresAt : Int
  deriving DecidableEq

/-- What a bounded channel answers to `try_send`. -/
inductive SendResult
  | ok | full | closed
  deriving DecidableEq, Repr

/-- A socket that a listener has accepted, with the answers that it will meet: whether
`set_nodelay` works, and what the flow channel says. -/
structure AcceptedSocket where
  epoch : Nat
  listener : SocketAddr
  peer : SocketAddr
  nodelay : Bool
  send : SendResult

/-- What a call finds outside the table: the flag that sockets raise, as it is loaded and as it is
swapped, the flows that applications have dropped, the sockets whose fence fails, the accepted
sockets, and the answers of the flow channel. -/
structure TcpEnvironment where
  flowChanged : Bool
  flowSwapped : Bool
  flowDropped : Nat → Bool
  fenceFails : Nat → Bool
  accepted : List AcceptedSocket
  drainSend : Nat → SendResult
  droppedAccepts : Nat

/-- Owner-thread TCP tuple translation. The free slots are kept with the next one first; the last
field records whether every debug assertion and every `expect` has held so far. -/
structure SystemTcp where
  maxFlows : Nat
  timeoutMillis : Int
  generation : Nat
  nextEpoch : Nat
  fenced : Bool
  active : Nat
  resetOutputsPending : Nat
  activeDeadlineMillis : Option Int
  pendingSlots : List Nat
  slots : Nat → Option Mapping
  freeSlots : List Nat
  forward : HashMap FlowTuple Nat
  reverse : HashMap ReverseTuple Nat
  retiredForward : HashMap FlowTuple RetiredMapping
  retiredReverse : HashMap ReverseTuple FlowTuple
  retiredDeadlineMillis : Option Int
  bindings : List Binding
  quarantine : PortQuarantine
  lastNowMillis : Int
  assertsHeld : Bool

def deadline (nowMillis timeoutMillis : Int) : Int := saturatingAdd nowMillis timeoutMillis

/-- The earlier of a deadline and another that may be missing. -/
def minDeadline (current : Option Int) (other : Int) : Option Int :=
  some (match current with
    | none => other
    | some due => min due other)

def isDue (due : Option Int) (nowMillis : Int) : Bool :=
  match due with
  | none => false
  | some due => decide (due ≤ nowMillis)

namespace Mapping

variable (mapping : Mapping)

def forwardPlan : RewritePlan := ⟨mapping.reverse.peer, mapping.reverse.listener⟩

def reversePlan : RewritePlan := ⟨mapping.forward.target, mapping.forward.source⟩

def plan (applicationDirection : Bool) : RewritePlan :=
  if applicationDirection then mapping.forwardPlan else mapping.reversePlan

/-- What a packet does to its mapping while the table is not fenced. -/
def receive (applicationDirection : Bool) (flags : UInt8) (nowMillis timeoutMillis : Int) : Mapping :=
  let mapping := if mapping.established ∧ ¬mapping.closing then
      { mapping with deadlineMillis := deadline nowMillis timeoutMillis }
    else mapping
  let mapping := if flags &&& tcpFin ≠ 0 then
      let mapping := if applicationDirection then { mapping with applicationFin := true }
        else { mapping with listenerFin := true }
      { mapping with closing := mapping.applicationFin && mapping.listenerFin }
    else mapping
  if flags &&& tcpRst ≠ 0 then { mapping with closing := true, deadlineMillis := saturatingAdd nowMillis 1 } else mapping

def awaitsReset : Bool :=
  mapping.resetNotification == .awaitingKernelReset || mapping.resetNotification == .awaitingDelivery

end Mapping

namespace SystemTcp

/-- A fresh table; the timeout is a duration in milliseconds. -/
def new (maxFlows timeout generation : Nat) (quarantine : PortQuarantine) : SystemTcp where
  maxFlows
  timeoutMillis := min timeout i64Max
  generation
  nextEpoch := generation
  fenced := false
  active := 0
  resetOutputsPending := 0
  activeDeadlineMillis := none
  pendingSlots := []
  slots := fun _ => none
  freeSlots := List.range maxFlows
  forward := ∅
  reverse := ∅
  retiredForward := ∅
  retiredReverse := ∅
  retiredDeadlineMillis := none
  bindings := []
  quarantine
  lastNowMillis := 0
  assertsHeld := true

variable (system : SystemTcp)

def observeTime (nowMillis : Int) : SystemTcp :=
  { system with lastNowMillis := max system.lastNowMillis nowMillis }

def binding (system : SystemTcp) (family : AddressFamily) : Option Binding :=
  system.bindings.find? fun binding => binding.family == family

def setSlot (slot : Nat) (mapping : Option Mapping) : SystemTcp :=
  { system with slots := Function.update system.slots slot mapping }

def assert (held : Bool) : SystemTcp := { system with assertsHeld := system.assertsHeld && held }

def mappings : List Mapping := (List.range system.maxFlows).filterMap system.slots

/-- Keeps the rewrite of a retired mapping for its packets that are still under way. -/
def preserve (mapping : Mapping) (expiresAt : Int) : SystemTcp :=
  let retired : RetiredMapping := ⟨mapping.forwardPlan, mapping.reversePlan, mapping.reverse, expiresAt⟩
  { system.assert ((system.retiredReverse.lookup mapping.reverse).isNone &&
      (system.retiredForward.lookup mapping.forward).isNone) with
    retiredReverse := system.retiredReverse.insert mapping.reverse mapping.forward
    retiredForward := system.retiredForward.insert mapping.forward retired
    retiredDeadlineMillis := minDeadline system.retiredDeadlineMillis expiresAt }

/-- The part of `retire_slot` that takes the mapping out of the live tables. -/
def detach (slot : Nat) (mapping : Mapping) : SystemTcp :=
  { (system.setSlot slot none).assert (system.forward.lookup mapping.forward == some slot &&
      system.reverse.lookup mapping.reverse == some slot) with
    resetOutputsPending :=
      if mapping.resetNotification = .awaitingDelivery then system.resetOutputsPending - 1 else system.resetOutputsPending
    pendingSlots := if mapping.pendingFlow then system.pendingSlots.filter (· ≠ slot) else system.pendingSlots
    forward := system.forward.erase mapping.forward
    reverse := system.reverse.erase mapping.reverse
    freeSlots := slot :: system.freeSlots
    active := system.active - 1 }

def retireSlot (slot : Nat) (nowMillis : Int) (preserveRewrite : Bool) : SystemTcp :=
  match system.slots slot with
  | none => system
  | some mapping =>
    let system := system.detach slot mapping
    let system := if preserveRewrite ∧ system.retiredForward.len < maxRetiredIdentities then
        system.preserve mapping (saturatingAdd nowMillis portQuarantineMillis)
      else system
    { system with
      quarantine :=
        if preserveRewrite then system.quarantine.release mapping.family mapping.translatedPort nowMillis
        else system.quarantine.deferRelease mapping.family mapping.translatedPort }

/-- The number of retired mappings goes with the table. -/
def retireAll (nowMillis : Int) (preserveRewrite : Bool) : SystemTcp × Nat :=
  let (system, retired) := (List.range system.maxFlows).foldl (fun (state : SystemTcp × Nat) slot =>
    if (state.1.slots slot).isSome then (state.1.retireSlot slot nowMillis preserveRewrite, state.2 + 1) else state)
    (system, 0)
  ({ system with activeDeadlineMillis := none, pendingSlots := [] }, retired)

def retiredMin (retired : HashMap FlowTuple RetiredMapping) : Option Int := (retired.values.map RetiredMapping.expiresAt).min?

def recomputeRetiredDeadline : SystemTcp :=
  { system with retiredDeadlineMillis := retiredMin system.retiredForward }

/-- Takes an expired mapping out of the retired tables. -/
def dropRetired (forward : FlowTuple) (reverse : ReverseTuple) (expiresAt : Int) : SystemTcp :=
  let system := { system with
    retiredReverse := system.retiredReverse.erase reverse
    retiredForward := system.retiredForward.erase forward }
  if system.retiredDeadlineMillis = some expiresAt then system.recomputeRetiredDeadline else system

def retiredReversePlan (reverse : ReverseTuple) (nowMillis : Int) : SystemTcp × Option RewritePlan :=
  match system.retiredReverse.lookup reverse with
  | none => (system, none)
  | some forward =>
    match system.retiredForward.lookup forward with
    | none => ({ system with retiredReverse := system.retiredReverse.erase reverse }, none)
    | some mapping =>
      if nowMillis < mapping.expiresAt then (system, some mapping.reversePlan)
      else (system.dropRetired forward reverse mapping.expiresAt, none)

def retiredForwardPlan (forward : FlowTuple) (nowMillis : Int) : SystemTcp × Option RewritePlan :=
  match system.retiredForward.lookup forward with
  | none => (system, none)
  | some mapping =>
    if nowMillis < mapping.expiresAt then (system, some mapping.forwardPlan)
    else (system.dropRetired forward mapping.reverse mapping.expiresAt, none)

/-- The body of `retain` in `reap_retired` for an expired mapping. -/
def reapRetiredEntry (entry : Sigma fun _ : FlowTuple => RetiredMapping) : SystemTcp :=
  { system.assert (system.retiredReverse.lookup entry.2.reverse == some entry.1) with
    retiredReverse := system.retiredReverse.erase entry.2.reverse }

def reapRetired (nowMillis : Int) : SystemTcp × Bool :=
  if ¬isDue system.retiredDeadlineMillis nowMillis then (system, false)
  else
    let expired := system.retiredForward.entries.filter fun entry => decide (entry.2.expiresAt ≤ nowMillis)
    let kept := system.retiredForward.retain fun _ mapping => decide (nowMillis < mapping.expiresAt)
    ({ expired.foldl reapRetiredEntry system with
        retiredForward := kept
        retiredDeadlineMillis := retiredMin kept }, !expired.isEmpty)

end SystemTcp

def u64Max : Nat := 2 ^ 64 - 1
def listenerBindAttempts : Nat := 256

/-- An address on which to listen, with the derived peer and the ports that the system offers, one
for each attempt to bind. -/
structure ListenerOffer where
  family : AddressFamily
  address : IpAddr
  peer : IpAddr
  ports : List Port
  addressFamily : address.addressFamily = family
  peerFamily : peer.addressFamily = family

/-- What a rewrite leaves: the table, the packet and its answer. -/
structure Rewritten where
  system : SystemTcp
  packet : List UInt8
  result : Except TunRejectReason Unit

namespace PortQuarantine

/-- Binds on the first offered port that is free, among those of the allowed attempts. -/
def bindAvailable (quarantine : PortQuarantine) (offer : ListenerOffer) (epoch : Nat) :
    List Port → PortQuarantine × Option Binding
  | [] => (quarantine, none)
  | port :: rest =>
    let (quarantine, claimed) := quarantine.claim offer.family port
    if claimed then
      (quarantine, some ⟨offer.family, ⟨offer.address, port⟩, offer.peer, epoch, offer.addressFamily, offer.peerFamily⟩)
    else quarantine.bindAvailable offer epoch rest

def unclaimBindings (quarantine : PortQuarantine) (bindings : List Binding) : PortQuarantine :=
  bindings.foldl (fun quarantine binding => quarantine.unclaim binding.family binding.listener.port) quarantine

/-- Binds every offer in turn; a failure gives back what was claimed before. -/
def prepareListeners (epoch : Nat) : List ListenerOffer → PortQuarantine → List Binding → PortQuarantine × Option (List Binding)
  | [], quarantine, prepared => (quarantine, some prepared)
  | offer :: rest, quarantine, prepared =>
    match quarantine.bindAvailable offer epoch (offer.ports.take listenerBindAttempts) with
    | (quarantine, none) => (quarantine.unclaimBindings prepared, none)
    | (quarantine, some binding) => prepareListeners epoch rest quarantine (prepared ++ [binding])

end PortQuarantine

namespace SystemTcp

variable (system : SystemTcp)

/-- Starts the listeners of the configured families; `converted` tells whether the runtime takes
the bound sockets over. -/
def start (ipv4 ipv6 : Option ListenerOffer) (converted : Bool) : SystemTcp :=
  if system.fenced then system
  else if ¬system.bindings.isEmpty then system
  else
    let system := { system with nextEpoch := (system.nextEpoch + 1) % (u64Max + 1) }
    let offers := ipv4.toList ++ ipv6.toList
    if offers.isEmpty then system
    else
      match system.quarantine.prepareListeners system.nextEpoch offers [] with
      | (quarantine, none) => { system with quarantine }
      | (quarantine, some bindings) =>
        if converted then { system with quarantine, bindings }
        else { system with quarantine := quarantine.unclaimBindings bindings }

/-- The body of the loop of `process_accepts`. -/
def processAccept (nowMillis : Int) (system : SystemTcp) (accepted : AcceptedSocket) : SystemTcp :=
  match system.reverse.lookup ⟨accepted.listener, accepted.peer⟩ with
  | none => system
  | some slot =>
    match system.slots slot with
    | none => system
    | some mapping =>
      if ¬(¬system.fenced ∧ accepted.epoch = ((system.binding mapping.family).map Binding.epoch).getD 0 ∧
          mapping.socket = none ∧ ¬mapping.pendingFlow ∧ ¬mapping.closing ∧ nowMillis < mapping.deadlineMillis) ∨
          ¬accepted.nodelay then system
      else
        let mapping := { mapping with
          established := true
          deadlineMillis := deadline nowMillis system.timeoutMillis
          socket := some ⟨system.generation⟩ }
        match accepted.send with
        | .ok => system.setSlot slot (some mapping)
        | .full =>
          { system.setSlot slot (some { mapping with pendingFlow := true }) with
            pendingSlots := system.pendingSlots ++ [slot] }
        | .closed => (system.setSlot slot (some mapping)).retireSlot slot nowMillis true

def processAccepts (accepted : List AcceptedSocket) (nowMillis : Int) : SystemTcp × Bool :=
  ((accepted.take 16).foldl (processAccept nowMillis) system, !accepted.isEmpty)

/-- The loop of `drain_pending_flows`, for the remaining number of turns. -/
def drainLoop (send : Nat → SendResult) (nowMillis : Int) : Nat → SystemTcp → Bool → SystemTcp × Bool
  | 0, system, worked => (system, worked)
  | turns + 1, system, worked =>
    match system.pendingSlots with
    | [] => (system.assert false, worked)
    | slot :: rest =>
      let popped := { system with pendingSlots := rest }
      match system.slots slot with
      | none => drainLoop send nowMillis turns popped worked
      | some mapping =>
        if mapping.deadlineMillis ≤ nowMillis then
          drainLoop send nowMillis turns (popped.retireSlot slot nowMillis true) true
        else if ¬mapping.pendingFlow then drainLoop send nowMillis turns popped worked
        else
          let taken := popped.setSlot slot (some { mapping with pendingFlow := false })
          match send turns with
          | .ok => drainLoop send nowMillis turns taken true
          | .full => (system, worked)
          | .closed => drainLoop send nowMillis turns (taken.retireSlot slot nowMillis true) true

def drainPendingFlows (send : Nat → SendResult) (nowMillis : Int) : SystemTcp × Bool :=
  if system.fenced then (system, false)
  else drainLoop send nowMillis (min system.pendingSlots.length 16) system false

/-- The sweep of `expire` over the slots. -/
def expireSlots (flowDropped : Nat → Bool) (nowMillis : Int) : SystemTcp × Bool :=
  (List.range system.maxFlows).foldl (fun (state : SystemTcp × Bool) slot =>
    match state.1.slots slot with
    | none => state
    | some mapping =>
      if mapping.deadlineMillis ≤ nowMillis ∨ mapping.socket.isSome ∧ flowDropped slot then
        (state.1.retireSlot slot nowMillis true, true)
      else state) (system, false)

def recomputeActiveDeadline : SystemTcp :=
  { system with activeDeadlineMillis := (system.mappings.map Mapping.deadlineMillis).min? }

def expire (environment : TcpEnvironment) (nowMillis : Int) : SystemTcp × Bool :=
  let system := system.observeTime nowMillis
  let now := system.lastNowMillis
  let (system, accepts) := system.processAccepts environment.accepted now
  let (system, drained) := system.drainPendingFlows environment.drainSend now
  let (system, swept) := if environment.flowSwapped ∨ isDue system.activeDeadlineMillis now then
      let (system, swept) := system.expireSlots environment.flowDropped now
      (system.recomputeActiveDeadline, swept)
    else (system, false)
  let (system, reaped) := system.reapRetired now
  let (quarantine, freed) := system.quarantine.reap now
  ({ system with quarantine },
    accepts || drained || swept || reaped || freed || environment.droppedAccepts != 0)

def reject (packet : List UInt8) (reason : TunRejectReason) : Rewritten := ⟨system, packet, .error reason⟩

def rewriteTo (packet : List UInt8) (parsed : ParsedIpPacket) (plan : RewritePlan) : Rewritten :=
  let (packet, result) := rewriteTuple packet parsed plan
  ⟨system, packet, result⟩

def ackOnly (parsed : ParsedIpPacket) : Bool :=
  match parsed.transport with
  | .tcp tcp => tcp.flags == tcpAck && parsed.totalLen == parsed.transportOffset + tcp.headerLen
  | .udp _ => false

/-- The part of `rewrite_active` for a fenced table. -/
def rewriteFenced (packet : List UInt8) (parsed : ParsedIpPacket) (slot : Nat) (mapping : Mapping)
    (applicationDirection : Bool) (flags : UInt8) : Rewritten :=
  if ¬mapping.awaitsReset ∨ applicationDirection ∧ ¬ackOnly parsed then system.reject packet .staleGeneration
  else
    let system :=
      if ¬applicationDirection ∧ flags &&& tcpRst ≠ 0 ∧ mapping.resetNotification = .awaitingKernelReset then
        { system.setSlot slot (some { mapping with resetNotification := .awaitingDelivery }) with
          resetOutputsPending := system.resetOutputsPending + 1 }
      else system
    system.rewriteTo packet parsed (mapping.plan applicationDirection)

def rewriteActive (packet : List UInt8) (parsed : ParsedIpPacket) (slot : Nat) (applicationDirection : Bool) (flags : UInt8)
    (nowMillis : Int) : Rewritten :=
  match system.slots slot with
  -- the source panics here
  | none => (system.assert false).reject packet .staleGeneration
  | some mapping =>
    if system.fenced then system.rewriteFenced packet parsed slot mapping applicationDirection flags
    else
      let mapping := mapping.receive applicationDirection flags nowMillis system.timeoutMillis
      let system := { system.setSlot slot (some mapping) with
        activeDeadlineMillis := minDeadline system.activeDeadlineMillis mapping.deadlineMillis }
      system.rewriteTo packet parsed (mapping.plan applicationDirection)

/-- Puts a new mapping into a slot that was free. -/
def occupy (slot : Nat) (rest : List Nat) (mapping : Mapping) : SystemTcp :=
  { (system.setSlot slot (some mapping)).assert ((system.forward.lookup mapping.forward).isNone &&
      (system.reverse.lookup mapping.reverse).isNone) with
    freeSlots := rest
    activeDeadlineMillis := minDeadline system.activeDeadlineMillis mapping.deadlineMillis
    forward := system.forward.insert mapping.forward slot
    reverse := system.reverse.insert mapping.reverse slot
    active := system.active + 1 }

def freshMapping (forward : FlowTuple) (reverse : ReverseTuple) (family : AddressFamily) (translatedPort : Port)
    (initialIsn : U32) (deadlineMillis : Int) : Mapping :=
  ⟨forward, reverse, family, translatedPort, initialIsn, deadlineMillis, false, false, false, false, .notRequired, none, false⟩

/-- The part of `rewrite` for the first packet of a flow. -/
def admitFlow (packet : List UInt8) (parsed : ParsedIpPacket) (forward : FlowTuple) (sequence : U32) (nowMillis : Int) :
    Rewritten :=
  let system := (system.reapRetired nowMillis).1
  let family := AddressFamily.fromIpFamily parsed.family
  if system.maxFlows ≤ system.active then system.reject packet .tcpFlowLimit
  else
    match system.binding family with
    | none => system.reject packet .invalidDestination
    | some binding =>
      match system.quarantine.allocate family nowMillis with
      | (quarantine, none) => { system with quarantine }.reject packet .invalidDestination
      | (quarantine, some translatedPort) =>
        let reverse : ReverseTuple := ⟨binding.listener, ⟨binding.peer, translatedPort⟩⟩
        match system.freeSlots with
        | [] => { system with quarantine := quarantine.release family translatedPort nowMillis }.reject packet .tcpFlowLimit
        | slot :: rest =>
          let mapping := freshMapping forward reverse family translatedPort sequence (deadline nowMillis system.timeoutMillis)
          ({ system with quarantine }.occupy slot rest mapping).rewriteTo packet parsed ⟨reverse.peer, reverse.listener⟩

/-- The part of `rewrite` that looks for the mapping of a packet. -/
def route (packet : List UInt8) (parsed : ParsedIpPacket) (tcp : TcpMetadata) (sequence : U32) (admitting : Bool)
    (nowMillis : Int) : Rewritten :=
  let forward : FlowTuple := ⟨⟨parsed.source, tcp.sourcePort⟩, ⟨parsed.destination, tcp.destinationPort⟩⟩
  let reverse : ReverseTuple := ⟨forward.source, forward.target⟩
  match system.reverse.lookup reverse with
  | some slot => system.rewriteActive packet parsed slot false tcp.flags nowMillis
  | none =>
    match system.forward.lookup forward with
    | some slot =>
      if isInitialSyn tcp ∧ (system.slots slot).any (fun mapping => mapping.initialIsn != sequence) then
        system.reject packet .invalidDestination
      else system.rewriteActive packet parsed slot true tcp.flags nowMillis
    | none =>
      match system.retiredReversePlan reverse nowMillis with
      | (system, some plan) => system.rewriteTo packet parsed plan
      | (system, none) =>
        match system.retiredForwardPlan forward nowMillis with
        | (system, some plan) =>
          if isInitialSyn tcp then system.reject packet .invalidDestination else system.rewriteTo packet parsed plan
        | (system, none) =>
          if ¬isInitialSyn tcp then system.reject packet .invalidDestination
          else if system.fenced ∨ ¬admitting then system.reject packet .staleGeneration
          else system.admitFlow packet parsed forward sequence nowMillis

/-- The maintenance that a packet forces, when a mapping may have expired or a socket was dropped. -/
def maintain (environment : TcpEnvironment) (nowMillis : Int) : SystemTcp :=
  if ¬system.fenced ∧ (isDue system.activeDeadlineMillis nowMillis ∨ environment.flowChanged) then
    (system.expire environment nowMillis).1
  else system

def rewrite (environment : TcpEnvironment) (packet : List UInt8) (parsed : ParsedIpPacket) (admitting : Bool)
    (nowMillis : Int) : Rewritten :=
  let system := system.observeTime nowMillis
  let now := system.lastNowMillis
  let system := system.maintain environment now
  if ¬parsed.metadataMatches packet.length then system.reject packet .invalidIpLength
  else
    match parsed.transport with
    | .udp _ => system.reject packet .unsupportedIpProtocol
    | .tcp tcp =>
      match tcpSequence packet parsed.transportOffset with
      | .error reason => system.reject packet reason
      | .ok sequence => system.route packet parsed tcp sequence admitting now

def precedes (nextGeneration : Nat) (wraps : Bool) : Bool :=
  decide (system.generation < nextGeneration) || (system.generation == u64Max && nextGeneration == 0 && wraps)

/-- What `fence` does to a mapping. -/
def fenceMapping (flowDropped : Bool) (mapping : Mapping) : Mapping :=
  if ¬system.fenced ∧ ¬mapping.closing ∧ mapping.socket.isSome ∧ ¬flowDropped then
    { mapping with resetNotification := .awaitingKernelReset }
  else mapping

def fence (environment : TcpEnvironment) (nextGeneration : Nat) : SystemTcp × Except Unit Unit :=
  if ¬system.precedes nextGeneration true then (system, .error ())
  else
    let held := system.mappings.all fun mapping => mapping.socket.all fun socket => socket.generation == system.generation
    let failed := (List.range system.maxFlows).any fun slot =>
      (system.slots slot).any fun mapping => mapping.socket.isSome && environment.fenceFails slot
    ({ system.assert held with
        fenced := true
        slots := fun slot => (system.slots slot).map (system.fenceMapping (environment.flowDropped slot)) },
      if failed then .error () else .ok ())

def retire (nextGeneration : Nat) : SystemTcp × Nat :=
  if ¬system.precedes nextGeneration system.fenced then (system, 0)
  else
    let (system, retired) := system.retireAll system.lastNowMillis false
    ({ system with
        generation := nextGeneration
        fenced := true
        retiredForward := ∅
        retiredReverse := ∅
        retiredDeadlineMillis := none }, retired)

/-- A reset that has left through the device. -/
def resetOutputSent (parsed : ParsedIpPacket) : SystemTcp :=
  match parsed.transport with
  | .udp _ => system
  | .tcp tcp =>
    if tcp.flags &&& tcpRst = 0 then system
    else
      match system.forward.lookup ⟨⟨parsed.destination, tcp.destinationPort⟩, ⟨parsed.source, tcp.sourcePort⟩⟩ with
      | none => system
      | some slot =>
        match system.slots slot with
        -- the source panics here
        | none => system.assert false
        | some mapping =>
          if mapping.resetNotification = .awaitingDelivery then
            { system.setSlot slot (some { mapping with resetNotification := .delivered }) with
              resetOutputsPending := system.resetOutputsPending - 1 }
          else system

def stopAndJoin : SystemTcp :=
  { system with
    fenced := true
    bindings := []
    quarantine := system.bindings.foldl
      (fun quarantine binding => quarantine.deferRelease binding.family binding.listener.port) system.quarantine }

end SystemTcp

/-- The calls of the owner. The private `process_accepts` and `retire_all` run at the observed
time, as all their callers run them. -/
inductive TcpCall
  | start (ipv4 ipv6 : Option ListenerOffer) (converted : Bool)
  | rewrite (environment : TcpEnvironment) (packet : List UInt8) (parsed : ParsedIpPacket) (admitting : Bool) (nowMillis : Int)
  | expire (environment : TcpEnvironment) (nowMillis : Int)
  | processAccepts (accepted : List AcceptedSocket) (nowMillis : Int)
  | fence (environment : TcpEnvironment) (nextGeneration : Nat)
  | retire (nextGeneration : Nat)
  | retireAll (preserveRewrite : Bool)
  | resetOutputSent (parsed : ParsedIpPacket)
  | stopAndJoin

namespace SystemTcp

def step (system : SystemTcp) : TcpCall → SystemTcp
  | .start ipv4 ipv6 converted => system.start ipv4 ipv6 converted
  | .rewrite environment packet parsed admitting now => (system.rewrite environment packet parsed admitting now).system
  | .expire environment now => (system.expire environment now).1
  | .processAccepts accepted now =>
    ((system.observeTime now).processAccepts accepted (system.observeTime now).lastNowMillis).1
  | .fence environment nextGeneration => (system.fence environment nextGeneration).1
  | .retire nextGeneration => (system.retire nextGeneration).1
  | .retireAll preserveRewrite => (system.retireAll system.lastNowMillis preserveRewrite).1
  | .resetOutputSent parsed => system.resetOutputSent parsed
  | .stopAndJoin => system.stopAndJoin

def run (system : SystemTcp) (calls : List TcpCall) : SystemTcp := calls.foldl step system

end SystemTcp

end Ferrum.Tun
