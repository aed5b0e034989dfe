import Mathlib.Data.Finset.Basic
import Ferrum.Lib.Bytes
import Ferrum.Lib.HashMap
import Ferrum.Shadowsocks.Clock
import Ferrum.Shadowsocks.UdpReplayRing

namespace Ferrum.Shadowsocks

def udpAssociationRetention : Nat := 60 * nanosPerSecond
def udpSessionIdAttempts : Nat := 8
def timestampLen : Nat := 8

/-- Opaque generation-bound response capability. -/
structure ServerResponseCapability where
  owner : Nat
  generation : Nat
  deriving DecidableEq, Repr

/-- Move-only authenticated identity of a prepared request. -/
structure UdpRequestCommit (SessionId : Type) where
  owner : Nat
  sessionId : SessionId
  packetId : PacketId

/-- The protocol state of one session; `live` closes the race of a lookup that outlives the
removal from the maps. -/
structure ServerSession (SessionId Peer : Type) where
  outbound : SessionId
  replay : UdpReplayWindow
  peer : Peer
  lastActivity : Nat
  live : Bool

/-- The session after a packet was committed to it. -/
def ServerSession.record {SessionId Peer : Type} (session : ServerSession SessionId Peer) (replay : UdpReplayWindow)
    (peer : Peer) (now : Nat) : ServerSession SessionId Peer :=
  { session with replay := replay, peer := peer, lastActivity := max session.lastActivity now }

/-- A map entry; `protocol` is the shared owner of the session, an index into the heap. -/
structure ServerSessionEntry (SessionId : Type) where
  capability : ServerResponseCapability
  outboundSessionId : SessionId
  protocol : Nat
  deriving DecidableEq

/-- The server with its maps and the heap of all sessions ever shared. -/
structure UdpServer (SessionId Peer : Type) where
  owner : Nat
  sessions : HashMap SessionId (ServerSessionEntry SessionId)
  capabilitySessions : HashMap ServerResponseCapability SessionId
  outboundSessionIds : Finset SessionId
  nextGeneration : Nat
  protocols : List (ServerSession SessionId Peer)

/-- The checks of `parse_body` on a request up to its timestamp, which it returns. -/
def parseRequestTimestamp (now : Nat) (body : List UInt8) : Except UdpPacketError Nat :=
  match body.head? with
  | none => .error .bounds
  | some messageType =>
    if messageType ≠ 0 then .error .type
    else if body.length < 1 + timestampLen then .error .bounds
    else
      let timestamp := beNat (slice body 1 (1 + timestampLen))
      if absDiff now timestamp > 30 then .error .timestamp else .ok timestamp

/-- One attempt of `commit_request`: it either returns, or found a dead session and loops. -/
inductive CommitProgress
  | returned (result : Except UdpPacketError ServerResponseCapability)
  | retry
  deriving DecidableEq

/-- The bounded draw of an outbound session ID. A source that fails early is a short list. -/
def generateUdpSessionId {SessionId : Type} (isLive : SessionId → Bool) : Nat → List SessionId → Option SessionId
  | 0, _ => none
  | _ + 1, [] => none
  | attempts + 1, candidate :: rest =>
    if isLive candidate then generateUdpSessionId isLive attempts rest else some candidate

namespace UdpServer

variable {SessionId Peer : Type} [DecidableEq SessionId]

def new (owner : Nat) : UdpServer SessionId Peer := ⟨owner, ∅, ∅, ∅, 1, []⟩

variable (server : UdpServer SessionId Peer)

/-- The branch of `commit_request` that creates the session. -/
def createSession (sessionId : SessionId) (packetId : PacketId) (peer : Peer) (now : Nat) (random : List SessionId) :
    UdpServer SessionId Peer × Except UdpPacketError ServerResponseCapability :=
  let generation := server.nextGeneration
  if 2 ^ 64 ≤ generation + 1 then (server, .error .generation)
  else
    let isLive candidate := candidate == sessionId || decide (candidate ∈ server.sessions) ||
      decide (candidate ∈ server.outboundSessionIds)
    match generateUdpSessionId isLive udpSessionIdAttempts random with
    | none => (server, .error .random)
    | some outbound =>
      match UdpReplayWindow.new.commit packetId with
      | none => (server, .error .stateUnavailable)
      | some (_, .error error) => (server, .error error)
      | some (replay, .ok ()) =>
        let capability := ⟨server.owner, generation⟩
        ({ server with
            nextGeneration := generation + 1
            capabilitySessions := server.capabilitySessions.insert capability sessionId
            outboundSessionIds := insert outbound server.outboundSessionIds
            sessions := server.sessions.insert sessionId ⟨capability, outbound, server.protocols.length⟩
            protocols := server.protocols ++ [⟨outbound, replay, peer, now, true⟩] }, .ok capability)

/-- The branch of `commit_request` that joins a session found in the map. -/
def joinSession (entry : ServerSessionEntry SessionId) (packetId : PacketId) (peer : Peer) (now : Nat) :
    UdpServer SessionId Peer × CommitProgress :=
  match server.protocols[entry.protocol]? with
  | none => (server, .returned (.error .stateUnavailable))
  | some session =>
    if !session.live then (server, .retry)
    else
      match session.replay.commit packetId with
      | none => (server, .returned (.error .stateUnavailable))
      | some (_, .error error) => (server, .returned (.error error))
      | some (replay, .ok ()) =>
        let protocols := server.protocols.set entry.protocol (session.record replay peer now)
        ({ server with protocols := protocols }, .returned (.ok entry.capability))

/-- One turn of the loop of `commit_request`. -/
def commitRequest (commit : UdpRequestCommit SessionId) (peer : Peer) (now : Nat) (random : List SessionId) :
    UdpServer SessionId Peer × CommitProgress :=
  if commit.owner ≠ server.owner then (server, .returned (.error .generation))
  else
    match server.sessions.lookup commit.sessionId with
    | none =>
      let (server, result) := server.createSession commit.sessionId commit.packetId peer now random
      (server, .returned result)
    | some entry => server.joinSession entry commit.packetId peer now

/-- Looks up a capability; `ok none` when it names no live generation. -/
def sessionByCapability (capability : ServerResponseCapability) : Except UdpPacketError (Option (SessionId × Nat)) :=
  if capability.owner ≠ server.owner then .error .generation
  else
    match server.capabilitySessions.lookup capability with
    | none => .ok none
    | some binding =>
      match server.sessions.lookup binding with
      | none => .error .stateUnavailable
      | some entry =>
        if entry.capability = capability then .ok (some (binding, entry.protocol)) else .error .stateUnavailable

/-- Removes an idle generation, only after the mandatory retention period. -/
def removeSession (capability : ServerResponseCapability) (now : Nat) :
    UdpServer SessionId Peer × Except UdpPacketError Bool :=
  match server.sessionByCapability capability with
  | .error error => (server, .error error)
  | .ok none => (server, .ok false)
  | .ok (some (binding, protocol)) =>
    match server.protocols[protocol]? with
    | none => (server, .error .stateUnavailable)
    | some session =>
      if !session.live || !((durationSince now session.lastActivity).any (udpAssociationRetention ≤ ·)) then
        (server, .ok false)
      else
        match server.capabilitySessions.lookup capability, server.sessions.lookup binding with
        | some current, some entry =>
          if current = binding ∧ entry.capability = capability ∧ entry.protocol = protocol then
            ({ server with
                capabilitySessions := server.capabilitySessions.erase capability
                sessions := server.sessions.erase binding
                outboundSessionIds := server.outboundSessionIds.erase entry.outboundSessionId
                protocols := server.protocols.set protocol { session with live := false } }, .ok true)
          else (server, .ok false)
        | _, _ => (server, .ok false)

end UdpServer

end Ferrum.Shadowsocks
