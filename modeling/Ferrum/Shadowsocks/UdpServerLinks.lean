import Ferrum.Shadowsocks.UdpServerInvariant

namespace Ferrum.Shadowsocks

open Option

/-- Non-secret snapshot of one live server generation. -/
structure ServerSessionSnapshot (Peer : Type) where
  peer : Peer
  lastActivity : Nat
  highestPacketId : Option PacketId

/-- Why a call looks up a capability. -/
inductive LookupPurpose
  | encode
  | remove (now : Nat)
  | snapshot

/-- A call of the server. -/
inductive ServerCall (SessionId Peer : Type)
  | commitRequest (commit : UdpRequestCommit SessionId) (peer : Peer) (now : Nat)
  | byCapability (purpose : LookupPurpose) (capability : ServerResponseCapability)

/-- Where a thread stands between two locked regions of its call. A thread at `unlinking` holds the
lock of the session. -/
inductive ServerPoint (SessionId Peer : Type)
  | idle
  | committing (commit : UdpRequestCommit SessionId) (peer : Peer) (now : Nat)
  | joining (commit : UdpRequestCommit SessionId) (peer : Peer) (now : Nat) (entry : ServerSessionEntry SessionId)
  | looking (purpose : LookupPurpose) (capability : ServerResponseCapability)
  | encoding (capability : ServerResponseCapability) (protocol : Nat)
  | checking (capability : ServerResponseCapability) (now : Nat) (binding : SessionId) (protocol : Nat)
  | unlinking (capability : ServerResponseCapability) (binding : SessionId) (protocol : Nat)
  | reading (capability : ServerResponseCapability) (protocol : Nat)

/-- What a call returned. -/
inductive ServerReturn (SessionId Peer : Type)
  | committed (commit : UdpRequestCommit SessionId) (result : Except UdpPacketError ServerResponseCapability)
  | encoded (capability : ServerResponseCapability) (result : Except UdpPacketError (Nat × Peer))
  | removed (capability : ServerResponseCapability) (result : Except UdpPacketError Bool)
  | snapshot (capability : ServerResponseCapability) (result : Except UdpPacketError (Option (ServerSessionSnapshot Peer)))

/-- The server with any number of threads in its calls, the holders of the session locks, and the
log of what was returned. -/
structure ServerThreads (SessionId Peer : Type) where
  server : UdpServer SessionId Peer
  points : Nat → ServerPoint SessionId Peer
  locks : Nat → Option Nat
  returns : List (ServerReturn SessionId Peer)

/-- A thread enters a call, or runs the next locked region of its call. The source of randomness and
the outcome of `encode_packet` are given with the step. -/
inductive ServerEvent (SessionId Peer : Type)
  | call (thread : Nat) (call : ServerCall SessionId Peer)
  | region (thread : Nat) (random : List SessionId) (encoded : Except UdpPacketError Nat)

variable {SessionId Peer : Type}

variable (purpose : LookupPurpose)

/-- What a lookup returns that found nothing. -/
def LookupPurpose.absent (capability : ServerResponseCapability) : ServerReturn SessionId Peer :=
  match purpose with
  | .encode => .encoded capability (.error .generation)
  | .remove _ => .removed capability (.ok false)
  | .snapshot => .snapshot capability (.ok none)

def LookupPurpose.failed (capability : ServerResponseCapability) (error : UdpPacketError) : ServerReturn SessionId Peer :=
  match purpose with
  | .encode => .encoded capability (.error error)
  | .remove _ => .removed capability (.error error)
  | .snapshot => .snapshot capability (.error error)

/-- Where the call goes on with the session that the lookup keeps. -/
def LookupPurpose.found (capability : ServerResponseCapability) (binding : SessionId) (protocol : Nat) :
    ServerPoint SessionId Peer :=
  match purpose with
  | .encode => .encoding capability protocol
  | .remove now => .checking capability now binding protocol
  | .snapshot => .reading capability protocol

namespace UdpServer

variable [DecidableEq SessionId]

/-- The region of `remove_session` under both locks: the binding is checked again, then the session
is unlinked and marked dead. -/
def unlink (server : UdpServer SessionId Peer) (capability : ServerResponseCapability) (binding : SessionId) (protocol : Nat)
    (session : ServerSession SessionId Peer) : UdpServer SessionId Peer × Bool :=
  match server.capabilitySessions.lookup capability, server.sessions.lookup binding with
  | some current, some entry =>
    if current = binding ∧ entry.capability = capability ∧ entry.protocol = protocol then
      ({ server with
          capabilitySessions := server.capabilitySessions.erase capability
          sessions := server.sessions.erase binding
          outboundSessionIds := server.outboundSessionIds.erase entry.outboundSessionId
          protocols := server.protocols.set protocol { session with live := false } }, true)
    else (server, false)
  | _, _ => (server, false)

end UdpServer

namespace ServerThreads

variable [DecidableEq SessionId]

def new (owner : Nat) : ServerThreads SessionId Peer := ⟨.new owner, fun _ => .idle, fun _ => none, []⟩

variable (system : ServerThreads SessionId Peer)

section

variable (thread : Nat)

def goto (point : ServerPoint SessionId Peer) : ServerThreads SessionId Peer :=
  { system with points := Function.update system.points thread point }

def finish (result : ServerReturn SessionId Peer) : ServerThreads SessionId Peer :=
  { system.goto thread .idle with returns := system.returns ++ [result] }

/-- The region of `commit_request` under the map lock. -/
def commitRegion (commit : UdpRequestCommit SessionId) (peer : Peer) (now : Nat) (random : List SessionId) :
    ServerThreads SessionId Peer :=
  match system.server.sessions.lookup commit.sessionId with
  | some entry => system.goto thread (.joining commit peer now entry)
  | none =>
    let created := system.server.createSession commit.sessionId commit.packetId peer now random
    { system with server := created.1 }.finish thread (.committed commit created.2)

/-- The region of `commit_request` under the lock of the session that it found. -/
def joinRegion (commit : UdpRequestCommit SessionId) (peer : Peer) (now : Nat)
    (entry : ServerSessionEntry SessionId) : ServerThreads SessionId Peer :=
  match system.server.joinSession entry commit.packetId peer now with
  | (_, .retry) => system.goto thread (.committing commit peer now)
  | (server, .returned result) => { system with server := server }.finish thread (.committed commit result)

/-- `session_by_capability`, the first region of the other calls. -/
def lookRegion (purpose : LookupPurpose) (capability : ServerResponseCapability) :
    ServerThreads SessionId Peer :=
  match system.server.sessionByCapability capability with
  | .error error => system.finish thread (purpose.failed capability error)
  | .ok none => system.finish thread (purpose.absent capability)
  | .ok (some (binding, protocol)) => system.goto thread (purpose.found capability binding protocol)

section

variable (capability : ServerResponseCapability)

/-- `encode_response` under the lock of the session. -/
def encodeRegion (session : ServerSession SessionId Peer)
    (encoded : Except UdpPacketError Nat) : ServerThreads SessionId Peer :=
  if session.live then system.finish thread (.encoded capability (encoded.map fun wireLen => (wireLen, session.peer)))
  else system.finish thread (.encoded capability (.error .generation))

/-- `remove_session` up to where it takes the map lock; it keeps the lock of the session. -/
def checkRegion (now : Nat) (binding : SessionId) (protocol : Nat)
    (session : ServerSession SessionId Peer) : ServerThreads SessionId Peer :=
  if !session.live || !((durationSince now session.lastActivity).any (udpAssociationRetention ≤ ·)) then
    system.finish thread (.removed capability (.ok false))
  else { system.goto thread (.unlinking capability binding protocol) with locks := Function.update system.locks protocol (some thread) }

def unlinkRegion (binding : SessionId) (protocol : Nat)
    (session : ServerSession SessionId Peer) : ServerThreads SessionId Peer :=
  let unlinked := system.server.unlink capability binding protocol session
  { system with server := unlinked.1, locks := Function.update system.locks protocol none }.finish thread
    (.removed capability (.ok unlinked.2))

def readRegion (session : ServerSession SessionId Peer) :
    ServerThreads SessionId Peer :=
  if session.live then
    system.finish thread (.snapshot capability (.ok (some ⟨session.peer, session.lastActivity, session.replay.highest⟩)))
  else system.finish thread (.snapshot capability (.ok none))

end

end

/-- A region under the lock of a session; a thread waits while another holds the lock. -/
def locked (protocol : Nat) (region : ServerSession SessionId Peer → ServerThreads SessionId Peer) :
    ServerThreads SessionId Peer :=
  match system.locks protocol, system.server.protocols[protocol]? with
  | none, some session => region session
  | _, _ => system

/-- The next region of a thread. -/
def region (thread : Nat) (random : List SessionId) (encoded : Except UdpPacketError Nat) : ServerThreads SessionId Peer :=
  match system.points thread with
  | .idle => system
  | .committing commit peer now => system.commitRegion thread commit peer now random
  | .joining commit peer now entry => system.locked entry.protocol fun _ => system.joinRegion thread commit peer now entry
  | .looking purpose capability => system.lookRegion thread purpose capability
  | .encoding capability protocol => system.locked protocol fun session => system.encodeRegion thread capability session encoded
  | .checking capability now binding protocol =>
    system.locked protocol fun session => system.checkRegion thread capability now binding protocol session
  | .unlinking capability binding protocol =>
    match system.server.protocols[protocol]? with
    | some session => system.unlinkRegion thread capability binding protocol session
    | none => system
  | .reading capability protocol => system.locked protocol fun session => system.readRegion thread capability session

/-- The start of a call; a commit of another server is refused at once. -/
def enter (thread : Nat) : ServerCall SessionId Peer → ServerThreads SessionId Peer
  | .commitRequest commit peer now =>
    if commit.owner ≠ system.server.owner then system.finish thread (.committed commit (.error .generation))
    else system.goto thread (.committing commit peer now)
  | .byCapability purpose capability => system.goto thread (.looking purpose capability)

def step : ServerEvent SessionId Peer → ServerThreads SessionId Peer
  | .call thread call =>
    match system.points thread with
    | .idle => system.enter thread call
    | _ => system
  | .region thread random encoded => system.region thread random encoded

def run (events : List (ServerEvent SessionId Peer)) : ServerThreads SessionId Peer :=
  events.foldl step system

end ServerThreads

variable {SessionId Peer : Type} [DecidableEq SessionId]

omit [DecidableEq SessionId] in
theorem generateUdpSessionId_eq_some {isLive : SessionId → Bool} {attempts : Nat} {random : List SessionId} {id : SessionId}
    (drawn : generateUdpSessionId isLive attempts random = some id) : isLive id = false := by
  induction attempts generalizing random with
  | zero => simp [generateUdpSessionId] at drawn
  | succ attempts ih =>
    cases random with
    | nil => simp [generateUdpSessionId] at drawn
    | cons candidate rest =>
      simp only [generateUdpSessionId] at drawn
      split at drawn
      · exact ih drawn
      · rename_i free
        cases drawn
        simpa using free

namespace UdpServer

/-- The server with one more session. -/
def withSession (server : UdpServer SessionId Peer) (sessionId outbound : SessionId) (session : ServerSession SessionId Peer) :
    UdpServer SessionId Peer :=
  { server with
    nextGeneration := server.nextGeneration + 1
    capabilitySessions := server.capabilitySessions.insert ⟨server.owner, server.nextGeneration⟩ sessionId
    outboundSessionIds := insert outbound server.outboundSessionIds
    sessions := server.sessions.insert sessionId ⟨⟨server.owner, server.nextGeneration⟩, outbound, server.protocols.length⟩
    protocols := server.protocols ++ [session] }

/-- The server without a session, which is marked dead. -/
def withoutSession (server : UdpServer SessionId Peer) (binding : SessionId) (entry : ServerSessionEntry SessionId)
    (session : ServerSession SessionId Peer) : UdpServer SessionId Peer :=
  { server with
    capabilitySessions := server.capabilitySessions.erase entry.capability
    sessions := server.sessions.erase binding
    outboundSessionIds := server.outboundSessionIds.erase entry.outboundSessionId
    protocols := server.protocols.set entry.protocol { session with live := false } }

theorem createSession_eq (server : UdpServer SessionId Peer) (sessionId : SessionId) (packetId : PacketId) (peer : Peer)
    (now : Nat) (random : List SessionId) :
    (∃ error, server.createSession sessionId packetId peer now random = (server, .error error)) ∨
    (∃ outbound replay, outbound ≠ sessionId ∧ outbound ∉ server.sessions ∧ outbound ∉ server.outboundSessionIds ∧
      replay.Represents [packetId] ∧ server.createSession sessionId packetId peer now random =
        (server.withSession sessionId outbound ⟨outbound, replay, peer, now, true⟩, .ok ⟨server.owner, server.nextGeneration⟩)) := by
  unfold createSession
  dsimp only
  split
  · exact .inl ⟨_, rfl⟩
  split
  · exact .inl ⟨_, rfl⟩
  · rename_i outbound drawn
    obtain ⟨committed, run, success, _⟩ := UdpReplayWindow.new_represents.commit_spec packetId
    have ok : UdpReplayWindow.specCheck UdpReplayWindow.new.highest [] packetId = .ok () := rfl
    rw [ok] at run
    rw [run]
    have free := generateUdpSessionId_eq_some drawn
    simp only [Bool.or_eq_false_iff, beq_eq_false_iff_ne, decide_eq_false_iff_not] at free
    exact .inr ⟨outbound, committed, free.1.1, free.1.2, free.2, success ok, rfl⟩

/-- The maps fit together. `origins` says for each session in the heap, dead or alive, for which
client and under which capability it was created. -/
structure Linked (server : UdpServer SessionId Peer) (origins : List (SessionId × ServerResponseCapability)) : Prop where
  size : origins.length = server.protocols.length
  entries : ∀ sessionId entry, server.sessions.lookup sessionId = some entry →
    origins[entry.protocol]? = some (sessionId, entry.capability) ∧
      ∃ session, server.protocols[entry.protocol]? = some session ∧ session.live = true
  live : ∀ protocol session, server.protocols[protocol]? = some session → session.live = true →
    ∃ sessionId entry, server.sessions.lookup sessionId = some entry ∧ entry.protocol = protocol
  inverse : ∀ capability sessionId, server.capabilitySessions.lookup capability = some sessionId ↔
    ∃ entry, server.sessions.lookup sessionId = some entry ∧ entry.capability = capability
  outbound : ∀ id, id ∈ server.outboundSessionIds ↔
    ∃ sessionId entry, server.sessions.lookup sessionId = some entry ∧ entry.outboundSessionId = id
  outboundOnce : ∀ sessionId other entry another, server.sessions.lookup sessionId = some entry →
    server.sessions.lookup other = some another → entry.outboundSessionId = another.outboundSessionId → sessionId = other
  owned : ∀ origin ∈ origins, origin.2.owner = server.owner ∧ origin.2.generation < server.nextGeneration
  distinct : (origins.map Prod.snd).Nodup

variable {server : UdpServer SessionId Peer} {origins : List (SessionId × ServerResponseCapability)}

theorem new_linked (owner : Nat) : (new owner : UdpServer SessionId Peer).Linked [] := by
  refine ⟨rfl, ?_, ?_, ?_, ?_, ?_, ?_, ?_⟩ <;> simp [new]

section

variable (linked : server.Linked origins)
include linked

variable {session : ServerSession SessionId Peer} {sessionId : SessionId}

theorem Linked.live_entry {protocol : Nat}
    (found : server.protocols[protocol]? = some session) (live : session.live = true)
    {capability : ServerResponseCapability} (origin : origins[protocol]? = some (sessionId, capability)) :
    ∃ entry, server.sessions.lookup sessionId = some entry ∧ entry.protocol = protocol ∧ entry.capability = capability := by
  obtain ⟨other, entry, atOther, rfl⟩ := linked.live protocol session found live
  have same := (linked.entries other entry atOther).1
  rw [origin] at same
  cases same
  exact ⟨entry, atOther, rfl, rfl⟩

theorem Linked.fresh_capability {entry : ServerSessionEntry SessionId}
    (atEntry : server.sessions.lookup sessionId = some entry) :
    entry.capability ≠ ⟨server.owner, server.nextGeneration⟩ := by
  intro same
  have older := (linked.owned _ (List.mem_of_getElem? (linked.entries sessionId entry atEntry).1)).2
  simp [same] at older

theorem Linked.create {outbound : SessionId}
    (absent : server.sessions.lookup sessionId = none) (unused : outbound ∉ server.outboundSessionIds) (live : session.live = true) :
    (server.withSession sessionId outbound session).Linked (origins ++ [(sessionId, ⟨server.owner, server.nextGeneration⟩)]) := by
  have looked : ∀ other, (server.withSession sessionId outbound session).sessions.lookup other =
      if other = sessionId then some ⟨⟨server.owner, server.nextGeneration⟩, outbound, server.protocols.length⟩
      else server.sessions.lookup other := fun other => HashMap.lookup_insert_eq _ _ _ _
  have old : ∀ other entry, server.sessions.lookup other = some entry → other ≠ sessionId := by
    rintro other entry atOther rfl
    simp [absent] at atOther
  refine ⟨?_, ?_, ?_, ?_, ?_, ?_, ?_, ?_⟩
  · simp [withSession, linked.size]
  · intro other entry atOther
    rw [looked] at atOther
    split at atOther
    · rename_i same
      cases atOther
      subst same
      refine ⟨?_, session, ?_, live⟩
      · simp [← linked.size]
      · simp [withSession]
    · obtain ⟨origin, found, inside, alive⟩ := linked.entries other entry atOther
      refine ⟨?_, found, ?_, alive⟩
      · rw [List.getElem?_append_left (List.getElem?_eq_some_iff.mp origin).1, origin]
      · exact (List.getElem?_append_left (List.getElem?_eq_some_iff.mp inside).1).trans inside
  · intro protocol found inside alive
    by_cases isNew : protocol = server.protocols.length
    · refine ⟨sessionId, ⟨⟨server.owner, server.nextGeneration⟩, outbound, server.protocols.length⟩, ?_, isNew.symm⟩
      rw [looked, if_pos rfl]
    · have bound : protocol < server.protocols.length := by
        have length := (List.getElem?_eq_some_iff.mp inside).1
        simp only [withSession, List.length_append, List.length_singleton] at length
        omega
      have before : server.protocols[protocol]? = some found := (List.getElem?_append_left bound).symm.trans inside
      obtain ⟨other, entry, atOther, pointer⟩ := linked.live protocol found before alive
      exact ⟨other, entry, by rw [looked, if_neg (old other entry atOther)]; exact atOther, pointer⟩
  · intro capability other
    rw [looked]
    simp only [withSession, HashMap.lookup_insert_eq]
    by_cases isNew : capability = ⟨server.owner, server.nextGeneration⟩
    · rw [if_pos isNew]
      constructor
      · intro same
        cases same
        exact ⟨_, if_pos rfl, isNew.symm⟩
      · rintro ⟨entry, atOther, same⟩
        split at atOther
        · rename_i here
          rw [here]
        · exact absurd (same.trans isNew) (linked.fresh_capability atOther)
    · rw [if_neg isNew, linked.inverse]
      constructor
      · rintro ⟨entry, atOther, same⟩
        exact ⟨entry, (if_neg (old other entry atOther)).trans atOther, same⟩
      · rintro ⟨entry, atOther, same⟩
        split at atOther
        · cases atOther
          exact absurd same.symm isNew
        · exact ⟨entry, atOther, same⟩
  · intro id
    simp only [withSession, Finset.mem_insert, linked.outbound]
    constructor
    · rintro (rfl | ⟨other, entry, atOther, same⟩)
      · exact ⟨sessionId, _, (looked sessionId).trans (if_pos rfl), rfl⟩
      · exact ⟨other, entry, (looked other).trans ((if_neg (old other entry atOther)).trans atOther), same⟩
    · rintro ⟨other, entry, atOther, same⟩
      have atOther := (looked other).symm.trans atOther
      split at atOther
      · cases atOther
        exact .inl same.symm
      · exact .inr ⟨other, entry, atOther, same⟩
  · have unlike : ∀ other entry, server.sessions.lookup other = some entry → entry.outboundSessionId ≠ outbound := by
      rintro other entry atOther rfl
      exact unused ((linked.outbound _).mpr ⟨other, entry, atOther, rfl⟩)
    intro first second firstEntry secondEntry atFirst atSecond same
    rw [looked] at atFirst atSecond
    split at atFirst
    · rename_i isFirst
      split at atSecond
      · rename_i isSecond
        rw [isFirst, isSecond]
      · cases atFirst
        exact absurd same.symm (unlike second secondEntry atSecond)
    · split at atSecond
      · cases atSecond
        exact absurd same (unlike first firstEntry atFirst)
      · exact linked.outboundOnce first second firstEntry secondEntry atFirst atSecond same
  · intro origin member
    rcases List.mem_append.mp member with before | isNew
    · obtain ⟨owner, generation⟩ := linked.owned origin before
      exact ⟨owner, Nat.lt_succ_of_lt generation⟩
    · cases List.mem_singleton.mp isNew
      exact ⟨rfl, Nat.lt_succ_self _⟩
  · rw [List.map_append, List.nodup_append]
    refine ⟨linked.distinct, by simp, ?_⟩
    intro capability member other isNew same
    obtain ⟨origin, inside, rfl⟩ := List.mem_map.mp member
    have older := (linked.owned origin inside).2
    rw [same, List.mem_singleton.mp isNew] at older
    exact Nat.lt_irrefl _ older

theorem Linked.write {protocol : Nat} {session written : ServerSession SessionId Peer}
    (found : server.protocols[protocol]? = some session) (live : session.live = written.live) :
    { server with protocols := server.protocols.set protocol written }.Linked origins := by
  have cell := protocols_set found written
  refine ⟨by simp [linked.size], ?_, ?_, linked.inverse, linked.outbound, linked.outboundOnce, linked.owned, linked.distinct⟩
  · intro sessionId entry atEntry
    obtain ⟨origin, old, inside, alive⟩ := linked.entries sessionId entry atEntry
    refine ⟨origin, ?_⟩
    simp only [cell]
    by_cases same : protocol = entry.protocol
    · subst same
      cases some.inj (found.symm.trans inside)
      rw [if_pos rfl]
      exact ⟨written, rfl, live ▸ alive⟩
    · rw [if_neg same]
      exact ⟨old, inside, alive⟩
  · intro other now inside alive
    simp only [cell] at inside
    split at inside
    · rename_i same
      subst same
      cases inside
      exact linked.live protocol session found (live.trans alive)
    · exact linked.live other now inside alive

theorem Linked.unlink {binding : SessionId} {entry : ServerSessionEntry SessionId}
    (atBinding : server.sessions.lookup binding = some entry)
    (found : server.protocols[entry.protocol]? = some session) :
    (server.withoutSession binding entry session).Linked origins := by
  have cell := protocols_set found { session with live := false }
  have looked : ∀ other, (server.sessions.erase binding).lookup other =
      if other = binding then none else server.sessions.lookup other := fun other => HashMap.lookup_erase_eq _ _ _
  have apart : ∀ other another, server.sessions.lookup other = some another → other ≠ binding →
      entry.protocol ≠ another.protocol ∧ another.capability ≠ entry.capability ∧
        another.outboundSessionId ≠ entry.outboundSessionId := by
    intro other another atOther different
    refine ⟨fun same => ?_, fun same => ?_, fun same => ?_⟩
    · have first := (linked.entries binding entry atBinding).1
      rw [same, (linked.entries other another atOther).1] at first
      exact different (congrArg Prod.fst (some.inj first))
    · have first := (linked.inverse entry.capability binding).mpr ⟨entry, atBinding, rfl⟩
      rw [(linked.inverse entry.capability other).mpr ⟨another, atOther, same⟩] at first
      exact different (some.inj first)
    · exact different (linked.outboundOnce other binding another entry atOther atBinding same)
  refine ⟨by simp [withoutSession, linked.size], ?_, ?_, ?_, ?_, ?_, linked.owned, linked.distinct⟩
  · intro other another atOther
    simp only [withoutSession, looked] at atOther
    split at atOther
    · cases atOther
    · rename_i different
      obtain ⟨origin, old, inside, alive⟩ := linked.entries other another atOther
      refine ⟨origin, old, ?_, alive⟩
      simp only [withoutSession, cell]
      rw [if_neg (apart other another atOther different).1]
      exact inside
  · intro protocol now inside alive
    simp only [withoutSession, cell] at inside
    split at inside
    · cases inside
      cases alive
    · rename_i different
      obtain ⟨other, another, atOther, pointer⟩ := linked.live protocol now inside alive
      refine ⟨other, another, ?_, pointer⟩
      refine (looked other).trans ((if_neg ?_).trans atOther)
      · rintro rfl
        cases some.inj (atBinding.symm.trans atOther)
        exact different pointer
  · intro capability other
    simp only [withoutSession, looked, HashMap.lookup_erase_eq]
    constructor
    · intro atCapability
      split at atCapability
      · cases atCapability
      · rename_i different
        obtain ⟨another, atOther, same⟩ := (linked.inverse capability other).mp atCapability
        refine ⟨another, (if_neg ?_).trans atOther, same⟩
        rintro rfl
        cases some.inj (atBinding.symm.trans atOther)
        exact different same.symm
    · rintro ⟨another, atOther, same⟩
      split at atOther
      · cases atOther
      · rename_i different
        rw [if_neg (same ▸ (apart other another atOther different).2.1)]
        exact (linked.inverse capability other).mpr ⟨another, atOther, same⟩
  · intro id
    simp only [withoutSession, Finset.mem_erase, linked.outbound, looked]
    constructor
    · rintro ⟨different, other, another, atOther, same⟩
      refine ⟨other, another, (if_neg ?_).trans atOther, same⟩
      rintro rfl
      cases some.inj (atBinding.symm.trans atOther)
      exact different same.symm
    · rintro ⟨other, another, atOther, same⟩
      split at atOther
      · cases atOther
      · rename_i different
        exact ⟨same ▸ (apart other another atOther different).2.2, other, another, atOther, same⟩
  · intro first second firstEntry secondEntry atFirst atSecond same
    simp only [withoutSession, looked] at atFirst atSecond
    split at atFirst
    · cases atFirst
    · split at atSecond
      · cases atSecond
      · exact linked.outboundOnce first second firstEntry secondEntry atFirst atSecond same

end

end UdpServer

end Ferrum.Shadowsocks
