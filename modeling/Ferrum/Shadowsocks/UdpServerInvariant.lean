import Ferrum.Shadowsocks.UdpServer

namespace Ferrum.Shadowsocks.UdpServer

open Option

variable {SessionId Peer : Type} [DecidableEq SessionId]

/-- The map entry of a session ID names its own live session, whose window stands for some
set of accepted packet IDs. -/
structure SessionsLive (server : UdpServer SessionId Peer) : Prop where
  live : ∀ sessionId entry, server.sessions.lookup sessionId = some entry →
    ∃ session accepted, server.protocols[entry.protocol]? = some session ∧ session.live = true ∧
      session.replay.Represents accepted
  injective : ∀ first second entry other, server.sessions.lookup first = some entry →
    server.sessions.lookup second = some other → entry.protocol = other.protocol → first = second

variable (server : UdpServer SessionId Peer)

/-- Session `sessionId` refuses `packetId` and was active at `instant` or later. -/
def Retains (sessionId : SessionId) (packetId : PacketId) (instant : Nat) : Prop :=
  ∃ entry session, server.sessions.lookup sessionId = some entry ∧
    server.protocols[entry.protocol]? = some session ∧ session.replay.Refuses packetId ∧
    instant ≤ session.lastActivity

theorem new_sessionsLive (owner : Nat) : SessionsLive (new owner : UdpServer SessionId Peer) where
  live := by simp [new]
  injective := by simp [new]

theorem createSession_cases (sessionId : SessionId) (packetId : PacketId) (peer : Peer) (now : Nat)
    (random : List SessionId) :
    (∃ error, server.createSession sessionId packetId peer now random = (server, .error error)) ∨
    (∃ next capability outbound replay, server.createSession sessionId packetId peer now random = (next, .ok capability) ∧
      next.sessions = server.sessions.insert sessionId ⟨capability, outbound, server.protocols.length⟩ ∧
      next.protocols = server.protocols ++ [⟨outbound, replay, peer, now, true⟩] ∧
      replay.Represents [packetId]) := by
  unfold createSession
  dsimp only
  split
  · exact .inl ⟨_, rfl⟩
  split
  · exact .inl ⟨_, rfl⟩
  · rename_i outbound _
    obtain ⟨committed, run, success, _⟩ := UdpReplayWindow.new_represents.commit_spec packetId
    have ok : UdpReplayWindow.specCheck UdpReplayWindow.new.highest [] packetId = .ok () := rfl
    rw [ok] at run
    rw [run]
    exact .inr ⟨_, _, outbound, committed, rfl, rfl, rfl, success ok⟩

variable {entry : ServerSessionEntry SessionId} {session : ServerSession SessionId Peer} {accepted : List PacketId}

omit [DecidableEq SessionId] in
theorem joinSession_cases {server : UdpServer SessionId Peer}
    (found : server.protocols[entry.protocol]? = some session) (live : session.live = true)
    (rep : session.replay.Represents accepted) (packetId : PacketId) (peer : Peer) (now : Nat) :
    (∃ error, server.joinSession entry packetId peer now = (server, .returned (.error error))) ∨
    (¬session.replay.Refuses packetId ∧ ∃ replay, replay.Represents (accepted ++ [packetId]) ∧
      server.joinSession entry packetId peer now =
        ({ server with protocols := server.protocols.set entry.protocol (session.record replay peer now) },
          .returned (.ok entry.capability))) := by
  obtain ⟨committed, run, success, _⟩ := rep.commit_spec packetId
  unfold joinSession
  simp only [found, live, Bool.not_true, Bool.false_eq_true, if_false]
  cases answer : UdpReplayWindow.specCheck session.replay.highest accepted packetId with
  | error error =>
    rw [answer] at run
    rw [run]
    exact .inl ⟨error, rfl⟩
  | ok =>
    rw [answer] at run
    rw [run]
    have allowed : ¬session.replay.Refuses packetId := by
      rw [UdpReplayWindow.Refuses, rep.check_eq, answer]
      simp
    exact .inr ⟨allowed, committed, success answer, rfl⟩

theorem removeSession_cases (capability : ServerResponseCapability) (now : Nat) :
    (server.removeSession capability now).1 = server ∨
    (∃ binding entry session, server.sessions.lookup binding = some entry ∧
      server.protocols[entry.protocol]? = some session ∧
      session.lastActivity + udpAssociationRetention ≤ now ∧
      (server.removeSession capability now).1.sessions = server.sessions.erase binding ∧
      (server.removeSession capability now).1.protocols =
        server.protocols.set entry.protocol { session with live := false }) := by
  unfold removeSession
  split
  · exact .inl rfl
  · exact .inl rfl
  · rename_i binding protocol _
    split
    · exact .inl rfl
    · rename_i session found
      split
      · exact .inl rfl
      · rename_i idle
        split
        · rename_i current entry _ atBinding
          split
          · rename_i matching
            obtain ⟨_, _, rfl⟩ := matching
            refine .inr ⟨binding, entry, session, atBinding, found, ?_, rfl, rfl⟩
            simp only [Bool.or_eq_true, Bool.not_eq_true', not_or, Bool.not_eq_false] at idle
            obtain ⟨age, since, old⟩ := (any_eq_true _ _).mp idle.2
            unfold durationSince at since
            split at since
            · cases since
              simp only [decide_eq_true_eq] at old
              omega
            · simp at since
          · exact .inl rfl
        · exact .inl rfl

theorem SessionsLive.create {server next : UdpServer SessionId Peer} (inv : server.SessionsLive)
    {sessionId : SessionId} (absent : server.sessions.lookup sessionId = none)
    (sessions : next.sessions = server.sessions.insert sessionId entry)
    (protocols : next.protocols = server.protocols ++ [session]) (pointer : entry.protocol = server.protocols.length)
    (live : session.live = true) (rep : session.replay.Represents accepted) :
    next.SessionsLive ∧ (∀ packetId ∈ accepted, next.Retains sessionId packetId session.lastActivity) ∧
      ∀ other packetId instant, server.Retains other packetId instant → next.Retains other packetId instant := by
  have atNew : next.sessions.lookup sessionId = some entry := by rw [sessions]; exact AList.lookup_insert _
  have atOther : ∀ other, other ≠ sessionId → next.sessions.lookup other = server.sessions.lookup other := by
    intro other different
    rw [sessions, AList.lookup_insert_ne different]
  have newProtocol : next.protocols[entry.protocol]? = some session := by
    rw [protocols, pointer, List.getElem?_append_right le_rfl, Nat.sub_self]
    rfl
  have oldProtocol : ∀ {protocol found}, server.protocols[protocol]? = some found →
      next.protocols[protocol]? = some found ∧ protocol < server.protocols.length := by
    intro protocol found inside
    have bound := (List.getElem?_eq_some_iff.mp inside).1
    rw [protocols, List.getElem?_append_left bound]
    exact ⟨inside, bound⟩
  refine ⟨⟨?_, ?_⟩, ?_, ?_⟩
  · intro other found atFound
    by_cases same : other = sessionId
    · subst same
      cases some.inj (atNew.symm.trans atFound)
      exact ⟨session, accepted, newProtocol, live, rep⟩
    · rw [atOther other same] at atFound
      obtain ⟨old, ids, inside, oldLive, oldRep⟩ := inv.live other found atFound
      exact ⟨old, ids, (oldProtocol inside).1, oldLive, oldRep⟩
  · have fresh : ∀ other found, server.sessions.lookup other = some found → found.protocol ≠ entry.protocol := by
      intro other found atFound equal
      obtain ⟨old, _, inside, _⟩ := inv.live other found atFound
      have bound := (oldProtocol inside).2
      omega
    intro first second firstEntry secondEntry atFirst atSecond equal
    by_cases isFirst : first = sessionId <;> by_cases isSecond : second = sessionId
    · rw [isFirst, isSecond]
    · subst isFirst
      cases some.inj (atNew.symm.trans atFirst)
      rw [atOther second isSecond] at atSecond
      exact absurd equal.symm (fresh second secondEntry atSecond)
    · subst isSecond
      cases some.inj (atNew.symm.trans atSecond)
      rw [atOther first isFirst] at atFirst
      exact absurd equal (fresh first firstEntry atFirst)
    · rw [atOther first isFirst] at atFirst
      rw [atOther second isSecond] at atSecond
      exact inv.injective first second _ _ atFirst atSecond equal
  · intro packetId member
    exact ⟨entry, session, atNew, newProtocol, rep.refuses_iff.mpr (.inl member), le_rfl⟩
  · rintro other packetId instant ⟨found, old, atFound, inside, refused, active⟩
    have different : other ≠ sessionId := by
      rintro rfl
      simp [absent] at atFound
    exact ⟨found, old, (atOther other different).trans atFound, (oldProtocol inside).1, refused, active⟩

omit [DecidableEq SessionId] in
theorem protocols_set {server : UdpServer SessionId Peer} {protocol : Nat}
    (inside : server.protocols[protocol]? = some session) (written : ServerSession SessionId Peer) (other : Nat) :
    (server.protocols.set protocol written)[other]? =
      if protocol = other then some written else server.protocols[other]? := by
  rw [List.getElem?_set]
  have bound := (List.getElem?_eq_some_iff.mp inside).1
  simp [bound]

theorem SessionsLive.join {server : UdpServer SessionId Peer} (inv : server.SessionsLive) {sessionId : SessionId}
    (found : server.sessions.lookup sessionId = some entry)
    (inside : server.protocols[entry.protocol]? = some session) (live : session.live = true)
    (rep : session.replay.Represents accepted) {packetId : PacketId} {replay : UdpReplayWindow}
    (recorded : replay.Represents (accepted ++ [packetId])) (peer : Peer) (now : Nat) :
    let next := { server with protocols := server.protocols.set entry.protocol (session.record replay peer now) }
    next.SessionsLive ∧ next.Retains sessionId packetId now ∧
      ∀ other id instant, server.Retains other id instant → next.Retains other id instant := by
  intro next
  have cell := protocols_set inside (session.record replay peer now)
  refine ⟨⟨?_, inv.injective⟩, ?_, ?_⟩
  · intro other otherEntry atOther
    obtain ⟨old, ids, oldInside, oldLive, oldRep⟩ := inv.live other otherEntry atOther
    change ∃ session accepted, (server.protocols.set _ _)[_]? = some session ∧ _
    rw [cell]
    by_cases same : entry.protocol = otherEntry.protocol
    · rw [if_pos same]
      exact ⟨_, _, rfl, live, recorded⟩
    · rw [if_neg same]
      exact ⟨old, ids, oldInside, oldLive, oldRep⟩
  · exact ⟨entry, session.record replay peer now, found, (cell _).trans (if_pos rfl),
      recorded.refuses_iff.mpr (.inl (by simp)), le_max_right _ _⟩
  · rintro other id instant ⟨otherEntry, old, atOther, oldInside, refused, active⟩
    by_cases same : entry.protocol = otherEntry.protocol
    · rw [same] at inside
      cases some.inj (inside.symm.trans oldInside)
      exact ⟨otherEntry, session.record replay peer now, atOther, (cell _).trans (if_pos same),
        rep.refuses_mono recorded refused, active.trans (le_max_left _ _)⟩
    · exact ⟨otherEntry, old, atOther, (cell _).trans ((if_neg same).trans oldInside), refused, active⟩

theorem SessionsLive.unlink {server next : UdpServer SessionId Peer} (inv : server.SessionsLive)
    {binding : SessionId} {written : ServerSession SessionId Peer}
    (found : server.sessions.lookup binding = some entry) (inside : server.protocols[entry.protocol]? = some session)
    (sessions : next.sessions = server.sessions.erase binding)
    (protocols : next.protocols = server.protocols.set entry.protocol written) :
    next.SessionsLive ∧ ∀ other id instant, other ≠ binding → server.Retains other id instant →
      next.Retains other id instant := by
  have atOther : ∀ other otherEntry, next.sessions.lookup other = some otherEntry →
      other ≠ binding ∧ server.sessions.lookup other = some otherEntry := by
    intro other otherEntry atEntry
    rw [sessions, HashMap.lookup_erase_eq] at atEntry
    split at atEntry
    · simp at atEntry
    · rename_i different
      exact ⟨different, atEntry⟩
  have cell : ∀ other otherEntry, server.sessions.lookup other = some otherEntry → other ≠ binding →
      next.protocols[otherEntry.protocol]? = server.protocols[otherEntry.protocol]? := by
    intro other otherEntry atEntry different
    have apart : entry.protocol ≠ otherEntry.protocol := fun equal =>
      different (inv.injective binding other entry otherEntry found atEntry equal).symm
    rw [protocols, protocols_set inside, if_neg apart]
  refine ⟨⟨?_, ?_⟩, ?_⟩
  · intro other otherEntry atEntry
    obtain ⟨different, old⟩ := atOther other otherEntry atEntry
    rw [cell other otherEntry old different]
    exact inv.live other otherEntry old
  · intro first second firstEntry secondEntry atFirst atSecond
    exact inv.injective first second firstEntry secondEntry (atOther _ _ atFirst).2 (atOther _ _ atSecond).2
  · rintro other id instant different ⟨otherEntry, old, atEntry, oldInside, refused, active⟩
    refine ⟨otherEntry, old, ?_, (cell other otherEntry atEntry different).trans oldInside, refused, active⟩
    rw [sessions, AList.lookup_erase_ne different]
    exact atEntry

theorem SessionsLive.commitRequest {server : UdpServer SessionId Peer} (inv : server.SessionsLive)
    (commit : UdpRequestCommit SessionId) (peer : Peer) (now : Nat) (random : List SessionId) :
    ∃ next result, server.commitRequest commit peer now random = (next, .returned result) ∧ next.SessionsLive ∧
      (∀ other id instant, server.Retains other id instant → next.Retains other id instant) ∧
      ∀ capability, result = .ok capability → next.Retains commit.sessionId commit.packetId now ∧
        ∀ instant, ¬server.Retains commit.sessionId commit.packetId instant := by
  have refusal : ∀ error, ∃ next result, (server, CommitProgress.returned (.error error)) = (next, .returned result) ∧
      next.SessionsLive ∧ (∀ other id instant, server.Retains other id instant → next.Retains other id instant) ∧
      ∀ capability, result = .ok capability → next.Retains commit.sessionId commit.packetId now ∧
        ∀ instant, ¬server.Retains commit.sessionId commit.packetId instant := by
    intro error
    exact ⟨server, .error error, rfl, inv, fun _ _ _ held => held, by simp⟩
  unfold UdpServer.commitRequest
  split
  · exact refusal _
  cases found : server.sessions.lookup commit.sessionId with
  | none =>
    dsimp only
    rcases server.createSession_cases commit.sessionId commit.packetId peer now random with
      ⟨error, run⟩ | ⟨next, capability, outbound, replay, run, sessions, protocols, rep⟩
    · rw [run]
      exact refusal _
    · rw [run]
      obtain ⟨live, retained, others⟩ := inv.create found sessions protocols rfl rfl rep
      refine ⟨next, .ok capability, rfl, live, others, fun _ _ => ⟨retained _ (by simp), ?_⟩⟩
      rintro instant ⟨entry, _, atEntry, _⟩
      simp [found] at atEntry
  | some entry =>
    dsimp only
    obtain ⟨session, accepted, inside, live, rep⟩ := inv.live _ _ found
    rcases joinSession_cases inside live rep commit.packetId peer now with ⟨error, run⟩ | ⟨allowed, replay, recorded, run⟩
    · rw [run]
      exact refusal _
    · rw [run]
      obtain ⟨nextLive, retained, others⟩ := inv.join found inside live rep recorded peer now
      refine ⟨_, .ok entry.capability, rfl, nextLive, others, fun _ _ => ⟨retained, ?_⟩⟩
      rintro instant ⟨other, old, atOther, oldInside, refused, _⟩
      cases some.inj (found.symm.trans atOther)
      cases some.inj (inside.symm.trans oldInside)
      exact allowed refused

theorem SessionsLive.removeSession {server : UdpServer SessionId Peer} (inv : server.SessionsLive)
    (capability : ServerResponseCapability) (now : Nat) :
    (server.removeSession capability now).1.SessionsLive ∧
      ∀ other id instant, server.Retains other id instant →
        (server.removeSession capability now).1.Retains other id instant ∨ instant + udpAssociationRetention ≤ now := by
  rcases server.removeSession_cases capability now with same | ⟨binding, entry, session, found, inside, idle, sessions, protocols⟩
  · rw [same]
    exact ⟨inv, fun _ _ _ held => .inl held⟩
  · obtain ⟨live, others⟩ := inv.unlink found inside sessions protocols
    refine ⟨live, ?_⟩
    intro other id instant held
    by_cases same : other = binding
    · subst same
      obtain ⟨otherEntry, old, atEntry, oldInside, _, active⟩ := held
      cases some.inj (found.symm.trans atEntry)
      cases some.inj (inside.symm.trans oldInside)
      exact .inr (by omega)
    · exact .inl (others other id instant same held)

end Ferrum.Shadowsocks.UdpServer

namespace Ferrum.Shadowsocks

open Option

/-- Where one client packet stands between `prepare_request` and `commit_request`. -/
inductive UdpRequest (SessionId : Type)
  | unsent
  | prepared (commit : UdpRequestCommit SessionId) (timestamp : Nat)
  | accepted (sessionId : SessionId) (packetId : PacketId) (timestamp : Nat)
  | rejected (error : UdpPacketError)

/-- The server, its clock, every presented packet by its number, and the log of the
`commit_request` calls as session, packet, timestamp and instant. -/
structure UdpSystem (SessionId Peer : Type) where
  now : Nat
  server : UdpServer SessionId Peer
  requests : Nat → UdpRequest SessionId
  calls : List (SessionId × PacketId × Nat × Nat)

/-- The calls of a run. `prepare` carries what the cipher opened and, as `rest`, the outcome
of the padding and address checks that follow the timestamp test. -/
inductive UdpCall (SessionId Peer : Type)
  | wait (nanos : Nat)
  | prepare (request : Nat) (sessionId : SessionId) (packetId : PacketId) (body : List UInt8)
      (rest : Except UdpPacketError Unit)
  | commit (request : Nat) (peer : Peer) (random : List SessionId)
  | remove (capability : ServerResponseCapability)

namespace UdpSystem

variable {SessionId Peer : Type} [DecidableEq SessionId]

def new (owner : Nat) : UdpSystem SessionId Peer := ⟨0, .new owner, fun _ => .unsent, []⟩

variable (system : UdpSystem SessionId Peer)

def set (request : Nat) (phase : UdpRequest SessionId) : UdpSystem SessionId Peer :=
  { system with requests := Function.update system.requests request phase }

/-- `prepare_request`: the packet is accepted for commit only inside the timestamp window. -/
def prepareRequest (offset : Nat) (sessionId : SessionId) (packetId : PacketId) (body : List UInt8)
    (rest : Except UdpPacketError Unit) : UdpRequest SessionId :=
  match parseRequestTimestamp (unixSeconds offset system.now) body, rest with
  | .error error, _ => .rejected error
  | .ok _, .error error => .rejected error
  | .ok timestamp, .ok () => .prepared ⟨system.server.owner, sessionId, packetId⟩ timestamp

/-- `commit_request` of a prepared packet; a call that spins has not returned. -/
def commitPrepared (request : Nat) (commit : UdpRequestCommit SessionId) (timestamp : Nat) (peer : Peer)
    (random : List SessionId) : UdpSystem SessionId Peer :=
  let (server, progress) := system.server.commitRequest commit peer system.now random
  let calls := (commit.sessionId, commit.packetId, timestamp, system.now) :: system.calls
  let system := { system with server := server, calls := calls }
  match progress with
  | .retry => system
  | .returned (.ok _) => system.set request (.accepted commit.sessionId commit.packetId timestamp)
  | .returned (.error error) => system.set request (.rejected error)

/-- One call; a call that its packet is not ready for changes nothing. -/
def step (offset : Nat) (system : UdpSystem SessionId Peer) : UdpCall SessionId Peer → UdpSystem SessionId Peer
  | .wait nanos => { system with now := system.now + nanos }
  | .prepare request sessionId packetId body rest =>
    match system.requests request with
    | .unsent => system.set request (system.prepareRequest offset sessionId packetId body rest)
    | _ => system
  | .commit request peer random =>
    match system.requests request with
    | .prepared commit timestamp => system.commitPrepared request commit timestamp peer random
    | _ => system
  | .remove capability => { system with server := (system.server.removeSession capability system.now).1 }

def run (offset : Nat) (system : UdpSystem SessionId Peer) (calls : List (UdpCall SessionId Peer)) :
    UdpSystem SessionId Peer :=
  calls.foldl (step offset) system

/-- No authenticated packet is accepted twice. -/
def AcceptsOnce : Prop :=
  ∀ sessionId packetId timestamp first second, system.requests first = .accepted sessionId packetId timestamp →
    system.requests second = .accepted sessionId packetId timestamp → first = second

end UdpSystem

end Ferrum.Shadowsocks
