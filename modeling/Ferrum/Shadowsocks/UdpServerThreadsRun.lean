import Ferrum.Shadowsocks.UdpServerLinks

namespace Ferrum.Shadowsocks

open List

variable {SessionId Peer : Type}

/-- The generation and the packet ID of a commit that returned success. -/
def ServerReturn.accepted : ServerReturn SessionId Peer → Option (ServerResponseCapability × PacketId)
  | .committed commit (.ok capability) => some (capability, commit.packetId)
  | _ => none

variable [DecidableEq SessionId]

variable (server : UdpServer SessionId Peer)

/-- A session is in the maps under this capability. -/
def UdpServer.Serves (capability : ServerResponseCapability) : Prop :=
  ∃ sessionId entry, server.sessions.lookup sessionId = some entry ∧ entry.capability = capability ∧
    server.capabilitySessions.lookup capability = some sessionId

/-- The live session of the client has marked the packet ID in its replay window. -/
def UdpServer.Marks (sessionId : SessionId) (capability : ServerResponseCapability) (packetId : PacketId) : Prop :=
  ∃ entry session accepted, server.sessions.lookup sessionId = some entry ∧ entry.capability = capability ∧
    server.protocols[entry.protocol]? = some session ∧ session.live = true ∧
    session.replay.Represents accepted ∧ packetId ∈ accepted

/-- The window of each session, dead or alive, holds every packet ID that was accepted in its
generation. -/
def UdpServer.Windows (origins : List (SessionId × ServerResponseCapability))
    (log : List (ServerResponseCapability × PacketId)) : Prop :=
  ∀ (protocol : Nat) (session : ServerSession SessionId Peer) (sessionId : SessionId) (capability : ServerResponseCapability),
    server.protocols[protocol]? = some session → origins[protocol]? = some (sessionId, capability) →
    ∃ accepted, session.replay.Represents accepted ∧ ∀ packetId, (capability, packetId) ∈ log → packetId ∈ accepted

variable {origins : List (SessionId × ServerResponseCapability)}

omit [DecidableEq SessionId] in
theorem UdpServer.Windows.mono {server : UdpServer SessionId Peer}
    {log part : List (ServerResponseCapability × PacketId)} (windows : server.Windows origins log)
    (subset : ∀ pair ∈ part, pair ∈ log) : server.Windows origins part := by
  intro protocol session sessionId capability inside known
  obtain ⟨accepted, rep, holds⟩ := windows protocol session sessionId capability inside known
  exact ⟨accepted, rep, fun packetId member => holds packetId (subset _ member)⟩

/-- What a successful return says about the server at this moment. -/
def ServerReturn.Justified : ServerReturn SessionId Peer → Prop
  | .committed commit (.ok capability) => server.Marks commit.sessionId capability commit.packetId
  | .encoded capability (.ok _) => server.Serves capability
  | .snapshot capability (.ok (some _)) => server.Serves capability
  | _ => True

/-- The session that a thread keeps was created under the capability of its call. -/
def ServerPoint.Supported (origins : List (SessionId × ServerResponseCapability)) : ServerPoint SessionId Peer → Prop
  | .joining commit _ _ entry => origins[entry.protocol]? = some (commit.sessionId, entry.capability)
  | .encoding capability protocol | .reading capability protocol => ∃ sessionId, origins[protocol]? = some (sessionId, capability)
  | _ => True

omit [DecidableEq SessionId] in
theorem ServerPoint.Supported.append {origins : List (SessionId × ServerResponseCapability)} {point : ServerPoint SessionId Peer}
    (supported : point.Supported origins) (more : List (SessionId × ServerResponseCapability)) :
    point.Supported (origins ++ more) := by
  have kept : ∀ {protocol : Nat} {origin}, origins[protocol]? = some origin → (origins ++ more)[protocol]? = some origin := by
    intro protocol origin found
    rw [List.getElem?_append_left (List.getElem?_eq_some_iff.mp found).1, found]
  cases point with
  | joining commit peer now entry => exact kept supported
  | encoding capability protocol | reading capability protocol => exact supported.imp fun _ => kept
  | _ => trivial

theorem UdpServer.Linked.origin_unique {server : UdpServer SessionId Peer}
    (linked : server.Linked origins) {protocol other : Nat} {sessionId another : SessionId} {capability : ServerResponseCapability}
    (first : origins[protocol]? = some (sessionId, capability)) (second : origins[other]? = some (another, capability)) :
    protocol = other := by
  have inside : protocol < (origins.map Prod.snd).length := by
    simpa using (List.getElem?_eq_some_iff.mp first).1
  apply (List.getElem?_inj inside linked.distinct).mp
  rw [List.getElem?_map, List.getElem?_map, first, second]
  rfl

namespace ServerThreads

def acceptedLog (system : ServerThreads SessionId Peer) : List (ServerResponseCapability × PacketId) :=
  system.returns.filterMap ServerReturn.accepted

/-- The invariant, with the origins of all sessions in the heap. -/
structure Consistent (system : ServerThreads SessionId Peer) (origins : List (SessionId × ServerResponseCapability)) : Prop where
  linked : system.server.Linked origins
  supported : ∀ thread, (system.points thread).Supported origins
  windows : system.server.Windows origins system.acceptedLog
  logged : ∀ pair ∈ system.acceptedLog, pair.1 ∈ origins.map Prod.snd
  once : system.acceptedLog.Nodup

def Sound (system : ServerThreads SessionId Peer) : Prop := ∃ origins, system.Consistent origins

/-- What one step may change in the maps, and what it may return. -/
structure Advances (before after : ServerThreads SessionId Peer) : Prop where
  generation : before.server.nextGeneration ≤ after.server.nextGeneration
  entries : ∀ sessionId entry, after.server.sessions.lookup sessionId = some entry →
    before.server.sessions.lookup sessionId = some entry ∨ before.server.nextGeneration ≤ entry.capability.generation
  outbound : ∀ id ∈ after.server.outboundSessionIds, id ∈ before.server.outboundSessionIds ∨ id ∉ after.server.sessions
  returns : after.returns = before.returns ∨
    ∃ result, after.returns = before.returns ++ [result] ∧ result.Justified after.server

variable {before after system : ServerThreads SessionId Peer} {origins : List (SessionId × ServerResponseCapability)}

theorem new_sound (owner : Nat) : (new owner : ServerThreads SessionId Peer).Sound := by
  refine ⟨[], UdpServer.new_linked owner, fun _ => trivial, ?_, ?_, ?_⟩
  · intro protocol session sessionId capability found
    simp [new, UdpServer.new] at found
  · simp [acceptedLog, new]
  · simp [acceptedLog, new]

theorem Consistent.goto (consistent : before.Consistent origins) {thread : Nat} {point : ServerPoint SessionId Peer}
    (supported : point.Supported origins) : (before.goto thread point).Consistent origins := by
  obtain ⟨linked, points, windows, logged, once⟩ := consistent
  refine ⟨linked, fun other => ?_, windows, logged, once⟩
  simp only [ServerThreads.goto, Function.update_apply]
  split
  · exact supported
  · exact points other

omit [DecidableEq SessionId] in
theorem acceptedLog_finish (system : ServerThreads SessionId Peer) (thread : Nat) (result : ServerReturn SessionId Peer) :
    (system.finish thread result).acceptedLog = system.acceptedLog ++ result.accepted.toList := by
  unfold acceptedLog finish
  rw [filterMap_append]
  cases accepted : result.accepted with
  | none | some pair => simp [accepted]

variable {thread : Nat} {capability : ServerResponseCapability}

theorem Consistent.finish (consistent : before.Consistent origins) {result : ServerReturn SessionId Peer}
    (refused : result.accepted = none) : (before.finish thread result).Consistent origins := by
  have moved := @Consistent.goto _ _ _ _ _ consistent thread .idle trivial
  have log : (before.finish thread result).acceptedLog = before.acceptedLog := by
    rw [acceptedLog_finish, refused]
    simp
  refine ⟨moved.linked, moved.supported, ?_, ?_, ?_⟩
  · rw [log]
    exact consistent.windows
  · rw [log]
    exact consistent.logged
  · rw [log]
    exact consistent.once

theorem Consistent.commit (consistent : before.Consistent origins) {commit : UdpRequestCommit SessionId}
    (known : capability ∈ origins.map Prod.snd)
    (windows : before.server.Windows origins (before.acceptedLog ++ [(capability, commit.packetId)]))
    (fresh : (capability, commit.packetId) ∉ before.acceptedLog) :
    (before.finish thread (.committed commit (.ok capability))).Consistent origins := by
  have moved := @Consistent.goto _ _ _ _ _ consistent thread .idle trivial
  have log : (before.finish thread (.committed commit (.ok capability))).acceptedLog =
      before.acceptedLog ++ [(capability, commit.packetId)] := acceptedLog_finish _ _ _
  refine ⟨moved.linked, moved.supported, ?_, ?_, ?_⟩
  · rw [log]
    exact windows
  · rw [log]
    intro pair member
    rcases mem_append.mp member with old | isNew
    · exact consistent.logged pair old
    · cases mem_singleton.mp isNew
      exact known
  · rw [log]
    refine nodup_append.mpr ⟨consistent.once, by simp, ?_⟩
    intro pair inside other isNew same
    rw [same, mem_singleton.mp isNew] at inside
    exact fresh inside

theorem Advances.same (server : after.server = before.server)
    (returns : after.returns = before.returns ∨
      ∃ result, after.returns = before.returns ++ [result] ∧ result.Justified after.server) : before.Advances after := by
  refine ⟨?_, ?_, ?_, returns⟩
  · rw [server]
  · rw [server]
    exact fun _ _ found => .inl found
  · rw [server]
    exact fun _ member => .inl member

section

variable (consistent : system.Consistent origins)
include consistent

theorem Consistent.fresh_log (packetId : PacketId) :
    (⟨system.server.owner, system.server.nextGeneration⟩, packetId) ∉ system.acceptedLog := by
  intro inside
  obtain ⟨origin, member, same⟩ := mem_map.mp (consistent.logged _ inside)
  have older := (consistent.linked.owned origin member).2
  rw [same] at older
  exact Nat.lt_irrefl _ older

variable {session : ServerSession SessionId Peer}

theorem Consistent.create_windows (sessionId outbound : SessionId) {packetId : PacketId}
    (rep : session.replay.Represents [packetId]) :
    (system.server.withSession sessionId outbound session).Windows
      (origins ++ [(sessionId, ⟨system.server.owner, system.server.nextGeneration⟩)])
      (system.acceptedLog ++ [(⟨system.server.owner, system.server.nextGeneration⟩, packetId)]) := by
  intro protocol found client capability inside known
  by_cases isOld : protocol < system.server.protocols.length
  · replace inside := (List.getElem?_append_left isOld).symm.trans inside
    rw [List.getElem?_append_left (consistent.linked.size ▸ isOld)] at known
    obtain ⟨ids, oldRep, oldHolds⟩ := consistent.windows _ _ _ _ inside known
    refine ⟨ids, oldRep, fun other member => ?_⟩
    rcases mem_append.mp member with old | isNew
    · exact oldHolds other old
    · cases mem_singleton.mp isNew
      exact absurd (consistent.linked.owned _ (mem_of_getElem? known)).2 (Nat.lt_irrefl _)
  · have last : protocol = system.server.protocols.length := by
      have bound := (List.getElem?_eq_some_iff.mp inside).1
      simp only [UdpServer.withSession, length_append, length_singleton] at bound
      omega
    subst last
    simp only [UdpServer.withSession, List.getElem?_concat_length, Option.some.injEq] at inside
    rw [← consistent.linked.size, List.getElem?_concat_length] at known
    cases known
    cases inside
    refine ⟨[packetId], rep, fun other member => ?_⟩
    rcases mem_append.mp member with old | isNew
    · exact absurd old (consistent.fresh_log other)
    · cases mem_singleton.mp isNew
      simp

variable {commit : UdpRequestCommit SessionId}

theorem create_sound (thread : Nat)
    (absent : system.server.sessions.lookup commit.sessionId = none) {outbound : SessionId}
    (different : outbound ≠ commit.sessionId) (unlisted : outbound ∉ system.server.sessions)
    (unused : outbound ∉ system.server.outboundSessionIds) (live : session.live = true)
    (rep : session.replay.Represents [commit.packetId]) :
    let created := { system with server := system.server.withSession commit.sessionId outbound session }.finish thread
      (.committed commit (.ok ⟨system.server.owner, system.server.nextGeneration⟩))
    created.Sound ∧ system.Advances created := by
  intro created
  have linked := consistent.linked.create absent unused live
  have windows := consistent.create_windows commit.sessionId outbound rep
  have grown : Consistent { system with server := system.server.withSession commit.sessionId outbound session }
      (origins ++ [(commit.sessionId, ⟨system.server.owner, system.server.nextGeneration⟩)]) := by
    refine ⟨linked, fun other => (consistent.supported other).append _, ?_, ?_, consistent.once⟩
    · exact windows.mono fun _ => mem_append_left _
    · intro pair member
      rw [map_append]
      exact mem_append_left _ (consistent.logged pair member)
  have atNew : (system.server.withSession commit.sessionId outbound session).sessions.lookup commit.sessionId =
      some ⟨⟨system.server.owner, system.server.nextGeneration⟩, outbound, system.server.protocols.length⟩ :=
    AList.lookup_insert _
  refine ⟨⟨_, grown.commit (by simp) windows (consistent.fresh_log commit.packetId)⟩, Nat.le_succ _, ?_, ?_, .inr ⟨_, rfl, ?_⟩⟩
  · intro sessionId entry inside
    replace inside := (HashMap.lookup_insert_eq _ _ _ _).symm.trans inside
    split at inside
    · cases inside
      exact .inr (Nat.le_refl _)
    · exact .inl inside
  · intro id member
    rcases Finset.mem_insert.mp member with rfl | old
    · refine .inr fun inside => ?_
      rcases AList.mem_insert _ |>.mp inside with same | before
      · exact different same
      · exact unlisted before
    · exact .inl old
  · refine ⟨_, session, [commit.packetId], atNew, rfl, ?_, live, rep, by simp⟩
    simp [created, finish, ServerThreads.goto, UdpServer.withSession]

theorem commitRegion_sound (thread : Nat) (commit : UdpRequestCommit SessionId)
    (peer : Peer) (now : Nat) (random : List SessionId) :
    (system.commitRegion thread commit peer now random).Sound ∧
      system.Advances (system.commitRegion thread commit peer now random) := by
  unfold commitRegion
  cases found : system.server.sessions.lookup commit.sessionId with
  | some entry =>
    exact ⟨⟨origins, consistent.goto (consistent.linked.entries _ _ found).1⟩, .same rfl (.inl rfl)⟩
  | none =>
    rcases system.server.createSession_eq commit.sessionId commit.packetId peer now random with
      ⟨error, run⟩ | ⟨outbound, replay, different, unlisted, unused, rep, run⟩
    · simp only [run]
      exact ⟨⟨origins, consistent.finish rfl⟩, .same rfl (.inr ⟨_, rfl, trivial⟩)⟩
    · simp only [run]
      exact create_sound consistent thread found different unlisted unused rfl rep

theorem joinRegion_sound (thread : Nat) (peer : Peer) (now : Nat) {entry : ServerSessionEntry SessionId}
    (origin : origins[entry.protocol]? = some (commit.sessionId, entry.capability))
    (found : system.server.protocols[entry.protocol]? = some session) :
    (system.joinRegion thread commit peer now entry).Sound ∧
      system.Advances (system.joinRegion thread commit peer now entry) := by
  obtain ⟨accepted, rep, holds⟩ := consistent.windows _ _ _ _ found origin
  cases live : session.live with
  | false =>
    have run : system.server.joinSession entry commit.packetId peer now = (system.server, .retry) := by
      simp [UdpServer.joinSession, found, live]
    simp only [joinRegion, run]
    exact ⟨⟨origins, consistent.goto trivial⟩, .same rfl (.inl rfl)⟩
  | true =>
    rcases UdpServer.joinSession_cases found live rep commit.packetId peer now with ⟨error, run⟩ | ⟨allowed, replay, recorded, run⟩
    · simp only [joinRegion, run]
      exact ⟨⟨origins, consistent.finish rfl⟩, .same rfl (.inr ⟨_, rfl, trivial⟩)⟩
    · simp only [joinRegion, run]
      have linked := @UdpServer.Linked.write _ _ _ _ _ consistent.linked _ _ (session.record replay peer now) found rfl
      have windows : { system.server with protocols := system.server.protocols.set entry.protocol (session.record replay peer now) }.Windows
          origins (system.acceptedLog ++ [(entry.capability, commit.packetId)]) := by
        intro protocol other sessionId capability inside known
        simp only [UdpServer.protocols_set found] at inside
        split at inside
        · rename_i same
          subst same
          cases inside
          rw [origin] at known
          cases known
          refine ⟨accepted ++ [commit.packetId], recorded, fun packetId member => ?_⟩
          rcases mem_append.mp member with old | isNew
          · exact mem_append_left _ (holds packetId old)
          · cases mem_singleton.mp isNew
            simp
        · rename_i different
          obtain ⟨ids, otherRep, otherHolds⟩ := consistent.windows _ _ _ _ inside known
          refine ⟨ids, otherRep, fun packetId member => ?_⟩
          rcases mem_append.mp member with old | isNew
          · exact otherHolds packetId old
          · cases mem_singleton.mp isNew
            exact absurd (consistent.linked.origin_unique origin known) different
      have written : { system with server := { system.server with
          protocols := system.server.protocols.set entry.protocol (session.record replay peer now) } }.Consistent origins := by
        refine ⟨linked, consistent.supported, ?_, consistent.logged, consistent.once⟩
        exact windows.mono fun _ => mem_append_left _
      have fresh : (entry.capability, commit.packetId) ∉ system.acceptedLog := by
        intro inside
        exact allowed (rep.refuses_iff.mpr (.inl (holds commit.packetId inside)))
      have known : entry.capability ∈ origins.map Prod.snd := mem_map.mpr ⟨_, mem_of_getElem? origin, rfl⟩
      refine ⟨⟨origins, written.commit known windows fresh⟩, Nat.le_refl _, fun _ _ found => .inl found,
        fun _ member => .inl member, .inr ⟨_, rfl, ?_⟩⟩
      have cell := UdpServer.protocols_set found (session.record replay peer now) entry.protocol
      rw [if_pos rfl] at cell
      obtain ⟨current, atCurrent, pointer, same⟩ := linked.live_entry cell live origin
      exact ⟨current, session.record replay peer now, accepted ++ [commit.packetId], atCurrent, same,
        pointer ▸ cell, live, recorded, by simp⟩

end

theorem sessionByCapability_eq_ok {server : UdpServer SessionId Peer} {binding : SessionId}
    {protocol : Nat} (found : server.sessionByCapability capability = .ok (some (binding, protocol))) :
    ∃ entry, server.sessions.lookup binding = some entry ∧ entry.capability = capability ∧ entry.protocol = protocol := by
  unfold UdpServer.sessionByCapability at found
  split at found
  · cases found
  · split at found
    · cases found
    · split at found
      · cases found
      · rename_i entry atEntry
        split at found
        · rename_i same
          cases found
          exact ⟨entry, atEntry, same, rfl⟩
        · cases found

section

variable (consistent : system.Consistent origins)
include consistent

theorem lookRegion_sound (thread : Nat) (purpose : LookupPurpose) (capability : ServerResponseCapability) :
    (system.lookRegion thread purpose capability).Sound ∧ system.Advances (system.lookRegion thread purpose capability) := by
  unfold lookRegion
  cases looked : system.server.sessionByCapability capability with
  | error error =>
    refine ⟨⟨origins, consistent.finish ?_⟩, .same rfl (.inr ⟨_, rfl, ?_⟩)⟩
    · cases purpose <;> rfl
    · cases purpose <;> trivial
  | ok found =>
    cases found with
    | none =>
      refine ⟨⟨origins, consistent.finish ?_⟩, .same rfl (.inr ⟨_, rfl, ?_⟩)⟩
      · cases purpose <;> rfl
      · cases purpose <;> trivial
    | some found =>
      obtain ⟨binding, protocol⟩ := found
      obtain ⟨entry, atEntry, rfl, rfl⟩ := sessionByCapability_eq_ok looked
      have origin := (consistent.linked.entries binding entry atEntry).1
      refine ⟨⟨origins, consistent.goto ?_⟩, .same rfl (.inl rfl)⟩
      cases purpose with
      | encode | snapshot => exact ⟨binding, origin⟩
      | remove now => trivial

variable {protocol : Nat} {session : ServerSession SessionId Peer} {capability : ServerResponseCapability}

theorem Consistent.serves
    (found : system.server.protocols[protocol]? = some session) (live : session.live = true) {sessionId : SessionId}
    (origin : origins[protocol]? = some (sessionId, capability)) :
    system.server.Serves capability := by
  obtain ⟨entry, atEntry, _, same⟩ := consistent.linked.live_entry found live origin
  exact ⟨sessionId, entry, atEntry, same, (consistent.linked.inverse capability sessionId).mpr ⟨entry, atEntry, same⟩⟩

theorem encodeRegion_sound (thread : Nat) (supported : ∃ sessionId, origins[protocol]? = some (sessionId, capability))
    (found : system.server.protocols[protocol]? = some session)
    (encoded : Except UdpPacketError Nat) : (system.encodeRegion thread capability session encoded).Sound ∧
      system.Advances (system.encodeRegion thread capability session encoded) := by
  obtain ⟨sessionId, origin⟩ := supported
  unfold encodeRegion
  split
  · rename_i live
    refine ⟨⟨origins, consistent.finish rfl⟩, .same rfl (.inr ⟨_, rfl, ?_⟩)⟩
    cases encoded with
    | error error => trivial
    | ok wireLen => exact consistent.serves found live origin
  · exact ⟨⟨origins, consistent.finish rfl⟩, .same rfl (.inr ⟨_, rfl, trivial⟩)⟩

theorem readRegion_sound (thread : Nat) (supported : ∃ sessionId, origins[protocol]? = some (sessionId, capability))
    (found : system.server.protocols[protocol]? = some session) :
    (system.readRegion thread capability session).Sound ∧ system.Advances (system.readRegion thread capability session) := by
  obtain ⟨sessionId, origin⟩ := supported
  unfold readRegion
  split
  · rename_i live
    exact ⟨⟨origins, consistent.finish rfl⟩, .same rfl (.inr ⟨_, rfl, consistent.serves found live origin⟩)⟩
  · exact ⟨⟨origins, consistent.finish rfl⟩, .same rfl (.inr ⟨_, rfl, trivial⟩)⟩

theorem checkRegion_sound (thread : Nat) (capability : ServerResponseCapability)
    (now : Nat) (binding : SessionId) (protocol : Nat) (session : ServerSession SessionId Peer) :
    (system.checkRegion thread capability now binding protocol session).Sound ∧
      system.Advances (system.checkRegion thread capability now binding protocol session) := by
  unfold checkRegion
  split
  · exact ⟨⟨origins, consistent.finish rfl⟩, .same rfl (.inr ⟨_, rfl, trivial⟩)⟩
  · have moved := @Consistent.goto _ _ _ _ _ consistent thread (.unlinking capability binding protocol) trivial
    obtain ⟨linked, supported, windows, logged, once⟩ := moved
    exact ⟨⟨origins, linked, supported, windows, logged, once⟩, .same rfl (.inl rfl)⟩

end

theorem unlink_cases (server : UdpServer SessionId Peer) (capability : ServerResponseCapability) (binding : SessionId)
    (protocol : Nat) (session : ServerSession SessionId Peer) :
    server.unlink capability binding protocol session = (server, false) ∨
    ∃ entry, server.sessions.lookup binding = some entry ∧ entry.capability = capability ∧ entry.protocol = protocol ∧
      server.unlink capability binding protocol session = (server.withoutSession binding entry session, true) := by
  unfold UdpServer.unlink
  cases server.capabilitySessions.lookup capability with
  | none => exact .inl rfl
  | some current =>
    cases server.sessions.lookup binding with
    | none => exact .inl rfl
    | some entry =>
      simp only
      split
      · rename_i same
        obtain ⟨_, rfl, rfl⟩ := same
        exact .inr ⟨entry, rfl, rfl, rfl, rfl⟩
      · exact .inl rfl

section

variable (consistent : system.Consistent origins)
include consistent

variable {protocol : Nat}

theorem unlinkRegion_sound (thread : Nat) (capability : ServerResponseCapability)
    (binding : SessionId) {session : ServerSession SessionId Peer}
    (found : system.server.protocols[protocol]? = some session) :
    (system.unlinkRegion thread capability binding protocol session).Sound ∧
      system.Advances (system.unlinkRegion thread capability binding protocol session) := by
  rcases unlink_cases system.server capability binding protocol session with same | ⟨entry, atEntry, rfl, rfl, same⟩
  · simp only [unlinkRegion, same]
    have released : Consistent { system with locks := Function.update system.locks protocol none } origins :=
      ⟨consistent.linked, consistent.supported, consistent.windows, consistent.logged, consistent.once⟩
    exact ⟨⟨origins, released.finish rfl⟩, .same rfl (.inr ⟨_, rfl, trivial⟩)⟩
  · simp only [unlinkRegion, same]
    have windows : (system.server.withoutSession binding entry session).Windows origins system.acceptedLog := by
      intro other now sessionId capability inside known
      simp only [UdpServer.withoutSession, UdpServer.protocols_set found] at inside
      split at inside
      · rename_i here
        subst here
        cases inside
        exact consistent.windows _ session _ _ found known
      · exact consistent.windows _ _ _ _ inside known
    have dropped : Consistent { system with
        server := system.server.withoutSession binding entry session
        locks := Function.update system.locks entry.protocol none } origins :=
      ⟨consistent.linked.unlink atEntry found, consistent.supported, windows, consistent.logged, consistent.once⟩
    refine ⟨⟨origins, dropped.finish rfl⟩, Nat.le_refl _, fun sessionId other inside => ?_,
      fun id member => .inl (Finset.mem_of_mem_erase member), .inr ⟨_, rfl, trivial⟩⟩
    replace inside := (HashMap.lookup_erase_eq _ _ _).symm.trans inside
    split at inside
    · cases inside
    · exact .inl inside

theorem Consistent.stay : system.Sound ∧ system.Advances system :=
  ⟨⟨origins, consistent⟩, .same rfl (.inl rfl)⟩

theorem Consistent.locked {region : ServerSession SessionId Peer → ServerThreads SessionId Peer}
    (runs : ∀ session, system.server.protocols[protocol]? = some session →
      (region session).Sound ∧ system.Advances (region session)) :
    (system.locked protocol region).Sound ∧ system.Advances (system.locked protocol region) := by
  unfold ServerThreads.locked
  cases system.locks protocol with
  | some holder => exact consistent.stay
  | none =>
    cases found : system.server.protocols[protocol]? with
    | none => exact consistent.stay
    | some session => exact runs session found

theorem region_sound (thread : Nat) (random : List SessionId) (encoded : Except UdpPacketError Nat) :
    (system.region thread random encoded).Sound ∧ system.Advances (system.region thread random encoded) := by
  have supported := consistent.supported thread
  unfold region
  cases point : system.points thread with
  | idle => exact consistent.stay
  | committing commit peer now => exact commitRegion_sound consistent thread commit peer now random
  | joining commit peer now entry =>
    rw [point] at supported
    exact consistent.locked fun session found => joinRegion_sound consistent thread peer now supported found
  | looking purpose capability => exact lookRegion_sound consistent thread purpose capability
  | encoding capability protocol =>
    rw [point] at supported
    exact consistent.locked fun session found => encodeRegion_sound consistent thread supported found encoded
  | checking capability now binding protocol =>
    exact consistent.locked fun session _ => checkRegion_sound consistent thread capability now binding protocol session
  | unlinking capability binding protocol =>
    simp only
    cases found : system.server.protocols[protocol]? with
    | none => exact consistent.stay
    | some session => exact unlinkRegion_sound consistent thread capability binding found
  | reading capability protocol =>
    rw [point] at supported
    exact consistent.locked fun session found => readRegion_sound consistent thread supported found

theorem enter_sound (thread : Nat) (call : ServerCall SessionId Peer) :
    (system.enter thread call).Sound ∧ system.Advances (system.enter thread call) := by
  cases call with
  | commitRequest commit peer now =>
    simp only [enter]
    split
    · exact ⟨⟨origins, consistent.finish rfl⟩, .same rfl (.inr ⟨_, rfl, trivial⟩)⟩
    · exact ⟨⟨origins, consistent.goto trivial⟩, .same rfl (.inl rfl)⟩
  | byCapability purpose capability => exact ⟨⟨origins, consistent.goto trivial⟩, .same rfl (.inl rfl)⟩

end

theorem step_sound (sound : system.Sound) (event : ServerEvent SessionId Peer) :
    (system.step event).Sound ∧ system.Advances (system.step event) := by
  obtain ⟨origins, consistent⟩ := sound
  cases event with
  | call thread call =>
    simp only [ServerThreads.step]
    split
    · exact enter_sound consistent thread call
    · exact consistent.stay
  | region thread random encoded => exact region_sound consistent thread random encoded

theorem run_sound (sound : system.Sound) (events : List (ServerEvent SessionId Peer)) :
    (system.run events).Sound ∧ system.server.nextGeneration ≤ (system.run events).server.nextGeneration ∧
      ∀ sessionId entry, (system.run events).server.sessions.lookup sessionId = some entry →
        system.server.sessions.lookup sessionId = some entry ∨
          system.server.nextGeneration ≤ entry.capability.generation := by
  unfold run
  induction events generalizing system with
  | nil => exact ⟨sound, Nat.le_refl _, fun _ _ found => .inl found⟩
  | cons event rest ih =>
    obtain ⟨after, advances⟩ := step_sound sound event
    obtain ⟨reached, later, entries⟩ := ih after
    refine ⟨reached, Nat.le_trans advances.generation later, fun sessionId entry found => ?_⟩
    rcases entries sessionId entry found with before | fresh
    · exact advances.entries sessionId entry before
    · exact .inr (Nat.le_trans advances.generation fresh)

/-- Two threads commit for one client at once: the second joins the session of the first. -/
def sampleEvents : List (ServerEvent Nat Nat) :=
  [.call 0 (.commitRequest ⟨7, 1, 5⟩ 80 0), .call 1 (.commitRequest ⟨7, 1, 6⟩ 81 0), .region 0 [2] (.ok 0),
    .region 1 [3] (.ok 0)]

end ServerThreads

end Ferrum.Shadowsocks
