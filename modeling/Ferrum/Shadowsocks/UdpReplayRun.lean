import Ferrum.Lib.ReplayGuard
import Ferrum.Shadowsocks.UdpServerInvariant

namespace Ferrum.Shadowsocks.UdpSystem

variable {SessionId Peer : Type} [DecidableEq SessionId]

/-- The condition on one call: a commit comes less than the retention after every earlier
commit call for the same session, packet and timestamp. -/
def SpacedCall (system : UdpSystem SessionId Peer) : UdpCall SessionId Peer → Prop
  | .commit request _ _ =>
    match system.requests request with
    | .prepared commit timestamp =>
      ∀ call ∈ system.calls, call.1 = commit.sessionId → call.2.1 = commit.packetId → call.2.2.1 = timestamp →
        system.now < call.2.2.2 + udpAssociationRetention
    | _ => True
  | _ => True

/-- Every call of the run meets the condition in the state it finds. -/
def SpacedRun (offset : Nat) (system : UdpSystem SessionId Peer) : List (UdpCall SessionId Peer) → Prop
  | [] => True
  | call :: rest => system.SpacedCall call ∧ (system.step offset call).SpacedRun offset rest

instance (system : UdpSystem SessionId Peer) : (call : UdpCall SessionId Peer) → Decidable (system.SpacedCall call)
  | .wait _ => .isTrue trivial
  | .prepare .. => .isTrue trivial
  | .remove _ => .isTrue trivial
  | .commit request _ _ =>
    match phase : system.requests request with
    | .prepared commit timestamp =>
      decidable_of_iff (∀ call ∈ system.calls, call.1 = commit.sessionId → call.2.1 = commit.packetId →
        call.2.2.1 = timestamp → system.now < call.2.2.2 + udpAssociationRetention) (by simp only [SpacedCall, phase])
    | .unsent => .isTrue (by simp only [SpacedCall, phase])
    | .accepted .. => .isTrue (by simp only [SpacedCall, phase])
    | .rejected _ => .isTrue (by simp only [SpacedCall, phase])

instance decidableSpacedRun (offset : Nat) : (system : UdpSystem SessionId Peer) →
    (calls : List (UdpCall SessionId Peer)) → Decidable (system.SpacedRun offset calls)
  | _, [] => .isTrue trivial
  | system, call :: rest =>
    have := decidableSpacedRun offset (system.step offset call) rest
    inferInstanceAs (Decidable (system.SpacedCall call ∧ (system.step offset call).SpacedRun offset rest))

theorem parseRequestTimestamp_skew {now timestamp : Nat} {body : List UInt8}
    (accepted : parseRequestTimestamp now body = .ok timestamp) : absDiff now timestamp ≤ 30 := by
  unfold parseRequestTimestamp at accepted
  split at accepted
  · simp at accepted
  split at accepted
  · simp at accepted
  split at accepted
  · simp at accepted
  dsimp only at accepted
  split at accepted
  · simp at accepted
  · cases accepted
    omega

omit [DecidableEq SessionId] in
theorem prepareRequest_cases (system : UdpSystem SessionId Peer) (offset : Nat) (sessionId : SessionId)
    (packetId : PacketId) (body : List UInt8) (rest : Except UdpPacketError Unit) :
    (∃ error, system.prepareRequest offset sessionId packetId body rest = .rejected error) ∨
    ∃ commit timestamp, system.prepareRequest offset sessionId packetId body rest = .prepared commit timestamp ∧
      absDiff (unixSeconds offset system.now) timestamp ≤ 30 := by
  unfold prepareRequest
  split
  · exact .inl ⟨_, rfl⟩
  · exact .inl ⟨_, rfl⟩
  · rename_i timestamp parsed
    exact .inr ⟨_, timestamp, rfl, parseRequestTimestamp_skew parsed⟩

theorem step_cases (offset : Nat) (system : UdpSystem SessionId Peer) (call : UdpCall SessionId Peer) :
    (∃ nanos, system.step offset call = { system with now := system.now + nanos }) ∨
    (∃ request phase, system.step offset call = system.set request phase ∧
      (∀ sessionId packetId timestamp, phase ≠ .accepted sessionId packetId timestamp) ∧
      ∀ commit timestamp, phase = .prepared commit timestamp →
        absDiff (unixSeconds offset system.now) timestamp ≤ 30) ∨
    (∃ request peer random commit timestamp, call = .commit request peer random ∧
      system.requests request = .prepared commit timestamp ∧
      system.step offset call = system.commitPrepared request commit timestamp peer random) ∨
    ∃ capability, system.step offset call =
      { system with server := (system.server.removeSession capability system.now).1 } := by
  have unchanged : ∃ nanos, system = { system with now := system.now + nanos } := ⟨0, rfl⟩
  cases call with
  | wait nanos => exact .inl ⟨nanos, rfl⟩
  | prepare request sessionId packetId body rest =>
    cases phase : system.requests request with
    | unsent =>
      refine .inr (.inl ⟨request, system.prepareRequest offset sessionId packetId body rest, ?_, ?_⟩)
      · simp [step, phase]
      · rcases system.prepareRequest_cases offset sessionId packetId body rest with
          ⟨error, next⟩ | ⟨commit, timestamp, next, skew⟩
        · simp [next]
        · rw [next]
          refine ⟨by simp, ?_⟩
          rintro _ _ ⟨⟩
          exact skew
    | prepared | accepted | rejected => exact .inl (by simpa [step, phase] using unchanged)
  | commit request peer random =>
    cases phase : system.requests request with
    | prepared commit timestamp =>
      exact .inr (.inr (.inl ⟨request, peer, random, commit, timestamp, rfl, phase, by simp [step, phase]⟩))
    | unsent | accepted | rejected => exact .inl (by simpa [step, phase] using unchanged)
  | remove capability => exact .inr (.inr (.inr ⟨capability, rfl⟩))

variable {system : UdpSystem SessionId Peer}

theorem commitPrepared_cases (live : system.server.SessionsLive) (request : Nat) (commit : UdpRequestCommit SessionId)
    (timestamp : Nat) (peer : Peer) (random : List SessionId) :
    ∃ server phase, system.commitPrepared request commit timestamp peer random =
        ({ system with
            server := server
            calls := (commit.sessionId, commit.packetId, timestamp, system.now) :: system.calls } : UdpSystem _ _).set
          request phase ∧ server.SessionsLive ∧
      (∀ other id instant, system.server.Retains other id instant → server.Retains other id instant) ∧
      ((∃ error, phase = .rejected error) ∨
        (phase = .accepted commit.sessionId commit.packetId timestamp ∧
          server.Retains commit.sessionId commit.packetId system.now ∧
          ∀ instant, ¬system.server.Retains commit.sessionId commit.packetId instant)) := by
  obtain ⟨server, result, run, nextLive, kept, accepted⟩ := live.commitRequest commit peer system.now random
  unfold commitPrepared
  rw [run]
  cases result with
  | ok capability => exact ⟨server, _, rfl, nextLive, kept, .inr ⟨rfl, accepted capability rfl⟩⟩
  | error error => exact ⟨server, _, rfl, nextLive, kept, .inl ⟨error, rfl⟩⟩

/-- The server as a filter on packets, a packet being its session, packet ID and timestamp. -/
def guard (system : UdpSystem SessionId Peer) : ReplayGuard (SessionId × PacketId × Nat) where
  now := system.now
  accepted request := match system.requests request with
    | .accepted sessionId packetId timestamp => some (sessionId, packetId, timestamp)
    | _ => none
  calls := system.calls.map fun call => ((call.1, call.2.1, call.2.2.1), call.2.2.2)
  retained packet instant := system.server.Retains packet.1 packet.2.1 instant

theorem guard_accepted {request : Nat} {packet : SessionId × PacketId × Nat} :
    system.guard.accepted request = some packet ↔
      system.requests request = .accepted packet.1 packet.2.1 packet.2.2 := by
  unfold guard
  dsimp only
  split
  · rename_i sessionId packetId timestamp phase
    rw [phase]
    constructor
    · rintro ⟨⟩
      rfl
    · rintro ⟨⟩
      rfl
  · rename_i other
    constructor
    · simp
    · intro phase
      exact absurd phase (other _ _ _)

theorem acceptsOnce_iff : system.AcceptsOnce ↔ system.guard.Once := by
  constructor
  · intro once packet first second atFirst atSecond
    exact once _ _ _ first second (guard_accepted.mp atFirst) (guard_accepted.mp atSecond)
  · intro once sessionId packetId timestamp first second atFirst atSecond
    exact once (sessionId, packetId, timestamp) first second (guard_accepted.mpr atFirst) (guard_accepted.mpr atSecond)

/-- The sessions are live, and the skew test ties every logged call and every prepared packet
to its timestamp. -/
structure CallInvariant (offset : Nat) (system : UdpSystem SessionId Peer) : Prop where
  live : system.server.SessionsLive
  calls : ∀ call ∈ system.calls, call.2.2.1 ≤ unixSeconds offset call.2.2.2 + 30
  pending : ∀ request commit timestamp, system.requests request = .prepared commit timestamp →
    timestamp ≤ unixSeconds offset system.now + 30

theorem new_callInvariant (offset owner : Nat) : CallInvariant offset (new owner : UdpSystem SessionId Peer) where
  live := UdpServer.new_sessionsLive owner
  calls := by simp [new]
  pending := by simp [new]

theorem new_safe (owner : Nat) : (new owner : UdpSystem SessionId Peer).guard.Safe udpAssociationRetention where
  remembered := by simp [new, guard]
  once := by
    intro _ _ _ impossible
    simp [new, guard] at impossible

variable {offset : Nat}

theorem CallInvariant.step (inv : CallInvariant offset system) (call : UdpCall SessionId Peer) :
    CallInvariant offset (system.step offset call) := by
  rcases system.step_cases offset call with ⟨nanos, next⟩ | ⟨request, phase, next, _, skew⟩ |
    ⟨request, peer, random, commit, timestamp, _, pending, next⟩ | ⟨capability, next⟩
  · rw [next]
    refine ⟨inv.live, inv.calls, ?_⟩
    intro other commit timestamp atOther
    have later := unixSeconds_mono offset (Nat.le_add_right system.now nanos)
    exact (inv.pending other commit timestamp atOther).trans (Nat.add_le_add_right later 30)
  · rw [next]
    refine ⟨inv.live, inv.calls, ?_⟩
    intro other commit timestamp atOther
    by_cases same : other = request
    · subst same
      have near := skew commit timestamp (by simpa [UdpSystem.set] using atOther)
      change timestamp ≤ unixSeconds offset system.now + 30
      unfold absDiff at near
      omega
    · exact inv.pending other commit timestamp (by simpa [UdpSystem.set, same] using atOther)
  · obtain ⟨server, phase, run, live, _, outcome⟩ := commitPrepared_cases inv.live request commit timestamp peer random
    rw [next, run]
    refine ⟨live, ?_, ?_⟩
    · intro logged member
      rcases List.mem_cons.mp member with rfl | old
      · exact inv.pending _ _ _ pending
      · exact inv.calls logged old
    · intro other commit' timestamp' atOther
      by_cases same : other = request
      · subst same
        rcases outcome with ⟨error, rfl⟩ | ⟨rfl, _⟩ <;> simp [UdpSystem.set] at atOther
      · exact inv.pending other commit' timestamp' (by simpa [UdpSystem.set, same] using atOther)
  · rw [next]
    exact ⟨(inv.live.removeSession capability system.now).1, inv.calls, inv.pending⟩

theorem CallInvariant.run (inv : CallInvariant offset system) (calls : List (UdpCall SessionId Peer)) :
    CallInvariant offset (system.run offset calls) := by
  induction calls generalizing system with
  | nil => exact inv
  | cons call rest ih => exact ih (inv.step call)

theorem safe_step (inv : CallInvariant offset system) (safe : system.guard.Safe udpAssociationRetention)
    {call : UdpCall SessionId Peer} (spaced : system.SpacedCall call) :
    (system.step offset call).guard.Safe udpAssociationRetention := by
  rcases system.step_cases offset call with ⟨nanos, next⟩ | ⟨request, phase, next, undecided, _⟩ |
    ⟨request, peer, random, commit, timestamp, rfl, pending, next⟩ | ⟨capability, next⟩
  · rw [next]
    refine safe.pass ⟨Nat.le_add_right _ _, fun _ member => member, fun _ _ held => .inl held⟩ ?_
    exact fun _ _ accepted => accepted
  · rw [next]
    refine safe.pass ⟨le_rfl, fun _ member => member, fun _ _ held => .inl held⟩ ?_
    intro other packet accepted
    have atOther := guard_accepted.mp accepted
    by_cases same : other = request
    · subst same
      exact absurd (by simpa [UdpSystem.set] using atOther) (undecided _ _ _)
    · exact guard_accepted.mpr (by simpa [UdpSystem.set, same] using atOther)
  · obtain ⟨server, phase, run, _, kept, outcome⟩ := commitPrepared_cases inv.live request commit timestamp peer random
    rw [next, run]
    generalize nextEq : UdpSystem.set _ request phase = after
    have sameNow : after.now = system.now := by rw [← nextEq]; rfl
    have calls : after.calls = (commit.sessionId, commit.packetId, timestamp, system.now) :: system.calls := by
      rw [← nextEq]; rfl
    have sameServer : after.server = server := by rw [← nextEq]; rfl
    have requests : after.requests = Function.update system.requests request phase := by rw [← nextEq]; rfl
    have keeps : ReplayGuard.Keeps udpAssociationRetention system.guard after.guard := by
      constructor
      · exact sameNow.ge
      · intro logged member
        change logged ∈ List.map _ after.calls
        rw [calls]
        exact List.mem_cons_of_mem _ member
      · intro packet instant held
        change after.server.Retains _ _ _ ∨ _
        rw [sameServer]
        exact .inl (kept _ _ _ held)
    have old : ∀ other packet, after.guard.accepted other = some packet →
        other = request ∧ phase = .accepted packet.1 packet.2.1 packet.2.2 ∨ system.guard.accepted other = some packet := by
      intro other packet accepted
      have atOther := guard_accepted.mp accepted
      rw [requests] at atOther
      by_cases same : other = request
      · exact .inl ⟨same, by simpa [same] using atOther⟩
      · exact .inr (guard_accepted.mpr (by simpa [same] using atOther))
    rcases outcome with ⟨error, rfl⟩ | ⟨rfl, retained, fresh⟩
    · refine safe.pass keeps ?_
      intro other packet accepted
      rcases old other packet accepted with ⟨_, impossible⟩ | before
      · simp at impossible
      · exact before
    · have logged : ((commit.sessionId, commit.packetId, timestamp), system.now) ∈ after.guard.calls := by
        change _ ∈ List.map _ after.calls
        simp [calls]
      have held : after.guard.retained (commit.sessionId, commit.packetId, timestamp) system.now := by
        change after.server.Retains _ _ _
        rw [sameServer]
        exact retained
      refine safe.accept keeps request ?_ logged held (fun instant before => absurd before (fresh instant)) ?_
      · intro other packet accepted
        rcases old other packet accepted with ⟨same, phase⟩ | before
        · obtain ⟨session, identity, stamp⟩ := packet
          simp only [UdpRequest.accepted.injEq] at phase
          obtain ⟨rfl, rfl, rfl⟩ := phase
          exact .inl ⟨same, rfl⟩
        · exact .inr before
      · simp only [SpacedCall, pending] at spaced
        intro instant member
        obtain ⟨earlier, inside, same⟩ := List.mem_map.mp member
        simp only [Prod.mk.injEq] at same
        obtain ⟨⟨sameSession, samePacket, sameStamp⟩, rfl⟩ := same
        exact spaced earlier inside sameSession samePacket sameStamp
  · rw [next]
    have removed := (inv.live.removeSession capability system.now).2
    refine safe.pass ⟨le_rfl, fun _ member => member, fun packet instant held => removed _ _ instant held⟩ ?_
    exact fun _ _ accepted => accepted

theorem SpacedRun.isPrefix {before calls : List (UdpCall SessionId Peer)} (spaced : system.SpacedRun offset calls)
    (part : before <+: calls) : system.SpacedRun offset before := by
  induction before generalizing system calls with
  | nil => trivial
  | cons call rest ih =>
    obtain ⟨tail, rfl⟩ := part
    exact ⟨spaced.1, ih spaced.2 ⟨tail, rfl⟩⟩

theorem safe_run (inv : CallInvariant offset system) (safe : system.guard.Safe udpAssociationRetention)
    {calls : List (UdpCall SessionId Peer)} (spaced : system.SpacedRun offset calls) :
    (system.run offset calls).guard.Safe udpAssociationRetention := by
  induction calls generalizing system with
  | nil => exact safe
  | cons call rest ih => exact ih (inv.step call) (safe_step inv safe spaced.1) spaced.2

theorem CallInvariant.spacedCall (inv : CallInvariant offset system) {request timestamp : Nat}
    {commit : UdpRequestCommit SessionId} (phase : system.requests request = .prepared commit timestamp)
    (fresh : unixSeconds offset system.now < timestamp + 30) (peer : Peer) (random : List SessionId) :
    system.SpacedCall (.commit request peer random) := by
  simp only [SpacedCall, phase]
  rintro call member _ _ rfl
  exact lt_retention_of_skew (inv.calls call member) fresh

/-- In every run whose `commit_request` calls for one session, packet and timestamp come less than 60 s after each other, no
packet is accepted twice; a commit before `timestamp + 30` always meets that condition. -/
theorem spaced_run_accepts_packet_once (offset owner : Nat) :
    (∀ calls : List (UdpCall SessionId Peer), (new owner).SpacedRun offset calls →
      ∀ before, before <+: calls → ((new owner).run offset before).AcceptsOnce) ∧
    ∀ (calls : List (UdpCall SessionId Peer)) (request : Nat) (commit : UdpRequestCommit SessionId) (timestamp : Nat)
      (peer : Peer) (random : List SessionId),
      ((new owner).run offset calls).requests request = .prepared commit timestamp →
      unixSeconds offset ((new owner).run offset calls).now < timestamp + 30 →
      ((new owner).run offset calls).SpacedCall (.commit request peer random) := by
  constructor
  · intro calls spaced before part
    exact acceptsOnce_iff.mpr
      (safe_run (new_callInvariant offset owner) (new_safe owner) (spaced.isPrefix part)).once
  · intro calls request commit timestamp peer random phase fresh
    exact ((new_callInvariant offset owner).run calls).spacedCall phase fresh peer random

/-- An opened request body with timestamp 1700000030. -/
def sampleBody : List UInt8 := [0, 0, 0, 0, 0, 0x65, 0x53, 0xf1, 0x1e, 0, 0, 1, 127, 0, 0, 1, 0, 53]

/-- One packet of session 5, presented twice with `seconds` and a removal of its session in
between. -/
def presentedTwice (seconds : Nat) : List (UdpCall (Fin (2 ^ 64)) Nat) :=
  [.prepare 0 5 0 sampleBody (.ok ()), .commit 0 1 [9], .wait (seconds * nanosPerSecond), .remove ⟨1, 1⟩,
    .prepare 1 5 0 sampleBody (.ok ()), .commit 1 1 [9]]

theorem presentedTwice_packet_accepted_once :
    (new 1).SpacedRun (1700000000 * nanosPerSecond) (presentedTwice 59) ∧
      ((new 1).run (1700000000 * nanosPerSecond) (presentedTwice 59)).AcceptsOnce := by
  have spaced : (new 1).SpacedRun (1700000000 * nanosPerSecond) (presentedTwice 59) := by decide
  exact ⟨spaced, (spaced_run_accepts_packet_once _ _).1 _ spaced _ List.prefix_rfl⟩

/-- At wall second 1700000000 the packet is stamped 30 s ahead, 60 s later it is 30 s old and
its session may be removed: the second commit meets a fresh replay window. -/
theorem presentedTwice_packet_accepted_twice :
    ¬((new 1).run (1700000000 * nanosPerSecond) (presentedTwice 60)).AcceptsOnce := by
  intro once
  have first : ((new 1).run (1700000000 * nanosPerSecond) (presentedTwice 60)).guard.accepted 0 =
      some (5, 0, 1700000030) := by decide
  have second : ((new 1).run (1700000000 * nanosPerSecond) (presentedTwice 60)).guard.accepted 1 =
      some (5, 0, 1700000030) := by decide
  exact absurd (acceptsOnce_iff.mp once _ _ _ first second) (by decide)

end Ferrum.Shadowsocks.UdpSystem
