import Ferrum.Lib.ReplayGuard
import Ferrum.Shadowsocks.TcpReplayStore

namespace Ferrum.Shadowsocks.TcpServer

variable {Salt : Type} [DecidableEq Salt]

/-- The condition on one event: a `check_and_insert` call comes less than the retention after
every earlier call for the same salt and timestamp. -/
def SpacedCall (server : TcpServer Salt) : TcpEvent Salt → Prop
  | .variablePart handshake =>
    match server.handshakes handshake with
    | .headerAccepted salt timestamp _ =>
      ∀ call ∈ server.calls, call.1 = salt → call.2.1 = timestamp → server.now < call.2.2 + replayRetention
    | _ => True
  | _ => True

/-- Every event of the run meets the condition in the state it finds. -/
def SpacedRun (offset : Nat) (server : TcpServer Salt) : List (TcpEvent Salt) → Prop
  | [] => True
  | event :: rest => server.SpacedCall event ∧ (server.step offset event).SpacedRun offset rest

instance (server : TcpServer Salt) : (event : TcpEvent Salt) → Decidable (server.SpacedCall event)
  | .wait _ => .isTrue trivial
  | .header .. => .isTrue trivial
  | .abort .. => .isTrue trivial
  | .variablePart handshake =>
    match phase : server.handshakes handshake with
    | .headerAccepted salt timestamp _ =>
      decidable_of_iff (∀ call ∈ server.calls, call.1 = salt → call.2.1 = timestamp →
        server.now < call.2.2 + replayRetention) (by simp only [SpacedCall, phase])
    | .reading => .isTrue (by simp only [SpacedCall, phase])
    | .accepted .. => .isTrue (by simp only [SpacedCall, phase])
    | .rejected _ => .isTrue (by simp only [SpacedCall, phase])

instance decidableSpacedRun (offset : Nat) : (server : TcpServer Salt) →
    (events : List (TcpEvent Salt)) → Decidable (server.SpacedRun offset events)
  | _, [] => .isTrue trivial
  | server, event :: rest =>
    have := decidableSpacedRun offset (server.step offset event) rest
    inferInstanceAs (Decidable (server.SpacedCall event ∧ (server.step offset event).SpacedRun offset rest))

/-- The server as a filter on requests, a request being its salt and timestamp. -/
def guard (server : TcpServer Salt) : ReplayGuard (Salt × Nat) where
  now := server.now
  accepted handshake := match server.handshakes handshake with
    | .accepted salt timestamp => some (salt, timestamp)
    | _ => none
  calls := server.calls.map fun call => ((call.1, call.2.1), call.2.2)
  retained request instant := server.store.entries.lookup request.1 = some instant

variable {server : TcpServer Salt}

theorem guard_accepted {handshake : Nat} {request : Salt × Nat} :
    server.guard.accepted handshake = some request ↔
      server.handshakes handshake = .accepted request.1 request.2 := by
  unfold guard
  dsimp only
  split
  · rename_i salt timestamp phase
    rw [phase]
    constructor
    · rintro ⟨⟩
      rfl
    · rintro ⟨⟩
      rfl
  · rename_i other
    constructor
    · simp
    · intro phase
      exact absurd phase (other _ _)

theorem acceptsOnce_iff : server.AcceptsOnce ↔ server.guard.Once := by
  constructor
  · intro once request first second atFirst atSecond
    exact once request.1 request.2 first second (guard_accepted.mp atFirst) (guard_accepted.mp atSecond)
  · intro once salt timestamp first second atFirst atSecond
    exact once (salt, timestamp) first second (guard_accepted.mpr atFirst) (guard_accepted.mpr atSecond)

/-- The skew test ties every logged call and every pending header to its timestamp. -/
structure SkewInvariant (offset : Nat) (server : TcpServer Salt) : Prop where
  calls : ∀ call ∈ server.calls, call.2.1 ≤ unixSeconds offset call.2.2 + 30
  pending : ∀ handshake salt timestamp length, server.handshakes handshake = .headerAccepted salt timestamp length →
    timestamp ≤ unixSeconds offset server.now + 30

omit [DecidableEq Salt] in
theorem new_skewInvariant (offset capacity : Nat) : SkewInvariant offset (new capacity : TcpServer Salt) where
  calls := by simp [new]
  pending := by simp [new]

theorem new_safe (capacity : Nat) : (new capacity : TcpServer Salt).guard.Safe replayRetention where
  remembered := by simp [new, guard]
  once := by
    intro _ _ _ impossible
    simp [new, guard] at impossible

theorem step_cases (offset : Nat) (server : TcpServer Salt) (event : TcpEvent Salt) :
    (∃ nanos, server.step offset event = { server with now := server.now + nanos }) ∨
    (∃ handshake phase, server.step offset event = server.set handshake phase ∧
      (∀ salt timestamp, phase ≠ .accepted salt timestamp) ∧
      ∀ salt timestamp length, phase = .headerAccepted salt timestamp length →
        absDiff (unixSeconds offset server.now) timestamp ≤ 30) ∨
    (∃ handshake salt timestamp length, event = .variablePart handshake ∧
      server.handshakes handshake = .headerAccepted salt timestamp length ∧
      server.step offset event = server.insertSalt handshake salt timestamp) := by
  have unchanged : ∃ nanos, server = { server with now := server.now + nanos } := ⟨0, rfl⟩
  cases event with
  | wait nanos => exact .inl ⟨nanos, rfl⟩
  | header handshake salt plaintext =>
    cases phase : server.handshakes handshake with
    | reading =>
      cases header : acceptFixedHeader (unixSeconds offset server.now) plaintext with
      | ok result =>
        refine .inr (.inl ⟨handshake, .headerAccepted salt result.1 result.2, ?_, by simp, ?_⟩)
        · simp [step, phase, header]
        · rintro _ _ _ ⟨⟩
          exact acceptFixedHeader_skew header
      | error reason =>
        exact .inr (.inl ⟨handshake, .rejected reason, by simp [step, phase, header], by simp, by simp⟩)
    | headerAccepted | accepted | rejected => exact .inl (by simpa [step, phase] using unchanged)
  | variablePart handshake =>
    cases phase : server.handshakes handshake with
    | headerAccepted salt timestamp length =>
      exact .inr (.inr ⟨handshake, salt, timestamp, length, rfl, phase, by simp [step, phase]⟩)
    | reading | accepted | rejected => exact .inl (by simpa [step, phase] using unchanged)
  | abort handshake reason =>
    cases phase : server.handshakes handshake with
    | reading | headerAccepted =>
      exact .inr (.inl ⟨handshake, .rejected reason, by simp [step, phase], by simp, by simp⟩)
    | accepted | rejected => exact .inl (by simpa [step, phase] using unchanged)

theorem insertSalt_cases (server : TcpServer Salt) (handshake : Nat) (salt : Salt) (timestamp : Nat) :
    ∃ phase, (server.insertSalt handshake salt timestamp).handshakes =
        Function.update server.handshakes handshake phase ∧
      (server.insertSalt handshake salt timestamp).now = server.now ∧
      (server.insertSalt handshake salt timestamp).calls = (salt, timestamp, server.now) :: server.calls ∧
      (server.insertSalt handshake salt timestamp).store = (server.store.checkAndInsert salt server.now).1 ∧
      ((phase = .accepted salt timestamp ∧ (server.store.checkAndInsert salt server.now).2 = .ok ()) ∨
        ∃ reason, phase = .rejected reason) := by
  unfold insertSalt
  dsimp only
  cases answer : (server.store.checkAndInsert salt server.now).2 with
  | ok => exact ⟨_, rfl, rfl, rfl, rfl, .inl ⟨rfl, rfl⟩⟩
  | error error => cases error <;> exact ⟨_, rfl, rfl, rfl, rfl, .inr ⟨_, rfl⟩⟩

variable {offset : Nat}

theorem SkewInvariant.step (inv : SkewInvariant offset server) (event : TcpEvent Salt) :
    SkewInvariant offset (server.step offset event) := by
  rcases server.step_cases offset event with ⟨nanos, next⟩ | ⟨handshake, phase, next, _, skew⟩ |
    ⟨handshake, salt, timestamp, length, _, pending, next⟩
  · rw [next]
    refine ⟨inv.calls, ?_⟩
    intro other salt timestamp length atOther
    have later := unixSeconds_mono offset (Nat.le_add_right server.now nanos)
    exact (inv.pending other salt timestamp length atOther).trans (Nat.add_le_add_right later 30)
  · rw [next]
    refine ⟨inv.calls, ?_⟩
    intro other salt timestamp length atOther
    by_cases same : other = handshake
    · subst same
      have near := skew salt timestamp length (by simpa [TcpServer.set] using atOther)
      change timestamp ≤ unixSeconds offset server.now + 30
      unfold absDiff at near
      omega
    · exact inv.pending other salt timestamp length (by simpa [TcpServer.set, same] using atOther)
  · rw [next]
    obtain ⟨phase, phases, sameNow, calls, _, outcome⟩ := server.insertSalt_cases handshake salt timestamp
    constructor
    · intro call member
      rw [calls] at member
      rcases List.mem_cons.mp member with rfl | old
      · exact inv.pending _ _ _ _ pending
      · exact inv.calls call old
    · intro other salt' timestamp' length' atOther
      rw [sameNow]
      rw [phases] at atOther
      by_cases same : other = handshake
      · subst same
        rcases outcome with ⟨rfl, _⟩ | ⟨reason, rfl⟩ <;> simp at atOther
      · exact inv.pending other salt' timestamp' length' (by simpa [same] using atOther)

theorem SkewInvariant.run (inv : SkewInvariant offset server) (events : List (TcpEvent Salt)) :
    SkewInvariant offset (server.run offset events) := by
  induction events generalizing server with
  | nil => exact inv
  | cons event rest ih => exact ih (inv.step event)

theorem insertSalt_keeps (server : TcpServer Salt) (handshake : Nat) (salt : Salt) (timestamp : Nat) :
    ReplayGuard.Keeps replayRetention server.guard (server.insertSalt handshake salt timestamp).guard := by
  obtain ⟨_, _, sameNow, calls, store, _⟩ := server.insertSalt_cases handshake salt timestamp
  constructor
  · exact sameNow.ge
  · intro call member
    change call ∈ List.map _ (server.insertSalt handshake salt timestamp).calls
    rw [calls]
    exact List.mem_cons_of_mem _ member
  · intro request instant held
    change (server.insertSalt handshake salt timestamp).store.entries.lookup request.1 = some instant ∨
      instant + replayRetention ≤ (server.insertSalt handshake salt timestamp).now
    rw [store, sameNow]
    by_cases young : server.now < instant + replayRetention
    · exact .inl (TcpReplayStore.checkAndInsert_retained held young).1
    · exact .inr (not_lt.mp young)

theorem safe_step (safe : server.guard.Safe replayRetention) {event : TcpEvent Salt} (spaced : server.SpacedCall event) :
    (server.step offset event).guard.Safe replayRetention := by
  rcases server.step_cases offset event with ⟨nanos, next⟩ | ⟨handshake, phase, next, undecided, _⟩ |
    ⟨handshake, salt, timestamp, length, rfl, pending, next⟩
  · rw [next]
    refine safe.pass ⟨Nat.le_add_right _ _, fun _ member => member, fun _ _ held => .inl held⟩ ?_
    exact fun _ _ accepted => accepted
  · rw [next]
    refine safe.pass ⟨le_rfl, fun _ member => member, fun _ _ held => .inl held⟩ ?_
    intro other request accepted
    have atOther := guard_accepted.mp accepted
    by_cases same : other = handshake
    · subst same
      exact absurd (by simpa [TcpServer.set] using atOther) (undecided request.1 request.2)
    · exact guard_accepted.mpr (by simpa [TcpServer.set, same] using atOther)
  · rw [next]
    have keeps := server.insertSalt_keeps handshake salt timestamp
    obtain ⟨phase, phases, _, calls, store, outcome⟩ := server.insertSalt_cases handshake salt timestamp
    have old : ∀ other request, (server.insertSalt handshake salt timestamp).guard.accepted other = some request →
        other = handshake ∧ phase = .accepted request.1 request.2 ∨ server.guard.accepted other = some request := by
      intro other request accepted
      have atOther := guard_accepted.mp accepted
      rw [phases] at atOther
      by_cases same : other = handshake
      · exact .inl ⟨same, by simpa [same] using atOther⟩
      · exact .inr (guard_accepted.mpr (by simpa [same] using atOther))
    rcases outcome with ⟨rfl, ok⟩ | ⟨reason, rfl⟩
    · have logged : ((salt, timestamp), server.now) ∈ (server.insertSalt handshake salt timestamp).guard.calls := by
        change _ ∈ List.map _ (server.insertSalt handshake salt timestamp).calls
        simp [calls]
      have held : (server.insertSalt handshake salt timestamp).guard.retained (salt, timestamp) server.now := by
        change (server.insertSalt handshake salt timestamp).store.entries.lookup salt = some server.now
        rw [store]
        exact TcpReplayStore.checkAndInsert_inserted ok
      refine safe.accept keeps handshake ?_ logged held ?_ ?_
      · intro other request accepted
        rcases old other request accepted with ⟨same, phase⟩ | before
        · cases phase
          exact .inl ⟨same, rfl⟩
        · exact .inr before
      · intro earlier kept
        by_contra young
        have duplicate : (server.store.checkAndInsert salt server.now).2 = .error .duplicate :=
          (TcpReplayStore.checkAndInsert_retained kept (not_le.mp young)).2 rfl
        simp [duplicate] at ok
      · simp only [SpacedCall, pending] at spaced
        intro instant member
        obtain ⟨call, inside, same⟩ := List.mem_map.mp member
        cases same
        exact spaced call inside rfl rfl
    · refine safe.pass keeps ?_
      intro other request accepted
      rcases old other request accepted with ⟨_, impossible⟩ | before
      · simp at impossible
      · exact before

theorem SpacedRun.isPrefix {before events : List (TcpEvent Salt)} (spaced : server.SpacedRun offset events)
    (part : before <+: events) : server.SpacedRun offset before := by
  induction before generalizing server events with
  | nil => trivial
  | cons event rest ih =>
    obtain ⟨tail, rfl⟩ := part
    exact ⟨spaced.1, ih spaced.2 ⟨tail, rfl⟩⟩

theorem safe_run (safe : server.guard.Safe replayRetention) {events : List (TcpEvent Salt)}
    (spaced : server.SpacedRun offset events) : (server.run offset events).guard.Safe replayRetention := by
  induction events generalizing server with
  | nil => exact safe
  | cons event rest ih => exact ih (safe_step safe spaced.1) spaced.2

omit [DecidableEq Salt] in
theorem SkewInvariant.spacedCall (inv : SkewInvariant offset server) {handshake timestamp length : Nat} {salt : Salt}
    (phase : server.handshakes handshake = .headerAccepted salt timestamp length)
    (fresh : unixSeconds offset server.now < timestamp + 30) : server.SpacedCall (.variablePart handshake) := by
  simp only [SpacedCall, phase]
  rintro call member _ rfl
  exact lt_retention_of_skew (inv.calls call member) fresh

/-- In every run whose `check_and_insert` calls for one salt and timestamp come less than 60 s after each other, no request
is accepted twice; a call before `timestamp + 30` always meets that condition. -/
theorem spaced_run_accepts_once (offset capacity : Nat) :
    (∀ events : List (TcpEvent Salt), (new capacity).SpacedRun offset events →
      ∀ before, before <+: events → ((new capacity).run offset before).AcceptsOnce) ∧
    ∀ (events : List (TcpEvent Salt)) (handshake : Nat) (salt : Salt) (timestamp length : Nat),
      ((new capacity).run offset events).handshakes handshake = .headerAccepted salt timestamp length →
      unixSeconds offset ((new capacity).run offset events).now < timestamp + 30 →
      ((new capacity).run offset events).SpacedCall (.variablePart handshake) := by
  constructor
  · intro events spaced before part
    exact acceptsOnce_iff.mpr (safe_run (new_safe capacity) (spaced.isPrefix part)).once
  · intro events handshake salt timestamp length phase fresh
    exact ((new_skewInvariant offset capacity).run events).spacedCall phase fresh

def sampleSalt : Vector UInt8 16 := Vector.replicate 16 7

/-- An opened fixed header with timestamp 1700000030 and a variable part of 7 bytes. -/
def sampleHeader : List UInt8 := [0, 0, 0, 0, 0, 0x65, 0x53, 0xf1, 0x1e, 0, 7]

/-- One captured request, presented twice with `seconds` in between. -/
def presentedTwice (seconds : Nat) : List (TcpEvent (Vector UInt8 16)) :=
  [.header 0 sampleSalt sampleHeader, .variablePart 0, .wait (seconds * nanosPerSecond),
    .header 1 sampleSalt sampleHeader, .variablePart 1]

theorem presentedTwice_accepted_once :
    (new 1024).SpacedRun (1700000000 * nanosPerSecond) (presentedTwice 59) ∧
      ((new 1024).run (1700000000 * nanosPerSecond) (presentedTwice 59)).AcceptsOnce := by
  have spaced : (new 1024).SpacedRun (1700000000 * nanosPerSecond) (presentedTwice 59) := by decide
  exact ⟨spaced, (spaced_run_accepts_once _ _).1 _ spaced _ List.prefix_rfl⟩

/-- At wall second 1700000000 the request is stamped 30 s ahead, 60 s later it is 30 s old: the
skew test admits it both times, and the store has just forgotten its salt. -/
theorem presentedTwice_accepted_twice :
    ¬((new 1024).run (1700000000 * nanosPerSecond) (presentedTwice 60)).AcceptsOnce := by
  intro once
  have first : ((new 1024).run (1700000000 * nanosPerSecond) (presentedTwice 60)).handshakes 0 =
      .accepted sampleSalt 1700000030 := by decide
  have second : ((new 1024).run (1700000000 * nanosPerSecond) (presentedTwice 60)).handshakes 1 =
      .accepted sampleSalt 1700000030 := by decide
  exact absurd (once _ _ _ _ first second) (by decide)

end Ferrum.Shadowsocks.TcpServer
