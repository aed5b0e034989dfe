import Ferrum.Runtime.UdpSessionManager

namespace Ferrum.Runtime

open Option Function List

namespace SessionState

variable {state : SessionState} {handle : UdpSessionHandle}

variable {entry : SessionEntry}

theorem matchingEntry_ok (ok : state.matchingEntry handle = .ok entry) :
    state.entries.lookup handle.slot = some entry ∧ entry.generation = handle.generation ∧
      state.fenced handle.generation = false := by
  unfold matchingEntry at ok
  split at ok
  · simp at ok
  · rename_i open_
    split at ok
    · rename_i found here
      split at ok
      · rename_i same
        cases ok
        exact ⟨here, same, by simpa using open_⟩
      · simp at ok
    · simp at ok

theorem lookup_removeEntry {slot other : Nat}
    (held : (state.removeEntry slot).entries.lookup other = some entry) : state.entries.lookup other = some entry := by
  simp only [removeEntry, HashMap.lookup_erase_eq] at held
  split at held
  · simp at held
  · exact held

theorem lookup_retireExact {other : Nat} {entry : SessionEntry}
    (held : (state.retireExact handle).entries.lookup other = some entry) : state.entries.lookup other = some entry := by
  unfold retireExact at held
  split at held
  · exact lookup_removeEntry held
  · exact held

/-- What `reserve_session` does: it is closed, it fails after the eviction, or it opens a session. -/
inductive ReserveEffect (limits : UdpRuntimeLimits) (state : SessionState) (now : Nat) :
    Except UdpRuntimeError UdpSessionHandle × SessionState → Prop
  | closed (closed : state.shuttingDown = true ∨ state.networkFence.isSome = true) :
      ReserveEffect limits state now (.error .cancelled, state)
  | failed (error : UdpRuntimeError) (free : state.shuttingDown = false ∧ state.networkFence = none) (number : Nat)
      (grows : (state.evictExpired limits now).nextGeneration ≤ number) :
      ReserveEffect limits state now (.error error, { state.evictExpired limits now with nextGeneration := number })
  | opened (slot : Nat) (free : state.shuttingDown = false ∧ state.networkFence = none) (small : slot < limits.maxSessions)
      (empty : (state.evictExpired limits now).entries.lookup slot = none) :
      ReserveEffect limits state now (.ok ⟨slot, (state.evictExpired limits now).nextGeneration + 1⟩,
        ({ state.evictExpired limits now with
            nextGeneration := (state.evictExpired limits now).nextGeneration + 1 } : SessionState).setEntry slot
          (.new ((state.evictExpired limits now).nextGeneration + 1) now))

theorem reserveSession_effect (limits : UdpRuntimeLimits) (state : SessionState) (now : Nat) :
    ReserveEffect limits state now (state.reserveSession limits now) := by
  unfold reserveSession
  split
  · rename_i closed
    exact .closed closed
  · rename_i admitted
    have free : state.shuttingDown = false ∧ state.networkFence = none := by
      simpa [not_or] using admitted
    unfold openSession
    split
    · exact .failed _ free _ le_rfl
    · split
      · exact .failed _ free _ le_rfl
      · simp only
        split
        · rename_i slot found
          have small := mem_range.mp (mem_of_find?_eq_some found)
          have empty := List.find?_some found
          exact .opened slot free small (by simpa using empty)
        · exact .failed _ free _ (Nat.le_succ _)

/-- A capability that reaches a live session. -/
structure Reaches (state : SessionState) (handle : UdpSessionHandle) (entry : SessionEntry) : Prop where
  here : state.entries.lookup handle.slot = some entry
  generation : entry.generation = handle.generation
  unfenced : state.fenced handle.generation = false

theorem reaches_of_ok (ok : state.matchingEntry handle = .ok entry) : Reaches state handle entry := by
  obtain ⟨here, generation, unfenced⟩ := matchingEntry_ok ok
  exact ⟨here, generation, unfenced⟩

/-- What `reserve_datagram_with_reservation` does. -/
inductive DatagramEffect (state : SessionState) (handle : UdpSessionHandle) (direction : UdpDirection) :
    Except UdpRuntimeError Unit × SessionState → Prop
  | refused (error : UdpRuntimeError) : DatagramEffect state handle direction (.error error, state)
  | reserved (entry : SessionEntry) (reaches : Reaches state handle entry) (running : state.shuttingDown = false)
      (room : entry.pending direction + (entry.queues direction).len < udpSessionQueueDepth) :
      DatagramEffect state handle direction (.ok (), state.setEntry handle.slot (entry.reserve direction))

theorem reserveDatagram_effect (state : SessionState) (handle : UdpSessionHandle) (direction : UdpDirection)
    (requireCommitted : Bool) :
    DatagramEffect state handle direction (state.reserveDatagram handle direction requireCommitted) := by
  unfold reserveDatagram
  split
  · exact .refused _
  · rename_i running
    split
    · exact .refused _
    · rename_i entry ok
      split
      · exact .refused _
      · split
        · exact .refused _
        · rename_i room
          exact .reserved entry (reaches_of_ok ok) (by simpa using running) (by omega)

/-- What the locked part of a commit does: it changes nothing, it retires the session, or it commits. -/
inductive CommitEffect {E : Type} (state : SessionState) (handle : UdpSessionHandle) (direction : UdpDirection) (now : Nat)
    (queued : Option AccountedDatagram) : Except (UdpCommitError E) Unit × SessionState → Prop
  | refused (error : UdpCommitError E) (different : error ≠ .runtime .stateUnavailable) :
      CommitEffect state handle direction now queued (.error error, state)
  | broken (entry : SessionEntry) (reaches : Reaches state handle entry) (none : entry.pending direction = 0) :
      CommitEffect state handle direction now queued
        (.error (.runtime .stateUnavailable), ({ state with cleanupFailed := true } : SessionState).retireExact handle)
  | panicked :
      CommitEffect state handle direction now queued
        (.error (.runtime .protocolPanicked), ({ state with cleanupFailed := true } : SessionState).retireExact handle)
  | accepted (entry : SessionEntry) (reaches : Reaches state handle entry) (running : state.shuttingDown = false)
      (positive : 0 < entry.pending direction) :
      CommitEffect state handle direction now queued
        (.ok (), state.setEntry handle.slot (entry.accept direction now queued))

theorem matchingEntry_error {error : UdpRuntimeError} (failed : state.matchingEntry handle = .error error) :
    error = .cancelled := by
  unfold matchingEntry at failed
  split at failed
  · cases failed
    rfl
  · split at failed
    · split at failed
      · simp at failed
      · cases failed
        rfl
    · cases failed
      rfl

theorem commitEntry_effect {E : Type} (state : SessionState) (handle : UdpSessionHandle) (direction : UdpDirection)
    (activateSession : Bool) (now : Nat) (outcome : ProtocolOutcome E) (queued : Option AccountedDatagram) :
    CommitEffect state handle direction now queued
      (state.commitEntry handle direction activateSession now outcome queued) := by
  unfold commitEntry
  split
  · exact .refused _ (by simp)
  · rename_i running
    split
    · rename_i error failed
      rw [matchingEntry_error failed]
      exact .refused _ (by simp)
    · rename_i entry ok
      split
      · exact .refused _ (by simp)
      · split
        · rename_i none
          exact .broken entry (reaches_of_ok ok) none
        · rename_i positive
          split
          · exact .refused _ (by simp)
          · exact .panicked
          · simp only
            exact .accepted entry (reaches_of_ok ok) (by simpa using running) (Nat.pos_of_ne_zero positive)

theorem retireExact_next : (state.retireExact handle).nextGeneration = state.nextGeneration := by
  unfold retireExact
  split <;> rfl

end SessionState

namespace SessionManager

variable {E : Type} {limits : UdpRuntimeLimits} {manager : SessionManager}

section Tokens

variable {place : Nat} {token : PendingUdpDatagram}

theorem keys_getElem? (here : manager.datagrams[place]? = some token) :
    manager.keys[place]? = some (token.handle, token.direction) := by
  rw [keys, List.getElem?_map, here]
  rfl

theorem keys_spend (here : manager.datagrams[place]? = some token) :
    (manager.spend place token).keys = manager.keys := by
  have same := keys_getElem? here
  obtain ⟨inside, value⟩ := List.getElem?_eq_some_iff.mp same
  simp only [keys, spend, map_set] at value ⊢
  rw [← value]
  exact set_getElem_self inside

theorem Invariant.spend (invariant : Invariant limits manager)
    (here : manager.datagrams[place]? = some token) : Invariant limits (manager.spend place token) := by
  have same := keys_spend here
  refine invariant.shrink (fun _ _ held => held) le_rfl ?_ ?_ rfl rfl rfl
  · rw [same]
    exact fun _ member => member
  · intro slot entry direction _
    rw [same]

end Tokens

section Sessions

theorem Invariant.evictExpired (invariant : Invariant limits manager) (now : Nat) :
    Invariant limits { manager with state := manager.state.evictExpired limits now } := by
  unfold SessionState.evictExpired
  split
  · split
    · exact invariant.withState (fun _ _ held => SessionState.lookup_removeEntry held) le_rfl
    · exact invariant
  · exact invariant

/-- The manager after a session was opened in a free slot. -/
def opening (manager : SessionManager) (slot now : Nat) : SessionManager :=
  { manager with
    state := ({ manager.state with nextGeneration := manager.state.nextGeneration + 1 } : SessionState).setEntry slot
      (.new (manager.state.nextGeneration + 1) now)
    sessions := manager.sessions ++ [⟨⟨slot, manager.state.nextGeneration + 1⟩⟩]
    opened := manager.opened ++ [manager.state.nextGeneration + 1] }

theorem Invariant.opening (invariant : Invariant limits manager) {slot : Nat} (small : slot < limits.maxSessions)
    (now : Nat) : Invariant limits (manager.opening slot now) := by
  have unborn : ∀ generation ∈ manager.opened, generation ≠ manager.state.nextGeneration + 1 := by
    intro generation member
    have bounded := invariant.numbered _ member
    omega
  have lookup : ∀ other found, (manager.opening slot now).state.entries.lookup other = some found →
      other = slot ∧ found = .new (manager.state.nextGeneration + 1) now ∨
        other ≠ slot ∧ manager.state.entries.lookup other = some found := by
    intro other found at_
    simp only [SessionManager.opening, SessionState.setEntry, HashMap.lookup_insert_eq] at at_
    split at at_
    · rename_i same
      exact .inl ⟨same, (some.inj at_).symm⟩
    · rename_i different
      exact .inr ⟨different, at_⟩
  refine ⟨?_, ?_, ?_, ?_, ?_, ?_, ?_, ?_, invariant.prefixes⟩
  · intro other found at_
    rcases lookup other found at_ with ⟨rfl, -⟩ | ⟨-, held⟩
    · exact small
    · exact invariant.slots other found held
  · intro other found at_
    rcases lookup other found at_ with ⟨-, rfl⟩ | ⟨-, held⟩
    · exact mem_append_right _ (mem_singleton_self _)
    · exact mem_append_left _ (invariant.live other found held)
  · intro first second found another atFirst atSecond same
    rcases lookup first found atFirst with ⟨rfl, rfl⟩ | ⟨-, heldFirst⟩
    · rcases lookup second another atSecond with ⟨rfl, -⟩ | ⟨-, heldSecond⟩
      · rfl
      · exact absurd same.symm (unborn _ (invariant.live second another heldSecond))
    · rcases lookup second another atSecond with ⟨rfl, rfl⟩ | ⟨-, heldSecond⟩
      · exact absurd same (unborn _ (invariant.live first found heldFirst))
      · exact invariant.distinct first second found another heldFirst heldSecond same
  · rw [SessionManager.opening, nodup_append]
    refine ⟨invariant.opened, nodup_singleton _, ?_⟩
    intro generation member fresh isFresh same
    rw [mem_singleton.mp isFresh] at same
    exact unborn generation member same
  · intro generation member
    rcases mem_append.mp member with old | new
    · exact (invariant.numbered generation old).trans (Nat.le_succ _)
    · rw [mem_singleton.mp new]
      exact le_rfl
  · intro key member
    obtain ⟨born, place⟩ := invariant.tokens key member
    refine ⟨mem_append_left _ born, fun other found at_ same => ?_⟩
    rcases lookup other found at_ with ⟨-, rfl⟩ | ⟨-, held⟩
    · exact absurd same.symm (unborn _ born)
    · exact place other found held same
  · intro other found at_ direction
    rcases lookup other found at_ with ⟨-, rfl⟩ | ⟨-, held⟩
    · refine ⟨?_, [], RingQueue.holds_new, Nat.zero_le _, ?_⟩
      · have none : outstanding manager.keys (manager.state.nextGeneration + 1) direction = 0 := by
          rw [outstanding, countP_eq_zero]
          intro key member
          simp only [decide_eq_true_eq, not_and]
          intro same
          exact absurd same (unborn _ (invariant.tokens key member).1)
        exact none.symm
      · have nothing : historyOf manager.committed (manager.state.nextGeneration + 1) direction = [] :=
          historyOf_eq_nil (fun item member => unborn _ (invariant.logged item member)) direction
        have none := invariant.prefixes (manager.state.nextGeneration + 1) direction
        rw [nothing, prefix_nil] at none
        simp only [SessionManager.opening, SessionEntry.new, nothing, none, append_nil]
    · have holds := invariant.queues other found held direction
      exact ⟨holds.counted, holds.queued⟩
  · intro item member
    exact mem_append_left _ (invariant.logged item member)

theorem Invariant.reserveSession (invariant : Invariant limits manager) (now : Nat) :
    Invariant limits (manager.reserveSession limits now).2 := by
  have effect := SessionState.reserveSession_effect limits manager.state now
  have evicted := invariant.evictExpired now
  simp only [SessionManager.reserveSession]
  generalize manager.state.reserveSession limits now = outcome at effect
  cases effect with
  | closed closed => exact invariant
  | failed error free number grows => exact evicted.withState (fun _ _ held => held) grows
  | opened slot free small empty => exact evicted.opening small now

end Sessions

section Datagrams

theorem Invariant.reserveDatagram (invariant : Invariant limits manager) (handle : UdpSessionHandle)
    (direction : UdpDirection) (requireCommitted : Bool) (capacity : Nat) :
    Invariant limits (manager.reserveDatagram handle direction requireCommitted capacity).2 := by
  have effect := SessionState.reserveDatagram_effect manager.state handle direction requireCommitted
  simp only [SessionManager.reserveDatagram]
  generalize manager.state.reserveDatagram handle direction requireCommitted = outcome at effect
  cases effect with
  | refused error => exact invariant
  | reserved entry reaches running room =>
    have added : ∀ generation other, outstanding (manager.keys ++ [(handle, direction)]) generation other =
        outstanding manager.keys generation other +
          if handle.generation = generation ∧ direction = other then 1 else 0 :=
      fun generation other => outstanding_append manager.keys (handle, direction) generation other
    have keys : (({ manager with
        state := manager.state.setEntry handle.slot (entry.reserve direction)
        datagrams := manager.datagrams ++ [⟨handle, direction, some capacity⟩] } : SessionManager)).keys =
        manager.keys ++ [(handle, direction)] := by
      simp [SessionManager.keys]
    refine invariant.update (entry.reserve direction) reaches.here rfl rfl rfl ?_ rfl (fun item member => .inl member) ?_ ?_
    · intro key member
      rw [keys] at member
      rcases mem_append.mp member with known | fresh
      · exact .inl known
      · rw [mem_singleton.mp fresh, reaches.generation]
        exact .inr rfl
    · intro other another different
      refine ⟨?_, rfl, rfl⟩
      rw [keys, added, if_neg fun same => different (same.1.symm.trans reaches.generation.symm)]
      exact Nat.add_zero _
    · intro another
      obtain ⟨counted, values, holds, fits, history⟩ := invariant.queues handle.slot entry reaches.here another
      refine ⟨?_, values, holds, ?_, history⟩
      · rw [keys, added]
        simp only [SessionEntry.reserve, ← reaches.generation, true_and]
        by_cases same : direction = another
        · subst same
          rw [update_self, if_pos rfl, counted]
        · rw [update_of_ne (Ne.symm same), if_neg same, counted]
          rfl
      · simp only [SessionEntry.reserve]
        by_cases same : direction = another
        · subst same
          rw [update_self, ← holds.len]
          omega
        · rw [update_of_ne (Ne.symm same)]
          exact fits

theorem keys_eraseIdx (place : Nat) (state : SessionState) (committed : List (Nat × UdpDirection × AccountedDatagram)) :
    ({ manager with state, committed, datagrams := manager.datagrams.eraseIdx place } : SessionManager).keys =
      manager.keys.eraseIdx place := by
  simp only [SessionManager.keys, eraseIdx_map]

theorem Invariant.retireExact (invariant : Invariant limits manager) (handle : UdpSessionHandle) (failed : Bool) :
    Invariant limits { manager with
      state := ({ manager.state with cleanupFailed := failed } : SessionState).retireExact handle } := by
  refine invariant.withState (fun slot entry held => ?_) ?_
  · exact @SessionState.lookup_retireExact { manager.state with cleanupFailed := failed } handle slot entry held
  · rw [SessionState.retireExact_next]

theorem accept_generation (entry : SessionEntry) (direction : UdpDirection) (now : Nat)
    (queued : Option AccountedDatagram) : (entry.accept direction now queued).generation = entry.generation := by
  cases queued <;> rfl

theorem accept_pending (entry : SessionEntry) (direction : UdpDirection) (now : Nat) (queued : Option AccountedDatagram) :
    (entry.accept direction now queued).pending =
      update entry.pending direction (entry.pending direction - 1) := by
  cases queued <;> rfl

variable {place : Nat} {token : PendingUdpDatagram}

theorem Invariant.pending_pos (invariant : Invariant limits manager)
    (here : manager.datagrams[place]? = some token) {entry : SessionEntry}
    (held : manager.state.entries.lookup token.handle.slot = some entry)
    (same : entry.generation = token.handle.generation) : 0 < entry.pending token.direction := by
  have counted := (invariant.queues token.handle.slot entry held token.direction).counted
  have positive := outstanding_pos (mem_of_getElem? (keys_getElem? here))
  rw [counted, same]
  exact positive

theorem Invariant.counted_eraseIdx (invariant : Invariant limits manager)
    (here : manager.datagrams[place]? = some token) {entry : SessionEntry}
    (held : manager.state.entries.lookup token.handle.slot = some entry)
    (same : entry.generation = token.handle.generation) (direction : UdpDirection) :
    Function.update entry.pending token.direction (entry.pending token.direction - 1) direction =
      outstanding (manager.keys.eraseIdx place) entry.generation direction := by
  have counted := (invariant.queues token.handle.slot entry held direction).counted
  have erased := outstanding_eraseIdx (keys_getElem? here) entry.generation direction
  by_cases own : token.direction = direction
  · subst own
    rw [update_self, counted, erased, if_pos ⟨same.symm, rfl⟩]
    rfl
  · rw [update_of_ne (Ne.symm own), counted, erased, if_neg fun both => own both.2]
    rfl

theorem outstanding_eraseIdx_ne
    (here : manager.datagrams[place]? = some token) {generation : Nat} (different : generation ≠ token.handle.generation)
    (direction : UdpDirection) :
    outstanding (manager.keys.eraseIdx place) generation direction = outstanding manager.keys generation direction := by
  rw [outstanding_eraseIdx (keys_getElem? here) generation direction, if_neg fun same => different same.1.symm]
  rfl

section

variable (invariant : Invariant limits manager)
include invariant

theorem Invariant.accepted {place : Nat} {token : PendingUdpDatagram}
    (here : manager.datagrams[place]? = some token) {entry : SessionEntry}
    (reaches : SessionState.Reaches manager.state token.handle entry) (now : Nat) (queued : Option AccountedDatagram) :
    Invariant limits { manager with
      state := manager.state.setEntry token.handle.slot (entry.accept token.direction now queued)
      datagrams := manager.datagrams.eraseIdx place
      committed := manager.committed ++
        queued.toList.map fun datagram => (token.handle.generation, token.direction, datagram) } := by
  have keys := @keys_eraseIdx manager place
    (manager.state.setEntry token.handle.slot (entry.accept token.direction now queued))
    (manager.committed ++ queued.toList.map fun datagram => (token.handle.generation, token.direction, datagram))
  have positive := invariant.pending_pos here reaches.here reaches.generation
  refine invariant.update (entry.accept token.direction now queued) reaches.here (accept_generation _ _ _ _) rfl rfl ?_
    rfl ?_ ?_ ?_
  · intro key member
    rw [keys] at member
    exact .inl (mem_of_mem_eraseIdx member)
  · intro item member
    rcases mem_append.mp member with old | new
    · exact .inl old
    · obtain ⟨datagram, -, rfl⟩ := mem_map.mp new
      exact .inr reaches.generation.symm
  · intro other direction different
    refine ⟨?_, ?_, rfl⟩
    · rw [keys, outstanding_eraseIdx_ne here (fun same => different (same.trans reaches.generation.symm))]
    · rw [historyOf_append, historyOf_tagged, if_neg, append_nil]
      exact fun same => different (same.1.symm.trans reaches.generation.symm)
  · intro direction
    obtain ⟨-, values, holds, fits, history⟩ := invariant.queues token.handle.slot entry reaches.here direction
    have counted := invariant.counted_eraseIdx here reaches.here reaches.generation direction
    have less : (entry.accept token.direction now queued).pending direction ≤ entry.pending direction := by
      rw [accept_pending]
      by_cases own : direction = token.direction
      · subst own
        rw [update_self]
        omega
      · rw [update_of_ne own]
    refine ⟨?_, ?_⟩
    · rw [keys, accept_pending, accept_generation]
      exact counted
    · rw [accept_generation, historyOf_append, historyOf_tagged, history]
      by_cases own : token.direction = direction
      · subst own
        rw [if_pos ⟨reaches.generation.symm, rfl⟩]
        cases queued with
        | none => exact ⟨values, holds, by omega, by simp⟩
        | some datagram =>
          have room : values.length < udpSessionQueueDepth := by omega
          refine ⟨values ++ [datagram], ?_, ?_, by simp⟩
          · have pushed := holds.pushBack room datagram
            simpa only [SessionEntry.accept, SessionEntry.push, SessionEntry.touch, SessionEntry.release,
              update_self] using pushed
          · rw [accept_pending, update_self, length_append, length_singleton]
            omega
      · rw [if_neg fun both => own both.2, append_nil]
        refine ⟨values, ?_, by omega, rfl⟩
        cases queued with
        | none => exact holds
        | some datagram =>
          simpa only [SessionEntry.accept, SessionEntry.push, SessionEntry.touch, SessionEntry.release,
            update_of_ne (Ne.symm own)] using holds

theorem Invariant.commitToken {place : Nat} {token : PendingUdpDatagram}
    (here : manager.datagrams[place]? = some token) (activateSession : Bool) (kind : CommitKind E) (now : Nat) :
    Invariant limits (manager.commitToken place token activateSession kind now).2 ∧
      (manager.commitToken place token activateSession kind now).1 ≠ .error (.runtime .stateUnavailable) := by
  have spent := invariant.spend here
  unfold SessionManager.commitToken
  split
  · exact ⟨spent, by simp⟩
  · rename_i capacity reserved
    split
    · rename_i error failed
      refine ⟨spent, ?_⟩
      cases kind with
      | queue datagram outcome | immediate datagram outcome =>
        simp only [CommitKind.attached, attach] at failed
        split at failed
        · cases failed
          simp
        · simp [Except.map] at failed
      | activity => simp [CommitKind.attached] at failed
    · rename_i accounted attached
      have effect := SessionState.commitEntry_effect manager.state token.handle token.direction activateSession now
        kind.outcome (kind.pushed accounted)
      simp only
      generalize manager.state.commitEntry token.handle token.direction activateSession now kind.outcome
        (kind.pushed accounted) = outcome at effect
      cases effect with
      | refused error different => exact ⟨spent, by simpa using different⟩
      | broken entry reaches none =>
        have positive := invariant.pending_pos here reaches.here reaches.generation
        omega
      | panicked => exact ⟨spent.retireExact token.handle true, by simp⟩
      | accepted entry reaches running positive => exact ⟨invariant.accepted here reaches now _, by simp⟩

theorem Invariant.dropDatagram {place : Nat} {token : PendingUdpDatagram}
    (here : manager.datagrams[place]? = some token) : Invariant limits (manager.dropDatagram place token) := by
  have gone : (∀ entry, manager.state.entries.lookup token.handle.slot = some entry →
      entry.generation ≠ token.handle.generation) →
      Invariant limits { manager with datagrams := manager.datagrams.eraseIdx place } := by
    intro dead
    have keys := @keys_eraseIdx manager place manager.state manager.committed
    refine invariant.shrink (fun _ _ held => held) le_rfl ?_ ?_ rfl rfl rfl
    · intro key member
      rw [keys] at member
      exact mem_of_mem_eraseIdx member
    · intro slot entry direction held
      rw [keys]
      refine outstanding_eraseIdx_ne here (fun same => ?_) direction
      have place := (invariant.tokens _ (mem_of_getElem? (keys_getElem? here))).2 slot entry held same
      exact dead entry (place ▸ held) same
  unfold SessionManager.dropDatagram SessionState.releasePending
  split
  · rename_i entry held
    split
    · rename_i same
      split
      · rename_i none
        have positive := invariant.pending_pos here held same
        omega
      · have keys := @keys_eraseIdx manager place (manager.state.setEntry token.handle.slot (entry.release token.direction))
          manager.committed
        refine invariant.update (entry.release token.direction) held rfl rfl rfl ?_ rfl
          (fun item member => .inl member) ?_ ?_
        · intro key member
          rw [keys] at member
          exact .inl (mem_of_mem_eraseIdx member)
        · intro other direction different
          refine ⟨?_, rfl, rfl⟩
          rw [keys, outstanding_eraseIdx_ne here (fun equal => different (equal.trans same.symm))]
        · intro direction
          obtain ⟨-, values, holds, fits, history⟩ := invariant.queues token.handle.slot entry held direction
          refine ⟨?_, values, holds, ?_, history⟩
          · rw [keys]
            exact invariant.counted_eraseIdx here held same direction
          · simp only [SessionEntry.release]
            by_cases own : direction = token.direction
            · subst own
              rw [update_self]
              omega
            · rw [update_of_ne own]
              exact fits
    · rename_i different
      refine gone fun other found same => ?_
      rw [held] at found
      cases found
      exact different same
  · rename_i absent
    refine gone fun other found => ?_
    rw [absent] at found
    simp at found

theorem Invariant.pop (handle : UdpSessionHandle) (direction : UdpDirection) :
    Invariant limits (manager.pop handle direction).2 := by
  unfold SessionManager.pop SessionState.pop
  cases ok : manager.state.matchingEntry handle with
  | error error => exact invariant
  | ok entry =>
    have reaches := SessionState.reaches_of_ok ok
    by_cases committed : entry.committed = true
    · simp only [if_pos committed, SessionState.popEntry]
      refine invariant.update
        { entry with queues := Function.update entry.queues direction (entry.queues direction).popFront.2 } reaches.here
        rfl rfl rfl (fun key member => Or.inl member) rfl (fun item member => Or.inl member) ?_ ?_
      · intro other another different
        refine ⟨rfl, rfl, ?_⟩
        rw [historyOf_append, historyOf_tagged, if_neg, append_nil]
        exact fun same => different (same.1.symm.trans reaches.generation.symm)
      · intro another
        obtain ⟨counted, values, holds, fits, history⟩ := invariant.queues handle.slot entry reaches.here another
        refine ⟨counted, ?_⟩
        rw [historyOf_append, historyOf_tagged]
        by_cases own : direction = another
        · subst own
          rw [if_pos ⟨reaches.generation.symm, rfl⟩]
          simp only [update_self]
          cases values with
          | nil =>
            rw [holds.popFront_nil]
            exact ⟨[], holds, fits, by simpa using history⟩
          | cons first rest =>
            obtain ⟨value, remains⟩ := holds.popFront_cons
            refine ⟨rest, remains, ?_, ?_⟩
            · simp only [length_cons] at fits ⊢
              omega
            · rw [value]
              simpa using history
        · rw [if_neg fun both => own both.2, append_nil]
          simp only [update_of_ne (Ne.symm own)]
          exact ⟨values, holds, fits, history⟩
    · simp only [if_neg committed]
      exact invariant

theorem Invariant.commitActivity (handle : UdpSessionHandle) (now : Nat) :
    Invariant limits { manager with state := (manager.state.commitActivity handle now).2 } := by
  unfold SessionState.commitActivity
  split
  · exact invariant
  · split
    · exact invariant
    · rename_i entry ok
      have reaches := SessionState.reaches_of_ok ok
      split
      · refine invariant.update (entry.touch now) reaches.here rfl rfl rfl (fun key member => .inl member) rfl
          (fun item member => .inl member) (fun _ _ _ => ⟨rfl, rfl, rfl⟩) fun direction => ?_
        have holds := invariant.queues handle.slot entry reaches.here direction
        exact ⟨holds.counted, holds.queued⟩
      · exact invariant

end

end Datagrams

section

variable (invariant : Invariant limits manager)
include invariant

theorem Invariant.fence (generation : Nat) :
    Invariant limits { manager with state := (manager.state.fenceNetworkGeneration generation).2 } := by
  unfold SessionState.fenceNetworkGeneration
  split
  · exact invariant
  · split
    · split <;> exact invariant
    · split
      · exact invariant
      · exact invariant.withState (fun _ _ held => held) le_rfl

theorem Invariant.retire (generation : Nat) :
    Invariant limits { manager with state := (manager.state.retireNetworkGeneration generation).2 } := by
  unfold SessionState.retireNetworkGeneration
  split
  · split <;> exact invariant
  · split
    · exact invariant
    · split
      · exact invariant
      · refine invariant.withState (fun slot entry held => ?_) le_rfl
        rw [HashMap.lookup_retain, filter_eq_some_iff] at held
        exact held.1

theorem Invariant.reopen (generation : Nat) :
    Invariant limits { manager with state := (manager.state.reopenNetworkGeneration generation).2 } := by
  unfold SessionState.reopenNetworkGeneration
  split
  · exact invariant
  · split
    · split
      · exact invariant.withState (fun _ _ held => held) le_rfl
      · exact invariant
    · split <;> exact invariant

theorem Invariant.commitSession (sessionPlace : Nat) (session : PendingUdpSession)
    {place : Nat} {token : PendingUdpDatagram} (here : manager.datagrams[place]? = some token) (kind : CommitKind E)
    (now : Nat) :
    Invariant limits (manager.commitSession sessionPlace session place token kind now).2 ∧
      (manager.commitSession sessionPlace session place token kind now).1 ≠ .error (.runtime .stateUnavailable) := by
  unfold SessionManager.commitSession
  split
  · exact ⟨invariant.spend here, by simp⟩
  · obtain ⟨kept, sound⟩ := invariant.commitToken here true kind now
    simp only
    split
    · rename_i error failed
      rw [failed] at sound
      exact ⟨kept, sound⟩
    · exact ⟨kept.shrink (fun _ _ held => held) le_rfl (fun _ member => member) (fun _ _ _ _ => rfl) rfl rfl rfl, by simp⟩

theorem Invariant.step {move : SessionMove E} {reply : SessionReply E}
    {next : SessionManager} (run : manager.step limits move = some (reply, next)) :
    Invariant limits next ∧ ∀ handle, reply ≠ .committed handle (.error (.runtime .stateUnavailable)) := by
  cases move with
  | reserveSession now =>
    cases run
    exact ⟨invariant.reserveSession now, by simp⟩
  | reserveDatagram handle direction requireCommitted capacity =>
    cases run
    exact ⟨invariant.reserveDatagram handle direction requireCommitted capacity, by simp⟩
  | commit place kind now =>
    simp only [SessionManager.step, map_eq_some_iff, Prod.mk.injEq] at run
    obtain ⟨token, here, rfl, rfl⟩ := run
    obtain ⟨kept, sound⟩ := invariant.commitToken here false kind now
    exact ⟨kept, fun handle same => sound (SessionReply.committed.inj same).2⟩
  | commitSession sessionPlace place kind now =>
    simp only [SessionManager.step, bind_eq_some_iff, map_eq_some_iff, Prod.mk.injEq] at run
    obtain ⟨session, -, token, here, rfl, rfl⟩ := run
    obtain ⟨kept, sound⟩ := invariant.commitSession sessionPlace session here kind now
    exact ⟨kept, fun handle same => sound (SessionReply.committed.inj same).2⟩
  | dropDatagram place =>
    simp only [SessionManager.step, map_eq_some_iff, Prod.mk.injEq] at run
    obtain ⟨token, here, rfl, rfl⟩ := run
    exact ⟨invariant.dropDatagram here, by simp⟩
  | dropSession place =>
    simp only [SessionManager.step, map_eq_some_iff, Prod.mk.injEq] at run
    obtain ⟨session, -, rfl, rfl⟩ := run
    have retired := invariant.retireExact session.handle manager.state.cleanupFailed
    exact ⟨retired.shrink (fun _ _ held => held) le_rfl (fun _ member => member) (fun _ _ _ _ => rfl) rfl rfl rfl,
      by simp⟩
  | pop handle direction =>
    cases run
    exact ⟨invariant.pop handle direction, by simp⟩
  | commitActivity handle now =>
    cases run
    exact ⟨invariant.commitActivity handle now, by simp⟩
  | retainLiveSessions handles =>
    cases run
    exact ⟨invariant, by simp⟩
  | remove handle =>
    cases run
    exact ⟨invariant.retireExact handle manager.state.cleanupFailed, by simp⟩
  | cancelAll =>
    cases run
    refine ⟨invariant.withState (fun slot entry held => ?_) le_rfl, by simp⟩
    simp [SessionState.cancelAll] at held
  | signalAll =>
    cases run
    exact ⟨invariant.withState (fun _ _ held => held) le_rfl, by simp⟩
  | fence generation =>
    cases run
    exact ⟨invariant.fence generation, by simp⟩
  | retire generation =>
    cases run
    exact ⟨invariant.retire generation, by simp⟩
  | reopen generation =>
    cases run
    exact ⟨invariant.reopen generation, by simp⟩

end

theorem Run.invariant {replies : List (SessionReply E)} {last : SessionManager} (run : Run limits manager replies last)
    (invariant : Invariant limits manager) : Invariant limits last ∧
      ∀ handle, .committed handle (.error (.runtime .stateUnavailable)) ∉ replies := by
  induction run with
  | nil manager => exact ⟨invariant, fun _ => not_mem_nil⟩
  | cons first rest ih =>
    obtain ⟨kept, sound⟩ := invariant.step first
    obtain ⟨final, quiet⟩ := ih kept
    refine ⟨final, fun handle member => ?_⟩
    rcases mem_cons.mp member with same | later
    · exact sound handle same.symm
    · exact quiet handle later

theorem Invariant.len_le (invariant : Invariant limits manager) : manager.state.entries.len ≤ limits.maxSessions := by
  rw [HashMap.len_eq_keys]
  have inside : manager.state.entries.keys ⊆ List.range limits.maxSessions := by
    intro slot member
    obtain ⟨entry, held⟩ := isSome_iff_exists.mp (AList.lookup_isSome.mpr (AList.mem_keys.mpr member))
    exact mem_range.mpr (invariant.slots slot entry held)
  have shorter := (subperm_of_subset manager.state.entries.keys_nodup inside).length_le
  simpa using shorter

/-- In every state that a run reaches the sessions are within their limit, the reservations of each are its outstanding
tokens, and what was popped from a queue is what was committed to it, in order. -/
theorem session_accounting {replies : List (SessionReply E)} (reach : Run limits .new replies manager) :
    manager.state.entries.len ≤ limits.maxSessions ∧
    (∀ slot other entry another, manager.state.entries.lookup slot = some entry →
      manager.state.entries.lookup other = some another → entry.generation = another.generation → slot = other) ∧
    manager.opened.Nodup ∧
    (∀ slot entry, manager.state.entries.lookup slot = some entry → entry.generation ∈ manager.opened ∧
      ∀ direction,
        entry.pending direction = outstanding manager.keys entry.generation direction ∧
        entry.pending direction + (entry.queues direction).len ≤ udpSessionQueueDepth ∧
        (0 < entry.pending direction → (entry.queues direction).entries (entry.queues direction).tail = none) ∧
        ∃ values, (entry.queues direction).Holds values ∧
          historyOf manager.committed entry.generation direction =
            historyOf manager.popped entry.generation direction ++ values) ∧
    (∀ generation direction,
      historyOf manager.popped generation direction <+: historyOf manager.committed generation direction) ∧
    ∀ handle, .committed handle (.error (.runtime .stateUnavailable)) ∉ replies := by
  obtain ⟨invariant, quiet⟩ := reach.invariant invariant_new
  refine ⟨invariant.len_le, invariant.distinct, invariant.opened, ?_, invariant.prefixes, quiet⟩
  intro slot entry held
  refine ⟨invariant.live slot entry held, fun direction => ?_⟩
  obtain ⟨counted, values, holds, fits, history⟩ := invariant.queues slot entry held direction
  refine ⟨counted, ?_, fun positive => holds.tail_free (by omega), values, holds, history⟩
  rw [holds.len]
  exact fits

def sampleLimits : UdpRuntimeLimits :=
  { maxSessions := 1, maxBufferedBytes := 1048576, idleTimeout := 60, sessionsBounded := by decide }

def sampleDatagram : OwnedDatagram :=
  { datagram := ⟨⟨.ip (.v4 (.new 192 0 2 1)), 5353, by decide⟩, [120]⟩, allocatedCapacity := 32 }

/-- A session is opened and committed with its first datagram while a second token is outstanding. -/
theorem sampleRun_accounting : ∃ (replies : List (SessionReply Unit)) (manager : SessionManager),
    Run sampleLimits .new replies manager ∧
      ∃ entry, manager.state.entries.lookup 0 = some entry ∧ entry.committed = true ∧
        entry.pending .toTarget = outstanding manager.keys 1 .toTarget ∧
          outstanding manager.keys 1 .toTarget = 1 ∧ manager.opened.Nodup := by
  have reach : @Run Unit sampleLimits .new _ _ :=
    @Run.cons _ _ _ _ _ (.reserveSession 5) _ _ rfl <|
    @Run.cons _ _ _ _ _ (.reserveDatagram ⟨0, 1⟩ .toTarget false 32) _ _ rfl <|
    @Run.cons _ _ _ _ _ (.reserveDatagram ⟨0, 1⟩ .toTarget false 48) _ _ rfl <|
    @Run.cons _ _ _ _ _ (.commitSession 0 0 (.queue sampleDatagram .committed) 6) _ _ rfl <|
    .nil _
  obtain ⟨-, -, unused, live, -⟩ := session_accounting reach
  obtain ⟨-, queues⟩ := live 0 _ rfl
  exact ⟨_, _, reach, _, rfl, rfl, (queues .toTarget).1, rfl, unused⟩

end SessionManager

end Ferrum.Runtime
