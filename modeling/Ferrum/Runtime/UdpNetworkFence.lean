import Ferrum.Runtime.UdpSessionStep

namespace Ferrum.Runtime

open Option

/-- Nothing of the network generations changes, and every session was there before. -/
structure SessionState.Kept (before after : SessionState) : Prop where
  fence : after.networkFence = before.networkFence
  completed : after.completedNetworkGeneration = before.completedNetworkGeneration
  shutdown : after.shuttingDown = before.shuttingDown
  sessions : ∀ slot entry, after.entries.lookup slot = some entry →
    ∃ old, before.entries.lookup slot = some old ∧ old.generation = entry.generation

namespace SessionState.Kept

variable {state : SessionState}

theorem refl (state : SessionState) : Kept state state := ⟨rfl, rfl, rfl, fun _ entry held => ⟨entry, held, rfl⟩⟩

theorem setEntry {slot : Nat} {entry changed : SessionEntry} (held : state.entries.lookup slot = some entry)
    (generation : changed.generation = entry.generation) : Kept state (state.setEntry slot changed) := by
  refine ⟨rfl, rfl, rfl, fun other found at_ => ?_⟩
  simp only [SessionState.setEntry, HashMap.lookup_insert_eq] at at_
  split at at_
  · rename_i same
    cases at_
    exact ⟨entry, same ▸ held, generation.symm⟩
  · exact ⟨found, at_, rfl⟩

theorem retireExact (handle : UdpSessionHandle) (failed : Bool) :
    Kept state (({ state with cleanupFailed := failed } : SessionState).retireExact handle) := by
  unfold SessionState.retireExact
  split
  · exact ⟨rfl, rfl, rfl, fun other found at_ => ⟨found, SessionState.lookup_removeEntry at_, rfl⟩⟩
  · exact ⟨rfl, rfl, rfl, fun other found at_ => ⟨found, at_, rfl⟩⟩

theorem releasePending (handle : UdpSessionHandle) (direction : UdpDirection) :
    Kept state (state.releasePending handle direction) := by
  unfold SessionState.releasePending
  split
  · rename_i entry held
    split
    · split
      · exact retireExact handle true
      · exact setEntry held rfl
    · exact refl state
  · exact refl state

theorem commitActivity (handle : UdpSessionHandle) (now : Nat) : Kept state (state.commitActivity handle now).2 := by
  unfold SessionState.commitActivity
  split
  · exact refl state
  · split
    · exact refl state
    · rename_i entry ok
      split
      · exact setEntry (SessionState.reaches_of_ok ok).here rfl
      · exact refl state

theorem pop (handle : UdpSessionHandle) (direction : UdpDirection) : Kept state (state.pop handle direction).2 := by
  unfold SessionState.pop
  split
  · exact refl state
  · rename_i entry ok
    split
    · exact setEntry (SessionState.reaches_of_ok ok).here rfl
    · exact refl state

theorem reserveDatagram (handle : UdpSessionHandle) (direction : UdpDirection) (requireCommitted : Bool) :
    Kept state (state.reserveDatagram handle direction requireCommitted).2 := by
  have effect := SessionState.reserveDatagram_effect state handle direction requireCommitted
  generalize state.reserveDatagram handle direction requireCommitted = outcome at effect
  cases effect with
  | refused error => exact refl state
  | reserved entry reaches running room => exact setEntry reaches.here rfl

theorem commitEntry {E : Type} (handle : UdpSessionHandle) (direction : UdpDirection) (activateSession : Bool) (now : Nat)
    (outcome : ProtocolOutcome E) (queued : Option AccountedDatagram) :
    Kept state (state.commitEntry handle direction activateSession now outcome queued).2 := by
  have effect := SessionState.commitEntry_effect state handle direction activateSession now outcome queued
  generalize state.commitEntry handle direction activateSession now outcome queued = result at effect
  cases effect with
  | refused error different => exact refl state
  | broken entry reaches none | panicked => exact retireExact handle true
  | accepted entry reaches running positive =>
    exact setEntry reaches.here (SessionManager.accept_generation entry direction now queued)

end SessionState.Kept

namespace SessionManager

variable {E : Type} {limits : UdpRuntimeLimits} {manager : SessionManager}

theorem reserveSession_state (now : Nat) :
    (manager.reserveSession limits now).2.state = (manager.state.reserveSession limits now).2 := by
  simp only [reserveSession]
  split <;> rfl

theorem reserveDatagram_state (handle : UdpSessionHandle) (direction : UdpDirection) (requireCommitted : Bool)
    (capacity : Nat) : (manager.reserveDatagram handle direction requireCommitted capacity).2.state =
      (manager.state.reserveDatagram handle direction requireCommitted).2 := by
  simp only [reserveDatagram]
  split <;> rfl

theorem commitToken_kept (place : Nat) (token : PendingUdpDatagram) (activateSession : Bool) (kind : CommitKind E)
    (now : Nat) : SessionState.Kept manager.state (manager.commitToken place token activateSession kind now).2.state := by
  unfold commitToken
  split
  · exact .refl _
  · split
    · exact .refl _
    · rename_i accounted attached
      have kept := @SessionState.Kept.commitEntry manager.state E token.handle token.direction activateSession now
        kind.outcome (kind.pushed accounted)
      simp only
      split <;> exact kept

theorem commitSession_kept (sessionPlace : Nat) (session : PendingUdpSession) (place : Nat) (token : PendingUdpDatagram)
    (kind : CommitKind E) (now : Nat) :
    SessionState.Kept manager.state (manager.commitSession sessionPlace session place token kind now).2.state := by
  unfold commitSession
  split
  · exact .refl _
  · have kept := @commitToken_kept E manager place token true kind now
    simp only
    split <;> exact kept

theorem pop_state (handle : UdpSessionHandle) (direction : UdpDirection) :
    (manager.pop handle direction).2.state = (manager.state.pop handle direction).2 := by
  simp only [pop]
  split <;> rfl

/-- What a critical section does to the fence, to the completed generation and to shutdown. -/
inductive FenceEffect (before after : SessionState) : SessionMove E → SessionReply E → Prop
  | kept {move : SessionMove E} {reply : SessionReply E} (kept : SessionState.Kept before after) :
      FenceEffect before after move reply
  | opened (now : Nat) (result : Except UdpRuntimeError UdpSessionHandle) (free : before.networkFence = none)
      (running : before.shuttingDown = false) (still : after.networkFence = none)
      (completed : after.completedNetworkGeneration = before.completedNetworkGeneration)
      (open_ : after.shuttingDown = false) :
      FenceEffect before after (.reserveSession now) (.sessionReserved result)
  | shutdown {move : SessionMove E} (fence : after.networkFence = before.networkFence)
      (completed : after.completedNetworkGeneration = before.completedNetworkGeneration) (closed : after.shuttingDown = true)
      (sessions : ∀ slot entry, after.entries.lookup slot = some entry → before.entries.lookup slot = some entry) :
      FenceEffect before after move .silent
  | installed (generation : Nat) (free : before.networkFence = none)
      (newer : before.completedNetworkGeneration < generation)
      (equal : after = { before with
        networkFence := some { generation, cutoff := before.nextGeneration, retired := false } }) :
      FenceEffect before after (.fence generation) (.fenced generation (.ok ()))
  | retired (fence : NetworkFence) (here : before.networkFence = some fence) (first : fence.retired = false)
      (equal : after = { before with
        entries := before.entries.retain fun _ entry => fence.cutoff < entry.generation
        networkFence := some { fence with retired := true } }) :
      FenceEffect before after (.retire fence.generation)
        (.retired fence.generation (.ok (before.entries.retain fun _ entry => entry.generation ≤ fence.cutoff).len))
  | reopened (fence : NetworkFence) (here : before.networkFence = some fence) (done : fence.retired = true)
      (running : before.shuttingDown = false)
      (equal : after = { before with completedNetworkGeneration := fence.generation, networkFence := none }) :
      FenceEffect before after (.reopen fence.generation) (.reopened fence.generation (.ok ()))

section

variable (state : SessionState)

theorem fence_effect (generation : Nat) :
    @FenceEffect E state (state.fenceNetworkGeneration generation).2 (.fence generation)
      (.fenced generation (state.fenceNetworkGeneration generation).1) := by
  unfold SessionState.fenceNetworkGeneration
  split
  · exact .kept (.refl _)
  · rename_i admitted
    split
    · split <;> exact .kept (.refl _)
    · rename_i free
      split
      · exact .kept (.refl _)
      · rename_i different
        exact .installed generation free (by omega) rfl

theorem retire_effect (generation : Nat) :
    @FenceEffect E state (state.retireNetworkGeneration generation).2 (.retire generation)
      (.retired generation (state.retireNetworkGeneration generation).1) := by
  unfold SessionState.retireNetworkGeneration
  split
  · split <;> exact .kept (.refl _)
  · rename_i fence here
    split
    · exact .kept (.refl _)
    · rename_i same
      rw [not_not] at same
      subst same
      split
      · exact .kept (.refl _)
      · rename_i first
        exact .retired fence here (by simpa using first) rfl

theorem reopen_effect (generation : Nat) :
    @FenceEffect E state (state.reopenNetworkGeneration generation).2 (.reopen generation)
      (.reopened generation (state.reopenNetworkGeneration generation).1) := by
  unfold SessionState.reopenNetworkGeneration
  split
  · exact .kept (.refl _)
  · rename_i running
    split
    · rename_i fence here
      split
      · rename_i both
        obtain ⟨rfl, done⟩ := both
        exact .reopened fence here done (by simpa using running) rfl
      · exact .kept (.refl _)
    · split <;> exact .kept (.refl _)

theorem evictExpired_network (now : Nat) : (state.evictExpired limits now).networkFence = state.networkFence ∧
      (state.evictExpired limits now).completedNetworkGeneration = state.completedNetworkGeneration ∧
        (state.evictExpired limits now).shuttingDown = state.shuttingDown := by
  unfold SessionState.evictExpired
  split
  · split <;> exact ⟨rfl, rfl, rfl⟩
  · exact ⟨rfl, rfl, rfl⟩

theorem reserveSession_fence (now : Nat) (result : Except UdpRuntimeError UdpSessionHandle) :
    @FenceEffect E state (state.reserveSession limits now).2 (.reserveSession now) (.sessionReserved result) := by
  have effect := SessionState.reserveSession_effect limits state now
  obtain ⟨fence, completed, shutdown⟩ := @evictExpired_network limits state now
  generalize state.reserveSession limits now = outcome at effect
  cases effect with
  | closed closed => exact .kept (.refl _)
  | failed error free number grows | opened slot free small empty =>
    exact .opened now result free.2 free.1 (fence.trans free.2) completed (shutdown.trans free.1)

end

theorem step_fence {move : SessionMove E} {reply : SessionReply E} {next : SessionManager}
    (run : manager.step limits move = some (reply, next)) : FenceEffect manager.state next.state move reply := by
  cases move with
  | reserveSession now =>
    cases run
    rw [reserveSession_state]
    exact reserveSession_fence manager.state now _
  | reserveDatagram handle direction requireCommitted capacity =>
    cases run
    rw [reserveDatagram_state]
    exact .kept (.reserveDatagram handle direction requireCommitted)
  | commit place kind now =>
    simp only [SessionManager.step, map_eq_some_iff, Prod.mk.injEq] at run
    obtain ⟨token, here, rfl, rfl⟩ := run
    exact .kept (commitToken_kept place token false kind now)
  | commitSession sessionPlace place kind now =>
    simp only [SessionManager.step, bind_eq_some_iff, map_eq_some_iff, Prod.mk.injEq] at run
    obtain ⟨session, -, token, here, rfl, rfl⟩ := run
    exact .kept (commitSession_kept sessionPlace session place token kind now)
  | dropDatagram place =>
    simp only [SessionManager.step, map_eq_some_iff, Prod.mk.injEq] at run
    obtain ⟨token, here, rfl, rfl⟩ := run
    exact .kept (.releasePending token.handle token.direction)
  | dropSession place =>
    simp only [SessionManager.step, map_eq_some_iff, Prod.mk.injEq] at run
    obtain ⟨session, -, rfl, rfl⟩ := run
    exact .kept (.retireExact session.handle manager.state.cleanupFailed)
  | pop handle direction =>
    cases run
    rw [pop_state]
    exact .kept (.pop handle direction)
  | commitActivity handle now =>
    cases run
    exact .kept (.commitActivity handle now)
  | retainLiveSessions handles =>
    cases run
    exact .kept (.refl _)
  | remove handle =>
    cases run
    exact .kept (.retireExact handle manager.state.cleanupFailed)
  | cancelAll =>
    cases run
    refine .shutdown rfl rfl rfl fun slot entry held => ?_
    simp [SessionState.cancelAll] at held
  | signalAll =>
    cases run
    exact .shutdown rfl rfl rfl fun _ _ held => held
  | fence generation =>
    cases run
    exact fence_effect manager.state generation
  | retire generation =>
    cases run
    exact retire_effect manager.state generation
  | reopen generation =>
    cases run
    exact reopen_effect manager.state generation

/-- While a fence is installed its generation is ahead of the completed one, and after the retirement
every session is newer than its cutoff. -/
def FenceInvariant (manager : SessionManager) : Prop :=
  ∀ fence, manager.state.networkFence = some fence →
    manager.state.completedNetworkGeneration < fence.generation ∧
      (fence.retired = true → ∀ slot entry, manager.state.entries.lookup slot = some entry →
        fence.cutoff < entry.generation)

theorem FenceInvariant.step (invariant : FenceInvariant manager) {move : SessionMove E} {reply : SessionReply E}
    {next : SessionManager} (run : manager.step limits move = some (reply, next)) : FenceInvariant next := by
  intro fence here
  cases step_fence run with
  | kept kept =>
    rw [kept.fence] at here
    obtain ⟨newer, gone⟩ := invariant fence here
    refine ⟨kept.completed ▸ newer, fun retired slot entry held => ?_⟩
    obtain ⟨old, before, same⟩ := kept.sessions slot entry held
    exact same ▸ gone retired slot old before
  | opened now result free running still completed open_ =>
    rw [still] at here
    simp at here
  | shutdown sameFence completed closed sessions =>
    rw [sameFence] at here
    obtain ⟨newer, gone⟩ := invariant fence here
    exact ⟨completed ▸ newer, fun retired slot entry held => gone retired slot entry (sessions slot entry held)⟩
  | installed generation free newer equal =>
    rw [equal] at here ⊢
    cases here
    exact ⟨newer, fun retired => absurd retired (by simp)⟩
  | retired old before first equal =>
    rw [equal] at here ⊢
    cases here
    refine ⟨(invariant old before).1, fun _ slot entry held => ?_⟩
    simp only [HashMap.lookup_retain, filter_eq_some_iff] at held
    simpa using held.2
  | reopened old before done running equal =>
    rw [equal] at here
    simp at here

theorem Run.fenceInvariant {replies : List (SessionReply E)} {last : SessionManager}
    (run : Run limits manager replies last) (invariant : FenceInvariant manager) : FenceInvariant last := by
  induction run with
  | nil manager => exact invariant
  | cons first rest ih => exact ih (invariant.step first)

theorem fenceInvariant_new : FenceInvariant .new := by
  intro fence here
  simp [new, SessionState.new] at here

section Fenced

/-- The call served this capability, or reported it live. -/
def Admits (reply : SessionReply E) (handle : UdpSessionHandle) : Prop :=
  match reply with
  | .datagramReserved other (.ok _) => other = handle
  | .committed other (.ok _) => other = handle
  | .popped other (.ok _) => other = handle
  | .activity other (.ok _) => other = handle
  | .live handles => handle ∈ handles
  | _ => False

variable {fence : NetworkFence} {handle : UdpSessionHandle}

theorem matchingEntry_fenced {state : SessionState} (here : state.networkFence = some fence)
    (old : handle.generation ≤ fence.cutoff) : state.matchingEntry handle = .error .cancelled := by
  simp [SessionState.matchingEntry, SessionState.fenced, here, old]

section

variable (here : manager.state.networkFence = some fence)
include here

theorem reserveDatagram_fenced (old : handle.generation ≤ fence.cutoff)
    (direction : UdpDirection) (requireCommitted : Bool) (capacity : Nat) :
    (manager.reserveDatagram handle direction requireCommitted capacity).1 = .error .cancelled := by
  have refused : (manager.state.reserveDatagram handle direction requireCommitted).1 = .error .cancelled := by
    unfold SessionState.reserveDatagram
    rw [matchingEntry_fenced here old]
    split <;> rfl
  simp only [SessionManager.reserveDatagram, refused]

theorem commitToken_fenced {token : PendingUdpDatagram}
    (old : token.handle.generation ≤ fence.cutoff) (place : Nat) (activateSession : Bool) (kind : CommitKind E) (now : Nat)
    (accounted : Option AccountedDatagram) :
    (manager.commitToken place token activateSession kind now).1 ≠ .ok accounted := by
  have refused : ∀ queued, (manager.state.commitEntry token.handle token.direction activateSession now kind.outcome
      queued).1 = .error (.runtime .cancelled) := by
    intro queued
    unfold SessionState.commitEntry
    rw [matchingEntry_fenced here old]
    split <;> rfl
  unfold SessionManager.commitToken
  split
  · simp
  · split
    · simp
    · simp only [refused]
      simp

theorem commitSession_fenced {token : PendingUdpDatagram}
    (old : token.handle.generation ≤ fence.cutoff) (sessionPlace : Nat) (session : PendingUdpSession) (place : Nat)
    (kind : CommitKind E) (now : Nat) (accounted : Option AccountedDatagram) :
    (manager.commitSession sessionPlace session place token kind now).1 ≠ .ok accounted := by
  unfold SessionManager.commitSession
  split
  · simp
  · simp only
    split
    · simp
    · rename_i value ok
      exact absurd ok (commitToken_fenced here old place true kind now value)

theorem pop_fenced (old : handle.generation ≤ fence.cutoff)
    (direction : UdpDirection) : (manager.pop handle direction).1 = .error .cancelled := by
  simp only [SessionManager.pop, SessionState.pop, matchingEntry_fenced here old]

end

theorem commitActivity_fenced {state : SessionState} (here : state.networkFence = some fence)
    (old : handle.generation ≤ fence.cutoff) (now : Nat) : (state.commitActivity handle now).1 = .error .cancelled := by
  unfold SessionState.commitActivity
  rw [matchingEntry_fenced here old]
  split <;> rfl

theorem step_fenced (here : manager.state.networkFence = some fence) {move : SessionMove E} {reply : SessionReply E}
    {next : SessionManager} (run : manager.step limits move = some (reply, next))
    (old : handle.generation ≤ fence.cutoff) : ¬Admits reply handle := by
  cases move with
  | reserveDatagram other direction requireCommitted capacity =>
    cases run
    intro admits
    cases outcome : (manager.reserveDatagram other direction requireCommitted capacity).1 with
    | error error => simp [Admits, outcome] at admits
    | ok value =>
      simp only [Admits, outcome] at admits
      rw [reserveDatagram_fenced here (admits ▸ old)] at outcome
      simp at outcome
  | commit place kind now =>
    simp only [SessionManager.step, map_eq_some_iff, Prod.mk.injEq] at run
    obtain ⟨token, -, rfl, rfl⟩ := run
    intro admits
    cases outcome : (manager.commitToken place token false kind now).1 with
    | error error => simp [Admits, outcome] at admits
    | ok accounted =>
      simp only [Admits, outcome] at admits
      exact commitToken_fenced here (admits ▸ old) place false kind now accounted outcome
  | commitSession sessionPlace place kind now =>
    simp only [SessionManager.step, bind_eq_some_iff, map_eq_some_iff, Prod.mk.injEq] at run
    obtain ⟨session, -, token, -, rfl, rfl⟩ := run
    intro admits
    cases outcome : (manager.commitSession sessionPlace session place token kind now).1 with
    | error error => simp [Admits, outcome] at admits
    | ok accounted =>
      simp only [Admits, outcome] at admits
      exact commitSession_fenced here (admits ▸ old) sessionPlace session place kind now accounted outcome
  | pop other direction =>
    cases run
    intro admits
    cases outcome : (manager.pop other direction).1 with
    | error error => simp [Admits, outcome] at admits
    | ok datagram =>
      simp only [Admits, outcome] at admits
      rw [pop_fenced here (admits ▸ old)] at outcome
      simp at outcome
  | commitActivity other now =>
    cases run
    intro admits
    cases outcome : (manager.state.commitActivity other now).1 with
    | error error => simp [Admits, outcome] at admits
    | ok value =>
      simp only [Admits, outcome] at admits
      rw [commitActivity_fenced here (admits ▸ old)] at outcome
      simp at outcome
  | retainLiveSessions handles =>
    cases run
    simp [Admits, SessionState.retainLiveSessions, here]
  | reserveSession now | remove other | cancelAll | signalAll | fence generation | retire generation | reopen generation =>
    cases run
    exact id
  | dropDatagram place =>
    simp only [SessionManager.step, map_eq_some_iff, Prod.mk.injEq] at run
    obtain ⟨token, -, rfl, rfl⟩ := run
    exact id
  | dropSession place =>
    simp only [SessionManager.step, map_eq_some_iff, Prod.mk.injEq] at run
    obtain ⟨session, -, rfl, rfl⟩ := run
    exact id

end Fenced

end SessionManager

end Ferrum.Runtime
