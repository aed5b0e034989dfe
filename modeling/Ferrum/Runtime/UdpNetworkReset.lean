import Ferrum.Runtime.UdpNetworkFence

namespace Ferrum.Runtime

open Option

namespace SessionManager

variable {E : Type} {limits : UdpRuntimeLimits} {manager : SessionManager} {fence : NetworkFence}

theorem reserveSession_closed {state : SessionState} (closed : state.shuttingDown = true ∨ state.networkFence.isSome = true)
    (now : Nat) : state.reserveSession limits now = (.error .cancelled, state) := by
  rw [SessionState.reserveSession, if_pos closed]

theorem commitToken_opened (place : Nat) (token : PendingUdpDatagram) (activateSession : Bool) (kind : CommitKind E)
    (now : Nat) : (manager.commitToken place token activateSession kind now).2.opened = manager.opened := by
  unfold commitToken
  split
  · rfl
  · split
    · rfl
    · simp only
      split <;> rfl

theorem commitSession_opened (sessionPlace : Nat) (session : PendingUdpSession) (place : Nat) (token : PendingUdpDatagram)
    (kind : CommitKind E) (now : Nat) :
    (manager.commitSession sessionPlace session place token kind now).2.opened = manager.opened := by
  unfold commitSession
  split
  · rfl
  · simp only
    split <;> exact commitToken_opened place token true kind now

variable {move : SessionMove E} {reply : SessionReply E} {next : SessionManager}

theorem step_opened (here : manager.state.networkFence = some fence) (run : manager.step limits move = some (reply, next)) :
    next.opened = manager.opened ∧ ∀ handle, reply ≠ .sessionReserved (.ok handle) := by
  cases move with
  | reserveSession now =>
    cases run
    have closed := @reserveSession_closed limits manager.state (.inr (by simp [here])) now
    simp [SessionManager.reserveSession, closed]
  | reserveDatagram handle direction requireCommitted capacity =>
    cases run
    refine ⟨?_, by simp⟩
    simp only [SessionManager.reserveDatagram]
    split <;> rfl
  | commit place kind now =>
    simp only [SessionManager.step, map_eq_some_iff, Prod.mk.injEq] at run
    obtain ⟨token, -, rfl, rfl⟩ := run
    exact ⟨commitToken_opened place token false kind now, by simp⟩
  | commitSession sessionPlace place kind now =>
    simp only [SessionManager.step, bind_eq_some_iff, map_eq_some_iff, Prod.mk.injEq] at run
    obtain ⟨session, -, token, -, rfl, rfl⟩ := run
    exact ⟨commitSession_opened sessionPlace session place token kind now, by simp⟩
  | dropDatagram place =>
    simp only [SessionManager.step, map_eq_some_iff, Prod.mk.injEq] at run
    obtain ⟨token, -, rfl, rfl⟩ := run
    exact ⟨rfl, by simp⟩
  | dropSession place =>
    simp only [SessionManager.step, map_eq_some_iff, Prod.mk.injEq] at run
    obtain ⟨session, -, rfl, rfl⟩ := run
    exact ⟨rfl, by simp⟩
  | pop handle direction =>
    cases run
    refine ⟨?_, by simp⟩
    simp only [SessionManager.pop]
    split <;> rfl
  | commitActivity handle now | retainLiveSessions handles | remove handle | cancelAll | signalAll | fence generation
  | retire generation | reopen generation =>
    cases run
    exact ⟨rfl, by simp⟩

theorem step_cutoff (here : manager.state.networkFence = some fence) (run : manager.step limits move = some (reply, next))
    {later : NetworkFence} (still : next.state.networkFence = some later) :
    later.generation = fence.generation ∧ later.cutoff = fence.cutoff ∧ (fence.retired = true → later.retired = true) := by
  cases step_fence run with
  | kept kept =>
    rw [kept.fence, here] at still
    cases still
    exact ⟨rfl, rfl, id⟩
  | opened now result free running none completed open_ =>
    rw [none] at still
    simp at still
  | shutdown sameFence completed closed sessions =>
    rw [sameFence, here] at still
    cases still
    exact ⟨rfl, rfl, id⟩
  | installed generation free newer equal =>
    rw [here] at free
    simp at free
  | retired old before first equal =>
    rw [here] at before
    cases before
    rw [equal] at still
    cases still
    exact ⟨rfl, rfl, fun _ => rfl⟩
  | reopened old before done running equal =>
    rw [equal] at still
    simp at still

theorem step_completed (invariant : FenceInvariant manager) (run : manager.step limits move = some (reply, next)) :
    manager.state.completedNetworkGeneration ≤ next.state.completedNetworkGeneration ∧
      (next.state.completedNetworkGeneration ≠ manager.state.completedNetworkGeneration →
        ∃ fence, manager.state.networkFence = some fence ∧ fence.retired = true ∧ move = .reopen fence.generation ∧
          next.state.completedNetworkGeneration = fence.generation) := by
  cases step_fence run with
  | kept kept => exact ⟨kept.completed.ge, fun changed => absurd kept.completed changed⟩
  | opened now result free running none completed open_ | shutdown sameFence completed closed sessions =>
      exact ⟨completed.ge, fun changed => absurd completed changed⟩
  | installed generation free newer equal | retired old before first equal =>
    rw [equal]
    exact ⟨le_rfl, fun changed => absurd rfl changed⟩
  | reopened old before done running equal =>
    rw [equal]
    exact ⟨(invariant old before).1.le, fun _ => ⟨old, before, done, rfl, rfl⟩⟩

theorem step_shutdown (run : manager.step limits move = some (reply, next)) (closed : manager.state.shuttingDown = true) :
    next.state.shuttingDown = true := by
  cases step_fence run with
  | kept kept => rw [kept.shutdown, closed]
  | opened now result free running none completed open_ | reopened old before done running equal =>
    rw [closed] at running
    simp at running
  | shutdown sameFence completed down sessions => exact down
  | installed generation free newer equal | retired old before first equal =>
    rw [equal]
    exact closed

/-- The generation was retired: its fence says so, or it is completed. -/
def Settled (manager : SessionManager) (generation : Nat) : Prop :=
  (∃ fence, manager.state.networkFence = some fence ∧ fence.generation = generation ∧ fence.retired = true) ∨
    generation ≤ manager.state.completedNetworkGeneration

theorem Settled.step {generation : Nat} (settled : Settled manager generation) (invariant : FenceInvariant manager)
    (run : manager.step limits move = some (reply, next)) : Settled next generation := by
  rcases settled with ⟨fence, here, same, retired⟩ | completed
  · cases still : next.state.networkFence with
    | some later =>
      obtain ⟨generation, -, kept⟩ := step_cutoff here run still
      exact .inl ⟨later, still, generation.trans same, kept retired⟩
    | none =>
      cases step_fence run with
      | kept kept =>
        rw [kept.fence, here] at still
        simp at still
      | opened now result free running none completed open_ | installed generation free newer equal =>
        rw [here] at free
        simp at free
      | shutdown sameFence completed closed sessions =>
        rw [sameFence, here] at still
        simp at still
      | retired old before first equal =>
        rw [equal] at still
        simp at still
      | reopened old before done running equal =>
        rw [here] at before
        cases before
        refine .inr ?_
        rw [equal, ← same]
  · exact .inr (completed.trans (step_completed invariant run).1)

theorem step_retired {generation count : Nat}
    (run : manager.step limits move = some (.retired generation (.ok count), next)) :
    Settled next generation ∧ (FenceInvariant manager → Settled manager generation → count = 0) := by
  cases move with
  | retire other =>
    simp only [SessionManager.step, onState, some.injEq, Prod.mk.injEq, SessionReply.retired.injEq] at run
    obtain ⟨⟨rfl, result⟩, rfl⟩ := run
    unfold SessionState.retireNetworkGeneration at result ⊢
    split at result
    · rename_i free
      split at result
      · rename_i done
        cases result
        refine ⟨.inr ?_, fun _ _ => rfl⟩
        simp only [if_pos done]
        exact done.2.le
      · simp at result
    · rename_i fence here
      split at result
      · simp at result
      · rename_i same
        rw [not_not] at same
        split at result
        · rename_i retired
          cases result
          refine ⟨.inl ⟨fence, ?_, same, retired⟩, fun _ _ => rfl⟩
          simp [same, retired, here]
        · rename_i first
          refine ⟨.inl ⟨{ fence with retired := true }, ?_, same, rfl⟩, ?_⟩
          · simp [same, first]
          · intro invariant settled
            rcases settled with ⟨old, before, -, retired⟩ | completed
            · rw [here] at before
              cases before
              exact absurd retired first
            · have newer := (invariant fence here).1
              omega
  | reserveSession now | reserveDatagram handle direction requireCommitted capacity | commit place kind now
  | dropDatagram place | dropSession place | pop handle direction | retainLiveSessions handles => simp [SessionManager.step] at run
  | commitSession sessionPlace place kind now => simp [SessionManager.step, bind_eq_some_iff] at run
  | commitActivity handle now | remove handle | cancelAll | signalAll | fence generation | reopen generation =>
      simp [SessionManager.step, onState] at run

section Run

variable {replies : List (SessionReply E)} {last : SessionManager}

theorem Run.settled (run : Run limits manager replies last) (invariant : FenceInvariant manager) {generation : Nat}
    (settled : Settled manager generation) {count : Nat} (member : .retired generation (.ok count) ∈ replies) :
    count = 0 := by
  induction run with
  | nil manager => simp at member
  | cons first rest ih =>
    rcases List.mem_cons.mp member with here | later
    · subst here
      exact (step_retired first).2 invariant settled
    · exact ih (invariant.step first) (settled.step invariant first) later

theorem Run.retired_once (run : Run limits manager replies last) (invariant : FenceInvariant manager)
    {before after : List (SessionReply E)} {generation count again : Nat}
    (history : replies = before ++ .retired generation (.ok count) :: after)
    (member : .retired generation (.ok again) ∈ after) : again = 0 := by
  induction run generalizing before with
  | nil manager => simp at history
  | cons first rest ih =>
    cases before with
    | nil =>
      obtain ⟨rfl, rfl⟩ := List.cons.inj history
      exact rest.settled (invariant.step first) (step_retired first).1 member
    | cons earlier before =>
      obtain ⟨rfl, rfl⟩ := List.cons.inj history
      exact ih (invariant.step first) rfl

theorem Run.shutdown (run : Run limits manager replies last) (closed : manager.state.shuttingDown = true) :
    last.state.shuttingDown = true := by
  induction run with
  | nil manager => exact closed
  | cons first rest ih => exact ih (step_shutdown first closed)

end Run

theorem retire_first {state : SessionState} (here : state.networkFence = some fence) (first : fence.retired = false) :
    (∀ slot, (state.retireNetworkGeneration fence.generation).2.entries.lookup slot =
      (state.entries.lookup slot).filter fun entry => decide (fence.cutoff < entry.generation)) ∧
    ∃ count, (state.retireNetworkGeneration fence.generation).1 = .ok count ∧
      state.entries.len = count + (state.retireNetworkGeneration fence.generation).2.entries.len := by
  have result : state.retireNetworkGeneration fence.generation =
      (.ok (state.entries.retain fun _ entry => entry.generation ≤ fence.cutoff).len,
        { state with
          entries := state.entries.retain fun _ entry => fence.cutoff < entry.generation
          networkFence := some { fence with retired := true } }) := by
    simp [SessionState.retireNetworkGeneration, here, first]
  rw [result]
  refine ⟨fun slot => HashMap.lookup_retain _ _ slot, _, rfl, ?_⟩
  have halves := @List.length_eq_length_filter_add _ state.entries.entries fun entry =>
    decide (entry.2.generation ≤ fence.cutoff)
  have later : (fun entry : (_ : Nat) × SessionEntry => decide (fence.cutoff < entry.2.generation)) =
      fun entry => !decide (entry.2.generation ≤ fence.cutoff) := by
    funext entry
    rcases Nat.lt_or_ge fence.cutoff entry.2.generation with newer | older
    · simp [newer, Nat.not_le.mpr newer]
    · simp [older, Nat.not_lt.mpr older]
  simp only [HashMap.len, HashMap.retain, later]
  exact halves

/-- In every state that a run reaches: what a fence refuses, what a retirement takes and counts, and what a reopening leaves. A
call with another generation changes nothing. -/
theorem network_fence_protocol {replies : List (SessionReply E)} (reach : Run limits .new replies manager) :
    (∀ (move : SessionMove E) reply next, manager.step limits move = some (reply, next) →
      manager.state.completedNetworkGeneration ≤ next.state.completedNetworkGeneration ∧
      (next.state.completedNetworkGeneration ≠ manager.state.completedNetworkGeneration →
        ∃ fence, manager.state.networkFence = some fence ∧ fence.retired = true ∧ move = .reopen fence.generation ∧
          next.state.completedNetworkGeneration = fence.generation)) ∧
    (∀ fence, manager.state.networkFence = some fence →
      (∀ (move : SessionMove E) reply next, manager.step limits move = some (reply, next) →
        next.opened = manager.opened ∧ (∀ handle, reply ≠ .sessionReserved (.ok handle)) ∧
        (∀ handle, handle.generation ≤ fence.cutoff → ¬Admits reply handle) ∧
        ∀ later, next.state.networkFence = some later →
          later.generation = fence.generation ∧ later.cutoff = fence.cutoff) ∧
      (fence.retired = false →
        (∀ slot, (manager.state.retireNetworkGeneration fence.generation).2.entries.lookup slot =
          (manager.state.entries.lookup slot).filter fun entry => decide (fence.cutoff < entry.generation)) ∧
        ∃ count, (manager.state.retireNetworkGeneration fence.generation).1 = .ok count ∧
          manager.state.entries.len =
            count + (manager.state.retireNetworkGeneration fence.generation).2.entries.len) ∧
      (fence.retired = true → manager.state.retireNetworkGeneration fence.generation = (.ok 0, manager.state)) ∧
      (∀ state, manager.state.reopenNetworkGeneration fence.generation = (.ok (), state) →
        ∀ slot entry, state.entries.lookup slot = some entry → fence.cutoff < entry.generation) ∧
      ∀ generation, generation ≠ fence.generation →
        manager.state.fenceNetworkGeneration generation = (.error .cancelled, manager.state) ∧
        manager.state.retireNetworkGeneration generation = (.error .cancelled, manager.state) ∧
        manager.state.reopenNetworkGeneration generation = (.error .cancelled, manager.state)) ∧
    (manager.state.networkFence = none →
      ∀ generation, generation = 0 ∨ generation ≠ manager.state.completedNetworkGeneration →
        manager.state.retireNetworkGeneration generation = (.error .cancelled, manager.state) ∧
        manager.state.reopenNetworkGeneration generation = (.error .cancelled, manager.state)) ∧
    (∀ generation, generation = 0 ∨ generation < manager.state.completedNetworkGeneration →
      manager.state.fenceNetworkGeneration generation = (.error .cancelled, manager.state)) ∧
    (∀ before after generation count again, replies = before ++ .retired generation (.ok count) :: after →
      .retired generation (.ok again) ∈ after → again = 0) ∧
    (manager.state.shuttingDown = true → ∀ (more : List (SessionReply E)) last, Run limits manager more last →
      last.state.shuttingDown = true ∧
        ∀ now, last.state.reserveSession limits now = (.error .cancelled, last.state)) := by
  have invariant := reach.fenceInvariant fenceInvariant_new
  refine ⟨fun move reply next run => step_completed invariant run, ?_, ?_, ?_, ?_, ?_⟩
  · intro fence here
    refine ⟨?_, retire_first here, ?_, ?_, ?_⟩
    · intro move reply next run
      obtain ⟨same, refused⟩ := step_opened here run
      refine ⟨same, refused, fun handle old => step_fenced here run old, fun later still => ?_⟩
      obtain ⟨generation, cutoff, -⟩ := step_cutoff here run still
      exact ⟨generation, cutoff⟩
    · intro retired
      simp [SessionState.retireNetworkGeneration, here, retired]
    · intro state reopened slot entry held
      simp only [SessionState.reopenNetworkGeneration, here] at reopened
      split at reopened
      · simp at reopened
      · split at reopened
        · rename_i done
          cases reopened
          exact (invariant fence here).2 done.2 slot entry held
        · simp at reopened
    · intro generation different
      have wrong : fence.generation ≠ generation := Ne.symm different
      simp [SessionState.fenceNetworkGeneration, SessionState.retireNetworkGeneration,
        SessionState.reopenNetworkGeneration, here, wrong]
  · intro free generation wrong
    have refused : ¬(generation ≠ 0 ∧ generation = manager.state.completedNetworkGeneration) := by omega
    simp only [SessionState.retireNetworkGeneration, SessionState.reopenNetworkGeneration, free, if_neg refused, ite_self,
      and_self]
  · intro generation wrong
    rw [SessionState.fenceNetworkGeneration, if_pos (.inr wrong)]
  · intro before after generation count again history member
    exact reach.retired_once fenceInvariant_new history member
  · intro closed more last run
    have down := run.shutdown closed
    exact ⟨down, fun now => reserveSession_closed (.inl down) now⟩

/-- A session of the old network, its fence, and two retirements. -/
theorem sampleFence_protocol : ∃ (replies : List (SessionReply Unit)) (manager : SessionManager),
    Run sampleLimits .new replies manager ∧ manager.state.networkFence = some ⟨7, 1, true⟩ ∧
      .retired 7 (.ok 1) ∈ replies ∧ manager.state.reopenNetworkGeneration 8 = (.error .cancelled, manager.state) := by
  have reach : @Run Unit sampleLimits .new _ _ :=
    @Run.cons _ _ _ _ _ (.reserveSession 5) _ _ rfl <|
    @Run.cons _ _ _ _ _ (.fence 7) _ _ rfl <|
    @Run.cons _ _ _ _ _ (.retire 7) _ _ rfl <|
    @Run.cons _ _ _ _ _ (.retire 7) _ _ rfl <|
    .nil _
  obtain ⟨-, fenced, -⟩ := network_fence_protocol reach
  have wrong := (fenced ⟨7, 1, true⟩ rfl).2.2.2.2 8 (by decide)
  exact ⟨_, _, reach, rfl, .tail _ (.tail _ (.head _)), wrong.2.2⟩

end SessionManager

end Ferrum.Runtime
