import Mathlib.Order.Nat

namespace Ferrum

universe u

/-- A filter that remembers accepted keys for a bounded time: the clock, the accepted attempts with their keys, the log of all
calls, and what is remembered. -/
structure ReplayGuard (Key : Type u) where
  now : Nat
  accepted : Nat → Option Key
  calls : List (Key × Nat)
  retained : Key → Nat → Prop

namespace ReplayGuard

variable {Key : Type u} {retention : Nat}

/-- Attempts accepted with the same key are one attempt. -/
def Once (guard : ReplayGuard Key) : Prop :=
  ∀ key first second, guard.accepted first = some key → guard.accepted second = some key → first = second

/-- The calls logged for a key all lie less than the retention back. -/
def Spaced (retention : Nat) (guard : ReplayGuard Key) (key : Key) : Prop :=
  ∀ instant, (key, instant) ∈ guard.calls → guard.now < instant + retention

/-- An accepted key is remembered since its call, unless the retention has passed since. -/
structure Safe (retention : Nat) (guard : ReplayGuard Key) : Prop where
  remembered : ∀ attempt key, guard.accepted attempt = some key →
    ∃ instant, (key, instant) ∈ guard.calls ∧ (guard.retained key instant ∨ instant + retention ≤ guard.now)
  once : guard.Once

/-- What one step may forget: only keys whose retention has passed. -/
structure Keeps (retention : Nat) (before after : ReplayGuard Key) : Prop where
  time : before.now ≤ after.now
  calls : ∀ call ∈ before.calls, call ∈ after.calls
  retained : ∀ key instant, before.retained key instant →
    after.retained key instant ∨ instant + retention ≤ after.now

variable {before after : ReplayGuard Key}

theorem Keeps.remembered (keeps : Keeps retention before after)
    (safe : Safe retention before) {attempt : Nat} {key : Key} (old : before.accepted attempt = some key) :
    ∃ instant, (key, instant) ∈ after.calls ∧ (after.retained key instant ∨ instant + retention ≤ after.now) := by
  obtain ⟨instant, member, held | expired⟩ := safe.remembered attempt key old
  · exact ⟨instant, keeps.calls _ member, keeps.retained key instant held⟩
  · exact ⟨instant, keeps.calls _ member, .inr (expired.trans keeps.time)⟩

theorem Safe.pass (safe : Safe retention before) (keeps : Keeps retention before after)
    (accepted : ∀ attempt key, after.accepted attempt = some key → before.accepted attempt = some key) :
    Safe retention after where
  remembered attempt key atKey := keeps.remembered safe (accepted attempt key atKey)
  once key first second atFirst atSecond :=
    safe.once key first second (accepted _ _ atFirst) (accepted _ _ atSecond)

theorem Safe.accept (safe : Safe retention before)
    (keeps : Keeps retention before after) (attempt : Nat) {instant : Nat} {key : Key}
    (accepted : ∀ other found, after.accepted other = some found →
      other = attempt ∧ found = key ∨ before.accepted other = some found)
    (logged : (key, instant) ∈ after.calls) (held : after.retained key instant)
    (fresh : ∀ earlier, before.retained key earlier → earlier + retention ≤ before.now) (spaced : before.Spaced retention key) :
    Safe retention after := by
  have alone : ∀ other, before.accepted other ≠ some key := by
    intro other atOther
    obtain ⟨earlier, member, held⟩ := safe.remembered other key atOther
    exact absurd (spaced earlier member) (not_lt.mpr (held.elim (fresh earlier) fun expired => expired))
  constructor
  · intro other found atOther
    rcases accepted other found atOther with ⟨_, rfl⟩ | old
    · exact ⟨instant, logged, .inl held⟩
    · exact keeps.remembered safe old
  · intro found first second atFirst atSecond
    rcases accepted _ _ atFirst with ⟨rfl, rfl⟩ | firstOld <;>
      rcases accepted _ _ atSecond with ⟨rfl, same⟩ | secondOld
    · rfl
    · exact absurd secondOld (alone second)
    · exact absurd (same ▸ firstOld) (alone first)
    · exact safe.once found first second firstOld secondOld

end ReplayGuard

end Ferrum
