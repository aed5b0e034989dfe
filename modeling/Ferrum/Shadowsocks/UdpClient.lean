import Ferrum.Shadowsocks.UdpServer

namespace Ferrum.Shadowsocks

open Option

structure ClientAssociation (SessionId : Type) where
  sessionId : SessionId
  replay : UdpReplayWindow
  lastValid : Nat

structure ClientAssociations (SessionId : Type) where
  current : Option (ClientAssociation SessionId)
  old : Option (ClientAssociation SessionId)

/-- The opaque transition of an authenticated response. -/
structure UdpResponseCommit (SessionId : Type) where
  owner : Nat
  sessionId : SessionId
  packetId : PacketId

/-- The part of a client session that its responses change; `poisoned` is the one of its lock. -/
structure UdpClientSession (SessionId : Type) where
  owner : Nat
  poisoned : Bool
  associations : ClientAssociations SessionId

namespace ClientAssociation

variable {SessionId : Type}

/-- A packet of the session; the outer `none` is a panic. -/
def commit (association : ClientAssociation SessionId) (packetId : PacketId) (now : Nat) :
    Option (ClientAssociation SessionId × Except UdpPacketError Unit) := do
  let (replay, answer) ← association.replay.commit packetId
  match answer with
  | .error error => return ({ association with replay }, .error error)
  | .ok () => return ({ association with replay, lastValid := max association.lastValid now }, .ok ())

end ClientAssociation

namespace ClientAssociations

variable {SessionId : Type} [DecidableEq SessionId]

omit [DecidableEq SessionId] in
def new : ClientAssociations SessionId := ⟨none, none⟩

omit [DecidableEq SessionId] in
/-- A first packet of a session that is not known: it takes the current place, if there is one or the
old association has been idle for the retention. -/
def openFresh (associations : ClientAssociations SessionId) (fresh : ClientAssociation SessionId) (now : Nat) :
    ClientAssociations SessionId × Except UdpPacketError Unit :=
  match associations.current with
  | none => ({ associations with current := some fresh }, .ok ())
  | some current =>
    match associations.old with
    | none => (⟨some fresh, some current⟩, .ok ())
    | some old =>
      if (durationSince now old.lastValid).any (udpAssociationRetention ≤ ·) then (⟨some fresh, some current⟩, .ok ())
      else (associations, .error .associationLimit)

def commitClientAssociation (associations : ClientAssociations SessionId) (sessionId : SessionId) (packetId : PacketId)
    (now : Nat) : Option (ClientAssociations SessionId × Except UdpPacketError Unit) :=
  match associations.current.filter (·.sessionId = sessionId) with
  | some current => do
    let (current, answer) ← current.commit packetId now
    return ({ associations with current := some current }, answer)
  | none =>
    match associations.old.filter (·.sessionId = sessionId) with
    | some old => do
      let (old, answer) ← old.commit packetId now
      return ({ associations with old := some old }, answer)
    | none => do
      let (replay, answer) ← UdpReplayWindow.new.commit packetId
      match answer with
      | .error error => return (associations, .error error)
      | .ok () => return associations.openFresh ⟨sessionId, replay, now⟩ now

end ClientAssociations

namespace UdpClientSession

variable {SessionId : Type} [DecidableEq SessionId]

omit [DecidableEq SessionId] in
def new (owner : Nat) : UdpClientSession SessionId := ⟨owner, false, .new⟩

def commitResponse (session : UdpClientSession SessionId) (commit : UdpResponseCommit SessionId) (now : Nat) :
    Option (UdpClientSession SessionId × Except UdpPacketError Unit) :=
  if commit.owner ≠ session.owner then some (session, .error .binding)
  else if session.poisoned then some (session, .error .stateUnavailable)
  else do
    let (associations, answer) ← session.associations.commitClientAssociation commit.sessionId commit.packetId now
    return ({ session with associations }, answer)

omit [DecidableEq SessionId] in
def associationCount (session : UdpClientSession SessionId) : Nat :=
  session.associations.current.toList.length + session.associations.old.toList.length

end UdpClientSession

open UdpReplayWindow (Represents)

/-- The window after one more packet, whatever packets it stands for. -/
def Extends (before after : UdpReplayWindow) (packetId : PacketId) : Prop :=
  ∀ accepted, Represents before accepted → packetId ∉ accepted ∧ Represents after (accepted ++ [packetId])

theorem replay_commit_cases {window : UdpReplayWindow} {accepted : List PacketId} (rep : Represents window accepted)
    (packetId : PacketId) : (∃ error, window.commit packetId = some (window, .error error)) ∨
      ∃ after, window.commit packetId = some (after, .ok ()) ∧ Extends window after packetId := by
  obtain ⟨committed, run, success, failure⟩ := rep.commit_spec packetId
  cases answer : UdpReplayWindow.specCheck window.highest accepted packetId with
  | error error =>
    rw [answer] at run
    rw [failure (by rw [answer]; nofun)] at run
    exact .inl ⟨error, run⟩
  | ok =>
    rw [answer] at run
    refine .inr ⟨committed, run, fun other otherRep => ?_⟩
    obtain ⟨same, otherRun, otherSuccess, -⟩ := otherRep.commit_spec packetId
    obtain ⟨sameWindow, sameAnswer⟩ := Prod.mk.inj (some.inj (otherRun.symm.trans run))
    subst sameWindow
    exact ⟨((UdpReplayWindow.specCheck_ok_iff fun none => (otherRep.clear none).1).mp sameAnswer).1, otherSuccess sameAnswer⟩

/-- The window has a history. -/
def ClientAssociation.Tracked {SessionId : Type} (association : ClientAssociation SessionId) : Prop :=
  ∃ accepted, Represents association.replay accepted

/-- The association after an accepted packet. -/
def ClientAssociation.record {SessionId : Type} (association : ClientAssociation SessionId) (replay : UdpReplayWindow)
    (now : Nat) : ClientAssociation SessionId :=
  { association with replay, lastValid := max association.lastValid now }

theorem ClientAssociation.commit_cases {SessionId : Type} {association : ClientAssociation SessionId}
    (tracked : association.Tracked) (packetId : PacketId) (now : Nat) :
    (∃ error, association.commit packetId now = some (association, .error error)) ∨
      ∃ replay, association.commit packetId now = some (association.record replay now, .ok ()) ∧
        Extends association.replay replay packetId := by
  obtain ⟨accepted, rep⟩ := tracked
  rcases replay_commit_cases rep packetId with ⟨error, run⟩ | ⟨after, run, extends_⟩
  · refine .inl ⟨error, ?_⟩
    unfold ClientAssociation.commit
    rw [run]
    rfl
  · refine .inr ⟨after, ?_, extends_⟩
    unfold ClientAssociation.commit
    rw [run]
    rfl

theorem ClientAssociation.Tracked.record {SessionId : Type} {association : ClientAssociation SessionId}
    (tracked : association.Tracked) {replay : UdpReplayWindow} {packetId : PacketId}
    (extends_ : Extends association.replay replay packetId) (now : Nat) : (association.record replay now).Tracked := by
  obtain ⟨accepted, rep⟩ := tracked
  exact ⟨_, (extends_ accepted rep).2⟩

namespace ClientAssociations

variable {SessionId : Type}

def Holds (associations : ClientAssociations SessionId) (association : ClientAssociation SessionId) : Prop :=
  associations.current = some association ∨ associations.old = some association

structure Sound (associations : ClientAssociations SessionId) : Prop where
  tracked : ∀ association, associations.Holds association → association.Tracked
  distinct : ∀ current old, associations.current = some current → associations.old = some old →
    current.sessionId ≠ old.sessionId
  newest : associations.current = none → associations.old = none

/-- The packet was accepted at the instant by an association that is still kept. -/
def Remembers (associations : ClientAssociations SessionId) (sessionId : SessionId) (packetId : PacketId) (instant : Nat) :
    Prop :=
  ∃ association, associations.Holds association ∧ association.sessionId = sessionId ∧ instant ≤ association.lastValid ∧
    ∃ accepted, Represents association.replay accepted ∧ packetId ∈ accepted

/-- What an accepted packet does: it extends the association of its session, or it opens a new one in
front of the current one, and the old one makes room only after the retention. -/
inductive Accepts (associations : ClientAssociations SessionId) (sessionId : SessionId) (packetId : PacketId) (now : Nat) :
    ClientAssociations SessionId → Prop
  | current {association : ClientAssociation SessionId} {replay : UdpReplayWindow}
      (held : associations.current = some association) (same : association.sessionId = sessionId)
      (extended : Extends association.replay replay packetId) :
      Accepts associations sessionId packetId now { associations with current := some (association.record replay now) }
  | old {association : ClientAssociation SessionId} {replay : UdpReplayWindow}
      (held : associations.old = some association) (same : association.sessionId = sessionId)
      (extended : Extends association.replay replay packetId) :
      Accepts associations sessionId packetId now { associations with old := some (association.record replay now) }
  | fresh {replay : UdpReplayWindow} (unknown : ∀ association, associations.Holds association → association.sessionId ≠ sessionId)
      (extended : Represents replay [packetId])
      (idle : ∀ old, associations.old = some old → old.lastValid + udpAssociationRetention ≤ now) :
      Accepts associations sessionId packetId now ⟨some ⟨sessionId, replay, now⟩, associations.current⟩

variable [DecidableEq SessionId] {associations : ClientAssociations SessionId}

omit [DecidableEq SessionId] in
theorem new_sound : (new : ClientAssociations SessionId).Sound where
  tracked association held := by rcases held with held | held <;> cases held
  distinct current old held := by cases held
  newest _ := rfl

omit [DecidableEq SessionId] in
theorem openFresh_cases (sound : associations.Sound) (fresh : ClientAssociation SessionId) (now : Nat) :
    associations.openFresh fresh now = (associations, .error .associationLimit) ∨
      associations.openFresh fresh now = (⟨some fresh, associations.current⟩, .ok ()) ∧
        ∀ old, associations.old = some old → old.lastValid + udpAssociationRetention ≤ now := by
  obtain ⟨current, old⟩ := associations
  cases current with
  | none =>
    cases sound.newest rfl
    exact .inr ⟨rfl, nofun⟩
  | some current =>
    cases old with
    | none => exact .inr ⟨rfl, nofun⟩
    | some old =>
      unfold openFresh durationSince
      by_cases expired : old.lastValid + udpAssociationRetention ≤ now
      · refine .inr ⟨?_, fun other held => by cases held; exact expired⟩
        simp only [if_pos (show old.lastValid ≤ now by omega), any_some,
          decide_eq_true (show udpAssociationRetention ≤ now - old.lastValid by omega), if_true]
      · refine .inl ?_
        by_cases reversed : old.lastValid ≤ now
        · simp only [if_pos reversed, any_some, decide_eq_true_eq,
            if_neg (show ¬udpAssociationRetention ≤ now - old.lastValid by omega)]
        · simp only [if_neg reversed, any_none, Bool.false_eq_true, if_false]

theorem commit_cases (sound : associations.Sound) (sessionId : SessionId) (packetId : PacketId) (now : Nat) :
    (∃ error, associations.commitClientAssociation sessionId packetId now = some (associations, .error error)) ∨
      ∃ after, associations.commitClientAssociation sessionId packetId now = some (after, .ok ()) ∧
        Accepts associations sessionId packetId now after := by
  unfold commitClientAssociation
  cases isCurrent : associations.current.filter (·.sessionId = sessionId) with
  | some association =>
    obtain ⟨held, same⟩ := filter_eq_some_iff.mp isCurrent
    rcases ClientAssociation.commit_cases (sound.tracked association (.inl held)) packetId now with
      ⟨error, run⟩ | ⟨replay, run, extended⟩
    · refine .inl ⟨error, ?_⟩
      simp only [run, bind, Option.bind, pure, ← held]
    · refine .inr ⟨_, ?_, .current held (of_decide_eq_true same) extended⟩
      simp only [run, bind, Option.bind, pure]
  | none =>
    cases isOld : associations.old.filter (·.sessionId = sessionId) with
    | some association =>
      obtain ⟨held, same⟩ := filter_eq_some_iff.mp isOld
      rcases ClientAssociation.commit_cases (sound.tracked association (.inr held)) packetId now with
        ⟨error, run⟩ | ⟨replay, run, extended⟩
      · refine .inl ⟨error, ?_⟩
        simp only [run, bind, Option.bind, pure, ← held]
      · refine .inr ⟨_, ?_, .old held (of_decide_eq_true same) extended⟩
        simp only [run, bind, Option.bind, pure]
    | none =>
      have unknown : ∀ association, associations.Holds association → association.sessionId ≠ sessionId := by
        rintro association (held | held) same
        · rw [held, filter_some, if_pos (decide_eq_true same)] at isCurrent
          cases isCurrent
        · rw [held, filter_some, if_pos (decide_eq_true same)] at isOld
          cases isOld
      rcases replay_commit_cases UdpReplayWindow.new_represents packetId with ⟨error, run⟩ | ⟨replay, run, extended⟩
      · refine .inl ⟨error, ?_⟩
        simp only [run, bind, Option.bind, pure]
      · simp only [run, bind, Option.bind, pure]
        rcases openFresh_cases sound ⟨sessionId, replay, now⟩ now with full | ⟨opened, idle⟩
        · exact .inl ⟨_, congrArg some full⟩
        · exact .inr ⟨_, congrArg some opened,
            .fresh unknown (extended [] UdpReplayWindow.new_represents).2 idle⟩

section accepts

variable {after : ClientAssociations SessionId} {sessionId : SessionId} {packetId : PacketId} {now : Nat}

omit [DecidableEq SessionId]

theorem Accepts.sound (sound : associations.Sound) (accepts : Accepts associations sessionId packetId now after) :
    after.Sound := by
  cases accepts with
  | current held same extended =>
    rename_i association replay
    refine ⟨?_, ?_, nofun⟩
    · rintro other (isNew | isOld)
      · cases isNew
        exact (sound.tracked association (.inl held)).record extended now
      · exact sound.tracked other (.inr isOld)
    · intro current old isCurrent isOld
      cases isCurrent
      exact sound.distinct association old held isOld
  | old held same extended =>
    rename_i association replay
    refine ⟨?_, ?_, ?_⟩
    · rintro other (isCurrent | isNew)
      · exact sound.tracked other (.inl isCurrent)
      · cases isNew
        exact (sound.tracked association (.inr held)).record extended now
    · intro current old isCurrent isOld
      cases isOld
      exact sound.distinct current association isCurrent held
    · intro none
      have absent := sound.newest none
      rw [held] at absent
      cases absent
  | fresh unknown extended idle =>
    refine ⟨?_, ?_, nofun⟩
    · rintro other (isNew | kept)
      · cases isNew
        exact ⟨_, extended⟩
      · exact sound.tracked other (.inl kept)
    · intro current old isCurrent kept same
      cases isCurrent
      exact unknown old (.inl kept) same.symm

theorem Accepts.remembers (sound : associations.Sound) (accepts : Accepts associations sessionId packetId now after) :
    after.Remembers sessionId packetId now := by
  cases accepts with
  | current held same extended =>
    obtain ⟨accepted, rep⟩ := sound.tracked _ (.inl held)
    exact ⟨_, .inl rfl, same, le_max_right _ _, _, (extended accepted rep).2, by simp⟩
  | old held same extended =>
    obtain ⟨accepted, rep⟩ := sound.tracked _ (.inr held)
    exact ⟨_, .inr rfl, same, le_max_right _ _, _, (extended accepted rep).2, by simp⟩
  | fresh unknown extended idle => exact ⟨_, .inl rfl, rfl, le_rfl, _, extended, List.mem_singleton_self _⟩

theorem Remembers.not_accepted {instant : Nat} (sound : associations.Sound)
    (remembers : associations.Remembers sessionId packetId instant) : ¬Accepts associations sessionId packetId now after := by
  obtain ⟨association, held, same, -, accepted, rep, member⟩ := remembers
  intro accepts
  cases accepts with
  | current other otherSame extended =>
    rcases held with held | held
    · cases some.inj (held.symm.trans other)
      exact (extended accepted rep).1 member
    · exact sound.distinct _ _ other held (otherSame.trans same.symm)
  | old other otherSame extended =>
    rcases held with held | held
    · exact sound.distinct _ _ held other (same.trans otherSame.symm)
    · cases some.inj (held.symm.trans other)
      exact (extended accepted rep).1 member
  | fresh unknown extended idle => exact unknown association held same

/-- The old association is dropped: it has been idle for the retention, since the instant at least. -/
def Drops (associations after : ClientAssociations SessionId) (sessionId : SessionId) (instant now : Nat) : Prop :=
  ∃ dropped, associations.old = some dropped ∧ associations.current.isSome ∧ dropped.sessionId = sessionId ∧
    instant ≤ dropped.lastValid ∧ dropped.lastValid + udpAssociationRetention ≤ now ∧
    ∀ kept, after.Holds kept → kept.sessionId ≠ sessionId

theorem Remembers.accepts {other : SessionId} {otherPacket : PacketId} {instant : Nat} (sound : associations.Sound)
    (remembers : associations.Remembers sessionId packetId instant)
    (accepts : Accepts associations other otherPacket now after) :
    after.Remembers sessionId packetId instant ∨ Drops associations after sessionId instant now := by
  obtain ⟨association, held, same, recent, accepted, rep, member⟩ := remembers
  cases accepts with
  | current isCurrent otherSame extended =>
    rcases held with held | held
    · cases some.inj (held.symm.trans isCurrent)
      exact .inl ⟨_, .inl rfl, same, recent.trans (le_max_left _ _), _, (extended accepted rep).2,
        List.mem_append_left _ member⟩
    · exact .inl ⟨association, .inr held, same, recent, accepted, rep, member⟩
  | old isOld otherSame extended =>
    rcases held with held | held
    · exact .inl ⟨association, .inl held, same, recent, accepted, rep, member⟩
    · cases some.inj (held.symm.trans isOld)
      exact .inl ⟨_, .inr rfl, same, recent.trans (le_max_left _ _), _, (extended accepted rep).2,
        List.mem_append_left _ member⟩
  | fresh unknown extended idle =>
    rcases held with held | held
    · exact .inl ⟨association, .inr held, same, recent, accepted, rep, member⟩
    · refine .inr ⟨association, held, ?_, same, recent, idle association held, ?_⟩
      · by_contra absent
        rw [Bool.not_eq_true, isSome_eq_false_iff, isNone_iff_eq_none] at absent
        have gone := sound.newest absent
        rw [held] at gone
        cases gone
      · rintro kept (isNew | isKept) bad
        · cases isNew
          exact unknown association (.inr held) (same.trans bad.symm)
        · exact sound.distinct kept association isKept held (bad.trans same.symm)

theorem Accepts.dropped (sound : associations.Sound) (accepts : Accepts associations sessionId packetId now after)
    {gone : ClientAssociation SessionId} (held : associations.Holds gone)
    (absent : ∀ kept, after.Holds kept → kept.sessionId ≠ gone.sessionId) :
    Drops associations after gone.sessionId gone.lastValid now := by
  cases accepts with
  | current isCurrent same extended =>
    rcases held with held | held
    · cases some.inj (held.symm.trans isCurrent)
      exact absurd rfl (absent (gone.record _ now) (.inl rfl))
    · exact absurd rfl (absent gone (.inr held))
  | old isOld same extended =>
    rcases held with held | held
    · exact absurd rfl (absent gone (.inl held))
    · cases some.inj (held.symm.trans isOld)
      exact absurd rfl (absent (gone.record _ now) (.inr rfl))
  | fresh unknown extended idle =>
    rcases held with held | held
    · exact absurd rfl (absent gone (.inr held))
    · refine ⟨gone, held, ?_, rfl, le_rfl, idle gone held, absent⟩
      by_contra none
      rw [Bool.not_eq_true, isSome_eq_false_iff, isNone_iff_eq_none] at none
      have gone := sound.newest none
      rw [held] at gone
      cases gone

end accepts

end ClientAssociations

namespace UdpClientSession

variable {SessionId : Type} [DecidableEq SessionId]

theorem commitResponse_cases {session : UdpClientSession SessionId} (sound : session.associations.Sound)
    (commit : UdpResponseCommit SessionId) (now : Nat) :
    (∃ error, session.commitResponse commit now = some (session, .error error)) ∨
      ∃ after, session.commitResponse commit now = some ({ session with associations := after }, .ok ()) ∧
        session.associations.Accepts commit.sessionId commit.packetId now after := by
  unfold commitResponse
  by_cases foreign : commit.owner ≠ session.owner
  · exact .inl ⟨.binding, if_pos foreign⟩
  rw [if_neg foreign]
  by_cases poisoned : session.poisoned = true
  · exact .inl ⟨.stateUnavailable, if_pos poisoned⟩
  rw [if_neg poisoned]
  rcases ClientAssociations.commit_cases sound commit.sessionId commit.packetId now with
    ⟨error, run⟩ | ⟨after, run, accepts⟩
  · exact .inl ⟨error, by simp only [run, bind, Option.bind, pure]⟩
  · exact .inr ⟨after, by simp only [run, bind, Option.bind, pure], accepts⟩

/-- The calls in the order of the lock, each with its instant; `none` is a panic. -/
def run (session : UdpClientSession SessionId) : List (UdpResponseCommit SessionId × Nat) → Option (UdpClientSession SessionId)
  | [] => some session
  | call :: calls => do
    let (session, _) ← session.commitResponse call.1 call.2
    session.run calls

theorem run_append (session : UdpClientSession SessionId) (first second : List (UdpResponseCommit SessionId × Nat)) :
    session.run (first ++ second) = session.run first >>= (·.run second) := by
  induction first generalizing session with
  | nil => rfl
  | cons call calls ih =>
    simp only [List.cons_append, run, bind, Option.bind]
    cases session.commitResponse call.1 call.2 with
    | none => rfl
    | some answered => exact ih answered.1

theorem run_sound (session : UdpClientSession SessionId) (sound : session.associations.Sound)
    (calls : List (UdpResponseCommit SessionId × Nat)) :
    ∃ final, session.run calls = some final ∧ final.associations.Sound := by
  induction calls generalizing session with
  | nil => exact ⟨session, rfl, sound⟩
  | cons call calls ih =>
    rcases commitResponse_cases sound call.1 call.2 with ⟨error, answered⟩ | ⟨after, answered, accepts⟩
    · obtain ⟨final, rest, finalSound⟩ := ih session sound
      exact ⟨final, by simp only [run, answered, bind, Option.bind, rest], finalSound⟩
    · obtain ⟨final, rest, finalSound⟩ := ih { session with associations := after } (accepts.sound sound)
      exact ⟨final, by simp only [run, answered, bind, Option.bind, rest], finalSound⟩

theorem run_remembers {session final : UdpClientSession SessionId} {calls : List (UdpResponseCommit SessionId × Nat)}
    {sessionId : SessionId} {packetId : PacketId} {instant : Nat} (sound : session.associations.Sound)
    (remembers : session.associations.Remembers sessionId packetId instant) (ran : session.run calls = some final) :
    final.associations.Remembers sessionId packetId instant ∨
      ∃ kept call rest before after, calls = kept ++ call :: rest ∧ session.run kept = some before ∧
        before.commitResponse call.1 call.2 = some (after, .ok ()) ∧
        before.associations.Drops after.associations sessionId instant call.2 := by
  induction calls generalizing session with
  | nil =>
    cases ran
    exact .inl remembers
  | cons call calls ih =>
    rcases commitResponse_cases sound call.1 call.2 with ⟨error, answered⟩ | ⟨after, answered, accepts⟩
    · simp only [run, answered, bind, Option.bind] at ran
      rcases ih sound remembers ran with still | ⟨kept, dropping, rest, before, after, shape, first, second, drops⟩
      · exact .inl still
      · refine .inr ⟨call :: kept, dropping, rest, before, after, by rw [shape]; rfl, ?_, second, drops⟩
        simp only [run, answered, bind, Option.bind, first]
    · simp only [run, answered, bind, Option.bind] at ran
      rcases remembers.accepts sound accepts with kept | drops
      · rcases ih (accepts.sound sound) kept ran with still | ⟨kept, dropping, rest, before, last, shape, first, second, drops⟩
        · exact .inl still
        · refine .inr ⟨call :: kept, dropping, rest, before, last, by rw [shape]; rfl, ?_, second, drops⟩
          simp only [run, answered, bind, Option.bind, first]
      · exact .inr ⟨[], call, calls, session, _, rfl, rfl, answered, drops⟩

/-- After any calls at most two associations are kept, one goes only as the old one after the retention, and a packet that
was accepted is accepted again only behind a call that dropped its association. -/
theorem commitResponse_exact (owner : Nat) (calls : List (UdpResponseCommit SessionId × Nat)) :
    ∃ session, (new owner).run calls = some session ∧ session.associationCount ≤ 2 ∧
      (∀ current old, session.associations.current = some current → session.associations.old = some old →
        current.sessionId ≠ old.sessionId) ∧
      (∀ commit now, ∃ after answer, session.commitResponse commit now = some (after, answer) ∧
        (∀ error, answer = .error error → after = session) ∧
        ∀ gone, session.associations.Holds gone →
          (∀ kept, after.associations.Holds kept → kept.sessionId ≠ gone.sessionId) →
          session.associations.Drops after.associations gone.sessionId gone.lastValid now) ∧
      ∀ before commit instant middle accepting accepted, calls = before ++ (commit, instant) :: middle →
        (new owner).run before = some accepting → accepting.commitResponse commit instant = some (accepted, .ok ()) →
        ∀ again now after, again.sessionId = commit.sessionId → again.packetId = commit.packetId →
          session.commitResponse again now = some (after, .ok ()) →
          ∃ kept call rest before after, middle = kept ++ call :: rest ∧ accepted.run kept = some before ∧
            before.commitResponse call.1 call.2 = some (after, .ok ()) ∧
            before.associations.Drops after.associations commit.sessionId instant call.2 := by
  obtain ⟨session, ran, sound⟩ := run_sound (new owner) ClientAssociations.new_sound calls
  refine ⟨session, ran, ?_, sound.distinct, ?_, ?_⟩
  · unfold associationCount
    cases session.associations.current <;> cases session.associations.old <;> simp
  · intro commit now
    rcases commitResponse_cases sound commit now with ⟨error, answered⟩ | ⟨after, answered, accepts⟩
    · exact ⟨session, _, answered, fun _ _ => rfl, fun gone held absent => absurd rfl (absent gone held)⟩
    · exact ⟨_, _, answered, nofun, fun gone held absent => accepts.dropped sound held absent⟩
  · intro before commit instant middle accepting accepted shape first accepts again now after sameSession samePacket twice
    obtain ⟨reached, reachedRan, reachedSound⟩ := run_sound (new owner) ClientAssociations.new_sound before
    cases some.inj (first.symm.trans reachedRan)
    rcases commitResponse_cases reachedSound commit instant with ⟨error, answered⟩ | ⟨next, answered, stepped⟩
    · rw [accepts] at answered
      cases answered
    · cases some.inj (accepts.symm.trans answered)
      have rest : UdpClientSession.run { accepting with associations := next } middle = some session := by
        rw [shape, run_append, first] at ran
        simpa only [run, accepts, bind, Option.bind] using ran
      rcases run_remembers (stepped.sound reachedSound) (stepped.remembers reachedSound) rest with remembers | dropped
      · rcases commitResponse_cases sound again now with ⟨error, refused⟩ | ⟨final, _, again⟩
        · rw [twice] at refused
          cases refused
        · rw [sameSession, samePacket] at again
          exact absurd again (remembers.not_accepted sound)
      · exact dropped

end UdpClientSession

end Ferrum.Shadowsocks
