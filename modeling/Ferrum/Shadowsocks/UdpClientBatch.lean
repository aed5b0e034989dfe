import Ferrum.Shadowsocks.UdpClient

namespace Ferrum.Shadowsocks

open Function List

def maxBatchResponses : Nat := 8

/-- The client sessions of a process by their addresses. -/
abbrev UdpClients (SessionId : Type) := Nat → UdpClientSession SessionId

namespace UdpClients

variable {SessionId : Type} [DecidableEq SessionId]

omit [DecidableEq SessionId] in
/-- Every commit belongs to its session, and no session is named twice. -/
def bound (clients : UdpClients SessionId) (seen : List Nat) : List (Nat × UdpResponseCommit SessionId) → Bool
  | [] => true
  | (address, commit) :: rest =>
    commit.owner == (clients address).owner && !(seen.contains address) && clients.bound (seen ++ [address]) rest

/-- The commits on copies of the associations, up to the first failure. -/
def commitCopies (now : Nat) : List (ClientAssociations SessionId × UdpResponseCommit SessionId) →
    Option (Except UdpPacketError (List (ClientAssociations SessionId)))
  | [] => some (.ok [])
  | (associations, commit) :: rest => do
    let (updated, answer) ← associations.commitClientAssociation commit.sessionId commit.packetId now
    match answer with
    | .error error => return .error error
    | .ok () =>
      match ← commitCopies now rest with
      | .error error => return .error error
      | .ok more => return .ok (updated :: more)

omit [DecidableEq SessionId] in
/-- Writes the copies back. -/
def replaceAll (clients : UdpClients SessionId) : List (Nat × UdpResponseCommit SessionId) →
    List (ClientAssociations SessionId) → UdpClients SessionId
  | (address, _) :: rest, associations :: more =>
    replaceAll (update clients address { clients address with associations }) rest more
  | _, _ => clients

section

variable (clients : UdpClients SessionId)

/-- The part under the locks, for the transitions in the order in which their locks are taken. -/
def commitLocked (transitions : List (Nat × UdpResponseCommit SessionId)) (now : Nat) :
    Option (UdpClients SessionId × Except UdpPacketError Unit) :=
  if transitions.any fun transition => (clients transition.1).poisoned then some (clients, .error .stateUnavailable)
  else do
    match ← commitCopies now (transitions.map fun transition => ((clients transition.1).associations, transition.2)) with
    | .error error => return (clients, .error error)
    | .ok updated => return (clients.replaceAll transitions updated, .ok ())

def commitResponses (sessions : List Nat) (commits : List (UdpResponseCommit SessionId))
    (now : Nat) : Option (UdpClients SessionId × Except UdpPacketError Unit) :=
  if sessions = [] ∨ maxBatchResponses < sessions.length ∨ sessions.length ≠ commits.length then
    some (clients, .error .bounds)
  else if clients.bound [] (sessions.zip commits) = false then some (clients, .error .binding)
  else clients.commitLocked ((sessions.zip commits).mergeSort fun first second => decide (first.1 ≤ second.1)) now

omit [DecidableEq SessionId] in
def Sound (clients : UdpClients SessionId) : Prop := ∀ address, (clients address).associations.Sound

/-- The transition fails when it is committed by itself. -/
def Fails (now : Nat) (transition : Nat × UdpResponseCommit SessionId) : Prop :=
  ∃ error, (clients transition.1).commitResponse transition.2 now = some (clients transition.1, .error error)

/-- The transition succeeds when it is committed by itself, and this is its session afterwards. -/
def Commits (now : Nat) (transition : Nat × UdpResponseCommit SessionId)
    (after : UdpClientSession SessionId) : Prop :=
  (clients transition.1).commitResponse transition.2 now = some (after, .ok ())

end

variable {clients : UdpClients SessionId} {transitions : List (Nat × UdpResponseCommit SessionId)}

omit [DecidableEq SessionId] in
theorem bound_iff {seen : List Nat} :
    clients.bound seen transitions = true ↔ (∀ transition ∈ transitions, transition.2.owner = (clients transition.1).owner) ∧
      (transitions.map Prod.fst).Nodup ∧ ∀ transition ∈ transitions, transition.1 ∉ seen := by
  induction transitions generalizing seen with
  | nil => simp [bound]
  | cons transition rest ih =>
    obtain ⟨address, commit⟩ := transition
    simp only [bound, Bool.and_eq_true, beq_iff_eq, Bool.not_eq_true', contains_eq_mem, decide_eq_false_iff_not, ih,
      mem_append, mem_singleton, not_or, forall_mem_cons, map_cons, nodup_cons, mem_map]
    constructor
    · rintro ⟨⟨owner, unseen⟩, owners, distinct, fresh⟩
      refine ⟨⟨owner, owners⟩, ⟨?_, distinct⟩, unseen, fun other member => (fresh other member).1⟩
      rintro ⟨other, member, same⟩
      exact (fresh other member).2 same
    · rintro ⟨⟨owner, owners⟩, ⟨alone, distinct⟩, unseen, fresh⟩
      exact ⟨⟨owner, unseen⟩, owners, distinct, fun other member =>
        ⟨fresh other member, fun same => alone ⟨other, member, same⟩⟩⟩

theorem commit_copy {transition : Nat × UdpResponseCommit SessionId} (now : Nat)
    (owner : transition.2.owner = (clients transition.1).owner) (free : (clients transition.1).poisoned = false) :
    (clients transition.1).commitResponse transition.2 now =
      ((clients transition.1).associations.commitClientAssociation transition.2.sessionId transition.2.packetId now).map
        fun answered => ({ clients transition.1 with associations := answered.1 }, answered.2) := by
  unfold UdpClientSession.commitResponse
  rw [if_neg (not_not.mpr owner), if_neg (by rw [free]; decide)]
  cases (clients transition.1).associations.commitClientAssociation transition.2.sessionId transition.2.packetId now <;> rfl

theorem commitCopies_cases (sound : clients.Sound) (now : Nat)
    (owners : ∀ transition ∈ transitions, transition.2.owner = (clients transition.1).owner)
    (free : ∀ transition ∈ transitions, (clients transition.1).poisoned = false) :
    (∃ error, commitCopies now (transitions.map fun transition => ((clients transition.1).associations, transition.2)) =
        some (.error error) ∧ ∃ transition ∈ transitions, clients.Fails now transition) ∨
      ∃ updated, commitCopies now (transitions.map fun transition => ((clients transition.1).associations, transition.2)) =
        some (.ok updated) ∧ List.Forall₂ (fun transition associations =>
          clients.Commits now transition { clients transition.1 with associations }) transitions updated := by
  induction transitions with
  | nil => exact .inr ⟨[], rfl, .nil⟩
  | cons transition rest ih =>
    obtain ⟨owner, owners⟩ := forall_mem_cons.mp owners
    obtain ⟨unlocked, free⟩ := forall_mem_cons.mp free
    have single := commit_copy now owner unlocked
    rcases ClientAssociations.commit_cases (sound transition.1) transition.2.sessionId transition.2.packetId now with
      ⟨error, run⟩ | ⟨after, run, -⟩
    · refine .inl ⟨error, ?_, transition, mem_cons_self, error, ?_⟩
      · simp only [map_cons, commitCopies, run, bind, Option.bind, pure]
      · rw [single, run]
        rfl
    · have committed : clients.Commits now transition { clients transition.1 with associations := after } := by
        unfold Commits
        rw [single, run]
        rfl
      rcases ih owners free with ⟨error, failed, other, member, fails⟩ | ⟨updated, ran, all⟩
      · refine .inl ⟨error, ?_, other, mem_cons_of_mem _ member, fails⟩
        simp only [map_cons, commitCopies, run, bind, Option.bind, pure, failed]
      · refine .inr ⟨after :: updated, ?_, .cons committed all⟩
        simp only [map_cons, commitCopies, run, bind, Option.bind, pure, ran]

variable {updated : List (ClientAssociations SessionId)} {address : Nat}

omit [DecidableEq SessionId] in
theorem replaceAll_other
    (other : address ∉ transitions.map Prod.fst) : clients.replaceAll transitions updated address = clients address := by
  induction transitions generalizing clients updated with
  | nil => rfl
  | cons transition rest ih =>
    obtain ⟨first, commit⟩ := transition
    rw [map_cons, mem_cons, not_or] at other
    cases updated with
    | nil => rfl
    | cons associations more =>
      refine (ih other.2).trans ?_
      rw [update_of_ne other.1]

omit [DecidableEq SessionId] in
theorem replaceAll_spec {P : Nat × UdpResponseCommit SessionId → ClientAssociations SessionId → Prop}
    (distinct : (transitions.map Prod.fst).Nodup) (all : List.Forall₂ P transitions updated) :
    ∀ transition ∈ transitions, ∃ associations, P transition associations ∧
      clients.replaceAll transitions updated transition.1 = { clients transition.1 with associations } := by
  induction all generalizing clients with
  | nil => nofun
  | @cons transition associations rest more holds others ih =>
    obtain ⟨alone, distinct⟩ := nodup_cons.mp distinct
    refine forall_mem_cons.mpr ⟨⟨associations, holds, ?_⟩, fun other member => ?_⟩
    · refine (replaceAll_other alone).trans ?_
      rw [update_self]
    · obtain ⟨found, otherHolds, replaced⟩ :=
        @ih (update clients transition.1 { clients transition.1 with associations }) distinct other member
      refine ⟨found, otherHolds, replaced.trans ?_⟩
      have different : other.1 ≠ transition.1 := fun same => alone (same ▸ mem_map_of_mem member)
      rw [update_of_ne different]

theorem commitLocked_cases (sound : clients.Sound) (now : Nat) (distinct : (transitions.map Prod.fst).Nodup)
    (owners : ∀ transition ∈ transitions, transition.2.owner = (clients transition.1).owner) :
    (∃ error, clients.commitLocked transitions now = some (clients, .error error) ∧
      ∃ transition ∈ transitions, clients.Fails now transition) ∨
    ∃ after, clients.commitLocked transitions now = some (after, .ok ()) ∧
      (∀ transition ∈ transitions, clients.Commits now transition (after transition.1)) ∧
      ∀ address ∉ transitions.map Prod.fst, after address = clients address := by
  unfold commitLocked
  by_cases poisoned : (transitions.any fun transition => (clients transition.1).poisoned) = true
  · rw [if_pos poisoned]
    obtain ⟨transition, member, locked⟩ := any_eq_true.mp poisoned
    refine .inl ⟨_, rfl, transition, member, .stateUnavailable, ?_⟩
    unfold UdpClientSession.commitResponse
    rw [if_neg (not_not.mpr (owners transition member)), if_pos locked]
  · rw [if_neg poisoned]
    have free : ∀ transition ∈ transitions, (clients transition.1).poisoned = false := by
      intro transition member
      by_contra locked
      exact poisoned (any_eq_true.mpr ⟨transition, member, Bool.not_eq_false _ ▸ locked⟩)
    rcases commitCopies_cases sound now owners free with ⟨error, failed, transition, member, fails⟩ | ⟨updated, ran, all⟩
    · refine .inl ⟨error, ?_, transition, member, fails⟩
      simp only [failed, bind, Option.bind, pure]
    · refine .inr ⟨clients.replaceAll transitions updated, ?_, ?_, fun address other => replaceAll_other other⟩
      · simp only [ran, bind, Option.bind, pure]
      · intro transition member
        obtain ⟨associations, committed, replaced⟩ := replaceAll_spec distinct all transition member
        rw [replaced]
        exact committed

theorem commitResponses_cases (sound : clients.Sound) (sessions : List Nat) (commits : List (UdpResponseCommit SessionId))
    (now : Nat) :
    (∃ error, clients.commitResponses sessions commits now = some (clients, .error error) ∧
      (sessions = [] ∨ maxBatchResponses < sessions.length ∨ sessions.length ≠ commits.length ∨ ¬sessions.Nodup ∨
        ∃ transition ∈ sessions.zip commits, clients.Fails now transition)) ∨
    ∃ after, clients.commitResponses sessions commits now = some (after, .ok ()) ∧ sessions.length = commits.length ∧
      sessions.Nodup ∧ (∀ transition ∈ sessions.zip commits, clients.Commits now transition (after transition.1)) ∧
      ∀ address ∉ sessions, after address = clients address := by
  unfold commitResponses
  by_cases shape : sessions = [] ∨ maxBatchResponses < sessions.length ∨ sessions.length ≠ commits.length
  · rw [if_pos shape]
    refine .inl ⟨_, rfl, ?_⟩
    rcases shape with empty | long | different
    · exact .inl empty
    · exact .inr (.inl long)
    · exact .inr (.inr (.inl different))
  rw [if_neg shape]
  have lengths : sessions.length = commits.length := by
    by_contra different
    exact shape (.inr (.inr different))
  have named : (sessions.zip commits).map Prod.fst = sessions := map_fst_zip lengths.le
  by_cases refused : clients.bound [] (sessions.zip commits) = false
  · rw [if_pos refused]
    refine .inl ⟨_, rfl, ?_⟩
    by_cases nodup : sessions.Nodup
    · refine .inr (.inr (.inr (.inr ?_)))
      by_contra none
      have ok : clients.bound [] (sessions.zip commits) = true := by
        refine bound_iff.mpr ⟨fun transition member => ?_, named.symm ▸ nodup, by simp⟩
        by_contra foreign
        refine none ⟨transition, member, .binding, ?_⟩
        exact if_pos foreign
      rw [refused] at ok
      cases ok
    · exact .inr (.inr (.inr (.inl nodup)))
  rw [if_neg refused, Bool.not_eq_false] at *
  obtain ⟨owners, distinct, -⟩ := bound_iff.mp refused
  rw [named] at distinct
  have perm := mergeSort_perm (sessions.zip commits) fun first second => decide (first.1 ≤ second.1)
  have names := perm.map Prod.fst
  rw [named] at names
  have member_iff := fun transition => perm.mem_iff (a := transition)
  rcases commitLocked_cases sound now (names.nodup_iff.mpr distinct)
      (fun transition member => owners transition ((member_iff transition).mp member)) with
    ⟨error, failed, transition, member, fails⟩ | ⟨after, ran, committed, others⟩
  · exact .inl ⟨error, failed, .inr (.inr (.inr (.inr
      ⟨transition, (member_iff transition).mp member, fails⟩)))⟩
  · refine .inr ⟨after, ran, lengths, distinct, fun transition member =>
      committed transition ((member_iff transition).mpr member), fun address other => others address ?_⟩
    exact fun member => other (names.mem_iff.mp member)

/-- A call on the sessions of a process, or the panic of a user of one of their locks. -/
inductive Call (SessionId : Type)
  | single (address : Nat) (commit : UdpResponseCommit SessionId) (now : Nat)
  | batch (sessions : List Nat) (commits : List (UdpResponseCommit SessionId)) (now : Nat)
  | poison (address : Nat)

/-- The sessions after one call; `none` is a panic. -/
def perform (clients : UdpClients SessionId) : Call SessionId → Option (UdpClients SessionId)
  | .single address commit now => do
    let (session, _) ← (clients address).commitResponse commit now
    return update clients address session
  | .batch sessions commits now => do
    let (clients, _) ← clients.commitResponses sessions commits now
    return clients
  | .poison address => some (update clients address { clients address with poisoned := true })

def run (clients : UdpClients SessionId) : List (Call SessionId) → Option (UdpClients SessionId)
  | [] => some clients
  | call :: calls => do
    let clients ← clients.perform call
    clients.run calls

omit [DecidableEq SessionId] in
theorem Sound.update (sound : clients.Sound) {session : UdpClientSession SessionId}
    (replaced : session.associations.Sound) : Sound (update clients address session) := by
  intro other
  by_cases same : other = address
  · subst same
    rw [update_self]
    exact replaced
  · rw [update_of_ne same]
    exact sound other

theorem Sound.perform (sound : clients.Sound) (call : Call SessionId) :
    ∃ after, clients.perform call = some after ∧ after.Sound := by
  cases call with
  | single address commit now =>
    rcases UdpClientSession.commitResponse_cases (sound address) commit now with ⟨error, run⟩ | ⟨after, run, accepts⟩
    · refine ⟨Function.update clients address (clients address), ?_, sound.update (sound address)⟩
      simp only [UdpClients.perform, run, bind, Option.bind, pure]
    · have kept : ({ clients address with associations := after } : UdpClientSession SessionId).associations.Sound :=
        accepts.sound (sound address)
      refine ⟨Function.update clients address { clients address with associations := after }, ?_, sound.update kept⟩
      simp only [UdpClients.perform, run, bind, Option.bind, pure]
  | batch sessions commits now =>
    rcases commitResponses_cases sound sessions commits now with ⟨error, run, -⟩ | ⟨after, run, lengths, -, committed, others⟩
    · refine ⟨clients, ?_, sound⟩
      simp only [UdpClients.perform, run, bind, Option.bind, pure]
    · refine ⟨after, ?_, fun address => ?_⟩
      · simp only [UdpClients.perform, run, bind, Option.bind, pure]
      · by_cases named : address ∈ sessions
        · have names : (sessions.zip commits).map Prod.fst = sessions := map_fst_zip lengths.le
          rw [← names] at named
          obtain ⟨transition, member, rfl⟩ := mem_map.mp named
          have single := committed transition member
          rcases UdpClientSession.commitResponse_cases (sound transition.1) transition.2 now with
            ⟨error, refused⟩ | ⟨next, answered, accepts⟩
          · have impossible := congrArg Prod.snd (Option.some.inj (single.symm.trans refused))
            cases impossible
          · have same := congrArg Prod.fst (Option.some.inj (single.symm.trans answered))
            rw [show after transition.1 = _ from same]
            exact accepts.sound (sound transition.1)
        · rw [others address named]
          exact sound address
  | poison address => exact ⟨_, rfl, sound.update (sound address)⟩

theorem Sound.run (sound : clients.Sound) (calls : List (Call SessionId)) :
    ∃ after, clients.run calls = some after ∧ after.Sound := by
  induction calls generalizing clients with
  | nil => exact ⟨clients, rfl, sound⟩
  | cons call calls ih =>
    obtain ⟨next, performed, nextSound⟩ := sound.perform call
    obtain ⟨after, ran, afterSound⟩ := ih nextSound
    exact ⟨after, by simp only [UdpClients.run, performed, bind, Option.bind, ran], afterSound⟩

/-- In every state that calls lead to, and whatever addresses order the locks, a batch either commits
each of its transitions as by itself and touches no other session, or it fails and changes nothing. -/
theorem commitResponses_atomic (owners : Nat → Nat) (calls : List (Call SessionId)) :
    ∃ clients, UdpClients.run (fun address => .new (owners address)) calls = some clients ∧
      ∀ sessions commits now,
        (∃ error, clients.commitResponses sessions commits now = some (clients, .error error) ∧
          (sessions = [] ∨ maxBatchResponses < sessions.length ∨ sessions.length ≠ commits.length ∨ ¬sessions.Nodup ∨
            ∃ transition ∈ sessions.zip commits, clients.Fails now transition)) ∨
        ∃ after, clients.commitResponses sessions commits now = some (after, .ok ()) ∧ sessions.length = commits.length ∧
          sessions.Nodup ∧ (∀ transition ∈ sessions.zip commits, clients.Commits now transition (after transition.1)) ∧
          ∀ address ∉ sessions, after address = clients address := by
  let started : UdpClients SessionId := fun address => .new (owners address)
  have start : started.Sound := fun _ => ClientAssociations.new_sound
  obtain ⟨clients, ran, sound⟩ := start.run calls
  exact ⟨clients, ran, fun sessions commits now => commitResponses_cases sound sessions commits now⟩

end UdpClients

end Ferrum.Shadowsocks
