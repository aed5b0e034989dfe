import Ferrum.Tun.UdpTable

namespace Ferrum.Tun

open Option List

inductive UdpPeerReservationOutcome
  | reserved | alreadyAuthorized | notRequired | invalidPeer | limitReached | staleGeneration
  deriving DecidableEq, Repr

namespace PeerPolicy

/-- The answer of `reserve`. -/
def reserveOutcome (policy : PeerPolicy) (peer : IpAddr) : UdpPeerReservationOutcome :=
  if sameIpFamily policy.localIp peer = false ∨ peer.unicast = false then .invalidPeer
  else if policy.filtering = .endpointIndependent then .notRequired
  else if peer ∈ policy.authorized then .alreadyAuthorized
  else if (policy.reserved.lookup peer).isSome then .reserved
  else if policy.authorized.card + policy.reserved.len = udpAdfPeerCap then .limitReached
  else .reserved

/-- The answer of `finishReservation`. -/
def finishOutcome (policy : PeerPolicy) (peer : IpAddr) (authorize : Bool) : UdpPeerAuthorization :=
  if peer ∈ policy.authorized then .alreadyAuthorized
  else if (policy.reserved.lookup peer).isNone then .limitReached
  else if authorize then .authorized
  else .limitReached

end PeerPolicy

/-- A policy with its outstanding reservations, by their peers. No count saturates: a token clones the
lease, which cannot be cloned as often as a count can be raised. -/
structure PeerTokens where
  policy : PeerPolicy
  tokens : List IpAddr

/-- A call with what `is_stale` says at its start. Tokens of one peer are alike. -/
inductive PeerCall
  | authorize (stale : Bool) (peer : IpAddr)
  | reserve (stale : Bool) (peer : IpAddr)
  | commit (stale : Bool) (peer : IpAddr)
  | drop (peer : IpAddr)

inductive PeerAnswer
  | authorize (peer : IpAddr) (answer : UdpPeerAuthorization)
  | reserve (peer : IpAddr) (outcome : UdpPeerReservationOutcome)
  | commit (peer : IpAddr) (answer : UdpPeerAuthorization)
  | drop (peer : IpAddr)
  | noToken
  deriving DecidableEq

namespace PeerTokens

def new (filtering : UdpFiltering) (localIp : IpAddr) : PeerTokens := ⟨PeerPolicy.new filtering localIp, []⟩

/-- The end of one token. -/
def finish (state : PeerTokens) (peer : IpAddr) (authorize : Bool) : PeerTokens :=
  ⟨state.policy.finishReservation peer authorize, state.tokens.erase peer⟩

/-- One call; a stale commit ends in the drop of its token. -/
def perform (state : PeerTokens) : PeerCall → PeerTokens × PeerAnswer
  | .authorize stale peer =>
    if stale then (state, .authorize peer .staleGeneration)
    else
      let (policy, answer) := state.policy.authorize peer
      ({ state with policy }, .authorize peer answer)
  | .reserve stale peer =>
    if stale then (state, .reserve peer .staleGeneration)
    else
      let outcome := state.policy.reserveOutcome peer
      let tokens := if outcome = .reserved then peer :: state.tokens else state.tokens
      (⟨state.policy.reserve peer, tokens⟩, .reserve peer outcome)
  | .commit stale peer =>
    if peer ∉ state.tokens then (state, .noToken)
    else if stale then (state.finish peer false, .commit peer .staleGeneration)
    else (state.finish peer true, .commit peer (state.policy.finishOutcome peer true))
  | .drop peer => if peer ∉ state.tokens then (state, .noToken) else (state.finish peer false, .drop peer)

/-- The calls in the order in which they take the lock. -/
def run (state : PeerTokens) : List PeerCall → PeerTokens × List PeerAnswer
  | [] => (state, [])
  | call :: calls =>
    let (next, answer) := state.perform call
    let (last, answers) := next.run calls
    (last, answer :: answers)

/-- The policy agrees with the outstanding tokens. -/
structure Sound (state : PeerTokens) : Prop where
  counted : ∀ peer, state.policy.reserved.lookup peer =
    if peer ∈ state.policy.authorized ∨ peer ∉ state.tokens then none else some (state.tokens.count peer)
  capped : state.policy.authorized.card + state.policy.reserved.len ≤ udpAdfPeerCap
  filtered : state.tokens ≠ [] → state.policy.filtering = .addressDependent

namespace Sound

variable {state : PeerTokens}

theorem new (filtering : UdpFiltering) (localIp : IpAddr) : (PeerTokens.new filtering localIp).Sound where
  counted _ := by simp [PeerTokens.new, PeerPolicy.new]
  capped := by simp [PeerTokens.new, PeerPolicy.new]
  filtered empty := absurd rfl empty

section

variable (sound : state.Sound)
include sound

variable {peer : IpAddr}

theorem disjoint (authorized : peer ∈ state.policy.authorized) : peer ∉ state.policy.reserved := by
  rw [← AList.lookup_eq_none, sound.counted, if_pos (.inl authorized)]

theorem mem_reserved : peer ∈ state.policy.reserved ↔ peer ∈ state.tokens ∧ peer ∉ state.policy.authorized := by
  rw [← AList.lookup_isSome, sound.counted]
  by_cases free : peer ∈ state.policy.authorized ∨ peer ∉ state.tokens
  · rw [if_pos free]
    simp only [isSome_none, Bool.false_eq_true, false_iff]
    tauto
  · rw [if_neg free]
    simp only [isSome_some, true_iff]
    tauto

theorem capacity : state.policy.reserved.len = (state.tokens.toFinset \ state.policy.authorized).card := by
  rw [HashMap.len_eq_keys, ← toFinset_card_of_nodup state.policy.reserved.keys_nodup]
  congr 1
  refine Finset.ext fun peer => ?_
  rw [List.mem_toFinset, ← AList.mem_keys, sound.mem_reserved, Finset.mem_sdiff, List.mem_toFinset]

theorem authorize (peer : IpAddr) : (PeerTokens.mk (state.policy.authorize peer).1 state.tokens).Sound := by
  unfold PeerPolicy.authorize
  split_ifs with invalid independent known full
  · exact sound
  · exact sound
  · exact sound
  · exact sound
  · refine ⟨fun other => ?_, ?_, sound.filtered⟩
    · change (state.policy.reserved.erase peer).lookup other = _
      rw [HashMap.lookup_erase_eq, sound.counted]
      by_cases same : other = peer
      · subst same
        rw [if_pos rfl, if_pos (.inl (Finset.mem_insert_self _ _))]
      · rw [if_neg same]
        simp only [Finset.mem_insert, same, false_or]
    · have capped := sound.capped
      change (insert peer state.policy.authorized).card + HashMap.len (state.policy.reserved.erase peer) ≤ udpAdfPeerCap
      rw [Finset.card_insert_of_notMem known]
      by_cases member : peer ∈ state.policy.reserved
      · have positive := HashMap.len_pos member
        rw [HashMap.len_erase member]
        omega
      · have room : state.policy.authorized.card + state.policy.reserved.len ≠ udpAdfPeerCap :=
          fun reached => full ⟨reached, member⟩
        rw [HashMap.len_erase_absent member]
        omega

theorem reserve (peer : IpAddr) : (PeerTokens.mk (state.policy.reserve peer)
      (if state.policy.reserveOutcome peer = .reserved then peer :: state.tokens else state.tokens)).Sound := by
  have capped := sound.capped
  unfold PeerPolicy.reserve PeerPolicy.reserveOutcome
  by_cases invalid : sameIpFamily state.policy.localIp peer = false ∨ peer.unicast = false
  · rw [if_pos invalid, if_pos invalid]
    exact sound
  rw [if_neg invalid, if_neg invalid]
  by_cases independent : state.policy.filtering = .endpointIndependent
  · rw [if_pos independent, if_pos independent]
    exact sound
  rw [if_neg independent, if_neg independent]
  have dependent : state.policy.filtering = .addressDependent := by
    cases filtering : state.policy.filtering with
    | addressDependent => rfl
    | endpointIndependent => exact absurd filtering independent
  by_cases known : peer ∈ state.policy.authorized
  · rw [if_pos known, if_pos known]
    exact sound
  rw [if_neg known, if_neg known]
  have at_peer := sound.counted peer
  -- the lookup of another peer, and of this one after its count has been raised
  have raised : ∀ other, (if other = peer then some (state.tokens.count peer + 1) else state.policy.reserved.lookup other) =
      if other ∈ state.policy.authorized ∨ other ∉ peer :: state.tokens then none
      else some ((peer :: state.tokens).count other) := by
    intro other
    by_cases same : other = peer
    · subst same
      rw [if_pos rfl, if_neg (by simp [known]), count_cons_self]
    · rw [if_neg same, sound.counted, count_cons_of_ne (Ne.symm same)]
      simp only [mem_cons, same, false_or]
  cases found : state.policy.reserved.lookup peer with
  | some count =>
    simp only [isSome_some, if_true]
    rw [found] at at_peer
    split at at_peer
    · cases at_peer
    · cases at_peer
      refine ⟨fun other => ?_, ?_, fun _ => dependent⟩
      · rw [HashMap.lookup_insert_eq]
        exact raised other
      · change state.policy.authorized.card + HashMap.len (state.policy.reserved.insert peer (state.tokens.count peer + 1)) ≤ udpAdfPeerCap
        rw [HashMap.len_insert_mem _ (HashMap.mem_of_lookup found)]
        exact capped
  | none =>
    simp only [isSome_none, Bool.false_eq_true, if_false]
    have absent : peer ∉ state.tokens := by
      intro member
      rw [found, if_neg (by simp [known, member])] at at_peer
      cases at_peer
    by_cases full : state.policy.authorized.card + state.policy.reserved.len = udpAdfPeerCap
    · rw [if_pos full, if_pos full]
      exact sound
    · rw [if_neg full, if_neg full, if_pos rfl]
      rw [count_eq_zero.mpr absent] at raised
      refine ⟨fun other => ?_, ?_, fun _ => dependent⟩
      · change (state.policy.reserved.insert peer 1).lookup other = _
        rw [HashMap.lookup_insert_eq]
        exact raised other
      · change state.policy.authorized.card + HashMap.len (state.policy.reserved.insert peer 1) ≤ udpAdfPeerCap
        rw [HashMap.len_insert _ (AList.lookup_eq_none.mp found)]
        omega

theorem finish (held : peer ∈ state.tokens) (authorize : Bool) : (state.finish peer authorize).Sound := by
  have capped := sound.capped
  have dependent := sound.filtered (ne_nil_of_mem held)
  have others : ∀ other, other ≠ peer → state.policy.reserved.lookup other =
      if other ∈ state.policy.authorized ∨ other ∉ state.tokens.erase peer then none
      else some ((state.tokens.erase peer).count other) := by
    intro other different
    rw [sound.counted, count_erase_of_ne different]
    simp only [mem_erase_of_ne different]
  unfold PeerTokens.finish PeerPolicy.finishReservation
  by_cases known : peer ∈ state.policy.authorized
  · rw [if_pos known]
    refine ⟨fun other => ?_, capped, fun _ => dependent⟩
    by_cases same : other = peer
    · subst same
      rw [sound.counted, if_pos (.inl known), if_pos (.inl known)]
    · exact others other same
  rw [if_neg known]
  have found : state.policy.reserved.lookup peer = some (state.tokens.count peer) := by
    rw [sound.counted, if_neg (by simp [known, held])]
  have member := HashMap.mem_of_lookup found
  have positive := HashMap.len_pos member
  have least := count_pos_iff.mpr held
  have fewer : (state.tokens.erase peer).count peer = state.tokens.count peer - 1 := count_erase_self
  rw [found]
  cases authorize with
  | true =>
    simp only [if_true]
    refine ⟨fun other => ?_, ?_, fun _ => dependent⟩
    · change (state.policy.reserved.erase peer).lookup other = _
      rw [HashMap.lookup_erase_eq]
      by_cases same : other = peer
      · subst same
        rw [if_pos rfl, if_pos (.inl (Finset.mem_insert_self _ _))]
      · rw [if_neg same, others other same]
        simp only [Finset.mem_insert, same, false_or]
    · change (insert peer state.policy.authorized).card + HashMap.len (state.policy.reserved.erase peer) ≤ udpAdfPeerCap
      rw [Finset.card_insert_of_notMem known, HashMap.len_erase member]
      omega
  | false =>
    by_cases last : state.tokens.count peer - 1 = 0
    · simp only [Bool.false_eq_true, if_false, if_pos last]
      refine ⟨fun other => ?_, ?_, fun _ => dependent⟩
      · change (state.policy.reserved.erase peer).lookup other = _
        rw [HashMap.lookup_erase_eq]
        by_cases same : other = peer
        · subst same
          rw [if_pos rfl, if_pos (.inr (count_eq_zero.mp (fewer.trans last)))]
        · rw [if_neg same, others other same]
      · change state.policy.authorized.card + HashMap.len (state.policy.reserved.erase peer) ≤ udpAdfPeerCap
        rw [HashMap.len_erase member]
        omega
    · simp only [Bool.false_eq_true, if_false, if_neg last]
      refine ⟨fun other => ?_, ?_, fun _ => dependent⟩
      · change (state.policy.reserved.insert peer (state.tokens.count peer - 1)).lookup other = _
        rw [HashMap.lookup_insert_eq]
        by_cases same : other = peer
        · subst same
          have remains : other ∈ state.tokens.erase other := count_pos_iff.mp (by omega)
          rw [if_pos rfl, if_neg (by simp [known, remains]), fewer]
        · rw [if_neg same, others other same]
      · change state.policy.authorized.card + HashMap.len (state.policy.reserved.insert peer (state.tokens.count peer - 1)) ≤ udpAdfPeerCap
        rw [HashMap.len_insert_mem _ member]
        exact capped

theorem perform (call : PeerCall) : (state.perform call).1.Sound := by
  cases call with
  | authorize stale peer =>
    cases stale with
    | true => exact sound
    | false => exact sound.authorize peer
  | reserve stale peer =>
    cases stale with
    | true => exact sound
    | false => exact sound.reserve peer
  | commit stale peer =>
    dsimp only [PeerTokens.perform]
    by_cases held : peer ∈ state.tokens
    · rw [if_neg (not_not.mpr held)]
      cases stale with
      | true => exact sound.finish held false
      | false => exact sound.finish held true
    · rw [if_pos held]
      exact sound
  | drop peer =>
    dsimp only [PeerTokens.perform]
    by_cases held : peer ∈ state.tokens
    · rw [if_neg (not_not.mpr held)]
      exact sound.finish held false
    · rw [if_pos held]
      exact sound

theorem run (calls : List PeerCall) : (state.run calls).1.Sound := by
  induction calls generalizing state with
  | nil => exact sound
  | cons call calls ih => exact ih (sound.perform call)

end

end Sound

def Grants (answer : PeerAnswer) (peer : IpAddr) : Prop :=
  answer = .authorize peer .authorized ∨ answer = .commit peer .authorized

variable {state : PeerTokens}

variable {peer : IpAddr}

theorem authorized_authorize {policy : PeerPolicy} {other : IpAddr} (member : other ∈ (policy.authorize peer).1.authorized) :
    other ∈ policy.authorized ∨ other = peer ∧ (policy.authorize peer).2 = .authorized := by
  unfold PeerPolicy.authorize at member ⊢
  split_ifs at member ⊢ with invalid independent known full
  · exact .inl member
  · exact .inl member
  · exact .inl member
  · exact .inl member
  · rcases Finset.mem_insert.mp member with same | old
    · exact .inr ⟨same, rfl⟩
    · exact .inl old

theorem reserve_keeps (policy : PeerPolicy) (peer : IpAddr) : (policy.reserve peer).authorized = policy.authorized ∧
    (policy.reserve peer).filtering = policy.filtering := by
  unfold PeerPolicy.reserve
  cases policy.reserved.lookup peer with
  | some count => split_ifs <;> exact ⟨rfl, rfl⟩
  | none => split_ifs <;> exact ⟨rfl, rfl⟩

theorem authorized_finish {policy : PeerPolicy} {other : IpAddr} {authorize : Bool}
    (member : other ∈ (policy.finishReservation peer authorize).authorized) :
    other ∈ policy.authorized ∨ other = peer ∧ authorize = true ∧ policy.finishOutcome peer true = .authorized := by
  unfold PeerPolicy.finishReservation at member
  by_cases known : peer ∈ policy.authorized
  · rw [if_pos known] at member
    exact .inl member
  rw [if_neg known] at member
  cases found : policy.reserved.lookup peer with
  | none =>
    rw [found] at member
    exact .inl member
  | some count =>
    rw [found] at member
    cases authorize with
    | true =>
      rcases Finset.mem_insert.mp member with same | old
      · refine .inr ⟨same, rfl, ?_⟩
        unfold PeerPolicy.finishOutcome
        rw [if_neg known, found]
        rfl
      · exact .inl old
    | false =>
      simp only [Bool.false_eq_true, if_false] at member
      split_ifs at member <;> exact .inl member

theorem authorized_perform {call : PeerCall} (member : peer ∈ (state.perform call).1.policy.authorized) :
    peer ∈ state.policy.authorized ∨ Grants (state.perform call).2 peer := by
  cases call with
  | authorize stale asked =>
    cases stale with
    | true => exact .inl member
    | false =>
      rcases authorized_authorize member with old | ⟨rfl, answer⟩
      · exact .inl old
      · exact .inr (.inl (congrArg (PeerAnswer.authorize peer) answer))
  | reserve stale asked =>
    cases stale with
    | true => exact .inl member
    | false =>
      change peer ∈ (state.policy.reserve asked).authorized at member
      rw [(reserve_keeps _ _).1] at member
      exact .inl member
  | commit stale asked =>
    dsimp only [perform] at member ⊢
    by_cases held : asked ∈ state.tokens
    · rw [if_neg (not_not.mpr held)] at member ⊢
      cases stale with
      | true =>
        rcases authorized_finish member with old | ⟨-, impossible, -⟩
        · exact .inl old
        · cases impossible
      | false =>
        rcases authorized_finish member with old | ⟨rfl, -, answer⟩
        · exact .inl old
        · exact .inr (.inr (congrArg (PeerAnswer.commit peer) answer))
    · rw [if_pos held] at member
      exact .inl member
  | drop asked =>
    dsimp only [perform] at member
    by_cases held : asked ∈ state.tokens
    · rw [if_neg (not_not.mpr held)] at member
      rcases authorized_finish member with old | ⟨-, impossible, -⟩
      · exact .inl old
      · cases impossible
    · rw [if_pos held] at member
      exact .inl member

theorem authorized_run {calls : List PeerCall} (member : peer ∈ (state.run calls).1.policy.authorized) :
    peer ∈ state.policy.authorized ∨ ∃ answer ∈ (state.run calls).2, Grants answer peer := by
  induction calls generalizing state with
  | nil => exact .inl member
  | cons call calls ih =>
    rcases ih member with before | ⟨answer, listed, grants⟩
    · rcases authorized_perform before with old | grants
      · exact .inl old
      · exact .inr ⟨_, mem_cons_self, grants⟩
    · exact .inr ⟨answer, mem_cons_of_mem _ listed, grants⟩

theorem drop_exact (sound : state.Sound) (held : peer ∈ state.tokens) :
    (state.finish peer false).policy.authorized = state.policy.authorized ∧
      (state.finish peer false).policy.reserved.len +
        (if peer ∉ state.policy.authorized ∧ state.tokens.count peer = 1 then 1 else 0) = state.policy.reserved.len := by
  dsimp only [finish]
  unfold PeerPolicy.finishReservation
  by_cases known : peer ∈ state.policy.authorized
  · rw [if_pos known, if_neg fun both => both.1 known]
    exact ⟨rfl, rfl⟩
  have found : state.policy.reserved.lookup peer = some (state.tokens.count peer) := by
    rw [sound.counted, if_neg (by simp [known, held])]
  have member := HashMap.mem_of_lookup found
  have positive := HashMap.len_pos member
  have least := count_pos_iff.mpr held
  rw [if_neg known, found]
  simp only [Bool.false_eq_true, if_false]
  by_cases last : state.tokens.count peer - 1 = 0
  · rw [if_pos last, if_pos ⟨known, by omega⟩]
    refine ⟨rfl, ?_⟩
    change HashMap.len (state.policy.reserved.erase peer) + 1 = _
    rw [HashMap.len_erase member]
    omega
  · rw [if_neg last, if_neg (by omega)]
    refine ⟨rfl, ?_⟩
    change HashMap.len (state.policy.reserved.insert peer (state.tokens.count peer - 1)) + 0 = _
    rw [HashMap.len_insert_mem _ member]
    rfl

theorem finishOutcome_held (sound : state.Sound) (held : peer ∈ state.tokens) :
    state.policy.finishOutcome peer true = .authorized ∨ state.policy.finishOutcome peer true = .alreadyAuthorized := by
  unfold PeerPolicy.finishOutcome
  by_cases known : peer ∈ state.policy.authorized
  · exact .inr (if_pos known)
  · have found : state.policy.reserved.lookup peer = some (state.tokens.count peer) := by
      rw [sound.counted, if_neg (by simp [known, held])]
    rw [if_neg known, found]
    exact .inl rfl

theorem filtering_authorize (policy : PeerPolicy) (peer : IpAddr) : (policy.authorize peer).1.filtering = policy.filtering := by
  unfold PeerPolicy.authorize
  split_ifs <;> rfl

theorem filtering_finish (policy : PeerPolicy) (peer : IpAddr) (authorize : Bool) :
    (policy.finishReservation peer authorize).filtering = policy.filtering := by
  unfold PeerPolicy.finishReservation
  cases policy.reserved.lookup peer with
  | some count =>
    simp only
    split_ifs <;> rfl
  | none => split_ifs <;> rfl

theorem filtering_perform (state : PeerTokens) (call : PeerCall) :
    (state.perform call).1.policy.filtering = state.policy.filtering := by
  cases call with
  | authorize stale peer =>
    cases stale with
    | true => rfl
    | false => exact filtering_authorize state.policy peer
  | reserve stale peer =>
    cases stale with
    | true => rfl
    | false => exact (reserve_keeps state.policy peer).2
  | commit stale peer =>
    dsimp only [perform]
    split_ifs
    · exact filtering_finish _ _ _
    · exact filtering_finish _ _ _
    · rfl
  | drop peer =>
    dsimp only [perform]
    split_ifs
    · exact filtering_finish _ _ _
    · rfl

theorem filtering_run (state : PeerTokens) (calls : List PeerCall) :
    (state.run calls).1.policy.filtering = state.policy.filtering := by
  induction calls generalizing state with
  | nil => rfl
  | cons call calls ih => exact (ih _).trans (filtering_perform state call)

/-- After any calls, the policy counts exactly the outstanding tokens, within its cap, no token that is
still valid is refused, and only the answers of the calls let a peer answer. -/
theorem peerReservations_exact (filtering : UdpFiltering) (localIp : IpAddr) (calls : List PeerCall) :
    let state := ((PeerTokens.new filtering localIp).run calls).1
    let answers := ((PeerTokens.new filtering localIp).run calls).2
    (∀ peer ∈ state.policy.authorized, peer ∉ state.policy.reserved) ∧
    state.policy.authorized.card + state.policy.reserved.len ≤ udpAdfPeerCap ∧
    (∀ peer ∉ state.policy.authorized, state.policy.reserved.lookup peer =
      if peer ∈ state.tokens then some (state.tokens.count peer) else none) ∧
    (∀ peer ∈ state.tokens, (state.perform (.commit false peer)).2 = .commit peer .authorized ∨
      (state.perform (.commit false peer)).2 = .commit peer .alreadyAuthorized) ∧
    (∀ peer ∈ state.tokens, ∀ call, (call = .drop peer ∨ call = .commit true peer) →
      (state.perform call).1.policy.authorized = state.policy.authorized ∧
      (state.perform call).1.policy.reserved.len +
        (if peer ∉ state.policy.authorized ∧ state.tokens.count peer = 1 then 1 else 0) = state.policy.reserved.len) ∧
    state.policy.reserved.len = (state.tokens.toFinset \ state.policy.authorized).card ∧
    ∀ source, state.policy.allows source = some true →
      filtering = .endpointIndependent ∨ ∃ answer ∈ answers, Grants answer source.ip := by
  intro state answers
  have sound : state.Sound := (Sound.new filtering localIp).run calls
  have same : state.policy.filtering = filtering := filtering_run _ calls
  refine ⟨fun peer => sound.disjoint, sound.capped, ?_, ?_, ?_, sound.capacity, ?_⟩
  · intro peer unknown
    rw [sound.counted]
    by_cases held : peer ∈ state.tokens
    · rw [if_neg (by simp [unknown, held]), if_pos held]
    · rw [if_pos (.inr held), if_neg held]
  · intro peer held
    have answer : (state.perform (.commit false peer)).2 = .commit peer (state.policy.finishOutcome peer true) := by
      dsimp only [perform]
      rw [if_neg (not_not.mpr held)]
      rfl
    rw [answer]
    rcases finishOutcome_held sound held with granted | known
    · exact .inl (congrArg _ granted)
    · exact .inr (congrArg _ known)
  · rintro peer held call (rfl | rfl)
    · dsimp only [perform]
      rw [if_neg (not_not.mpr held)]
      exact drop_exact sound held
    · dsimp only [perform]
      rw [if_neg (not_not.mpr held)]
      exact drop_exact sound held
  · intro source allowed
    unfold PeerPolicy.allows at allowed
    split at allowed
    · cases allowed
    · have passes := of_decide_eq_true (some.inj allowed)
      rw [same] at passes
      rcases passes with independent | member
      · exact .inl independent
      · rcases authorized_run member with impossible | granted
        · cases impossible
        · exact .inr granted

/-- Where filtering is by endpoint, nothing has to be committed. -/
theorem endpointIndependent_allows :
    let state := ((PeerTokens.new .endpointIndependent (.v4 #v[10, 0, 0, 1])).run []).1
    state.policy.allows ⟨.v4 #v[192, 0, 2, 1], 53⟩ = some true ∧
      ¬∃ answer ∈ ((PeerTokens.new .endpointIndependent (.v4 #v[10, 0, 0, 1])).run []).2,
        Grants answer (.v4 #v[192, 0, 2, 1]) := by
  refine ⟨by decide, ?_⟩
  rintro ⟨answer, listed, -⟩
  cases listed

end PeerTokens

end Ferrum.Tun
