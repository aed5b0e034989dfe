import Ferrum.Dns.EndpointPlan

namespace Ferrum.Dns

open Ferrum.Core (CanonicalDomain)
open Ferrum.Tun (IpAddr Ipv4Addr Ipv6Addr SocketAddr)

def BackendCall.failed : BackendCall → Option DnsError
  | system _ (.error error) => some error
  | dnsServer _ _ _ (.error error) => some error
  | _ => none

/-- Some candidates, at most 16 and none twice, in the order and of the families of the strategy. -/
def Candidates (spec : FixedEndpointSpec) (candidates : List SocketAddr) : Prop :=
  candidates ≠ [] ∧ candidates.Nodup ∧ candidates.length ≤ 16 ∧
    match spec.target with
    | .ip address => candidates = [address]
    | .domain _ _ strategy => ∃ ipv4 ipv6, candidates = strategy.socketCandidates spec.port ipv4 ipv6

/-- The calls that a plan permits: a lookup goes to its entry's resolver, at a server with the endpoint materialized for it
before, and an endpoint is that of its entry. -/
inductive Permitted (plan : List FixedEndpointPlanEntry) : List (Nat × BackendCall) → Prop
  | none : Permitted plan []
  | system {calls : List (Nat × BackendCall)} {position : Nat} {entry : FixedEndpointPlanEntry}
      {request : FixedEndpointResolveRequest} {reply : Except DnsError FixedEndpointLookup} (before : Permitted plan calls)
      (here : plan[position]? = some entry) (resolver : entry.spec.resolver = some .system)
      (domain : entry.spec.domainName = some request.domain) : Permitted plan (calls ++ [(position, .system request reply)])
  | dnsServer {calls : List (Nat × BackendCall)} {position earlier : Nat} {entry : FixedEndpointPlanEntry} {server : U32}
      {endpoint : MaterializedFixedEndpoint} {request : FixedEndpointResolveRequest}
      {reply : Except DnsError FixedEndpointLookup} (before : Permitted plan calls) (here : plan[position]? = some entry)
      (resolver : entry.spec.resolver = some (.dnsServer server)) (domain : entry.spec.domainName = some request.domain)
      (order : earlier < position) (provides : Provides plan earlier server)
      (made : (earlier, .materialized endpoint) ∈ calls) :
      Permitted plan (calls ++ [(position, .dnsServer server endpoint request reply)])
  | materialized {calls : List (Nat × BackendCall)} {position : Nat} {entry : FixedEndpointPlanEntry}
      {endpoint : MaterializedFixedEndpoint} (before : Permitted plan calls) (here : plan[position]? = some entry)
      (kind : endpoint.kind = entry.kind) (spec : endpoint.spec = entry.spec)
      (candidates : Candidates entry.spec endpoint.candidates) :
      Permitted plan (calls ++ [(position, .materialized endpoint)])

section Invariant

variable {B : Type} {plan : List FixedEndpointPlanEntry} {known : List (Nat × BackendCall)}

/-- The calls so far are permitted, none has failed, and none is forgotten. -/
structure Kept (plan : List FixedEndpointPlanEntry) (known : List (Nat × BackendCall)) (state : Materializing B) : Prop where
  permitted : Permitted plan state.calls
  clean : ∀ call ∈ state.calls, call.2.failed = none
  known : ∀ call ∈ known, call ∈ state.calls

/-- The calls of a run that stopped are permitted, and it returns the error of the lookup that failed. -/
def Stopped (plan : List FixedEndpointPlanEntry) (halt : Halt FixedEndpointMaterializeError) (state : Materializing B) : Prop :=
  Permitted plan state.calls ∧ ∀ call ∈ state.calls, ∀ error, call.2.failed = some error → halt = .error (.resolve error)

variable {state : Materializing B}

section

variable (kept : Kept plan known state)
include kept

theorem Kept.stopped (halt : Halt FixedEndpointMaterializeError) : Stopped plan halt state := by
  refine ⟨kept.permitted, fun call member error failed => ?_⟩
  rw [kept.clean call member] at failed
  cases failed

theorem Kept.world (world : World B) :
    Kept plan known { state with world } := ⟨kept.permitted, kept.clean, kept.known⟩

theorem Kept.call {call : Nat × BackendCall} (world : World B)
    (permitted : Permitted plan (state.calls ++ [call])) (fine : call.2.failed = none) :
    Kept plan known { world, calls := state.calls ++ [call] } := by
  refine ⟨permitted, fun other member => ?_, fun other member => List.mem_append_left _ (kept.known other member)⟩
  rcases List.mem_append.mp member with old | new
  · exact kept.clean other old
  · rw [List.mem_singleton.mp new]
    exact fine

theorem ask_keeps {position : Nat} {call : Except DnsError FixedEndpointLookup → BackendCall}
    {effect : World B → Except DnsError FixedEndpointLookup × World B}
    (permitted : ∀ reply, Permitted plan (state.calls ++ [(position, call reply)]))
    (failed : ∀ reply, (call reply).failed = match reply with | .error error => some error | .ok _ => none) :
    (ask position call effect).Ensures state (fun _ => Kept plan known) (Stopped plan) := by
  unfold Stateful.Ensures ask
  cases effect state.world with
  | mk reply world =>
    cases reply with
    | ok lookup => exact kept.call world (permitted _) (failed _)
    | error error =>
      refine ⟨permitted _, fun other member reason here => ?_⟩
      rcases List.mem_append.mp member with old | new
      · rw [kept.clean other old] at here
        cases here
      · rw [List.mem_singleton.mp new] at here
        cases (failed _).symm.trans here
        rfl

end

variable (context : MaterializeContext B)

section

variable (kept : Kept plan known state)
include kept

theorem cacheGet_keeps (key : DnsCacheKey) :
    (cacheGet context key).Ensures state (fun _ => Kept plan known) (Stopped plan) := by
  unfold Stateful.Ensures cacheGet
  cases context.backend.now state.world with
  | mk now world =>
    dsimp only
    cases world.cache.get key now with
    | none => exact (kept.world world).stopped _
    | some found => exact kept.world _

theorem cacheInsert_keeps (key : DnsCacheKey) (answer : DnsCacheAnswer) (ttl : Nat) :
    (cacheInsert context key answer ttl).Ensures state (fun _ => Kept plan known) (Stopped plan) := by
  unfold Stateful.Ensures cacheInsert
  cases context.backend.now state.world with
  | mk now world =>
    dsimp only
    cases checkInsert context.horizon key answer ttl now with
    | error error => exact (kept.world world).stopped _
    | ok expiresAt =>
      dsimp only
      cases world.cache.insert key answer expiresAt now with
      | none => exact (kept.world world).stopped _
      | some cache => exact kept.world _

theorem cachedAnswer_keeps (key : Option DnsCacheKey) :
    (cachedAnswer context key).Ensures state (fun _ => Kept plan known) (Stopped plan) := by
  unfold cachedAnswer
  cases key with
  | none => exact kept
  | some key =>
    dsimp only
    split
    · exact cacheGet_keeps context kept key
    · exact kept

theorem storeAnswer_keeps (key : Option DnsCacheKey) (answer : DnsCacheAnswer) (ttl : Nat) :
    (storeAnswer context key answer ttl).Ensures state (fun _ => Kept plan known) (Stopped plan) := by
  unfold storeAnswer
  cases key with
  | none => exact kept
  | some key =>
    dsimp only
    split
    · exact cacheInsert_keeps context kept key answer ttl
    · exact kept

end

/-- What the lookups of one entry may rely on: its resolver, and for a server the endpoint made for it before. -/
structure Resolvable (plan : List FixedEndpointPlanEntry) (known : List (Nat × BackendCall)) (position : Nat)
    (domain : CanonicalDomain) (resolver : ResolverRef) (endpoint : Option MaterializedFixedEndpoint) : Prop where
  entry : ∃ entry, plan[position]? = some entry ∧ entry.spec.resolver = some resolver ∧ entry.spec.domainName = some domain
  made : ∀ server, resolver = .dnsServer server → ∃ earlier made, endpoint = some made ∧ earlier < position ∧
    Provides plan earlier server ∧ (earlier, .materialized made) ∈ known

variable {position : Nat} {domain : CanonicalDomain} {resolver : ResolverRef} {endpoint : Option MaterializedFixedEndpoint}

theorem lookupWith_keeps (kept : Kept plan known state)
    (resolvable : Resolvable plan known position domain resolver endpoint) (qtype : DnsCacheQtype) :
    (lookupWith context position resolver endpoint { domain, qtype }).Ensures state (fun _ => Kept plan known)
      (Stopped plan) := by
  obtain ⟨entry, here, named, owns⟩ := resolvable.entry
  cases resolver with
  | system =>
    refine ask_keeps kept (fun reply => .system kept.permitted here named owns) fun reply => ?_
    cases reply <;> rfl
  | dnsServer server =>
    obtain ⟨earlier, made, rfl, order, provides, member⟩ := resolvable.made server rfl
    refine ask_keeps kept (fun reply => ?_) fun reply => ?_
    · exact .dnsServer kept.permitted here named owns order provides (kept.known _ member)
    · cases reply <;> rfl

theorem resolveFamily_keeps (kept : Kept plan known state)
    (resolvable : Resolvable plan known position domain resolver endpoint) (qtype : DnsCacheQtype) :
    (resolveFamily context position resolver endpoint domain qtype).Ensures state (fun _ => Kept plan known)
      (Stopped plan) := by
  unfold resolveFamily
  refine .bind ((cachedAnswer_keeps context kept _).mono (fun answer state kept => ?_) fun _ _ => id)
  split
  · exact kept
  · exact kept
  · refine .bind ((lookupWith_keeps context kept resolvable qtype).mono (fun lookup state kept => ?_)
      fun _ _ => id)
    split
    · refine .bind (Stateful.Ensures.failIf (fun _ => ?_) fun _ => kept.stopped _)
      exact .bind ((storeAnswer_keeps context kept _ _ _).mono (fun _ _ => id) fun _ _ => id)
    · exact .bind ((storeAnswer_keeps context kept _ _ _).mono (fun _ _ => id) fun _ _ => id)

theorem appendDistinct_nodup {α : Type} [DecidableEq α] {output : List α} (records : List α) (distinct : output.Nodup) :
    (appendDistinct output records).Nodup := by
  induction records generalizing output with
  | nil => exact distinct
  | cons address rest ih =>
    unfold appendDistinct
    split
    · exact distinct
    · split
      · exact ih distinct
      · rename_i fresh
        exact ih (List.nodup_append_comm.mpr (List.nodup_cons.mpr ⟨fresh, distinct⟩))

variable {ipv4 : List Ipv4Addr} {ipv6 : List Ipv6Addr}

theorem resolveFamilies_keeps (kept : Kept plan known state)
    (resolvable : Resolvable plan known position domain resolver endpoint) (qtypes : List DnsCacheQtype)
    (distinct4 : ipv4.Nodup) (distinct6 : ipv6.Nodup) :
    (resolveFamilies context position resolver endpoint domain qtypes ipv4 ipv6).Ensures state
      (fun found after => Kept plan known after ∧ found.1.Nodup ∧ found.2.Nodup) (Stopped plan) := by
  induction qtypes generalizing state ipv4 ipv6 with
  | nil => exact ⟨kept, distinct4, distinct6⟩
  | cons qtype rest ih =>
    refine .bind ((resolveFamily_keeps context kept resolvable qtype).mono (fun records state kept => ?_)
      fun _ _ => id)
    split
    · exact ih kept (appendDistinct_nodup _ distinct4) distinct6
    · exact ih kept distinct4 (appendDistinct_nodup _ distinct6)
    · exact ih kept distinct4 distinct6

theorem socketCandidates_nodup (strategy : DnsStrategy) (port : U16)
    (distinct4 : ipv4.Nodup) (distinct6 : ipv6.Nodup) : (strategy.socketCandidates port ipv4 ipv6).Nodup := by
  have first : (ipv4.map fun address => (⟨.v4 address, port⟩ : SocketAddr)).Nodup :=
    distinct4.map fun a b same => by simpa using same
  have second : (ipv6.map fun address => (⟨.v6 address, port⟩ : SocketAddr)).Nodup :=
    distinct6.map fun a b same => by simpa using same
  have apart : ∀ a ∈ ipv4.map fun address => (⟨.v4 address, port⟩ : SocketAddr),
      ∀ b ∈ ipv6.map fun address => (⟨.v6 address, port⟩ : SocketAddr), a ≠ b := by
    simp
  cases strategy with
  | preferIpv4 => exact List.nodup_append.mpr ⟨first, second, apart⟩
  | preferIpv6 => exact List.nodup_append.mpr ⟨second, first, fun a inA b inB => (apart b inB a inA).symm⟩
  | ipv4Only => exact first
  | ipv6Only => exact second

theorem take_socketCandidates (strategy : DnsStrategy) (port : U16) (ipv4 : List Ipv4Addr) (ipv6 : List Ipv6Addr)
    (count : Nat) : ∃ fewer4 fewer6,
    (strategy.socketCandidates port ipv4 ipv6).take count = strategy.socketCandidates port fewer4 fewer6 := by
  cases strategy with
  | preferIpv4 =>
    refine ⟨ipv4.take count, ipv6.take (count - ipv4.length), ?_⟩
    simp [DnsStrategy.socketCandidates, List.take_append, List.map_take]
  | preferIpv6 =>
    refine ⟨ipv4.take (count - ipv6.length), ipv6.take count, ?_⟩
    simp [DnsStrategy.socketCandidates, List.take_append, List.map_take]
  | ipv4Only => exact ⟨ipv4.take count, [], by simp [DnsStrategy.socketCandidates, List.map_take]⟩
  | ipv6Only => exact ⟨[], ipv6.take count, by simp [DnsStrategy.socketCandidates, List.map_take]⟩

/-- The endpoints so far are those of the entries before the position. -/
structure Finished (plan : List FixedEndpointPlanEntry) (calls : List (Nat × BackendCall))
    (materialized : List MaterializedFixedEndpoint) : Prop where
  each : ∀ p endpoint, materialized[p]? = some endpoint → (p, .materialized endpoint) ∈ calls ∧
    ∃ entry, plan[p]? = some entry ∧ endpoint.kind = entry.kind ∧ endpoint.spec = entry.spec ∧
      Candidates entry.spec endpoint.candidates

variable {positions : HashMap U32 Nat} {materialized : List MaterializedFixedEndpoint} {entry : FixedEndpointPlanEntry}

theorem resolverEndpoint_ok (found : ∀ server position, positions.lookup server = some position ↔ Provides plan position server)
    (ordered : Ordered plan) (finished : Finished plan known materialized)
    (here : plan[materialized.length]? = some entry) (named : entry.spec.resolver = some resolver)
    (owns : entry.spec.domainName = some domain) : ∃ endpoint,
    resolverEndpoint positions materialized resolver = .ok endpoint ∧
      Resolvable plan known materialized.length domain resolver endpoint := by
  cases resolver with
  | system => exact ⟨none, rfl, ⟨entry, here, named, owns⟩, nofun⟩
  | dnsServer server =>
    obtain ⟨earlier, before, provides⟩ := ordered _ server ⟨entry, here, named⟩
    have position := (found server earlier).mpr provides
    have made := List.getElem?_eq_getElem before
    refine ⟨some materialized[earlier], ?_, ⟨entry, here, named, owns⟩, fun other same => ?_⟩
    · rw [resolverEndpoint, position]
      change (Checked.okOr materialized[earlier]? _ >>= _) = _
      rw [made]
      rfl
    · cases same
      exact ⟨earlier, _, rfl, before, provides, (finished.each _ _ made).1⟩

theorem entryCandidates_keeps
    (found : ∀ server position, positions.lookup server = some position ↔ Provides plan position server)
    (ordered : Ordered plan) (kept : Kept plan known state) (finished : Finished plan known materialized)
    (here : plan[materialized.length]? = some entry) :
    (entryCandidates context positions materialized materialized.length entry).Ensures state
      (fun candidates after => Kept plan known after ∧ Candidates entry.spec candidates) (Stopped plan) := by
  unfold entryCandidates Candidates
  cases target : entry.spec.target with
  | ip address => exact ⟨kept, by simp, by simp, by simp, rfl⟩
  | domain domain resolver strategy =>
    have named : entry.spec.resolver = some resolver := by rw [FixedEndpointSpec.resolver, target]
    have owns : entry.spec.domainName = some domain := by rw [FixedEndpointSpec.domainName, target]
    obtain ⟨endpoint, run, resolvable⟩ := resolverEndpoint_ok found ordered finished here named owns
    dsimp only
    rw [run, Stateful.lift_ok, Stateful.pure_bind]
    refine .bind ((resolveFamilies_keeps context kept resolvable (strategyQtypes strategy) .nil .nil).mono
      (fun found after outcome => ?_) fun _ _ => id)
    obtain ⟨kept, distinct4, distinct6⟩ := outcome
    refine .bind (Stateful.Ensures.failIf (fun some => ?_) fun _ => kept.stopped _)
    refine ⟨kept, some, ?_, List.length_take_le _ _, take_socketCandidates _ _ _ _ _⟩
    exact (socketCandidates_nodup strategy entry.spec.port distinct4 distinct6).sublist (List.take_sublist _ _)

theorem announce_keeps (kept : Kept plan known state) {position : Nat} {endpoint : MaterializedFixedEndpoint}
    (permitted : Permitted plan (state.calls ++ [(position, .materialized endpoint)])) :
    (announce context position endpoint).Ensures state
      (fun _ after => Kept plan (known ++ [(position, .materialized endpoint)]) after) (Stopped plan) := by
  unfold Stateful.Ensures announce
  cases context.backend.endpointMaterialized endpoint state.world with
  | mk reply world =>
    have next := kept.call world permitted rfl
    cases reply with
    | ok done =>
      refine ⟨next.permitted, next.clean, fun call member => ?_⟩
      rcases List.mem_append.mp member with old | new
      · exact next.known call old
      · exact List.mem_append_right _ new
    | error error => exact next.stopped _

theorem materializeEntries_keeps
    (found : ∀ server position, positions.lookup server = some position ↔ Provides plan position server)
    (ordered : Ordered plan) {rest : List FixedEndpointPlanEntry} (kept : Kept plan known state)
    (finished : Finished plan known materialized) (shape : plan.drop materialized.length = rest)
    (bounded : materialized.length ≤ plan.length) :
    (materializeEntries context positions materialized.length rest materialized).Ensures state
      (fun endpoints after => Permitted plan after.calls ∧ (∀ call ∈ after.calls, call.2.failed = none) ∧
        endpoints.length = plan.length ∧ Finished plan after.calls endpoints) (Stopped plan) := by
  induction rest generalizing state known materialized with
  | nil =>
    have all := List.drop_eq_nil_iff.mp shape
    refine ⟨kept.permitted, kept.clean, by omega, ⟨fun p endpoint made => ?_⟩⟩
    obtain ⟨member, entry⟩ := finished.each p endpoint made
    exact ⟨kept.known _ member, entry⟩
  | cons entry rest ih =>
    have here : plan[materialized.length]? = some entry := by
      rw [← List.head?_drop, shape]
      rfl
    have inside : materialized.length < plan.length := by
      obtain ⟨inside, -⟩ := List.getElem?_eq_some_iff.mp here
      exact inside
    refine .bind ((entryCandidates_keeps context found ordered kept finished here).mono
      (fun candidates state outcome => ?_) fun _ _ => id)
    obtain ⟨kept, good⟩ := outcome
    refine .bind ((announce_keeps context kept (.materialized kept.permitted here rfl rfl good)).mono
      (fun _ state kept => ?_) fun _ _ => id)
    have length : ∀ endpoint, (materialized ++ [endpoint]).length = materialized.length + 1 := fun endpoint => by simp
    rw [← length]
    refine ih kept ⟨fun p endpoint made => ?_⟩ ?_ ?_
    · rcases Nat.lt_trichotomy p materialized.length with before | rfl | after
      · rw [List.getElem?_append_left before] at made
        obtain ⟨member, entry⟩ := finished.each p endpoint made
        exact ⟨List.mem_append_left _ member, entry⟩
      · rw [List.getElem?_concat_length] at made
        cases made
        exact ⟨List.mem_append_right _ (List.mem_singleton_self _), entry, here, rfl, rfl, good⟩
      · rw [List.getElem?_eq_none (by rw [length]; omega)] at made
        cases made
    · rw [length, ← List.drop_drop, shape]
      rfl
    · rw [length]
      exact inside

end Invariant

/-- A plan is accepted exactly if its servers are unique and before their users; an accepted one makes only permitted calls,
returns the error of a failing lookup, and otherwise all endpoints. -/
theorem fixed_endpoints_follow_their_plan {B : Type} (context : MaterializeContext B) (plan : List FixedEndpointPlanEntry)
    (world : World B) :
    (validateFixedEndpointOrder plan = .ok () ↔ UniqueServers plan ∧ Ordered plan) ∧
      (∀ error, validateFixedEndpointOrder plan = .error error →
        materializeFixedEndpoints context plan ⟨world, []⟩ = (.error (.error error), ⟨world, []⟩)) ∧
      ∀ result after, materializeFixedEndpoints context plan ⟨world, []⟩ = (result, after) →
        Permitted plan after.calls ∧
          (∀ call ∈ after.calls, ∀ error, call.2.failed = some error → result = .error (.error (.resolve error))) ∧
          ∀ endpoints, result = .ok endpoints → endpoints.length = plan.length ∧
            ∀ p endpoint, endpoints[p]? = some endpoint → (p, .materialized endpoint) ∈ after.calls ∧
              ∃ entry, plan[p]? = some entry ∧ endpoint.kind = entry.kind ∧ endpoint.spec = entry.spec ∧
                Candidates entry.spec endpoint.candidates := by
  obtain ⟨accepted, found⟩ := validatedDnsServerPositions_spec plan
  have valid : validateFixedEndpointOrder plan = .ok () ↔ ∃ positions, validatedDnsServerPositions plan = .ok positions := by
    unfold validateFixedEndpointOrder
    cases validatedDnsServerPositions plan with
    | error error => simp [Except.map]
    | ok positions => simp [Except.map]
  refine ⟨valid.trans accepted, fun error invalid => ?_, fun result after run => ?_⟩
  · unfold validateFixedEndpointOrder at invalid
    unfold materializeFixedEndpoints
    cases validated : validatedDnsServerPositions plan with
    | error other =>
      rw [validated] at invalid
      cases invalid
      rfl
    | ok positions =>
      rw [validated] at invalid
      cases invalid
  · cases validated : validatedDnsServerPositions plan with
    | error error =>
      rw [materializeFixedEndpoints, validated] at run
      cases run
      exact ⟨.none, by simp, by simp⟩
    | ok positions =>
      have ordered := (accepted.mp ⟨positions, validated⟩).2
      have start : Kept plan [] (⟨world, []⟩ : Materializing B) := ⟨.none, by simp, by simp⟩
      have ensures := materializeEntries_keeps context (found positions validated) ordered start
        (⟨by simp⟩ : Finished plan [] []) rfl (Nat.zero_le _)
      rw [materializeFixedEndpoints, validated] at run
      change materializeEntries context positions 0 plan [] ⟨world, []⟩ = (result, after) at run
      cases result with
      | ok endpoints =>
        obtain ⟨permitted, clean, length, finished⟩ := ensures.ok run
        refine ⟨permitted, fun call member error failed => ?_, fun others same => ?_⟩
        · rw [clean call member] at failed
          cases failed
        · cases same
          exact ⟨length, finished.each⟩
      | error halt =>
        obtain ⟨permitted, failed⟩ := ensures.error run
        exact ⟨permitted, fun call member error reason => congrArg Except.error (failed call member error reason), by simp⟩

end Ferrum.Dns
