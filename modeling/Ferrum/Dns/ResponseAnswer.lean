import Ferrum.Core.Target
import Ferrum.Dns.ResponseOwner

namespace Ferrum.Dns

open Ferrum.Tun (IpAddr)

def DnsAddressRecords.addresses : DnsAddressRecords → List IpAddr
  | a records => records.map .v4
  | aaaa records => records.map .v6

def DnsCacheAnswer.addresses : DnsCacheAnswer → List IpAddr
  | positive records => records.addresses
  | negative => []

def addressOf {Name : Type} (record : ResourceRecord Name) : Option (IpAddr × Nat) :=
  match record.data with
  | .a address => some (.v4 address, record.ttl)
  | .aaaa address => some (.v6 address, record.ttl)
  | _ => none

theorem eraseDups_concat {α : Type} [DecidableEq α] (values : List α) (value : α) :
    (values ++ [value]).eraseDups = if value ∈ values then values.eraseDups else values.eraseDups ++ [value] := by
  rw [List.eraseDups_append]
  by_cases member : value ∈ values
  · simp [List.removeAll, member]
  · simp [List.removeAll, member, List.eraseDups_cons]

theorem eraseDups_eq_nil {α : Type} [DecidableEq α] {values : List α} : values.eraseDups = [] ↔ values = [] := by
  simp only [List.eq_nil_iff_forall_not_mem, List.mem_eraseDups]

namespace ResponseSemantics

variable {Name : Type} [BEq Name]

variable {semantics : ResponseSemantics Name}

omit [BEq Name] in
theorem collectAddresses_eq_some {before rest : List (IpAddr × Nat)} {ttl least : Option Nat} {collected : List IpAddr}
    (run : semantics.collectAddresses rest ttl (before.map Prod.fst).eraseDups = some (least, collected))
    (few : (before.map Prod.fst).eraseDups.length ≤ 16) :
    collected = ((before ++ rest).map Prod.fst).eraseDups ∧ collected.length ≤ 16 ∧
      least = rest.foldl (fun ttl address => minTtl ttl address.2) ttl ∧
        ∀ address ∈ rest, semantics.response.responseCode = .noError ∧ familyMatches semantics.qtype address.1 = true := by
  induction rest generalizing before ttl with
  | nil =>
    cases run
    simpa using few
  | cons address rest ih =>
    unfold collectAddresses at run
    split at run
    · cases run
    · rename_i fine
      rw [not_or, not_not, Bool.not_eq_false] at fine
      have shape : before ++ address :: rest = before ++ [address] ++ rest := by simp
      have known : address.1 ∈ (before.map Prod.fst).eraseDups ↔ address.1 ∈ before.map Prod.fst := List.mem_eraseDups
      have next : ((before ++ [address]).map Prod.fst).eraseDups =
          if address.1 ∈ before.map Prod.fst then (before.map Prod.fst).eraseDups
          else (before.map Prod.fst).eraseDups ++ [address.1] := by
        rw [List.map_append, ← eraseDups_concat]
        rfl
      split at run
      · rename_i member
        rw [if_pos (known.mp member)] at next
        rw [← next] at run few
        obtain ⟨all, bounded, ttls, families⟩ := ih run few
        rw [shape]
        exact ⟨all, bounded, ttls, List.forall_mem_cons.mpr ⟨fine, families⟩⟩
      · rename_i fresh
        split at run
        · cases run
        · rename_i room
          rw [if_neg fun member => fresh (known.mpr member)] at next
          have bounded : ((before ++ [address]).map Prod.fst).eraseDups.length ≤ 16 := by
            rw [next, List.length_append, List.length_singleton]
            unfold maxApplicationResolvedCandidates at room
            omega
          rw [← next] at run
          obtain ⟨all, short, ttls, families⟩ := ih run bounded
          rw [shape]
          exact ⟨all, short, ttls, List.forall_mem_cons.mpr ⟨fine, families⟩⟩

theorem addresses_eq {owner : Name} {ttl : Option Nat} (terminal : semantics.terminal = some (owner, ttl))
    (asked : isAddressType semantics.qtype = true) :
    semantics.addresses = (owned semantics.response.answers owner).filterMap addressOf := by
  unfold addresses owned
  rw [List.filterMap_filter]
  refine List.filterMap_congr fun record _ => ?_
  unfold address
  rw [terminal]
  by_cases named : (record.name == owner) = true
  · rw [if_pos named]
    exact if_neg (by simp [named, asked])
  · simp [named]

theorem map_v4 {addresses : List IpAddr} (families : ∀ address ∈ addresses, familyMatches .a address = true) :
    (addresses.filterMap v4Address).map IpAddr.v4 = addresses := by
  induction addresses with
  | nil => rfl
  | cons address addresses ih =>
    obtain ⟨here, rest⟩ := List.forall_mem_cons.mp families
    cases address with
    | v4 address => exact congrArg (List.cons _) (ih rest)
    | v6 address => cases here

theorem map_v6 {addresses : List IpAddr} (families : ∀ address ∈ addresses, familyMatches .aaaa address = true) :
    (addresses.filterMap v6Address).map IpAddr.v6 = addresses := by
  induction addresses with
  | nil => rfl
  | cons address addresses ih =>
    obtain ⟨here, rest⟩ := List.forall_mem_cons.mp families
    cases address with
    | v4 address => cases here
    | v6 address => exact congrArg (List.cons _) (ih rest)

theorem cacheAnswer_eq_some {answer : DnsCacheAnswer} {ttl : Nat} (cached : semantics.cacheAnswer = some (answer, ttl)) :
    ∃ owner chain, semantics.terminal = some (owner, chain) ∧ isAddressType semantics.qtype = true ∧ ttl ≠ 0 ∧
      semantics.response.truncation = false ∧
      answer.addresses = (semantics.addresses.map Prod.fst).eraseDups ∧ answer.addresses.length ≤ 16 ∧
      (∀ address ∈ semantics.addresses, familyMatches semantics.qtype address.1 = true) ∧
      ((answer = .negative ∧ semantics.addresses = [] ∧ ∃ soa, semantics.soaTtls.min? = some soa ∧
          some ttl = minTtl chain soa) ∨
        (∃ records, answer = .positive records) ∧ semantics.addresses ≠ [] ∧
          some ttl = semantics.addresses.foldl (fun ttl address => minTtl ttl address.2) chain) := by
  unfold cacheAnswer at cached
  rw [Option.bind_eq_bind, Option.bind_eq_some_iff] at cached
  obtain ⟨⟨owner, chain⟩, terminal, cached⟩ := cached
  dsimp only at cached
  split at cached
  · cases cached
  · rename_i usable
    rw [not_or, not_or, Bool.not_eq_true, Bool.not_eq_false] at usable
    rw [Option.bind_eq_bind, Option.bind_eq_some_iff] at cached
    obtain ⟨⟨least, collected⟩, loop, cached⟩ := cached
    obtain ⟨all, few, ttls, families⟩ := @collectAddresses_eq_some _ semantics [] _ _ _ _ loop (Nat.zero_le _)
    rw [List.nil_append] at all
    dsimp only at cached
    split at cached
    · cases cached
    · rw [Option.bind_eq_bind, Option.bind_eq_some_iff] at cached
      obtain ⟨⟨answer', ttl'⟩, chosen, cached⟩ := cached
      rw [Option.bind_eq_bind, Option.bind_eq_some_iff] at cached
      obtain ⟨ttl', rfl, cached⟩ := cached
      split at cached
      · cases cached
      · rename_i nonzero
        cases cached
        subst all
        unfold answerOf at chosen
        split at chosen
        · rename_i empty
          rw [Option.bind_eq_bind, Option.bind_eq_some_iff] at chosen
          obtain ⟨soa, least, chosen⟩ := chosen
          have none : semantics.addresses = [] := by simpa using eraseDups_eq_nil.mp empty
          simp only [Option.some.injEq, Prod.mk.injEq] at chosen
          obtain ⟨rfl, same⟩ := chosen
          rw [none, List.foldl_nil] at ttls
          rw [ttls] at same
          refine ⟨owner, chain, terminal, usable.2.1, nonzero, usable.1, empty.symm, Nat.zero_le _, ?_, ?_⟩
          · rw [none]
            exact nofun
          · exact .inl ⟨rfl, none, soa, least, same.symm⟩
        · rename_i filled
          have some : semantics.addresses ≠ [] := fun none => filled (by rw [none]; rfl)
          have families := fun address member => (families address member).2
          have collected : ∀ address ∈ (semantics.addresses.map Prod.fst).eraseDups,
              familyMatches semantics.qtype address = true := by
            intro address member
            obtain ⟨pair, inside, rfl⟩ := List.mem_map.mp (List.mem_eraseDups.mp member)
            exact families pair inside
          have shape : answer'.addresses = (semantics.addresses.map Prod.fst).eraseDups ∧
              (∃ records, answer' = .positive records) ∧ least = Option.some ttl := by
            split at chosen
            · rename_i asked
              rw [asked] at collected
              cases chosen
              exact ⟨map_v4 collected, ⟨_, rfl⟩, rfl⟩
            · rename_i asked
              rw [asked] at collected
              cases chosen
              exact ⟨map_v6 collected, ⟨_, rfl⟩, rfl⟩
            · cases chosen
          obtain ⟨all, positive, same⟩ := shape
          refine ⟨owner, chain, terminal, usable.2.1, nonzero, usable.1, all, ?_, families, .inr ⟨positive, some, ?_⟩⟩
          · rwa [all]
          · rw [← same, ttls]

end ResponseSemantics

/-- The walk ends at an owner exactly if the aliases met have no cycle, one target each and no address; its TTL is their
smallest, and a cached answer is the owner's distinct addresses with the smallest TTL. -/
theorem alias_chain_and_cached_answer {Name : Type} [BEq Name] [EquivBEq Name] (qname : Name) (qtype : RecordType)
    (response : Message Name) :
    ((finalOwner qname response).isSome = true ↔
        Acyclic response.answers qname ∧ WellFormed response.answers qname) ∧
      (∀ owner ttl, finalOwner qname response = some (owner, ttl) →
        Reaches response.answers qname owner ∧ (∀ target, ¬Alias response.answers owner target) ∧
          (ttl = none ↔ ∀ target, ¬Alias response.answers qname target) ∧
          ∀ least, ttl = some least →
            (∃ x target, Reaches response.answers qname x ∧ (target, least) ∈ aliases response.answers x) ∧
              ∀ x target other, Reaches response.answers qname x → (target, other) ∈ aliases response.answers x →
                least ≤ other) ∧
      ∀ answer ttl, (ResponseSemantics.new qname qtype response).cacheAnswer = some (answer, ttl) →
        ∃ owner chain addresses, finalOwner qname response = some (owner, chain) ∧
          addresses = (owned response.answers owner).filterMap addressOf ∧ ttl ≠ 0 ∧
          answer.addresses = (addresses.map Prod.fst).eraseDups ∧ answer.addresses.length ≤ 16 ∧
          (∀ address ∈ addresses, ResponseSemantics.familyMatches qtype address.1 = true) ∧
          ((answer = .negative ∧ addresses = [] ∧ ∃ soa,
              (ResponseSemantics.new qname qtype response).soaTtls.min? = some soa ∧ some ttl = minTtl chain soa) ∨
            (∃ records, answer = .positive records) ∧ addresses ≠ [] ∧ ttl ∈ chain.toList ++ addresses.map Prod.snd ∧
              ∀ other ∈ chain.toList ++ addresses.map Prod.snd, ttl ≤ other) := by
  refine ⟨⟨fun ends => ?_, fun fine => ?_⟩, fun owner ttl walked => ?_, fun answer ttl cached => ?_⟩
  · obtain ⟨⟨owner, ttl⟩, walked⟩ := Option.isSome_iff_exists.mp ends
    obtain ⟨⟨n, depth⟩, -⟩ := walkOwners_eq_some walked
    exact ⟨depth.acyclic, depth.wellFormed⟩
  · refine @walkOwners_isSome _ _ _ _ qname qname fine.1 fine.2 _ [] none .refl nofun ?_
    exact Nat.lt_succ_of_le (List.length_filter_le _ _)
  · obtain ⟨-, path, none, followed, least, members⟩ := walkOwners_eq_some walked
    refine ⟨path, fun target => not_alias none, ?_, fun smallest here => ?_⟩
    · rw [least, minTtls, minTtls_eq_none, eq_self, true_and, List.eq_nil_iff_forall_not_mem]
      constructor
      · rintro empty target step
        obtain ⟨pair, member, -⟩ := List.mem_map.mp step
        exact empty pair ((members pair).mpr ⟨qname, .refl, member⟩)
      · intro bare pair member
        obtain ⟨x, reached, inside⟩ := (members pair).mp member
        rcases Relation.ReflTransGen.cases_head reached with rfl | ⟨next, step, -⟩
        · exact bare pair.1 (List.mem_map_of_mem inside)
        · exact bare next step
    · rw [least] at here
      obtain ⟨member, below⟩ := minTtls_eq_some.mp here
      rw [Option.toList_none, List.nil_append] at member below
      refine ⟨?_, fun x target other reached inside => ?_⟩
      · obtain ⟨⟨target, other⟩, inside, rfl⟩ := List.mem_map.mp member
        obtain ⟨x, reached, here⟩ := (members _).mp inside
        exact ⟨x, target, reached, here⟩
      · exact below other (List.mem_map_of_mem ((members (target, other)).mpr ⟨x, reached, inside⟩))
  · obtain ⟨owner, chain, terminal, asked, nonzero, -, all, few, families, kind⟩ :=
      ResponseSemantics.cacheAnswer_eq_some cached
    rw [ResponseSemantics.addresses_eq terminal asked] at all families kind
    refine ⟨owner, chain, _, terminal, rfl, nonzero, all, few, families, kind.imp id ?_⟩
    rintro ⟨positive, some, least⟩
    exact ⟨positive, some, minTtls_eq_some.mp least.symm⟩

section Sample

/-- A name that is compared without case. -/
structure FoldedName where
  text : List UInt8

instance : BEq FoldedName := ⟨fun a b => a.text.map Core.toAsciiLowercase == b.text.map Core.toAsciiLowercase⟩

instance : EquivBEq FoldedName where
  rfl := BEq.rfl (α := List UInt8)
  symm := BEq.symm (α := List UInt8)
  trans := BEq.trans (α := List UInt8)

/-- "A" is an alias of "b", which has one address. -/
def sampleResponse : Message FoldedName where
  truncation := false
  responseCode := .noError
  answers := [⟨⟨[65]⟩, 60, .cname ⟨[98]⟩⟩, ⟨⟨[66]⟩, 30, .a (.new 10 0 0 1)⟩]
  authorities := []

theorem sampleResponse_answer : Acyclic sampleResponse.answers ⟨[97]⟩ ∧ ∃ answer ttl,
    (ResponseSemantics.new ⟨[97]⟩ .a sampleResponse).cacheAnswer = some (answer, ttl) ∧ ttl ≠ 0 := by
  obtain ⟨walk, -, cached⟩ := alias_chain_and_cached_answer (⟨[97]⟩ : FoldedName) .a sampleResponse
  obtain ⟨answer, ttl, run⟩ : ∃ answer ttl,
      (ResponseSemantics.new ⟨[97]⟩ .a sampleResponse).cacheAnswer = some (answer, ttl) := ⟨_, _, rfl⟩
  obtain ⟨-, -, -, -, -, nonzero, -⟩ := cached answer ttl run
  exact ⟨(walk.mp rfl).1, answer, ttl, run, nonzero⟩

end Sample

end Ferrum.Dns
