import Ferrum.Dns.Endpoint

namespace Ferrum.Dns

section

variable (plan : List FixedEndpointPlanEntry)

def Provides (position : Nat) (server : U32) : Prop :=
  ∃ entry, plan[position]? = some entry ∧ entry.kind = .dnsServer server

def Uses (position : Nat) (server : U32) : Prop :=
  ∃ entry, plan[position]? = some entry ∧ entry.spec.resolver = some (.dnsServer server)

/-- Every server has one position. -/
def UniqueServers : Prop :=
  ∀ first second server, Provides plan first server → Provides plan second server → first = second

/-- Every lookup at a server comes after the endpoint of that server. -/
def Ordered : Prop :=
  ∀ position server, Uses plan position server → ∃ earlier < position, Provides plan earlier server

end

variable {plan : List FixedEndpointPlanEntry} {entry : FixedEndpointPlanEntry} {positions map : HashMap U32 Nat}
  {base position : Nat} {server : U32}

theorem provides_zero : Provides (entry :: plan) 0 server ↔ entry.kind = .dnsServer server := by
  simp [Provides]

theorem provides_succ : Provides (entry :: plan) (position + 1) server ↔ Provides plan position server := by
  simp [Provides]

theorem not_provides_nil : ¬Provides [] position server := by
  simp [Provides]

theorem serverPositions_server (kind : entry.kind = .dnsServer server) :
    serverPositions base (entry :: plan) map =
      if (map.lookup server).isSome then .error .duplicateDnsServer
      else serverPositions (base + 1) plan (map.insert server base) := by
  rw [serverPositions, kind]

theorem serverPositions_skip (kind : ∀ server, entry.kind ≠ .dnsServer server) :
    serverPositions base (entry :: plan) map = serverPositions (base + 1) plan map := by
  rw [serverPositions]
  split
  · rename_i server same
    exact absurd same (kind server)
  · rfl

theorem serverPositions_eq_ok (run : serverPositions base plan map = .ok positions) :
    (∀ server position, positions.lookup server = some position ↔
      map.lookup server = some position ∨ ∃ p, position = base + p ∧ Provides plan p server) ∧
      (∀ server p, Provides plan p server → map.lookup server = none) ∧ UniqueServers plan := by
  induction plan generalizing base map with
  | nil =>
    cases run
    exact ⟨fun server position => by simp [not_provides_nil], fun _ _ provides => absurd provides not_provides_nil,
      fun _ _ _ provides => absurd provides not_provides_nil⟩
  | cons entry plan ih =>
    by_cases kind : ∃ server, entry.kind = .dnsServer server
    · obtain ⟨own, kind⟩ := kind
      rw [serverPositions_server kind] at run
      split at run
      · cases run
      · rename_i absent
        have absent : map.lookup own = none := by simpa using absent
        obtain ⟨found, fresh, unique⟩ := ih run
        have other : ∀ server p, Provides plan p server → server ≠ own ∧ map.lookup server = none := by
          intro server p provides
          have none := fresh server p provides
          rw [HashMap.lookup_insert_eq] at none
          split at none
          · cases none
          · rename_i different
            exact ⟨different, none⟩
        refine ⟨fun server position => ?_, fun server p provides => ?_, fun first second server left right => ?_⟩
        · rw [found, HashMap.lookup_insert_eq]
          split
          · rename_i same
            subst same
            constructor
            · rintro (here | ⟨p, -, later⟩)
              · exact .inr ⟨0, (Option.some.inj here).symm, provides_zero.mpr kind⟩
              · exact absurd rfl (other _ _ later).1
            · rintro (known | ⟨p, at_, provides⟩)
              · rw [absent] at known
                cases known
              · cases p with
                | zero => exact .inl (congrArg some at_.symm)
                | succ p => exact absurd rfl (other _ _ (provides_succ.mp provides)).1
          · rename_i different
            refine or_congr_right ⟨?_, ?_⟩
            · rintro ⟨p, rfl, provides⟩
              exact ⟨p + 1, by omega, provides_succ.mpr provides⟩
            · rintro ⟨p, rfl, provides⟩
              cases p with
              | zero =>
                have same := kind.symm.trans (provides_zero.mp provides)
                cases same
                exact absurd rfl different
              | succ p => exact ⟨p, by omega, provides_succ.mp provides⟩
        · cases p with
          | zero =>
            have same := kind.symm.trans (provides_zero.mp provides)
            cases same
            exact absent
          | succ p => exact (other _ _ (provides_succ.mp provides)).2
        · cases first with
          | zero =>
            have same := kind.symm.trans (provides_zero.mp left)
            cases same
            cases second with
            | zero => rfl
            | succ second => exact absurd rfl (other _ _ (provides_succ.mp right)).1
          | succ first =>
            cases second with
            | zero =>
              have same := kind.symm.trans (provides_zero.mp right)
              cases same
              exact absurd rfl (other _ _ (provides_succ.mp left)).1
            | succ second =>
              exact congrArg Nat.succ (unique _ _ _ (provides_succ.mp left) (provides_succ.mp right))
    · have kind : ∀ server, entry.kind ≠ .dnsServer server := fun server same => kind ⟨server, same⟩
      rw [serverPositions_skip kind] at run
      obtain ⟨found, fresh, unique⟩ := ih run
      refine ⟨fun server position => ?_, fun server p provides => ?_, fun first second server left right => ?_⟩
      · rw [found]
        refine or_congr_right ⟨?_, ?_⟩
        · rintro ⟨p, rfl, provides⟩
          exact ⟨p + 1, by omega, provides_succ.mpr provides⟩
        · rintro ⟨p, rfl, provides⟩
          cases p with
          | zero => exact absurd (provides_zero.mp provides) (kind server)
          | succ p => exact ⟨p, by omega, provides_succ.mp provides⟩
      · cases p with
        | zero => exact absurd (provides_zero.mp provides) (kind server)
        | succ p => exact fresh server p (provides_succ.mp provides)
      · cases first with
        | zero => exact absurd (provides_zero.mp left) (kind server)
        | succ first =>
          cases second with
          | zero => exact absurd (provides_zero.mp right) (kind server)
          | succ second => exact congrArg Nat.succ (unique _ _ _ (provides_succ.mp left) (provides_succ.mp right))

theorem UniqueServers.tail (unique : UniqueServers (entry :: plan)) : UniqueServers plan := by
  intro first second server left right
  have same := unique _ _ server (provides_succ.mpr left) (provides_succ.mpr right)
  omega

theorem serverPositions_ok (fresh : ∀ server p, Provides plan p server → map.lookup server = none)
    (unique : UniqueServers plan) : ∃ positions, serverPositions base plan map = .ok positions := by
  induction plan generalizing base map with
  | nil => exact ⟨map, rfl⟩
  | cons entry plan ih =>
    by_cases kind : ∃ server, entry.kind = .dnsServer server
    · obtain ⟨own, kind⟩ := kind
      have absent := fresh own 0 (provides_zero.mpr kind)
      rw [serverPositions_server kind, absent]
      refine ih (fun server p provides => ?_) unique.tail
      rw [HashMap.lookup_insert_eq]
      split
      · rename_i same
        subst same
        have both := unique 0 (p + 1) server (provides_zero.mpr kind) (provides_succ.mpr provides)
        omega
      · exact fresh server (p + 1) (provides_succ.mpr provides)
    · have kind : ∀ server, entry.kind ≠ .dnsServer server := fun server same => kind ⟨server, same⟩
      rw [serverPositions_skip kind]
      exact ih (fun server p provides => fresh server (p + 1) (provides_succ.mpr provides)) unique.tail

theorem checkDependencies_eq_ok :
    checkDependencies positions base plan = .ok () ↔ ∀ p server, Uses plan p server →
      ∃ dependency, positions.lookup server = some dependency ∧ dependency < base + p := by
  induction plan generalizing base with
  | nil => simp [checkDependencies, Uses]
  | cons entry plan ih =>
    have later : ∀ p server, Uses (entry :: plan) (p + 1) server ↔ Uses plan p server := by simp [Uses]
    have here : ∀ server, Uses (entry :: plan) 0 server ↔ entry.spec.resolver = some (.dnsServer server) := by simp [Uses]
    have rest : (∀ p server, Uses plan p server →
        ∃ dependency, positions.lookup server = some dependency ∧ dependency < base + 1 + p) ↔
          ∀ p server, Uses (entry :: plan) (p + 1) server →
            ∃ dependency, positions.lookup server = some dependency ∧ dependency < base + (p + 1) := by
      simp only [later, Nat.add_comm 1, Nat.add_assoc]
    rw [checkDependencies]
    split
    · rename_i server resolver
      split
      · rename_i absent
        refine iff_of_false (by simp) fun all => ?_
        obtain ⟨dependency, found, -⟩ := all 0 server ((here server).mpr resolver)
        rw [absent] at found
        cases found
      · rename_i dependency found
        split
        · rename_i behind
          refine iff_of_false (by simp) fun all => ?_
          obtain ⟨other, same, before⟩ := all 0 server ((here server).mpr resolver)
          rw [found] at same
          cases same
          omega
        · rename_i before
          rw [ih, rest]
          refine ⟨fun all p other uses => ?_, fun all p => all (p + 1)⟩
          cases p with
          | zero =>
            have same := resolver.symm.trans ((here other).mp uses)
            cases same
            exact ⟨dependency, found, by omega⟩
          | succ p => exact all p other uses
    · rename_i other
      rw [ih, rest]
      refine ⟨fun all p server uses => ?_, fun all p => all (p + 1)⟩
      cases p with
      | zero => exact absurd ((here server).mp uses) (other server)
      | succ p => exact all p server uses

theorem validatedDnsServerPositions_spec (plan : List FixedEndpointPlanEntry) :
    ((∃ positions, validatedDnsServerPositions plan = .ok positions) ↔ UniqueServers plan ∧ Ordered plan) ∧
      ∀ positions, validatedDnsServerPositions plan = .ok positions →
        ∀ server position, positions.lookup server = some position ↔ Provides plan position server := by
  have founds : ∀ positions, serverPositions 0 plan ∅ = .ok positions →
      ∀ server position, positions.lookup server = some position ↔ Provides plan position server := by
    intro positions run server position
    rw [(serverPositions_eq_ok run).1]
    simp
  have checked : ∀ positions, serverPositions 0 plan ∅ = .ok positions →
      (checkDependencies positions 0 plan = .ok () ↔ Ordered plan) := by
    intro positions run
    rw [checkDependencies_eq_ok]
    simp only [founds positions run, Nat.zero_add, and_comm]
    rfl
  refine ⟨⟨?_, ?_⟩, ?_⟩
  · rintro ⟨positions, run⟩
    obtain ⟨found, first, run⟩ := bind_eq_ok.mp run
    obtain ⟨_, second, -⟩ := bind_eq_ok.mp run
    exact ⟨(serverPositions_eq_ok first).2.2, (checked found first).mp second⟩
  · rintro ⟨unique, ordered⟩
    obtain ⟨positions, run⟩ := @serverPositions_ok plan ∅ 0 (fun _ _ _ => rfl) unique
    refine ⟨positions, ?_⟩
    rw [validatedDnsServerPositions, run]
    exact congrArg (fun result => result >>= fun _ => Except.ok positions) ((checked positions run).mpr ordered)
  · intro positions run
    obtain ⟨found, first, run⟩ := bind_eq_ok.mp run
    obtain ⟨-, -, run⟩ := bind_eq_ok.mp run
    cases run
    exact founds _ first

end Ferrum.Dns
