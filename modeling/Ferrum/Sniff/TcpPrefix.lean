import Ferrum.Sniff.Sniff

namespace Ferrum.Sniff

open List

namespace Parsers

variable (parsers : Parsers)

/-- The answer at the limit is invalid only because the input ends there, so that the collecting parse
still waits: records or a request that end at the limit, or a frame on the port of DNS whose end is one
byte behind the limit, or whose length is cut off by it. -/
def Withheld (bytes : List UInt8) (maxBytes : Nat) (destinationPort : U16) : Protocol → Prop
  | .dns => maxBytes < saturatingAdd maxBytes 1 ∧ destinationPort = 53 ∧
      match declaredLength bytes with
      | none => bytes.length = maxBytes
      | some length => length + 1 = maxBytes
  | .tls => maxBytes < saturatingAdd maxBytes 1 ∧ bytes.length = maxBytes ∧ plausibleTlsPrefix bytes = true ∧
      parsers.acceptLoop .needMore parsers.acceptor bytes = .needMore
  | .http => maxBytes < saturatingAdd maxBytes 1 ∧ bytes.length = maxBytes ∧
      match parsers.parseRequest bytes with
      | .incomplete => True
      | _ => False

theorem acceptLoop_cases (state : parsers.State) (input : List UInt8) :
    (∀ undecided, parsers.acceptLoop undecided state input = undecided) ∨
      ∃ decided, decided ≠ .needMore ∧ ∀ undecided, parsers.acceptLoop undecided state input = decided := by
  induction length : input.length using Nat.strongRecOn generalizing state input with
  | _ n ih =>
    cases reads : parsers.readTls state input with
    | none => exact .inr ⟨.invalid, nofun, fun undecided => by rw [acceptLoop, reads]⟩
    | some found =>
      obtain ⟨read, next⟩ := found
      cases accepts : parsers.accept next with
      | hello serverName =>
        refine .inr ⟨.matched (.tls serverName), nofun, fun undecided => ?_⟩
        rw [acceptLoop, reads]
        simp only [accepts]
      | failed =>
        refine .inr ⟨.invalid, nofun, fun undecided => ?_⟩
        rw [acceptLoop, reads]
        simp only [accepts]
      | pending after =>
        by_cases ended : read.val = 0
        · refine .inl fun undecided => ?_
          rw [acceptLoop, reads]
          simp only [accepts, ended, if_true]
        · have unfolded : ∀ undecided, parsers.acceptLoop undecided state input =
              parsers.acceptLoop undecided after (input.drop read.val) := by
            intro undecided
            rw [acceptLoop, reads]
            simp only [accepts, ended, if_false]
          have bound := read.isLt
          have shorter : (input.drop read.val).length < n := by
            rw [length_drop]
            omega
          simp only [unfolded]
          exact ih _ shorter after _ rfl

variable {parsers} {bytes : List UInt8} {maxBytes : Nat} {destinationPort : U16}

theorem boundedPartial_cases (fits : bytes.length ≤ maxBytes) (usize : maxBytes < 2 ^ 64) :
    (maxBytes < saturatingAdd maxBytes 1 ∧ bytes.length = maxBytes ∧ boundedPartial bytes.length maxBytes = .invalid ∧
        boundedPartial bytes.length (saturatingAdd maxBytes 1) = .needMore) ∨
      (¬(maxBytes < saturatingAdd maxBytes 1 ∧ bytes.length = maxBytes) ∧
        boundedPartial bytes.length (saturatingAdd maxBytes 1) = boundedPartial bytes.length maxBytes) := by
  unfold boundedPartial saturatingAdd
  by_cases at_limit : maxBytes < min (maxBytes + 1) (2 ^ 64 - 1) ∧ bytes.length = maxBytes
  · refine .inl ⟨at_limit.1, at_limit.2, if_neg (by omega), if_pos (by omega)⟩
  · refine .inr ⟨at_limit, ?_⟩
    by_cases below : bytes.length < maxBytes
    · rw [if_pos below, if_pos (by omega)]
    · rw [if_neg below, if_neg (by omega)]

def Exceeds (bytes : List UInt8) (maxBytes : Nat) : Prop := (declaredLength bytes).any (maxBytes - 2 < ·) = true

instance : Decidable (Exceeds bytes maxBytes) := inferInstanceAs (Decidable (_ = true))

/-- What the parse at the horizon says of one protocol, against the one at the limit. -/
def Agrees (parsers : Parsers) (bytes : List UInt8) (maxBytes : Nat) (destinationPort : U16) (protocol : Protocol) : Prop :=
  let plain := parsers.inspect bytes maxBytes .tcp destinationPort protocol
  let wide := parsers.inspect bytes (saturatingAdd maxBytes 1) .tcp destinationPort protocol
  (parsers.Withheld bytes maxBytes destinationPort protocol ∧ plain = .invalid ∧ wide = .needMore) ∨
    (¬parsers.Withheld bytes maxBytes destinationPort protocol ∧
      (wide = plain ∨ (protocol = .dns ∧ plain = .invalid ∧ wide = .noMatch ∧ Exceeds bytes maxBytes)))

theorem agrees_tls (fits : bytes.length ≤ maxBytes) (usize : maxBytes < 2 ^ 64) :
    Agrees parsers bytes maxBytes destinationPort .tls := by
  unfold Agrees
  simp only [inspect, sniffTls, Withheld, ne_eq, not_true_eq_false, false_or]
  cases looksTls : plausibleTlsPrefix bytes with
  | false =>
    rw [if_pos rfl, if_pos rfl]
    exact .inr ⟨by simp, .inl rfl⟩
  | true =>
    rw [if_neg (by simp), if_neg (by simp)]
    rcases parsers.acceptLoop_cases parsers.acceptor bytes with open_ | ⟨decided, other, same⟩
    · rw [open_, open_, open_]
      rcases boundedPartial_cases fits usize with ⟨beyond, at_limit, invalid, needMore⟩ | ⟨inside, same⟩
      · exact .inl ⟨⟨beyond, at_limit, rfl, rfl⟩, invalid, needMore⟩
      · exact .inr ⟨fun held => inside ⟨held.1, held.2.1⟩, .inl same⟩
    · rw [same, same, same]
      exact .inr ⟨fun held => other held.2.2.2, .inl rfl⟩

theorem agrees_http (fits : bytes.length ≤ maxBytes) (usize : maxBytes < 2 ^ 64) :
    Agrees parsers bytes maxBytes destinationPort .http := by
  unfold Agrees
  simp only [inspect, sniffHttp, Withheld, ne_eq, not_true_eq_false, if_false]
  cases parsers.parseRequest bytes with
  | complete domain | failed => exact .inr ⟨by simp, .inl rfl⟩
  | incomplete =>
    rcases boundedPartial_cases fits usize with ⟨beyond, at_limit, invalid, needMore⟩ | ⟨inside, same⟩
    · exact .inl ⟨⟨beyond, at_limit, trivial⟩, invalid, needMore⟩
    · exact .inr ⟨fun held => inside ⟨held.1, held.2.1⟩, .inl same⟩

theorem dnsIncomplete_53 (length maxBytes : Nat) : dnsIncomplete length maxBytes 53 = boundedPartial length maxBytes := rfl

theorem dnsIncomplete_other (length maxBytes : Nat) (other : destinationPort ≠ 53) :
    dnsIncomplete length maxBytes destinationPort = .noMatch := if_pos other

theorem agrees_dns (fits : bytes.length ≤ maxBytes) (usize : maxBytes < 2 ^ 64) :
    Agrees parsers bytes maxBytes destinationPort .dns := by
  unfold Agrees Exceeds
  simp only [inspect, sniffDns, Withheld]
  cases declared : declaredLength bytes with
  | none =>
    simp only
    by_cases port : destinationPort = 53
    · subst port
      rw [dnsIncomplete_53, dnsIncomplete_53]
      rcases boundedPartial_cases fits usize with ⟨beyond, at_limit, invalid, needMore⟩ | ⟨inside, same⟩
      · exact .inl ⟨⟨beyond, rfl, at_limit⟩, invalid, needMore⟩
      · exact .inr ⟨fun held => inside ⟨held.1, held.2.2⟩, .inl same⟩
    · rw [dnsIncomplete_other _ _ port, dnsIncomplete_other _ _ port]
      exact .inr ⟨fun held => port held.2.1, .inl rfl⟩
  | some length =>
    simp only
    have two : 2 ≤ bytes.length := by
      unfold declaredLength at declared
      split at declared
      · assumption
      · cases declared
    have horizon : saturatingAdd maxBytes 1 = min (maxBytes + 1) (2 ^ 64 - 1) := rfl
    by_cases edge : length + 1 = maxBytes ∧ maxBytes < saturatingAdd maxBytes 1
    · -- the whole frame would end one byte behind the limit
      obtain ⟨edge, beyond⟩ := edge
      have missing : getRange bytes 2 (length + 2) = none := if_neg (by omega)
      rw [if_pos (by omega), if_neg (by omega), missing]
      by_cases port : destinationPort = 53
      · subst port
        simp only [dnsIncomplete_53]
        exact .inl ⟨⟨beyond, trivial, edge⟩, trivial, if_pos (by omega)⟩
      · simp only [dnsIncomplete_other _ _ port]
        exact .inr ⟨fun held => port held.2.1, .inr ⟨trivial, trivial, trivial, by simp; omega⟩⟩
    · refine .inr ⟨fun held => edge ⟨held.2.2, held.1⟩, .inl ?_⟩
      by_cases refused : length = 0 ∨ maxBytes - 2 < length
      · rw [if_pos refused, if_pos (by omega)]
      · rw [if_neg refused, if_neg (by omega)]
        cases found : getRange bytes 2 (length + 2) with
        | some frame => rfl
        | none =>
          have short : ¬(2 ≤ length + 2 ∧ length + 2 ≤ bytes.length) := by
            intro inside
            unfold getRange at found
            rw [if_pos inside] at found
            cases found
          simp only
          by_cases port : destinationPort = 53
          · subst port
            rw [dnsIncomplete_53, dnsIncomplete_53]
            unfold boundedPartial
            rw [if_pos (by omega), if_pos (by omega)]
          · rw [dnsIncomplete_other _ _ port, dnsIncomplete_other _ _ port]

theorem agrees (fits : bytes.length ≤ maxBytes) (usize : maxBytes < 2 ^ 64) (protocol : Protocol) :
    Agrees parsers bytes maxBytes destinationPort protocol := by
  cases protocol with
  | dns => exact agrees_dns fits usize
  | tls => exact agrees_tls fits usize
  | http => exact agrees_http fits usize

theorem sniffDns_exceeds (exceeds : Exceeds bytes maxBytes) :
    parsers.inspect bytes maxBytes .tcp destinationPort .dns = .invalid := by
  unfold Exceeds at exceeds
  simp only [inspect, sniffDns]
  cases declared : declaredLength bytes with
  | none =>
    rw [declared] at exceeds
    cases exceeds
  | some length =>
    rw [declared] at exceeds
    exact if_pos (.inr (of_decide_eq_true exceeds))

section loop

variable {inspect : Protocol → Progress}

def Quiet (progress : Progress) : Prop := progress = .invalid ∨ progress = .noMatch

variable {before after : List Protocol} {protocol : Protocol}

theorem sniffLoop_decided
    (quiet : ∀ earlier ∈ before, Quiet (inspect earlier)) (decides : ¬Quiet (inspect protocol)) (invalid : Bool) :
    sniffLoop inspect (before ++ protocol :: after) invalid = inspect protocol := by
  induction before generalizing invalid with
  | nil =>
    rw [nil_append, sniffLoop]
    cases answer : inspect protocol with
    | matched metadata => rfl
    | needMore => rfl
    | invalid => exact absurd (.inl answer) decides
    | noMatch => exact absurd (.inr answer) decides
  | cons earlier rest ih =>
    rw [cons_append, sniffLoop]
    have later := ih fun other member => quiet other (mem_cons_of_mem _ member)
    rcases quiet earlier mem_cons_self with answer | answer
    · rw [answer]
      exact later true
    · rw [answer]
      exact later invalid

theorem sniffLoop_quiet {order : List Protocol} (quiet : ∀ protocol ∈ order, Quiet (inspect protocol)) (invalid : Bool) :
    sniffLoop inspect order invalid =
      if invalid = true ∨ ∃ protocol ∈ order, inspect protocol = .invalid then .invalid else .noMatch := by
  induction order generalizing invalid with
  | nil => simp [sniffLoop]
  | cons protocol rest ih =>
    rw [sniffLoop]
    have later := ih fun other member => quiet other (mem_cons_of_mem _ member)
    rcases quiet protocol mem_cons_self with answer | answer
    · rw [answer]
      refine (later true).trans ?_
      simp [answer]
    · rw [answer]
      refine (later invalid).trans ?_
      simp [answer]

theorem quiet_or_decided (inspect : Protocol → Progress) (order : List Protocol) :
    (∀ protocol ∈ order, Quiet (inspect protocol)) ∨ ∃ before protocol after, order = before ++ protocol :: after ∧
      (∀ earlier ∈ before, Quiet (inspect earlier)) ∧ ¬Quiet (inspect protocol) := by
  induction order with
  | nil => exact .inl (by simp)
  | cons protocol rest ih =>
    by_cases quiet : Quiet (inspect protocol)
    · rcases ih with all | ⟨before, decided, after, shape, earlier, decides⟩
      · exact .inl (forall_mem_cons.mpr ⟨quiet, all⟩)
      · exact .inr ⟨protocol :: before, decided, after, by rw [shape]; rfl, forall_mem_cons.mpr ⟨quiet, earlier⟩, decides⟩
    · exact .inr ⟨[], protocol, rest, rfl, by simp, quiet⟩

theorem sniffLoop_needMore
    (unmatched : ∀ earlier ∈ before, ∀ metadata, inspect earlier ≠ .matched metadata) (waits : inspect protocol = .needMore)
    (invalid : Bool) : sniffLoop inspect (before ++ protocol :: after) invalid = .needMore := by
  induction before generalizing invalid with
  | nil => rw [nil_append, sniffLoop, waits]
  | cons earlier rest ih =>
    rw [cons_append, sniffLoop]
    have later := ih fun other member => unmatched other (mem_cons_of_mem _ member)
    cases answer : inspect earlier with
    | matched metadata => exact absurd answer (unmatched earlier mem_cons_self metadata)
    | needMore => rfl
    | invalid => exact later true
    | noMatch => exact later invalid

end loop

variable {order : List Protocol}

section

variable (fits : bytes.length ≤ maxBytes)
include fits

variable {protocol : Protocol}

theorem quiet_of_wide (usize : maxBytes < 2 ^ 64)
    (quiet : Quiet (parsers.inspect bytes (saturatingAdd maxBytes 1) .tcp destinationPort protocol)) :
    Quiet (parsers.inspect bytes maxBytes .tcp destinationPort protocol) := by
  rcases @agrees parsers _ _ destinationPort fits usize protocol with ⟨-, -, waits⟩ | ⟨-, same | ⟨-, plain, -, -⟩⟩
  · rcases quiet with bad | bad <;> · rw [waits] at bad; cases bad
  · exact same ▸ quiet
  · exact .inl plain

theorem sniffTcpPrefix_eq (order : List Protocol) :
    parsers.sniffTcpPrefix bytes maxBytes destinationPort order =
      if parsers.sniff bytes (saturatingAdd maxBytes 1) .tcp destinationPort order = .noMatch ∧ .dns ∈ order ∧
        Exceeds bytes maxBytes then .invalid
      else parsers.sniff bytes (saturatingAdd maxBytes 1) .tcp destinationPort order := by
  unfold sniffTcpPrefix
  rw [if_neg (Nat.not_lt.mpr fits)]
  rfl

theorem sniff_horizon (usize : maxBytes < 2 ^ 64) (order : List Protocol) :
    parsers.sniff bytes (saturatingAdd maxBytes 1) .tcp destinationPort order =
      sniffLoop (parsers.inspect bytes (saturatingAdd maxBytes 1) .tcp destinationPort) order false := by
  have horizon : saturatingAdd maxBytes 1 = min (maxBytes + 1) (2 ^ 64 - 1) := rfl
  exact if_neg (by omega)

theorem sniffTcpPrefix_quiet (usize : maxBytes < 2 ^ 64)
    (quiet : ∀ protocol ∈ order, Quiet (parsers.inspect bytes (saturatingAdd maxBytes 1) .tcp destinationPort protocol)) :
    parsers.sniffTcpPrefix bytes maxBytes destinationPort order =
      parsers.sniff bytes maxBytes .tcp destinationPort order := by
  have plainQuiet := fun protocol member => quiet_of_wide fits usize (quiet protocol member)
  rw [sniffTcpPrefix_eq fits, sniff_horizon fits usize, sniffLoop_quiet quiet, sniff, if_neg (Nat.not_lt.mpr fits),
    sniffLoop_quiet plainQuiet]
  simp only [Bool.false_eq_true, false_or]
  by_cases invalid : ∃ protocol ∈ order, parsers.inspect bytes maxBytes .tcp destinationPort protocol = .invalid
  · rw [if_pos invalid]
    by_cases wideInvalid :
        ∃ protocol ∈ order, parsers.inspect bytes (saturatingAdd maxBytes 1) .tcp destinationPort protocol = .invalid
    · rw [if_pos wideInvalid, if_neg (by simp)]
    · obtain ⟨protocol, member, plain⟩ := invalid
      rw [if_neg wideInvalid]
      rcases @agrees parsers _ _ destinationPort fits usize protocol with
        ⟨-, -, waits⟩ | ⟨-, same | ⟨isDns, -, -, exceeds⟩⟩
      · rcases quiet protocol member with bad | bad <;> · rw [waits] at bad; cases bad
      · exact absurd ⟨protocol, member, same.trans plain⟩ wideInvalid
      · exact if_pos ⟨rfl, isDns ▸ member, exceeds⟩
  · have wideNone :
        ¬∃ protocol ∈ order, parsers.inspect bytes (saturatingAdd maxBytes 1) .tcp destinationPort protocol = .invalid := by
      rintro ⟨protocol, member, wide⟩
      rcases @agrees parsers _ _ destinationPort fits usize protocol with ⟨-, plain, -⟩ | ⟨-, same | ⟨-, plain, -, -⟩⟩
      · exact invalid ⟨protocol, member, plain⟩
      · exact invalid ⟨protocol, member, same ▸ wide⟩
      · exact invalid ⟨protocol, member, plain⟩
    rw [if_neg invalid, if_neg wideNone]
    exact if_neg fun ⟨_, member, exceeds⟩ => invalid ⟨.dns, member, sniffDns_exceeds exceeds⟩

theorem sniffTcpPrefix_decided (usize : maxBytes < 2 ^ 64) {before after : List Protocol}
    (shape : order = before ++ protocol :: after)
    (quiet : ∀ earlier ∈ before,
      Quiet (parsers.inspect bytes (saturatingAdd maxBytes 1) .tcp destinationPort earlier))
    (decides : ¬Quiet (parsers.inspect bytes (saturatingAdd maxBytes 1) .tcp destinationPort protocol)) :
    parsers.sniffTcpPrefix bytes maxBytes destinationPort order =
        parsers.inspect bytes (saturatingAdd maxBytes 1) .tcp destinationPort protocol ∧
      (¬parsers.Withheld bytes maxBytes destinationPort protocol →
        parsers.sniff bytes maxBytes .tcp destinationPort order =
          parsers.inspect bytes (saturatingAdd maxBytes 1) .tcp destinationPort protocol) := by
  have plainQuiet := fun earlier member => quiet_of_wide fits usize (quiet earlier member)
  constructor
  · rw [sniffTcpPrefix_eq fits, sniff_horizon fits usize, shape, sniffLoop_decided quiet decides]
    exact if_neg fun both => decides (.inr both.1)
  · intro kept
    rcases @agrees parsers _ _ destinationPort fits usize protocol with ⟨held, -⟩ | ⟨-, same | ⟨-, -, wide, -⟩⟩
    · exact absurd held kept
    · rw [sniff, if_neg (Nat.not_lt.mpr fits), shape, same]
      exact sniffLoop_decided plainQuiet (same ▸ decides) false
    · exact absurd (.inr wide) decides

end

/-- A final answer of the collecting parse is the one of the strict parse. A match of the strict parse
is the answer of the collecting one as well, except that it waits for more when a protocol in front of
the match is withheld. -/
theorem sniffTcpPrefix_agrees (parsers : Parsers) {bytes : List UInt8} {maxBytes : Nat} (destinationPort : U16)
    (order : List Protocol) (fits : bytes.length ≤ maxBytes) (usize : maxBytes < 2 ^ 64) :
    (parsers.sniffTcpPrefix bytes maxBytes destinationPort order ≠ .needMore →
      parsers.sniffTcpPrefix bytes maxBytes destinationPort order = parsers.sniff bytes maxBytes .tcp destinationPort order) ∧
    ∀ metadata, parsers.sniff bytes maxBytes .tcp destinationPort order = .matched metadata →
      (parsers.sniffTcpPrefix bytes maxBytes destinationPort order = .matched metadata ∨
        parsers.sniffTcpPrefix bytes maxBytes destinationPort order = .needMore) ∧
      (parsers.sniffTcpPrefix bytes maxBytes destinationPort order = .needMore ↔
        ∃ before protocol after, order = before ++ protocol :: after ∧
          parsers.Withheld bytes maxBytes destinationPort protocol ∧
          ∀ earlier ∈ before, ∀ other, parsers.inspect bytes maxBytes .tcp destinationPort earlier ≠ .matched other) := by
  have final : parsers.sniffTcpPrefix bytes maxBytes destinationPort order ≠ .needMore →
      parsers.sniffTcpPrefix bytes maxBytes destinationPort order =
        parsers.sniff bytes maxBytes .tcp destinationPort order := by
    intro final
    rcases quiet_or_decided (parsers.inspect bytes (saturatingAdd maxBytes 1) .tcp destinationPort) order with
      quiet | ⟨before, protocol, after, shape, quiet, decides⟩
    · exact sniffTcpPrefix_quiet fits usize quiet
    · obtain ⟨collected, strict⟩ := sniffTcpPrefix_decided fits usize shape quiet decides
      refine collected.trans (strict ?_).symm
      intro held
      rcases @agrees parsers _ _ destinationPort fits usize protocol with ⟨-, -, waits⟩ | ⟨kept, -⟩
      · exact final (collected.trans waits)
      · exact kept held
  refine ⟨final, fun metadata found => ⟨?_, ?_, ?_⟩⟩
  · by_cases waits : parsers.sniffTcpPrefix bytes maxBytes destinationPort order = .needMore
    · exact .inr waits
    · exact .inl ((final waits).trans found)
  · intro waits
    rcases quiet_or_decided (parsers.inspect bytes (saturatingAdd maxBytes 1) .tcp destinationPort) order with
      quiet | ⟨before, protocol, after, shape, quiet, decides⟩
    · have same := sniffTcpPrefix_quiet fits usize quiet
      rw [waits, found] at same
      cases same
    · obtain ⟨collected, strict⟩ := sniffTcpPrefix_decided fits usize shape quiet decides
      refine ⟨before, protocol, after, shape, ?_, ?_⟩
      · by_contra kept
        have same := strict kept
        rw [found, ← collected, waits] at same
        cases same
      · intro earlier member other matched
        rcases quiet_of_wide fits usize (quiet earlier member) with bad | bad <;> · rw [matched] at bad; cases bad
  · rintro ⟨before, protocol, after, shape, held, unmatched⟩
    have waits : parsers.inspect bytes (saturatingAdd maxBytes 1) .tcp destinationPort protocol = .needMore := by
      rcases @agrees parsers _ _ destinationPort fits usize protocol with ⟨-, -, waits⟩ | ⟨kept, -⟩
      · exact waits
      · exact absurd held kept
    have wideUnmatched : ∀ earlier ∈ before, ∀ other,
        parsers.inspect bytes (saturatingAdd maxBytes 1) .tcp destinationPort earlier ≠ .matched other := by
      intro earlier member other matched
      rcases @agrees parsers _ _ destinationPort fits usize earlier with ⟨-, -, bad⟩ | ⟨-, same | ⟨-, -, bad, -⟩⟩
      · rw [matched] at bad
        cases bad
      · exact unmatched earlier member other (same ▸ matched)
      · rw [matched] at bad
        cases bad
    rw [sniffTcpPrefix_eq fits, sniff_horizon fits usize, shape, sniffLoop_needMore wideUnmatched waits]
    rfl

/-- Parsers that see a request without a host, and no DNS or TLS. -/
def requestParsers : Parsers where
  readHeader _ := none
  readMessage _ := none
  State := Unit
  acceptor := ()
  readTls _ _ := none
  accept _ := .failed
  parseRequest _ := .complete none

/-- `GET / HTTP/1.1`, an empty line. -/
def requestBytes : List UInt8 := [71, 69, 84, 32, 47, 32, 72, 84, 84, 80, 47, 49, 46, 49, 13, 10, 13, 10]

theorem sniffTcpPrefix_agrees_request :
    requestParsers.sniffTcpPrefix requestBytes 4096 80 [.tls, .http] = .matched (.http none) :=
  ((sniffTcpPrefix_agrees requestParsers 80 [.tls, .http] (by decide) (by decide)).1 (by decide +kernel)).trans
    (by decide +kernel)

/-- Read as the length of a DNS frame, `GE` is 18245: one byte too long for the limit, so that the
request waits on the port of DNS. -/
theorem requestBytes_withheld :
    requestBytes.length ≤ 18246 ∧
    requestParsers.sniff requestBytes 18246 .tcp 53 [.dns, .http] = .matched (.http none) ∧
    requestParsers.sniffTcpPrefix requestBytes 18246 53 [.dns, .http] = .needMore := by
  refine ⟨by decide, by decide +kernel, by decide +kernel⟩

end Parsers

end Ferrum.Sniff
