import Ferrum.Shadowsocks.UdpWire

namespace Ferrum.Shadowsocks

open List Checked Core Crypto

theorem ipv6At_toList (address : Tun.Ipv6Addr) : Tun.ipv6At address.toList 0 = address := by
  refine Vector.ext ?_
  intro i within
  simp [Tun.ipv6At, byte]

variable {port : U16}

theorem validateTarget_ipv4 (first second third fourth : UInt8) (nonzero : port ≠ 0) (rest : List UInt8) :
    validateTarget ([ipv4Atyp, first, second, third, fourth] ++ port.toBeBytes ++ rest) =
      .ok (.ip ⟨.v4 (.new first second third fourth), port⟩, 7) := by
  have long : ¬(rest.length + 1 + 1 + 1 + 1 + 1 + 1 + 1 < 7) := by omega
  simp [validateTarget, okOr, index, failIf, expect, bind, Except.bind, pure, Except.pure, U16.toBeBytes, ipv4Atyp,
    U16.fromBeBytes_toBeBytes port, nonzero, long]

theorem validateTarget_ipv6 (address : Tun.Ipv6Addr) (nonzero : port ≠ 0) (rest : List UInt8) :
    validateTarget (ipv6Atyp :: address.toList ++ port.toBeBytes ++ rest) = .ok (.ip ⟨.v6 address, port⟩, 19) := by
  have width : address.toList.length = 16 := address.size_toArray
  let bytes := ipv6Atyp :: address.toList ++ port.toBeBytes ++ rest
  have long : ¬bytes.length < 19 := by
    simp only [bytes, length_append, length_cons, width, U16.length_toBeBytes]
    omega
  have octets : @slicing DetectionReason bytes 1 17 = .ok address.toList :=
    slicing_append [ipv6Atyp] _ (port.toBeBytes ++ rest) (by simp [bytes]) rfl (by rw [width])
  have high : @index DetectionReason _ bytes 17 = .ok (UInt8.ofNat (port.val / 256)) :=
    index_append (ipv6Atyp :: address.toList) (UInt8.ofNat (port.val % 256) :: rest)
      (by simp [bytes, U16.toBeBytes]) (by rw [length_cons, width])
  have low : @index DetectionReason _ bytes 18 = .ok (UInt8.ofNat (port.val % 256)) :=
    index_append (ipv6Atyp :: address.toList ++ [UInt8.ofNat (port.val / 256)]) rest
      (by simp [bytes, U16.toBeBytes]) (by rw [length_append, length_cons, width]; rfl)
  change validateTarget bytes = _
  have head : bytes.head? = some ipv6Atyp := rfl
  unfold validateTarget
  simp only [head, okOr, bind, Except.bind, pure, Except.pure, failIf, if_neg long, octets, high, low, assert, width, if_true,
    U16.fromBeBytes_toBeBytes, if_neg nonzero, ipv6At_toList]
  rfl

theorem validateTarget_domain (name : DomainName) (nonzero : port ≠ 0) (rest : List UInt8) :
    validateTarget (domainAtyp :: UInt8.ofNat name.original.length :: name.original ++ port.toBeBytes ++ rest) =
      .ok (.domain name.original port, 4 + name.original.length) := by
  have bounded : name.original.length ≤ 255 := name.bounded
  have width : (UInt8.ofNat name.original.length).toNat = name.original.length := by
    rw [UInt8.toNat_ofNat']
    omega
  let bytes := domainAtyp :: UInt8.ofNat name.original.length :: name.original ++ port.toBeBytes ++ rest
  have long : ¬bytes.length < 2 + name.original.length + 2 := by
    simp only [bytes, length_append, length_cons, U16.length_toBeBytes]
    omega
  have host : @slicing DetectionReason bytes 2 (2 + name.original.length) = .ok name.original :=
    slicing_append [domainAtyp, UInt8.ofNat name.original.length] _ (port.toBeBytes ++ rest)
      (by simp [bytes]) rfl rfl
  have portBytes : @slicing DetectionReason bytes (2 + name.original.length) (2 + name.original.length + 2) =
      .ok port.toBeBytes :=
    slicing_append (domainAtyp :: UInt8.ofNat name.original.length :: name.original) _ rest rfl
      (by simp only [length_cons]; omega) rfl
  change validateTarget bytes = _
  have head : bytes.head? = some domainAtyp := rfl
  have second : bytes[1]? = some (UInt8.ofNat name.original.length) := rfl
  have high : @index DetectionReason _ port.toBeBytes 0 = .ok (UInt8.ofNat (port.val / 256)) := rfl
  have low : @index DetectionReason _ port.toBeBytes 1 = .ok (UInt8.ofNat (port.val % 256)) := rfl
  have checks : ¬(name.original = [] ∨ isAscii name.original = false ∨ port = 0) := by
    simp [name.nonempty, name.ascii, nonzero]
  unfold validateTarget
  simp only [head, second, okOr, bind, Except.bind, pure, Except.pure, failIf, width, if_neg long, host, portBytes, high, low,
    U16.fromBeBytes_toBeBytes, if_neg checks]
  rw [if_neg (by decide), if_neg (by decide), if_pos trivial]
  congr 2
  omega

theorem validateTarget_encodeTarget (target : TargetAddr) : ∃ address, encodeTarget target = .ok address ∧
    address.length = encodedTargetLen target ∧
    ∀ rest, ∃ validated, validateTarget (address ++ rest) = .ok (validated, encodedTargetLen target) ∧
      validated.Owns target := by
  obtain ⟨host, port, nonzero⟩ := target
  cases host with
  | ip ip =>
    cases ip with
    | v4 address =>
      obtain ⟨⟨octets⟩, width⟩ := address
      match octets, width with
      | [first, second, third, fourth], width =>
        exact ⟨_, rfl, rfl, fun rest => ⟨_, validateTarget_ipv4 first second third fourth nonzero rest, intoOwned_ip nonzero⟩⟩
    | v6 address =>
      exact ⟨_, rfl, by simp [encodedTargetLen], fun rest => ⟨_, validateTarget_ipv6 address nonzero rest, intoOwned_ip nonzero⟩⟩
  | domain name =>
    refine ⟨_, if_neg (not_lt.mpr name.bounded), ?_, fun rest =>
      ⟨_, validateTarget_domain name nonzero rest, intoOwned_domain name rfl nonzero⟩⟩
    simp only [encodedTargetLen, length_append, length_cons, U16.length_toBeBytes]
    omega

theorem maxUdpPayloadLen_eq_ok {profile : MethodProfile} {direction : PacketDirection} {target : TargetAddr}
    {paddingLen maxPayload : Nat} (budget : maxUdpPayloadLen profile direction target paddingLen = .ok maxPayload) :
    paddingLen ≤ 65535 ∧ maxPayload + (profile.udpWireOverheadBytes + (commonHeaderLen + direction.bindingLen + paddingLen +
      encodedTargetLen target)) = maxUdpWireLen := by
  unfold maxUdpPayloadLen maxUdpPayloadLenForEncodedTarget at budget
  obtain ⟨_, -, budget⟩ := bind_eq_ok.mp budget
  obtain ⟨_, padding, budget⟩ := bind_eq_ok.mp budget
  obtain ⟨_, fits, budget⟩ := bind_eq_ok.mp budget
  rw [rejectIf_eq_ok] at padding fits
  cases budget
  omega

variable (direction : PacketDirection)

@[simp] theorem length_binding : direction.binding.length = direction.bindingLen := by
  cases direction with
  | request => rfl
  | response binding => exact binding.width

/-- The bytes of a body in front of its padding. -/
def bodyFront (timestamp : U64) : List UInt8 :=
  direction.messageType :: timestamp.toBeBytes ++ direction.binding

theorem length_bodyFront (timestamp : U64) : (bodyFront direction timestamp).length = 9 + direction.bindingLen := by
  simp [bodyFront]
  omega

theorem encodeBody_eq {direction : PacketDirection} {timestamp : U64} {random : SecureRandom} {paddingLen : Nat}
    (short : paddingLen < 65536) (fills : paddingLen = 0 ∨ (random.fill paddingLen).isSome) (target : TargetAddr)
    {address : List UInt8} (encoded : encodeTarget target = .ok address) (payload : List UInt8) :
    ∃ padding, padding.length = paddingLen ∧ encodeBody direction timestamp random paddingLen target payload =
      .ok (bodyFront direction timestamp ++ U16.toBeBytes ⟨paddingLen, short⟩ ++ padding ++ address ++ payload) := by
  have width : U16.tryFrom paddingLen = some ⟨paddingLen, short⟩ := dif_pos short
  have filled : ∃ padding, padding.length = paddingLen ∧ fillPadding random paddingLen = .ok padding := by
    unfold fillPadding
    by_cases bare : paddingLen = 0
    · exact ⟨[], bare.symm, if_pos bare⟩
    · obtain ⟨padding, drawn⟩ := Option.isSome_iff_exists.mp (fills.resolve_left bare)
      refine ⟨padding, random.length_fill _ _ drawn, ?_⟩
      rw [if_neg bare, drawn]
      rfl
  obtain ⟨padding, length, filled⟩ := filled
  refine ⟨padding, length, ?_⟩
  unfold encodeBody
  rw [width, encoded, filled]
  simp [bodyFront, orError, bind, Except.bind, pure, Except.pure, Except.mapError]

theorem bindingEnd_eq {body rest : List UInt8} {direction : PacketDirection} {timestamp : U64}
    (shape : body = bodyFront direction timestamp ++ rest) :
    bindingEnd body 9 direction = .ok (9 + direction.bindingLen) := by
  cases direction with
  | request => rfl
  | response binding =>
    have width : binding.bytes.length = 8 := binding.width
    have found : getRange body 9 (9 + sessionIdLen) = some binding.bytes :=
      getRange_append (1 :: timestamp.toBeBytes) binding.bytes rest shape (by simp) (by rw [width]; rfl)
    have matched : binding.matchesWire binding.bytes = true := secretBytesEqual_iff.mpr rfl
    simp only [bindingEnd, found, okOr, bind, Except.bind, failIf, matched, Bool.true_eq_false, if_false]
    rfl

theorem parseBody_encodeBody {direction : PacketDirection} {timestamp now : U64} (near : absDiff now.val timestamp.val ≤ 30)
    {paddingLen : U16} {padding address payload : List UInt8} (padded : padding.length = paddingLen.val)
    {validated : ValidatedTarget} (valid : validateTarget (address ++ payload) = .ok (validated, address.length)) :
    parseBody (bodyFront direction timestamp ++ paddingLen.toBeBytes ++ padding ++ address ++ payload) (some now) direction =
      .ok (validated, (bodyFront direction timestamp ++ paddingLen.toBeBytes ++ padding ++ address).length) := by
  generalize built : bodyFront direction timestamp ++ paddingLen.toBeBytes ++ padding ++ address ++ payload = body
  have front := length_bodyFront direction timestamp
  have head : body.head? = some direction.messageType := by
    rw [← built]
    rfl
  have stamped : getRange body 1 (1 + timestampWidth) = some timestamp.toBeBytes :=
    getRange_append [direction.messageType] timestamp.toBeBytes
      (direction.binding ++ paddingLen.toBeBytes ++ padding ++ address ++ payload)
      (by rw [← built]; simp [bodyFront]) rfl (by rw [U64.length_toBeBytes]; rfl)
  have bound : bindingEnd body (1 + timestampWidth) direction = .ok (9 + direction.bindingLen) :=
    @bindingEnd_eq body (paddingLen.toBeBytes ++ padding ++ address ++ payload) direction timestamp
      (by rw [← built]; simp only [append_assoc])
  have wide : getRange body (9 + direction.bindingLen) (9 + direction.bindingLen + paddingWidth) = some paddingLen.toBeBytes :=
    getRange_append (bodyFront direction timestamp) paddingLen.toBeBytes (padding ++ address ++ payload)
      (by rw [← built]; simp only [append_assoc]) front rfl
  have whole : 9 + direction.bindingLen + paddingWidth + paddingLen.val + (address ++ payload).length = body.length := by
    rw [← built, ← padded]
    simp only [length_append, front, U16.length_toBeBytes, paddingWidth]
    omega
  have addressed : getRange body (9 + direction.bindingLen + paddingWidth + paddingLen.val) body.length =
      some (address ++ payload) :=
    getRange_append (bodyFront direction timestamp ++ paddingLen.toBeBytes ++ padding) (address ++ payload) []
      (by rw [← built]; simp only [append_assoc, append_nil])
      (by simp only [length_append, front, U16.length_toBeBytes, padded, paddingWidth]) whole
  have high : @index UdpPacketError _ paddingLen.toBeBytes 0 = .ok (UInt8.ofNat (paddingLen.val / 256)) := rfl
  have low : @index UdpPacketError _ paddingLen.toBeBytes 1 = .ok (UInt8.ofNat (paddingLen.val % 256)) := rfl
  unfold parseBody
  simp only [head, stamped, bound, wide, high, low, addressed, valid, okOr, failIf, assert, bind, Except.bind, pure, Except.pure,
    mapError, ne_eq, not_true_eq_false, if_false, if_true, U64.length_toBeBytes, U64.fromBeBytes_toBeBytes,
    U16.fromBeBytes_toBeBytes, if_neg (not_lt.mpr near)]
  simp only [length_append, front, U16.length_toBeBytes, padded, paddingWidth]

/-- One packet and its circumstances: the key of both ends, the identifiers, what it carries,
the clocks, the sources of randomness and the caller's buffers. -/
structure UdpExchange (primitives : UdpPrimitives) where
  key : MethodPskBytes
  sender : Nat
  receiver : Nat
  sessionId : UdpSessionId
  packetId : U64
  direction : PacketDirection
  target : TargetAddr
  payload : List UInt8
  paddingLen : Nat
  timestamp : U64
  now : U64
  paddingRandom : SecureRandom
  nonceRandom : SecureRandom
  output : List UInt8
  cache : UdpOpenCache primitives

namespace UdpExchange

variable {primitives : UdpPrimitives}

variable (exchange : UdpExchange primitives)

def encoder : UdpCrypto := .fromMethodKey primitives exchange.sender exchange.key

def opener : UdpCrypto := .fromMethodKey primitives exchange.receiver exchange.key

def predicted : Except UdpPacketError Nat :=
  udpWireLen exchange.encoder.profile exchange.direction exchange.target exchange.payload.length exchange.paddingLen

def encoded : UdpEncoding :=
  encodePacket exchange.encoder (exchange.encoder.sessionAt primitives exchange.sessionId exchange.packetId)
    (some exchange.timestamp) exchange.paddingRandom exchange.nonceRandom exchange.direction exchange.target exchange.payload
    exchange.paddingLen exchange.output .encrypts

def carried : OpenedPacket :=
  ⟨exchange.sessionId, exchange.packetId, ⟨exchange.target, exchange.payload⟩⟩

/-- The payload is within the budget of its target, and the clock and the sources of
randomness answer. -/
structure Admissible (exchange : UdpExchange primitives) : Prop where
  budget : ∃ maxPayload, exchange.payload.length ≤ maxPayload ∧
    maxUdpPayloadLen exchange.encoder.profile exchange.direction exchange.target exchange.paddingLen = .ok maxPayload
  padding : exchange.paddingLen = 0 ∨ (exchange.paddingRandom.fill exchange.paddingLen).isSome
  nonce : (exchange.nonceRandom.fill xchachaNonceBytes).isSome

/-- The packet is encoded at the predicted length, within the bound, whenever the output has
that length; and the other end recovers it while its clock is close. -/
def RoundTrips : Prop :=
  ∃ wireLen, exchange.predicted = .ok wireLen ∧ wireLen ≤ maxUdpWireLen ∧
    (wireLen ≤ exchange.output.length → exchange.encoded.result = .ok wireLen ∧
      (absDiff exchange.now.val exchange.timestamp.val ≤ 30 →
        openPacket exchange.opener (some exchange.now) (exchange.encoded.output.take wireLen) exchange.cache exchange.direction =
          .ok exchange.carried ∧
        ∃ opened after, openPacketBorrowed exchange.opener (some exchange.now) (exchange.encoded.output.take wireLen)
            exchange.cache exchange.direction = .ok (opened, after) ∧ materialize opened = .ok exchange.carried))

variable {maxPayload : Nat}

theorem predicted_eq {exchange : UdpExchange primitives} (within : exchange.payload.length ≤ maxPayload)
    (budget : maxUdpPayloadLen exchange.encoder.profile exchange.direction exchange.target exchange.paddingLen = .ok maxPayload) :
    exchange.predicted = .ok (maxUdpWireLen - (maxPayload - exchange.payload.length)) := by
  have fits := (maxUdpPayloadLen_eq_ok budget).2
  unfold predicted udpWireLen
  rw [budget]
  simp only [bind, Except.bind, rejectIf, if_neg (not_lt.mpr within), pure, Except.pure]
  rw [if_neg (by omega)]

theorem checks_eq {exchange : UdpExchange primitives} (within : exchange.payload.length ≤ maxPayload)
    (budget : maxUdpPayloadLen exchange.encoder.profile exchange.direction exchange.target exchange.paddingLen = .ok maxPayload)
    (room : maxUdpWireLen - (maxPayload - exchange.payload.length) ≤ exchange.output.length) :
    encodeChecks exchange.encoder.profile (some exchange.timestamp) exchange.direction exchange.target exchange.payload
      exchange.output exchange.paddingLen = .ok exchange.timestamp := by
  have fits := (maxUdpPayloadLen_eq_ok budget).2
  unfold encodeChecks
  rw [budget]
  simp only [bind, Except.bind, rejectIf, if_neg (not_lt.mpr within)]
  rw [if_neg (by omega)]
  rfl

theorem body_eq {exchange : UdpExchange primitives} (admissible : exchange.Admissible)
    (within : exchange.payload.length ≤ maxPayload)
    (budget : maxUdpPayloadLen exchange.encoder.profile exchange.direction exchange.target exchange.paddingLen = .ok maxPayload) :
    ∃ front, encodeBody exchange.direction exchange.timestamp exchange.paddingRandom exchange.paddingLen exchange.target
        exchange.payload = .ok (front ++ exchange.payload) ∧
      (front ++ exchange.payload).length + exchange.encoder.profile.udpWireOverheadBytes =
        maxUdpWireLen - (maxPayload - exchange.payload.length) ∧
      (absDiff exchange.now.val exchange.timestamp.val ≤ 30 → ∃ validated, validated.Owns exchange.target ∧
        parseBody (front ++ exchange.payload) (some exchange.now) exchange.direction = .ok (validated, front.length)) := by
  obtain ⟨short, fits⟩ := maxUdpPayloadLen_eq_ok budget
  obtain ⟨address, encodes, addressLength, reads⟩ := validateTarget_encodeTarget exchange.target
  obtain ⟨validated, valid, owns⟩ := reads exchange.payload
  rw [← addressLength] at valid
  obtain ⟨padding, paddingLength, built⟩ := @encodeBody_eq exchange.direction exchange.timestamp _ _ (by omega)
    admissible.padding exchange.target _ encodes exchange.payload
  refine ⟨_, built, ?_, fun near => ⟨validated, owns, parseBody_encodeBody near paddingLength valid⟩⟩
  simp only [length_append, length_bodyFront, U16.length_toBeBytes, paddingLength, addressLength]
  simp only [commonHeaderLen, timestampWidth, paddingWidth] at fits
  omega

variable {crypto : UdpCrypto} {now packetId : U64} {wire payload : List UInt8} {cache : UdpOpenCache primitives}
  {sessionId : UdpSessionId} {validated : ValidatedTarget}

theorem openPacketBorrowed_eq {front : List UInt8} {direction : PacketDirection} {opening : UdpOpening primitives}
    (bounded : wire.length ≤ maxUdpWireLen)
    (opened : crypto.openWithCache wire (List.replicate wire.length 0) cache = .ok opening)
    (recovers : opening.Recovers sessionId packetId (front ++ payload))
    (parsed : parseBody (front ++ payload) (some now) direction = .ok (validated, front.length)) :
    openPacketBorrowed crypto (some now) wire cache direction =
      .ok (⟨sessionId, packetId, validated, payload⟩, opening.cache) := by
  obtain ⟨result, body⟩ := recovers
  have range : @slicing UdpPacketError (front ++ payload) front.length (front ++ payload).length = .ok payload := by
    rw [slicing_of_le (by simp) (Nat.le_refl _), slice_append_right]
  unfold openPacketBorrowed
  simp only [failIf, if_neg (not_lt.mpr bounded), opened, mapError, bind, Except.bind, pure, Except.pure, result, body, parsed,
    range]

theorem openPacket_eq {after : UdpOpenCache primitives} {direction : PacketDirection} {target : TargetAddr}
    (borrowed : openPacketBorrowed crypto (some now) wire cache direction = .ok (⟨sessionId, packetId, validated, payload⟩, after))
    (owns : validated.Owns target) :
    openPacket crypto (some now) wire cache direction = .ok ⟨sessionId, packetId, ⟨target, payload⟩⟩ := by
  have owned : validated.intoOwned = .ok target := owns
  have whole : Datagram.new target payload payload.length = some ⟨target, payload⟩ := if_neg (Nat.lt_irrefl _)
  unfold openPacket
  simp only [borrowed, owned, whole, Checked.ofExcept, Except.mapError, mapError, okOr, bind, Except.bind, pure, Except.pure]

theorem roundTrips (opens : primitives.Opens) {exchange : UdpExchange primitives} (admissible : exchange.Admissible) :
    exchange.RoundTrips := by
  obtain ⟨maxPayload, within, budget⟩ := admissible.budget
  obtain ⟨front, built, length, parses⟩ := body_eq admissible within budget
  have bound : maxUdpWireLen = 65507 := rfl
  refine ⟨_, predicted_eq within budget, by omega, fun room => ?_⟩
  have owned : exchange.encoder = .fromMethodKey primitives exchange.sender exchange.key := rfl
  obtain ⟨sealing, sealed, result, wide, opens⟩ := sealUdp_opens opens exchange.key exchange.sender exchange.receiver
    exchange.sessionId exchange.packetId admissible.nonce owned length (by omega) room
  have encoding : exchange.encoded =
      ⟨sealing.outbound, sealing.output, .ok (maxUdpWireLen - (maxPayload - exchange.payload.length))⟩ := by
    unfold encoded encodePacket
    rw [checks_eq within budget room]
    simp only [built, sealed, result]
  rw [encoding]
  refine ⟨rfl, fun near => ?_⟩
  obtain ⟨validated, owns, parsed⟩ := parses near
  obtain ⟨opening, opened, recovers⟩ := opens (List.replicate (sealing.output.take _).length 0) exchange.cache (by
    rw [length_replicate, wide])
  have borrowed := openPacketBorrowed_eq (by rw [wide]; omega) opened recovers parsed
  exact ⟨openPacket_eq borrowed owns, _, _, borrowed, materialize_eq owns⟩

end UdpExchange

/-- UDP packets make the round trip at the predicted length, in both directions; and no byte
string makes opening, parsing or materialising it panic. -/
theorem udp_packets_round_trip {primitives : UdpPrimitives} (opens : primitives.Opens) :
    (∀ exchange : UdpExchange primitives, exchange.Admissible → exchange.RoundTrips) ∧
    ∀ (crypto : UdpCrypto) (clock : Option U64) (wire : List UInt8) (cache : UdpOpenCache primitives)
      (direction : PacketDirection), Safe (openPacket crypto clock wire cache direction) ∧
        Safe (openPacketBorrowed crypto clock wire cache direction) ∧
        ∀ opened after, openPacketBorrowed crypto clock wire cache direction = .ok (opened, after) → Safe (materialize opened) := by
  refine ⟨fun exchange admissible => UdpExchange.roundTrips opens admissible, ?_⟩
  intro crypto clock wire cache direction
  refine ⟨openPacket_safe crypto clock wire cache direction, openPacketBorrowed_safe crypto clock wire cache direction, ?_⟩
  intro opened after returned
  obtain ⟨owned, owns⟩ := openPacketBorrowed_owned returned
  rw [materialize_eq owns]
  exact safe_ok _

/-- A response of three bytes to the target `a.c:853`, with two bytes of padding. -/
def sampleExchange : UdpExchange samplePrimitives where
  key := .aes128 (List.replicate 16 4) rfl
  sender := 1
  receiver := 2
  sessionId := sampleSessionId
  packetId := 5
  direction := .response sampleSessionId
  target := ⟨.domain ⟨[97, 46, 99], by decide, by decide, by decide⟩, 853, by decide⟩
  payload := [1, 2, 3]
  paddingLen := 2
  timestamp := 1000
  now := 1030
  paddingRandom := sampleRandom
  nonceRandom := sampleRandom
  output := List.replicate 100 0
  cache := .empty

theorem sampleExchange_admissible : sampleExchange.Admissible where
  budget := ⟨65447, by decide, rfl⟩
  padding := Or.inr rfl
  nonce := rfl

theorem sampleExchange_round_trip :
    samplePrimitives.Opens ∧ sampleExchange.Admissible ∧ sampleExchange.predicted = .ok 63 ∧ sampleExchange.RoundTrips :=
  ⟨samplePrimitives_opens, sampleExchange_admissible, rfl,
    (udp_packets_round_trip samplePrimitives_opens).1 sampleExchange sampleExchange_admissible⟩

end Ferrum.Shadowsocks
