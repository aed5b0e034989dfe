import Mathlib.Tactic.IntervalCases
import Ferrum.Lib.Access
import Ferrum.Tun.PacketRewrite

namespace Ferrum.Tun

open PacketReject (new ofFragment ofControl)

/-! The parser with every access of the source checked. -/
namespace Checked

open Access (stuck reject readByte readSlice readFrom readU16)

def readIpv4 {ε : Type} (bytes : List UInt8) (i : Nat) : Access ε Ipv4Addr := do
  let a ← readByte bytes i
  let b ← readByte bytes (i + 1)
  let c ← readByte bytes (i + 2)
  let d ← readByte bytes (i + 3)
  return .new a b c d

/-- A slice of 16 bytes as an address, with the `expect` on its length. -/
def readIpv6 {ε : Type} (bytes : List UInt8) (i : Nat) : Access ε Ipv6Addr := do
  let octets ← readSlice bytes i (i + 16)
  if fixed : octets.length = 16 then return ⟨octets.toArray, fixed⟩ else stuck

def readU32 {ε : Type} (bytes : List UInt8) (i : Nat) : Access ε U32 := do
  let octets ← readSlice bytes i (i + 4)
  if octets.length = 4 then return u32At octets 0 else stuck

def optionsLoop (malformed : PacketRejectReason) (refused : UInt8 → Option PacketRejectReason) (options : List UInt8) :
    Nat → Nat → Access PacketRejectReason Unit
  | 0, _ => stuck
  | turns + 1, cursor =>
    if options.length ≤ cursor then pure ()
    else do
      let optionType ← readByte options cursor
      if optionType = 0 then
        let rest ← readFrom options (cursor + 1)
        if rest.any (· != 0) then reject malformed else pure ()
      else if optionType = 1 then optionsLoop malformed refused options turns (cursor + 1)
      else
        match options[cursor + 1]? with
        | none => reject malformed
        | some length =>
          if length.toNat < 2 ∨ options.length < cursor + length.toNat then reject malformed
          else
            match refused optionType with
            | some reason => reject reason
            | none => optionsLoop malformed refused options turns (cursor + length.toNat)

variable (options : List UInt8)

def validateIpv4Options : Access PacketRejectReason Unit :=
  optionsLoop .invalidIpv4Options (fun optionType =>
    if optionType = 131 ∨ optionType = 137 then some .sourceRouteOption else none) options (options.length + 1) 0

def validateTcpOptions : Access PacketRejectReason Unit :=
  optionsLoop .invalidTransport (fun _ => none) options (options.length + 1) 0

def ipv6OptionsLoop (options : List UInt8) : Nat → Nat → Access PacketRejectReason Unit
  | 0, _ => stuck
  | turns + 1, cursor =>
    if options.length ≤ cursor then pure ()
    else do
      let optionType ← readByte options cursor
      if optionType = 0 then ipv6OptionsLoop options turns (cursor + 1)
      else
        match options[cursor + 1]? with
        | none => reject .malformedExtension
        | some dataLen =>
          if options.length < cursor + 2 + dataLen.toNat then reject .malformedExtension
          else if optionType &&& 0b11000000 ≠ 0 then reject .malformedExtension
          else ipv6OptionsLoop options turns (cursor + 2 + dataLen.toNat)

def validateIpv6Options : Access PacketRejectReason Unit :=
  ipv6OptionsLoop options (options.length + 1) 0

def transportMetadata (protocol : UInt8) (transportOffset : Nat) (transport : List UInt8) (sourcePort destinationPort : U16) :
    Access PacketReject TransportMetadata :=
  if protocol = ipProtocolTcp then do
    rejectIf (transport.length < 20) (new .invalidTransport)
    let dataOffset ← readByte transport 12
    let headerLen := dataOffset.toNat >>> 4 * 4
    rejectIf (headerLen < 20 ∨ transport.length < headerLen) (new .invalidTransport)
    let options ← readSlice transport 20 headerLen
    (validateTcpOptions options).mapError new
    let flags ← readByte transport 13
    return .tcp ⟨sourcePort, destinationPort, headerLen, flags⟩
  else if protocol = ipProtocolUdp then do
    let udpLen ← readU16 transport 4
    rejectIf (udpLen.val < 8 ∨ udpLen.val ≠ transport.length) (new .invalidTransport)
    return .udp ⟨sourcePort, destinationPort, transportOffset + 8, udpLen.val - 8⟩
  else reject (new .unsupportedProtocol)

/-- The checksum field of the protocols that the dispatch before it lets through. -/
def checksumField (protocol : UInt8) (transport : List UInt8) : Access PacketReject U16 :=
  if protocol = ipProtocolTcp then readU16 transport 16
  else if protocol = ipProtocolUdp then readU16 transport 6
  else stuck

/-- The checksum, with the `expect` on the length. -/
def transportChecksum (source destination : IpAddr) (protocol : UInt8) (transport : List UInt8) : Access PacketReject U16 :=
  if transport.length < 2 ^ 32 then return Tun.transportChecksum source destination protocol transport else stuck

def validateTransport (source destination : IpAddr) (protocol : UInt8) (transportOffset : Nat) (transport : List UInt8) :
    Access PacketReject TransportMetadata := do
  rejectIf (transport.length < 8) (new .invalidTransport)
  let sourcePort ← readU16 transport 0
  let destinationPort ← readU16 transport 2
  rejectIf (sourcePort = 0 ∨ destinationPort = 0) (new .invalidTransport)
  let metadata ← transportMetadata protocol transportOffset transport sourcePort destinationPort
  let field ← checksumField protocol transport
  if protocol = ipProtocolUdp ∧ field = 0 then
    if source.isIpv4 then return metadata else reject (new .invalidTransportChecksum)
  else
    let checksum ← transportChecksum source destination protocol transport
    rejectIf (checksum ≠ 0) (new .invalidTransportChecksum)
    return metadata

section

variable (bytes : List UInt8)

def parseIpv4 (fragmentsAllowed : Bool) : Access PacketReject ParsedPacket := do
  rejectIf (bytes.length < 20) (new .invalidLength)
  let first ← readByte bytes 0
  rejectIf (first.toNat >>> 4 ≠ 4) (new .invalidLength)
  let ihlWords := first.toNat &&& 0x0f
  rejectIf (¬(5 ≤ ihlWords ∧ ihlWords ≤ 15)) (new .invalidLength)
  let headerLen := ihlWords * 4
  let total ← readU16 bytes 2
  rejectIf (bytes.length < headerLen ∨ total.val ≠ bytes.length ∨ total.val < headerLen) (new .invalidLength)
  let header ← readSlice bytes 0 headerLen
  rejectIf (internetChecksum [header] ≠ 0) (new .invalidHeaderChecksum)
  let options ← readSlice bytes 20 headerLen
  (validateIpv4Options options).mapError new
  let source ← readIpv4 bytes 12
  let destination ← readIpv4 bytes 16
  rejectIf (¬ipv4Unicast source) (new .invalidSource)
  rejectIf (¬ipv4Unicast destination) (new .invalidDestination)
  let protocol ← readByte bytes 9
  let identification ← readU16 bytes 4
  let key := FragmentKey.ipv4 ⟨source, destination, protocol, identification⟩
  let fragmentField ← readU16 bytes 6
  let reserved := fragmentField.val &&& 0x8000 ≠ 0
  let dontFragment := fragmentField.val &&& 0x4000 ≠ 0
  let moreFragments := decide (fragmentField.val &&& 0x2000 ≠ 0)
  let offset := (fragmentField.val &&& 0x1fff) * 8
  let fragmented := moreFragments ∨ offset ≠ 0
  rejectIf (reserved ∨ dontFragment ∧ fragmented) (ofFragment .invalidFragment key)
  if fragmented then
    liftM (parseIpv4Fragment source destination protocol key fragmentsAllowed moreFragments offset headerLen total.val)
  else
    let transport ← readFrom bytes headerLen
    if ¬(protocol = ipProtocolTcp ∨ protocol = ipProtocolUdp) then
      reject (unsupportedReject ⟨.ipv4, .v4 source, .v4 destination, protocol, 9, headerLen, total.val, false⟩ transport)
    else
      let metadata ← validateTransport (.v4 source) (.v4 destination) protocol headerLen transport
      return .complete ⟨.ipv4, .v4 source, .v4 destination, protocol, 9, headerLen, total.val, metadata⟩

def extensionOptions (state : ExtensionState) (extensionEnd : Nat) : Access PacketReject Unit :=
  if state.nextHeader = ipv6HopByHop ∨ state.nextHeader = ipv6DestinationOptions then do
    let options ← readSlice bytes (state.cursor + 2) extensionEnd
    (validateIpv6Options options).mapError new
  else pure ()

/-- The check of the segments left, which only a routing header has. -/
def segmentsLeft (state : ExtensionState) : Access PacketReject Unit :=
  if state.nextHeader = ipv6Routing then do
    let segments ← readByte bytes (state.cursor + 3)
    rejectIf (segments ≠ 0) (new .malformedExtension)
  else pure ()

def extensionHeader (totalLen : Nat) (state : ExtensionState) : Access PacketReject ExtensionState := do
  rejectIf (totalLen < state.cursor + 2) (new .malformedExtension)
  let recorded ← state.record
  let words ← readByte bytes (state.cursor + 1)
  let length := (words.toNat + 1) * 8
  let extensionEnd := state.cursor + length
  rejectIf (length < 8 ∨ totalLen < extensionEnd ∨ maxExtensionBytes < state.extensionBytes + length)
    (new .malformedExtension)
  extensionOptions bytes state extensionEnd
  segmentsLeft bytes state
  let nextHeader ← readByte bytes state.cursor
  return { recorded with
    extensionBytes := state.extensionBytes + length
    nextHeaderField := state.cursor
    nextHeader := nextHeader
    cursor := extensionEnd }

def fragmentHeader (totalLen : Nat) (source destination : Ipv6Addr) (fragmentsAllowed : Bool)
    (remaining : Nat) (state : ExtensionState) : Access PacketReject ParsedFragment := do
  let cursor := state.cursor
  rejectIf (remaining = 0 ∨ state.destinationAfterRouting ∨ totalLen < cursor + 8) (new .extensionLimit)
  rejectIf (maxExtensionBytes < state.extensionBytes + 8) (new .extensionLimit)
  let fragmentNext ← readByte bytes cursor
  let identification ← readU32 bytes (cursor + 4)
  let key := FragmentKey.ipv6 ⟨source, destination, fragmentNext, identification⟩
  rejectIf (¬fragmentsAllowed ∨ fragmentNext = ipv6Fragment ∨ fragmentNext = ipv6Esp ∨ fragmentNext = ipv6Ah ∨
    fragmentNext = ipv6NoNextHeader) (ofFragment .unsupportedProtocol key)
  let reserved ← readByte bytes (cursor + 1)
  rejectIf (reserved ≠ 0) (ofFragment .invalidFragment key)
  let offsetFlags ← readU16 bytes (cursor + 2)
  rejectIf (offsetFlags.val &&& 0x0006 ≠ 0) (ofFragment .invalidFragment key)
  let offset := (offsetFlags.val &&& 0xfff8) >>> 3 * 8
  let moreFragments := decide (offsetFlags.val &&& 1 ≠ 0)
  let payloadOffset := cursor + 8
  let payloadLen := totalLen - payloadOffset
  rejectIf (payloadLen = 0 ∨ moreFragments ∧ payloadLen % 8 ≠ 0) (ofFragment .invalidFragment key)
  rejectIf (maxReassembledPacket < offset + payloadLen) (ofFragment .invalidFragment key)
  return ⟨.ipv6, .v6 source, .v6 destination, fragmentNext, key, offset, moreFragments, payloadOffset, payloadLen,
    .ipv6 cursor state.nextHeaderField⟩

/-- The extension loop with its own turns beside the count of extension headers that it compares. -/
def extensionLoop (bytes : List UInt8) (totalLen : Nat) (source destination : Ipv6Addr) (fragmentsAllowed : Bool) :
    Nat → Nat → ExtensionState → Access PacketReject (ExtensionState ⊕ ParsedFragment)
  | 0, _, _ => stuck
  | turns + 1, extensionHeaders, state =>
    if state.isExtension then do
      rejectIf (extensionHeaders = maxExtensionHeaders) (new .extensionLimit)
      let next ← extensionHeader bytes totalLen state
      extensionLoop bytes totalLen source destination fragmentsAllowed turns (extensionHeaders + 1) next
    else if state.nextHeader = ipv6Fragment then do
      let fragment ← fragmentHeader bytes totalLen source destination fragmentsAllowed
        (maxExtensionHeaders - extensionHeaders) state
      return .inr fragment
    else if state.nextHeader = ipProtocolTcp ∨ state.nextHeader = ipProtocolUdp then return .inl state
    else do
      let transport ← readFrom bytes state.cursor
      reject (unsupportedReject ⟨.ipv6, .v6 source, .v6 destination, state.nextHeader, state.nextHeaderField, state.cursor,
        totalLen, false⟩ transport)

def parseIpv6 (fragmentsAllowed : Bool) : Access PacketReject ParsedPacket := do
  rejectIf (bytes.length < 40) (new .invalidLength)
  let first ← readByte bytes 0
  rejectIf (first.toNat >>> 4 ≠ 6) (new .invalidLength)
  let payloadLen ← readU16 bytes 4
  rejectIf (payloadLen.val = 0) (new .jumbogramUnsupported)
  let totalLen := 40 + payloadLen.val
  rejectIf (totalLen ≠ bytes.length ∨ maxReassembledPacket < totalLen) (new .invalidLength)
  let source ← readIpv6 bytes 8
  let destination ← readIpv6 bytes 24
  rejectIf (¬ipv6Unicast source) (new .invalidSource)
  rejectIf (¬ipv6Unicast destination) (new .invalidDestination)
  let nextHeader ← readByte bytes 6
  let ended ← extensionLoop bytes totalLen source destination fragmentsAllowed (maxExtensionHeaders + 1) 0 (.new nextHeader)
  match ended with
  | .inr fragment => return .fragment fragment
  | .inl state =>
    let transport ← readFrom bytes state.cursor
    let metadata ← validateTransport (.v6 source) (.v6 destination) state.nextHeader state.cursor transport
    return .complete ⟨.ipv6, .v6 source, .v6 destination, state.nextHeader, state.nextHeaderField, state.cursor, totalLen,
      metadata⟩

end

def parseWithFragments (parser : PacketParser) (bytes : List UInt8) (fragmentsAllowed : Bool) :
    Access PacketReject ParsedPacket :=
  match bytes.head? with
  | none => reject (new .empty)
  | some first =>
    let version := first >>> 4
    if version = 4 ∧ parser.families.ipv4 then parseIpv4 bytes fragmentsAllowed
    else if version = 6 ∧ parser.families.ipv6 then parseIpv6 bytes fragmentsAllowed
    else if version = 4 ∨ version = 6 then reject (new .disabledFamily)
    else reject (new .invalidVersion)

open Access (Total)

theorem u16At_val (bytes : List UInt8) (i : Nat) : (u16At bytes i).val = be16 bytes i := rfl

section

variable {ε : Type} {bytes : List UInt8} {i : Nat}

theorem readIpv4_total (inside : i + 4 ≤ bytes.length) : (readIpv4 bytes i : Access ε Ipv4Addr).Total (.ok (ipv4At bytes i)) := by
  refine (Total.readByte (by omega)).read ((Total.readByte (by omega)).read
    ((Total.readByte (by omega)).read ((Total.readByte (by omega)).read ?_)))
  refine congrArg (fun address => some (Except.ok address)) (ipv4At_eq fun k bound => ?_).symm
  interval_cases k <;> rfl

theorem readIpv6_total (inside : i + 16 ≤ bytes.length) : (readIpv6 bytes i : Access ε Ipv6Addr).Total (.ok (ipv6At bytes i)) := by
  have length : (slice bytes i (i + 16)).length = 16 := by
    rw [length_slice]
    omega
  refine (Total.readSlice (by omega) inside).read ?_
  rw [dif_pos length]
  refine congrArg (fun address => some (Except.ok address)) (Vector.toList_inj.mp ?_)
  rw [ipv6At_toList inside]
  rfl

theorem readU32_total (inside : i + 4 ≤ bytes.length) : (readU32 bytes i : Access ε U32).Total (.ok (u32At bytes i)) := by
  have length : (slice bytes i (i + 4)).length = 4 := by
    rw [length_slice]
    omega
  refine (Total.readSlice (by omega) inside).read ?_
  rw [if_pos length]
  refine congrArg (fun word => some (Except.ok word)) (Fin.ext ?_)
  change be16 _ 0 * 65536 + be16 _ 2 = be16 _ i * 65536 + be16 _ (i + 2)
  simp only [be16, byteAt_eq]
  rw [byte_slice (by omega), byte_slice (by omega), byte_slice (by omega), byte_slice (by omega)]
  rfl

end

variable {turns cursor remaining extensionHeaders : Nat}

theorem optionsLoop_total {malformed : PacketRejectReason} {refused : UInt8 → Option PacketRejectReason}
    {options : List UInt8} (within : cursor ≤ options.length) (enough : options.length < cursor + turns) :
    (optionsLoop malformed refused options turns cursor).Total (Tun.optionsLoop malformed refused options turns cursor) := by
  induction turns generalizing cursor with
  | zero => omega
  | succ turns ih =>
    rw [optionsLoop, Tun.optionsLoop]
    by_cases ended : options.length ≤ cursor
    · rw [if_pos ended, if_pos ended]
      exact .pure ()
    · rw [if_neg ended, if_neg ended]
      refine (Total.readByte (by omega)).read ?_
      by_cases zero : byte options cursor = 0
      · rw [if_pos zero, if_pos zero]
        refine (Total.readFrom (by omega)).read ?_
        split
        · exact Total.reject malformed
        · exact .pure ()
      · rw [if_neg zero, if_neg zero]
        by_cases one : byte options cursor = 1
        · rw [if_pos one, if_pos one]
          exact ih (by omega) (by omega)
        · rw [if_neg one, if_neg one]
          cases options[cursor + 1]? with
          | none => exact .reject malformed
          | some length =>
            dsimp only
            by_cases short : length.toNat < 2 ∨ options.length < cursor + length.toNat
            · rw [if_pos short, if_pos short]
              exact .reject malformed
            · rw [if_neg short, if_neg short]
              cases refused (byte options cursor) with
              | none => exact ih (by omega) (by omega)
              | some reason => exact .reject reason

theorem ipv6OptionsLoop_total {options : List UInt8} (within : cursor ≤ options.length)
    (enough : options.length < cursor + turns) :
    (ipv6OptionsLoop options turns cursor).Total (Tun.ipv6OptionsLoop options turns cursor) := by
  induction turns generalizing cursor with
  | zero => omega
  | succ turns ih =>
    rw [ipv6OptionsLoop, Tun.ipv6OptionsLoop]
    by_cases ended : options.length ≤ cursor
    · rw [if_pos ended, if_pos ended]
      exact .pure ()
    · rw [if_neg ended, if_neg ended]
      refine (Total.readByte (by omega)).read ?_
      by_cases zero : byte options cursor = 0
      · rw [if_pos zero, if_pos zero]
        exact ih (by omega) (by omega)
      · rw [if_neg zero, if_neg zero]
        cases options[cursor + 1]? with
        | none => exact .reject _
        | some dataLen =>
          dsimp only
          by_cases short : options.length < cursor + 2 + dataLen.toNat
          · rw [if_pos short, if_pos short]
            exact .reject _
          · rw [if_neg short, if_neg short]
            by_cases action : byte options cursor &&& 0b11000000 ≠ 0
            · rw [if_pos action, if_pos action]
              exact .reject _
            · rw [if_neg action, if_neg action]
              exact ih (by omega) (by omega)

theorem validateIpv4Options_total :
    (validateIpv4Options options).Total (Tun.validateIpv4Options options) := optionsLoop_total (Nat.zero_le _) (by omega)

theorem validateTcpOptions_total :
    (validateTcpOptions options).Total (Tun.validateTcpOptions options) := optionsLoop_total (Nat.zero_le _) (by omega)

theorem validateIpv6Options_total :
    (validateIpv6Options options).Total (Tun.validateIpv6Options options) := ipv6OptionsLoop_total (Nat.zero_le _) (by omega)

variable {protocol : UInt8} {offset : Nat} {transport : List UInt8}

theorem transportMetadata_total (long : 8 ≤ transport.length) :
    (transportMetadata protocol offset transport (u16At transport 0) (u16At transport 2)).Total
      (Tun.transportMetadata protocol offset transport) := by
  unfold transportMetadata Tun.transportMetadata
  by_cases tcp : protocol = ipProtocolTcp
  · rw [if_pos tcp, if_pos tcp]
    refine Total.unless fun whole => ?_
    refine (Total.readByte (by omega)).read ?_
    rw [← byteAt_eq]
    refine Total.unless fun header => ?_
    refine (Total.readSlice (by omega) (by omega)).read ?_
    refine (Total.mapError new (validateTcpOptions_total _)).bind fun _ _ => ?_
    exact (Total.readByte (by omega)).read (Total.pure _)
  · rw [if_neg tcp, if_neg tcp]
    by_cases udp : protocol = ipProtocolUdp
    · rw [if_pos udp, if_pos udp]
      refine (Total.readU16 (by omega)).read ?_
      exact Total.unless fun _ => Total.pure _
    · rw [if_neg udp, if_neg udp]
      exact .reject _

theorem transportMetadata_protocol {metadata : TransportMetadata}
    (found : Tun.transportMetadata protocol offset transport = .ok metadata) :
    protocol = ipProtocolTcp ∧ 20 ≤ transport.length ∨ protocol = ipProtocolUdp := by
  unfold Tun.transportMetadata at found
  split at found
  · rename_i tcp
    simp only [bind_eq_ok, rejectIf_eq_ok, exists_const] at found
    exact .inl ⟨tcp, by omega⟩
  · split at found
    · rename_i udp
      exact .inr udp
    · cases found

theorem validateTransport_total {source destination : IpAddr} (small : transport.length < 2 ^ 32) :
    (validateTransport source destination protocol offset transport).Total
      (Tun.validateTransport source destination protocol offset transport) := by
  unfold validateTransport Tun.validateTransport
  refine Total.unless fun long => ?_
  refine (Total.readU16 (by omega)).read ((Total.readU16 (by omega)).read ?_)
  refine Total.unless fun ports => ?_
  refine (transportMetadata_total (by omega)).bind fun metadata found => ?_
  have summed : (transportChecksum source destination protocol transport).Total
      (.ok (Tun.transportChecksum source destination protocol transport)) := by
    unfold transportChecksum
    rw [if_pos small]
    rfl
  rcases transportMetadata_protocol found with ⟨rfl, whole⟩ | rfl
  · have plain {value : Prop} : ¬(ipProtocolTcp = ipProtocolUdp ∧ value) := fun both => absurd both.1 (by decide)
    have field : (checksumField ipProtocolTcp transport).Total (.ok (u16At transport 16)) := .readU16 (by omega)
    refine field.read ?_
    rw [if_neg plain, if_neg plain]
    exact summed.read (.unless fun _ => .pure metadata)
  · have field : (checksumField ipProtocolUdp transport).Total (.ok (u16At transport 6)) := .readU16 (by omega)
    refine field.read ?_
    by_cases omitted : be16 transport 6 = 0
    · have here : ipProtocolUdp = ipProtocolUdp ∧ u16At transport 6 = 0 := ⟨rfl, Fin.ext omitted⟩
      have same : ipProtocolUdp = ipProtocolUdp ∧ be16 transport 6 = 0 := ⟨rfl, omitted⟩
      rw [if_pos here, if_pos same]
      split
      · exact .pure metadata
      · exact .reject _
    · have here : ¬(ipProtocolUdp = ipProtocolUdp ∧ u16At transport 6 = 0) := fun both => omitted (congrArg Fin.val both.2)
      have same : ¬(ipProtocolUdp = ipProtocolUdp ∧ be16 transport 6 = 0) := fun both => omitted both.2
      rw [if_neg here, if_neg same]
      exact summed.read (.unless fun _ => .pure metadata)

variable {bytes : List UInt8}

theorem parseIpv4_total (allowed : Bool) : (parseIpv4 bytes allowed).Total (Tun.parseIpv4 bytes allowed) := by
  unfold parseIpv4 Tun.parseIpv4
  rw [rejectIf_or]
  refine Total.unless fun long => ?_
  refine (Total.readByte (by omega)).read ?_
  rw [← byteAt_eq]
  refine Total.unless fun version => ?_
  refine Total.unless fun words => ?_
  refine (Total.readU16 (by omega)).read ?_
  refine Total.unless fun lengths => ?_
  rw [u16At_val] at lengths ⊢
  refine (Total.readSlice (by omega) (by omega)).read ?_
  refine Total.unless fun _ => ?_
  refine (Total.readSlice (by omega) (by omega)).read ?_
  refine (Total.mapError new (validateIpv4Options_total _)).bind fun _ _ => ?_
  refine (readIpv4_total (by omega)).read ((readIpv4_total (by omega)).read ?_)
  refine Total.unless fun _ => ?_
  refine Total.unless fun _ => ?_
  refine (Total.readByte (by omega)).read ((Total.readU16 (by omega)).read ((Total.readU16 (by omega)).read ?_))
  refine Total.unless fun _ => ?_
  refine Total.ite (fun _ => Total.lift _) fun _ => ?_
  refine (Total.readFrom (by omega)).read (Total.ite (fun _ => Total.reject _) fun _ => ?_)
  refine (validateTransport_total ?_).bind fun metadata _ => Total.pure _
  have small := be16_lt bytes 2
  rw [List.length_drop]
  omega

variable {state : ExtensionState}

theorem extensionOptions_total {extensionEnd : Nat} (order : state.cursor + 2 ≤ extensionEnd)
    (inside : extensionEnd ≤ bytes.length) :
    (extensionOptions bytes state extensionEnd).Total (Tun.extensionOptions bytes state extensionEnd) :=
  Total.ite (fun _ => (Total.readSlice order inside).read (Total.mapError new (validateIpv6Options_total _)))
    fun _ => Total.pure ()

theorem segmentsLeft_total (inside : state.cursor + 3 < bytes.length) : (segmentsLeft bytes state).Total
      (rejectIf (state.nextHeader = ipv6Routing ∧ byte bytes (state.cursor + 3) ≠ 0) (new .malformedExtension)) := by
  unfold segmentsLeft
  by_cases routing : state.nextHeader = ipv6Routing
  · rw [if_pos routing]
    refine (Total.readByte inside).read ?_
    have same : rejectIf (state.nextHeader = ipv6Routing ∧ byte bytes (state.cursor + 3) ≠ 0) (new .malformedExtension) =
        rejectIf (byte bytes (state.cursor + 3) ≠ 0) (new .malformedExtension) := by
      unfold rejectIf
      simp only [routing, true_and]
    rw [same]
    exact .lift _
  · rw [if_neg routing, rejectIf, if_neg fun both => routing both.1]
    exact .pure ()

theorem extensionHeader_total (state : ExtensionState) :
    (extensionHeader bytes bytes.length state).Total (Tun.extensionHeader bytes bytes.length state) := by
  unfold extensionHeader Tun.extensionHeader
  refine Total.unless fun room => ?_
  refine (Total.lift _).bind fun recorded _ => ?_
  refine (Total.readByte (by omega)).read ?_
  rw [← byteAt_eq]
  refine .unless fun lengths => ?_
  refine (extensionOptions_total (by omega) (by omega)).bind fun _ _ => ?_
  refine (segmentsLeft_total (by omega)).bind fun _ _ => ?_
  exact (Total.readByte (by omega)).read (Total.pure _)

variable (source destination : Ipv6Addr)

theorem fragmentHeader_total (allowed : Bool) (remaining : Nat) (state : ExtensionState) :
    (fragmentHeader bytes bytes.length source destination allowed remaining state).Total
      (Tun.fragmentHeader bytes bytes.length source destination allowed remaining state) := by
  unfold fragmentHeader Tun.fragmentHeader
  refine .unless fun room => ?_
  refine Total.unless fun _ => ?_
  refine (Total.readByte (by omega)).read ((readU32_total (by omega)).read ?_)
  refine Total.unless fun _ => ?_
  refine (Total.readByte (by omega)).read (Total.unless fun _ => ?_)
  refine (Total.readU16 (by omega)).read ?_
  refine Total.unless fun _ => ?_
  refine Total.unless fun _ => ?_
  exact .unless fun _ => .pure _

theorem extensionLoop_plain (allowed : Bool)
    (count : extensionHeaders + remaining = maxExtensionHeaders) (inside : state.cursor ≤ bytes.length)
    (plain : ¬state.isExtension) :
    (extensionLoop bytes bytes.length source destination allowed (remaining + 1) extensionHeaders state).Total
      (Tun.extensionLoop bytes bytes.length source destination allowed remaining state) := by
  have left : maxExtensionHeaders - extensionHeaders = remaining := by omega
  rw [extensionLoop, Tun.extensionLoop.eq_def]
  dsimp only
  rw [if_neg plain, if_neg plain, left]
  refine .ite (fun _ => ?_) fun _ => ?_
  · exact (fragmentHeader_total source destination allowed remaining state).bind fun fragment _ => .pure _
  · refine Total.ite (fun _ => Total.pure _) fun _ => ?_
    exact (Total.readFrom inside).read (Total.reject _)

theorem extensionLoop_total (allowed : Bool)
    (count : extensionHeaders + remaining = maxExtensionHeaders) (inside : state.cursor ≤ bytes.length) :
    (extensionLoop bytes bytes.length source destination allowed (remaining + 1) extensionHeaders state).Total
      (Tun.extensionLoop bytes bytes.length source destination allowed remaining state) := by
  induction remaining generalizing extensionHeaders state with
  | zero =>
    by_cases extension : state.isExtension
    · have all : extensionHeaders = maxExtensionHeaders := count
      rw [extensionLoop, Tun.extensionLoop.eq_def]
      dsimp only
      rw [if_pos extension, if_pos extension, rejectIf, if_pos all]
      rfl
    · exact extensionLoop_plain source destination allowed count inside extension
  | succ remaining ih =>
    by_cases extension : state.isExtension
    · have few : ¬extensionHeaders = maxExtensionHeaders := by omega
      rw [extensionLoop, Tun.extensionLoop.eq_def]
      dsimp only
      rw [if_pos extension, if_pos extension, rejectIf, if_neg few]
      refine (extensionHeader_total state).bind fun next turn => ih (by omega) ?_
      exact (extensionHeader_cursor turn).2
    · exact extensionLoop_plain source destination allowed count inside extension

theorem parseIpv6_total (allowed : Bool) : (parseIpv6 bytes allowed).Total (Tun.parseIpv6 bytes allowed) := by
  unfold parseIpv6 Tun.parseIpv6
  rw [rejectIf_or]
  refine Total.unless fun long => ?_
  refine (Total.readByte (by omega)).read ?_
  rw [← byteAt_eq]
  refine Total.unless fun version => ?_
  refine (Total.readU16 (by omega)).read ?_
  refine Total.unless fun payload => ?_
  refine Total.unless fun lengths => ?_
  refine (readIpv6_total (by omega)).read ((readIpv6_total (by omega)).read ?_)
  refine Total.unless fun _ => ?_
  refine Total.unless fun _ => ?_
  refine (Total.readByte (by omega)).read ?_
  rw [u16At_val] at lengths ⊢
  have total : 40 + be16 bytes 4 = bytes.length := by omega
  rw [total]
  refine (extensionLoop_total _ _ allowed rfl (by simp [ExtensionState.new]; omega)).bind fun ended found => ?_
  cases ended with
  | inr fragment => exact Total.pure _
  | inl state =>
    have inside := (extensionLoop_cursor found).2 (by simp [ExtensionState.new]; omega)
    refine (Total.readFrom inside).read ((validateTransport_total ?_).bind fun metadata _ => Total.pure _)
    have small := be16_lt bytes 4
    rw [List.length_drop]
    omega

theorem parseWithFragments_total (parser : PacketParser) (bytes : List UInt8) (allowed : Bool) :
    (parseWithFragments parser bytes allowed).Total (parser.parseWithFragments bytes allowed) := by
  unfold parseWithFragments PacketParser.parseWithFragments
  cases bytes.head? with
  | none => exact Total.reject _
  | some first =>
    refine .ite (fun _ => parseIpv4_total allowed) fun _ => ?_
    refine .ite (fun _ => parseIpv6_total allowed) fun _ => ?_
    exact .ite (fun _ => .reject _) fun _ => .reject _

end Checked

end Ferrum.Tun
