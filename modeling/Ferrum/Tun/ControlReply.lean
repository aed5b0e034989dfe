import Ferrum.Tun.ControlWriter
import Ferrum.Tun.PacketRejects

namespace Ferrum.Tun

open List SliceWriter

/-- A packet with this sender and receiver whose length fields and checksums are right. -/
def ControlPacket (reply : List UInt8) : IpAddr → IpAddr → Prop
  | .v4 sender, .v4 receiver => byte reply 0 = 0x45 ∧ byte reply 9 = ipProtocolIcmp ∧ be16 reply 2 = reply.length ∧
      slice reply 12 16 = sender.toList ∧ slice reply 16 20 = receiver.toList ∧
      internetChecksum [slice reply 0 20] = 0 ∧ internetChecksum [reply.drop 20] = 0
  | .v6 sender, .v6 receiver => byte reply 0 = 0x60 ∧ byte reply 6 = ipProtocolIcmpv6 ∧ 40 + be16 reply 4 = reply.length ∧
      slice reply 8 24 = sender.toList ∧ slice reply 24 40 = receiver.toList ∧
      transportChecksum (.v6 sender) (.v6 receiver) ipProtocolIcmpv6 (reply.drop 40) = 0
  | _, _ => False

def controlHeaderLen : IpFamily → Nat
  | .ipv4 => 28
  | .ipv6 => 48

def controlCode : IpFamily → LocalControlKind → Option (UInt8 × UInt8)
  | .ipv4 => icmpv4Code
  | .ipv6 => icmpv6Code

/-- What a control packet is to the packet that it answers. -/
structure ControlAnswer (original : List UInt8) (context : ControlContext) (kind : LocalControlKind) (mtu : Nat)
    (reply : List UInt8) : Prop where
  packet : ControlPacket reply context.destination context.source
  cap : reply.length ≤ mtu
  code : controlCode context.family kind = some (byte reply (controlHeaderLen context.family - 8),
    byte reply (controlHeaderLen context.family - 7))
  quote : ∃ count, reply.drop (controlHeaderLen context.family) = original.take count

section icmpv4

variable {total nextHop : U16} {icmpType code : UInt8} {source destination : Ipv4Addr} {quote : List UInt8}

theorem icmpv4Front_slices : slice (icmpv4Front total nextHop icmpType code source destination) 2 4 = total.toBeBytes ∧
    slice (icmpv4Front total nextHop icmpType code source destination) 12 16 = destination.toList ∧
    slice (icmpv4Front total nextHop icmpType code source destination) 16 20 = source.toList := by
  unfold icmpv4Front slice
  simp [U16.toBeBytes, take_append, take_of_length_le]

theorem icmpv4Front_bytes : byte (icmpv4Front total nextHop icmpType code source destination) 0 = 0x45 ∧
    byte (icmpv4Front total nextHop icmpType code source destination) 9 = ipProtocolIcmp ∧
    byte (icmpv4Front total nextHop icmpType code source destination) 20 = icmpType ∧
    byte (icmpv4Front total nextHop icmpType code source destination) 21 = code ∧
    be16 (icmpv4Front total nextHop icmpType code source destination) 10 = 0 ∧
    be16 (icmpv4Front total nextHop icmpType code source destination) 22 = 0 := by
  unfold icmpv4Front
  rw [eq_bytes4 destination.length_toList, eq_bytes4 source.length_toList]
  simp [byte, be16, byteAt, U16.toBeBytes]

theorem sealIpv4Header_sound {bytes : List UInt8} (long : 20 ≤ bytes.length) (zero : be16 bytes 10 = 0) :
    internetChecksum [slice (sealIpv4Header bytes) 0 20] = 0 ∧ (sealIpv4Header bytes).drop 20 = bytes.drop 20 ∧
      ∀ i, i < 10 ∨ 12 ≤ i → byte (sealIpv4Header bytes) i = byte bytes i := by
  have fits : 10 + (internetChecksum [slice bytes 0 20]).toBeBytes.length ≤ bytes.length := by
    rw [U16.length_toBeBytes]
    omega
  have front : (slice bytes 0 20).length = 20 := by
    rw [length_slice]
    omega
  refine ⟨?_, drop_copyFromSlice_outside (by rw [U16.length_toBeBytes]; omega) fits,
    fun i outside => byte_copyFromSlice_outside fits (by rw [U16.length_toBeBytes]; omega)⟩
  have head : slice (sealIpv4Header bytes) 0 20 =
      copyFromSlice (slice bytes 0 20) 10 (internetChecksum [slice bytes 0 20]).toBeBytes :=
    take_copyFromSlice (by rw [U16.length_toBeBytes]; omega) (by omega)
  have blank : be16 (slice bytes 0 20) 10 = 0 :=
    (be16_congr (byte_slice (show 0 + 10 < 20 by decide)) (byte_slice (show 0 + 11 < 20 by decide))).trans zero
  rw [head]
  exact internetChecksum_fill (by omega) (by decide) blank (by omega)

theorem sealIcmpv4_sound {blank : List UInt8} (long : 28 ≤ blank.length) (short : blank.length ≤ 65535)
    (header : be16 blank 10 = 0) (message : be16 blank 22 = 0) :
    internetChecksum [slice (sealIcmpv4 blank) 0 20] = 0 ∧ internetChecksum [(sealIcmpv4 blank).drop 20] = 0 ∧
      ∀ i, i < 10 ∨ 12 ≤ i ∧ i < 22 ∨ 24 ≤ i → byte (sealIcmpv4 blank) i = byte blank i := by
  have fits : 22 + (internetChecksum [blank.drop 20]).toBeBytes.length ≤ blank.length := by
    rw [U16.length_toBeBytes]
    omega
  have kept : ∀ i, i < 22 ∨ 24 ≤ i → byte (copyFromSlice blank 22 (internetChecksum [blank.drop 20]).toBeBytes) i = byte blank i :=
    fun i outside => byte_copyFromSlice_outside fits (by rw [U16.length_toBeBytes]; omega)
  have tail : (copyFromSlice blank 22 (internetChecksum [blank.drop 20]).toBeBytes).drop 20 =
      copyFromSlice (blank.drop 20) 2 (internetChecksum [blank.drop 20]).toBeBytes := drop_copyFromSlice (by omega) fits
  have size := length_copyFromSlice fits
  unfold sealIcmpv4
  generalize copyFromSlice blank 22 (internetChecksum [blank.drop 20]).toBeBytes = first at *
  have zero : be16 first 10 = 0 := (be16_congr (kept 10 (by omega)) (kept 11 (by omega))).trans header
  obtain ⟨headerSum, rest, others⟩ := sealIpv4Header_sound (show 20 ≤ first.length by omega) zero
  refine ⟨headerSum, ?_, fun i outside => (others i (by omega)).trans (kept i (by omega))⟩
  rw [rest, tail]
  exact internetChecksum_fill (by rw [length_drop]; omega) (by decide) ((be16_drop blank 20 2).trans message)
    (by rw [length_drop]; omega)

theorem sealIcmpv4_packet (length : total.val = 28 + quote.length) :
    ControlPacket (sealIcmpv4 (icmpv4Front total nextHop icmpType code source destination ++ quote)) (.v4 destination) (.v4 source) ∧
      byte (sealIcmpv4 (icmpv4Front total nextHop icmpType code source destination ++ quote)) 20 = icmpType ∧
      byte (sealIcmpv4 (icmpv4Front total nextHop icmpType code source destination ++ quote)) 21 = code ∧
      (sealIcmpv4 (icmpv4Front total nextHop icmpType code source destination ++ quote)).drop 28 = quote := by
  have small := total.isLt
  have front := @length_icmpv4Front total nextHop icmpType code source destination
  obtain ⟨sized, sender, receiver⟩ := @icmpv4Front_slices total nextHop icmpType code source destination
  obtain ⟨version, protocol, typed, coded, header, message⟩ := @icmpv4Front_bytes total nextHop icmpType code source destination
  generalize icmpv4Front total nextHop icmpType code source destination = headers at *
  have whole : (headers ++ quote).length = 28 + quote.length := by
    rw [length_append, front]
  have whole' := length_sealIcmpv4 (show 28 ≤ (headers ++ quote).length by omega)
  obtain ⟨headerSum, messageSum, kept⟩ := @sealIcmpv4_sound (headers ++ quote) (by omega) (by omega)
    ((be16_append_left (by omega)).trans header) ((be16_append_left (by omega)).trans message)
  have bytes : ∀ i, i < 10 ∨ 12 ≤ i ∧ i < 22 ∨ 24 ≤ i ∧ i < 28 → byte (sealIcmpv4 (headers ++ quote)) i = byte headers i := by
    intro i inside
    rw [kept i (by omega), byte_append, if_pos (by omega)]
  have slices : ∀ start stop, (12 ≤ start ∧ stop ≤ 22 ∨ stop ≤ 10) →
      slice (sealIcmpv4 (headers ++ quote)) start stop = slice headers start stop := by
    intro start stop inside
    rw [← slice_append_left quote (show stop ≤ headers.length by omega)]
    exact slice_congr whole' fun i above below => kept i (by omega)
  refine ⟨⟨(bytes 0 (by omega)).trans version, (bytes 9 (by omega)).trans protocol, ?_, (slices 12 16 (by omega)).trans sender,
    (slices 16 20 (by omega)).trans receiver, headerSum, messageSum⟩, (bytes 20 (by omega)).trans typed,
    (bytes 21 (by omega)).trans coded, ?_⟩
  · rw [be16_of_slice ((slices 2 4 (by omega)).trans sized)]
    omega
  · refine ext_byte (by rw [length_drop]; omega) fun i inside => ?_
    rw [byte_drop, kept (28 + i) (by omega), byte_append, if_neg (by omega)]
    congr 1
    omega

theorem icmpv4Reply_sound {original reply : List UInt8} {context : ControlContext} {kind : LocalControlKind} {mtu outputLen : Nat}
    (made : icmpv4Reply original context kind mtu outputLen source destination = .ok reply) :
    ControlPacket reply (.v4 destination) (.v4 source) ∧ reply.length ≤ mtu ∧
      icmpv4Code kind = some (byte reply 20, byte reply 21) ∧ ∃ count, reply.drop 28 = original.take count := by
  unfold icmpv4Reply at made
  dsimp only at made
  split at made
  · cases made
  split at made
  · cases made
  rename_i icmpType code codes
  have fits : min original.length (context.transportOffset + 8) ≤ original.length := Nat.min_le_left ..
  generalize min original.length (context.transportOffset + 8) = quoteLen at made fits
  split at made
  · cases made
  rename_i capped
  split at made
  · cases made
  rename_i total found
  cases made
  have value := U16.tryFrom_some found
  have taken : (original.take quoteLen).length = quoteLen := length_take_of_le fits
  obtain ⟨packet, typed, coded, quoted⟩ := @sealIcmpv4_packet total (nextHopField kind mtu) icmpType code source destination
    (original.take quoteLen) (by omega)
  refine ⟨packet, ?_, by rw [typed, coded]; exact codes, quoteLen, quoted⟩
  rw [length_sealIcmpv4 (by rw [length_append, length_icmpv4Front]; omega), length_append, length_icmpv4Front, taken]
  omega

end icmpv4

section icmpv6

variable {payloadLen : U16} {icmpType code : UInt8} {parameter : U32} {source destination : Ipv6Addr} {quote : List UInt8}

theorem icmpv6Front_slices : slice (icmpv6Front payloadLen icmpType code parameter source destination) 4 6 = payloadLen.toBeBytes ∧
    slice (icmpv6Front payloadLen icmpType code parameter source destination) 8 24 = destination.toList ∧
    slice (icmpv6Front payloadLen icmpType code parameter source destination) 24 40 = source.toList := by
  unfold icmpv6Front slice
  simp [U16.toBeBytes, take_append, take_of_length_le]

theorem icmpv6Front_bytes : byte (icmpv6Front payloadLen icmpType code parameter source destination) 0 = 0x60 ∧
    byte (icmpv6Front payloadLen icmpType code parameter source destination) 6 = ipProtocolIcmpv6 ∧
    byte (icmpv6Front payloadLen icmpType code parameter source destination) 40 = icmpType ∧
    byte (icmpv6Front payloadLen icmpType code parameter source destination) 41 = code ∧
    be16 (icmpv6Front payloadLen icmpType code parameter source destination) 42 = 0 := by
  unfold icmpv6Front
  simp [byte, be16, byteAt, U16.toBeBytes, List.getElem?_append]

theorem U32.toBeBytes_length (length : U32) {transport : List UInt8} (same : length.val = transport.length) :
    length.toBeBytes = U16.toBeBytes ⟨transport.length % 2 ^ 32 / 65536 % 65536, Nat.mod_lt _ (by decide)⟩ ++
      U16.toBeBytes ⟨transport.length % 2 ^ 32 % 65536, Nat.mod_lt _ (by decide)⟩ := by
  have small := length.isLt
  unfold U32.toBeBytes
  have whole : transport.length % 2 ^ 32 = length.val := by
    rw [same]
    exact Nat.mod_eq_of_lt (by omega)
  have high : length.val / 65536 % 65536 = length.val / 65536 := Nat.mod_eq_of_lt (by omega)
  simp only [whole, high]

theorem sealIcmpv6_checksum {length : U32} {blank : List UInt8} (long : 48 ≤ blank.length) (short : blank.length ≤ 65535)
    (size : length.val + 40 = blank.length) (zero : be16 blank 42 = 0) (sender : slice blank 8 24 = destination.toList)
    (receiver : slice blank 24 40 = source.toList) :
    transportChecksum (.v6 destination) (.v6 source) ipProtocolIcmpv6 ((sealIcmpv6 length blank).drop 40) = 0 := by
  unfold sealIcmpv6
  rw [sender, receiver]
  generalize sum : internetChecksum [destination.toList, source.toList, length.toBeBytes, [0, 0, 0, ipProtocolIcmpv6],
    blank.drop 40] = checksum
  have message : (copyFromSlice blank 42 checksum.toBeBytes).drop 40 = copyFromSlice (blank.drop 40) 2 checksum.toBeBytes :=
    drop_copyFromSlice (by omega) (by rw [U16.length_toBeBytes]; omega)
  have rest : (blank.drop 40).length = length.val := by
    rw [length_drop]
    omega
  have filled := @wordSum_fill (blank.drop 40) 2 (by omega) (by decide) ((be16_drop blank 40 2).trans zero) checksum
  have same : (copyFromSlice (blank.drop 40) 2 checksum.toBeBytes).length = length.val :=
    (length_copyFromSlice (by rw [U16.length_toBeBytes]; omega)).trans rest
  rw [message]
  unfold transportChecksum
  dsimp only
  rw [← U32.toBeBytes_length length same.symm]
  subst sum
  refine @internetChecksum_verifies [destination.toList, source.toList, length.toBeBytes, [0, 0, 0, ipProtocolIcmpv6],
    blank.drop 40] _ ?_ ?_
  · simp only [map_cons, map_nil, sum_cons, sum_nil, filled]
    omega
  · have first := wordSum_le destination.toList
    have second := wordSum_le source.toList
    have third := wordSum_le length.toBeBytes
    have fourth := wordSum_le [0, 0, 0, ipProtocolIcmpv6]
    have fifth := wordSum_le (copyFromSlice (blank.drop 40) 2 (internetChecksum [destination.toList, source.toList,
      length.toBeBytes, [0, 0, 0, ipProtocolIcmpv6], blank.drop 40]).toBeBytes)
    rw [Vector.length_toList] at first second
    rw [U32.length_toBeBytes] at third
    rw [same] at fifth
    simp only [map_cons, map_nil, sum_cons, sum_nil, length_cons, length_nil] at fourth ⊢
    omega

theorem sealIcmpv6_packet {length : U32} (size : length.val = 8 + quote.length) (payload : payloadLen.val = 8 + quote.length)
    (short : 48 + quote.length ≤ 65535) :
    ControlPacket (sealIcmpv6 length (icmpv6Front payloadLen icmpType code parameter source destination ++ quote))
        (.v6 destination) (.v6 source) ∧
      byte (sealIcmpv6 length (icmpv6Front payloadLen icmpType code parameter source destination ++ quote)) 40 = icmpType ∧
      byte (sealIcmpv6 length (icmpv6Front payloadLen icmpType code parameter source destination ++ quote)) 41 = code ∧
      (sealIcmpv6 length (icmpv6Front payloadLen icmpType code parameter source destination ++ quote)).drop 48 = quote := by
  have front := @length_icmpv6Front payloadLen icmpType code parameter source destination
  obtain ⟨sized, sender, receiver⟩ := @icmpv6Front_slices payloadLen icmpType code parameter source destination
  obtain ⟨version, protocol, typed, coded, zero⟩ := @icmpv6Front_bytes payloadLen icmpType code parameter source destination
  generalize icmpv6Front payloadLen icmpType code parameter source destination = headers at *
  have whole : (headers ++ quote).length = 48 + quote.length := by
    rw [length_append, front]
  have kept : ∀ i, i < 42 ∨ 44 ≤ i → byte (sealIcmpv6 length (headers ++ quote)) i = byte (headers ++ quote) i :=
    fun i outside => byte_copyFromSlice_outside (by rw [U16.length_toBeBytes]; omega) (by rw [U16.length_toBeBytes]; omega)
  have whole' := @length_sealIcmpv6 length (headers ++ quote) (by omega)
  have checksum := @sealIcmpv6_checksum source destination length (headers ++ quote) (by omega) (by omega) (by omega)
    ((be16_append_left (by omega)).trans zero) ((slice_append_left quote (by omega)).trans sender)
    ((slice_append_left quote (by omega)).trans receiver)
  have bytes : ∀ i, i < 42 → byte (sealIcmpv6 length (headers ++ quote)) i = byte headers i := by
    intro i inside
    rw [kept i (by omega), byte_append, if_pos (by omega)]
  have slices : ∀ start stop, stop ≤ 42 → slice (sealIcmpv6 length (headers ++ quote)) start stop = slice headers start stop := by
    intro start stop inside
    rw [← slice_append_left quote (show stop ≤ headers.length by omega)]
    exact slice_congr whole' fun i above below => kept i (by omega)
  refine ⟨⟨(bytes 0 (by omega)).trans version, (bytes 6 (by omega)).trans protocol, ?_, (slices 8 24 (by omega)).trans sender,
    (slices 24 40 (by omega)).trans receiver, checksum⟩, (bytes 40 (by omega)).trans typed, (bytes 41 (by omega)).trans coded, ?_⟩
  · rw [be16_of_slice ((slices 4 6 (by omega)).trans sized)]
    omega
  · refine ext_byte (by rw [length_drop]; omega) fun i inside => ?_
    rw [byte_drop, kept (48 + i) (by omega), byte_append, if_neg (by omega)]
    congr 1
    omega

theorem icmpv6Reply_sound {original reply : List UInt8} {context : ControlContext} {kind : LocalControlKind} {mtu outputLen : Nat}
    (made : icmpv6Reply original context kind mtu outputLen source destination = .ok reply) :
    ControlPacket reply (.v6 destination) (.v6 source) ∧ reply.length ≤ mtu ∧
      icmpv6Code kind = some (byte reply 40, byte reply 41) ∧ ∃ count, reply.drop 48 = original.take count := by
  unfold icmpv6Reply at made
  dsimp only at made
  split at made
  · cases made
  rename_i addresses
  split at made
  · cases made
  rename_i icmpType code codes
  have fits : min original.length (mtu - 48) ≤ original.length := Nat.min_le_left ..
  have capped : min original.length (mtu - 48) ≤ mtu - 48 := Nat.min_le_right ..
  generalize min original.length (mtu - 48) = quoteLen at made fits capped
  split at made
  · cases made
  rename_i bounds
  unfold maxReassembledPacket at bounds
  split at made
  · rename_i payloadLen length parameter foundPayload foundLength _
    cases made
    have payload := U16.tryFrom_some foundPayload
    have size := U32.tryFrom_some foundLength
    have taken : (original.take quoteLen).length = quoteLen := length_take_of_le fits
    obtain ⟨packet, typed, coded, quoted⟩ := @sealIcmpv6_packet payloadLen icmpType code parameter source destination
      (original.take quoteLen) length (by omega) (by omega) (by omega)
    refine ⟨packet, ?_, by rw [typed, coded]; exact codes, quoteLen, quoted⟩
    rw [length_sealIcmpv6 (by rw [length_append, length_icmpv6Front]; omega), length_append, length_icmpv6Front, taken]
    omega
  · cases made

end icmpv6

variable {context : ControlContext}

theorem controlReply_sound {original reply : List UInt8} {kind : LocalControlKind} {mtu outputLen : Nat}
    (made : controlReply original context kind mtu outputLen = .ok reply) :
    ControlAnswer original context kind mtu reply := by
  unfold controlReply at made
  split at made
  · cases made
  obtain ⟨family, source, destination, _, _, _, _, _⟩ := context
  cases family <;> cases source <;> cases destination
  case ipv4.v4.v4 =>
    obtain ⟨packet, cap, code, quote⟩ := icmpv4Reply_sound made
    exact ⟨packet, cap, code, quote⟩
  case ipv6.v6.v6 =>
    obtain ⟨packet, cap, code, quote⟩ := icmpv6Reply_sound made
    exact ⟨packet, cap, code, quote⟩
  all_goals cases made

open PacketReject (new ofFragment ofControl)

/-- The addresses of a context are those in the header of the packet. -/
def ControlContext.NamesEndsOf (context : ControlContext) (bytes : List UInt8) : Prop :=
  match context.family with
  | .ipv4 => context.source = .v4 (ipv4At bytes 12) ∧ context.destination = .v4 (ipv4At bytes 16)
  | .ipv6 => context.source = .v6 (ipv6At bytes 8) ∧ context.destination = .v6 (ipv6At bytes 24)

/-- The contexts that the parser hands to the control path: that of a packet it accepts, or that of a rejection. -/
inductive HandedToControl (parser : PacketParser) (bytes : List UInt8) : ControlContext → Prop
  | accepted {allowed : Bool} {parsed : ParsedIpPacket}
      (parse : parser.parseWithFragments bytes allowed = .ok (.complete parsed)) :
      HandedToControl parser bytes (controlContext parsed)
  | rejected {allowed : Bool} {reject : PacketReject} {context : ControlContext}
      (parse : parser.parseWithFragments bytes allowed = .error reject) (handed : reject.control = some context) :
      HandedToControl parser bytes context

def PacketReject.Plain (reject : PacketReject) : Prop := reject.control = none

theorem validateTransport_plain {source destination : IpAddr} {protocol : UInt8} {offset : Nat} {transport : List UInt8} :
    OnlyFails (validateTransport source destination protocol offset transport) PacketReject.Plain := by
  have dispatched : OnlyFails (transportMetadata protocol offset transport) PacketReject.Plain := by
    unfold transportMetadata
    split
    · refine .guarded (fun _ => rfl) fun _ => .guarded (fun _ => rfl) fun _ => .bind ?_ fun _ _ => .ok _
      exact .mapError _ fun _ _ => rfl
    · split
      · exact .guarded (fun _ => rfl) fun _ => .ok _
      · exact .error rfl
  unfold validateTransport
  refine .guarded (fun _ => rfl) fun _ => .guarded (fun _ => rfl) fun _ => .bind dispatched fun metadata _ => ?_
  split
  · split
    · exact .ok _
    · exact .error rfl
  · exact .guarded (fun _ => rfl) fun _ => .ok _

/-- What is handed to the control path of a rejection. -/
def PacketReject.Names (bytes : List UInt8) (reject : PacketReject) : Prop :=
  ∀ context, reject.control = some context → context.NamesEndsOf bytes

variable {bytes : List UInt8}

theorem PacketReject.Plain.names {reject : PacketReject} (plain : reject.Plain) : reject.Names bytes := by
  intro context handed
  cases plain.symm.trans handed

theorem unsupportedReject_names {transport : List UInt8} (names : context.NamesEndsOf bytes) :
    (unsupportedReject context transport).Names bytes := by
  intro handed same
  cases same
  exact names

theorem parseIpv4_names (bytes : List UInt8) (allowed : Bool) : OnlyFails (parseIpv4 bytes allowed) (PacketReject.Names bytes) := by
  unfold parseIpv4
  refine .guarded (fun _ => nofun) fun _ => .guarded (fun _ => nofun) fun _ => .guarded (fun _ => nofun) fun _ => ?_
  refine .guarded (fun _ => nofun) fun _ => .bind (.mapError _ fun _ _ => nofun) fun _ _ => ?_
  refine .guarded (fun _ => nofun) fun _ => .guarded (fun _ => nofun) fun _ => .guarded (fun _ => nofun) fun _ => ?_
  split
  · unfold parseIpv4Fragment
    exact .guarded (fun _ => nofun) fun _ => .guarded (fun _ => nofun) fun _ => .guarded (fun _ => nofun) fun _ => .ok _
  · split
    · exact .error (unsupportedReject_names ⟨rfl, rfl⟩)
    · exact .bind (validateTransport_plain.mono fun _ plain => plain.names) fun _ _ => .ok _

theorem extensionHeader_plain (bytes : List UInt8) (totalLen : Nat) (state : ExtensionState) :
    OnlyFails (extensionHeader bytes totalLen state) PacketReject.Plain := by
  have recorded : OnlyFails state.record PacketReject.Plain := by
    unfold ExtensionState.record
    split
    · exact .guarded (fun _ => rfl) fun _ => .ok _
    · split
      · exact .guarded (fun _ => rfl) fun _ => .ok _
      · exact .guarded (fun _ => rfl) fun _ => .ok _
  unfold extensionHeader
  refine .guarded (fun _ => rfl) fun _ => .bind recorded fun _ _ => .guarded (fun _ => rfl) fun _ => .bind ?_ fun _ _ => ?_
  · unfold extensionOptions
    split
    · exact .mapError _ fun _ _ => rfl
    · exact .ok _
  · exact .guarded (fun _ => rfl) fun _ => .ok _

theorem fragmentHeader_plain (bytes : List UInt8) (totalLen : Nat) (source destination : Ipv6Addr) (allowed : Bool)
    (remaining : Nat) (state : ExtensionState) :
    OnlyFails (fragmentHeader bytes totalLen source destination allowed remaining state) PacketReject.Plain := by
  unfold fragmentHeader
  refine .guarded (fun _ => rfl) fun _ => .guarded (fun _ => rfl) fun _ => .guarded (fun _ => rfl) fun _ => ?_
  refine .guarded (fun _ => rfl) fun _ => .guarded (fun _ => rfl) fun _ => .guarded (fun _ => rfl) fun _ => ?_
  exact .guarded (fun _ => rfl) fun _ => .ok _

theorem extensionLoop_names {totalLen : Nat} {allowed : Bool} (remaining : Nat) (state : ExtensionState) :
    OnlyFails (extensionLoop bytes totalLen (ipv6At bytes 8) (ipv6At bytes 24) allowed remaining state)
      (PacketReject.Names bytes) := by
  have ending : ∀ (remaining : Nat) (state : ExtensionState),
      OnlyFails (if state.nextHeader = ipv6Fragment then
          (fragmentHeader bytes totalLen (ipv6At bytes 8) (ipv6At bytes 24) allowed remaining state).map .inr
        else if state.nextHeader = ipProtocolTcp ∨ state.nextHeader = ipProtocolUdp then .ok (.inl state)
        else .error (unsupportedReject ⟨.ipv6, .v6 (ipv6At bytes 8), .v6 (ipv6At bytes 24), state.nextHeader,
          state.nextHeaderField, state.cursor, totalLen, false⟩ (bytes.drop state.cursor)) :
        Except PacketReject (ExtensionState ⊕ ParsedFragment)) (PacketReject.Names bytes) := by
    intro remaining state
    split
    · exact .map _ ((fragmentHeader_plain _ _ _ _ _ _ _).mono fun _ plain => plain.names)
    · split
      · exact .ok _
      · exact .error (unsupportedReject_names ⟨rfl, rfl⟩)
  induction remaining generalizing state with
  | zero =>
    rw [extensionLoop.eq_def]
    dsimp only
    split
    · exact .error fun context handed => by cases handed
    · exact ending 0 state
  | succ remaining ih =>
    rw [extensionLoop.eq_def]
    dsimp only
    split
    · exact .bind ((extensionHeader_plain _ _ _).mono fun _ plain => plain.names) fun next _ => ih next
    · exact ending (remaining + 1) state

theorem parseIpv6_names (bytes : List UInt8) (allowed : Bool) : OnlyFails (parseIpv6 bytes allowed) (PacketReject.Names bytes) := by
  unfold parseIpv6
  refine .guarded (fun _ => nofun) fun _ => .guarded (fun _ => nofun) fun _ => .guarded (fun _ => nofun) fun _ => ?_
  refine .guarded (fun _ => nofun) fun _ => .guarded (fun _ => nofun) fun _ => .bind (extensionLoop_names _ _) fun ended _ => ?_
  cases ended with
  | inr fragment => exact .ok _
  | inl state => exact .bind (validateTransport_plain.mono fun _ plain => plain.names) fun _ _ => .ok _

theorem HandedToControl.namesEnds {parser : PacketParser} (handed : HandedToControl parser bytes context) :
    context.NamesEndsOf bytes := by
  cases handed with
  | accepted parse =>
    rcases parseWithFragments_describes parse with ⟨packet, same, describes⟩ | ⟨fragment, same, -⟩
    · cases same
      have header := describes.header
      unfold ParsedIpPacket.HeaderOf at header
      unfold ControlContext.NamesEndsOf controlContext
      dsimp only
      split at header
      · rename_i family
        simpa only [family] using And.intro header.2.2.1 header.2.2.2.1
      · rename_i family
        simpa only [family] using And.intro header.2.2.1 header.2.2.2.1
    · cases same
  | @rejected allowed reject context parse same =>
    have names : OnlyFails (parser.parseWithFragments bytes allowed) (PacketReject.Names bytes) := by
      unfold PacketParser.parseWithFragments
      split
      · exact .error nofun
      · dsimp only
        split
        · exact parseIpv4_names bytes allowed
        · split
          · exact parseIpv6_names bytes allowed
          · split
            · exact .error nofun
            · exact .error nofun
    exact names reject parse context same

end Ferrum.Tun
