import Ferrum.Tun.Ipv6Fragments
import Ferrum.Tun.PacketRejects

namespace Ferrum.Tun

open Option List

/-- Where a packet stands that the parser calls a fragment: the header that it has passed, and what
reconstruction needs of it. -/
inductive FragmentShape (parser : PacketParser) (packet : List UInt8) (fragment : ParsedFragment) : Prop
  | ipv4 (enabled : parser.families.ipv4 = true) (header : Ipv4Header packet)
      (known : byte packet 9 = ipProtocolTcp ∨ byte packet 9 = ipProtocolUdp) (family : fragment.family = .ipv4)
      (key : fragment.key = ipv4Key packet) (shape : fragment.reconstruction = .ipv4 (ipv4HeaderLen packet))
  | ipv6 (cursor field : Nat) (enabled : parser.families.ipv6 = true) (header : Ipv6Header packet)
      (family : fragment.family = .ipv6) (key : ∃ key, fragment.key = .ipv6 key)
      (shape : fragment.reconstruction = .ipv6 cursor field) (payload : fragment.payloadOffset = cursor + 8)
      (start : 40 ≤ cursor) (link : field = 6 ∨ 40 ≤ field) (order : field < cursor) (inside : cursor + 8 < packet.length)

/-- The states of the extension loop stand at a header, which some link before it names. -/
def ExtensionState.Placed (state : ExtensionState) : Prop :=
  40 ≤ state.cursor ∧ (state.nextHeaderField = 6 ∨ 40 ≤ state.nextHeaderField) ∧ state.nextHeaderField < state.cursor

theorem extensionHeader_placed {bytes : List UInt8} {totalLen : Nat} {state next : ExtensionState} (placed : state.Placed)
    (turn : extensionHeader bytes totalLen state = .ok next) : next.Placed := by
  obtain ⟨-, recorded, -, rfl⟩ := extensionHeader_eq_ok.mp turn
  have positive : 8 ≤ extensionLen bytes state.cursor := by
    unfold extensionLen
    omega
  obtain ⟨start, -, -⟩ := placed
  exact ⟨Nat.le_trans start (Nat.le_add_right _ _), .inr start, show state.cursor < state.cursor + _ by omega⟩

variable {parser : PacketParser} {packet whole : List UInt8} {fragment : ParsedFragment}

theorem fragmentHeader_shape {allowed : Bool} {remaining : Nat}
    {state : ExtensionState} (enabled : parser.families.ipv6 = true) (header : Ipv6Header packet)
    (placed : state.Placed) (parsed : fragmentHeader packet packet.length (ipv6At packet 8) (ipv6At packet 24) allowed remaining
      state = .ok fragment) : FragmentShape parser packet fragment := by
  unfold fragmentHeader at parsed
  simp only [bind_eq_ok, rejectIf_eq_ok, exists_const] at parsed
  obtain ⟨inside, -, -, -, -, nonempty, -, same⟩ := parsed
  cases Except.ok.inj same
  obtain ⟨start, link, order⟩ := placed
  exact .ipv6 state.cursor state.nextHeaderField enabled header rfl ⟨_, rfl⟩ rfl rfl start link order (by omega)

theorem parse_shape
    (parsed : parser.parse packet = .ok (.fragment fragment)) : FragmentShape parser packet fragment := by
  rcases PacketParser.parseWithFragments_eq_ok.mp parsed with ⟨enabled, parsed⟩ | ⟨enabled, parsed⟩
  · obtain ⟨header, ⟨_, found⟩ | ⟨_, _, _, _, same⟩⟩ := parseIpv4_eq_ok.mp parsed
    · unfold parseIpv4Fragment at found
      simp only [bind_eq_ok, rejectIf_eq_ok, exists_const] at found
      obtain ⟨known, -, -, same⟩ := found
      cases Except.ok.inj same
      exact .ipv4 enabled header (not_not.mp (not_or.mp known).2) rfl rfl rfl
    · cases same
  · obtain ⟨header, ⟨found, loop, same⟩ | ⟨_, _, _, _, same⟩⟩ := parseIpv6_eq_ok.mp parsed
    · cases same
      obtain ⟨_, _, placed, parsed⟩ := extensionLoop_fragmentHeader (fun _ _ => extensionHeader_placed)
        (show (ExtensionState.new (byte packet 6)).Placed from ⟨le_rfl, .inl rfl, (by decide : 6 < 40)⟩) loop
      exact fragmentHeader_shape enabled header placed parsed
    · cases same

section wholeIpv4Header

variable {front : List UInt8} (total : Nat)

/-- The header before its checksum. -/
def blankIpv4Header (front : List UInt8) (total : Nat) : List UInt8 :=
  let sized := copyFromSlice front 2 (u16Of total).toBeBytes
  fillZero (copyFromSlice sized 6 (u16Of (be16 sized 6 &&& 0x4000)).toBeBytes) 10 12

section

variable (long : 20 ≤ front.length)
include long

theorem length_blankIpv4Header : (blankIpv4Header front total).length = front.length := by
  have sized : (copyFromSlice front 2 (u16Of total).toBeBytes).length = front.length :=
    length_copyFromSlice (by rw [U16.length_toBeBytes]; omega)
  have unfragmented := (length_copyFromSlice (by rw [sized, U16.length_toBeBytes]; omega :
    6 + (u16Of (be16 (copyFromSlice front 2 (u16Of total).toBeBytes) 6 &&& 0x4000)).toBeBytes.length ≤
      (copyFromSlice front 2 (u16Of total).toBeBytes).length)).trans sized
  exact (length_fillZero (by omega) (by omega)).trans unfragmented

theorem blankIpv4Header_bytes : slice (blankIpv4Header front total) 2 4 = (u16Of total).toBeBytes ∧
      slice (blankIpv4Header front total) 6 8 = (u16Of (be16 front 6 &&& 0x4000)).toBeBytes ∧
      be16 (blankIpv4Header front total) 10 = 0 ∧
      ∀ i, i < 2 ∨ 4 ≤ i ∧ i < 6 ∨ 8 ≤ i ∧ i < 10 ∨ 12 ≤ i → byte (blankIpv4Header front total) i = byte front i := by
  have fits : 2 + (u16Of total).toBeBytes.length ≤ front.length := by
    rw [U16.length_toBeBytes]
    omega
  have sized := length_copyFromSlice fits
  have field : be16 (copyFromSlice front 2 (u16Of total).toBeBytes) 6 = be16 front 6 :=
    be16_congr (byte_copyFromSlice_outside fits (by rw [U16.length_toBeBytes]; omega))
      (byte_copyFromSlice_outside fits (by rw [U16.length_toBeBytes]; omega))
  have shape : blankIpv4Header front total = fillZero (copyFromSlice (copyFromSlice front 2 (u16Of total).toBeBytes) 6
      (u16Of (be16 front 6 &&& 0x4000)).toBeBytes) 10 12 := by
    rw [← field]
    rfl
  rw [shape]
  generalize u16Of (be16 front 6 &&& 0x4000) = flags
  have fitsFlags : 6 + flags.toBeBytes.length ≤ (copyFromSlice front 2 (u16Of total).toBeBytes).length := by
    rw [U16.length_toBeBytes]
    omega
  have flagged := (length_copyFromSlice fitsFlags).trans sized
  have fitsZero : 10 + (List.replicate (12 - 10) (0 : UInt8)).length ≤
      (copyFromSlice (copyFromSlice front 2 (u16Of total).toBeBytes) 6 flags.toBeBytes).length := by
    rw [length_replicate]
    omega
  refine ⟨?_, ?_, ?_, ?_⟩
  · exact (slice_copyFromSlice_outside fitsZero (.inl (by omega))).trans
      ((slice_copyFromSlice_outside fitsFlags (.inl (by omega))).trans (slice_copyFromSlice_self fits))
  · exact (slice_copyFromSlice_outside fitsZero (.inl (by omega))).trans (slice_copyFromSlice_self fitsFlags)
  · exact @be16_of_slice _ 0 _ (slice_copyFromSlice_self fitsZero)
  · intro i kept
    rw [byte_fillZero (by omega) (by omega), if_neg (by omega), byte_copyFromSlice fitsFlags,
      if_neg (by rw [U16.length_toBeBytes]; omega), byte_copyFromSlice fits, if_neg (by rw [U16.length_toBeBytes]; omega)]

theorem wholeIpv4Header_fits :
    10 + (internetChecksum [blankIpv4Header front total]).toBeBytes.length ≤ (blankIpv4Header front total).length := by
  rw [length_blankIpv4Header total long, U16.length_toBeBytes]
  omega

theorem length_wholeIpv4Header : (wholeIpv4Header front total).length = front.length :=
  (length_copyFromSlice (wholeIpv4Header_fits total long)).trans (length_blankIpv4Header total long)

theorem wholeIpv4Header_bytes :
    be16 (wholeIpv4Header front total) 2 = total % 65536 ∧ be16 (wholeIpv4Header front total) 6 = be16 front 6 &&& 0x4000 ∧
      ∀ i, i < 2 ∨ 4 ≤ i ∧ i < 6 ∨ 8 ≤ i ∧ i < 10 ∨ 12 ≤ i → byte (wholeIpv4Header front total) i = byte front i := by
  obtain ⟨sized, flags, -, kept⟩ := blankIpv4Header_bytes total long
  have fits := wholeIpv4Header_fits total long
  refine ⟨?_, ?_, ?_⟩
  · exact @be16_of_slice _ (u16Of total) 2 ((slice_copyFromSlice_outside fits (.inl (by omega))).trans sized)
  · have field := @be16_of_slice _ (u16Of (be16 front 6 &&& 0x4000)) 6
      ((slice_copyFromSlice_outside fits (.inl (by omega))).trans flags)
    have small : be16 front 6 &&& 0x4000 < 65536 := Nat.lt_of_le_of_lt Nat.and_le_left (be16_lt front 6)
    exact field.trans (Nat.mod_eq_of_lt small)
  · intro i other
    exact (byte_copyFromSlice_outside fits (by rw [U16.length_toBeBytes]; omega)).trans (kept i other)

theorem wholeIpv4Header_checksum (short : front.length ≤ 60) :
    internetChecksum [wholeIpv4Header front total] = 0 := by
  obtain ⟨-, -, zero, -⟩ := blankIpv4Header_bytes total long
  have length := length_blankIpv4Header total long
  exact @internetChecksum_fill (blankIpv4Header front total) 10 (by omega) (by decide) zero (by omega)

end

end wholeIpv4Header

theorem wholeIpv4Header_passes {payload : List UInt8} (header : Ipv4Header packet)
    (bound : ipv4HeaderLen packet + payload.length ≤ 65535) :
    let whole := wholeIpv4Header (packet.take (ipv4HeaderLen packet)) (ipv4HeaderLen packet + payload.length) ++ payload
    Ipv4Header whole ∧ ¬ipv4Fragmented whole ∧ byte whole 9 = byte packet 9 := by
  obtain ⟨least, most⟩ := header.words
  have front : (packet.take (ipv4HeaderLen packet)).length = ipv4HeaderLen packet := length_take_of_le header.fits
  have long : 20 ≤ (packet.take (ipv4HeaderLen packet)).length := by omega
  generalize total : ipv4HeaderLen packet + payload.length = sum at bound
  have length := length_wholeIpv4Header sum long
  obtain ⟨sized, field, kept⟩ := wholeIpv4Header_bytes sum long
  have checksum := wholeIpv4Header_checksum sum long (by omega)
  generalize made : wholeIpv4Header (packet.take (ipv4HeaderLen packet)) sum = start at length sized field kept checksum
  intro whole
  have bytes : ∀ i, i < 2 ∨ 4 ≤ i ∧ i < 6 ∨ 8 ≤ i ∧ i < 10 ∨ 12 ≤ i → i < ipv4HeaderLen packet →
      byte whole i = byte packet i := by
    intro i other inside
    rw [byte_append, if_pos (by omega), kept i other, byte_take inside]
  have first : byteAt whole 0 = byteAt packet 0 := congrArg UInt8.toNat (bytes 0 (by omega) (by omega))
  have headerLen : ipv4HeaderLen whole = ipv4HeaderLen packet := by
    unfold ipv4HeaderLen
    rw [first]
  have wholeLength : whole.length = sum := by
    rw [length_append]
    omega
  have flags : be16 whole 6 = be16 (packet.take (ipv4HeaderLen packet)) 6 &&& 0x4000 :=
    (be16_append_left (by omega)).trans field
  have unflagged : ∀ mask, 0x4000 &&& mask = 0 → be16 whole 6 &&& mask = 0 := by
    intro mask apart
    rw [flags, Nat.and_assoc, apart, Nat.and_zero]
  have unfragmented : ¬ipv4Fragmented whole := by
    unfold ipv4Fragmented ipv4MoreFragments ipv4Offset
    rw [unflagged 0x2000 (by decide), unflagged 0x1fff (by decide)]
    decide
  refine ⟨⟨by omega, by rw [first]; exact header.version, by rw [headerLen]; exact header.words, by omega, ?_, ?_, ?_, ?_, ?_,
    unflagged 0x8000 (by decide), fun _ => unfragmented⟩, unfragmented, bytes 9 (by omega) (by omega)⟩
  · rw [be16_append_left (by omega), sized, wholeLength]
    exact Nat.mod_eq_of_lt (by omega)
  · rw [headerLen]
    have exactly : slice whole 0 (ipv4HeaderLen packet) = start := by
      rw [← front, ← length]
      exact slice_zero start payload
    rw [exactly]
    exact checksum
  · rw [headerLen]
    have same : slice whole 20 (ipv4HeaderLen packet) = slice packet 20 (ipv4HeaderLen packet) :=
      slice_congr_of_le (by omega) header.fits fun i above below => bytes i (by omega) below
    rw [same]
    exact header.options
  · rw [ipv4At_congr fun i above below => bytes i (by omega) (by omega)]
    exact header.source
  · rw [ipv4At_congr fun i above below => bytes i (by omega) (by omega)]
    exact header.destination

theorem sizedPrefix_passes {packet front payload : List UInt8} (header : Ipv6Header packet) (long : 40 ≤ front.length)
    (same : ∀ i, i < 4 ∨ 8 ≤ i ∧ i < 40 → byte front i = byte packet i) (nonempty : 0 < payload.length)
    (bound : front.length + payload.length ≤ maxReassembledPacket) :
    Ipv6Header (copyFromSlice front 4 (u16Of (front.length + payload.length - 40)).toBeBytes ++ payload) := by
  unfold maxReassembledPacket at bound
  have fits : 4 + (u16Of (front.length + payload.length - 40)).toBeBytes.length ≤ front.length := by
    rw [U16.length_toBeBytes]
    omega
  have length := length_copyFromSlice fits
  have stored := @be16_of_slice _ _ 4 (slice_copyFromSlice_self fits)
  have kept : ∀ i, i < 4 ∨ 8 ≤ i ∧ i < 40 →
      byte (copyFromSlice front 4 (u16Of (front.length + payload.length - 40)).toBeBytes) i = byte packet i := by
    intro i other
    exact (byte_copyFromSlice_outside fits (by rw [U16.length_toBeBytes]; omega)).trans (same i other)
  have small : (u16Of (front.length + payload.length - 40)).val = front.length + payload.length - 40 :=
    Nat.mod_eq_of_lt (by omega)
  rw [small] at stored
  generalize copyFromSlice front 4 (u16Of (front.length + payload.length - 40)).toBeBytes = start at length stored kept
  have bytes : ∀ i, i < 4 ∨ 8 ≤ i ∧ i < 40 → byte (start ++ payload) i = byte packet i := by
    intro i other
    rw [byte_append, if_pos (by omega), kept i other]
  have size : be16 (start ++ payload) 4 = front.length + payload.length - 40 := (be16_append_left (by omega)).trans stored
  have whole : (start ++ payload).length = front.length + payload.length := by
    rw [length_append]
    omega
  refine ⟨by omega, ?_, by omega, by omega, by unfold maxReassembledPacket; omega, ?_, ?_⟩
  · exact (congrArg (fun first : UInt8 => first.toNat >>> 4) (bytes 0 (by omega))).trans header.version
  · rw [ipv6At_congr fun i above below => bytes i (by omega)]
    exact header.source
  · rw [ipv6At_congr fun i above below => bytes i (by omega)]
    exact header.destination

/-- Why a packet made of fragments can still be rejected. -/
def reassembledRejects : IpFamily → List PacketRejectReason
  | .ipv4 => transportRejects
  | .ipv6 => extensionRejects ++ upperRejects ++ transportRejects

/-- The parser gets past the header of a reassembled packet. -/
def PacketParser.PassesHeader (parser : PacketParser) (family : IpFamily) (whole : List UInt8) : Prop :=
  (∃ packet, parser.parseReassembled whole = .ok (.complete packet)) ∨
    ∃ reject, parser.parseReassembled whole = .error reject ∧ reject.reason ∈ reassembledRejects family

theorem transport_passes {run : Except PacketReject TransportMetadata} (build : TransportMetadata → ParsedIpPacket)
    (fails : OnlyFails run (·.reason ∈ transportRejects)) :
    (∃ packet, (run.map fun transport => ParsedPacket.complete (build transport)) = .ok (.complete packet)) ∨
      ∃ reject, (run.map fun transport => ParsedPacket.complete (build transport)) = .error reject ∧
        reject.reason ∈ transportRejects := by
  cases run with
  | error reject => exact .inr ⟨reject, rfl, fails reject rfl⟩
  | ok transport => exact .inl ⟨build transport, rfl⟩

theorem PacketParser.passesHeader_ipv4 (enabled : parser.families.ipv4 = true)
    (header : Ipv4Header whole) (unfragmented : ¬ipv4Fragmented whole)
    (known : byte whole 9 = ipProtocolTcp ∨ byte whole 9 = ipProtocolUdp) : parser.PassesHeader .ipv4 whole := by
  unfold PassesHeader parseReassembled
  rw [parseWithFragments_ipv4 enabled header false, parseIpv4_of_header header false, if_neg unfragmented,
    if_neg (not_not.mpr known)]
  exact transport_passes _ (validateTransport_fails known)

theorem PacketParser.passesHeader_ipv6 (enabled : parser.families.ipv6 = true)
    (header : Ipv6Header whole) : parser.PassesHeader .ipv6 whole := by
  unfold PassesHeader parseReassembled
  rw [parseWithFragments_ipv6 enabled header false, parseIpv6_of_header header false]
  unfold ipv6Extensions
  rcases extensionLoop_refused whole whole.length (ipv6At whole 8) (ipv6At whole 24) maxExtensionHeaders
      (.new (byte whole 6)) with ⟨final, loop, known⟩ | ⟨reject, loop, reason⟩
  · rw [loop]
    refine (transport_passes _ (validateTransport_fails known)).imp_right ?_
    rintro ⟨reject, failed, reason⟩
    exact ⟨reject, failed, mem_append_right _ reason⟩
  · rw [loop]
    exact .inr ⟨reject, rfl, mem_append_left _ reason⟩

def PacketParser.enables (parser : PacketParser) : IpFamily → Bool
  | .ipv4 => parser.families.ipv4
  | .ipv6 => parser.families.ipv6

theorem linkedPrefix_bytes {packet front : List UInt8} {cursor field : Nat} (protocol : UInt8) (length : front.length = cursor)
    (link : field = 6 ∨ 40 ≤ field) (order : field < cursor)
    (same : ∀ i, i < 4 ∨ 8 ≤ i ∧ i < 40 → byte front i = byte packet i) :
    (copyFromSlice front field [protocol]).length = cursor ∧
      ∀ i, i < 4 ∨ 8 ≤ i ∧ i < 40 → byte (copyFromSlice front field [protocol]) i = byte packet i := by
  have fits : field + [protocol].length ≤ front.length := by
    rw [length, length_singleton]
    omega
  refine ⟨(length_copyFromSlice fits).trans length, fun i other => ?_⟩
  exact (byte_copyFromSlice_outside fits (by rw [length_singleton]; omega)).trans (same i other)

theorem reconstructed_passes {arrival : Arrival} {layout : Layout} {header payload : List UInt8}
    (shaped : arrival.layout = some layout) (first : arrival.fragment.offset = 0)
    (rebuilt : reconstructHeader layout payload.length = some header) (nonempty : 0 < payload.length)
    (enabled : parser.enables arrival.fragment.family = true) :
    parser.PassesHeader arrival.fragment.family (header ++ payload) := by
  unfold Arrival.layout layoutFor at shaped
  cases parse_shape arrival.parsed with
  | ipv4 _ valid known family _ shape =>
    rw [family] at enabled ⊢
    simp only [shape, bind_eq_bind, bind_eq_some_iff] at shaped
    obtain ⟨front, found, normalized, -, same⟩ := shaped
    obtain ⟨-, rfl⟩ := takeChecked_eq_some.mp found
    cases same
    have length : (arrival.packet.take (ipv4HeaderLen arrival.packet)).length = ipv4HeaderLen arrival.packet :=
      length_take_of_le valid.fits
    unfold reconstructHeader at rebuilt
    simp only [first, if_true, length] at rebuilt
    split at rebuilt
    · cases rebuilt
    · rename_i bound
      cases rebuilt
      unfold maxReassembledPacket at bound
      obtain ⟨passes, unfragmented, protocol⟩ := wholeIpv4Header_passes valid (not_lt.mp bound)
      exact PacketParser.passesHeader_ipv4 enabled passes unfragmented (by rw [protocol]; exact known)
  | ipv6 cursor field _ valid family _ shape _ start link order inside =>
    rw [family] at enabled ⊢
    simp only [shape, bind_eq_bind] at shaped
    rw [if_neg (by omega)] at shaped
    obtain ⟨front, found, same⟩ := bind_eq_some_iff.mp shaped
    obtain ⟨-, rfl⟩ := takeChecked_eq_some.mp found
    cases same
    have taken : (arrival.packet.take cursor).length = cursor := length_take_of_le (by omega)
    have zeroed : (fillZero (arrival.packet.take cursor) 4 6).length = cursor := (length_fillZero (by omega) (by omega)).trans taken
    obtain ⟨length, bytes⟩ := @linkedPrefix_bytes arrival.packet (fillZero (arrival.packet.take cursor) 4 6) cursor field
      arrival.fragment.upperProtocol zeroed link order (by
        intro i other
        rw [byte_fillZero (by omega) (by omega), if_neg (by omega), byte_take (by omega)])
    unfold reconstructHeader at rebuilt
    dsimp only at rebuilt
    split at rebuilt
    · cases rebuilt
    · rename_i bound
      cases rebuilt
      have passes := sizedPrefix_passes valid (by omega) bytes nonempty (by omega)
      rw [length] at passes
      exact PacketParser.passesHeader_ipv6 enabled passes

theorem atomic_passes {arrival : Arrival}
    (rebuilt : reconstructAtomicIpv6 arrival.packet arrival.fragment = some whole) :
    arrival.parser.PassesHeader arrival.fragment.family whole := by
  unfold reconstructAtomicIpv6 at rebuilt
  cases parse_shape arrival.parsed with
  | ipv4 _ _ _ family => simp [family] at rebuilt
  | ipv6 cursor field enabled valid family _ shape payload start link order inside =>
    rw [family] at rebuilt ⊢
    simp only [shape, payload, ne_eq, not_true, if_false, bind_eq_bind] at rebuilt
    have total := valid.bound
    unfold maxReassembledPacket at rebuilt total
    rw [if_neg (by omega), if_neg (by omega)] at rebuilt
    obtain ⟨front, found, same⟩ := bind_eq_some_iff.mp rebuilt
    obtain ⟨-, rfl⟩ := takeChecked_eq_some.mp found
    rw [if_neg (by omega)] at same
    cases same
    have taken : (arrival.packet.take cursor).length = cursor := length_take_of_le (by omega)
    obtain ⟨length, bytes⟩ := @linkedPrefix_bytes arrival.packet (arrival.packet.take cursor) cursor field
      arrival.fragment.upperProtocol taken link order (by
        intro i other
        exact byte_take (by omega))
    have rest : (arrival.packet.drop (cursor + 8)).length = arrival.packet.length - (cursor + 8) := length_drop
    have passes := @sizedPrefix_passes _ _ (arrival.packet.drop (cursor + 8)) valid (by omega) bytes (by omega)
      (by unfold maxReassembledPacket; omega)
    have size : (copyFromSlice (arrival.packet.take cursor) field [arrival.fragment.upperProtocol]).length +
        (arrival.packet.drop (cursor + 8)).length - 40 = arrival.packet.length - 8 - 40 := by omega
    rw [size] at passes
    rw [copyFromSlice_append_left (by rw [length, U16.length_toBeBytes]; omega)]
    exact PacketParser.passesHeader_ipv6 enabled passes

theorem Arrival.enabled (arrival : Arrival) : arrival.parser.enables arrival.fragment.family = true := by
  cases parse_shape arrival.parsed with
  | ipv4 enabled _ _ family =>
    rw [family]
    exact enabled
  | ipv6 _ _ enabled _ family =>
    rw [family]
    exact enabled

theorem Arrival.family_of_key {first second : Arrival} (same : first.key = second.key) :
    first.fragment.family = second.fragment.family := by
  unfold Arrival.key at same
  cases parse_shape first.parsed with
  | ipv4 _ _ _ family key =>
    cases parse_shape second.parsed with
    | ipv4 _ _ _ otherFamily => rw [family, otherFamily]
    | ipv6 _ _ _ _ _ otherKey =>
      obtain ⟨found, otherKey⟩ := otherKey
      rw [key, otherKey, ipv4Key] at same
      cases same
  | ipv6 _ _ _ _ family key =>
    obtain ⟨found, key⟩ := key
    cases parse_shape second.parsed with
    | ipv4 _ _ _ _ otherKey =>
      rw [key, otherKey, ipv4Key] at same
      cases same
    | ipv6 _ _ _ _ otherFamily => rw [family, otherFamily]

theorem ReassemblyTable.acceptCurrent_atomic {table : ReassemblyTable}
    {now : Int} (outcome : (table.acceptCurrent packet fragment now).2 = .atomic whole) :
    reconstructAtomicIpv6 packet fragment = some whole := by
  unfold acceptCurrent at outcome
  split at outcome
  · cases outcome
  · rename_i proper
    split at outcome
    · split at outcome
      · cases outcome
      · rename_i found rebuilt
        cases outcome
        exact rebuilt
    · rename_i many
      split at outcome
      · cases outcome
      · rename_i bound
        obtain ⟨-, fits⟩ := not_or.mp proper
        obtain ⟨length, nonempty⟩ := not_or.mp fits
        have accepts := table.compactDeadlinesIfNeeded.acceptPiece_accepts now
          ⟨not_not.mp length, nonempty, by simpa using many, not_lt.mp bound⟩
        rw [outcome] at accepts
        generalize (table.compactDeadlinesIfNeeded.acceptPiece packet fragment now).1 = after at accepts
        cases accepts with
        | atomic _ alone => exact absurd alone many

namespace Entry.MadeOf

variable {entry : Entry} {generation finalLen : Nat} {key : FragmentKey} {arrivals : List Arrival}

theorem passes (made : entry.MadeOf generation key arrivals) (complete : entry.completeLen = some finalLen) {whole : List UInt8}
    (rebuilt : reconstruct entry finalLen = some whole) {last : Arrival} (member : last ∈ arrivals) :
    last.parser.PassesHeader last.fragment.family whole := by
  obtain ⟨-, covered⟩ := Entry.completeLen_eq_some.mp complete
  obtain ⟨header, found, rfl⟩ := map_eq_some_iff.mp rebuilt
  obtain ⟨first, inside, zero, layout, shaped, headed⟩ := made.header_origin covered found
  have family : first.fragment.family = last.fragment.family :=
    Arrival.family_of_key ((made.shared first inside).1.trans (made.shared last member).1.symm)
  have length := Extent.coverage_length covered
  rw [Nat.zero_add] at length
  have nonempty := made.positive covered
  rw [← length] at headed nonempty
  rw [← family]
  exact reconstructed_passes shaped zero headed nonempty (family ▸ last.enabled)

end Entry.MadeOf

namespace Traced

/-- After every run of calls, what a fragment completes and what an atomic fragment becomes gets past
the header checks of the parser, and is no fragment again. -/
theorem run_passesHeader (generation : Nat) (calls : List ReassemblyCall) (last : Arrival) (whole : List UInt8)
    (outcome : ((new generation).run calls).table.outcome last = .complete whole ∨
      ((new generation).run calls).table.outcome last = .atomic whole) :
    last.parser.PassesHeader last.fragment.family whole := by
  have sound := (new_sound generation).run calls
  generalize (new generation).run calls = traced at outcome sound
  rcases outcome with complete | atomic
  · have accepts := traced.table.accept_accepts last
    rw [complete] at accepts
    generalize traced.table.step (.accept last) = after at accepts
    cases accepts with
    | complete same proper joins grows covered rebuilt =>
      exact (sound.grown proper joins grows).passes covered rebuilt (by simp)
  · exact atomic_passes (ReassemblyTable.acceptCurrent_atomic atomic)

theorem sampleWhole_passesHeader : ((new 1).run [.accept sampleTail]).table.outcome sampleHead = .complete sampleWhole ∧
    sampleParser.PassesHeader .ipv4 sampleWhole := by
  have complete : ((new 1).run [.accept sampleTail]).table.outcome sampleHead = .complete sampleWhole := by decide
  exact ⟨complete, run_passesHeader 1 [.accept sampleTail] sampleHead sampleWhole (.inl complete)⟩

/-- An atomic fragment whose fragmentable part starts with destination options that go past its end. -/
def sampleAtomic : Arrival where
  parser := sampleParser
  packet := [96, 0, 0, 0, 0, 16, 44, 64, 32, 1, 13, 184, 0, 0, 0, 0, 0, 0, 0, 0, 0, 0, 0, 1, 32, 1, 13, 184, 0, 0, 0, 0, 0, 0, 0, 0,
    0, 0, 0, 2, 60, 0, 0, 0, 0, 0, 0, 7, 17, 5, 0, 0, 0, 0, 0, 0]
  fragment := ⟨.ipv6, .v6 #v[32, 1, 13, 184, 0, 0, 0, 0, 0, 0, 0, 0, 0, 0, 0, 1],
    .v6 #v[32, 1, 13, 184, 0, 0, 0, 0, 0, 0, 0, 0, 0, 0, 0, 2], 60,
    .ipv6 ⟨#v[32, 1, 13, 184, 0, 0, 0, 0, 0, 0, 0, 0, 0, 0, 0, 1], #v[32, 1, 13, 184, 0, 0, 0, 0, 0, 0, 0, 0, 0, 0, 0, 2], 60, 7⟩,
    0, false, 48, 8, .ipv6 40 6⟩
  parsed := by decide
  now := 5
  inRange := sampleHead.inRange
  generation := 1

/-- Its header passes, and the rejection is neither of the transport nor of the upper protocol. -/
theorem sampleAtomic_malformed : ∃ whole, (new 1).table.outcome sampleAtomic = .atomic whole ∧
    sampleParser.parseReassembled whole = .error (.new .malformedExtension) ∧
    PacketRejectReason.malformedExtension ∉ transportRejects ++ upperRejects :=
  ⟨[96, 0, 0, 0, 0, 8, 60, 64, 32, 1, 13, 184, 0, 0, 0, 0, 0, 0, 0, 0, 0, 0, 0, 1, 32, 1, 13, 184, 0, 0, 0, 0, 0, 0, 0, 0,
    0, 0, 0, 2, 17, 5, 0, 0, 0, 0, 0, 0], by decide, by decide, by decide⟩

end Traced

end Ferrum.Tun
