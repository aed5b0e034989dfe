import Ferrum.Tun.Ipv4Fragments

namespace Ferrum.Tun

/-- The states that the extension loop passes through, with the number of its turns: each is a
place where the unfragmentable part of a datagram may end. -/
inductive ExtensionReach (bytes : List UInt8) (totalLen : Nat) : Nat → ExtensionState → Prop
  | start : ExtensionReach bytes totalLen 0 (.new (byte bytes 6))
  | next {turns : Nat} {state after : ExtensionState} (before : ExtensionReach bytes totalLen turns state)
      (extension : state.isExtension) (turn : extensionHeader bytes totalLen state = .ok after) :
      ExtensionReach bytes totalLen (turns + 1) after

variable {first second : List UInt8}

theorem slice_congr_of_le {start stop : Nat} (firstLong : stop ≤ first.length)
    (secondLong : stop ≤ second.length) (same : ∀ i, start ≤ i → i < stop → byte first i = byte second i) :
    slice first start stop = slice second start stop := by
  refine ext_byte (by rw [length_slice, length_slice]; omega) ?_
  intro i bound
  rw [length_slice] at bound
  rw [byte_slice (by omega), byte_slice (by omega)]
  exact same (start + i) (by omega) (by omega)

theorem extensionHeader_transfer {totalLen otherLen : Nat} {state next : ExtensionState}
    (turn : extensionHeader first totalLen state = .ok next) (firstLong : next.cursor ≤ first.length)
    (secondLong : next.cursor ≤ second.length) (within : next.cursor ≤ otherLen)
    (same : ∀ i, state.cursor < i → i < next.cursor → byte second i = byte first i) :
    extensionHeader second otherLen state = .ok { next with nextHeader := byte second state.cursor } := by
  obtain ⟨valid, recorded, record, rfl⟩ := extensionHeader_eq_ok.mp turn
  have positive : 8 ≤ extensionLen first state.cursor := by
    unfold extensionLen
    omega
  change state.cursor + extensionLen first state.cursor ≤ _ at firstLong secondLong within
  have inner : ∀ i, state.cursor < i → i < state.cursor + extensionLen first state.cursor → byte second i = byte first i := same
  have sameLen : extensionLen second state.cursor = extensionLen first state.cursor := by
    unfold extensionLen
    rw [byteAt_eq, byteAt_eq, inner (state.cursor + 1) (by omega) (by omega)]
  have options : slice second (state.cursor + 2) (state.cursor + extensionLen first state.cursor) =
      slice first (state.cursor + 2) (state.cursor + extensionLen first state.cursor) :=
    slice_congr_of_le secondLong firstLong fun i above below => inner i (by omega) below
  refine extensionHeader_eq_ok.mpr ⟨⟨?_, ?_, ?_, ?_⟩, recorded, record, ?_⟩
  · rw [sameLen]
    exact within
  · rw [sameLen]
    exact valid.bound
  · rw [sameLen, options]
    exact valid.options
  · rw [inner (state.cursor + 3) (by omega) (by omega)]
    exact valid.segments
  · unfold ExtensionState.advance
    rw [sameLen]

namespace ExtensionReach

variable {bytes : List UInt8} {totalLen turns : Nat} {state : ExtensionState}

section

variable (reach : ExtensionReach bytes totalLen turns state)
include reach

theorem loop (source destination : Ipv6Addr) (allowed : Bool) (remaining : Nat) :
    extensionLoop bytes totalLen source destination allowed (turns + remaining) (.new (byte bytes 6)) =
      extensionLoop bytes totalLen source destination allowed remaining state := by
  induction reach generalizing remaining with
  | start => rw [Nat.zero_add]
  | @next turns state after before extension turn ih =>
    have count : turns + 1 + remaining = turns + (remaining + 1) := by omega
    rw [count, ih (remaining + 1), extensionLoop.eq_def]
    dsimp only
    rw [if_pos extension, turn]
    rfl

theorem cursor (long : 40 ≤ totalLen) :
    40 ≤ state.cursor ∧ state.cursor ≤ totalLen ∧ (state.nextHeaderField = 6 ∨ 40 ≤ state.nextHeaderField) ∧
      state.nextHeaderField < state.cursor ∧ byte bytes state.nextHeaderField = state.nextHeader := by
  cases reach with
  | start => exact ⟨le_rfl, long, .inl rfl, (by decide : 6 < 40), rfl⟩
  | next before extension turn =>
    have start : ∀ {turns state}, ExtensionReach bytes totalLen turns state → 40 ≤ state.cursor := by
      intro turns state reach
      induction reach with
      | start => exact le_rfl
      | next before extension turn ih => exact ih.trans (by have := extensionHeader_cursor turn; omega)
    have above := start before
    have bounds := extensionHeader_cursor turn
    obtain ⟨_, recorded, _, rfl⟩ := extensionHeader_eq_ok.mp turn
    unfold ExtensionState.advance at *
    dsimp only at *
    exact ⟨by omega, by omega, .inr above, by omega, rfl⟩

theorem few :
    turns = state.seenHopByHop.toNat + state.seenRouting.toNat + state.destinationHeaders ∧ state.destinationHeaders ≤ 2 := by
  induction reach with
  | start => exact ⟨rfl, Nat.zero_le 2⟩
  | next before extension turn ih =>
    obtain ⟨_, recorded, record, rfl⟩ := extensionHeader_eq_ok.mp turn
    unfold ExtensionState.advance
    dsimp only
    unfold ExtensionState.record at record
    split at record
    · simp only [bind_eq_ok, rejectIf_eq_ok, exists_const] at record
      obtain ⟨fresh, same⟩ := record
      cases Except.ok.inj same
      have unseen := (not_or.mp fresh).1
      simp only [Bool.not_eq_true] at unseen
      simp only [unseen, Bool.toNat_true, Bool.toNat_false] at ih ⊢
      omega
    · split at record
      · simp only [bind_eq_ok, rejectIf_eq_ok, exists_const] at record
        obtain ⟨fresh, same⟩ := record
        cases Except.ok.inj same
        have unseen := (not_or.mp fresh).1
        simp only [Bool.not_eq_true] at unseen
        simp only [unseen, Bool.toNat_true, Bool.toNat_false] at ih ⊢
        omega
      · simp only [bind_eq_ok, rejectIf_eq_ok, exists_const] at record
        obtain ⟨fresh, same⟩ := record
        cases Except.ok.inj same
        dsimp only
        omega

theorem turns_le : turns ≤ 4 := by
  have counts := reach.few
  have hop := Bool.toNat_le state.seenHopByHop
  have routing := Bool.toNat_le state.seenRouting
  omega

theorem transfer {other : List UInt8} {otherLen : Nat}
    (long : 40 ≤ totalLen) (bytesLong : totalLen ≤ bytes.length) (otherLong : state.cursor ≤ other.length)
    (within : state.cursor ≤ otherLen) (same : ∀ i, 6 ≤ i → i < state.cursor → byte other i = byte bytes i) :
    ExtensionReach other otherLen turns state := by
  induction reach with
  | start =>
    have link : byte other 6 = byte bytes 6 := same 6 le_rfl (by decide : 6 < 40)
    rw [← link]
    exact .start
  | @next turns state after before extension turn ih =>
    have bounds := extensionHeader_cursor turn
    have start := before.cursor long
    have earlier := ih (by omega) (by omega) fun i above below => same i above (by omega)
    have moved := extensionHeader_transfer turn (by omega) otherLong within fun i above below => same i (by omega) below
    rw [same state.cursor (by omega) (by omega)] at moved
    refine .next earlier extension (moved.trans ?_)
    obtain ⟨_, recorded, _, rfl⟩ := extensionHeader_eq_ok.mp turn
    rfl

theorem linked {other : List UInt8} {otherLen : Nat} {nextHeader : UInt8}
    (long : 40 ≤ totalLen) (bytesLong : totalLen ≤ bytes.length) (otherLong : state.cursor ≤ other.length)
    (within : state.cursor ≤ otherLen)
    (same : ∀ i, 6 ≤ i → i < state.cursor → i ≠ state.nextHeaderField → byte other i = byte bytes i)
    (link : byte other state.nextHeaderField = nextHeader) :
    ExtensionReach other otherLen turns { state with nextHeader } := by
  cases reach with
  | start =>
    subst link
    exact .start
  | @next turns last _ before extension turn =>
    have bounds := extensionHeader_cursor turn
    have start := before.cursor long
    have field : state.nextHeaderField = last.cursor := by
      obtain ⟨_, recorded, _, rfl⟩ := extensionHeader_eq_ok.mp turn
      rfl
    rw [field] at same link
    have earlier : ExtensionReach other otherLen turns last :=
      before.transfer long bytesLong (by omega) (by omega) fun i above below => same i above (by omega) (by omega)
    have moved := extensionHeader_transfer turn (by omega) otherLong within
      fun i above below => same i (by omega) below (by omega)
    rw [link] at moved
    exact .next earlier extension moved

end

end ExtensionReach

/-- The packet is a fragment of an IPv6 datagram whose unfragmentable part ends where the state
stands: that part, linked to a fragment header, the fragment header, and a piece. -/
structure Ipv6FragmentOf (datagram : List UInt8) (state : ExtensionState) (identification : U32) (piece : Piece)
    (more : Bool) (packet : List UInt8) : Prop where
  length : packet.length = state.cursor + 8 + piece.bytes.length
  bound : packet.length ≤ maxReassembledPacket
  front : ∀ i, i < 4 → byte packet i = byte datagram i
  total : be16 packet 4 = packet.length - 40
  unfragmentable : ∀ i, 6 ≤ i → i < state.cursor → i ≠ state.nextHeaderField → byte packet i = byte datagram i
  linked : byte packet state.nextHeaderField = ipv6Fragment
  next : byte packet state.cursor = state.nextHeader
  reserved : byte packet (state.cursor + 1) = 0
  field : be16 packet (state.cursor + 2) = piece.offset + if more then 1 else 0
  named : u32At packet (state.cursor + 4) = identification
  payload : packet.drop (state.cursor + 8) = piece.bytes

def ipv6FragmentKey (datagram : List UInt8) (state : ExtensionState) (identification : U32) : FragmentKey :=
  .ipv6 ⟨ipv6At datagram 8, ipv6At datagram 24, state.nextHeader, identification⟩

theorem ipv6At_congr {start : Nat}
    (same : ∀ i, start ≤ i → i < start + 16 → byte first i = byte second i) : ipv6At first start = ipv6At second start := by
  unfold ipv6At
  congr 1
  funext k
  exact same _ (by omega) (by omega)

theorem offsetFlags {offset : Nat} (aligned : offset % 8 = 0) (small : offset < 65536) (more : Bool) :
    (offset + if more then 1 else 0) &&& 0x0006 = 0 ∧
      ((offset + if more then 1 else 0) &&& 0xfff8) >>> 3 * 8 = offset ∧
      decide ((offset + if more then 1 else 0) &&& 1 ≠ 0) = more := by
  have low : (offset + if more then 1 else 0) &&& 0x0006 = ((offset + if more then 1 else 0) &&& 7) &&& 6 := by
    rw [Nat.and_assoc]
    rfl
  have rest := Nat.and_two_pow_sub_one_eq_mod (offset + if more then 1 else 0) 3
  have units := Nat.and_two_pow_sub_one_eq_mod ((offset + if more then 1 else 0) >>> 3) 13
  have high : ((offset + if more then 1 else 0) &&& 0xfff8) >>> 3 = (offset + if more then 1 else 0) >>> 3 &&& 0x1fff := by
    have mask : (0xfff8 : Nat) >>> 3 = 0x1fff := by decide
    rw [Nat.shiftRight_and_distrib, mask]
  norm_num at rest units
  rw [low, rest, high, units, Nat.and_one_is_mod, Nat.shiftRight_eq_div_pow]
  cases more with
  | true =>
    simp only [if_true]
    have one : (offset + 1) % 8 = 1 := by omega
    refine ⟨by rw [one]; rfl, by omega, decide_eq_true (by omega)⟩
  | false =>
    simp only [Bool.false_eq_true, if_false, Nat.add_zero]
    refine ⟨by rw [aligned]; rfl, by omega, decide_eq_false (by omega)⟩

/-- A place of a datagram at which the fragment header can stand: what the parser asks of the
unfragmentable part. -/
structure Ipv6Cut (datagram : List UInt8) (state : ExtensionState) : Prop where
  reach : ∃ turns, ExtensionReach datagram datagram.length turns state
  room : state.extensionBytes + 8 ≤ maxExtensionBytes
  order : state.destinationAfterRouting = false

namespace Ipv6FragmentOf

variable {datagram packet : List UInt8} {state : ExtensionState} {identification : U32} {piece : Piece} {more : Bool}

def parsed (datagram : List UInt8) (state : ExtensionState) (identification : U32) (piece : Piece) (more : Bool) :
    ParsedFragment :=
  ⟨.ipv6, .v6 (ipv6At datagram 8), .v6 (ipv6At datagram 24), state.nextHeader,
    ipv6FragmentKey datagram state identification, piece.offset, more, state.cursor + 8, piece.bytes.length,
    .ipv6 state.cursor state.nextHeaderField⟩

variable {turns : Nat}

theorem nextHeader_fragmentable {final : ExtensionState} (reach : ExtensionReach datagram datagram.length turns state)
    (extensions : ipv6Extensions datagram true = .ok (.inl final)) :
    ¬(state.nextHeader = ipv6Fragment ∨ state.nextHeader = ipv6Esp ∨ state.nextHeader = ipv6Ah ∨
      state.nextHeader = ipv6NoNextHeader) := by
  have few := reach.turns_le
  have count : maxExtensionHeaders = turns + (maxExtensionHeaders - turns) := by
    unfold maxExtensionHeaders
    omega
  unfold ipv6Extensions at extensions
  rw [count, reach.loop] at extensions
  have kinds : state.nextHeader = ipv6HopByHop ∨ state.nextHeader = ipv6Routing ∨ state.nextHeader = ipv6DestinationOptions ∨
      state.nextHeader = ipProtocolTcp ∨ state.nextHeader = ipProtocolUdp := by
    rcases extensionLoop_eq_transport.mp extensions with ⟨extension, _⟩ | ⟨_, transport, _⟩
    · rcases extension with hop | routing | destination
      · exact .inl hop
      · exact .inr (.inl routing)
      · exact .inr (.inr (.inl destination))
    · exact .inr (.inr (.inr transport))
  rcases kinds with same | same | same | same | same <;> rw [same] <;> decide

theorem parse {final : ExtensionState} (fragment : Ipv6FragmentOf datagram state identification piece more packet)
    (whole : Ipv6Header datagram) (extensions : ipv6Extensions datagram true = .ok (.inl final))
    (cut : Ipv6Cut datagram state) (placed : piece.Placed more (datagram.length - state.cursor)) :
    parseIpv6 packet true = .ok (.fragment (parsed datagram state identification piece more)) := by
  obtain ⟨turns, reach⟩ := cut.reach
  obtain ⟨above, below, fieldAbove, fieldBelow, link⟩ := reach.cursor whole.long
  have few := reach.turns_le
  have long := whole.long
  have bound := whole.bound
  have length := fragment.length
  have fits := fragment.bound
  have total := fragment.total
  have inside := placed.inside
  have nonempty := List.length_pos_iff.mpr placed.nonempty
  unfold maxReassembledPacket at bound fits
  unfold Extent.stop at inside
  obtain ⟨reservedBits, offset, moreFragments⟩ := offsetFlags placed.aligned (by omega) more
  rw [← fragment.field] at reservedBits offset moreFragments
  have source : ipv6At packet 8 = ipv6At datagram 8 := by
    exact ipv6At_congr fun i low high => fragment.unfragmentable i (by omega) (by omega) (by omega)
  have destination : ipv6At packet 24 = ipv6At datagram 24 := by
    exact ipv6At_congr fun i low high => fragment.unfragmentable i (by omega) (by omega) (by omega)
  have walk := reach.linked long le_rfl (by omega : state.cursor ≤ packet.length) (by omega : state.cursor ≤ packet.length)
    fragment.unfragmentable fragment.linked
  have count : maxExtensionHeaders = turns + (maxExtensionHeaders - turns) := by
    unfold maxExtensionHeaders
    omega
  have header : fragmentHeader packet packet.length (ipv6At datagram 8) (ipv6At datagram 24) true
      (maxExtensionHeaders - turns) { state with nextHeader := ipv6Fragment } =
      .ok (parsed datagram state identification piece more) := by
    have payloadLen : packet.length - (state.cursor + 8) = piece.bytes.length := by omega
    unfold fragmentHeader
    simp only [bind_eq_ok, rejectIf_eq_ok, exists_const, payloadLen, fragment.next, fragment.named, offset, moreFragments]
    refine ⟨?_, ?_, ?_, ?_, ?_, ?_, ?_, rfl⟩
    · unfold maxExtensionHeaders
      rw [cut.order]
      simp
      omega
    · have room := cut.room
      omega
    · simpa using nextHeader_fragmentable reach extensions
    · exact not_not.mpr fragment.reserved
    · exact not_not.mpr reservedBits
    · rintro (none | ⟨set, odd⟩)
      · omega
      · exact odd (placed.whole set)
    · unfold maxReassembledPacket
      omega
  refine parseIpv6_eq_ok.mpr ⟨⟨by omega, ?_, by omega, by omega, fragment.bound, ?_, ?_⟩, .inl ⟨_, ?_, rfl⟩⟩
  · rw [byteAt_eq, fragment.front 0 (by omega)]
    exact whole.version
  · rw [source]
    exact whole.source
  · rw [destination]
    exact whole.destination
  · unfold ipv6Extensions
    rw [source, destination, count, walk.loop, extensionLoop.eq_def]
    dsimp only
    have plain : ¬({ state with nextHeader := ipv6Fragment } : ExtensionState).isExtension := by
      change ¬(ipv6Fragment = ipv6HopByHop ∨ ipv6Fragment = ipv6Routing ∨ ipv6Fragment = ipv6DestinationOptions)
      decide
    rw [if_neg plain, if_pos rfl, header]
    rfl

/-- The unfragmentable part as the fragments have it, without their length. -/
def normalizedPrefix (datagram : List UInt8) (state : ExtensionState) : List UInt8 :=
  fillZero (copyFromSlice (datagram.take state.cursor) state.nextHeaderField [ipv6Fragment]) 4 6

def layout (datagram : List UInt8) (state : ExtensionState) : Layout :=
  .ipv6 (normalizedPrefix datagram state) state.cursor state.nextHeaderField state.nextHeader

theorem prefix_eq (fragment : Ipv6FragmentOf datagram state identification piece more packet)
    (reach : ExtensionReach datagram datagram.length turns state) (long : 40 ≤ datagram.length) :
    fillZero (packet.take state.cursor) 4 6 = normalizedPrefix datagram state := by
  obtain ⟨above, below, field, fieldBelow, link⟩ := reach.cursor long
  have length := fragment.length
  have own : (packet.take state.cursor).length = state.cursor := List.length_take_of_le (by omega)
  have other : (datagram.take state.cursor).length = state.cursor := List.length_take_of_le below
  have fits : state.nextHeaderField + [ipv6Fragment].length ≤ (datagram.take state.cursor).length := by
    rw [other, List.length_singleton]
    omega
  have written := (length_copyFromSlice fits).trans other
  have zeroed := (length_fillZero (by omega : 4 ≤ 6) (by omega : 6 ≤ (packet.take state.cursor).length)).trans own
  refine ext_byte ?_ ?_
  · rw [zeroed, normalizedPrefix, length_fillZero (by omega) (by omega), written]
  · intro i inside
    rw [zeroed] at inside
    rw [normalizedPrefix, byte_fillZero (by omega) (by omega), byte_fillZero (by omega) (by omega),
      byte_copyFromSlice fits, List.length_singleton, byte_take inside, byte_take inside]
    split
    · rfl
    · rename_i outside
      split
      · rename_i here
        have same : i = state.nextHeaderField := by omega
        rw [same, fragment.linked, Nat.sub_self]
        rfl
      · rename_i there
        by_cases first : i < 4
        · exact fragment.front i first
        · exact fragment.unfragmentable i (by omega) inside (by omega)

theorem carries {arrival : Arrival} {total : Nat}
    (fragment : Ipv6FragmentOf datagram state identification piece more arrival.packet)
    (reach : ExtensionReach datagram datagram.length turns state) (long : 40 ≤ datagram.length)
    (parsed : arrival.fragment = parsed datagram state identification piece more)
    (placed : piece.Placed more total) (bound : total ≤ maxReassembledPacket) (last : more = decide (piece.stop ≠ total)) :
    arrival.piece = piece ∧
      arrival.Carries (ipv6FragmentKey datagram state identification) arrival.generation (layout datagram state) total := by
  obtain ⟨above, below, field, fieldBelow, link⟩ := reach.cursor long
  have length := fragment.length
  have samePiece : arrival.piece = piece := by
    unfold Arrival.piece
    rw [parsed]
    exact congrArg (Extent.mk piece.offset) fragment.payload
  have found : takeChecked arrival.packet state.cursor = some (arrival.packet.take state.cursor) :=
    takeChecked_eq_some.mpr ⟨by omega, rfl⟩
  have own : (arrival.packet.take state.cursor).length = state.cursor := List.length_take_of_le (by omega)
  have front := fragment.prefix_eq reach long
  refine ⟨samePiece, ?_, rfl, ?_, ⟨?_, ?_, ?_, ?_⟩, ?_, ?_, ?_⟩
  · rw [Arrival.key, parsed]
    rfl
  · rw [parsed]
    simp [ParsedFragment.identityMatchesKey, Ipv6FragmentOf.parsed, ipv6FragmentKey]
  · rw [parsed]
    exact length.symm
  · rw [parsed]
    exact fun none => placed.nonempty (List.eq_nil_of_length_eq_zero none)
  · rw [parsed]
    rcases placed.several with set | later
    · simp [ParsedFragment.isAtomic, Ipv6FragmentOf.parsed, set]
    · simp [ParsedFragment.isAtomic, Ipv6FragmentOf.parsed, later]
  · rw [parsed]
    exact placed.inside.trans bound
  · rw [samePiece, parsed]
    exact last
  · have shaped : arrival.layout = some (layout datagram state) := by
      unfold Arrival.layout layoutFor
      rw [parsed]
      simp [Ipv6FragmentOf.parsed, not_le.mpr fieldBelow, found, front, layout]
    rw [shaped]
    split <;> rfl
  · intro current same
    rw [parsed]
    cases current with
    | ipv4 => simp [layout, Layout.identity] at same
    | ipv6 =>
      cases same
      obtain ⟨sized, head, tail⟩ := fillZero_length_field (by omega : 6 ≤ (arrival.packet.take state.cursor).length)
      rw [front] at sized head tail
      simp only [layoutMatchesPacket, Ipv6FragmentOf.parsed, found, sized, head, tail, beq_self_eq_true, Bool.and_true,
        decide_eq_true_eq]
      omega

theorem rebuilt (reach : ExtensionReach datagram datagram.length turns state) (whole : Ipv6Header datagram) :
    reconstructHeader (layout datagram state) (datagram.length - state.cursor) = some (datagram.take state.cursor) := by
  obtain ⟨above, below, field, fieldBelow, link⟩ := reach.cursor whole.long
  have bound := whole.bound
  have total := whole.total
  have other : (datagram.take state.cursor).length = state.cursor := List.length_take_of_le below
  have one : ∀ value : UInt8, [value].length = 1 := fun value => rfl
  have fits : state.nextHeaderField + [ipv6Fragment].length ≤ (datagram.take state.cursor).length := by
    rw [other, one]
    omega
  have written := (length_copyFromSlice fits).trans other
  have sized : (normalizedPrefix datagram state).length = state.cursor :=
    (length_fillZero (by omega) (by omega)).trans written
  have linkFits : state.nextHeaderField + [state.nextHeader].length ≤ (normalizedPrefix datagram state).length := by
    rw [sized, one]
    omega
  have relinked := (length_copyFromSlice linkFits).trans sized
  have sum : state.cursor + (datagram.length - state.cursor) = datagram.length := by omega
  unfold reconstructHeader layout
  dsimp only
  rw [sum, if_neg (by omega), Option.some.injEq]
  have length : u16Of (datagram.length - 40) = u16At datagram 4 := by
    refine Fin.ext ?_
    change (datagram.length - 40) % 65536 = be16 datagram 4
    have small := be16_lt datagram 4
    omega
  rw [length]
  have lengthFits : 4 + (u16At datagram 4).toBeBytes.length ≤
      (copyFromSlice (normalizedPrefix datagram state) state.nextHeaderField [state.nextHeader]).length := by
    rw [relinked, U16.length_toBeBytes]
    omega
  refine ext_byte ?_ ?_
  · rw [length_copyFromSlice lengthFits, relinked, other]
  · intro i inside
    rw [length_copyFromSlice lengthFits, relinked] at inside
    rw [byte_copyFromSlice lengthFits, U16.length_toBeBytes, U16.toBeBytes_u16At, byte_copyFromSlice linkFits, one,
      normalizedPrefix, byte_fillZero (by omega) (by omega), byte_copyFromSlice fits, one, byte_take inside]
    split
    · rename_i here
      have which : i = 4 ∨ i = 5 := by omega
      rcases which with rfl | rfl <;> rfl
    · split
      · rename_i here
        have same : i = state.nextHeaderField := by omega
        rw [same, Nat.sub_self, link]
        rfl
      · rfl

end Ipv6FragmentOf

end Ferrum.Tun
