import Mathlib.Data.Nat.Bitwise
import Mathlib.Tactic.IntervalCases
import Ferrum.Tun.Ipv4Options
import Ferrum.Tun.ReassemblyOrder

namespace Ferrum.Tun

open List

/-- The packet is a fragment of an IPv4 datagram: its header differs from the datagram's in the
lengths, the identification, the fragment field and the checksum. The first fragment has all the
options of the datagram, a later one those copied into every fragment. -/
structure Ipv4FragmentOf (datagram : List UInt8) (identification : U16) (piece : Piece) (more : Bool)
    (packet : List UInt8) : Prop where
  version : byteAt packet 0 >>> 4 = 4
  header : 20 ≤ ipv4HeaderLen packet ∧ ipv4HeaderLen packet ≤ ipv4HeaderLen datagram
  long : ipv4HeaderLen packet ≤ packet.length
  payload : packet.drop (ipv4HeaderLen packet) = piece.bytes
  service : byte packet 1 = byte datagram 1
  total : be16 packet 2 = packet.length
  named : u16At packet 4 = identification
  field : be16 packet 6 = piece.offset / 8 + if more then 0x2000 else 0
  lifetime : byte packet 8 = byte datagram 8
  protocol : byte packet 9 = byte datagram 9
  checksum : internetChecksum [slice packet 0 (ipv4HeaderLen packet)] = 0
  addresses : ∀ i, 12 ≤ i → i < 20 → byte packet i = byte datagram i
  first : piece.offset = 0 → ipv4HeaderLen packet = ipv4HeaderLen datagram ∧
    slice packet 20 (ipv4HeaderLen packet) = slice datagram 20 (ipv4HeaderLen datagram)
  later : piece.offset ≠ 0 →
    CarriesCopied (slice datagram 20 (ipv4HeaderLen datagram)) (slice packet 20 (ipv4HeaderLen packet))

/-- The datagram with the identification of its fragments, with no fragment field and with its
header checksum computed anew. -/
def unfragmentedIpv4 (datagram : List UInt8) (identification : U16) : List UInt8 :=
  let named := copyFromSlice datagram 4 identification.toBeBytes
  let blank := fillZero (fillZero named 6 8) 10 12
  copyFromSlice blank 10 (internetChecksum [blank.take (ipv4HeaderLen datagram)]).toBeBytes

def ipv4FragmentKey (datagram : List UInt8) (identification : U16) : FragmentKey :=
  .ipv4 ⟨ipv4At datagram 12, ipv4At datagram 16, byte datagram 9, identification⟩

/-- The place of a piece in a payload that fragments can say: aligned, not empty, and not alone. -/
structure Piece.Placed (piece : Piece) (more : Bool) (total : Nat) : Prop where
  aligned : piece.offset % 8 = 0
  nonempty : piece.bytes ≠ []
  whole : more = true → piece.bytes.length % 8 = 0
  inside : piece.stop ≤ total
  several : more = true ∨ piece.offset ≠ 0

theorem and_two_pow_eq (value bit : Nat) : value &&& 2 ^ bit = value / 2 ^ bit % 2 * 2 ^ bit := by
  rw [Nat.and_two_pow, Nat.testBit_eq_decide_div_mod_eq]
  rcases Nat.mod_two_eq_zero_or_one (value / 2 ^ bit) with even | odd
  · simp [even]
  · simp [odd]

theorem fragmentField {units : Nat} (small : units < 8192) (more : Bool) :
    (units + if more then 0x2000 else 0) &&& 0x8000 = 0 ∧ (units + if more then 0x2000 else 0) &&& 0x4000 = 0 ∧
      decide ((units + if more then 0x2000 else 0) &&& 0x2000 ≠ 0) = more ∧
      (units + if more then 0x2000 else 0) &&& 0x1fff = units := by
  have top := and_two_pow_eq (units + if more then 0x2000 else 0) 15
  have next := and_two_pow_eq (units + if more then 0x2000 else 0) 14
  have flag := and_two_pow_eq (units + if more then 0x2000 else 0) 13
  have rest := Nat.and_two_pow_sub_one_eq_mod (units + if more then 0x2000 else 0) 13
  norm_num at top next flag rest
  cases more with
  | true =>
    simp only [if_true] at *
    refine ⟨by omega, by omega, ?_, by omega⟩
    rw [flag]
    exact decide_eq_true (by omega)
  | false =>
    simp only [Bool.false_eq_true, if_false] at *
    refine ⟨by omega, by omega, ?_, by omega⟩
    rw [flag]
    exact decide_eq_false (by omega)

variable {bytes first second : List UInt8} {start stop : Nat}

theorem length_fillZero (order : start ≤ stop) (fits : stop ≤ bytes.length) :
    (fillZero bytes start stop).length = bytes.length := by
  unfold fillZero
  rw [length_copyFromSlice]
  rw [length_replicate]
  omega

theorem byte_fillZero (order : start ≤ stop) (fits : stop ≤ bytes.length) (i : Nat) :
    byte (fillZero bytes start stop) i = if start ≤ i ∧ i < stop then 0 else byte bytes i := by
  unfold fillZero
  rw [byte_copyFromSlice (by rw [length_replicate]; omega), length_replicate]
  have count : start + (stop - start) = stop := by omega
  rw [count]
  split
  · rw [byte, getD_eq_getElem?_getD, List.getElem?_replicate]
    split <;> rfl
  · rfl

theorem U16.toBeBytes_u16At (bytes : List UInt8) (i : Nat) : (u16At bytes i).toBeBytes = [byte bytes i, byte bytes (i + 1)] := by
  have high := byteAt_lt bytes i
  have low := byteAt_lt bytes (i + 1)
  have first : (byteAt bytes i * 256 + byteAt bytes (i + 1)) / 256 = byteAt bytes i := by omega
  have second : (byteAt bytes i * 256 + byteAt bytes (i + 1)) % 256 = byteAt bytes (i + 1) := by omega
  simp only [U16.toBeBytes, u16At, be16, first, second]
  simp only [byteAt_eq, UInt8.ofNat_toNat]

theorem byteAt_split (bytes : List UInt8) : byteAt bytes 0 = byteAt bytes 0 >>> 4 * 16 + (byteAt bytes 0 &&& 0x0f) := by
  have rest := Nat.and_two_pow_sub_one_eq_mod (byteAt bytes 0) 4
  norm_num at rest
  rw [rest, Nat.shiftRight_eq_div_pow]
  omega

theorem normalizedFixedHeader_congr (firstLong : 20 ≤ first.length)
    (secondLong : 20 ≤ second.length) (version : byte first 0 &&& 0xf0 = byte second 0 &&& 0xf0)
    (same : ∀ i, i = 1 ∨ i = 4 ∨ i = 5 ∨ i = 8 ∨ i = 9 ∨ 12 ≤ i ∧ i < 20 → byte first i = byte second i) :
    normalizedFixedHeader first = normalizedFixedHeader second := by
  have takes : ∀ header : List UInt8, 20 ≤ header.length → (normalizedFixedHeader header).length = 20 ∧
      ∀ i, i < 20 → byte (normalizedFixedHeader header) i =
        if 10 ≤ i ∧ i < 12 then 0 else if 6 ≤ i ∧ i < 8 then 0 else if 2 ≤ i ∧ i < 4 then 0
        else if i = 0 then byte header 0 &&& 0xf0 else byte header i := by
    intro header long
    have length : (header.take 20).length = 20 := length_take_of_le long
    have fixed : (copyFromSlice (header.take 20) 0 [byte header 0 &&& 0xf0]).length = 20 := by
      rw [length_copyFromSlice (by simp; omega), length]
    have sized := (length_fillZero (by omega) (by omega : 4 ≤ _) : (fillZero _ 2 4).length = _).trans fixed
    have flagged := (length_fillZero (by omega) (by omega : 8 ≤ _) : (fillZero _ 6 8).length = _).trans sized
    refine ⟨(length_fillZero (by omega) (by omega)).trans flagged, ?_⟩
    · intro i inside
      unfold normalizedFixedHeader
      rw [byte_fillZero (by omega) (by omega), byte_fillZero (by omega) (by omega), byte_fillZero (by omega) (by omega),
        byte_copyFromSlice (by simp; omega)]
      by_cases zero : i = 0
      · subst zero
        simp [byte]
      · simp [zero, byte_take inside]
  obtain ⟨firstLength, firstBytes⟩ := takes first firstLong
  obtain ⟨secondLength, secondBytes⟩ := takes second secondLong
  refine ext_byte (firstLength.trans secondLength.symm) ?_
  intro i inside
  rw [firstLength] at inside
  rw [firstBytes i inside, secondBytes i inside]
  split
  · rfl
  · split
    · rfl
    · split
      · rfl
      · split
        · exact version
        · exact same i (by omega)

theorem ipv4At_congr
    (same : ∀ i, start ≤ i → i < start + 4 → byte first i = byte second i) : ipv4At first start = ipv4At second start := by
  unfold ipv4At
  congr 1
  funext k
  exact same _ (by omega) (by omega)

theorem layoutFor_ipv4 {packet header normalized : List UInt8} {fragment : ParsedFragment} {headerLen : Nat}
    (shape : fragment.reconstruction = .ipv4 headerLen) (found : takeChecked packet headerLen = some header)
    (normal : normalizedIpv4Header header (fragment.offset == 0) = some normalized) :
    layoutFor packet fragment = some (.ipv4 normalized (if fragment.offset = 0 then some header else none)) := by
  unfold layoutFor
  rw [shape]
  simp [found, normal]

namespace Ipv4FragmentOf

variable {datagram packet : List UInt8} {identification : U16} {piece : Piece} {more : Bool}

def parsed (datagram : List UInt8) (identification : U16) (piece : Piece) (more : Bool) (headerLen : Nat) : ParsedFragment :=
  ⟨.ipv4, .v4 (ipv4At datagram 12), .v4 (ipv4At datagram 16), byte datagram 9, ipv4FragmentKey datagram identification,
    piece.offset, more, headerLen, piece.bytes.length, .ipv4 headerLen⟩

section

variable (fragment : Ipv4FragmentOf datagram identification piece more packet)
include fragment

theorem options (whole : Ipv4Header datagram) :
    validateIpv4Options (slice packet 20 (ipv4HeaderLen packet)) = .ok () := by
  by_cases zero : piece.offset = 0
  · rw [(fragment.first zero).2]
    exact whole.options
  · exact (fragment.later zero).accepted whole.options

theorem length : packet.length = ipv4HeaderLen packet + piece.bytes.length := by
  have long := fragment.long
  rw [← fragment.payload, length_drop]
  omega

theorem parse (whole : Ipv4Header datagram)
    (transport : byte datagram 9 = ipProtocolTcp ∨ byte datagram 9 = ipProtocolUdp)
    (placed : piece.Placed more (datagram.length - ipv4HeaderLen datagram)) :
    parseIpv4 packet true = .ok (.fragment (parsed datagram identification piece more (ipv4HeaderLen packet))) := by
  have words : ipv4HeaderLen packet ≤ 60 := fragment.header.2.trans whole.words.2
  have fits := whole.fits
  have total := whole.total
  have size := be16_lt datagram 2
  have inside := placed.inside
  have aligned := placed.aligned
  have length := fragment.length
  have header := fragment.header
  have nonempty := length_pos_iff.mpr placed.nonempty
  unfold Extent.stop at inside
  have units : piece.offset / 8 < 8192 := by omega
  obtain ⟨reserved, dontFragment, moreFragments, offset⟩ := fragmentField units more
  rw [← fragment.field] at reserved dontFragment moreFragments offset
  have sameOffset : ipv4Offset packet = piece.offset := by
    unfold ipv4Offset
    omega
  have source : ipv4At packet 12 = ipv4At datagram 12 :=
    ipv4At_congr fun i above below => fragment.addresses i (by omega) (by omega)
  have destination : ipv4At packet 16 = ipv4At datagram 16 :=
    ipv4At_congr fun i above below => fragment.addresses i (by omega) (by omega)
  have fragmented : ipv4Fragmented packet := by
    rcases placed.several with set | later
    · exact .inl (by rw [ipv4MoreFragments, moreFragments, set])
    · exact .inr (by rw [sameOffset]; exact later)
  refine parseIpv4_eq_ok.mpr ⟨⟨by omega, fragment.version, ⟨fragment.header.1, words⟩, fragment.long, fragment.total,
    fragment.checksum, fragment.options whole, ?_, ?_, reserved, fun set => absurd dontFragment set⟩,
    .inl ⟨fragmented, ?_⟩⟩
  · rw [source]
    exact whole.source
  · rw [destination]
    exact whole.destination
  · have payloadLen : packet.length - ipv4HeaderLen packet = piece.bytes.length := by omega
    rw [source, destination, fragment.protocol, sameOffset, ipv4Key, source, destination, fragment.protocol, fragment.named,
      ipv4MoreFragments, moreFragments]
    unfold parseIpv4Fragment
    simp only [payloadLen, bind_eq_ok, rejectIf_eq_ok, exists_const]
    refine ⟨?_, ?_, ?_, rfl⟩
    · rintro (off | other)
      · exact off trivial
      · exact other transport
    · rintro (none | ⟨set, odd⟩)
      · omega
      · exact odd (placed.whole set)
    · unfold maxReassembledPacket
      omega

theorem normalized (whole : Ipv4Header datagram)
    {options : List Ipv4Option} (shape : OptionsOf (slice datagram 20 (ipv4HeaderLen datagram)) options) :
    normalizedIpv4Header (packet.take (ipv4HeaderLen packet)) (piece.offset == 0) =
      some (normalizedFixedHeader (packet.take (ipv4HeaderLen packet)) ++
        (options.filter Ipv4Option.copied).flatMap Ipv4Option.bytes) := by
  have words : ipv4HeaderLen packet ≤ 60 := fragment.header.2.trans whole.words.2
  have length : (packet.take (ipv4HeaderLen packet)).length = ipv4HeaderLen packet := length_take_of_le fragment.long
  have lengths : 20 ≤ (packet.take (ipv4HeaderLen packet)).length ∧ (packet.take (ipv4HeaderLen packet)).length ≤ 60 := by
    rw [length]
    exact ⟨fragment.header.1, words⟩
  have multiple : (packet.take (ipv4HeaderLen packet)).length % 4 = 0 := by
    rw [length]
    unfold ipv4HeaderLen
    omega
  by_cases zero : piece.offset = 0
  · have area : OptionsOf ((packet.take (ipv4HeaderLen packet)).drop 20) options := by
      change OptionsOf (slice packet 20 (ipv4HeaderLen packet)) options
      rw [(fragment.first zero).2]
      exact shape
    exact normalizedIpv4Header_eq lengths multiple area (.inl (by simp [zero]))
  · obtain ⟨others, carried, original, area, same⟩ := fragment.later zero
    obtain ⟨filtered, only⟩ := carried_filter same
    rw [normalizedIpv4Header_eq lengths multiple area (.inr only), filtered, original.copied_unique shape]

theorem named_bytes : [byte packet 4, byte packet 5] = identification.toBeBytes := by
  rw [← fragment.named, U16.toBeBytes_u16At]

theorem version_nibble : byte packet 0 &&& 0xf0 = 0x40 := by
  have version := fragment.version
  rw [byteAt_eq] at version
  generalize byte packet 0 = first at version
  have bound := first.toNat_lt
  rw [Nat.shiftRight_eq_div_pow] at version
  rw [← UInt8.toNat_inj, UInt8.toNat_and]
  have value : 64 ≤ first.toNat ∧ first.toNat < 80 := by omega
  generalize first.toNat = number at value
  obtain ⟨lower, upper⟩ := value
  interval_cases number <;> rfl

theorem fixedHeader_eq {other : List UInt8} {otherPiece : Piece} {otherMore : Bool}
    (second : Ipv4FragmentOf datagram identification otherPiece otherMore other) :
    normalizedFixedHeader (packet.take (ipv4HeaderLen packet)) = normalizedFixedHeader (other.take (ipv4HeaderLen other)) := by
  have words := fragment.header.1
  have otherWords := second.header.1
  have names := fragment.named_bytes.trans second.named_bytes.symm
  simp only [List.cons.injEq, and_true] at names
  refine normalizedFixedHeader_congr ?_ ?_ ?_ ?_
  · rw [length_take_of_le fragment.long]
    exact words
  · rw [length_take_of_le second.long]
    exact otherWords
  · rw [byte_take (by omega), byte_take (by omega), fragment.version_nibble, second.version_nibble]
  · intro i which
    rw [byte_take (by omega), byte_take (by omega)]
    rcases which with rfl | rfl | rfl | rfl | rfl | ⟨above, below⟩
    · exact fragment.service.trans second.service.symm
    · exact names.1
    · exact names.2
    · exact fragment.lifetime.trans second.lifetime.symm
    · exact fragment.protocol.trans second.protocol.symm
    · exact (fragment.addresses i above below).trans (second.addresses i above below).symm

end

/-- The layout of the datagram's entry, which keeps the header of the first fragment. -/
def layout (opening : List UInt8) (normalized : List UInt8) : Layout :=
  .ipv4 normalized (some (opening.take (ipv4HeaderLen opening)))

theorem carries {arrival : Arrival} {opening normalized : List UInt8} {total : Nat}
    (fragment : Ipv4FragmentOf datagram identification piece more arrival.packet)
    (parsed : arrival.fragment = parsed datagram identification piece more (ipv4HeaderLen arrival.packet))
    (placed : piece.Placed more total) (bound : total ≤ maxReassembledPacket)
    (last : more = decide (piece.stop ≠ total)) (opens : piece.offset = 0 → arrival.packet = opening)
    (normal : normalizedIpv4Header (arrival.packet.take (ipv4HeaderLen arrival.packet)) (piece.offset == 0) = some normalized) :
    arrival.piece = piece ∧
      arrival.Carries (ipv4FragmentKey datagram identification) arrival.generation (layout opening normalized) total := by
  have length := fragment.length
  have samePiece : arrival.piece = piece := by
    unfold Arrival.piece
    rw [parsed]
    exact congrArg (Extent.mk piece.offset) fragment.payload
  have found : takeChecked arrival.packet (ipv4HeaderLen arrival.packet) =
      some (arrival.packet.take (ipv4HeaderLen arrival.packet)) :=
    takeChecked_eq_some.mpr ⟨fragment.long, rfl⟩
  refine ⟨samePiece, ?_, rfl, ?_, ⟨?_, ?_, ?_, ?_⟩, ?_, ?_, ?_⟩
  · rw [Arrival.key, parsed]
    rfl
  · rw [parsed]
    simp [ParsedFragment.identityMatchesKey, Ipv4FragmentOf.parsed, ipv4FragmentKey]
  · rw [parsed]
    exact length.symm
  · rw [parsed]
    exact fun none => placed.nonempty (eq_nil_of_length_eq_zero none)
  · rw [parsed]
    rfl
  · rw [parsed]
    exact placed.inside.trans bound
  · rw [samePiece, parsed]
    exact last
  · have offset : arrival.fragment.offset = piece.offset := by rw [parsed]; rfl
    rw [Arrival.layout, layoutFor_ipv4 (by rw [parsed]; rfl) found (by rw [offset]; exact normal), offset]
    split
    · rename_i zero
      rw [layout, ← opens zero]
    · rfl
  · intro current same
    rw [parsed]
    cases current with
    | ipv4 held first =>
      cases same
      simp only [layoutMatchesPacket, Ipv4FragmentOf.parsed, found, normal, beq_self_eq_true]
    | ipv6 => simp [layout, Layout.identity] at same

section

variable (fragment : Ipv4FragmentOf datagram identification piece more packet)
include fragment

theorem first_byte (zero : piece.offset = 0)
    (whole : Ipv4Header datagram) : byte packet 0 = byte datagram 0 := by
  have version := fragment.version
  have wholeVersion := whole.version
  have sameLen := (fragment.first zero).1
  unfold ipv4HeaderLen at sameLen
  have own := byteAt_split packet
  have other := byteAt_split datagram
  exact UInt8.toNat_inj.mp (by rw [← byteAt_eq, ← byteAt_eq]; omega)

theorem header_bytes (zero : piece.offset = 0)
    (whole : Ipv4Header datagram) {i : Nat} (inside : i < ipv4HeaderLen datagram)
    (other : ¬(2 ≤ i ∧ i < 8) ∧ ¬(10 ≤ i ∧ i < 12)) : byte packet i = byte datagram i := by
  obtain ⟨sameLen, options⟩ := fragment.first zero
  by_cases fixed : i < 20
  · by_cases addresses : 12 ≤ i
    · exact fragment.addresses i addresses fixed
    · have which : i = 0 ∨ i = 1 ∨ i = 8 ∨ i = 9 := by omega
      rcases which with rfl | rfl | rfl | rfl
      · exact fragment.first_byte zero whole
      · exact fragment.service
      · exact fragment.lifetime
      · exact fragment.protocol
  · have same := congrArg (fun bytes => byte bytes (i - 20)) options
    rw [byte_slice (by omega), byte_slice (by omega)] at same
    have index : 20 + (i - 20) = i := by omega
    rwa [index] at same

theorem blank_eq (zero : piece.offset = 0) (moreFragments : more = true) (whole : Ipv4Header datagram) :
    let sized := copyFromSlice (packet.take (ipv4HeaderLen packet)) 2 (u16Of datagram.length).toBeBytes
    fillZero (copyFromSlice sized 6 (u16Of (be16 sized 6 &&& 0x4000)).toBeBytes) 10 12 =
      (fillZero (fillZero (copyFromSlice datagram 4 identification.toBeBytes) 6 8) 10 12).take (ipv4HeaderLen datagram) := by
  intro sized
  obtain ⟨sameLen, _⟩ := fragment.first zero
  have words := whole.words
  have fits := whole.fits
  have length : (packet.take (ipv4HeaderLen packet)).length = ipv4HeaderLen datagram := by
    rw [length_take_of_le fragment.long, sameLen]
  have sizedLength : sized.length = ipv4HeaderLen datagram := by
    rw [length_copyFromSlice (by rw [length, U16.length_toBeBytes]; omega), length]
  have field : be16 sized 6 &&& 0x4000 = 0 := by
    have unchanged : be16 sized 6 = be16 packet 6 := by
      unfold be16
      rw [byteAt_eq, byteAt_eq, byteAt_eq, byteAt_eq,
        byte_copyFromSlice_outside (by rw [length, U16.length_toBeBytes]; omega) (by rw [U16.length_toBeBytes]; omega),
        byte_copyFromSlice_outside (by rw [length, U16.length_toBeBytes]; omega) (by rw [U16.length_toBeBytes]; omega),
        byte_take (by omega), byte_take (by omega)]
    rw [unchanged, fragment.field, zero, moreFragments]
    decide
  have cleared : (copyFromSlice sized 6 (u16Of (be16 sized 6 &&& 0x4000)).toBeBytes) = fillZero sized 6 8 := by
    rw [field]
    rfl
  rw [cleared]
  have named : (copyFromSlice datagram 4 identification.toBeBytes).length = datagram.length :=
    length_copyFromSlice (by rw [U16.length_toBeBytes]; omega)
  have clearedLength := length_fillZero (by omega : 6 ≤ 8) (by omega : 8 ≤ sized.length)
  have namedLength := length_fillZero (by omega : 6 ≤ 8) (by omega : 8 ≤ (copyFromSlice datagram 4 identification.toBeBytes).length)
  refine ext_byte ?_ ?_
  · rw [length_fillZero (by omega) (by omega), clearedLength, sizedLength, length_take,
      length_fillZero (by omega) (by omega), namedLength, named]
    omega
  · intro i inside
    rw [length_fillZero (by omega) (by omega), clearedLength, sizedLength] at inside
    rw [byte_take inside, byte_fillZero (by omega) (by omega), byte_fillZero (by omega) (by omega),
      byte_fillZero (by omega) (by omega), byte_fillZero (by omega) (by omega)]
    by_cases checksum : 10 ≤ i ∧ i < 12
    · rw [if_pos checksum, if_pos checksum]
    · rw [if_neg checksum, if_neg checksum]
      by_cases flags : 6 ≤ i ∧ i < 8
      · rw [if_pos flags, if_pos flags]
      · rw [if_neg flags, if_neg flags, byte_copyFromSlice (by rw [length, U16.length_toBeBytes]; omega),
          byte_copyFromSlice (by rw [U16.length_toBeBytes]; omega), U16.length_toBeBytes, U16.length_toBeBytes,
          byte_take (by omega)]
        have sameTotal : u16Of datagram.length = u16At datagram 2 := by
          have small := be16_lt datagram 2
          refine Fin.ext ?_
          change datagram.length % 65536 = be16 datagram 2
          rw [whole.total] at small ⊢
          exact Nat.mod_eq_of_lt small
        have names := fragment.named_bytes
        rw [sameTotal, U16.toBeBytes_u16At, ← names]
        by_cases sizes : 2 ≤ i ∧ i < 2 + 2
        · rw [if_pos sizes, if_neg (by omega)]
          have which : i = 2 ∨ i = 3 := by omega
          rcases which with rfl | rfl <;> rfl
        · rw [if_neg sizes]
          by_cases ident : 4 ≤ i ∧ i < 4 + 2
          · rw [if_pos ident]
            have which : i = 4 ∨ i = 5 := by omega
            rcases which with rfl | rfl <;> rfl
          · rw [if_neg ident]
            exact fragment.header_bytes zero whole inside ⟨by omega, by omega⟩

theorem rebuilt (zero : piece.offset = 0) (moreFragments : more = true) (whole : Ipv4Header datagram) :
    wholeIpv4Header (packet.take (ipv4HeaderLen packet)) datagram.length ++ datagram.drop (ipv4HeaderLen datagram) =
      unfragmentedIpv4 datagram identification := by
  have words := whole.words
  have fits := whole.fits
  have blank := fragment.blank_eq zero moreFragments whole
  have named : (copyFromSlice datagram 4 identification.toBeBytes).length = datagram.length :=
    length_copyFromSlice (by rw [U16.length_toBeBytes]; omega)
  have cleared := (length_fillZero (by omega : 6 ≤ 8)
    (by omega : 8 ≤ (copyFromSlice datagram 4 identification.toBeBytes).length)).trans named
  have blankLength := (length_fillZero (by omega : 10 ≤ 12)
    (by omega : 12 ≤ (fillZero (copyFromSlice datagram 4 identification.toBeBytes) 6 8).length)).trans cleared
  dsimp only at blank
  unfold wholeIpv4Header unfragmentedIpv4
  dsimp only
  rw [blank]
  generalize checksum : (internetChecksum
    [(fillZero (fillZero (copyFromSlice datagram 4 identification.toBeBytes) 6 8) 10 12).take (ipv4HeaderLen datagram)]) = sum
  have tail : (copyFromSlice (fillZero (fillZero (copyFromSlice datagram 4 identification.toBeBytes) 6 8) 10 12) 10
      sum.toBeBytes).drop (ipv4HeaderLen datagram) = datagram.drop (ipv4HeaderLen datagram) := by
    rw [drop_copyFromSlice_outside (by rw [U16.length_toBeBytes]; omega) (by rw [U16.length_toBeBytes]; omega)]
    unfold fillZero
    rw [drop_copyFromSlice_outside (by simp; omega) (by simp [fillZero] at cleared ⊢; omega),
      drop_copyFromSlice_outside (by simp; omega) (by simp; omega),
      drop_copyFromSlice_outside (by rw [U16.length_toBeBytes]; omega) (by rw [U16.length_toBeBytes]; omega)]
  rw [← tail, ← take_copyFromSlice (by rw [U16.length_toBeBytes]; omega) (by omega), take_append_drop]

end

end Ipv4FragmentOf

end Ferrum.Tun
