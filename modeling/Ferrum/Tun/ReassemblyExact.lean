import Ferrum.Tun.Ipv6Fragments

namespace Ferrum.Tun

open List

/-- A way to fragment a datagram: the key of the fragments, what is split, which packets carry a
piece of it, and the packet that they make up. -/
structure Fragmentation where
  key : FragmentKey
  payload : List UInt8
  fragmentOf : Piece → Bool → List UInt8 → Prop
  whole : List UInt8

/-- The ways to fragment a datagram that is accepted whole. -/
inductive Fragments (datagram : List UInt8) (metadata : ParsedIpPacket) : Fragmentation → Prop
  | ipv4 (identification : U16) (family : metadata.family = .ipv4) :
      Fragments datagram metadata ⟨ipv4FragmentKey datagram identification, datagram.drop (ipv4HeaderLen datagram),
        Ipv4FragmentOf datagram identification, unfragmentedIpv4 datagram identification⟩
  | ipv6 (state : ExtensionState) (identification : U32) (family : metadata.family = .ipv6)
      (cut : Ipv6Cut datagram state) :
      Fragments datagram metadata ⟨ipv6FragmentKey datagram state identification, datagram.drop state.cursor,
        Ipv6FragmentOf datagram state identification, datagram⟩

/-- A split of a payload into the chunks of its fragments. -/
structure Split (payload : List UInt8) (chunks : List (List UInt8)) : Prop where
  whole : chunks.flatten = payload
  several : 2 ≤ chunks.length
  few : chunks.length ≤ maxFragmentsPerEntry
  nonempty : ∀ chunk ∈ chunks, chunk ≠ []
  aligned : ∀ chunk ∈ chunks.dropLast, chunk.length % 8 = 0

variable {chunks : List (List UInt8)}

variable {start : Nat} {piece : Piece} {parser : PacketParser}

theorem ofChunks_aligned (multiple : start % 8 = 0) (aligned : ∀ chunk ∈ chunks.dropLast, chunk.length % 8 = 0)
    (member : piece ∈ Extent.ofChunks start chunks) :
    piece.offset % 8 = 0 ∧ (piece.stop ≠ start + chunks.flatten.length → piece.bytes.length % 8 = 0) := by
  induction chunks generalizing start with
  | nil => exact absurd member not_mem_nil
  | cons chunk rest ih =>
    cases rest with
    | nil =>
      cases mem_singleton.mp member
      exact ⟨multiple, fun other => absurd (by simp [Extent.stop]) other⟩
    | cons second rest =>
      rw [dropLast_cons_of_ne_nil (by simp)] at aligned
      obtain ⟨own, others⟩ := forall_mem_cons.mp aligned
      rcases mem_cons.mp member with rfl | later
      · exact ⟨multiple, fun _ => own⟩
      · have after := ih (by omega : (start + chunk.length) % 8 = 0) others later
        rw [flatten_cons, length_append, ← Nat.add_assoc]
        exact after

theorem ofChunks_length (start : Nat) (chunks : List (List UInt8)) : (Extent.ofChunks start chunks).length = chunks.length := by
  induction chunks generalizing start with
  | nil => rfl
  | cons chunk rest ih => simp [Extent.ofChunks, ih]

theorem ofChunks_chunk (member : piece ∈ Extent.ofChunks start chunks) : piece.bytes ∈ chunks := by
  induction chunks generalizing start with
  | nil => exact absurd member not_mem_nil
  | cons chunk rest ih =>
    rcases mem_cons.mp member with rfl | later
    · exact mem_cons_self
    · exact mem_cons_of_mem _ (ih later)

namespace Split

variable {payload : List UInt8} {chunks : List (List UInt8)}

theorem pieces (split : Split payload chunks) : Pieces (Extent.ofChunks 0 chunks) payload.length := by
  refine ⟨?_, ?_, ?_⟩
  · rw [ofChunks_length]
    exact split.few
  · exact fun piece member => split.nonempty _ (ofChunks_chunk member)
  · rw [Extent.ofChunks_coverage, split.whole, Nat.zero_add]

theorem placed (split : Split payload chunks) {piece : Piece} (member : piece ∈ Extent.ofChunks 0 chunks) :
    piece.Placed (decide (piece.stop ≠ payload.length)) payload.length := by
  have pieces := split.pieces
  obtain ⟨aligned, whole⟩ := ofChunks_aligned (by omega) split.aligned member
  rw [split.whole, Nat.zero_add] at whole
  refine ⟨aligned, pieces.nonempty piece member, fun more => whole (of_decide_eq_true more), pieces.stop_le member, ?_⟩
  by_contra alone
  obtain ⟨last, zero⟩ := not_or.mp alone
  have stop : piece.stop = payload.length := by simpa using last
  -- A piece from the start to the end of the payload leaves no byte to another.
  have covered := pieces.covered
  obtain ⟨first, second, rest, rfl⟩ : ∃ first second rest, chunks = first :: second :: rest := by
    match chunks, split.several with
    | first :: second :: rest, _ => exact ⟨first, second, rest, rfl⟩
  have ordered := Extent.coverage_ordered covered
  have length := congrArg List.length split.whole
  have firstSize := length_pos_iff.mpr (split.nonempty first (by simp))
  have secondSize := length_pos_iff.mpr (split.nonempty second (by simp))
  simp only [flatten_cons, length_append] at length
  rw [Extent.ofChunks] at member ordered
  rcases mem_cons.mp member with rfl | later
  · simp only [Extent.stop, Nat.zero_add] at stop
    omega
  · have above := (pairwise_cons.mp ordered).1 piece later
    simp only [Extent.stop, Nat.zero_add] at above
    omega

end Split

theorem forall₂_mem_right {α β : Type} {R : α → β → Prop} {left : List α} {right : List β} (related : List.Forall₂ R left right)
    {b : β} (member : b ∈ right) : ∃ a ∈ left, R a b := by
  induction related with
  | nil => exact absurd member not_mem_nil
  | cons head tail ih =>
    rcases mem_cons.mp member with rfl | later
    · exact ⟨_, mem_cons_self, head⟩
    · obtain ⟨a, inside, held⟩ := ih later
      exact ⟨a, mem_cons_of_mem _ inside, held⟩

theorem map_eq_of_forall₂ {α β : Type} {R : α → β → Prop} {left : List α} {right : List β}
    (related : List.Forall₂ R left right) (f : β → α) (inverse : ∀ a ∈ left, ∀ b, R a b → f b = a) : right.map f = left := by
  induction related with
  | nil => rfl
  | cons head tail ih =>
    rw [map_cons, inverse _ mem_cons_self _ head, ih fun a member => inverse a (mem_cons_of_mem _ member)]

/-- The packets are the fragments of the chunks, in the order of their offsets. -/
def Fragmentation.Packets (fragmentation : Fragmentation) (chunks packets : List (List UInt8)) : Prop :=
  List.Forall₂ (fun piece packet =>
    fragmentation.fragmentOf piece (decide (piece.stop ≠ fragmentation.payload.length)) packet)
    (Extent.ofChunks 0 chunks) packets

theorem Split.opening {fragmentation : Fragmentation} {packets : List (List UInt8)}
    (split : Split fragmentation.payload chunks) (cut : fragmentation.Packets chunks packets) :
    ∃ opening, (∃ piece ∈ Extent.ofChunks 0 chunks, piece.offset = 0 ∧
        fragmentation.fragmentOf piece (decide (piece.stop ≠ fragmentation.payload.length)) opening) ∧
      ∀ packet ∈ packets, ∃ piece ∈ Extent.ofChunks 0 chunks,
        fragmentation.fragmentOf piece (decide (piece.stop ≠ fragmentation.payload.length)) packet ∧
        (piece.offset = 0 → packet = opening) := by
  have pieces := split.pieces
  obtain ⟨chunk, rest, rfl⟩ : ∃ chunk rest, chunks = chunk :: rest := by
    match chunks, split.several with
    | chunk :: rest, _ => exact ⟨chunk, rest, rfl⟩
  rw [Extent.ofChunks] at pieces
  unfold Fragmentation.Packets at cut
  rw [Extent.ofChunks] at cut ⊢
  cases cut with
  | @cons _ opening _ others head tail =>
    refine ⟨opening, ⟨_, mem_cons_self, rfl, head⟩, ?_⟩
    intro packet member
    rcases mem_cons.mp member with rfl | later
    · exact ⟨_, mem_cons_self, head, fun _ => rfl⟩
    · obtain ⟨piece, inside, fragment⟩ := forall₂_mem_right tail later
      refine ⟨piece, mem_cons_of_mem _ inside, fragment, fun zero => ?_⟩
      have above := (pairwise_cons.mp pieces.increasing).1 piece inside
      exact absurd zero (by dsimp only at above; omega)

theorem PacketParser.parse_unique {first second : PacketParser} {packet : List UInt8} {left right : ParsedPacket}
    (one : first.parse packet = .ok left) (two : second.parse packet = .ok right) : left = right := by
  rcases parseWithFragments_eq_ok.mp one with ⟨_, one⟩ | ⟨_, one⟩ <;>
    rcases parseWithFragments_eq_ok.mp two with ⟨_, two⟩ | ⟨_, two⟩
  · exact Except.ok.inj (one.symm.trans two)
  · have four := (parseIpv4_eq_ok.mp one).1.version
    have six := (parseIpv6_eq_ok.mp two).1.version
    omega
  · have six := (parseIpv6_eq_ok.mp one).1.version
    have four := (parseIpv4_eq_ok.mp two).1.version
    omega
  · exact Except.ok.inj (one.symm.trans two)

theorem PacketParser.parse_family {datagram : List UInt8} {metadata : ParsedIpPacket}
    (accepted : parser.parse datagram = .ok (.complete metadata)) :
    metadata.family = .ipv4 ∧ parser.families.ipv4 = true ∧ parseIpv4 datagram true = .ok (.complete metadata) ∨
      metadata.family = .ipv6 ∧ parser.families.ipv6 = true ∧ parseIpv6 datagram true = .ok (.complete metadata) := by
  rcases parseWithFragments_eq_ok.mp accepted with ⟨enabled, parsed⟩ | ⟨enabled, parsed⟩
  · refine .inl ⟨?_, enabled, parsed⟩
    obtain ⟨_, ⟨_, fragment⟩ | ⟨_, _, transport, _, same⟩⟩ := parseIpv4_eq_ok.mp parsed
    · unfold parseIpv4Fragment at fragment
      simp only [bind_eq_ok, rejectIf_eq_ok, exists_const] at fragment
      cases Except.ok.inj fragment.2.2.2
    · cases same
      rfl
  · refine .inr ⟨?_, enabled, parsed⟩
    obtain ⟨_, ⟨_, _, same⟩ | ⟨_, transport, _, _, same⟩⟩ := parseIpv6_eq_ok.mp parsed
    · cases same
    · cases same
      rfl

section

variable {parser : PacketParser} {datagram : List UInt8} {metadata : ParsedIpPacket}

theorem ipv4_accepted (accepted : parser.parse datagram = .ok (.complete metadata)) (family : metadata.family = .ipv4) :
    parser.families.ipv4 = true ∧ Ipv4Header datagram ∧
      (byte datagram 9 = ipProtocolTcp ∨ byte datagram 9 = ipProtocolUdp) := by
  rcases PacketParser.parse_family accepted with ⟨_, enabled, parsed⟩ | ⟨other, _⟩
  · obtain ⟨header, ⟨_, fragment⟩ | ⟨_, protocol, _⟩⟩ := parseIpv4_eq_ok.mp parsed
    · unfold parseIpv4Fragment at fragment
      simp only [bind_eq_ok, rejectIf_eq_ok, exists_const] at fragment
      cases Except.ok.inj fragment.2.2.2
    · exact ⟨enabled, header, protocol⟩
  · exact absurd (family.symm.trans other) (by decide)

theorem ipv6_accepted (accepted : parser.parse datagram = .ok (.complete metadata)) (family : metadata.family = .ipv6) :
    parser.families.ipv6 = true ∧ Ipv6Header datagram ∧ ∃ final, ipv6Extensions datagram true = .ok (.inl final) := by
  rcases PacketParser.parse_family accepted with ⟨other, _⟩ | ⟨_, enabled, parsed⟩
  · exact absurd (family.symm.trans other) (by decide)
  · obtain ⟨header, ⟨_, _, same⟩ | ⟨final, _, extensions, _⟩⟩ := parseIpv6_eq_ok.mp parsed
    · cases same
    · exact ⟨enabled, header, final, extensions⟩

variable {fragmentation : Fragmentation}

section

variable (fragments : Fragments datagram metadata fragmentation)
include fragments

theorem Fragments.bound (accepted : parser.parse datagram = .ok (.complete metadata)) :
    fragmentation.payload.length ≤ maxReassembledPacket := by
  cases fragments with
  | ipv4 identification family =>
    obtain ⟨_, header, _⟩ := ipv4_accepted accepted family
    have small := be16_lt datagram 2
    have total := header.total
    rw [length_drop]
    unfold maxReassembledPacket
    omega
  | ipv6 state identification family cut =>
    obtain ⟨_, header, _⟩ := ipv6_accepted accepted family
    have small := header.bound
    rw [length_drop]
    omega

theorem Fragments.parse
    (accepted : parser.parse datagram = .ok (.complete metadata)) {piece : Piece} {more : Bool} {packet : List UInt8}
    (fragment : fragmentation.fragmentOf piece more packet) (placed : piece.Placed more fragmentation.payload.length) :
    ∃ parsed, parser.parse packet = .ok (.fragment parsed) ∧ parsed.key = fragmentation.key ∧
      (⟨parsed.offset, packet.drop parsed.payloadOffset⟩ : Piece) = piece := by
  cases fragments with
  | ipv4 identification family =>
    obtain ⟨enabled, header, transport⟩ := ipv4_accepted accepted family
    rw [length_drop] at placed
    have parsed := Ipv4FragmentOf.parse fragment header transport placed
    refine ⟨_, PacketParser.parseWithFragments_eq_ok.mpr (.inl ⟨enabled, parsed⟩), rfl, ?_⟩
    exact congrArg (Extent.mk piece.offset) (Ipv4FragmentOf.payload fragment)
  | ipv6 state identification family cut =>
    obtain ⟨enabled, header, final, extensions⟩ := ipv6_accepted accepted family
    rw [length_drop] at placed
    have parsed := Ipv6FragmentOf.parse fragment header extensions cut placed
    refine ⟨_, PacketParser.parseWithFragments_eq_ok.mpr (.inr ⟨enabled, parsed⟩), rfl, ?_⟩
    exact congrArg (Extent.mk piece.offset) (Ipv6FragmentOf.payload fragment)

theorem Fragments.carries
    (accepted : parser.parse datagram = .ok (.complete metadata)) {chunks packets : List (List UInt8)}
    (split : Split fragmentation.payload chunks) (cut : fragmentation.Packets chunks packets) :
    ∃ layout header, reconstructHeader layout fragmentation.payload.length = some header ∧
      header ++ fragmentation.payload = fragmentation.whole ∧ ∀ arrival : Arrival, arrival.packet ∈ packets →
        arrival.Carries fragmentation.key arrival.generation layout fragmentation.payload.length := by
  have bound := fragments.bound accepted
  cases fragments with
  | ipv4 identification family =>
    obtain ⟨enabled, header, transport⟩ := ipv4_accepted accepted family
    obtain ⟨options, shape⟩ := validateIpv4Options_options header.options
    obtain ⟨opening, ⟨start, isPiece, zero, fragment⟩, first⟩ := split.opening cut
    have opens : Ipv4FragmentOf datagram identification _ _ opening := fragment
    have more := (split.placed isPiece).several.resolve_right (not_not.mpr zero)
    have sameLen := (opens.first zero).1
    have fits := header.fits
    refine ⟨Ipv4FragmentOf.layout opening (normalizedFixedHeader (opening.take (ipv4HeaderLen opening)) ++
      (options.filter Ipv4Option.copied).flatMap Ipv4Option.bytes), _, ?_, opens.rebuilt zero more header, ?_⟩
    · unfold Ipv4FragmentOf.layout reconstructHeader
      dsimp only
      rw [length_take_of_le opens.long, length_drop, sameLen]
      have sum : ipv4HeaderLen datagram + (datagram.length - ipv4HeaderLen datagram) = datagram.length := by omega
      have small := be16_lt datagram 2
      have total := header.total
      unfold maxReassembledPacket
      rw [sum, if_neg (by omega)]
    · intro arrival member
      obtain ⟨piece, inside, own, atZero⟩ := first arrival.packet member
      have placed := split.placed inside
      have parsed := Ipv4FragmentOf.parse own header transport (by rw [← length_drop]; exact placed)
      have same := PacketParser.parse_unique arrival.parsed
        (PacketParser.parseWithFragments_eq_ok.mpr (.inl ⟨enabled, parsed⟩) : parser.parse arrival.packet = _)
      have normal := Ipv4FragmentOf.normalized own header shape
      rw [Ipv4FragmentOf.fixedHeader_eq own opens] at normal
      exact (Ipv4FragmentOf.carries own (ParsedPacket.fragment.inj same) placed bound rfl atZero normal).2
  | ipv6 state identification family cutState =>
    obtain ⟨enabled, header, final, extensions⟩ := ipv6_accepted accepted family
    obtain ⟨turns, reach⟩ := cutState.reach
    refine ⟨Ipv6FragmentOf.layout datagram state, datagram.take state.cursor, ?_, take_append_drop _ _, ?_⟩
    · rw [length_drop]
      exact Ipv6FragmentOf.rebuilt reach header
    · intro arrival member
      obtain ⟨piece, inside, fragment⟩ := forall₂_mem_right cut member
      have placed := split.placed inside
      have parsed := Ipv6FragmentOf.parse fragment header extensions cutState (by rw [← length_drop]; exact placed)
      have same := PacketParser.parse_unique arrival.parsed
        (PacketParser.parseWithFragments_eq_ok.mpr (.inr ⟨enabled, parsed⟩) : parser.parse arrival.packet = _)
      exact (Ipv6FragmentOf.carries fragment reach header.long (ParsedPacket.fragment.inj same) placed bound rfl).2

end

end

/-- The piece that the parser reads from a fragment. -/
def pieceOf (parser : PacketParser) (packet : List UInt8) : Piece :=
  match parser.parse packet with
  | .ok (.fragment fragment) => ⟨fragment.offset, packet.drop fragment.payloadOffset⟩
  | _ => ⟨0, []⟩

theorem Arrival.pieceOf_eq {arrival : Arrival} {fragment : ParsedFragment}
    (parsed : parser.parse arrival.packet = .ok (.fragment fragment)) : pieceOf parser arrival.packet = arrival.piece := by
  have same := ParsedPacket.fragment.inj (PacketParser.parse_unique parsed arrival.parsed)
  rw [pieceOf, parsed, Arrival.piece, same]

/-- The fragments of a datagram, and nothing else of their key, arrive in some order at a table
with no entry for them and with room for one: in one generation, and before the deadline that the
first of them sets. -/
structure Delivers (table : ReassemblyTable) (key : FragmentKey) (packets : List (List UInt8)) (first : Arrival)
    (rest : List ReassemblyCall) : Prop where
  ours : first.key = key
  order : ((first :: arrivalsOf key rest).map Arrival.packet).Perm packets
  vacant : (table.settle first.now first.generation).entries.lookup key = none
  room : (table.settle first.now first.generation).entries.len < maxReassemblyEntries
  within : ∀ call ∈ rest, call.Within key first.generation (saturatingAdd first.now reassemblyTimeoutMillis)

/-- Whatever way an accepted datagram is fragmented and in whatever order its fragments arrive between other calls, the
table answers pending to all but the last, and the datagram to the last. -/
theorem reassembles_in_every_order {parser : PacketParser} {datagram : List UInt8} {metadata : ParsedIpPacket}
    {fragmentation : Fragmentation} {chunks packets : List (List UInt8)} {generation : Nat} {before : List ReassemblyCall}
    {first : Arrival} {rest : List ReassemblyCall} (accepted : parser.parse datagram = .ok (.complete metadata))
    (fragments : Fragments datagram metadata fragmentation) (split : Split fragmentation.payload chunks)
    (cut : fragmentation.Packets chunks packets)
    (delivers : Delivers ((ReassemblyTable.new generation).run before) fragmentation.key packets first rest) :
    (∀ packet ∈ packets, ∃ fragment, parser.parse packet = .ok (.fragment fragment) ∧ fragment.key = fragmentation.key) ∧
    ∀ earlier arrival later, .accept first :: rest = earlier ++ .accept arrival :: later → arrival.key = fragmentation.key →
      (((ReassemblyTable.new generation).run before).run earlier).outcome arrival =
        if arrivalsOf fragmentation.key later = [] then .complete fragmentation.whole else .pending := by
  have parses : ∀ packet ∈ packets, ∃ fragment, parser.parse packet = .ok (.fragment fragment) ∧
      fragment.key = fragmentation.key := by
    intro packet member
    obtain ⟨piece, inside, fragment⟩ := forall₂_mem_right cut member
    obtain ⟨parsed, found, key, _⟩ := fragments.parse accepted fragment (split.placed inside)
    exact ⟨parsed, found, key⟩
  refine ⟨parses, ?_⟩
  intro earlier arrival later position ours
  obtain ⟨sameKey, order, vacant, room, within⟩ := delivers
  obtain ⟨layout, header, rebuilt, whole, carries⟩ := fragments.carries accepted split cut
  have received : ∀ other ∈ first :: arrivalsOf fragmentation.key rest, other.packet ∈ packets :=
    fun other member => order.mem_iff.mp (mem_map_of_mem member)
  -- The parser reads the pieces back from the packets.
  have read : packets.map (pieceOf parser) = Extent.ofChunks 0 chunks := by
    have pieces : ∀ piece ∈ Extent.ofChunks 0 chunks, ∀ packet,
        fragmentation.fragmentOf piece (decide (piece.stop ≠ fragmentation.payload.length)) packet →
        pieceOf parser packet = piece := by
      intro piece inside packet fragment
      obtain ⟨parsed, found, _, same⟩ := fragments.parse accepted fragment (split.placed inside)
      rw [pieceOf, found]
      exact same
    exact map_eq_of_forall₂ cut (pieceOf parser) pieces
  have pieces : ((first :: arrivalsOf fragmentation.key rest).map Arrival.piece).Perm (Extent.ofChunks 0 chunks) := by
    rw [← read]
    refine .trans (List.Perm.of_eq ?_) (order.map (pieceOf parser))
    rw [map_map]
    refine map_congr_left ?_
    intro other member
    obtain ⟨fragment, parsed, _⟩ := parses other.packet (received other member)
    exact (Arrival.pieceOf_eq parsed).symm
  have shared : ∀ other ∈ first :: arrivalsOf fragmentation.key rest,
      other.Carries fragmentation.key first.generation layout fragmentation.payload.length := by
    intro other member
    have own := carries other (received other member)
    rcases mem_cons.mp member with rfl | later
    · exact own
    · have same := (within _ (mem_arrivalsOf.mp later).1).1
      rwa [same] at own
  have positive : 0 < fragmentation.payload.length := by
    obtain ⟨opening, ⟨start, isPiece, _⟩, _⟩ := split.opening cut
    have some := split.pieces.offset_lt isPiece
    have inside := split.pieces.stop_le isPiece
    omega
  have scheduled := (ReassemblyTable.new_scheduled generation).run before
  rw [← sameKey] at pieces shared vacant within ours ⊢
  have outcome := ReassemblyTable.run_from_first split.pieces positive rebuilt scheduled pieces shared vacant room within
    position ours
  rw [Extent.ofChunks_bytes, split.whole, whole] at outcome
  exact outcome

/-- The UDP datagram of the two sample fragments. -/
def sampleMetadata : ParsedIpPacket :=
  ⟨.ipv4, .v4 (.new 10 0 0 1), .v4 (.new 192 0 2 1), 17, 9, 20, 32, .udp ⟨12345, 53, 28, 4⟩⟩

theorem sampleHead_fragment : Ipv4FragmentOf Traced.sampleWhole 7 ⟨0, [48, 57, 0, 53, 0, 12, 0, 0]⟩ true
    Traced.sampleHead.packet := by
  refine ⟨by decide, by decide, by decide, by decide, by decide, by decide, by decide, by decide, by decide, by decide,
    by decide, ?_, fun _ => by decide, fun later => absurd rfl later⟩
  intro i above below
  interval_cases i <;> rfl

theorem sampleTail_fragment : Ipv4FragmentOf Traced.sampleWhole 7 ⟨8, [1, 2, 3, 4]⟩ false Traced.sampleTail.packet := by
  refine ⟨by decide, by decide, by decide, by decide, by decide, by decide, by decide, by decide, by decide, by decide,
    by decide, ?_, fun zero => absurd zero (by decide), fun _ => ⟨[], [], ⟨by simp, 0, by decide⟩, ⟨by simp, 0, by decide⟩, rfl⟩⟩
  intro i above below
  interval_cases i <;> rfl

theorem sampleFragments_in_either_order :
    (ReassemblyTable.new 1).outcome Traced.sampleTail = .pending ∧
      ((ReassemblyTable.new 1).run [.accept Traced.sampleTail]).outcome Traced.sampleHead = .complete Traced.sampleWhole := by
  have accepted : Traced.sampleParser.parse Traced.sampleWhole = .ok (.complete sampleMetadata) := by decide
  have split : Split (Traced.sampleWhole.drop (ipv4HeaderLen Traced.sampleWhole)) [[48, 57, 0, 53, 0, 12, 0, 0], [1, 2, 3, 4]] :=
    ⟨by decide, by decide, by decide, by decide, by decide⟩
  have delivers : Delivers ((ReassemblyTable.new 1).run []) (ipv4FragmentKey Traced.sampleWhole 7)
      [Traced.sampleHead.packet, Traced.sampleTail.packet] Traced.sampleTail [.accept Traced.sampleHead] := by
    refine ⟨by decide, ?_, by decide, by decide, ?_⟩
    · exact .swap _ _ _
    · intro call member
      cases mem_singleton.mp member
      exact ⟨rfl, by decide⟩
  obtain ⟨_, outcomes⟩ := reassembles_in_every_order accepted (.ipv4 7 rfl) split
    (.cons sampleHead_fragment (.cons sampleTail_fragment .nil)) delivers
  exact ⟨outcomes [] _ _ rfl (by decide), outcomes [.accept Traced.sampleTail] _ [] rfl (by decide)⟩

def sampleIpv6Addresses : List UInt8 :=
  [32, 1, 13, 184, 0, 0, 0, 0, 0, 0, 0, 0, 0, 0, 0, 1, 32, 1, 13, 184, 0, 0, 0, 0, 0, 0, 0, 0, 0, 0, 0, 2]

def sampleUdp : List UInt8 := [48, 57, 0, 53, 0, 16, 99, 215, 1, 2, 3, 4, 5, 6, 7, 8]

/-- A destination header of 512 bytes. -/
def longDestinationHeader (nextHeader : UInt8) : List UInt8 :=
  [nextHeader, 63, 1, 255] ++ List.replicate 255 0 ++ [1, 251] ++ List.replicate 251 0

def wholeIpv6 : List UInt8 := [96, 0, 0, 0, 0, 16, 17, 64] ++ sampleIpv6Addresses ++ sampleUdp

def onlyFragment : Arrival where
  parser := Traced.sampleParser
  packet := [96, 0, 0, 0, 0, 24, 44, 64] ++ sampleIpv6Addresses ++ [17, 0, 0, 0, 0, 0, 0, 7] ++ sampleUdp
  fragment := ⟨.ipv6, .v6 (ipv6At wholeIpv6 8), .v6 (ipv6At wholeIpv6 24), 17,
    .ipv6 ⟨ipv6At wholeIpv6 8, ipv6At wholeIpv6 24, 17, 7⟩, 0, false, 48, 16, .ipv6 40 6⟩
  parsed := by decide
  now := 5
  inRange := Traced.sampleHead.inRange
  generation := 1

def wholeLong : List UInt8 :=
  [96, 0, 0, 0, 2, 16, 60, 64] ++ sampleIpv6Addresses ++ longDestinationHeader 17 ++ sampleUdp

def fragmentLong : List UInt8 :=
  [96, 0, 0, 0, 2, 16, 60, 64] ++ sampleIpv6Addresses ++ longDestinationHeader 44 ++
    [17, 0, 0, 1, 0, 0, 0, 7] ++ sampleUdp.take 8

def wholeRouted : List UInt8 :=
  [96, 0, 0, 0, 0, 32, 43, 64] ++ sampleIpv6Addresses ++ [60, 0, 0, 0, 0, 0, 0, 0] ++ [17, 0, 1, 4, 0, 0, 0, 0] ++ sampleUdp

def fragmentRouted : List UInt8 :=
  [96, 0, 0, 0, 0, 32, 43, 64] ++ sampleIpv6Addresses ++ [60, 0, 0, 0, 0, 0, 0, 0] ++ [44, 0, 1, 4, 0, 0, 0, 0] ++
    [17, 0, 0, 1, 0, 0, 0, 7] ++ sampleUdp.take 8

/-- Some splits are not put together again: one atomic fragment, a fragment header behind more than the parser reads, and
fragments that come 30 s after the first one. -/
theorem not_every_split_reassembles :
    ((∃ metadata, Traced.sampleParser.parse wholeIpv6 = .ok (.complete metadata)) ∧
      wholeIpv6.drop 40 = onlyFragment.piece.bytes ∧
      (ReassemblyTable.new 1).outcome onlyFragment ≠ .complete wholeIpv6) ∧
    ((∃ metadata, Traced.sampleParser.parse wholeLong = .ok (.complete metadata)) ∧
      Traced.sampleParser.parse fragmentLong = .error (.new .extensionLimit)) ∧
    ((∃ metadata, Traced.sampleParser.parse wholeRouted = .ok (.complete metadata)) ∧
      Traced.sampleParser.parse fragmentRouted = .error (.new .extensionLimit)) ∧
    ((ReassemblyTable.new 1).run [.accept Traced.sampleTail]).outcome
      { Traced.sampleHead with now := 30009, inRange := by decide } ≠ .complete Traced.sampleWhole := by
  refine ⟨⟨⟨⟨.ipv6, .v6 (ipv6At wholeIpv6 8), .v6 (ipv6At wholeIpv6 24), 17, 6, 40, 56, .udp ⟨12345, 53, 48, 8⟩⟩, ?_⟩, ?_, ?_⟩,
    ⟨⟨⟨.ipv6, .v6 (ipv6At wholeIpv6 8), .v6 (ipv6At wholeIpv6 24), 17, 40, 552, 568, .udp ⟨12345, 53, 560, 8⟩⟩, ?_⟩, ?_⟩,
    ⟨⟨⟨.ipv6, .v6 (ipv6At wholeIpv6 8), .v6 (ipv6At wholeIpv6 24), 17, 48, 56, 72, .udp ⟨12345, 53, 64, 8⟩⟩, ?_⟩, ?_⟩, ?_⟩
  · decide
  · decide
  · decide
  · decide +kernel
  · decide +kernel
  · decide
  · decide
  · decide

end Ferrum.Tun
