import Ferrum.Lib.I64
import Ferrum.Lib.SliceWriter
import Ferrum.Tun.Packet

namespace Ferrum

/-- `u32::try_from`. -/
def U32.tryFrom (value : Nat) : Option U32 := if bound : value < 4294967296 then some ⟨value, bound⟩ else none

def U32.toBeBytes (value : U32) : List UInt8 :=
  U16.toBeBytes ⟨value.val / 65536, by omega⟩ ++ U16.toBeBytes ⟨value.val % 65536, Nat.mod_lt _ (by decide)⟩

namespace Tun

open SliceWriter (reject refuseWhen orReject write writeFrom fillZeros read readFrom onPrefix prefixOf)

def controlErrorIntervalMillis : Int := 100

inductive LocalControlKind
  | fragmentationNeeded | packetTooBig | protocolUnreachable | portUnreachable | administrativelyProhibited
  deriving DecidableEq, Repr

structure ControlRateLimiter where
  nextAllowedMillis : Option Int
  deriving DecidableEq

namespace ControlRateLimiter

def new : ControlRateLimiter := ⟨none⟩

def allow (limiter : ControlRateLimiter) (now : Int) : ControlRateLimiter × Bool :=
  if limiter.nextAllowedMillis.any fun next => decide (now < next) then (limiter, false)
  else (⟨some (saturatingAdd now controlErrorIntervalMillis)⟩, true)

end ControlRateLimiter

def controlContext (parsed : ParsedIpPacket) : ControlContext where
  family := parsed.family
  source := parsed.source
  destination := parsed.destination
  upperProtocol := parsed.upperProtocol
  upperProtocolField := parsed.upperProtocolField
  transportOffset := parsed.transportOffset
  totalLen := parsed.totalLen
  suppressReply := false

def oversizedIngressControl (packet : List UInt8) (parsed : ParsedIpPacket) (mtu : Nat) :
    Option (ControlContext × LocalControlKind) :=
  if packet.length ≤ mtu ∨ ¬parsed.metadataMatches packet.length then none
  else
    match parsed.family with
    | .ipv4 => do
      let high ← packet[6]?
      let low ← packet[7]?
      if (U16.fromBeBytes high low).val &&& 0x4000 ≠ 0 then return (controlContext parsed, .fragmentationNeeded) else none
    | .ipv6 => some (controlContext parsed, .packetTooBig)

def icmpv4Code : LocalControlKind → Option (UInt8 × UInt8)
  | .fragmentationNeeded => some (3, 4)
  | .protocolUnreachable => some (3, 2)
  | .portUnreachable => some (3, 3)
  | .administrativelyProhibited => some (3, 13)
  | .packetTooBig => none

def icmpv6Code : LocalControlKind → Option (UInt8 × UInt8)
  | .packetTooBig => some (2, 0)
  | .protocolUnreachable => some (4, 1)
  | .portUnreachable => some (1, 4)
  | .administrativelyProhibited => some (1, 1)
  | .fragmentationNeeded => none

/-- The next-hop MTU of the message, for the kind that has it. -/
def writeNextHop (kind : LocalControlKind) (mtu : Nat) : SliceWriter Unit Unit :=
  if kind = .fragmentationNeeded then do
    let nextHop ← orReject (U16.tryFrom mtu) ()
    write 26 nextHop.toBeBytes
  else pure ()

def writeIcmpv4Headers (source destination : Ipv4Addr) (icmpType code : UInt8) (totalLen : Nat) : SliceWriter Unit Unit := do
  fillZeros totalLen
  write 0 [0x45]
  let length ← orReject (U16.tryFrom totalLen) ()
  write 2 length.toBeBytes
  write 8 [64]
  write 9 [ipProtocolIcmp]
  write 12 destination.toList
  write 16 source.toList
  write 20 [icmpType]
  write 21 [code]

variable (original : List UInt8)

def writeIcmpv4Quote (quoteLen : Nat) : SliceWriter Unit Unit := do
  let quote ← prefixOf original quoteLen
  writeFrom 28 quote
  let message ← readFrom 20
  write 22 (internetChecksum [message]).toBeBytes
  let header ← read 0 20
  write 10 (internetChecksum [header]).toBeBytes

/-- The writes of `write_icmpv4_error` to the range of the packet. -/
def fillIcmpv4Error (kind : LocalControlKind) (mtu : Nat) (source destination : Ipv4Addr) (icmpType code : UInt8)
    (quoteLen totalLen : Nat) : SliceWriter Unit Unit := do
  writeIcmpv4Headers source destination icmpType code totalLen
  writeNextHop kind mtu
  writeIcmpv4Quote original quoteLen

/-- The lengths of slices are far below the bound of `usize`, so that its checked and saturating
additions are plain ones. -/
def writeIcmpv4Error (context : ControlContext) (kind : LocalControlKind) (mtu : Nat) (source destination : Ipv4Addr) :
    SliceWriter Unit Nat := do
  refuseWhen (¬ipv4Unicast source ∨ ¬ipv4Unicast destination) ()
  let (icmpType, code) ← orReject (icmpv4Code kind) ()
  let quoteLen := min original.length (context.transportOffset + 8)
  let totalLen := 28 + quoteLen
  let outputLen ← SliceWriter.length
  refuseWhen (mtu < totalLen ∨ outputLen < totalLen) ()
  onPrefix totalLen (fillIcmpv4Error original kind mtu source destination icmpType code quoteLen totalLen)
  return totalLen

/-- The bytes 4 to 8 of the message, for the kinds that have them. -/
def writeIcmpv6Parameter (context : ControlContext) (kind : LocalControlKind) (mtu : Nat) : SliceWriter Unit Unit :=
  match kind with
  | .packetTooBig => do
    let parameter ← orReject (U32.tryFrom mtu) ()
    write 44 parameter.toBeBytes
  | .protocolUnreachable => do
    let parameter ← orReject (U32.tryFrom context.upperProtocolField) ()
    write 44 parameter.toBeBytes
  | .portUnreachable | .administrativelyProhibited => pure ()
  | .fragmentationNeeded => SliceWriter.stuck

def writeIcmpv6Headers (source destination : Ipv6Addr) (icmpType code : UInt8) (totalLen : Nat) : SliceWriter Unit Unit := do
  fillZeros totalLen
  write 0 [0x60]
  let payloadLen ← orReject (U16.tryFrom (totalLen - 40)) ()
  write 4 payloadLen.toBeBytes
  write 6 [ipProtocolIcmpv6]
  write 7 [64]
  write 8 destination.toList
  write 24 source.toList
  write 40 [icmpType]
  write 41 [code]

def writeIcmpv6Quote (quoteLen totalLen : Nat) : SliceWriter Unit Unit := do
  let quote ← prefixOf original quoteLen
  writeFrom 48 quote
  let length ← orReject (U32.tryFrom (totalLen - 40)) ()
  let sender ← read 8 24
  let receiver ← read 24 40
  let message ← readFrom 40
  write 42 (internetChecksum [sender, receiver, length.toBeBytes, [0, 0, 0, ipProtocolIcmpv6], message]).toBeBytes

/-- The writes of `write_icmpv6_error` to the range of the packet. -/
def fillIcmpv6Error (context : ControlContext) (kind : LocalControlKind) (mtu : Nat) (source destination : Ipv6Addr)
    (icmpType code : UInt8) (quoteLen totalLen : Nat) : SliceWriter Unit Unit := do
  writeIcmpv6Headers source destination icmpType code totalLen
  writeIcmpv6Parameter context kind mtu
  writeIcmpv6Quote original quoteLen totalLen

def writeIcmpv6Error (context : ControlContext) (kind : LocalControlKind) (mtu : Nat) (source destination : Ipv6Addr) :
    SliceWriter Unit Nat := do
  refuseWhen (¬ipv6Unicast source ∨ ¬ipv6Unicast destination ∨ mtu < 48) ()
  let (icmpType, code) ← orReject (icmpv6Code kind) ()
  let quoteLen := min original.length (mtu - 48)
  let totalLen := 48 + quoteLen
  let outputLen ← SliceWriter.length
  refuseWhen (outputLen < totalLen ∨ maxReassembledPacket < totalLen) ()
  onPrefix totalLen (fillIcmpv6Error original context kind mtu source destination icmpType code quoteLen totalLen)
  return totalLen

def writeLocalControlError (context : ControlContext) (kind : LocalControlKind) (mtu : Nat) : SliceWriter Unit Nat := do
  refuseWhen (context.suppressReply ∨ original.length ≠ context.totalLen ∨
    context.transportOffset ≤ context.upperProtocolField ∨
    original[context.upperProtocolField]? ≠ some context.upperProtocol ∨ 65535 < mtu) ()
  match context.family, context.source, context.destination with
  | .ipv4, .v4 source, .v4 destination => writeIcmpv4Error original context kind mtu source destination
  | .ipv6, .v6 source, .v6 destination => writeIcmpv6Error original context kind mtu source destination
  | _, _, _ => reject ()

end Tun

theorem eq_bytes4 {bytes : List UInt8} (length : bytes.length = 4) :
    bytes = [byte bytes 0, byte bytes 1, byte bytes 2, byte bytes 3] := by
  refine ext_byte length fun i inside => ?_
  rw [length] at inside
  have which : i = 0 ∨ i = 1 ∨ i = 2 ∨ i = 3 := by omega
  rcases which with rfl | rfl | rfl | rfl <;> rfl

namespace Tun

open SliceWriter

variable {value mtu : Nat} {output : List UInt8} {context : ControlContext}

theorem U16.tryFrom_some {word : U16} (found : U16.tryFrom value = some word) : word.val = value := by
  unfold U16.tryFrom at found
  split at found
  · cases found
    rfl
  · cases found

theorem U32.tryFrom_some {word : U32} (found : U32.tryFrom value = some word) : word.val = value := by
  unfold U32.tryFrom at found
  split at found
  · cases found
    rfl
  · cases found

/-- The headers of an IPv4 error before the checksums. -/
def icmpv4Front (total nextHop : U16) (icmpType code : UInt8) (source destination : Ipv4Addr) : List UInt8 :=
  [0x45, 0] ++ total.toBeBytes ++ [0, 0, 0, 0, 64, ipProtocolIcmp, 0, 0] ++ destination.toList ++ source.toList ++
    [icmpType, code, 0, 0, 0, 0] ++ nextHop.toBeBytes

def sealIpv4Header (bytes : List UInt8) : List UInt8 := copyFromSlice bytes 10 (internetChecksum [slice bytes 0 20]).toBeBytes

/-- A packet with its two checksums, that of the message before that of the header. -/
def sealIcmpv4 (blank : List UInt8) : List UInt8 :=
  sealIpv4Header (copyFromSlice blank 22 (internetChecksum [blank.drop 20]).toBeBytes)

section icmpv4

variable {total nextHop : U16} {icmpType code : UInt8} {source destination : Ipv4Addr} {quote : List UInt8}

theorem length_icmpv4Front : (icmpv4Front total nextHop icmpType code source destination).length = 28 := by
  simp [icmpv4Front]

theorem U16.tryFrom_eq {value : Nat} (bound : value < 65536) : U16.tryFrom value = some ⟨value, bound⟩ := dif_pos bound

/-- The next-hop MTU of a message, zero for the other kinds. -/
def nextHopField (kind : LocalControlKind) (mtu : Nat) : U16 :=
  if kind = .fragmentationNeeded then (U16.tryFrom mtu).getD 0 else 0

theorem writeNextHop_runs {back : List UInt8} {kind : LocalControlKind} {mtu : Nat} (bound : mtu ≤ 65535) :
    (writeNextHop kind mtu).Runs (icmpv4Front total 0 icmpType code source destination ++ back)
      (icmpv4Front total (nextHopField kind mtu) icmpType code source destination ++ back) (.ok ()) := by
  unfold writeNextHop nextHopField
  by_cases needed : kind = .fragmentationNeeded
  · rw [if_pos needed, if_pos needed, U16.tryFrom_eq (by omega)]
    refine .bind (.orReject_some rfl) ?_
    have stored : copyFromSlice (icmpv4Front total 0 icmpType code source destination) 26
        (U16.toBeBytes ⟨mtu, by omega⟩) = icmpv4Front total ⟨mtu, by omega⟩ icmpType code source destination := by
      unfold icmpv4Front
      rw [eq_bytes4 destination.length_toList, eq_bytes4 source.length_toList]
      simp [copyFromSlice, U16.toBeBytes]
    have written := @Runs.write_front Unit _ back _ _ (show 26 + (U16.toBeBytes ⟨mtu, by omega⟩).length ≤
      (icmpv4Front total 0 icmpType code source destination).length by rw [length_icmpv4Front, U16.length_toBeBytes])
    rw [stored] at written
    exact written
  · rw [if_neg needed, if_neg needed]
    exact .pure ()

variable {quoteLen : Nat}

theorem writeIcmpv4Headers_runs {before : List UInt8} (capped : 28 + quoteLen ≤ 65535)
    (length : before.length = 28 + quoteLen) : (writeIcmpv4Headers source destination icmpType code (28 + quoteLen)).Runs before
      (icmpv4Front ⟨28 + quoteLen, by omega⟩ 0 icmpType code source destination ++ List.replicate quoteLen 0) (.ok ()) := by
  have zeros : copyFromSlice before 0 (List.replicate (28 + quoteLen) 0) =
      List.replicate 28 0 ++ List.replicate quoteLen 0 := by
    rw [copyFromSlice_all (by rw [length, List.length_replicate]), List.replicate_add]
  unfold writeIcmpv4Headers
  refine Runs.bind (zeros ▸ Runs.write (by rw [List.length_replicate]; omega)) ?_
  refine Runs.write_next (List.length_replicate ..) (by decide) fun front1 made1 size1 => ?_
  refine .bind (.orReject_some (U16.tryFrom_eq (by omega))) ?_
  refine .write_next size1 (Nat.le_of_ble_eq_true rfl) fun front2 made2 size2 => ?_
  refine .write_next size2 (by decide) fun front3 made3 size3 => ?_
  refine .write_next size3 (by decide) fun front4 made4 size4 => ?_
  refine .write_next size4 (by rw [Vector.length_toList]; decide) fun front5 made5 size5 => ?_
  refine .write_next size5 (by rw [Vector.length_toList]; decide) fun front6 made6 size6 => ?_
  refine .write_next size6 (Nat.le_of_ble_eq_true rfl) fun front7 made7 size7 => ?_
  have written : copyFromSlice front7 21 [code] = icmpv4Front ⟨28 + quoteLen, by omega⟩ 0 icmpType code source destination := by
    subst made7 made6 made5 made4 made3 made2 made1
    unfold icmpv4Front
    rw [eq_bytes4 destination.length_toList, eq_bytes4 source.length_toList]
    simp [copyFromSlice, List.replicate, U16.toBeBytes]
  rw [← written]
  exact .write_front (size7 ▸ Nat.le_of_ble_eq_true rfl)

theorem writeIcmpv4Quote_runs {original : List UInt8} (fits : quoteLen ≤ original.length) :
    (writeIcmpv4Quote original quoteLen).Runs
      (icmpv4Front total nextHop icmpType code source destination ++ List.replicate quoteLen 0)
      (sealIcmpv4 (icmpv4Front total nextHop icmpType code source destination ++ original.take quoteLen)) (.ok ()) := by
  have taken : (original.take quoteLen).length = quoteLen := List.length_take_of_le fits
  have front := @length_icmpv4Front total nextHop icmpType code source destination
  unfold writeIcmpv4Quote
  refine .bind (.prefixOf fits) ?_
  generalize original.take quoteLen = quote at taken
  generalize icmpv4Front total nextHop icmpType code source destination = headers at front
  have quoted : copyFromSlice (headers ++ List.replicate quoteLen 0) 28 quote = headers ++ quote := by
    rw [← front]
    exact copyFromSlice_end (by rw [List.length_replicate, taken])
  have whole : (headers ++ quote).length = 28 + quoteLen := by
    rw [List.length_append, front, taken]
  have summed : (copyFromSlice (headers ++ quote) 22 (internetChecksum [(headers ++ quote).drop 20]).toBeBytes).length =
      28 + quoteLen := (length_copyFromSlice (by rw [U16.length_toBeBytes]; omega)).trans whole
  refine Runs.bind (quoted ▸ Runs.writeFrom (by rw [List.length_append, List.length_replicate]; omega)) ?_
  refine Runs.bind (Runs.readFrom (by omega)) ?_
  refine .bind (.write (by rw [U16.length_toBeBytes]; omega)) ?_
  refine .bind (.read (by decide) (by omega)) ?_
  exact .write (by rw [U16.length_toBeBytes]; omega)

theorem fillIcmpv4Error_runs {original before : List UInt8} {kind : LocalControlKind} {mtu quoteLen : Nat}
    (bound : mtu ≤ 65535) (fits : quoteLen ≤ original.length) (capped : 28 + quoteLen ≤ mtu)
    (length : before.length = 28 + quoteLen) :
    (fillIcmpv4Error original kind mtu source destination icmpType code quoteLen (28 + quoteLen)).Runs before
      (sealIcmpv4 (icmpv4Front ⟨28 + quoteLen, by omega⟩ (nextHopField kind mtu) icmpType code source destination ++
        original.take quoteLen)) (.ok ()) :=
  (writeIcmpv4Headers_runs (by omega) length).bind ((writeNextHop_runs bound).bind (writeIcmpv4Quote_runs fits))

end icmpv4

/-- The headers of an IPv6 error before the checksum. -/
def icmpv6Front (payloadLen : U16) (icmpType code : UInt8) (parameter : U32) (source destination : Ipv6Addr) : List UInt8 :=
  [0x60, 0, 0, 0] ++ payloadLen.toBeBytes ++ [ipProtocolIcmpv6, 64] ++ destination.toList ++ source.toList ++
    [icmpType, code, 0, 0] ++ parameter.toBeBytes

/-- A packet with the checksum of its message. -/
def sealIcmpv6 (length : U32) (blank : List UInt8) : List UInt8 :=
  copyFromSlice blank 42 (internetChecksum [slice blank 8 24, slice blank 24 40, length.toBeBytes,
    [0, 0, 0, ipProtocolIcmpv6], blank.drop 40]).toBeBytes

/-- The parameter of a message, if it fits in its field. -/
def parameterField (kind : LocalControlKind) (mtu upperProtocolField : Nat) : Option U32 :=
  match kind with
  | .packetTooBig => U32.tryFrom mtu
  | .protocolUnreachable => U32.tryFrom upperProtocolField
  | .portUnreachable | .administrativelyProhibited | .fragmentationNeeded => some 0

section icmpv6

variable {payloadLen : U16} {icmpType code : UInt8} {parameter : U32} {source destination : Ipv6Addr} {quote : List UInt8}

theorem U32.length_toBeBytes (value : U32) : value.toBeBytes.length = 4 := rfl

theorem U32.tryFrom_eq {value : Nat} (bound : value < 4294967296) : U32.tryFrom value = some ⟨value, bound⟩ := dif_pos bound

theorem length_icmpv6Front : (icmpv6Front payloadLen icmpType code parameter source destination).length = 48 := by
  simp [icmpv6Front, U32.length_toBeBytes]

theorem icmpv6Front_parameter (parameter : U32) : copyFromSlice (icmpv6Front payloadLen icmpType code 0 source destination) 44
    parameter.toBeBytes = icmpv6Front payloadLen icmpType code parameter source destination := by
  unfold icmpv6Front
  generalize before : [0x60, 0, 0, 0] ++ payloadLen.toBeBytes ++ [ipProtocolIcmpv6, 64] ++ destination.toList ++
    source.toList ++ [icmpType, code, 0, 0] = start
  have size : start.length = 44 := by simp [← before]
  rw [← size]
  exact copyFromSlice_end (by rw [U32.length_toBeBytes, U32.length_toBeBytes])

theorem writeIcmpv6Parameter_runs {back : List UInt8} {context : ControlContext} {kind : LocalControlKind} {mtu : Nat}
    (known : kind ≠ .fragmentationNeeded) :
    (∃ parameter, parameterField kind mtu context.upperProtocolField = some parameter ∧
      (writeIcmpv6Parameter context kind mtu).Runs (icmpv6Front payloadLen icmpType code 0 source destination ++ back)
        (icmpv6Front payloadLen icmpType code parameter source destination ++ back) (.ok ())) ∨
      parameterField kind mtu context.upperProtocolField = none ∧
        (writeIcmpv6Parameter context kind mtu).Runs (icmpv6Front payloadLen icmpType code 0 source destination ++ back)
          (icmpv6Front payloadLen icmpType code 0 source destination ++ back) (.error ()) := by
  have stored : ∀ parameter : U32, Runs (ε := Unit) (write 44 parameter.toBeBytes)
      (icmpv6Front payloadLen icmpType code 0 source destination ++ back)
      (icmpv6Front payloadLen icmpType code parameter source destination ++ back) (.ok ()) := by
    intro parameter
    rw [← icmpv6Front_parameter parameter]
    exact .write_front (by rw [length_icmpv6Front, U32.length_toBeBytes])
  have tried : ∀ value : Nat, (∃ parameter, U32.tryFrom value = some parameter ∧
      (orReject (U32.tryFrom value) () >>= fun parameter => write 44 parameter.toBeBytes).Runs
        (icmpv6Front payloadLen icmpType code 0 source destination ++ back)
        (icmpv6Front payloadLen icmpType code parameter source destination ++ back) (.ok ())) ∨
      U32.tryFrom value = none ∧ (orReject (U32.tryFrom value) () >>= fun parameter => write 44 parameter.toBeBytes).Runs
        (icmpv6Front payloadLen icmpType code 0 source destination ++ back)
        (icmpv6Front payloadLen icmpType code 0 source destination ++ back) (.error ()) := by
    intro value
    cases tried : U32.tryFrom value with
    | some parameter => exact .inl ⟨parameter, rfl, .bind (.orReject_some rfl) (stored parameter)⟩
    | none => exact .inr ⟨rfl, .fails (.orReject_none rfl)⟩
  cases kind with
  | packetTooBig => exact tried mtu
  | protocolUnreachable => exact tried context.upperProtocolField
  | portUnreachable | administrativelyProhibited => exact .inl ⟨0, rfl, Runs.pure ()⟩
  | fragmentationNeeded => exact absurd rfl known

theorem writeIcmpv6Headers_runs {before : List UInt8} {quoteLen : Nat} (capped : 48 + quoteLen ≤ 65535)
    (length : before.length = 48 + quoteLen) : (writeIcmpv6Headers source destination icmpType code (48 + quoteLen)).Runs before
      (icmpv6Front ⟨48 + quoteLen - 40, by omega⟩ icmpType code 0 source destination ++ List.replicate quoteLen 0)
      (.ok ()) := by
  have zeros : copyFromSlice before 0 (List.replicate (48 + quoteLen) 0) =
      List.replicate 48 0 ++ List.replicate quoteLen 0 := by
    rw [copyFromSlice_all (by rw [length, List.length_replicate]), List.replicate_add]
  unfold writeIcmpv6Headers
  refine Runs.bind (zeros ▸ Runs.write (by rw [List.length_replicate]; omega)) ?_
  refine Runs.write_next (List.length_replicate ..) (by decide) fun front1 made1 size1 => ?_
  refine .bind (.orReject_some (U16.tryFrom_eq (by omega))) ?_
  refine .write_next size1 (Nat.le_of_ble_eq_true rfl) fun front2 made2 size2 => ?_
  refine .write_next size2 (by decide) fun front3 made3 size3 => ?_
  refine .write_next size3 (by decide) fun front4 made4 size4 => ?_
  refine .write_next size4 (by rw [Vector.length_toList]; decide) fun front5 made5 size5 => ?_
  refine .write_next size5 (by rw [Vector.length_toList]; decide) fun front6 made6 size6 => ?_
  refine .write_next size6 (Nat.le_of_ble_eq_true rfl) fun front7 made7 size7 => ?_
  have written : copyFromSlice front7 41 [code] =
      icmpv6Front ⟨48 + quoteLen - 40, by omega⟩ icmpType code 0 source destination := by
    subst made7 made6 made5 made4 made3 made2 made1
    unfold icmpv6Front
    simp [copyFromSlice, List.replicate, U16.toBeBytes, U32.toBeBytes, List.take_append, List.drop_append,
      List.take_of_length_le, List.drop_eq_nil_of_le]
  rw [← written]
  exact .write_front (size7 ▸ Nat.le_of_ble_eq_true rfl)

theorem writeIcmpv6Quote_runs {original : List UInt8} {quoteLen : Nat} (fits : quoteLen ≤ original.length)
    (capped : 48 + quoteLen ≤ 65535) : (writeIcmpv6Quote original quoteLen (48 + quoteLen)).Runs
      (icmpv6Front payloadLen icmpType code parameter source destination ++ List.replicate quoteLen 0)
      (sealIcmpv6 ⟨48 + quoteLen - 40, by omega⟩
        (icmpv6Front payloadLen icmpType code parameter source destination ++ original.take quoteLen)) (.ok ()) := by
  have taken : (original.take quoteLen).length = quoteLen := List.length_take_of_le fits
  have front := @length_icmpv6Front payloadLen icmpType code parameter source destination
  unfold writeIcmpv6Quote
  refine .bind (.prefixOf fits) ?_
  generalize original.take quoteLen = quote at taken
  generalize icmpv6Front payloadLen icmpType code parameter source destination = headers at front
  have quoted : copyFromSlice (headers ++ List.replicate quoteLen 0) 48 quote = headers ++ quote := by
    rw [← front]
    exact copyFromSlice_end (by rw [List.length_replicate, taken])
  have whole : (headers ++ quote).length = 48 + quoteLen := by
    rw [List.length_append, front, taken]
  refine Runs.bind (quoted ▸ Runs.writeFrom (by rw [List.length_append, List.length_replicate]; omega)) ?_
  refine Runs.bind (Runs.orReject_some (U32.tryFrom_eq (by omega))) ?_
  refine .bind (.read (by decide) (by omega)) ?_
  refine .bind (.read (by decide) (by omega)) ?_
  refine .bind (.readFrom (by omega)) ?_
  exact .write (by rw [U16.length_toBeBytes]; omega)

theorem fillIcmpv6Error_runs {original before : List UInt8} {context : ControlContext} {kind : LocalControlKind} {mtu quoteLen : Nat}
    (known : kind ≠ .fragmentationNeeded) (fits : quoteLen ≤ original.length) (capped : 48 + quoteLen ≤ 65535)
    (length : before.length = 48 + quoteLen) :
    (∃ parameter, parameterField kind mtu context.upperProtocolField = some parameter ∧
      (fillIcmpv6Error original context kind mtu source destination icmpType code quoteLen (48 + quoteLen)).Runs before
        (sealIcmpv6 ⟨48 + quoteLen - 40, by omega⟩
          (icmpv6Front ⟨48 + quoteLen - 40, by omega⟩ icmpType code parameter source destination ++ original.take quoteLen))
        (.ok ())) ∨
      parameterField kind mtu context.upperProtocolField = none ∧ ∃ after, after.length = before.length ∧
        (fillIcmpv6Error original context kind mtu source destination icmpType code quoteLen (48 + quoteLen)).Runs before after
          (.error ()) := by
  have headed := @writeIcmpv6Headers_runs icmpType code source destination before quoteLen capped length
  rcases @writeIcmpv6Parameter_runs ⟨48 + quoteLen - 40, by omega⟩ icmpType code source destination
      (List.replicate quoteLen 0) context kind mtu known with ⟨parameter, field, runs⟩ | ⟨none, runs⟩
  · exact .inl ⟨parameter, field, headed.bind (runs.bind (writeIcmpv6Quote_runs fits capped))⟩
  · refine .inr ⟨none, _, ?_, headed.bind runs.fails⟩
    rw [List.length_append, length_icmpv6Front, List.length_replicate, length]

end icmpv6

variable (original : List UInt8)

/-- The error message over IPv4 that answers a packet, if there is one. -/
def icmpv4Reply (context : ControlContext) (kind : LocalControlKind) (mtu outputLen : Nat) (source destination : Ipv4Addr) :
    Except Unit (List UInt8) :=
  let quoteLen := min original.length (context.transportOffset + 8)
  if ¬ipv4Unicast source ∨ ¬ipv4Unicast destination then .error ()
  else
    match icmpv4Code kind with
    | none => .error ()
    | some (icmpType, code) =>
      if mtu < 28 + quoteLen ∨ outputLen < 28 + quoteLen then .error ()
      else
        match U16.tryFrom (28 + quoteLen) with
        | none => .error ()
        | some total =>
          .ok (sealIcmpv4 (icmpv4Front total (nextHopField kind mtu) icmpType code source destination ++ original.take quoteLen))

/-- The error message over IPv6 that answers a packet, if there is one. -/
def icmpv6Reply (context : ControlContext) (kind : LocalControlKind) (mtu outputLen : Nat) (source destination : Ipv6Addr) :
    Except Unit (List UInt8) :=
  let quoteLen := min original.length (mtu - 48)
  if ¬ipv6Unicast source ∨ ¬ipv6Unicast destination ∨ mtu < 48 then .error ()
  else
    match icmpv6Code kind with
    | none => .error ()
    | some (icmpType, code) =>
      if outputLen < 48 + quoteLen ∨ maxReassembledPacket < 48 + quoteLen then .error ()
      else
        match U16.tryFrom (48 + quoteLen - 40), U32.tryFrom (48 + quoteLen - 40),
          parameterField kind mtu context.upperProtocolField with
        | some payloadLen, some length, some parameter =>
          .ok (sealIcmpv6 length (icmpv6Front payloadLen icmpType code parameter source destination ++ original.take quoteLen))
        | _, _, _ => .error ()

def controlReply (context : ControlContext) (kind : LocalControlKind) (mtu outputLen : Nat) : Except Unit (List UInt8) :=
  if context.suppressReply ∨ original.length ≠ context.totalLen ∨ context.transportOffset ≤ context.upperProtocolField ∨
      original[context.upperProtocolField]? ≠ some context.upperProtocol ∨ 65535 < mtu then .error ()
  else
    match context.family, context.source, context.destination with
    | .ipv4, .v4 source, .v4 destination => icmpv4Reply original context kind mtu outputLen source destination
    | .ipv6, .v6 source, .v6 destination => icmpv6Reply original context kind mtu outputLen source destination
    | _, _, _ => .error ()

theorem length_sealIpv4Header {bytes : List UInt8} (long : 20 ≤ bytes.length) : (sealIpv4Header bytes).length = bytes.length :=
  length_copyFromSlice (by rw [U16.length_toBeBytes]; omega)

theorem length_sealIcmpv4 {blank : List UInt8} (long : 28 ≤ blank.length) : (sealIcmpv4 blank).length = blank.length := by
  have summed : (copyFromSlice blank 22 (internetChecksum [blank.drop 20]).toBeBytes).length = blank.length :=
    length_copyFromSlice (by rw [U16.length_toBeBytes]; omega)
  exact (length_sealIpv4Header (by omega)).trans summed

theorem length_sealIcmpv6 {length : U32} {blank : List UInt8} (long : 48 ≤ blank.length) :
    (sealIcmpv6 length blank).length = blank.length := length_copyFromSlice (by rw [U16.length_toBeBytes]; omega)

variable {kind : LocalControlKind}

theorem icmpv6Code_known {codes : UInt8 × UInt8} (found : icmpv6Code kind = some codes) :
    kind ≠ .fragmentationNeeded := by
  rintro rfl
  cases found

theorem writeIcmpv4Error_produces {original : List UInt8} {source destination : Ipv4Addr} (bound : mtu ≤ 65535) :
    (writeIcmpv4Error original context kind mtu source destination).Produces output
      (icmpv4Reply original context kind mtu output.length source destination) := by
  unfold writeIcmpv4Error icmpv4Reply
  dsimp only
  by_cases addresses : ¬ipv4Unicast source ∨ ¬ipv4Unicast destination
  · rw [if_pos addresses]
    exact .refused addresses
  rw [if_neg addresses]
  refine .step (.passed addresses) ?_
  cases found : icmpv4Code kind with
  | none => exact ⟨output, rfl, (Runs.orReject_none rfl).fails⟩
  | some codes =>
    obtain ⟨icmpType, code⟩ := codes
    refine .step (.orReject_some rfl) (.step .length ?_)
    have fits : min original.length (context.transportOffset + 8) ≤ original.length := Nat.min_le_left ..
    dsimp only
    generalize min original.length (context.transportOffset + 8) = quoteLen at fits
    by_cases capped : mtu < 28 + quoteLen ∨ output.length < 28 + quoteLen
    · rw [if_pos capped]
      exact .refused capped
    rw [if_neg capped, U16.tryFrom_eq (by omega)]
    refine .step (.passed capped) ?_
    have filled := @fillIcmpv4Error_runs icmpType code source destination original (output.take (28 + quoteLen)) kind mtu quoteLen
      bound fits (by omega) (List.length_take_of_le (by omega))
    have sealed : (sealIcmpv4 (icmpv4Front ⟨28 + quoteLen, by omega⟩ (nextHopField kind mtu) icmpType code source destination ++
        original.take quoteLen)).length = 28 + quoteLen := by
      rw [length_sealIcmpv4 (by rw [List.length_append, length_icmpv4Front]; omega), List.length_append, length_icmpv4Front,
        List.length_take_of_le fits]
    refine ⟨by omega, ?_⟩
    rw [sealed]
    exact (Runs.onPrefix (by omega) filled).bind (Runs.pure (28 + quoteLen))

theorem writeIcmpv6Error_produces {original : List UInt8}
    {source destination : Ipv6Addr} : (writeIcmpv6Error original context kind mtu source destination).Produces output
      (icmpv6Reply original context kind mtu output.length source destination) := by
  unfold writeIcmpv6Error icmpv6Reply
  dsimp only
  by_cases addresses : ¬ipv6Unicast source ∨ ¬ipv6Unicast destination ∨ mtu < 48
  · rw [if_pos addresses]
    exact .refused addresses
  rw [if_neg addresses]
  refine .step (.passed addresses) ?_
  cases found : icmpv6Code kind with
  | none => exact ⟨output, rfl, (Runs.orReject_none rfl).fails⟩
  | some codes =>
    obtain ⟨icmpType, code⟩ := codes
    refine .step (.orReject_some rfl) (.step .length ?_)
    have fits : min original.length (mtu - 48) ≤ original.length := Nat.min_le_left ..
    dsimp only
    generalize min original.length (mtu - 48) = quoteLen at fits
    by_cases capped : output.length < 48 + quoteLen ∨ maxReassembledPacket < 48 + quoteLen
    · rw [if_pos capped]
      exact .refused capped
    have small : 48 + quoteLen ≤ 65535 := not_lt.mp (not_or.mp capped).2
    rw [if_neg capped, U16.tryFrom_eq (by omega), U32.tryFrom_eq (by omega)]
    refine .step (.passed capped) ?_
    rcases @fillIcmpv6Error_runs icmpType code source destination original (output.take (48 + quoteLen)) context kind mtu quoteLen
      (icmpv6Code_known found) fits small (List.length_take_of_le (by omega)) with ⟨parameter, field, runs⟩ | ⟨none, after, length, runs⟩
    · rw [field]
      have sealed : (sealIcmpv6 ⟨48 + quoteLen - 40, by omega⟩ (icmpv6Front ⟨48 + quoteLen - 40, by omega⟩ icmpType code parameter
          source destination ++ original.take quoteLen)).length = 48 + quoteLen := by
        rw [length_sealIcmpv6 (by rw [List.length_append, length_icmpv6Front]; omega), List.length_append, length_icmpv6Front,
          List.length_take_of_le fits]
      refine ⟨by omega, ?_⟩
      rw [sealed]
      exact (Runs.onPrefix (by omega) runs).bind (Runs.pure (48 + quoteLen))
    · rw [none]
      refine ⟨after ++ output.drop (48 + quoteLen), ?_, (Runs.onPrefix (by omega) runs).fails⟩
      rw [List.length_append, length, List.length_take, List.length_drop]
      omega

theorem writeLocalControlError_produces (context : ControlContext) (kind : LocalControlKind) (mtu : Nat)
    (output : List UInt8) : (writeLocalControlError original context kind mtu).Produces output
      (controlReply original context kind mtu output.length) := by
  unfold writeLocalControlError controlReply
  by_cases unfit : context.suppressReply ∨ original.length ≠ context.totalLen ∨
      context.transportOffset ≤ context.upperProtocolField ∨
      original[context.upperProtocolField]? ≠ some context.upperProtocol ∨ 65535 < mtu
  · rw [if_pos unfit]
    exact .refused unfit
  rw [if_neg unfit]
  refine .step (.passed unfit) ?_
  have bound : mtu ≤ 65535 := by
    simp only [not_or] at unfit
    omega
  cases context.family <;> cases context.source <;> cases context.destination
  case ipv4.v4.v4 => exact writeIcmpv4Error_produces bound
  case ipv6.v6.v6 => exact writeIcmpv6Error_produces
  all_goals exact ⟨output, rfl, .reject ()⟩

end Tun

end Ferrum
