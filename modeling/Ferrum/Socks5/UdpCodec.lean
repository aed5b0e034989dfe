import Ferrum.Core.Target
import Ferrum.Lib.Checked
import Ferrum.Lib.SliceWriter

namespace Ferrum.Socks5

open List Checked Core
open Tun (IpAddr ipv4At ipv6At)

def addressTypeIpv4 : UInt8 := 1
def addressTypeDomain : UInt8 := 3
def addressTypeIpv6 : UInt8 := 4
def maxSocksUdpDatagramBytes : Nat := 65507

inductive SocksUdpError
  | invalid | fragmented | bounds
  deriving DecidableEq, Repr

/-- The borrowed view of a host; a name here is not bounded by its type. -/
inductive TargetHostRef
  | ip (address : IpAddr)
  | domain (host : List UInt8)

structure SocksUdpDatagram where
  host : TargetHostRef
  port : U16
  nonzero : port ≠ 0
  payload : List UInt8

/-- `TargetAddr::host`. -/
def hostRef : TargetHost → TargetHostRef
  | .ip address => .ip address
  | .domain name => .domain name.original

def SocksUdpDatagram.encodedTargetLen (datagram : SocksUdpDatagram) : Nat :=
  match datagram.host with
  | .ip (.v4 _) => 7
  | .ip (.v6 _) => 19
  | .domain host => 4 + host.length

def SocksUdpDatagram.toTargetAddr (datagram : SocksUdpDatagram) : Checked SocksUdpError TargetAddr :=
  match datagram.host with
  | .ip address => expect (TargetAddr.ip ⟨address, datagram.port⟩).toOption
  | .domain host => expect (TargetAddr.domain host datagram.port).toOption

/-- The host with the offset of the port. What is not UTF-8 is not ASCII either, and both are
refused with the same error. -/
def decodeHost (input : List UInt8) : Checked SocksUdpError (TargetHostRef × Nat) := do
  let addressType ← index input 3
  if addressType = addressTypeIpv4 then
    let address ← okOr (getRange input 4 8) .invalid
    assert (address.length = 4)
    return (.ip (.v4 (ipv4At address 0)), 8)
  else if addressType = addressTypeIpv6 then
    let address ← okOr (getRange input 4 20) .invalid
    assert (address.length = 16)
    return (.ip (.v6 (ipv6At address 0)), 20)
  else if addressType = addressTypeDomain then
    let length ← okOr input[4]? .invalid
    failIf (length = 0) .invalid
    let hostEnd := 5 + length.toNat
    let host ← okOr (getRange input 5 hostEnd) .invalid
    failIf (isAscii host = false) .invalid
    return (.domain host, hostEnd)
  else fail .invalid

def decodeUdpDatagram (input : List UInt8) : Checked SocksUdpError SocksUdpDatagram := do
  failIf (maxSocksUdpDatagramBytes < input.length) .bounds
  failIf (input.length < 4) .invalid
  let reserved ← slicing input 0 2
  failIf (reserved ≠ [0, 0]) .invalid
  let fragment ← index input 2
  failIf (fragment ≠ 0) .fragmented
  let (host, portOffset) ← decodeHost input
  let port ← okOr (getRange input portOffset (portOffset + 2)) .invalid
  let high ← index port 0
  let low ← index port 1
  if nonzero : U16.fromBeBytes high low ≠ 0 then
    let payload ← slicing input (portOffset + 2) input.length
    return ⟨host, _, nonzero, payload⟩
  else fail .invalid

def headerLen (target : TargetAddr) : Nat :=
  match target.host with
  | .ip (.v4 _) => 10
  | .ip (.v6 _) => 22
  | .domain name => 7 + name.original.length

/-- `usize::checked_add`. -/
def checkedAdd (a b : Nat) : Option Nat := if a + b < 2 ^ 64 then some (a + b) else none

/-- `u8::try_from`. -/
def u8TryFrom (value : Nat) : Option UInt8 := if value < 256 then some (UInt8.ofNat value) else none

/-- The type, the host and the port of a target, from the fourth byte on. -/
def writeTarget (target : TargetAddr) : SliceWriter SocksUdpError Unit :=
  match target.host with
  | .ip (.v4 address) => do
    SliceWriter.write 3 [addressTypeIpv4]
    SliceWriter.write 4 address.toList
    SliceWriter.write 8 target.port.toBeBytes
  | .ip (.v6 address) => do
    SliceWriter.write 3 [addressTypeIpv6]
    SliceWriter.write 4 address.toList
    SliceWriter.write 20 target.port.toBeBytes
  | .domain name => do
    SliceWriter.write 3 [addressTypeDomain]
    let length ← SliceWriter.expect (u8TryFrom name.original.length)
    SliceWriter.write 4 [length]
    SliceWriter.write 5 name.original
    SliceWriter.write (5 + name.original.length) target.port.toBeBytes

def encodeUdpDatagram (target : TargetAddr) (payload : List UInt8) : SliceWriter SocksUdpError Nat := do
  let completeLen ← SliceWriter.orReject (checkedAdd (headerLen target) payload.length) .bounds
  let room ← SliceWriter.length
  SliceWriter.refuseWhen (maxSocksUdpDatagramBytes < completeLen ∨ room < completeLen) .bounds
  SliceWriter.fillZeros 3
  writeTarget target
  SliceWriter.write (headerLen target) payload
  return completeLen

/-- The grammar of a host: the type, then the address, or the length and the name. -/
def hostBytes : TargetHost → List UInt8
  | .ip (.v4 address) => addressTypeIpv4 :: address.toList
  | .ip (.v6 address) => addressTypeIpv6 :: address.toList
  | .domain name => addressTypeDomain :: UInt8.ofNat name.original.length :: name.original

def targetBytes (target : TargetAddr) : List UInt8 := hostBytes target.host ++ target.port.toBeBytes

/-- The grammar of a datagram: two reserved bytes and the fragment number, all zero, then the
target and the payload. -/
def datagramBytes (target : TargetAddr) (payload : List UInt8) : List UInt8 := [0, 0, 0] ++ targetBytes target ++ payload

theorem length_targetBytes (target : TargetAddr) : 3 + (targetBytes target).length = headerLen target := by
  obtain ⟨host, port, nonzero⟩ := target
  cases host with
  | ip address =>
    cases address with
    | v4 address | v6 address => simp [targetBytes, hostBytes, headerLen]
  | domain name =>
    simp only [targetBytes, hostBytes, headerLen, length_append, length_cons, U16.length_toBeBytes]
    omega

theorem length_datagramBytes (target : TargetAddr) (payload : List UInt8) :
    (datagramBytes target payload).length = headerLen target + payload.length := by
  rw [← length_targetBytes target]
  simp only [datagramBytes, length_append, length_cons, length_nil]

section encode

variable {target : TargetAddr} {payload output : List UInt8}

theorem writeTarget_runs (fits : headerLen target ≤ output.length) :
    (writeTarget target).Runs ([0, 0, 0] ++ output.drop 3)
      ([0, 0, 0] ++ targetBytes target ++ output.drop (headerLen target)) (.ok ()) := by
  obtain ⟨host, port, nonzero⟩ := target
  cases host with
  | ip address =>
    cases address with
    | v4 address =>
      have width : address.toList.length = 4 := address.size_toArray
      simp only [headerLen] at fits
      refine (@SliceWriter.Runs.extend _ _ _ _ 3 4 rfl rfl (by omega)).bind ?_
      refine (@SliceWriter.Runs.extend _ _ _ _ 4 8 rfl (by rw [width]) (by omega)).bind ?_
      have last := @SliceWriter.Runs.extend SocksUdpError ([0, 0, 0] ++ [addressTypeIpv4] ++ address.toList) output port.toBeBytes
        8 10 (by simp) rfl fits
      simpa [targetBytes, hostBytes, headerLen] using last
    | v6 address =>
      have width : address.toList.length = 16 := address.size_toArray
      simp only [headerLen] at fits
      refine (@SliceWriter.Runs.extend _ _ _ _ 3 4 rfl rfl (by omega)).bind ?_
      refine (@SliceWriter.Runs.extend _ _ _ _ 4 20 rfl (by rw [width]) (by omega)).bind ?_
      have last := @SliceWriter.Runs.extend SocksUdpError ([0, 0, 0] ++ [addressTypeIpv6] ++ address.toList) output port.toBeBytes
        20 22 (by simp) rfl fits
      simpa [targetBytes, hostBytes, headerLen] using last
  | domain name =>
    have bounded : name.original.length ≤ 255 := name.bounded
    have length : u8TryFrom name.original.length = some (UInt8.ofNat name.original.length) := if_pos (by omega)
    simp only [headerLen] at fits
    refine (@SliceWriter.Runs.extend _ _ _ _ 3 4 rfl rfl (by omega)).bind ?_
    refine (SliceWriter.Runs.expect_some length).bind ?_
    refine (@SliceWriter.Runs.extend _ _ _ _ 4 5 rfl rfl (by omega)).bind ?_
    refine (@SliceWriter.Runs.extend _ _ _ _ 5 (5 + name.original.length) rfl rfl (by omega)).bind ?_
    have last := @SliceWriter.Runs.extend SocksUdpError ([0, 0, 0] ++ [addressTypeDomain] ++
      [UInt8.ofNat name.original.length] ++ name.original) output port.toBeBytes (5 + name.original.length)
      (7 + name.original.length) (by simp; omega) (by rw [U16.length_toBeBytes]; omega) fits
    simpa [targetBytes, hostBytes, headerLen] using last

theorem encodeUdpDatagram_runs (bounded : (datagramBytes target payload).length ≤ maxSocksUdpDatagramBytes)
    (room : (datagramBytes target payload).length ≤ output.length) :
    (encodeUdpDatagram target payload).Runs output
      (datagramBytes target payload ++ output.drop (datagramBytes target payload).length)
      (.ok (datagramBytes target payload).length) := by
  rw [length_datagramBytes] at *
  have limit : maxSocksUdpDatagramBytes = 65507 := rfl
  have long := length_targetBytes target
  have total : checkedAdd (headerLen target) payload.length = some (headerLen target + payload.length) := if_pos (by omega)
  refine (SliceWriter.Runs.orReject_some total).bind ?_
  refine SliceWriter.Runs.length.bind ?_
  refine (SliceWriter.Runs.passed (by omega)).bind ?_
  have zeros := @SliceWriter.Runs.extend SocksUdpError [] output [0, 0, 0] 0 3 rfl rfl (by omega)
  refine zeros.bind ?_
  refine (writeTarget_runs (by omega)).bind ?_
  refine (SliceWriter.Runs.extend ?_ rfl room).bind ?_
  · simp only [length_append, length_cons, length_nil]
    omega
  · exact .pure _

theorem encodeUdpDatagram_bounds (long : maxSocksUdpDatagramBytes < (datagramBytes target payload).length ∨
    output.length < (datagramBytes target payload).length) :
    (encodeUdpDatagram target payload).Runs output output (.error .bounds) := by
  rw [length_datagramBytes] at long
  by_cases total : headerLen target + payload.length < 2 ^ 64
  · refine (SliceWriter.Runs.orReject_some (if_pos total)).bind ?_
    refine SliceWriter.Runs.length.bind ?_
    exact (SliceWriter.Runs.refused long).fails
  · exact (SliceWriter.Runs.orReject_none (if_neg total)).fails

end encode

open Tun (ipv4At ipv6At)

theorem ipv4At_toList (address : Tun.Ipv4Addr) : ipv4At address.toList 0 = address := by
  refine Vector.ext ?_
  intro i within
  simp [ipv4At, byte]

theorem ipv6At_toList (address : Tun.Ipv6Addr) : ipv6At address.toList 0 = address := by
  refine Vector.ext ?_
  intro i within
  simp [ipv6At, byte]

theorem toTargetAddr_hostRef (target : TargetAddr) (payload : List UInt8) :
    (SocksUdpDatagram.mk (hostRef target.host) target.port target.nonzero payload).toTargetAddr = .ok target := by
  obtain ⟨host, port, nonzero⟩ := target
  cases host with
  | ip address => simp only [SocksUdpDatagram.toTargetAddr, hostRef, TargetAddr.ip, dif_neg nonzero, Except.toOption, expect]
  | domain name =>
    simp only [SocksUdpDatagram.toTargetAddr, hostRef, TargetAddr.domain, DomainName.new, dif_neg nonzero, dif_neg name.nonempty,
      dif_pos name.bounded, dif_pos name.ascii, Except.toOption, expect]

theorem decodeHost_hostBytes (host : TargetHost) {front rest : List UInt8} (three : front.length = 3) :
    decodeHost (front ++ hostBytes host ++ rest) = .ok (hostRef host, 3 + (hostBytes host).length) := by
  cases host with
  | ip address =>
    cases address with
    | v4 address =>
      have width : address.toList.length = 4 := address.size_toArray
      let bytes := front ++ hostBytes (.ip (.v4 address)) ++ rest
      have kind : @index SocksUdpError _ bytes 3 = .ok addressTypeIpv4 :=
        index_append front (address.toList ++ rest) (by simp [bytes, hostBytes]) three
      have octets : getRange bytes 4 8 = some address.toList :=
        getRange_append (front ++ [addressTypeIpv4]) _ rest (by simp [bytes, hostBytes]) (by simp [three]) (by rw [width])
      change decodeHost bytes = _
      unfold decodeHost
      simp only [kind, octets, okOr, assert, width, bind, Except.bind, pure, Except.pure, ipv4At_toList, hostRef, hostBytes,
        length_cons, if_true]
    | v6 address =>
      have width : address.toList.length = 16 := address.size_toArray
      let bytes := front ++ hostBytes (.ip (.v6 address)) ++ rest
      have kind : @index SocksUdpError _ bytes 3 = .ok addressTypeIpv6 :=
        index_append front (address.toList ++ rest) (by simp [bytes, hostBytes]) three
      have octets : getRange bytes 4 20 = some address.toList :=
        getRange_append (front ++ [addressTypeIpv6]) _ rest (by simp [bytes, hostBytes]) (by simp [three]) (by rw [width])
      change decodeHost bytes = _
      unfold decodeHost
      simp only [kind, octets, okOr, assert, width, bind, Except.bind, pure, Except.pure, ipv6At_toList, hostRef, hostBytes,
        length_cons, if_true]
      rfl
  | domain name =>
    have bounded : name.original.length ≤ 255 := name.bounded
    have some_byte : name.original.length ≠ 0 := fun empty => name.nonempty (eq_nil_of_length_eq_zero empty)
    have width : (UInt8.ofNat name.original.length).toNat = name.original.length := by
      rw [UInt8.toNat_ofNat']
      omega
    have nonzero : ¬UInt8.ofNat name.original.length = 0 := by
      intro zero
      rw [zero] at width
      exact some_byte width.symm
    let bytes := front ++ hostBytes (.domain name) ++ rest
    have kind : @index SocksUdpError _ bytes 3 = .ok addressTypeDomain :=
      index_append front (UInt8.ofNat name.original.length :: name.original ++ rest) (by simp [bytes, hostBytes]) three
    have length : bytes[4]? = some (UInt8.ofNat name.original.length) := by
      refine index_eq_ok.mp (index_append (ε := SocksUdpError) (front ++ [addressTypeDomain]) (name.original ++ rest)
        (by simp [bytes, hostBytes]) (by simp [three]))
    have host : getRange bytes 5 (5 + name.original.length) = some name.original :=
      getRange_append (front ++ [addressTypeDomain, UInt8.ofNat name.original.length]) _ rest (by simp [bytes, hostBytes])
        (by simp [three]) rfl
    change decodeHost bytes = _
    unfold decodeHost
    simp only [kind, length, okOr, width, host, failIf, if_neg nonzero, name.ascii, bind, Except.bind, pure, Except.pure, hostRef,
      hostBytes, length_cons]
    rw [if_neg (by decide), if_neg (by decide), if_pos trivial]
    simp only [Bool.true_eq_false, if_false]
    congr 2
    omega

theorem decodeUdpDatagram_datagramBytes {target : TargetAddr} {payload : List UInt8}
    (bounded : (datagramBytes target payload).length ≤ maxSocksUdpDatagramBytes) :
    decodeUdpDatagram (datagramBytes target payload) =
      .ok ⟨hostRef target.host, target.port, target.nonzero, payload⟩ := by
  have long := length_datagramBytes target payload
  have header := length_targetBytes target
  have width : (targetBytes target).length = (hostBytes target.host).length + 2 := by
    simp [targetBytes]
  let bytes := datagramBytes target payload
  have shape : bytes = [0, 0, 0] ++ hostBytes target.host ++ (target.port.toBeBytes ++ payload) := by
    simp [bytes, datagramBytes, targetBytes]
  have short : ¬bytes.length < 4 := by
    have kind : 1 ≤ (hostBytes target.host).length := by
      unfold hostBytes
      split <;> simp
    change ¬(datagramBytes target payload).length < 4
    omega
  have within : ¬maxSocksUdpDatagramBytes < bytes.length := Nat.not_lt.mpr bounded
  have reserved : @slicing SocksUdpError bytes 0 2 = .ok [0, 0] :=
    slicing_append [] [0, 0] (0 :: (hostBytes target.host ++ (target.port.toBeBytes ++ payload)))
      (by rw [shape]; simp) rfl rfl
  have fragment : @index SocksUdpError _ bytes 2 = .ok 0 :=
    index_append [0, 0] (hostBytes target.host ++ (target.port.toBeBytes ++ payload)) (by rw [shape]; simp) rfl
  have host : decodeHost bytes = .ok (hostRef target.host, 3 + (hostBytes target.host).length) := by
    rw [shape]
    exact decodeHost_hostBytes target.host rfl
  have port : getRange bytes (3 + (hostBytes target.host).length) (3 + (hostBytes target.host).length + 2) =
      some target.port.toBeBytes :=
    getRange_append ([0, 0, 0] ++ hostBytes target.host) _ payload (by rw [shape]; simp) (by simp; omega) rfl
  have high : @index SocksUdpError _ target.port.toBeBytes 0 = .ok (UInt8.ofNat (target.port.val / 256)) := rfl
  have low : @index SocksUdpError _ target.port.toBeBytes 1 = .ok (UInt8.ofNat (target.port.val % 256)) := rfl
  have rest : @slicing SocksUdpError bytes (3 + (hostBytes target.host).length + 2) bytes.length = .ok payload :=
    slicing_append ([0, 0, 0] ++ targetBytes target) payload [] (by rw [shape]; simp [targetBytes])
      (by rw [length_append, width]; simp; omega) (by change _ = (datagramBytes target payload).length; omega)
  change decodeUdpDatagram bytes = _
  unfold decodeUdpDatagram
  simp only [failIf, if_neg within, if_neg short, reserved, fragment,
    host, port, okOr, high, low, bind, Except.bind, pure, Except.pure, ne_eq, not_true_eq_false, if_false, dif_pos target.nonzero,
    U16.fromBeBytes_toBeBytes target.port, rest]

variable {input : List UInt8}

theorem decodeHost_safe (long : ¬input.length < 4) : Safe (decodeHost input) := by
  unfold decodeHost
  refine (safe_index (by omega)).bind fun kind _ => ?_
  split
  · refine (safe_okOr _ _).bind fun address found => ?_
    obtain ⟨-, inside, range⟩ := getRange_eq_some.mp (okOr_eq_ok.mp found)
    refine (safe_assert ?_).bind fun _ _ => safe_ok _
    rw [← range, length_slice]
    omega
  split
  · refine (safe_okOr _ _).bind fun address found => ?_
    obtain ⟨-, inside, range⟩ := getRange_eq_some.mp (okOr_eq_ok.mp found)
    refine (safe_assert ?_).bind fun _ _ => safe_ok _
    rw [← range, length_slice]
    omega
  split
  · refine (safe_okOr _ _).bind fun length _ => ?_
    refine (safe_failIf _ _).bind fun _ _ => ?_
    refine (safe_okOr _ _).bind fun host _ => ?_
    exact (safe_failIf _ _).bind fun _ _ => safe_ok _
  · exact safe_fail _

theorem decodeUdpDatagram_safe (input : List UInt8) : Safe (decodeUdpDatagram input) := by
  unfold decodeUdpDatagram
  refine (safe_failIf _ _).bind fun _ _ => ?_
  refine (safe_failIf _ _).bind fun _ long => ?_
  rw [failIf_eq_ok] at long
  refine (safe_slicing (by omega) (by omega)).bind fun reserved _ => ?_
  refine (safe_failIf _ _).bind fun _ _ => ?_
  refine (safe_index (by omega)).bind fun fragment _ => ?_
  refine (safe_failIf _ _).bind fun _ _ => ?_
  refine (decodeHost_safe long).bind fun found _ => ?_
  obtain ⟨host, portOffset⟩ := found
  refine (safe_okOr _ _).bind fun port found => ?_
  obtain ⟨-, inside, range⟩ := getRange_eq_some.mp (okOr_eq_ok.mp found)
  have two : port.length = 2 := by
    rw [← range, length_slice]
    omega
  refine (safe_index (by omega)).bind fun high _ => ?_
  refine (safe_index (by omega)).bind fun low _ => ?_
  split
  · exact (safe_slicing inside (Nat.le_refl _)).bind fun _ _ => safe_ok _
  · exact safe_fail _

theorem hostBytes_ipv4 {octets : List UInt8} (width : octets.length = 4) :
    hostBytes (.ip (.v4 (ipv4At octets 0))) = addressTypeIpv4 :: octets := by
  have same : (ipv4At octets 0).toList = octets := by
    refine ext_getElem (by simp [width]) ?_
    intro i left right
    simp [ipv4At, byte, right]
  simp only [hostBytes, same]

theorem hostBytes_ipv6 {octets : List UInt8} (width : octets.length = 16) :
    hostBytes (.ip (.v6 (ipv6At octets 0))) = addressTypeIpv6 :: octets := by
  have same : (ipv6At octets 0).toList = octets := by
    refine ext_getElem (by simp [width]) ?_
    intro i left right
    simp [ipv6At, byte, right]
  simp only [hostBytes, same]

theorem decodeHost_inv {found : TargetHostRef} {portOffset : Nat}
    (decoded : decodeHost input = .ok (found, portOffset)) :
    ∃ host, hostRef host = found ∧ 3 ≤ portOffset ∧ slice input 3 portOffset = hostBytes host := by
  unfold decodeHost at decoded
  obtain ⟨kind, read, decoded⟩ := bind_eq_ok.mp decoded
  have first := slice_single (index_eq_ok.mp read)
  split at decoded
  · rename_i ipv4
    obtain ⟨octets, found, decoded⟩ := bind_eq_ok.mp decoded
    obtain ⟨-, inside, range⟩ := getRange_eq_some.mp (okOr_eq_ok.mp found)
    obtain ⟨_, -, decoded⟩ := bind_eq_ok.mp decoded
    cases decoded
    have width : octets.length = 4 := by
      rw [← range, length_slice]
      omega
    refine ⟨.ip (.v4 (ipv4At octets 0)), rfl, by omega, ?_⟩
    rw [hostBytes_ipv4 width, ← slice_append_slice input (show 3 ≤ 4 by omega) (show 4 ≤ 8 by omega), first, range, ipv4]
    rfl
  split at decoded
  · rename_i ipv6
    obtain ⟨octets, found, decoded⟩ := bind_eq_ok.mp decoded
    obtain ⟨-, inside, range⟩ := getRange_eq_some.mp (okOr_eq_ok.mp found)
    obtain ⟨_, -, decoded⟩ := bind_eq_ok.mp decoded
    cases decoded
    have width : octets.length = 16 := by
      rw [← range, length_slice]
      omega
    refine ⟨.ip (.v6 (ipv6At octets 0)), rfl, by omega, ?_⟩
    rw [hostBytes_ipv6 width, ← slice_append_slice input (show 3 ≤ 4 by omega) (show 4 ≤ 20 by omega), first, range, ipv6]
    rfl
  split at decoded
  · rename_i domain
    obtain ⟨length, lengthRead, decoded⟩ := bind_eq_ok.mp decoded
    have second := slice_single (okOr_eq_ok.mp lengthRead)
    obtain ⟨_, nonzero, decoded⟩ := bind_eq_ok.mp decoded
    rw [failIf_eq_ok] at nonzero
    obtain ⟨host, found, decoded⟩ := bind_eq_ok.mp decoded
    obtain ⟨-, inside, range⟩ := getRange_eq_some.mp (okOr_eq_ok.mp found)
    obtain ⟨_, ascii, decoded⟩ := bind_eq_ok.mp decoded
    rw [failIf_eq_ok, Bool.not_eq_false] at ascii
    cases decoded
    have width : host.length = length.toNat := by
      rw [← range, length_slice]
      omega
    have nonempty : host ≠ [] := by
      rintro rfl
      exact nonzero (UInt8.toNat_inj.mp width.symm)
    have bounded : host.length ≤ maxDomainNameBytes := by
      have bound := length.toNat_lt
      have limit : maxDomainNameBytes = 255 := rfl
      omega
    refine ⟨.domain ⟨host, nonempty, bounded, ascii⟩, rfl, by omega, ?_⟩
    simp only [hostBytes]
    rw [← slice_append_slice input (show 3 ≤ 5 by omega) (show 5 ≤ 5 + length.toNat by omega),
      ← slice_append_slice input (show 3 ≤ 4 by omega) (show 4 ≤ 5 by omega), first, second, range, domain, width,
      UInt8.ofNat_toNat]
    rfl
  · cases decoded

theorem decodeUdpDatagram_inv {datagram : SocksUdpDatagram}
    (decoded : decodeUdpDatagram input = .ok datagram) : ∃ target, datagram.toTargetAddr = .ok target ∧
      datagramBytes target datagram.payload = input ∧ input.length ≤ maxSocksUdpDatagramBytes := by
  unfold decodeUdpDatagram at decoded
  obtain ⟨_, bounded, decoded⟩ := bind_eq_ok.mp decoded
  rw [failIf_eq_ok, Nat.not_lt] at bounded
  obtain ⟨_, -, decoded⟩ := bind_eq_ok.mp decoded
  obtain ⟨reserved, sliced, decoded⟩ := bind_eq_ok.mp decoded
  obtain ⟨-, -, reservedRange⟩ := slicing_eq_ok.mp sliced
  obtain ⟨_, reservedZero, decoded⟩ := bind_eq_ok.mp decoded
  rw [failIf_eq_ok, ne_eq, not_not] at reservedZero
  obtain ⟨fragment, fragmentRead, decoded⟩ := bind_eq_ok.mp decoded
  obtain ⟨_, fragmentZero, decoded⟩ := bind_eq_ok.mp decoded
  rw [failIf_eq_ok, ne_eq, not_not] at fragmentZero
  obtain ⟨⟨host, portOffset⟩, hostDecoded, decoded⟩ := bind_eq_ok.mp decoded
  obtain ⟨owned, ref, above, hostRange⟩ := decodeHost_inv hostDecoded
  obtain ⟨port, portFound, decoded⟩ := bind_eq_ok.mp decoded
  obtain ⟨-, inside, portRange⟩ := getRange_eq_some.mp (okOr_eq_ok.mp portFound)
  obtain ⟨high, highRead, decoded⟩ := bind_eq_ok.mp decoded
  obtain ⟨low, lowRead, decoded⟩ := bind_eq_ok.mp decoded
  split at decoded
  · rename_i nonzero
    obtain ⟨payload, payloadSliced, decoded⟩ := bind_eq_ok.mp decoded
    obtain ⟨-, -, payloadRange⟩ := slicing_eq_ok.mp payloadSliced
    cases decoded
    have two : port.length = 2 := by
      rw [← portRange, length_slice]
      omega
    have portBytes : port = [high, low] := by
      match port, two with
      | [first, second], _ =>
        cases index_eq_ok.mp highRead
        cases index_eq_ok.mp lowRead
        rfl
    let target : TargetAddr := ⟨owned, U16.fromBeBytes high low, nonzero⟩
    refine ⟨target, ?_, ?_, bounded⟩
    · rw [← ref]
      exact toTargetAddr_hostRef target payload
    · have front : slice input 0 3 = [0, 0, 0] := by
        rw [← slice_append_slice input (show 0 ≤ 2 by omega) (show 2 ≤ 3 by omega), reservedRange, reservedZero,
          slice_single (index_eq_ok.mp fragmentRead), fragmentZero]
        rfl
      calc datagramBytes target payload
        _ = slice input 0 3 ++ slice input 3 portOffset ++ slice input portOffset (portOffset + 2) ++
            slice input (portOffset + 2) input.length := by
          rw [front, hostRange, portRange, payloadRange, portBytes]
          simp [datagramBytes, targetBytes, target, U16.toBeBytes_fromBeBytes]
        _ = slice input 0 input.length := by
          rw [slice_append_slice input (Nat.zero_le _) above, slice_append_slice input (by omega) (by omega),
            slice_append_slice input (by omega) (by omega)]
        _ = input := by simp [slice]
  · cases decoded

/-- An encoded datagram is decoded to its target and its payload, an accepted byte string is the
encoding of what it is decoded to, and any other one is rejected with an error, in range. -/
theorem udpDatagram_bijective :
    (∀ (target : TargetAddr) (payload output : List UInt8),
      ((datagramBytes target payload).length ≤ min maxSocksUdpDatagramBytes output.length ∧
        (encodeUdpDatagram target payload).Runs output
          (datagramBytes target payload ++ output.drop (datagramBytes target payload).length)
          (.ok (datagramBytes target payload).length) ∧
        ∃ datagram, decodeUdpDatagram (datagramBytes target payload) = .ok datagram ∧
          datagram.toTargetAddr = .ok target ∧ datagram.payload = payload) ∨
      (min maxSocksUdpDatagramBytes output.length < (datagramBytes target payload).length ∧
        (encodeUdpDatagram target payload).Runs output output (.error .bounds))) ∧
    ∀ input : List UInt8,
      (∃ datagram target, decodeUdpDatagram input = .ok datagram ∧ datagram.toTargetAddr = .ok target ∧
        ∀ output : List UInt8, input.length ≤ output.length →
          (encodeUdpDatagram target datagram.payload).Runs output (input ++ output.drop input.length) (.ok input.length)) ∨
      (∃ error, decodeUdpDatagram input = .error (.error error) ∧
        ∀ target payload, (datagramBytes target payload).length ≤ maxSocksUdpDatagramBytes →
          datagramBytes target payload ≠ input) := by
  constructor
  · intro target payload output
    rcases Nat.lt_or_ge (min maxSocksUdpDatagramBytes output.length) (datagramBytes target payload).length with long | fits
    · exact .inr ⟨long, encodeUdpDatagram_bounds (by omega)⟩
    · have bounded : (datagramBytes target payload).length ≤ maxSocksUdpDatagramBytes := by omega
      exact .inl ⟨fits, encodeUdpDatagram_runs bounded (by omega), _, decodeUdpDatagram_datagramBytes bounded,
        toTargetAddr_hostRef target payload, rfl⟩
  · intro input
    cases decoded : decodeUdpDatagram input with
    | ok datagram =>
      obtain ⟨target, owned, same, bounded⟩ := decodeUdpDatagram_inv decoded
      refine .inl ⟨datagram, target, rfl, owned, ?_⟩
      intro output room
      have runs := @encodeUdpDatagram_runs target datagram.payload output
      rw [same] at runs
      exact runs bounded room
    | error halt =>
      cases halt with
      | panic => exact absurd decoded (decodeUdpDatagram_safe input)
      | error error =>
        refine .inr ⟨error, rfl, ?_⟩
        rintro target payload bounded rfl
        rw [decodeUdpDatagram_datagramBytes bounded] at decoded
        cases decoded

end Ferrum.Socks5
