import Ferrum.Tun.MemoryDevice

namespace Ferrum.Tun

open List

inductive DeviceCall
  | enqueueRewritten (packet : List UInt8) (parsed : ParsedIpPacket) (rewrite : SliceRewrite)
  | promoteOneIngress
  | injectUdpResponse (endpoints : UdpDatagramEndpoints) (payload : List UInt8)
  | injectControlError (original : List UInt8) (context : ControlContext) (kind : LocalControlKind) (nowMillis : Int)
      (limiter : ControlRateLimiter)
  | flushOutput (send : List UInt8 → OutputSendOutcome)
  | clearSessionBuffers

/-- What is seen of a packet at the calls: the rewritten one that is accepted, the written one that is
injected, and the one that the sink is handed. -/
inductive DeviceEvent
  | accepted (packet : List UInt8)
  | injected (packet : List UInt8)
  | handed (packet : List UInt8) (outcome : OutputSendOutcome)
  deriving DecidableEq

structure Performed where
  device : MemoryDevice
  done : Bool
  events : List DeviceEvent

namespace MemoryDevice

/-- One call: whether it was rejected, and what was seen of it. -/
def perform (device : MemoryDevice) : DeviceCall → Option Performed
  | .enqueueRewritten packet parsed rewrite =>
    (device.enqueueRewritten packet parsed rewrite).map fun (after, result) =>
      match result with
      | .ok true => ⟨after, true, [.accepted (rewrite.run packet parsed).1]⟩
      | _ => ⟨after, false, []⟩
  | .promoteOneIngress => device.promoteOneIngress.map fun (after, moved) => ⟨after, moved, []⟩
  | .injectUdpResponse endpoints payload =>
    (device.injectUdpResponse endpoints payload).map fun (after, outcome) =>
      match outcome, udpResponse endpoints payload device.validator.mtu with
      | .injected, .ok packet => ⟨after, true, [.injected packet]⟩
      | _, _ => ⟨after, false, []⟩
  | .injectControlError original context kind nowMillis limiter =>
    (device.injectControlError original context kind nowMillis limiter).map fun (after, _, injected) =>
      match injected, controlReply original context kind device.validator.mtu device.validator.mtu with
      | true, .ok packet => ⟨after, true, [.injected packet]⟩
      | _, _ => ⟨after, false, []⟩
  | .flushOutput send =>
    (device.flushOutput (fun packet seen => (send packet, seen ++ [.handed packet (send packet)])) []).map
      fun (after, outcome, seen) => ⟨after, outcome == .sent || outcome == .droppedRingFull, seen⟩
  | .clearSessionBuffers => some ⟨device.clearSessionBuffers, true, []⟩

def run : MemoryDevice → List DeviceCall → Option (MemoryDevice × List DeviceEvent)
  | device, [] => some (device, [])
  | device, call :: calls => do
    let performed ← device.perform call
    let (last, rest) ← performed.device.run calls
    return (last, performed.events ++ rest)

end MemoryDevice

inductive IngressFate
  | promoted | cleared
  deriving DecidableEq

inductive OutputOrigin
  | promoted | injected
  deriving DecidableEq

inductive OutputFate
  | sent | droppedRingFull | cleared
  deriving DecidableEq

/-- What has become of the packets of each queue, in order, and what still waits. -/
structure Ledger where
  ingress : List (List UInt8 × IngressFate)
  entered : List (List UInt8 × OutputOrigin)
  output : List (List UInt8 × OutputFate)
  waiting : DeviceQueues

def acceptedIn (log : List DeviceEvent) : List (List UInt8) :=
  log.filterMap fun
    | .accepted packet => some packet
    | _ => none

def injectedIn (log : List DeviceEvent) : List (List UInt8) :=
  log.filterMap fun
    | .injected packet => some packet
    | _ => none

/-- The packets that the sink has taken, with its answer. -/
def takenIn (log : List DeviceEvent) : List (List UInt8 × OutputFate) :=
  log.filterMap fun
    | .handed packet .sent => some (packet, .sent)
    | .handed packet .droppedRingFull => some (packet, .droppedRingFull)
    | _ => none

namespace Ledger

def originated (ledger : Ledger) (origin : OutputOrigin) : List (List UInt8) :=
  (ledger.entered.filter (·.2 == origin)).map Prod.fst

def promotedIngress (ledger : Ledger) : List (List UInt8) := (ledger.ingress.filter (·.2 == .promoted)).map Prod.fst

/-- Each queue is first in, first out, and the log shows what went in and what the sink took. -/
structure Accounts (ledger : Ledger) (log : List DeviceEvent) : Prop where
  accepted : acceptedIn log = ledger.ingress.map Prod.fst ++ ledger.waiting.ingress
  entered : ledger.entered.map Prod.fst = ledger.output.map Prod.fst ++ ledger.waiting.output
  promoted : ledger.originated .promoted = ledger.promotedIngress
  injected : ledger.originated .injected = injectedIn log
  taken : takenIn log = ledger.output.filter (·.2 != .cleared)

def empty : Ledger := ⟨[], [], [], ⟨[], []⟩⟩

variable {ledger : Ledger} {log : List DeviceEvent} {packet first : List UInt8} {rest : List (List UInt8)}

theorem acceptedIn_append (log later : List DeviceEvent) : acceptedIn (log ++ later) = acceptedIn log ++ acceptedIn later :=
  filterMap_append

theorem injectedIn_append (log later : List DeviceEvent) : injectedIn (log ++ later) = injectedIn log ++ injectedIn later :=
  filterMap_append

theorem takenIn_append (log later : List DeviceEvent) : takenIn (log ++ later) = takenIn log ++ takenIn later :=
  filterMap_append

theorem unseen {α : Type} {now : List α} {seen : List α} (same : now = seen) : now = seen ++ [] := by
  rw [append_nil, same]

section

variable (accounts : ledger.Accounts log)
include accounts

theorem Accounts.accept :
    { ledger with waiting := ⟨ledger.waiting.ingress ++ [packet], ledger.waiting.output⟩ : Ledger }.Accounts
      (log ++ [.accepted packet]) where
  accepted := by
    rw [acceptedIn_append, accounts.accepted, append_assoc]
    rfl
  entered := accounts.entered
  promoted := accounts.promoted
  injected := by
    rw [injectedIn_append]
    exact unseen accounts.injected
  taken := by
    rw [takenIn_append, accounts.taken]
    exact append_nil _

theorem Accounts.promote (front : ledger.waiting.ingress = first :: rest) :
    (Ledger.mk (ledger.ingress ++ [(first, .promoted)]) (ledger.entered ++ [(first, .promoted)]) ledger.output
      ⟨rest, ledger.waiting.output ++ [first]⟩).Accounts log where
  accepted := by simp [accounts.accepted, front]
  entered := by simp [accounts.entered]
  promoted := by
    have same := accounts.promoted
    simp only [originated, promotedIngress] at same ⊢
    simp [same]
  injected := by simpa [originated] using accounts.injected
  taken := accounts.taken

theorem Accounts.inject (none : ledger.waiting.output = []) : { ledger with
      entered := ledger.entered ++ [(packet, .injected)]
      waiting := ⟨ledger.waiting.ingress, [packet]⟩ : Ledger }.Accounts (log ++ [.injected packet]) where
  accepted := by
    rw [acceptedIn_append, accounts.accepted]
    exact append_nil _
  entered := by simp [accounts.entered, none]
  promoted := by simpa [originated, promotedIngress] using accounts.promoted
  injected := by
    have same := accounts.injected
    rw [injectedIn_append, ← same]
    simp [originated, injectedIn]
  taken := by
    rw [takenIn_append, accounts.taken]
    exact append_nil _

theorem Accounts.take {outcome : OutputSendOutcome} {fate : OutputFate}
    (front : ledger.waiting.output = first :: rest)
    (same : outcome = .sent ∧ fate = .sent ∨ outcome = .droppedRingFull ∧ fate = .droppedRingFull) :
    { ledger with
      output := ledger.output ++ [(first, fate)]
      waiting := ⟨ledger.waiting.ingress, rest⟩ : Ledger }.Accounts (log ++ [.handed first outcome]) where
  accepted := by
    rw [acceptedIn_append, accounts.accepted]
    exact append_nil _
  entered := by simp [accounts.entered, front]
  promoted := accounts.promoted
  injected := by
    rw [injectedIn_append]
    exact unseen accounts.injected
  taken := by
    rw [takenIn_append, accounts.taken, filter_append]
    rcases same with ⟨rfl, rfl⟩ | ⟨rfl, rfl⟩ <;> rfl

theorem Accounts.failed : ledger.Accounts (log ++ [.handed packet .fatal]) where
  accepted := by
    rw [acceptedIn_append, accounts.accepted]
    exact append_nil _
  entered := accounts.entered
  promoted := accounts.promoted
  injected := by
    rw [injectedIn_append]
    exact unseen accounts.injected
  taken := by
    rw [takenIn_append, accounts.taken]
    exact append_nil _

theorem Accounts.clear : (Ledger.mk (ledger.ingress ++ ledger.waiting.ingress.map (·, .cleared)) ledger.entered
      (ledger.output ++ ledger.waiting.output.map (·, .cleared)) ⟨[], []⟩).Accounts log where
  accepted := by simp [accounts.accepted, Function.comp_def]
  entered := by simp [accounts.entered, Function.comp_def]
  promoted := by
    have apart : (IngressFate.cleared == IngressFate.promoted) = false := rfl
    simpa [originated, promotedIngress, filter_map, Function.comp_def, apart] using accounts.promoted
  injected := accounts.injected
  taken := by simpa [filter_map, Function.comp_def] using accounts.taken

end

theorem Accounts.empty : Ledger.empty.Accounts [] := ⟨rfl, rfl, rfl, rfl, rfl⟩

end Ledger

namespace MemoryDevice

open Ledger

variable {device : MemoryDevice} {ledger : Ledger} {log : List DeviceEvent}

def sampleParsed : ParsedIpPacket :=
  ⟨.ipv4, .v4 (.replicate 4 1), .v4 (.replicate 4 2), ipProtocolTcp, 9, 20, 1, .tcp ⟨1, 1, 20, 0⟩⟩

end MemoryDevice

end Ferrum.Tun
