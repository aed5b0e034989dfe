import Ferrum.Tun.UdpDeadlines

namespace Ferrum.Tun

open Function

/-- The events around the table, and the question for its next deadline. -/
inductive BridgeCall
  | event (event : UdpEvent)
  | nextDeadlineMillis

def BridgeCall.isOwnerStep : BridgeCall → Bool
  | .event (.owner _) => true
  | _ => false

/-- The points of the loop of `expire`. -/
def OwnerPoint.InExpire (nowMillis : Int) (packet : Option UdpPacket) : OwnerPoint → Prop
  | .expiring now next | .removing _ (.expire now next) | .reclaiming _ _ (.expire now next) => now = nowMillis ∧ next = packet
  | _ => False

def OwnerPoint.afterExpire : Option UdpPacket → OwnerPoint
  | none => .idle
  | some packet => .looking packet

def OwnerPoint.expireRank : OwnerPoint → Nat
  | .removing _ _ => 3
  | .reclaiming _ _ _ => 2
  | _ => 1

namespace UdpBridge

def call (bridge : UdpBridge) : BridgeCall → UdpBridge
  | .event event => bridge.step event
  | .nextDeadlineMillis =>
    match bridge.owner with
    | .idle => { bridge with table := bridge.table.nextDeadlineMillis.2 }
    | _ => bridge

def runCalls (bridge : UdpBridge) (calls : List BridgeCall) : UdpBridge := calls.foldl call bridge

variable {bridge before after : UdpBridge}

theorem call_sound (sound : bridge.Sound) (timed : bridge.Timed) (tableCall : BridgeCall) :
    (bridge.call tableCall).Sound ∧ (bridge.call tableCall).Timed ∧
      (bridge.call tableCall).table.generations.capacity = bridge.table.generations.capacity := by
  cases tableCall with
  | event event => exact ⟨step_sound sound event, step_timed sound timed event, (step_move sound event).capacity sound⟩
  | nextDeadlineMillis =>
    simp only [call]
    split
    · rename_i idle
      have steady := sound.steady (by rw [idle]; rfl)
      have same := UdpTable.nextDeadlineMillis_sameStorage bridge.table
      have pruned := steady.keeps (same.represents steady.represents) same.keeps rfl
      refine ⟨pruned.sound (by rw [idle]; rfl) (by rw [idle]; trivial), ?_, rfl⟩
      unfold Timed
      rw [idle]
      exact (timed.calm (by rw [idle]; rfl)).nextDeadlineMillis steady.represents.current
    · exact ⟨sound, timed, rfl⟩

theorem runCalls_sound (sound : bridge.Sound) (timed : bridge.Timed) (calls : List BridgeCall) :
    (bridge.runCalls calls).Sound ∧ (bridge.runCalls calls).Timed ∧
      (bridge.runCalls calls).table.generations.capacity = bridge.table.generations.capacity := by
  unfold runCalls
  induction calls generalizing bridge with
  | nil => exact ⟨sound, timed, rfl⟩
  | cons first rest ih =>
    obtain ⟨nextSound, nextTimed, size⟩ := call_sound sound timed first
    obtain ⟨lastSound, lastTimed, lastSize⟩ := ih nextSound nextTimed
    exact ⟨lastSound, lastTimed, lastSize.trans size⟩

/-- Inside the loop of `expire`: the slots that are gone were due, and the one that is about to
go is. -/
structure Expires (bridge : UdpBridge) (nowMillis : Int) (packet : Option UdpPacket) (slots : Nat → Option Slot) : Prop where
  inside : bridge.owner.InExpire nowMillis packet
  gone : ∀ slot, bridge.table.slots slot = slots slot ∨
    bridge.table.slots slot = none ∧ ∃ entry, slots slot = some entry ∧ entry.deadlineMillis ≤ nowMillis
  due : ∀ id next, bridge.owner = .removing id next →
    ∃ entry, bridge.table.occupant id = some entry ∧ entry.deadlineMillis ≤ nowMillis

/-- After the loop of `expire` exactly the slots that were not due are left. -/
structure Expired (bridge : UdpBridge) (nowMillis : Int) (packet : Option UdpPacket) (slots : Nat → Option Slot) : Prop where
  point : bridge.owner = .afterExpire packet
  left : ∀ slot, bridge.table.slots slot = (slots slot).filter fun entry => nowMillis < entry.deadlineMillis

/-- What the rest of the loop of `expire` may take in steps of the owner. -/
def expireMeasure (bridge : UdpBridge) : Nat := 3 * bridge.table.deadlines.len + bridge.owner.expireRank

variable {nowMillis : Int} {packet : Option UdpPacket} {slots : Nat → Option Slot}

theorem call_foreign (inside : bridge.owner.InExpire nowMillis packet) {tableCall : BridgeCall}
    (foreign : tableCall.isOwnerStep = false) :
    (bridge.call tableCall).table = bridge.table ∧ (bridge.call tableCall).owner = bridge.owner := by
  have busy : bridge.owner ≠ .idle := by
    intro idle
    rw [idle] at inside
    exact inside
  cases tableCall with
  | nextDeadlineMillis => simp only [call, and_self]
  | event event =>
    simp only [call]
    cases event with
    | owner environment => cases foreign
    | handle lease step =>
      simp only [UdpBridge.step]
      split
      · have same := (handleStep_move bridge lease step).sameOwner
        exact ⟨same.table, same.owner⟩
      · exact ⟨rfl, rfl⟩
    | enqueue place =>
      simp only [UdpBridge.step, enqueue]
      split
      · exact ⟨rfl, rfl⟩
      · exact ⟨rfl, rfl⟩
    -- The owner starts no call while it is in another.
    | expire | admitPacket | processOneControl | processOneResponse | fenceSession | invalidateSession =>
      simp only [UdpBridge.step, and_self]

theorem Expires.finish (expires : bridge.Expires nowMillis packet slots)
    (later : ∀ slot entry, bridge.table.slots slot = some entry → nowMillis < entry.deadlineMillis) :
    (bridge.expired packet).Expired nowMillis packet slots := by
  have left : ∀ slot, bridge.table.slots slot = (slots slot).filter fun entry => nowMillis < entry.deadlineMillis := by
    intro slot
    rcases expires.gone slot with same | ⟨empty, entry, held, isDue⟩
    · rw [← same]
      cases held : bridge.table.slots slot with
      | none => rfl
      | some entry => rw [Option.filter_some, if_pos (decide_eq_true (later slot entry held))]
    · rw [empty, held, Option.filter_some, if_neg (by simpa using isDue)]
  cases packet with
  | none | some packet => exact ⟨rfl, left⟩

theorem expireTurn_expires (timed : bridge.Timed) (point : bridge.owner = .expiring nowMillis packet)
    (expires : bridge.Expires nowMillis packet slots) :
    (bridge.expireTurn nowMillis packet).Expired nowMillis packet slots ∨
      (bridge.expireTurn nowMillis packet).Expires nowMillis packet slots ∧
        (bridge.expireTurn nowMillis packet).expireMeasure < bridge.expireMeasure := by
  have scheduled := (timed.calm (by rw [point]; rfl)).scheduled
  unfold expireTurn
  cases first : bridge.table.deadlines.peek with
  | none =>
    left
    refine expires.finish fun slot entry held => ?_
    have member := scheduled slot entry held (by simp)
    rw [MinHeap.peek_eq_none first] at member
    cases member
  | some deadline =>
    simp only
    split
    · rename_i early
      left
      refine expires.finish fun slot entry held => ?_
      have ordered := MinHeap.peek_least first (scheduled slot entry held (by simp))
      exact Int.lt_of_lt_of_le early (UdpTable.deadlineMillis_le ordered)
    · rename_i isDue
      right
      obtain ⟨rest, entries⟩ := List.head?_eq_some_iff.mp first
      have popped : bridge.table.popDeadline.deadlines.len + 1 = bridge.table.deadlines.len := by
        unfold MinHeap.len
        rw [entries]
        change bridge.table.deadlines.entries.tail.length + 1 = _
        rw [entries]
        rfl
      rw [expireDue_eq]
      split
      · rename_i live
        refine ⟨⟨⟨rfl, rfl⟩, expires.gone, ?_⟩, ?_⟩
        · intro id next same
          cases same
          simp only [UdpTable.isLive, Bool.and_eq_true, Option.any_eq_true, beq_iff_eq] at live
          obtain ⟨_, entry, occupied, sameDeadline⟩ := live
          exact ⟨entry, occupied, sameDeadline ▸ Int.not_lt.mp isDue⟩
        · unfold expireMeasure
          rw [point]
          simp only [OwnerPoint.expireRank]
          omega
      · refine ⟨⟨expires.inside, expires.gone, fun id next same => ?_⟩, ?_⟩
        · rw [show bridge.owner = .removing id next from same] at point
          cases point
        · unfold expireMeasure
          simp only
          omega

theorem remove_expires {id : GenerationId} {next : Next} (point : bridge.owner = .removing id next)
    (expires : bridge.Expires nowMillis packet slots) :
    (bridge.remove id next).Expires nowMillis packet slots ∧ (bridge.remove id next).expireMeasure < bridge.expireMeasure := by
  obtain ⟨entry, occupied, isDue⟩ := expires.due id next point
  have held := (UdpTable.occupant_eq_some.mp occupied).2
  have inside := expires.inside
  rw [point] at inside
  unfold remove
  simp only [occupied]
  refine ⟨⟨?_, fun slot => ?_, fun other after same => by cases same⟩, ?_⟩
  · cases next with
    | expire now following | done | enter packet | invalidate slot newGeneration => exact inside
  · change update bridge.table.slots id.slot none slot = slots slot ∨
      update bridge.table.slots id.slot none slot = none ∧ _
    by_cases same : slot = id.slot
    · subst same
      right
      rcases expires.gone id.slot with kept | ⟨empty, _⟩
      · exact ⟨update_self .., entry, kept ▸ held, isDue⟩
      · rw [held] at empty
        cases empty
    · rw [update_of_ne same]
      exact expires.gone slot
  · unfold expireMeasure
    rw [point]
    change 3 * bridge.table.deadlines.len + 2 < 3 * bridge.table.deadlines.len + 3
    omega

theorem reclaim_expires (sound : bridge.Sound) {id : GenerationId} {lease : Nat} {next : Next}
    (point : bridge.owner = .reclaiming id lease next) (expires : bridge.Expires nowMillis packet slots) :
    (bridge.reclaim id lease next).Expires nowMillis packet slots ∧
      (bridge.reclaim id lease next).expireMeasure < bridge.expireMeasure := by
  have supported := sound.supported
  have inside := expires.inside
  rw [point] at supported inside
  obtain ⟨storage, _⟩ := UdpTable.reclaim_storage supported.1
  cases next with
  | done | enter packet | invalidate slot newGeneration => exact inside.elim
  | expire now following =>
    refine ⟨⟨inside, fun slot => ?_, fun other after same => by cases same⟩, ?_⟩
    · change (bridge.table.reclaim id).slots slot = _ ∨ (bridge.table.reclaim id).slots slot = none ∧ _
      rw [storage]
      exact expires.gone slot
    · unfold expireMeasure
      rw [point]
      change 3 * (bridge.table.reclaim id).deadlines.len + 1 < 3 * bridge.table.deadlines.len + 2
      rw [UdpTable.reclaim_deadlines]
      omega

theorem ownerStep_expires (sound : bridge.Sound) (timed : bridge.Timed) (expires : bridge.Expires nowMillis packet slots)
    (environment : OwnerEnvironment) :
    (bridge.ownerStep environment).Expired nowMillis packet slots ∨
      (bridge.ownerStep environment).Expires nowMillis packet slots ∧
        (bridge.ownerStep environment).expireMeasure < bridge.expireMeasure := by
  have inside := expires.inside
  unfold ownerStep
  cases point : bridge.owner with
  | expiring now following =>
    rw [point] at inside
    obtain ⟨rfl, rfl⟩ := inside
    exact expireTurn_expires timed point expires
  | removing id next => exact .inr (remove_expires point expires)
  | reclaiming id lease next => exact .inr (reclaim_expires sound point expires)
  | _ =>
    rw [point] at inside
    exact inside.elim

theorem runCalls_expires (sound : bridge.Sound) (timed : bridge.Timed) (expires : bridge.Expires nowMillis packet slots)
    (calls : List BridgeCall) :
    (∃ count ≤ calls.length, (∀ earlier < count, (bridge.runCalls (calls.take earlier)).owner.InExpire nowMillis packet) ∧
      (bridge.runCalls (calls.take count)).Expired nowMillis packet slots) ∨
    (bridge.runCalls calls).owner.InExpire nowMillis packet ∧
      calls.countP BridgeCall.isOwnerStep ≤ bridge.expireMeasure := by
  induction calls generalizing bridge with
  | nil => exact .inr ⟨expires.inside, Nat.zero_le _⟩
  | cons first rest ih =>
    obtain ⟨nextSound, nextTimed, _⟩ := call_sound sound timed first
    have moved : (bridge.call first).Expired nowMillis packet slots ∨ (bridge.call first).Expires nowMillis packet slots ∧
        (bridge.call first).expireMeasure + (if first.isOwnerStep then 1 else 0) ≤ bridge.expireMeasure := by
      cases own : first.isOwnerStep with
      | false =>
        obtain ⟨table, owner⟩ := call_foreign expires.inside own
        right
        refine ⟨⟨owner ▸ expires.inside, table ▸ expires.gone, ?_⟩, ?_⟩
        · rw [table, owner]
          exact expires.due
        · unfold expireMeasure
          rw [table, owner]
          simp
      | true =>
        cases first with
        | nextDeadlineMillis => cases own
        | event event =>
          cases event with
          | owner environment => exact (ownerStep_expires sound timed expires environment).imp_right fun held => ⟨held.1, held.2⟩
          | _ => cases own
    rcases moved with expired | ⟨still, closer⟩
    · left
      refine ⟨1, by simp, fun earlier below => ?_, expired⟩
      cases Nat.lt_one_iff.mp below
      exact expires.inside
    · rcases ih nextSound nextTimed still with ⟨count, within, before, expired⟩ | ⟨inside, steps⟩
      · left
        refine ⟨count + 1, Nat.succ_le_succ within, fun earlier below => ?_, expired⟩
        cases earlier with
        | zero => exact expires.inside
        | succ previous => exact before previous (Nat.lt_of_succ_lt_succ below)
      · right
        refine ⟨inside, ?_⟩
        rw [List.countP_cons]
        omega

/-- Over any interleaving of the owner with the handles the heap holds the deadline of each slot in use, within its bound,
`next_deadline_millis` is the least of them, and `expire` leaves exactly the slots that were not due. -/
theorem deadlines_exact (capacity : Nat) (idleMillis : Int) (filtering : UdpFiltering) (sessionGeneration : Nat)
    (calls : List BridgeCall) :
    let bridge := (withOptions capacity idleMillis filtering sessionGeneration).runCalls calls
    (∀ slot entry, bridge.table.slots slot = some entry →
      bridge.owner.due ≠ some ⟨slot, bridge.table.generations.slots slot⟩ →
      bridge.table.deadlineAt slot entry ∈ bridge.table.deadlines.entries) ∧
    bridge.table.deadlines.len ≤ max (2 * capacity) 1 ∧
    (bridge.owner = .idle →
      (∀ deadlineMillis, bridge.table.nextDeadlineMillis.1 = some deadlineMillis ↔
        IsLeast bridge.table.slotDeadlines deadlineMillis) ∧
      (bridge.table.nextDeadlineMillis.1 = none ↔ ∀ slot, bridge.table.slots slot = none)) ∧
    (∀ nowMillis packet, bridge.owner = .expiring nowMillis packet → ∀ later : List BridgeCall,
      (∃ count ≤ later.length,
        (∀ earlier < count, (bridge.runCalls (later.take earlier)).owner.InExpire nowMillis packet) ∧
        (bridge.runCalls (later.take count)).owner = .afterExpire packet ∧
        ∀ slot, (bridge.runCalls (later.take count)).table.slots slot =
          (bridge.table.slots slot).filter fun entry => nowMillis < entry.deadlineMillis) ∨
      (bridge.runCalls later).owner.InExpire nowMillis packet ∧
        later.countP BridgeCall.isOwnerStep ≤ 3 * max (2 * capacity) 1 + 1) := by
  intro bridge
  obtain ⟨sound, timed, size⟩ : bridge.Sound ∧ bridge.Timed ∧ bridge.table.generations.capacity = capacity :=
    runCalls_sound (withOptions_sound capacity idleMillis filtering sessionGeneration)
      (UdpTable.withOptions_timed capacity idleMillis filtering sessionGeneration) calls
  have bounded : bridge.table.deadlines.len ≤ max (2 * capacity) 1 := by
    rw [← size, Nat.mul_comm]
    exact timed.bounded
  refine ⟨timed.scheduled, bounded, fun idle => ?_, fun nowMillis packet point later => ?_⟩
  · exact UdpTable.nextDeadlineMillis_least (timed.calm (by rw [idle]; rfl)) (sound.steady (by rw [idle]; rfl)).represents.current
  · have start : bridge.Expires nowMillis packet bridge.table.slots := by
      refine ⟨?_, fun slot => .inl rfl, fun id next same => ?_⟩
      · rw [point]
        exact ⟨rfl, rfl⟩
      · rw [point] at same
        cases same
    rcases runCalls_expires sound timed start later with ⟨count, within, inside, expired⟩ | ⟨inside, steps⟩
    · exact .inl ⟨count, within, inside, expired.point, expired.left⟩
    · right
      refine ⟨inside, steps.trans ?_⟩
      unfold expireMeasure
      rw [point]
      simp only [OwnerPoint.expireRank]
      omega

theorem sampleEvents_timed :
    let bridge := (withOptions 2 1000 .endpointIndependent 0).runCalls (sampleEvents.map .event)
    bridge.owner = .idle ∧ IsLeast bridge.table.slotDeadlines 1001 :=
  ⟨rfl, (((deadlines_exact 2 1000 .endpointIndependent 0 (sampleEvents.map .event)).2.2.1 rfl).1 1001).mp rfl⟩

end UdpBridge

end Ferrum.Tun
