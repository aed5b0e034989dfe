import Mathlib.Algebra.Group.Nat.Defs
import Mathlib.Order.Bounds.Basic
import Mathlib.Order.Fin.Basic
import Mathlib.Order.MinMax

namespace Ferrum.Shadowsocks

/-- The closed packet, replay, association and generation failures of the UDP protocol. -/
inductive UdpPacketError
  | bounds | authentication | type | clock | timestamp | address | padding | binding | duplicate
  | tooOld | associationLimit | generation | key | random | counter | stateUnavailable
  deriving DecidableEq, Repr

def udpReplayLag : Nat := 8128

/-- Ring positions: the highest ID and the `udpReplayLag` IDs behind it. -/
def replayPositions : Nat := udpReplayLag + 1

def replayWords : Nat := (replayPositions + 63) / 64

/-- A `u64` packet ID. -/
abbrev PacketId := Fin (2 ^ 64)

/-- The sliding window: a ring of `replayPositions` bits packed into 64-bit words. -/
structure UdpReplayWindow where
  highest : Option PacketId
  bits : Vector (BitVec 64) replayWords
  deriving DecidableEq

namespace UdpReplayWindow

def new : UdpReplayWindow := ⟨none, Vector.replicate replayWords 0#64⟩

def index (packetId : Nat) : Nat := packetId % replayPositions

section

variable (window : UdpReplayWindow)

/-- `none` is the panic of an array index out of range. -/
def bit (index : Nat) : Option Bool := do
  let word ← window.bits[index / 64]?
  return (word &&& (1#64 <<< (index % 64))) != 0

def setBit (index : Nat) : Option UdpReplayWindow := do
  let word ← window.bits[index / 64]?
  return { window with bits := window.bits.setIfInBounds (index / 64) (word ||| (1#64 <<< (index % 64))) }

/-- Checks an ID without changing accepted state; the outer `none` is a panic. -/
def check (packetId : PacketId) : Option (Except UdpPacketError Unit) :=
  match window.highest with
  | none => some (.ok ())
  | some highest =>
    if packetId > highest then some (.ok ())
    else if highest.val - packetId.val > udpReplayLag then some (.error .tooOld)
    else do
      if ← window.bit (index packetId) then return .error .duplicate else return .ok ()

/-- The mask loop of `shift`. It panics when the shift amount `64 - count` reaches the
word size or the word index leaves the bitmap. -/
def clearSkipped (bits : Vector (BitVec 64) replayWords) (remaining index : Nat) :
    Option (Vector (BitVec 64) replayWords) :=
  if remaining = 0 then some bits
  else
    let offset := index % 64
    let count := min (min remaining (64 - offset)) (replayPositions - index)
    if count = 0 then none
    else
      match bits[index / 64]? with
      | none => none
      | some word =>
        let mask := (BitVec.allOnes 64 >>> (64 - count)) <<< offset
        clearSkipped (bits.setIfInBounds (index / 64) (word &&& ~~~mask)) (remaining - count)
          (if index + count = replayPositions then 0 else index + count)
termination_by remaining
decreasing_by omega

/-- Recycles the positions of the skipped IDs; the new highest ID is marked by `commit`.
`none` covers the overflow panics of `highest + 1` and `advance - 1`. -/
def shift (highest advance : Nat) : Option UdpReplayWindow :=
  if advance > udpReplayLag then some { window with bits := Vector.replicate replayWords 0#64 }
  else if advance = 0 ∨ 2 ^ 64 ≤ highest + 1 then none
  else do
    let bits ← clearSkipped window.bits (advance - 1) (index (highest + 1))
    return { window with bits := bits }

/-- The part of `commit` before the bit is set: move the window up to a new highest ID. -/
def advance (packetId : PacketId) : Option UdpReplayWindow :=
  match window.highest with
  | none => some { window with highest := some packetId }
  | some highest =>
    if packetId > highest then do
      let shifted ← window.shift highest (packetId.val - highest.val)
      return { shifted with highest := some packetId }
    else some window

/-- Atomically rechecks and marks an ID; a failed commit returns the window unchanged. -/
def commit (packetId : PacketId) :
    Option (UdpReplayWindow × Except UdpPacketError Unit) := do
  match ← window.check packetId with
  | .error error => return (window, .error error)
  | .ok () =>
    let advanced ← window.advance packetId
    let marked ← advanced.setBit (index packetId)
    return (marked, .ok ())

end

end UdpReplayWindow

end Ferrum.Shadowsocks

namespace Ferrum.Shadowsocks.UdpReplayWindow

/-- The value of one ring position, read without a bounds check. -/
def position (bits : Vector (BitVec 64) replayWords) (j : Nat) : Bool :=
  (bits[j / 64]?.getD 0).getLsbD (j % 64)

variable {j : Nat}

theorem word_inside (bound : j < replayPositions) : j / 64 < replayWords := by
  simp only [replayWords, replayPositions, udpReplayLag] at *
  omega

theorem word_exists (bits : Vector (BitVec 64) replayWords) (bound : j < replayPositions) :
    bits[j / 64]? = some (bits[j / 64]?.getD 0) := by
  simp [word_inside bound]

variable {i : Nat}

theorem mask_ne_zero (word : BitVec 64) (inside : i < 64) : ((word &&& (1#64 <<< i)) != 0) = word.getLsbD i := by
  change ((word &&& BitVec.twoPow 64 i) != 0) = word.getLsbD i
  rw [BitVec.and_twoPow]
  cases set : word.getLsbD i with
  | false => simp
  | true =>
    have nonzero : BitVec.twoPow 64 i ≠ 0#64 := by
      intro zero
      have same := congrArg (fun value => value.getLsbD i) zero
      simp [inside] at same
    simp [nonzero]

theorem getLsbD_rangeMask {count offset : Nat} (fits : offset + count ≤ 64) (inside : i < 64) :
    ((BitVec.allOnes 64 >>> (64 - count)) <<< offset).getLsbD i = decide (offset ≤ i ∧ i < offset + count) := by
  simp only [BitVec.getLsbD_shiftLeft, BitVec.getLsbD_ushiftRight, BitVec.getLsbD_allOnes]
  rw [Bool.eq_iff_iff]
  simp
  omega

theorem position_setIfInBounds (bits : Vector (BitVec 64) replayWords) (word : BitVec 64) (bound : i < replayPositions) :
    position (bits.setIfInBounds (i / 64) word) j =
      if i / 64 = j / 64 then word.getLsbD (j % 64) else position bits j := by
  unfold position
  rw [Vector.getElem?_setIfInBounds, if_pos (word_inside bound)]
  split <;> rfl

theorem index_lt (packetId : Nat) : index packetId < replayPositions :=
  Nat.mod_lt _ (by decide)

theorem bit_eq (window : UdpReplayWindow) (bound : j < replayPositions) : window.bit j = some (position window.bits j) := by
  unfold bit
  rw [word_exists window.bits bound]
  change some _ = some _
  rw [mask_ne_zero _ (Nat.mod_lt _ (by decide)), position]

theorem setBit_spec (window : UdpReplayWindow) (bound : i < replayPositions) :
    ∃ marked, window.setBit i = some marked ∧ marked.highest = window.highest ∧
      ∀ j, position marked.bits j = (decide (i = j) || position window.bits j) := by
  let marked := window.bits.setIfInBounds (i / 64) (window.bits[i / 64]?.getD 0 ||| (1#64 <<< (i % 64)))
  refine ⟨{ window with bits := marked }, ?_, rfl, ?_⟩
  · unfold setBit
    rw [word_exists window.bits bound]
    rfl
  · intro j
    change position (window.bits.setIfInBounds _ _) j = _
    rw [position_setIfInBounds _ _ bound]
    have one : (1#64 <<< (i % 64)).getLsbD (j % 64) = decide (i % 64 = j % 64) := by
      change (BitVec.twoPow 64 (i % 64)).getLsbD (j % 64) = _
      rw [BitVec.getLsbD_twoPow]
      simp [Nat.mod_lt]
    by_cases word : i / 64 = j / 64
    · rw [if_pos word, BitVec.getLsbD_or, one, Bool.or_comm, position, word]
      have same : (i % 64 = j % 64) = (i = j) := by
        apply propext
        omega
      simp only [same]
    · have different : i ≠ j := by rintro rfl; exact word rfl
      simp [word, different]

def ringDistance (start j : Nat) : Nat := (j + replayPositions - start) % replayPositions

theorem ringDistance_step {start count remaining : Nat} (inRing : start < replayPositions) (positive : 0 < count)
    (withinRing : start + count ≤ replayPositions) (withinRemaining : count ≤ remaining) (inside : j < replayPositions) :
    ringDistance start j < remaining ↔ (start ≤ j ∧ j < start + count) ∨
      ringDistance (if start + count = replayPositions then 0 else start + count) j < remaining - count := by
  unfold ringDistance
  split <;> simp only [replayPositions, udpReplayLag] at * <;> omega

theorem clearSkipped_spec (remaining : Nat) : ∀ (bits : Vector (BitVec 64) replayWords) (start : Nat),
    start < replayPositions → remaining ≤ replayPositions →
    ∃ cleared, clearSkipped bits remaining start = some cleared ∧
      ∀ j < replayPositions, position cleared j =
        (position bits j && !decide (ringDistance start j < remaining)) := by
  induction remaining using Nat.strong_induction_on with
  | _ remaining ih =>
    intro bits start inRing short
    rw [clearSkipped]
    by_cases done : remaining = 0
    · subst done
      exact ⟨bits, by simp, by simp⟩
    rw [if_neg done]
    dsimp only
    generalize countEq : min (min remaining (64 - start % 64)) (replayPositions - start) = count
    have positive : 0 < count := by omega
    have withinWord : start % 64 + count ≤ 64 := by omega
    have withinRing : start + count ≤ replayPositions := by omega
    have withinRemaining : count ≤ remaining := by omega
    rw [if_neg (by omega), word_exists bits inRing]
    dsimp only
    generalize nextEq : (if start + count = replayPositions then 0 else start + count) = next
    have nextInRing : next < replayPositions := by
      rw [← nextEq]
      split <;> omega
    obtain ⟨cleared, run, values⟩ := ih (remaining - count) (by omega) _ next nextInRing (by omega)
    refine ⟨cleared, run, ?_⟩
    intro j inside
    have step := ringDistance_step inRing positive withinRing withinRemaining inside
    rw [nextEq] at step
    rw [values j inside, position_setIfInBounds _ _ inRing, BitVec.getLsbD_and, BitVec.getLsbD_not,
      getLsbD_rangeMask withinWord (Nat.mod_lt _ (by decide))]
    simp only [step]
    by_cases word : start / 64 = j / 64
    · have same : (start % 64 ≤ j % 64 ∧ j % 64 < start % 64 + count) = (start ≤ j ∧ j < start + count) := by
        apply propext
        omega
      simp only [word, if_true, same, position]
      by_cases hit : start ≤ j ∧ j < start + count
      · simp [hit]
      · simp only [hit, false_or, decide_false, Bool.not_false, Bool.and_true]
        simp [Nat.mod_lt]
    · have outside : ¬(start ≤ j ∧ j < start + count) := by omega
      simp [word, outside]

theorem position_zero (j : Nat) : position (Vector.replicate replayWords 0#64) j = false := by
  unfold position
  rw [Vector.getElem?_replicate]
  split <;> simp

/-- The window stands for the IDs accepted so far: `highest` is the greatest of them, and inside
the represented lag a ring position is set exactly when its ID was accepted. -/
structure Represents (window : UdpReplayWindow) (accepted : List PacketId) : Prop where
  clear : window.highest = none → accepted = [] ∧ ∀ j, position window.bits j = false
  greatest : ∀ top, window.highest = some top → top ∈ accepted ∧ ∀ id ∈ accepted, id ≤ top
  marked : ∀ top, window.highest = some top → ∀ id ≤ top, top.val - id.val ≤ udpReplayLag →
    (position window.bits (index id) = true ↔ id ∈ accepted)

theorem new_represents : Represents new [] where
  clear _ := ⟨rfl, position_zero⟩
  greatest _ impossible := by simp [new] at impossible
  marked _ impossible := by simp [new] at impossible

/-- What `check` and `commit` answer for an ID when `accepted` are the IDs accepted so far
and `highest` the greatest of them: the set specification of the window. -/
def specCheck (highest : Option PacketId) (accepted : List PacketId) (packetId : PacketId) :
    Except UdpPacketError Unit :=
  match highest with
  | none => .ok ()
  | some highest =>
    if highest.val - packetId.val > udpReplayLag then .error .tooOld
    else if packetId ∈ accepted then .error .duplicate
    else .ok ()

variable {window : UdpReplayWindow} {accepted : List PacketId}

theorem Represents.check_eq (rep : Represents window accepted) (packetId : PacketId) :
    window.check packetId = some (specCheck window.highest accepted packetId) := by
  unfold check specCheck
  cases atHighest : window.highest with
  | none => rfl
  | some highest =>
    dsimp only
    by_cases above : packetId > highest
    · have fresh : packetId ∉ accepted := fun member => absurd ((rep.greatest _ atHighest).2 _ member) (not_le.mpr above)
      have near : ¬highest.val - packetId.val > udpReplayLag := by
        have : highest.val < packetId.val := above
        omega
      rw [if_pos above, if_neg near, if_neg fresh]
    · rw [if_neg above]
      by_cases old : highest.val - packetId.val > udpReplayLag
      · rw [if_pos old, if_pos old]
      · rw [if_neg old, if_neg old, bit_eq _ (index_lt _)]
        have marked := rep.marked _ atHighest packetId (not_lt.mp above) (not_lt.mp old)
        change (if position window.bits (index packetId) = true then _ else _) = _
        by_cases member : packetId ∈ accepted
        · rw [if_pos (marked.mpr member), if_pos member]
          rfl
        · rw [if_neg (mt marked.mp member), if_neg member]
          rfl

theorem index_injective_in_lag {top a b : PacketId} (aLe : a ≤ top) (bLe : b ≤ top)
    (aNear : top.val - a.val ≤ udpReplayLag) (bNear : top.val - b.val ≤ udpReplayLag)
    (same : index a = index b) : a = b := by
  simp only [index, replayPositions, udpReplayLag, Fin.le_def] at *
  apply Fin.ext
  omega

theorem skipped_iff {top packetId id : Nat} (above : top < packetId) 
    (below : id < packetId) (idNear : packetId - id ≤ udpReplayLag) :
    ringDistance (index (top + 1)) (index id) < packetId - top - 1 ↔ top < id := by
  simp only [ringDistance, index, replayPositions, udpReplayLag] at *
  omega

variable {packetId : PacketId}

theorem Represents.shift_spec (rep : Represents window accepted) {top : PacketId} (atTop : window.highest = some top)
    (above : top < packetId) :
    ∃ shifted, window.shift top (packetId.val - top.val) = some shifted ∧
      ∀ id < packetId, packetId.val - id.val ≤ udpReplayLag →
        (position shifted.bits (index id) = true ↔ id ∈ accepted) := by
  have topLt : top.val < packetId.val := above
  unfold shift
  by_cases far : packetId.val - top.val > udpReplayLag
  · rw [if_pos far]
    refine ⟨_, rfl, ?_⟩
    intro id below near
    have fresh : id ∉ accepted := by
      intro member
      have le : id.val ≤ top.val := (rep.greatest _ atTop).2 id member
      omega
    simp [position_zero, fresh]
  · have room : ¬(packetId.val - top.val = 0 ∨ 2 ^ 64 ≤ top.val + 1) := by omega
    rw [if_neg far, if_neg room]
    obtain ⟨cleared, run, values⟩ := clearSkipped_spec (packetId.val - top.val - 1) window.bits
      (index (top.val + 1)) (index_lt _) (by simp only [replayPositions]; omega)
    rw [run]
    refine ⟨{ window with bits := cleared }, rfl, ?_⟩
    intro id below near
    have skipped := skipped_iff topLt (Fin.lt_def.mp below) near
    rw [values _ (index_lt _)]
    by_cases after : top < id
    · have fresh : id ∉ accepted := fun member => absurd ((rep.greatest _ atTop).2 _ member) (not_le.mpr after)
      simp [skipped.mpr after, fresh]
    · have kept : ¬ringDistance (index (top.val + 1)) (index id.val) < packetId.val - top.val - 1 := mt skipped.mp after
      have inLag : top.val - id.val ≤ udpReplayLag := by omega
      simp [kept, rep.marked _ atTop id (not_lt.mp after) inLag]

/-- The greatest accepted ID after `packetId` is accepted too. -/
def newHighest (highest : Option PacketId) (packetId : PacketId) : PacketId :=
  match highest with
  | none => packetId
  | some top => max top packetId

theorem Represents.advance_spec (rep : Represents window accepted) (packetId : PacketId) :
    ∃ advanced, window.advance packetId = some advanced ∧
      advanced.highest = some (newHighest window.highest packetId) ∧
      ∀ id ≤ newHighest window.highest packetId, id ≠ packetId →
        (newHighest window.highest packetId).val - id.val ≤ udpReplayLag →
        (position advanced.bits (index id) = true ↔ id ∈ accepted) := by
  unfold advance newHighest
  cases atHighest : window.highest with
  | none =>
    obtain ⟨empty, zero⟩ := rep.clear atHighest
    exact ⟨_, rfl, rfl, fun id _ _ _ => by simp [zero, empty]⟩
  | some top =>
    dsimp only
    by_cases above : packetId > top
    · obtain ⟨shifted, run, values⟩ := rep.shift_spec atHighest above
      rw [if_pos above, run, max_eq_right above.le]
      exact ⟨_, rfl, rfl, fun id le ne near => values id (lt_of_le_of_ne le ne) near⟩
    · rw [if_neg above, max_eq_left (not_lt.mp above)]
      exact ⟨window, rfl, atHighest, fun id le _ near => rep.marked _ atHighest id le near⟩

variable {highest : Option PacketId}

theorem newHighest_near (answer : specCheck highest accepted packetId = .ok ()) :
    (newHighest highest packetId).val - packetId.val ≤ udpReplayLag := by
  cases highest with
  | none => simp [newHighest]
  | some top =>
    simp only [specCheck] at answer
    split at answer
    · simp at answer
    · rename_i near
      rcases le_total top packetId with le | le
      · simp [newHighest, max_eq_right le]
      · simpa only [newHighest, max_eq_left le] using not_lt.mp near

theorem packetId_le_newHighest (highest : Option PacketId) (packetId : PacketId) :
    packetId ≤ newHighest highest packetId := by
  cases highest with
  | none => exact le_rfl
  | some top => exact le_max_right _ _

theorem Represents.newHighest_greatest (rep : Represents window accepted) (packetId : PacketId) :
    newHighest window.highest packetId ∈ accepted ++ [packetId] ∧
      ∀ id ∈ accepted ++ [packetId], id ≤ newHighest window.highest packetId := by
  cases atHighest : window.highest with
  | none =>
    obtain ⟨rfl, _⟩ := rep.clear atHighest
    simp [newHighest]
  | some top =>
    obtain ⟨member, bound⟩ := rep.greatest _ atHighest
    constructor
    · rcases max_choice top packetId with same | same
      · simp [newHighest, same, member]
      · simp [newHighest, same]
    · intro id inside
      rcases List.mem_append.mp inside with old | new
      · exact (bound id old).trans (le_max_left _ _)
      · rw [List.mem_singleton.mp new]
        exact le_max_right _ _

theorem Represents.commit_spec (rep : Represents window accepted) (packetId : PacketId) :
    ∃ committed, window.commit packetId = some (committed, specCheck window.highest accepted packetId) ∧
      (specCheck window.highest accepted packetId = .ok () → Represents committed (accepted ++ [packetId])) ∧
      (specCheck window.highest accepted packetId ≠ .ok () → committed = window) := by
  unfold commit
  rw [rep.check_eq packetId]
  cases answer : specCheck window.highest accepted packetId with
  | error error => exact ⟨window, rfl, by simp, fun _ => rfl⟩
  | ok =>
    obtain ⟨advanced, advanceRun, atHighest, values⟩ := rep.advance_spec packetId
    obtain ⟨marked, setRun, sameHighest, bits⟩ := setBit_spec advanced (index_lt packetId.val)
    rw [atHighest] at sameHighest
    refine ⟨marked, by simp [advanceRun, setRun], fun _ => ?_, by simp⟩
    constructor
    · intro impossible
      simp [sameHighest] at impossible
    · intro top atTop
      cases Option.some.inj (sameHighest.symm.trans atTop)
      exact rep.newHighest_greatest packetId
    · intro top atTop id le near
      cases Option.some.inj (sameHighest.symm.trans atTop)
      rw [bits]
      by_cases same : id = packetId
      · simp [same]
      · have apart : index packetId.val ≠ index id.val := fun equal =>
          same (index_injective_in_lag (packetId_le_newHighest _ _) le (newHighest_near answer) near equal).symm
        simp [apart, same, values id le same near]

/-- Commits one after another. The second component lists, in order, the IDs answered `Ok`. -/
def commitAll (window : UdpReplayWindow) : List PacketId → Option (UdpReplayWindow × List PacketId)
  | [] => some (window, [])
  | packetId :: rest => do
    let (committed, answer) ← window.commit packetId
    let (final, accepted) ← committed.commitAll rest
    return (final, if answer.isOk then packetId :: accepted else accepted)

theorem Represents.commitAll_spec (ids : List PacketId) : ∀ {window : UdpReplayWindow} {before : List PacketId},
    Represents window before →
    ∃ final accepted, window.commitAll ids = some (final, accepted) ∧ Represents final (before ++ accepted) := by
  induction ids with
  | nil =>
    intro window before rep
    exact ⟨window, [], rfl, by simpa using rep⟩
  | cons packetId rest ih =>
    intro window before rep
    obtain ⟨committed, run, success, failure⟩ := rep.commit_spec packetId
    cases answer : specCheck window.highest before packetId with
    | ok =>
      obtain ⟨final, accepted, restRun, restRep⟩ := ih (success answer)
      refine ⟨final, packetId :: accepted, ?_, by simpa using restRep⟩
      simp [commitAll, run, answer, restRun, Except.isOk, Except.toBool]
    | error error =>
      have same := failure (by simp [answer])
      subst same
      obtain ⟨final, accepted, restRun, restRep⟩ := ih rep
      refine ⟨final, accepted, ?_, restRep⟩
      simp [commitAll, run, answer, restRun, Except.isOk, Except.toBool]

theorem specCheck_ok_iff (empty : highest = none → accepted = []) :
    specCheck highest accepted packetId = .ok () ↔ packetId ∉ accepted ∧ ∀ top, highest = some top →
      top < packetId ∨ top.val - packetId.val ≤ udpReplayLag := by
  cases highest with
  | none => simp [specCheck, empty]
  | some top =>
    simp only [specCheck, Option.some.injEq, forall_eq']
    by_cases old : top.val - packetId.val > udpReplayLag
    · have notAbove : ¬top < packetId := by rw [Fin.lt_def]; omega
      simp only [if_pos old, notAbove, not_le.mpr old, or_self, and_false, reduceCtorEq]
    · by_cases member : packetId ∈ accepted <;> simp [old, member, not_lt.mp old]

theorem specCheck_tooOld_iff :
    specCheck highest accepted packetId = .error .tooOld ↔
      ∃ top, highest = some top ∧ top.val - packetId.val > udpReplayLag := by
  cases highest with
  | none => simp [specCheck]
  | some top =>
    by_cases old : top.val - packetId.val > udpReplayLag
    · simp [specCheck, old]
    · by_cases member : packetId ∈ accepted <;> simp [specCheck, old, member]

theorem specCheck_duplicate_iff :
    specCheck highest accepted packetId = .error .duplicate ↔
      packetId ∈ accepted ∧ ∃ top, highest = some top ∧ top.val - packetId.val ≤ udpReplayLag := by
  cases highest with
  | none => simp [specCheck]
  | some top =>
    simp only [specCheck, Option.some.injEq, exists_eq_left']
    by_cases old : top.val - packetId.val > udpReplayLag
    · simp only [if_pos old, not_le.mpr old, and_false, Except.error.injEq, reduceCtorEq]
    · by_cases member : packetId ∈ accepted <;> simp only [old, member, not_lt.mp old, if_true, if_false,
        and_self, false_and, reduceCtorEq]

def Refuses (window : UdpReplayWindow) (packetId : PacketId) : Prop := window.check packetId ≠ some (.ok ())

theorem Represents.refuses_iff (rep : Represents window accepted) :
    window.Refuses packetId ↔
      packetId ∈ accepted ∨ ∃ top, window.highest = some top ∧ top.val - packetId.val > udpReplayLag := by
  unfold Refuses
  rw [rep.check_eq, Ne, Option.some.injEq, specCheck_ok_iff fun none => (rep.clear none).1, not_and_or, not_not]
  refine or_congr Iff.rfl ?_
  simp only [not_forall, not_or, not_le]
  constructor
  · rintro ⟨top, atTop, _, old⟩
    exact ⟨top, atTop, old⟩
  · rintro ⟨top, atTop, old⟩
    exact ⟨top, atTop, by rw [Fin.lt_def]; omega, old⟩

theorem Represents.refuses_mono {later : UdpReplayWindow} {more : List PacketId} (rep : Represents window accepted)
    (laterRep : Represents later (accepted ++ more)) (refused : window.Refuses packetId) : later.Refuses packetId := by
  rw [laterRep.refuses_iff]
  rcases rep.refuses_iff.mp refused with member | ⟨top, atTop, old⟩
  · exact Or.inl (List.mem_append_left _ member)
  · have topMember := List.mem_append_left more (rep.greatest _ atTop).1
    cases atLater : later.highest with
    | none => simp [(laterRep.clear atLater).1] at topMember
    | some laterTop =>
      have ordered : top.val ≤ laterTop.val := (laterRep.greatest _ atLater).2 top topMember
      exact Or.inr ⟨laterTop, rfl, by omega⟩

/-- Whatever IDs were committed to a fresh window, the next answer is the one of the set of accepted IDs: `Ok` for an ID
never accepted and not behind the lag, `TooOld` behind the lag, `Duplicate` otherwise. -/
theorem commitAll_refines_accepted_set (ids : List PacketId) :
    ∃ window accepted, new.commitAll ids = some (window, accepted) ∧
      (window.highest = none ↔ accepted = []) ∧
      (∀ top, window.highest = some top ↔ IsGreatest { id | id ∈ accepted } top) ∧
      ∀ id, ∃ committed answer, window.commit id = some (committed, answer) ∧
        window.check id = some answer ∧
        (answer = .ok () ↔ id ∉ accepted ∧ ∀ top, window.highest = some top →
          top < id ∨ top.val - id.val ≤ 8128) ∧
        (answer = .error .tooOld ↔ ∃ top, window.highest = some top ∧ top.val - id.val > 8128) ∧
        (answer = .error .duplicate ↔
          id ∈ accepted ∧ ∃ top, window.highest = some top ∧ top.val - id.val ≤ 8128) ∧
        (answer ≠ .ok () → committed = window) := by
  obtain ⟨window, accepted, run, rep⟩ := new_represents.commitAll_spec ids
  rw [List.nil_append] at rep
  refine ⟨window, accepted, run, ?_, ?_, ?_⟩
  · constructor
    · exact fun none => (rep.clear none).1
    · rintro rfl
      cases atHighest : window.highest with
      | none => rfl
      | some top => exact absurd (rep.greatest _ atHighest).1 (by simp)
  · intro top
    constructor
    · intro atTop
      exact rep.greatest _ atTop
    · rintro ⟨member, bound⟩
      cases atHighest : window.highest with
      | none => exact absurd member (by simp [(rep.clear atHighest).1])
      | some other =>
        obtain ⟨otherMember, otherBound⟩ := rep.greatest _ atHighest
        rw [le_antisymm (bound otherMember) (otherBound _ member)]
  · intro id
    obtain ⟨committed, commitRun, _, failure⟩ := rep.commit_spec id
    exact ⟨committed, _, commitRun, rep.check_eq id,
      specCheck_ok_iff (fun none => (rep.clear none).1), specCheck_tooOld_iff, specCheck_duplicate_iff, failure⟩

theorem Represents.commitAll_complete (ids : List PacketId) : ∀ {window : UdpReplayWindow} {before : List PacketId},
    Represents window before → before.Nodup →
    ∃ final accepted, window.commitAll ids = some (final, accepted) ∧ (before ++ accepted).Nodup ∧ accepted.Sublist ids ∧
      ((before ++ ids).Pairwise (fun earlier later => earlier.val - later.val ≤ udpReplayLag) →
        ∀ id ∈ ids, id ∈ before ++ accepted) := by
  induction ids with
  | nil =>
    intro window before _ distinct
    exact ⟨window, [], rfl, by simpa using distinct, .refl _, by simp⟩
  | cons packetId rest ih =>
    intro window before rep distinct
    obtain ⟨committed, run, success, failure⟩ := rep.commit_spec packetId
    cases answer : specCheck window.highest before packetId with
    | ok =>
      have fresh := ((specCheck_ok_iff fun none => (rep.clear none).1).mp answer).1
      have longer : (before ++ [packetId]).Nodup :=
        List.nodup_append.mpr ⟨distinct, by simp, by simpa using fun id old => ne_of_mem_of_not_mem old fresh⟩
      obtain ⟨final, accepted, restRun, once, part, all⟩ := ih (success answer) longer
      simp only [List.append_assoc, List.singleton_append] at once all
      refine ⟨final, packetId :: accepted, ?_, once, part.cons_cons _, fun near => ?_⟩
      · simp [commitAll, run, answer, restRun, Except.isOk, Except.toBool]
      · exact List.forall_mem_cons.mpr ⟨by simp, all near⟩
    | error error =>
      obtain rfl := failure (by simp [answer])
      obtain ⟨final, accepted, restRun, once, part, all⟩ := ih rep distinct
      refine ⟨final, accepted, ?_, once, part.cons _, fun near => ?_⟩
      · simp [commitAll, run, answer, restRun, Except.isOk, Except.toBool]
      · obtain ⟨inBefore, inside, between⟩ := List.pairwise_append.mp near
        refine List.forall_mem_cons.mpr ⟨?_, all (List.pairwise_append.mpr
          ⟨inBefore, inside.of_cons, fun earlier old later new => between earlier old later (List.mem_cons_of_mem _ new)⟩)⟩
        -- Too old is ruled out by the lag, so the ID was refused as a duplicate.
        by_contra absent
        have accepts : specCheck committed.highest before packetId = .ok () := by
          refine (specCheck_ok_iff fun none => (rep.clear none).1).mpr
            ⟨fun member => absent (List.mem_append_left _ member), fun top atTop => .inr ?_⟩
          exact between top (rep.greatest top atTop).1 packetId List.mem_cons_self
        simp [answer] at accepts

/-- A fresh window accepts no ID twice, and every ID that arrives at most `udpReplayLag` behind those before it. -/
theorem reordered_ids_accepted_once (ids : List PacketId) :
    ∃ window accepted, new.commitAll ids = some (window, accepted) ∧ accepted.Nodup ∧ accepted.Sublist ids ∧
      (ids.Pairwise (fun earlier later => earlier.val - later.val ≤ udpReplayLag) → ∀ id ∈ ids, id ∈ accepted) := by
  simpa using new_represents.commitAll_complete ids .nil

end Ferrum.Shadowsocks.UdpReplayWindow
