import Mathlib.Data.List.Lex
import Ferrum.Lib.Extents
import Ferrum.Lib.HashMap
import Ferrum.Lib.I64
import Ferrum.Lib.MinHeap
import Ferrum.Tun.Packet

namespace Ferrum.Tun

/-- The fields of a key in the order of their comparison. -/
def FragmentKey.fields : FragmentKey → List Nat
  | .ipv4 key => 0 :: (key.source.toList.map UInt8.toNat ++ key.destination.toList.map UInt8.toNat ++
      [key.protocol.toNat, key.identification.val])
  | .ipv6 key => 1 :: (key.source.toList.map UInt8.toNat ++ key.destination.toList.map UInt8.toNat ++
      [key.nextHeader.toNat, key.identification.val])

theorem octets_injective {n : Nat} {first second : Vector UInt8 n}
    (same : first.toList.map UInt8.toNat = second.toList.map UInt8.toNat) : first = second := by
  have bytes : first.toList = second.toList :=
    List.map_injective_iff.mpr (fun a b equal => UInt8.toNat_inj.mp equal) same
  exact Vector.toList_inj.mp bytes

theorem FragmentKey.fields_injective : Function.Injective FragmentKey.fields := by
  intro first second same
  cases first with
  | ipv4 first =>
    cases second with
    | ipv4 second =>
      simp only [fields, List.cons.injEq, true_and] at same
      obtain ⟨addresses, rest⟩ := List.append_inj same (by simp)
      obtain ⟨source, destination⟩ := List.append_inj addresses (by simp)
      simp only [List.cons.injEq, and_true] at rest
      obtain ⟨a, b, c, d⟩ := first
      obtain ⟨e, f, g, h⟩ := second
      cases octets_injective source
      cases octets_injective destination
      cases UInt8.toNat_inj.mp rest.1
      cases Fin.ext rest.2
      rfl
    | ipv6 second => simp [fields] at same
  | ipv6 first =>
    cases second with
    | ipv4 second => simp [fields] at same
    | ipv6 second =>
      simp only [fields, List.cons.injEq, true_and] at same
      obtain ⟨addresses, rest⟩ := List.append_inj same (by simp)
      obtain ⟨source, destination⟩ := List.append_inj addresses (by simp)
      simp only [List.cons.injEq, and_true] at rest
      obtain ⟨a, b, c, d⟩ := first
      obtain ⟨e, f, g, h⟩ := second
      cases octets_injective source
      cases octets_injective destination
      cases UInt8.toNat_inj.mp rest.1
      cases Fin.ext rest.2
      rfl

instance : LinearOrder FragmentKey := LinearOrder.lift' FragmentKey.fields FragmentKey.fields_injective

/-- A deadline of the reassembly table: its time, its number and its key, compared in that
order. -/
abbrev DeadlineEntry := Int ×ₗ Fin (2 ^ 64) ×ₗ FragmentKey

def reassemblyTimeoutMillis : Int := 30000
def maxFragmentsPerEntry : Nat := 128
def maxReassemblyEntries : Nat := 1024

inductive ReassemblyDropReason
  | malformed | overlap | limit
  deriving DecidableEq, Repr

inductive ReassemblyOutcome
  | pending
  | atomic (packet : List UInt8)
  | complete (packet : List UInt8)
  | dropped (reason : ReassemblyDropReason)
  deriving DecidableEq

structure ReassemblyAccept where
  outcome : ReassemblyOutcome
  expired : Nat
  deriving DecidableEq

abbrev Piece := Extent UInt8

inductive Layout
  | ipv4 (normalizedHeader : List UInt8) (firstHeader : Option (List UInt8))
  | ipv6 (normalizedPrefix : List UInt8) (fragmentHeaderOffset previousNextHeaderOffset : Nat) (upperProtocol : UInt8)
  deriving DecidableEq

structure Entry where
  deadlineMillis : Int
  deadlineId : Fin (2 ^ 64)
  layout : Layout
  finalPayloadLen : Option Nat
  pieces : List Piece

structure ReassemblyTable where
  generation : Nat
  entries : HashMap FragmentKey Entry
  deadlines : MinHeap DeadlineEntry
  nextDeadlineId : Fin (2 ^ 64)

/-- Writes zeros over a range. -/
def fillZero (bytes : List UInt8) (start stop : Nat) : List UInt8 :=
  copyFromSlice bytes start (List.replicate (stop - start) 0)

/-- The walk over the options of a fragment's header that collects those copied into every
fragment. Only the first fragment may carry others. -/
def copiedOptionsLoop (header : List UInt8) (first : Bool) : Nat → Nat → List UInt8 → Option (List UInt8)
  | 0, _, written => some written
  | turns + 1, cursor, written =>
    if header.length ≤ cursor then some written
    else if byte header cursor = 0 then
      if (header.drop (cursor + 1)).any (· != 0) then none else some written
    else if byte header cursor = 1 then copiedOptionsLoop header first turns (cursor + 1) written
    else
      match header[cursor + 1]? with
      | none => none
      | some length =>
        if length.toNat < 2 ∨ header.length < cursor + length.toNat then none
        else if byte header cursor &&& 0x80 ≠ 0 then
          copiedOptionsLoop header first turns (cursor + length.toNat)
            (written ++ slice header cursor (cursor + length.toNat))
        else if first then copiedOptionsLoop header first turns (cursor + length.toNat) written
        else none

/-- The fixed header without what differs between the fragments of a datagram. -/
def normalizedFixedHeader (header : List UInt8) : List UInt8 :=
  let fixed := copyFromSlice (header.take 20) 0 [byte header 0 &&& 0xf0]
  fillZero (fillZero (fillZero fixed 2 4) 6 8) 10 12

def normalizedIpv4Header (header : List UInt8) (first : Bool) : Option (List UInt8) :=
  if ¬(20 ≤ header.length ∧ header.length ≤ 60) ∨ header.length % 4 ≠ 0 then none
  else copiedOptionsLoop header first (header.length + 1) 20 (normalizedFixedHeader header)

/-- The range `[..stop]` of a packet, if it has one. -/
def takeChecked (packet : List UInt8) (stop : Nat) : Option (List UInt8) :=
  if stop ≤ packet.length then some (packet.take stop) else none

def layoutFor (packet : List UInt8) (fragment : ParsedFragment) : Option Layout :=
  match fragment.reconstruction with
  | .ipv4 headerLen => do
    let header ← takeChecked packet headerLen
    let normalized ← normalizedIpv4Header header (fragment.offset == 0)
    return .ipv4 normalized (if fragment.offset = 0 then some header else none)
  | .ipv6 fragmentHeaderOffset previousNextHeaderOffset =>
    if fragmentHeaderOffset ≤ previousNextHeaderOffset then none
    else do
      let front ← takeChecked packet fragmentHeaderOffset
      return .ipv6 (fillZero front 4 6) fragmentHeaderOffset previousNextHeaderOffset fragment.upperProtocol

def layoutMatchesPacket (current : Layout) (packet : List UInt8) (fragment : ParsedFragment) : Bool :=
  match current, fragment.reconstruction with
  | .ipv4 normalizedHeader _, .ipv4 headerLen =>
    match takeChecked packet headerLen with
    | none => false
    | some header => normalizedIpv4Header header (fragment.offset == 0) == some normalizedHeader
  | .ipv6 normalizedPrefix currentFragment currentPrevious currentProtocol,
      .ipv6 fragmentHeaderOffset previousNextHeaderOffset =>
    match takeChecked packet fragmentHeaderOffset with
    | none => false
    | some front =>
      decide (6 ≤ front.length) && normalizedPrefix.length == front.length &&
        normalizedPrefix.take 4 == front.take 4 && normalizedPrefix.drop 6 == front.drop 6 &&
        currentFragment == fragmentHeaderOffset && currentPrevious == previousNextHeaderOffset &&
        currentProtocol == fragment.upperProtocol
  | _, _ => false

/-- The layout with the header of the first fragment, or nothing where the source returns false. -/
def captureFirstHeader (current : Layout) (packet : List UInt8) (fragment : ParsedFragment) : Option Layout :=
  if fragment.offset ≠ 0 then some current
  else
    match current, fragment.reconstruction with
    | .ipv4 normalizedHeader firstHeader, .ipv4 headerLen => do
      let header ← takeChecked packet headerLen
      return .ipv4 normalizedHeader (some (firstHeader.getD header))
    | .ipv6 .., .ipv6 .. => some current
    | _, _ => none

def u16Of (value : Nat) : U16 := ⟨value % 65536, Nat.mod_lt _ (by decide)⟩

/-- The header of a whole datagram made from the first fragment's. -/
def wholeIpv4Header (header : List UInt8) (totalLen : Nat) : List UInt8 :=
  let sized := copyFromSlice header 2 (u16Of totalLen).toBeBytes
  let unfragmented := copyFromSlice sized 6 (u16Of (be16 sized 6 &&& 0x4000)).toBeBytes
  let blank := fillZero unfragmented 10 12
  copyFromSlice blank 10 (internetChecksum [blank]).toBeBytes

/-- What stands before the payload of a reassembled packet. -/
def reconstructHeader (layout : Layout) (finalPayloadLen : Nat) : Option (List UInt8) :=
  match layout with
  | .ipv4 _ (some header) =>
    if maxReassembledPacket < header.length + finalPayloadLen then none
    else some (wholeIpv4Header header (header.length + finalPayloadLen))
  | .ipv4 _ none => none
  | .ipv6 normalizedPrefix fragmentHeaderOffset previousNextHeaderOffset upperProtocol =>
    let totalLen := fragmentHeaderOffset + finalPayloadLen
    if maxReassembledPacket < totalLen ∨ fragmentHeaderOffset < 40 then none
    else
      let linked := copyFromSlice normalizedPrefix previousNextHeaderOffset [upperProtocol]
      some (copyFromSlice linked 4 (u16Of (totalLen - 40)).toBeBytes)

def appendPieces (packet : List UInt8) (pieces : List Piece) : List UInt8 := packet ++ pieces.flatMap Extent.bytes

def reconstruct (entry : Entry) (finalPayloadLen : Nat) : Option (List UInt8) :=
  (reconstructHeader entry.layout finalPayloadLen).map fun header => appendPieces header entry.pieces

def reconstructAtomicIpv6 (packet : List UInt8) (fragment : ParsedFragment) : Option (List UInt8) :=
  if fragment.family ≠ .ipv6 then none
  else
    match fragment.reconstruction with
    | .ipv4 _ => none
    | .ipv6 fragmentHeaderOffset previousNextHeaderOffset =>
      if packet.length < 8 then none
      else
        let newLen := packet.length - 8
        if fragmentHeaderOffset < 40 ∨ fragmentHeaderOffset ≤ previousNextHeaderOffset ∨ maxReassembledPacket < newLen then none
        else do
          let front ← takeChecked packet fragmentHeaderOffset
          if packet.length < fragment.payloadOffset then none
          else
            let linked := copyFromSlice front previousNextHeaderOffset [fragment.upperProtocol]
            let rebuilt := linked ++ packet.drop fragment.payloadOffset
            some (copyFromSlice rebuilt 4 (u16Of (newLen - 40)).toBeBytes)

namespace Entry

/-- The length of the whole payload, as far as it is known once the fragment has arrived. -/
def learnFinalLen (entry : Entry) (fragment : ParsedFragment) (payloadEnd : Nat) :
    Except ReassemblyDropReason (Option Nat) :=
  match entry.finalPayloadLen with
  | some finalLen =>
    if finalLen < payloadEnd ∨ ¬fragment.moreFragments ∧ payloadEnd ≠ finalLen then .error .malformed
    else .ok (some finalLen)
  | none =>
    if fragment.moreFragments then .ok none
    else if entry.pieces.any fun piece => decide (payloadEnd < piece.stop) then .error .malformed
    else .ok (some payloadEnd)

/-- The checks of a fragment against the pieces of its entry, and the entry with its piece. -/
def addPiece (entry : Entry) (packet : List UInt8) (fragment : ParsedFragment) : Except ReassemblyDropReason Entry :=
  let payloadEnd := fragment.offset + fragment.payloadLen
  if entry.pieces.length = maxFragmentsPerEntry then .error .limit
  else if entry.pieces.any fun piece => decide (fragment.offset < piece.stop ∧ piece.offset < payloadEnd) then
    .error .overlap
  else
    match entry.learnFinalLen fragment payloadEnd with
    | .error reason => .error reason
    | .ok finalPayloadLen =>
      .ok { entry with
        finalPayloadLen
        pieces := Extent.sortByOffset (entry.pieces ++ [⟨fragment.offset, packet.drop fragment.payloadOffset⟩]) }

/-- The length of the whole payload, when the pieces cover it. -/
def completeLen (entry : Entry) : Option Nat :=
  match entry.finalPayloadLen with
  | none => none
  | some finalLen => if Extent.coverage 0 entry.pieces = some finalLen then some finalLen else none

end Entry

namespace ReassemblyTable

def new (generation : Nat) : ReassemblyTable := ⟨generation, ∅, .empty, 0⟩

def clear (table : ReassemblyTable) : ReassemblyTable := { table with entries := ∅, deadlines := .empty }

def setGeneration (table : ReassemblyTable) (generation : Nat) : ReassemblyTable :=
  if table.generation ≠ generation then { table with generation, entries := ∅, deadlines := .empty } else table

def remove (table : ReassemblyTable) (key : FragmentKey) : ReassemblyTable :=
  { table with entries := table.entries.erase key }

def dropKey (table : ReassemblyTable) (key : FragmentKey) : ReassemblyTable × Bool :=
  (table.remove key, (table.entries.lookup key).isSome)

def deadlineIsCurrent (entries : HashMap FragmentKey Entry) (deadline : DeadlineEntry) : Bool :=
  match entries.lookup deadline.2.2 with
  | none => false
  | some entry => entry.deadlineMillis == deadline.1 && entry.deadlineId == deadline.2.1

/-- One turn of the loop of `expire`. -/
def expireOne (state : HashMap FragmentKey Entry × Nat) (deadline : DeadlineEntry) : HashMap FragmentKey Entry × Nat :=
  if deadlineIsCurrent state.1 deadline then (state.1.erase deadline.2.2, state.2 + 1) else state

section

variable (table : ReassemblyTable)

def expire (now : Int) : ReassemblyTable × Nat :=
  let ((entries, expired), deadlines) :=
    table.deadlines.popWhile (fun deadline => decide (deadline.1 ≤ now)) expireOne (table.entries, 0)
  ({ table with entries, deadlines }, expired)

def pruneStaleDeadlines : ReassemblyTable :=
  { table with
    deadlines := (table.deadlines.popWhile (fun deadline => !deadlineIsCurrent table.entries deadline)
      (fun _ _ => ()) ()).2 }

def nextDeadlineMillis : ReassemblyTable × Option Int :=
  let pruned := if table.deadlines.len ≠ table.entries.len then table.pruneStaleDeadlines else table
  (pruned, pruned.deadlines.peek.map fun deadline => deadline.1)

def compactDeadlinesIfNeeded : ReassemblyTable :=
  if table.deadlines.len ≤ maxReassemblyEntries * 2 then table
  else
    { table with
      deadlines := .ofList (table.entries.entries.map fun entry => (entry.2.deadlineMillis, entry.2.deadlineId, entry.1)) }

/-- The end of `accept_current`: the fragment joins its entry, which may complete it. -/
def join (packet : List UInt8) (fragment : ParsedFragment) (entry : Entry) :
    ReassemblyTable × ReassemblyOutcome :=
  match entry.addPiece packet fragment with
  | .error reason => (table.remove fragment.key, .dropped reason)
  | .ok grown =>
    match grown.completeLen with
    | none => ({ table with entries := table.entries.insert fragment.key grown }, .pending)
    | some finalLen =>
      match reconstruct grown finalLen with
      | none => (table.remove fragment.key, .dropped .malformed)
      | some whole => (table.remove fragment.key, .complete whole)

/-- A new entry with its deadline. -/
def openEntry (key : FragmentKey) (layout : Layout) (now : Int) : ReassemblyTable × Entry :=
  let deadlineMillis := saturatingAdd now reassemblyTimeoutMillis
  let entry : Entry := ⟨deadlineMillis, table.nextDeadlineId, layout, none, []⟩
  ({ table with
      deadlines := table.deadlines.push (deadlineMillis, table.nextDeadlineId, key)
      nextDeadlineId := table.nextDeadlineId + 1 }, entry)

/-- The part of `accept_current` that works on the entry of the fragment's key. -/
def acceptPiece (packet : List UInt8) (fragment : ParsedFragment) (now : Int) :
    ReassemblyTable × ReassemblyOutcome :=
  match table.entries.lookup fragment.key with
  | some entry =>
    if ¬layoutMatchesPacket entry.layout packet fragment then (table.remove fragment.key, .dropped .malformed)
    else
      match captureFirstHeader entry.layout packet fragment with
      | none => (table.remove fragment.key, .dropped .malformed)
      | some layout => table.join packet fragment { entry with layout }
  | none =>
    match layoutFor packet fragment with
    | none => (table, .dropped .malformed)
    | some layout =>
      if maxReassemblyEntries ≤ table.entries.len then (table, .dropped .limit)
      else (table.openEntry fragment.key layout now).1.join packet fragment (table.openEntry fragment.key layout now).2

def acceptCurrent (packet : List UInt8) (fragment : ParsedFragment) (now : Int) :
    ReassemblyTable × ReassemblyOutcome :=
  if ¬fragment.identityMatchesKey ∨ fragment.payloadOffset + fragment.payloadLen ≠ packet.length ∨
      fragment.payloadLen = 0 then
    (table.remove fragment.key, .dropped .malformed)
  else if fragment.isAtomic then
    match reconstructAtomicIpv6 packet fragment with
    | none => (table, .dropped .malformed)
    | some whole => (table, .atomic whole)
  else if maxReassembledPacket < fragment.offset + fragment.payloadLen then
    (table.remove fragment.key, .dropped .malformed)
  else table.compactDeadlinesIfNeeded.acceptPiece packet fragment now

/-- The table in which `accept` meets a fragment: of the fragment's generation and with nothing
expired. -/
def settle (now : Int) (generation : Nat) : ReassemblyTable :=
  ((table.setGeneration generation).expire now).1

def accept (packet : List UInt8) (fragment : ParsedFragment) (now : Int) (generation : Nat) :
    ReassemblyTable × ReassemblyAccept :=
  let expired := ((table.setGeneration generation).expire now).2
  let (accepted, outcome) := (table.settle now generation).acceptCurrent packet fragment now
  (accepted, ⟨outcome, expired⟩)

end

end ReassemblyTable

def Entry.deadline (entry : Entry) (key : FragmentKey) : DeadlineEntry := (entry.deadlineMillis, entry.deadlineId, key)

namespace ReassemblyTable

/-- Every live entry has its deadline in the heap, which may hold stale ones besides. -/
def Scheduled (table : ReassemblyTable) : Prop :=
  ∀ key entry, table.entries.lookup key = some entry → entry.deadline key ∈ table.deadlines.entries

theorem new_scheduled (generation : Nat) : (new generation).Scheduled := by
  intro key entry found
  simp [new] at found

theorem clear_scheduled (table : ReassemblyTable) : table.clear.Scheduled := by
  intro key entry found
  simp [clear] at found

variable {deadline : DeadlineEntry} {key : FragmentKey} {entry : Entry}

theorem deadlineIsCurrent_iff {entries : HashMap FragmentKey Entry} : deadlineIsCurrent entries deadline = true ↔
      ∃ entry, entries.lookup deadline.2.2 = some entry ∧ entry.deadline deadline.2.2 = deadline := by
  unfold deadlineIsCurrent
  split
  · rename_i absent
    simp [absent]
  · rename_i entry found
    rw [found]
    simp only [Bool.and_eq_true, beq_iff_eq, Option.some.injEq, exists_eq_left']
    constructor
    · rintro ⟨time, id⟩
      exact Prod.ext time (Prod.ext id rfl)
    · intro same
      exact ⟨congrArg Prod.fst same, congrArg (fun deadline => deadline.2.1) same⟩

/-- What stays live and scheduled while deadlines are popped: nothing that is not due is lost. -/
structure Expiring (table : ReassemblyTable) (now : Int) (entries : HashMap FragmentKey Entry) (rest : List DeadlineEntry) :
    Prop where
  kept : ∀ key entry, entries.lookup key = some entry → table.entries.lookup key = some entry
  scheduled : ∀ key entry, entries.lookup key = some entry → entry.deadline key ∈ rest
  alive : ∀ key entry, table.entries.lookup key = some entry → now < entry.deadlineMillis →
    entries.lookup key = some entry

variable {table : ReassemblyTable}

theorem Expiring.expireOne {now : Int} {state : HashMap FragmentKey Entry × Nat}
    {rest : List DeadlineEntry} (expiring : Expiring table now state.1 (deadline :: rest)) (due : deadline.1 ≤ now) :
    Expiring table now (expireOne state deadline).1 rest := by
  unfold ReassemblyTable.expireOne
  split
  · rename_i current
    obtain ⟨owner, found, same⟩ := deadlineIsCurrent_iff.mp current
    have others : ∀ key entry, (state.1.erase deadline.2.2).lookup key = some entry →
        key ≠ deadline.2.2 ∧ state.1.lookup key = some entry := by
      intro key entry inside
      rw [HashMap.lookup_erase_eq] at inside
      split at inside
      · simp at inside
      · rename_i different
        exact ⟨different, inside⟩
    refine ⟨?_, ?_, ?_⟩
    · intro key entry inside
      exact expiring.kept key entry (others key entry inside).2
    · intro key entry inside
      obtain ⟨different, inside⟩ := others key entry inside
      rcases List.mem_cons.mp (expiring.scheduled key entry inside) with popped | later
      · exact absurd (congrArg (fun deadline => deadline.2.2) popped) different
      · exact later
    · intro key entry inside late
      have before := expiring.alive key entry inside late
      rw [HashMap.lookup_erase_eq, if_neg ?_]
      · exact before
      · rintro rfl
        cases Option.some.inj (found.symm.trans before)
        have time : owner.deadlineMillis = deadline.1 := congrArg Prod.fst same
        omega
  · rename_i stale
    refine ⟨expiring.kept, ?_, expiring.alive⟩
    intro key entry inside
    rcases List.mem_cons.mp (expiring.scheduled key entry inside) with popped | later
    · have sameKey : key = deadline.2.2 := congrArg (fun deadline => deadline.2.2) popped
      subst sameKey
      exact absurd (deadlineIsCurrent_iff.mpr ⟨entry, inside, popped⟩) stale
    · exact later

theorem Scheduled.expiring (scheduled : table.Scheduled) (now : Int) :
    Expiring table now (table.expire now).1.entries (table.expire now).1.deadlines.entries := by
  refine MinHeap.popWhile_rule (fun (state : HashMap FragmentKey Entry × Nat) rest => Expiring table now state.1 rest) ?_ ?_
  · exact ⟨fun key entry found => found, scheduled, fun key entry found _ => found⟩
  · intro state deadline rest due expiring
    exact expiring.expireOne (of_decide_eq_true due)

theorem Scheduled.expire (scheduled : table.Scheduled) (now : Int) : (table.expire now).1.Scheduled :=
  (scheduled.expiring now).scheduled

theorem Scheduled.expire_lookup (scheduled : table.Scheduled) (now : Int) (key : FragmentKey) (entry : Entry) :
    (table.expire now).1.entries.lookup key = some entry ↔
      table.entries.lookup key = some entry ∧ now < entry.deadlineMillis := by
  have expiring := scheduled.expiring now
  constructor
  · intro found
    refine ⟨expiring.kept key entry found, ?_⟩
    have notDue := MinHeap.popWhile_not_due ?_ (expiring.scheduled key entry found)
    · exact not_le.mp (of_decide_eq_false notDue)
    · intro first second before due
      have time : first.1 ≤ second.1 := by
        rcases (Prod.Lex.le_iff).mp before with less | same
        · exact less.le
        · exact same.1.le
      exact decide_eq_true (time.trans (of_decide_eq_true due))
  · rintro ⟨found, late⟩
    exact expiring.alive key entry found late

@[simp] theorem expire_generation (table : ReassemblyTable) (now : Int) :
    (table.expire now).1.generation = table.generation := rfl

@[simp] theorem setGeneration_generation (table : ReassemblyTable) (generation : Nat) :
    (table.setGeneration generation).generation = generation := by
  unfold setGeneration
  split
  · rfl
  · rename_i same
    exact not_not.mp same

theorem setGeneration_lookup {generation : Nat} : (table.setGeneration generation).entries.lookup key = some entry ↔
      table.generation = generation ∧ table.entries.lookup key = some entry := by
  unfold setGeneration
  split
  · rename_i different
    simp [different]
  · rename_i same
    simp [not_not.mp same]

theorem Scheduled.setGeneration (scheduled : table.Scheduled) (generation : Nat) :
    (table.setGeneration generation).Scheduled := by
  unfold ReassemblyTable.setGeneration
  split
  · intro key entry found
    simp at found
  · exact scheduled

theorem remove_lookup {other : FragmentKey} :
    (table.remove key).entries.lookup other = some entry ↔ other ≠ key ∧ table.entries.lookup other = some entry := by
  unfold remove
  rw [HashMap.lookup_erase_eq]
  split
  · rename_i same
    simp [same]
  · rename_i different
    simp [different]

theorem Scheduled.remove (scheduled : table.Scheduled) (key : FragmentKey) :
    (table.remove key).Scheduled := fun other entry found => scheduled other entry (remove_lookup.mp found).2

theorem Scheduled.pruneStaleDeadlines (scheduled : table.Scheduled) : table.pruneStaleDeadlines.Scheduled := by
  refine MinHeap.popWhile_rule (fun _ rest => ∀ key entry, table.entries.lookup key = some entry →
    entry.deadline key ∈ rest) scheduled ?_
  intro _ deadline rest stale held key entry found
  rcases List.mem_cons.mp (held key entry found) with popped | later
  · have current : deadlineIsCurrent table.entries deadline = true := by
      rw [← popped]
      exact deadlineIsCurrent_iff.mpr ⟨entry, found, rfl⟩
    simp [current] at stale
  · exact later

theorem nextDeadlineMillis_entries (table : ReassemblyTable) :
    table.nextDeadlineMillis.1.entries = table.entries ∧ table.nextDeadlineMillis.1.generation = table.generation := by
  unfold nextDeadlineMillis
  dsimp only
  split
  · exact ⟨rfl, rfl⟩
  · exact ⟨rfl, rfl⟩

theorem Scheduled.nextDeadlineMillis (scheduled : table.Scheduled) : table.nextDeadlineMillis.1.Scheduled := by
  unfold ReassemblyTable.nextDeadlineMillis
  dsimp only
  split
  · exact scheduled.pruneStaleDeadlines
  · exact scheduled

theorem Scheduled.settle (scheduled : table.Scheduled) (now : Int) (generation : Nat) :
    (table.settle now generation).Scheduled := (scheduled.setGeneration generation).expire now

theorem Scheduled.settle_lookup (scheduled : table.Scheduled) (now : Int) (generation : Nat) (key : FragmentKey)
    (entry : Entry) : (table.settle now generation).entries.lookup key = some entry ↔
      table.generation = generation ∧ table.entries.lookup key = some entry ∧ now < entry.deadlineMillis := by
  unfold ReassemblyTable.settle
  rw [(scheduled.setGeneration generation).expire_lookup, setGeneration_lookup, and_assoc]

/-- A table with the same entries whose heap has been added to or compacted. -/
structure Reschedules (table other : ReassemblyTable) : Prop where
  entries : other.entries = table.entries
  generation : other.generation = table.generation
  scheduled : table.Scheduled → other.Scheduled

theorem Reschedules.refl (table : ReassemblyTable) : table.Reschedules table := ⟨rfl, rfl, id⟩

theorem Reschedules.trans {first second third : ReassemblyTable} (left : first.Reschedules second)
    (right : second.Reschedules third) : first.Reschedules third :=
  ⟨right.entries.trans left.entries, right.generation.trans left.generation, right.scheduled ∘ left.scheduled⟩

theorem compactDeadlinesIfNeeded_reschedules (table : ReassemblyTable) : table.Reschedules table.compactDeadlinesIfNeeded := by
  unfold compactDeadlinesIfNeeded
  split
  · exact .refl table
  · refine ⟨rfl, rfl, ?_⟩
    intro _ key entry found
    refine MinHeap.mem_ofList.mpr (List.mem_map.mpr ⟨⟨key, entry⟩, ?_, rfl⟩)
    exact HashMap.mem_entries_iff.mpr found

theorem openEntry_reschedules (table : ReassemblyTable) (key : FragmentKey) (layout : Layout) (now : Int) :
    table.Reschedules (table.openEntry key layout now).1 := by
  refine ⟨rfl, rfl, ?_⟩
  intro scheduled other entry found
  exact MinHeap.mem_push.mpr (.inr (scheduled other entry found))

theorem openEntry_deadline (table : ReassemblyTable) (key : FragmentKey) (layout : Layout) (now : Int) :
    (table.openEntry key layout now).2.deadline key ∈ (table.openEntry key layout now).1.deadlines.entries :=
  MinHeap.mem_push.mpr (.inl rfl)

end ReassemblyTable

end Ferrum.Tun
