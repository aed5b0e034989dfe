import Ferrum.Dns.Cache
import Ferrum.Lib.MinHeap

namespace Ferrum.Dns

open Option List HeapOrder

def Entry.body (entry : Entry) : Entry := { entry with heapPosition := 0 }

namespace DnsCacheState

variable {state next : DnsCacheState}

theorem entry_set (slots : List (Option Entry)) (id other : Nat) (value : Option Entry) :
    ((slots.set id value)[other]?).join = if other = id ∧ id < slots.length then value else (slots[other]?).join := by
  by_cases same : other = id
  · subst same
    by_cases inside : other < slots.length
    · simp [inside]
    · simp [inside]
  · simp [same, Ne.symm same]

variable {id position : Nat}

theorem entry_inside {entry : Entry} (found : state.entry id = some entry) : id < state.slots.length := by
  by_contra outside
  rw [DnsCacheState.entry, List.getElem?_eq_none (Nat.not_lt.mp outside)] at found
  cases found

theorem modifyEntry_of_entry {id : Nat} {entry : Entry} (found : state.entry id = some entry) (f : Entry → Entry) :
    state.modifyEntry id f = some { state with slots := state.slots.set id (some (f entry)) } := by
  unfold modifyEntry
  rw [found]
  rfl

theorem entry_modified {entry : Entry} (found : state.entry id = some entry) (value : Entry) (other : Nat) :
    DnsCacheState.entry { state with slots := state.slots.set id (some value) } other =
      if other = id then some value else state.entry other := by
  have inside := entry_inside found
  unfold DnsCacheState.entry
  rw [entry_set]
  by_cases same : other = id
  · rw [if_pos ⟨same, inside⟩, if_pos same]
  · rw [if_neg (fun both => same both.1), if_neg same]

/-- The two states differ in the heap only. -/
structure SameBodies (state next : DnsCacheState) : Prop where
  capacity : next.capacity = state.capacity
  index : next.index = state.index
  free : next.free = state.free
  oldest : next.oldest = state.oldest
  newest : next.newest = state.newest
  slots : next.slots.length = state.slots.length
  deadlines : next.deadlines.length = state.deadlines.length
  bodies : ∀ id, (next.entry id).map Entry.body = (state.entry id).map Entry.body

theorem SameBodies.refl (state : DnsCacheState) : SameBodies state state := ⟨rfl, rfl, rfl, rfl, rfl, rfl, rfl, fun _ => rfl⟩

theorem SameBodies.trans {last : DnsCacheState} (first : SameBodies state next) (second : SameBodies next last) :
    SameBodies state last :=
  ⟨second.capacity.trans first.capacity, second.index.trans first.index, second.free.trans first.free,
    second.oldest.trans first.oldest, second.newest.trans first.newest, second.slots.trans first.slots,
    second.deadlines.trans first.deadlines, fun id => (second.bodies id).trans (first.bodies id)⟩

theorem SameBodies.entry (same : SameBodies state next) {id : Nat} {entry : Entry} (found : next.entry id = some entry) :
    ∃ old, state.entry id = some old ∧ entry.body = old.body := by
  have bodies := same.bodies id
  rw [found] at bodies
  obtain ⟨old, there, body⟩ := Option.map_eq_some_iff.mp bodies.symm
  exact ⟨old, there, body.symm⟩

theorem SameBodies.symm_entry (same : SameBodies state next) {entry : Entry} (found : state.entry id = some entry) :
    ∃ new, next.entry id = some new ∧ new.body = entry.body := by
  have bodies := same.bodies id
  rw [found] at bodies
  exact Option.map_eq_some_iff.mp bodies

/-- Every live slot stands in the heap, where its entry says. -/
def Positioned (state : DnsCacheState) : Prop :=
  ∀ position id, state.deadlines[position]? = some id ↔ ∃ entry, state.entry id = some entry ∧ entry.heapPosition = position

theorem positioned_iff : state.Positioned ↔
    ∀ position id, state.deadlines[position]? = some id ↔ (state.entry id).map Entry.heapPosition = some position := by
  simp only [Positioned, Option.map_eq_some_iff]

section

variable {heap place : Nat → Option Nat} {first second : Nat}

/-- Two places of a heap and its inverse, swapped in both. -/
theorem inverse_swapped {left right : Nat} (inverse : ∀ p id, heap p = some id ↔ place id = some p)
    (atLeft : heap left = some first) (atRight : heap right = some second) (p id : Nat) :
    (if p = right then some first else if p = left then some second else heap p) = some id ↔
      (if id = first then some right else if id = second then some left else place id) = some p := by
  have leftAt := (inverse left first).mp atLeft
  have rightAt := (inverse right second).mp atRight
  have here := inverse p id
  grind

/-- The last place of a heap, moved into a hole. -/
theorem inverse_moved {hole size : Nat} (inverse : ∀ p id, p ≠ hole → (heap p = some id ↔ place id = some p))
    (empty : ∀ id, place id ≠ some hole) (bounded : ∀ p id, heap p = some id → p ≤ size) (atLast : heap size = some first)
    (tail : hole < size) (p id : Nat) :
    (if p < size then if p = hole then some first else heap p else none) = some id ↔
      (if id = first then some hole else place id) = some p := by
  have lastAt := (inverse size first (Nat.ne_of_gt tail)).mp atLast
  have here := inverse p id
  have unused := empty id
  have bound := bounded p id
  grind

end

def due (state : DnsCacheState) (id : Nat) : Nat := ((state.entry id).map Entry.expiresAt).getD 0

def keyAt (state : DnsCacheState) (position : Nat) : Nat := state.due (state.deadlines.getD position 0)

theorem SameBodies.due (same : SameBodies state next) (id : Nat) : next.due id = state.due id := by
  have bodies := congrArg (Option.map Entry.expiresAt) (same.bodies id)
  simp only [Option.map_map, Function.comp_def, Entry.body] at bodies
  unfold DnsCacheState.due
  exact congrArg (Option.getD · 0) bodies

theorem Positioned.live (positioned : state.Positioned) (inside : position < state.deadlines.length) :
    ∃ entry, state.entry (state.deadlines.getD position 0) = some entry ∧ entry.heapPosition = position ∧
      state.keyAt position = entry.expiresAt ∧ state.deadlines[position]? = some (state.deadlines.getD position 0) := by
  have here : state.deadlines[position]? = some (state.deadlines.getD position 0) := by
    rw [getD_eq_getElem?_getD, List.getElem?_eq_getElem inside]
    rfl
  obtain ⟨entry, found, exact_⟩ := (positioned position _).mp here
  refine ⟨entry, found, exact_, ?_, here⟩
  unfold keyAt DnsCacheState.due
  rw [found]
  rfl

theorem Positioned.earlier (positioned : state.Positioned) {left right : Nat} (insideLeft : left < state.deadlines.length)
    (insideRight : right < state.deadlines.length) :
    state.earlier left right = some (decide (state.keyAt left < state.keyAt right)) := by
  obtain ⟨first, foundFirst, -, keyFirst, atLeft⟩ := positioned.live insideLeft
  obtain ⟨second, foundSecond, -, keySecond, atRight⟩ := positioned.live insideRight
  unfold DnsCacheState.earlier
  simp only [atLeft, atRight, bind, Option.bind, foundFirst, foundSecond]
  rw [keyFirst, keySecond]

theorem Positioned.swapDeadlines (positioned : state.Positioned) {left right : Nat} (insideLeft : left < state.deadlines.length)
    (insideRight : right < state.deadlines.length) (apart : left ≠ right) :
    ∃ next, state.swapDeadlines left right = some next ∧ SameBodies state next ∧ next.Positioned ∧
      next.keyAt = swapped state.keyAt left right := by
  obtain ⟨first, foundFirst, posFirst, -, atLeft⟩ := positioned.live insideLeft
  obtain ⟨second, foundSecond, posSecond, -, atRight⟩ := positioned.live insideRight
  generalize state.deadlines.getD left 0 = leftId at foundFirst atLeft
  generalize state.deadlines.getD right 0 = rightId at foundSecond atRight
  have apartIds : leftId ≠ rightId := by
    intro same
    subst same
    rw [foundFirst] at foundSecond
    cases foundSecond
    exact apart (posFirst.symm.trans posSecond)
  let middle : DnsCacheState := { state with
    deadlines := (state.deadlines.set left rightId).set right leftId
    slots := state.slots.set rightId (some { second with heapPosition := left }) }
  let final : DnsCacheState := { middle with slots := middle.slots.set leftId (some { first with heapPosition := right }) }
  have middleEntry : ∀ other, middle.entry other =
      if other = rightId then some { second with heapPosition := left } else state.entry other :=
    entry_modified foundSecond _
  have firstMiddle : middle.entry leftId = some first := by rw [middleEntry, if_neg apartIds, foundFirst]
  have finalEntry : ∀ other, final.entry other =
      if other = leftId then some { first with heapPosition := right }
      else if other = rightId then some { second with heapPosition := left } else state.entry other := by
    intro other
    rw [← middleEntry]
    exact entry_modified firstMiddle _ other
  have heap : ∀ position, final.deadlines[position]? =
      if position = right then some leftId else if position = left then some rightId else state.deadlines[position]? := by
    intro position
    change ((state.deadlines.set left rightId).set right leftId)[position]? = _
    rw [List.getElem?_set, List.getElem?_set, length_set]
    by_cases atR : position = right
    · simp [atR, insideRight]
    · by_cases atL : position = left
      · simp [atL, insideLeft, apart, Ne.symm apart]
      · simp [atR, atL, Ne.symm atR, Ne.symm atL]
  have same : SameBodies state final := by
    refine ⟨rfl, rfl, rfl, rfl, rfl, by simp [final, middle], by simp [final, middle], fun id => ?_⟩
    rw [finalEntry]
    by_cases isLeft : id = leftId
    · rw [if_pos isLeft, isLeft, foundFirst]
      rfl
    · rw [if_neg isLeft]
      by_cases isRight : id = rightId
      · rw [if_pos isRight, isRight, foundSecond]
        rfl
      · rw [if_neg isRight]
  refine ⟨final, ?_, same, ?_, ?_⟩
  · unfold DnsCacheState.swapDeadlines
    simp only [atLeft, atRight, bind, Option.bind]
    rw [@modifyEntry_of_entry { state with deadlines := (state.deadlines.set left rightId).set right leftId } rightId second
      foundSecond]
    exact modifyEntry_of_entry firstMiddle _
  · refine positioned_iff.mpr fun position id => ?_
    rw [heap, finalEntry, apply_ite (Option.map _), apply_ite (Option.map _)]
    exact inverse_swapped (positioned_iff.mp positioned) atLeft atRight position id
  · funext position
    have value : final.deadlines.getD position 0 =
        if position = right then leftId else if position = left then rightId else state.deadlines.getD position 0 := by
      rw [getD_eq_getElem?_getD, heap]
      by_cases atR : position = right
      · simp [atR]
      · by_cases atL : position = left
        · simp [atL, apart]
        · simp [atR, atL, getD_eq_getElem?_getD]
    have leftKey : state.keyAt left = state.due leftId := by
      unfold keyAt
      rw [getD_eq_getElem?_getD, atLeft]
      rfl
    have rightKey : state.keyAt right = state.due rightId := by
      unfold keyAt
      rw [getD_eq_getElem?_getD, atRight]
      rfl
    unfold keyAt swapped
    rw [value, same.due]
    by_cases atL : position = left
    · rw [if_neg (fun atR => apart (atL.symm.trans atR)), if_pos atL, if_pos atL]
      exact rightKey.symm
    · rw [if_neg atL, if_neg atL]
      by_cases atR : position = right
      · rw [if_pos atR, if_pos atR]
        exact leftKey.symm
      · rw [if_neg atR, if_neg atR]

theorem SameBodies.inside (same : SameBodies state next) (inside : position < state.deadlines.length) :
    position < next.deadlines.length := by
  rw [same.deadlines]
  exact inside

theorem Positioned.siftUp (fuel position : Nat) (state : DnsCacheState) (positioned : state.Positioned)
    (inside : position < state.deadlines.length) (enough : position ≤ fuel)
    (near : Near state.deadlines.length state.keyAt position) :
    ∃ last next, siftUp fuel position state = some (last, next) ∧ SameBodies state next ∧ next.Positioned ∧
      last < next.deadlines.length ∧ Near next.deadlines.length next.keyAt last ∧ Above next.keyAt last ∧
      (Below state.deadlines.length state.keyAt position → Below next.deadlines.length next.keyAt last) := by
  induction fuel generalizing position state with
  | zero =>
    obtain rfl : position = 0 := by omega
    refine ⟨0, state, ?_, .refl state, positioned, inside, near, fun root => absurd root (by decide), fun below => below⟩
    unfold DnsCacheState.siftUp
    rfl
  | succ fuel ih =>
    cases position with
    | zero =>
      refine ⟨0, state, ?_, .refl state, positioned, inside, near, fun root => absurd root (by decide), fun below => below⟩
      unfold DnsCacheState.siftUp
      rfl
    | succ position =>
      have up : parent (position + 1) = position / 2 := rfl
      unfold DnsCacheState.siftUp
      simp only [bind, Option.bind, positioned.earlier inside (show position / 2 < _ by omega)]
      by_cases less : state.keyAt (position + 1) < state.keyAt (position / 2)
      · obtain ⟨middle, swap, same, positionedMiddle, keys⟩ := positioned.swapDeadlines inside
          (show position / 2 < _ by omega) (by omega)
        obtain ⟨nearMiddle, belowMiddle⟩ := near.up (Nat.succ_pos position) inside less
        rw [up, ← keys, ← same.deadlines] at nearMiddle belowMiddle
        obtain ⟨last, final, sifted, sameFinal, positionedFinal, insideLast, nearLast, above, below⟩ :=
          ih (position / 2) middle positionedMiddle (same.inside (by omega)) (by omega) nearMiddle
        refine ⟨last, final, ?_, same.trans sameFinal, positionedFinal, insideLast, nearLast, above, fun _ => below belowMiddle⟩
        rw [if_pos (decide_eq_true less)]
        simp only [swap]
        exact sifted
      · refine ⟨position + 1, state, ?_, .refl state, positioned, inside, near, fun _ => not_lt.mp less, fun below => below⟩
        rw [if_neg (by simpa using less)]

theorem Positioned.earlierChild (positioned : state.Positioned) (inside : position * 2 + 1 < state.deadlines.length) :
    ∃ child, state.earlierChild (position * 2 + 1) = some child ∧ child < state.deadlines.length ∧ 0 < child ∧
      parent child = position ∧
      ∀ other, 0 < other → other < state.deadlines.length → parent other = position → state.keyAt child ≤ state.keyAt other := by
  have two : ∀ other, 0 < other → parent other = position → other = position * 2 + 1 ∨ other = position * 2 + 2 := by
    intro other positive under
    unfold parent at under
    omega
  unfold DnsCacheState.earlierChild
  by_cases both : position * 2 + 1 + 1 < state.deadlines.length
  · rw [if_pos both]
    simp only [bind, Option.bind, positioned.earlier both inside]
    by_cases less : state.keyAt (position * 2 + 1 + 1) < state.keyAt (position * 2 + 1)
    · rw [if_pos (decide_eq_true less)]
      refine ⟨_, rfl, both, by omega, by unfold parent; omega, fun other positive bound under => ?_⟩
      rcases two other positive under with first | second
      · rw [first]
        exact le_of_lt less
      · rw [second]
    · rw [if_neg (by simpa using less)]
      refine ⟨_, rfl, inside, by omega, by unfold parent; omega, fun other positive bound under => ?_⟩
      rcases two other positive under with first | second
      · rw [first]
      · rw [second]
        exact not_lt.mp less
  · rw [if_neg both]
    refine ⟨_, rfl, inside, by omega, by unfold parent; omega, fun other positive bound under => ?_⟩
    rcases two other positive under with first | second
    · rw [first]
    · omega

theorem Positioned.siftDown (fuel position : Nat) (state : DnsCacheState) (positioned : state.Positioned)
    (enough : state.deadlines.length ≤ position + fuel) (near : Near state.deadlines.length state.keyAt position)
    (above : Above state.keyAt position) :
    ∃ next, siftDown fuel position state = some next ∧ SameBodies state next ∧ next.Positioned ∧
      Ordered next.deadlines.length next.keyAt := by
  induction fuel generalizing position state with
  | zero =>
    unfold DnsCacheState.siftDown
    rw [if_pos (by omega)]
    refine ⟨state, rfl, .refl state, positioned, .of_near near above fun child positive bound under => ?_⟩
    have deeper := parent_lt positive
    omega
  | succ fuel ih =>
    unfold DnsCacheState.siftDown
    by_cases leaf : state.deadlines.length ≤ position * 2 + 1
    · rw [if_pos leaf]
      refine ⟨state, rfl, .refl state, positioned, .of_near near above fun child positive bound under => ?_⟩
      unfold parent at under
      omega
    · rw [if_neg leaf]
      obtain ⟨child, picked, insideChild, positive, under, least⟩ := positioned.earlierChild (Nat.not_le.mp leaf)
      have deeper := parent_lt positive
      rw [under] at deeper
      simp only [bind, Option.bind, picked, positioned.earlier insideChild (show position < _ by omega)]
      by_cases less : state.keyAt child < state.keyAt position
      · obtain ⟨middle, swap, same, positionedMiddle, keys⟩ := positioned.swapDeadlines (show position < _ by omega)
          insideChild (by omega)
        obtain ⟨nearMiddle, aboveMiddle⟩ := near.down positive insideChild under less least
        rw [← keys, ← same.deadlines] at nearMiddle
        rw [← keys] at aboveMiddle
        have length := same.deadlines
        obtain ⟨final, sifted, sameFinal, positionedFinal, ordered⟩ :=
          ih child middle positionedMiddle (by omega) nearMiddle aboveMiddle
        refine ⟨final, ?_, same.trans sameFinal, positionedFinal, ordered⟩
        rw [if_pos (decide_eq_true less)]
        simp only [swap]
        exact sifted
      · rw [if_neg (by simpa using less)]
        refine ⟨state, rfl, .refl state, positioned, .of_near near above fun other deeper bound below => ?_⟩
        exact le_trans (not_lt.mp less) (least other deeper bound below)

/-- The heap while the slot at one position is already empty. -/
structure Hole (state : DnsCacheState) (hole : Nat) : Prop where
  inside : hole < state.deadlines.length
  exact : ∀ position id, position ≠ hole →
    (state.deadlines[position]? = some id ↔ ∃ entry, state.entry id = some entry ∧ entry.heapPosition = position)
  empty : ∀ id entry, state.entry id = some entry → entry.heapPosition ≠ hole
  ordered : ∃ key : Nat → Nat, Ordered state.deadlines.length key ∧
    ∀ position < state.deadlines.length, position ≠ hole → state.keyAt position = key position

theorem getElem?_swapRemove {values : List Nat} {hole last : Nat} : ((values.set hole last).dropLast)[position]? =
      if position < values.length - 1 then if position = hole then some last else values[position]? else none := by
  by_cases inside : position < values.length - 1
  · rw [if_pos inside, List.getElem?_dropLast, if_pos (by simpa using inside), List.getElem?_set]
    by_cases same : position = hole
    · rw [if_pos same.symm, if_pos same, if_pos (by omega)]
    · rw [if_neg (Ne.symm same), if_neg same]
  · rw [if_neg inside, List.getElem?_dropLast, if_neg (by simpa using inside)]

theorem Hole.removeDeadline {hole : Nat} (holed : state.Hole hole) :
    ∃ next, state.removeDeadline hole = some next ∧
      SameBodies { state with deadlines := state.deadlines.dropLast } next ∧ next.Positioned ∧
      Ordered next.deadlines.length next.keyAt := by
  obtain ⟨key, ordered, keys⟩ := holed.ordered
  have inside := holed.inside
  have lastIs : state.deadlines.getLast? = some (state.deadlines.getD (state.deadlines.length - 1) 0) := by
    rw [List.getLast?_eq_getElem?, getD_eq_getElem?_getD, List.getElem?_eq_getElem (by omega)]
    rfl
  generalize state.deadlines.getD (state.deadlines.length - 1) 0 = last at lastIs
  have atLast : state.deadlines[state.deadlines.length - 1]? = some last := by rw [← List.getLast?_eq_getElem?, lastIs]
  have swapped : state.swapRemove hole = some { state with deadlines := (state.deadlines.set hole last).dropLast } := by
    unfold DnsCacheState.swapRemove
    simp only [lastIs, bind, Option.bind]
    rw [if_pos inside]
  have length : ((state.deadlines.set hole last).dropLast).length = state.deadlines.length - 1 := by simp
  unfold DnsCacheState.removeDeadline
  simp only [swapped, bind, Option.bind, length]
  by_cases tail : hole < state.deadlines.length - 1
  · rw [if_pos tail]
    have atHole : ((state.deadlines.set hole last).dropLast)[hole]? = some last := by
      rw [getElem?_swapRemove, if_pos tail, if_pos rfl]
    obtain ⟨entry, found, position⟩ := (holed.exact (state.deadlines.length - 1) last (by omega)).mp atLast
    simp only [atHole, @modifyEntry_of_entry { state with deadlines := (state.deadlines.set hole last).dropLast } last entry found]
    generalize built : ({ state with
      deadlines := (state.deadlines.set hole last).dropLast
      slots := state.slots.set last (some { entry with heapPosition := hole }) } : DnsCacheState) = middle
    have entries : ∀ other, middle.entry other =
        if other = last then some { entry with heapPosition := hole } else state.entry other := by
      rw [← built]
      exact entry_modified found _
    have heap : ∀ position, middle.deadlines[position]? =
        if position < state.deadlines.length - 1 then if position = hole then some last else state.deadlines[position]?
        else none := by
      rw [← built]
      exact fun position => getElem?_swapRemove
    have lengthMiddle : middle.deadlines.length = state.deadlines.length - 1 := by rw [← built]; exact length
    have same : SameBodies { state with deadlines := state.deadlines.dropLast } middle := by
      rw [← built]
      refine ⟨rfl, rfl, rfl, rfl, rfl, by simp, by simp, fun id => ?_⟩
      rw [built, entries]
      by_cases isLast : id = last
      · rw [if_pos isLast, isLast]
        exact (congrArg (Option.map Entry.body) found).symm
      · rw [if_neg isLast]
        rfl
    have positioned : middle.Positioned := by
      refine positioned_iff.mpr fun p id => ?_
      rw [heap, entries, apply_ite (Option.map _)]
      refine @inverse_moved (state.deadlines[·]?) (fun id => (state.entry id).map Entry.heapPosition) last hole _
        (fun p id other => ?_) (fun id there => ?_) (fun p id is => ?_) atLast tail p id
      · rw [holed.exact p id other, Option.map_eq_some_iff]
      · obtain ⟨other, there, here⟩ := Option.map_eq_some_iff.mp there
        exact holed.empty id other there here
      · exact Nat.le_pred_of_lt (List.getElem?_eq_some_iff.mp is).1
    have keysMiddle : ∀ p < state.deadlines.length - 1, p ≠ hole → middle.keyAt p = key p := by
      intro p bound other
      rw [← keys p (by omega) other]
      unfold keyAt
      rw [same.due, getD_eq_getElem?_getD, heap, if_pos bound, if_neg other, getD_eq_getElem?_getD]
      rfl
    have near : Near middle.deadlines.length middle.keyAt hole := by
      rw [lengthMiddle]
      refine ⟨fun child positive bound other under => ?_, fun positive child deeper bound under => ?_⟩
      · have up := parent_lt positive
        rw [keysMiddle child bound other, keysMiddle _ (by omega) under]
        exact ordered child positive (by omega)
      · have up := parent_lt positive
        have down := parent_lt deeper
        rw [keysMiddle child bound (by omega), keysMiddle _ (by omega) (by omega)]
        have first := ordered hole positive inside
        have second := ordered child deeper (by omega)
        rw [under] at second
        exact le_trans first second
    obtain ⟨top, sifted, run, sameUp, positionedUp, insideTop, nearTop, above, -⟩ :=
      Positioned.siftUp hole hole middle positioned (by omega) (Nat.le_refl _) near
    obtain ⟨final, runDown, sameDown, positionedDown, orderedDown⟩ :=
      Positioned.siftDown sifted.deadlines.length top sifted positionedUp (by omega) nearTop above
    refine ⟨final, ?_, same.trans (sameUp.trans sameDown), positionedDown, orderedDown⟩
    simp only [run]
    exact runDown
  · rw [if_neg tail]
    have isEnd : hole = state.deadlines.length - 1 := by omega
    have shape : (state.deadlines.set hole last).dropLast = state.deadlines.dropLast := by
      refine ext_getElem? fun p => ?_
      rw [getElem?_swapRemove, List.getElem?_dropLast]
      by_cases bound : p < state.deadlines.length - 1
      · rw [if_pos bound, if_pos bound, if_neg (by omega)]
      · rw [if_neg bound, if_neg bound]
    rw [shape]
    refine ⟨_, rfl, .refl _, ?_, ?_⟩
    · intro p id
      rw [List.getElem?_dropLast]
      by_cases bound : p < state.deadlines.length - 1
      · rw [if_pos bound]
        exact holed.exact p id (by omega)
      · rw [if_neg bound]
        simp only [reduceCtorEq, false_iff]
        rintro ⟨other, there, here⟩
        have notHole := holed.empty id other there
        have was := (holed.exact p id (by rw [← here]; exact notHole)).mpr ⟨other, there, here⟩
        have bounded := (List.getElem?_eq_some_iff.mp was).1
        omega
    · intro child positive bound
      rw [length_dropLast] at bound
      have up := parent_lt positive
      have same : ∀ p < state.deadlines.length - 1,
          DnsCacheState.keyAt { state with deadlines := state.deadlines.dropLast } p = key p := by
        intro p inner
        rw [← keys p (by omega) (by omega)]
        unfold keyAt
        rw [getD_eq_getElem?_getD, List.getElem?_dropLast, if_pos inner, getD_eq_getElem?_getD]
        rfl
      rw [same child bound, same _ (by omega)]
      exact ordered child positive (by omega)

end DnsCacheState

def Entry.stored (entry : Entry) : DnsCacheKey × DnsCacheAnswer × Nat := (entry.key, entry.answer, entry.expiresAt)

theorem Entry.body_eq {left right : Entry} (same : left.body = right.body) :
    left.key = right.key ∧ left.answer = right.answer ∧ left.expiresAt = right.expiresAt ∧
      left.previous = right.previous ∧ left.next = right.next := by
  cases left
  cases right
  simp only [Entry.body, Entry.mk.injEq] at same
  exact ⟨same.1, same.2.1, same.2.2.1, same.2.2.2.1, same.2.2.2.2.1⟩

namespace DnsCacheState

variable {state next : DnsCacheState}

def stored (state : DnsCacheState) (id : Nat) : Option (DnsCacheKey × DnsCacheAnswer × Nat) :=
  (state.entry id).map Entry.stored

/-- The index, the links and the occupied slots describe the entries in the order of their last writes. -/
structure Fifo (state : DnsCacheState) (order : List Nat) : Prop where
  live : ∀ id, id ∈ order ↔ ∃ entry, state.entry id = some entry
  distinct : order.Nodup
  linked : ∀ front id back, order = front ++ id :: back → ∀ entry, state.entry id = some entry →
    entry.previous = front.getLast? ∧ entry.next = back.head?
  oldest : state.oldest = order.head?
  newest : state.newest = order.getLast?
  indexed : ∀ key id, state.index.lookup key = some id ↔ ∃ entry, state.entry id = some entry ∧ entry.key = key
  size : state.index.len = order.length

/-- The free list names the empty slots. -/
structure FreeSlots (state : DnsCacheState) : Prop where
  distinct : state.free.Nodup
  empty : ∀ id, id ∈ state.free ↔ id < state.slots.length ∧ state.entry id = none
  bound : state.slots.length ≤ state.capacity

theorem SameBodies.entry_none (same : SameBodies state next) (id : Nat) : next.entry id = none ↔ state.entry id = none := by
  have bodies := same.bodies id
  cases old : state.entry id <;> cases new : next.entry id <;> simp_all

theorem SameBodies.stored (same : SameBodies state next) (id : Nat) : next.stored id = state.stored id := by
  have bodies := congrArg (Option.map Entry.stored) (same.bodies id)
  simp only [Option.map_map, Function.comp_def, Entry.body, Entry.stored] at bodies
  exact bodies

theorem Fifo.of_sameBodies {order : List Nat} (fifo : state.Fifo order) (same : SameBodies state next) : next.Fifo order := by
  refine ⟨fun id => ?_, fifo.distinct, ?_, same.oldest.trans fifo.oldest, same.newest.trans fifo.newest, ?_, ?_⟩
  · rw [fifo.live]
    constructor
    · rintro ⟨entry, found⟩
      obtain ⟨new, there, -⟩ := same.symm_entry found
      exact ⟨new, there⟩
    · rintro ⟨entry, found⟩
      obtain ⟨old, there, -⟩ := same.entry found
      exact ⟨old, there⟩
  · intro front id back split entry found
    obtain ⟨old, there, body⟩ := same.entry found
    obtain ⟨-, -, -, previous, following⟩ := Entry.body_eq body
    rw [previous, following]
    exact fifo.linked front id back split old there
  · intro key id
    rw [same.index, fifo.indexed]
    constructor
    · rintro ⟨entry, found, isKey⟩
      obtain ⟨new, there, body⟩ := same.symm_entry found
      exact ⟨new, there, (Entry.body_eq body).1.trans isKey⟩
    · rintro ⟨entry, found, isKey⟩
      obtain ⟨old, there, body⟩ := same.entry found
      exact ⟨old, there, (Entry.body_eq body).1.symm.trans isKey⟩
  · rw [same.index, fifo.size]

theorem FreeSlots.of_sameBodies (slots : state.FreeSlots) (same : SameBodies state next) : next.FreeSlots := by
  refine ⟨by rw [same.free]; exact slots.distinct, fun id => ?_, by rw [same.slots, same.capacity]; exact slots.bound⟩
  rw [same.free, same.slots, same.entry_none, slots.empty]

theorem relinkPrevious_eq {entry : Entry} (live : ∀ id, entry.previous = some id → ∃ found, state.entry id = some found) :
    ∃ next, state.relinkPrevious entry = some next ∧
      next = { state with
        oldest := if entry.previous = none then entry.next else state.oldest
        slots := next.slots } ∧ next.slots.length = state.slots.length ∧
      ∀ other, next.entry other = if entry.previous = some other then (state.entry other).map ({ · with next := entry.next })
        else state.entry other := by
  unfold relinkPrevious
  cases previous : entry.previous with
  | none => exact ⟨_, rfl, rfl, rfl, fun other => by simp [DnsCacheState.entry]⟩
  | some id =>
    obtain ⟨found, there⟩ := live id previous
    refine ⟨_, modifyEntry_of_entry there _, rfl, by simp, fun other => ?_⟩
    rw [entry_modified there]
    by_cases same : other = id
    · rw [if_pos same, if_pos (by rw [same]), same, there]
      rfl
    · rw [if_neg same, if_neg (fun isSome => same (some.inj isSome).symm)]

theorem relinkNext_eq {entry : Entry} (live : ∀ id, entry.next = some id → ∃ found, state.entry id = some found) :
    ∃ next, state.relinkNext entry = some next ∧
      next = { state with
        newest := if entry.next = none then entry.previous else state.newest
        slots := next.slots } ∧ next.slots.length = state.slots.length ∧
      ∀ other, next.entry other = if entry.next = some other then (state.entry other).map ({ · with previous := entry.previous })
        else state.entry other := by
  unfold relinkNext
  cases following : entry.next with
  | none => exact ⟨_, rfl, rfl, rfl, fun other => by simp [DnsCacheState.entry]⟩
  | some id =>
    obtain ⟨found, there⟩ := live id following
    refine ⟨_, modifyEntry_of_entry there _, rfl, by simp, fun other => ?_⟩
    rw [entry_modified there]
    by_cases same : other = id
    · rw [if_pos same, if_pos (by rw [same]), same, there]
      rfl
    · rw [if_neg same, if_neg (fun isSome => same (some.inj isSome).symm)]

theorem relinked {order front back : List Nat} {id : Nat} (distinct : order.Nodup) (split : order = front ++ id :: back)
    {previous following : Nat → Option Nat}
    (linked : ∀ left x right, order = left ++ x :: right → previous x = left.getLast? ∧ following x = right.head?)
    (left : List Nat) (x : Nat) (right : List Nat) (kept : front ++ back = left ++ x :: right) :
    (if back.head? = some x then front.getLast? else previous x) = left.getLast? ∧
      (if front.getLast? = some x then back.head? else following x) = right.head? := by
  subst split
  have apart := distinct
  rw [nodup_append, nodup_cons] at apart
  obtain ⟨distinctFront, ⟨notBack, distinctBack⟩, disjoint⟩ := apart
  rcases append_eq_append_iff.mp kept with ⟨middle, leftIs, backIs⟩ | ⟨middle, frontIs, restIs⟩
  · -- The entry stands behind the one taken out.
    subst leftIs backIs
    have old := linked (front ++ id :: middle) x right (by simp)
    have notLast : front.getLast? ≠ some x := fun isLast =>
      disjoint x (mem_of_getLast? isLast) x (by simp) rfl
    rw [if_neg notLast]
    refine ⟨?_, old.2⟩
    cases middle with
    | nil => simp
    | cons first rest =>
      have other : first ≠ x := by
        intro same
        subst same
        exact (nodup_cons.mp distinctBack).1 (by simp)
      rw [if_neg (by simpa using other), old.1]
      simp [List.getLast?_append]
  · cases middle with
    | nil =>
      -- It is the first one behind.
      rw [append_nil] at frontIs
      rw [nil_append] at restIs
      subst frontIs
      have old := linked (front ++ [id]) x right (by rw [← restIs]; simp)
      have notLast : front.getLast? ≠ some x := fun isLast =>
        disjoint x (mem_of_getLast? isLast) x (by rw [← restIs]; simp) rfl
      rw [if_neg notLast, if_pos (by rw [← restIs]; rfl)]
      exact ⟨rfl, old.2⟩
    | cons first rest =>
      -- It stands before.
      rw [cons_append] at restIs
      obtain ⟨same, rightIs⟩ := List.cons.inj restIs
      subst same rightIs frontIs
      have old := linked left x (rest ++ id :: back) (by simp)
      have notFirst : back.head? ≠ some x := fun isHead =>
        disjoint x (by simp) x (mem_cons_of_mem _ (mem_of_mem_head? isHead)) rfl
      rw [if_neg notFirst]
      refine ⟨old.1, ?_⟩
      cases rest with
      | nil => simp
      | cons second rest =>
        have other : (left ++ x :: second :: rest).getLast? ≠ some x := by
          intro isLast
          have inside : x ∈ second :: rest := by
            refine mem_of_getLast? ?_
            rw [List.getLast?_append_cons, List.getLast?_cons_cons] at isLast
            exact isLast
          have later := (nodup_append.mp distinctFront).2.1
          exact (nodup_cons.mp later).1 inside
        rw [if_neg other, old.2]
        rfl

end DnsCacheState

end Ferrum.Dns
