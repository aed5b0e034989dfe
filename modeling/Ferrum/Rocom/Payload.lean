import Ferrum.Lib.Checks
import Ferrum.Lib.Leb128

namespace Ferrum.Rocom

open List

abbrev WireError := String × Nat

inductive WireValue
  | unsigned (value : Nat)
  | bytes (bytes : List UInt8)
  deriving DecidableEq, Repr

structure WireField where
  field : Nat
  wireType : Nat
  offset : Nat
  raw : List UInt8
  value : WireValue
  deriving DecidableEq, Repr

namespace Payload

variable (input : List UInt8)

/-- The turns of the loop that are left, its shift, the cursor and the value so far. -/
def varintTurns (start : Nat) : Nat → Nat → Nat → Nat → Except WireError (Nat × Nat)
  | 0, _, _, _ => .error ("varint_overflow", start)
  | left + 1, shift, cursor, value =>
    match input[cursor]? with
    | none => .error ("truncated_varint", start)
    | some byte =>
      if shift = 63 ∧ 1 < byte.toNat then .error ("varint_overflow", start)
      else
        let value := value ||| ((byte &&& 127).toNat <<< shift) % 2 ^ 64
        if byte &&& 128 = 0 then .ok (value, cursor + 1) else varintTurns start left (shift + 7) (cursor + 1) value

def varint (cursor : Nat) : Except WireError (Nat × Nat) := varintTurns input cursor 10 0 cursor 0

/-- The next bytes; a sum beyond `usize` is beyond the input too. -/
def take (cursor size : Nat) (code : String) : Except WireError (WireValue × Nat) :=
  if cursor + size ≤ input.length then .ok (.bytes (slice input cursor (cursor + size)), cursor + size)
  else .error (code, cursor)

def wireValue (start wire cursor : Nat) : Except WireError (WireValue × Nat) :=
  match wire with
  | 0 => do
    let (value, cursor) ← varint input cursor
    return (.unsigned value, cursor)
  | 1 => take input cursor 8 "truncated_fixed"
  | 5 => take input cursor 4 "truncated_fixed"
  | 2 => do
    let (size, cursor) ← varint input cursor
    rejectIf (2 ^ 64 ≤ size) ("length_overflow", cursor)
    take input cursor size "truncated_bytes"
  | _ => .error ("unsupported_wire_type", start)

def wireField (start : Nat) : Except WireError (WireField × Nat) := do
  let (tag, cursor) ← varint input start
  let number := tag >>> 3
  rejectIf (number = 0 ∨ 0x1fffffff < number) ("invalid_field_number", start)
  let wire := tag &&& 7
  let (value, cursor) ← wireValue input start wire cursor
  return ({ field := number, wireType := wire, offset := start, raw := slice input start cursor, value }, cursor)

/-- The loop at the cursor, with the number of fields that it may still push. -/
def fieldsTurns : Nat → Nat → Except WireError (List WireField)
  | 0, cursor => if cursor < input.length then .error ("field_limit", cursor) else .ok []
  | left + 1, cursor =>
    if cursor < input.length then do
      let (field, next) ← wireField input cursor
      let rest ← fieldsTurns left next
      return field :: rest
    else .ok []

def fields : Except WireError (List WireField) := fieldsTurns input 65536 0

end Payload

/-- A varint of at most ten bytes, the tenth at most one, with its value in full. -/
structure IsVarint (raw : List UInt8) (value : Nat) : Prop where
  groups : Groups raw
  ten : raw.length ≤ 10
  tenth : ∀ byte, raw[9]? = some byte → byte.toNat ≤ 1
  same : groupsValue raw = value

/-- A complete value of the wire type. -/
inductive IsValue : Nat → List UInt8 → WireValue → Prop
  | varint {raw : List UInt8} {value : Nat} : IsVarint raw value → IsValue 0 raw (.unsigned value)
  | fixed64 {raw : List UInt8} : raw.length = 8 → IsValue 1 raw (.bytes raw)
  | fixed32 {raw : List UInt8} : raw.length = 4 → IsValue 5 raw (.bytes raw)
  | delimited {size raw : List UInt8} : IsVarint size raw.length → IsValue 2 (size ++ raw) (.bytes raw)

/-- A tag with a number in range, and a complete value. -/
structure WireField.WellFormed (field : WireField) : Prop where
  number : 1 ≤ field.field ∧ field.field ≤ 0x1fffffff
  parts : ∃ tag body, field.raw = tag ++ body ∧ IsVarint tag (field.field * 8 + field.wireType) ∧
    IsValue field.wireType body field.value

/-- The fields from an offset on, one after the other. -/
def Adjacent : Nat → List WireField → Prop
  | _, [] => True
  | offset, field :: rest => field.offset = offset ∧ Adjacent (offset + field.raw.length) rest

namespace Payload

variable {input : List UInt8}

theorem continues_iff (byte : UInt8) : byte &&& 128 = 0 ↔ byte.toNat < 128 := by
  have all : ∀ i : Fin 256, UInt8.ofNat i &&& 128 = 0 ↔ i.val < 128 := by decide +kernel
  simpa using all ⟨byte.toNat, byte.toNat_lt⟩

theorem varintTurns_complete {start left shift cursor value : Nat} {raw : List UInt8} (turns : shift + 7 * left = 70)
    (below : value < 2 ^ shift) (before : raw <+: input.drop cursor) (groups : Groups raw) (short : raw.length ≤ left)
    (last : ∀ byte, raw[left - 1]? = some byte → byte.toNat ≤ 1) :
    varintTurns input start left shift cursor value = .ok (value + groupsValue raw * 2 ^ shift, cursor + raw.length) := by
  induction raw generalizing left shift cursor value with
  | nil => exact groups.elim
  | cons byte rest ih =>
    obtain ⟨left, rfl⟩ : ∃ turns, left = turns + 1 := Nat.exists_eq_add_of_le' (Nat.lt_of_lt_of_le (Nat.succ_pos _) short)
    obtain ⟨tail, whole⟩ := before
    have found : input[cursor]? = some byte := by
      have first := congrArg head? whole
      simpa using first.symm
    have after : rest <+: input.drop (cursor + 1) := by
      rw [← drop_drop, ← whole]
      exact prefix_append _ _
    have bit : shift = 63 → byte.toNat ≤ 1 := fun _ => last byte (by simp [show left = 0 by omega])
    rw [varintTurns, found]
    simp only [if_neg (show ¬(shift = 63 ∧ 1 < byte.toNat) by omega),
      or_group below (show shift ≤ 56 ∨ shift = 63 ∧ byte.toNat ≤ 1 by omega), continues_iff]
    cases rest with
    | nil =>
      rw [if_pos (show byte.toNat < 128 from groups)]
      simp [groupsValue]
    | cons next rest =>
      have room := Nat.le_of_succ_le_succ short
      rw [if_neg (Nat.not_lt.mpr groups.1), ih (by omega) (group_lt byte below) after groups.2 room]
      · rw [groupsValue_scale byte (next :: rest), @length_cons _ byte, Nat.add_assoc cursor, Nat.add_comm 1]
      · obtain ⟨left, rfl⟩ : ∃ turns, left = turns + 1 := Nat.exists_eq_add_of_le' (Nat.lt_of_lt_of_le (Nat.succ_pos _) room)
        exact last

variable {start left cursor value next wire : Nat} {raw : List UInt8}

theorem varintTurns_sound {shift result : Nat} (turns : shift + 7 * left = 70)
    (below : value < 2 ^ shift) (run : varintTurns input start left shift cursor value = .ok (result, next)) :
    ∃ raw, raw <+: input.drop cursor ∧ Groups raw ∧ raw.length ≤ left ∧
      (∀ byte, raw[left - 1]? = some byte → byte.toNat ≤ 1) ∧ next = cursor + raw.length ∧
      result = value + groupsValue raw * 2 ^ shift := by
  induction left generalizing shift cursor value with
  | zero => cases run
  | succ left ih =>
    rw [varintTurns] at run
    split at run
    · cases run
    · rename_i byte found
      obtain ⟨inside, here⟩ := List.getElem?_eq_some_iff.mp found
      have unread : input.drop cursor = byte :: input.drop (cursor + 1) := by
        rw [drop_eq_getElem_cons inside, here]
      split at run
      · cases run
      · rename_i fine
        simp only [or_group below (show shift ≤ 56 ∨ shift = 63 ∧ byte.toNat ≤ 1 by omega), continues_iff] at run
        split at run
        · rename_i ends
          cases run
          refine ⟨[byte], by simp [unread], ends, by simp, fun other at_last => ?_, rfl, by simp [groupsValue]⟩
          cases left with
          | zero =>
            obtain rfl : byte = other := by simpa using at_last
            omega
          | succ left => simp at at_last
        · rename_i more
          obtain ⟨raw, before, groups, short, last, rfl, rfl⟩ := ih (by omega) (group_lt byte below) run
          refine ⟨byte :: raw, by simpa [unread] using before, groups.cons (by omega), by simpa using short, ?_,
            by simp [Nat.add_comm, Nat.add_left_comm], (groupsValue_scale ..).symm⟩
          cases raw with
          | nil => exact groups.elim
          | cons other rest =>
            cases left with
            | zero => simp at short
            | succ left => exact last

theorem varint_eq_ok : varint input cursor = .ok (value, next) ↔
      ∃ raw, raw <+: input.drop cursor ∧ IsVarint raw value ∧ next = cursor + raw.length := by
  constructor
  · intro run
    obtain ⟨raw, before, groups, ten, tenth, rfl, rfl⟩ := varintTurns_sound (by decide) (by decide) run
    exact ⟨raw, before, ⟨groups, ten, tenth, by simp⟩, rfl⟩
  · rintro ⟨raw, before, ⟨groups, ten, tenth, rfl⟩, rfl⟩
    unfold varint
    simpa using @varintTurns_complete input cursor 10 0 cursor 0 raw rfl (by decide) before groups ten tenth

theorem slice_of_front (before : raw <+: input.drop start) : slice input start (start + raw.length) = raw := by
  unfold slice
  rw [drop_take, Nat.add_sub_cancel_left]
  exact (prefix_iff_eq_take.mp before).symm

theorem append_prefix_drop {front back : List UInt8} :
    front ++ back <+: input.drop start ↔ front <+: input.drop start ∧ back <+: input.drop (start + front.length) := by
  rw [← drop_drop]
  constructor
  · rintro ⟨rest, whole⟩
    rw [append_assoc] at whole
    rw [← whole, drop_left]
    exact ⟨prefix_append _ _, prefix_append _ _⟩
  · rintro ⟨⟨rest, whole⟩, after⟩
    rw [← whole, drop_left] at after
    rw [← whole]
    exact (prefix_append_right_inj front).mpr after

theorem length_le_of_front (inside : start ≤ input.length)
    (before : raw <+: input.drop start) : start + raw.length ≤ input.length := by
  have short := before.length_le
  rw [length_drop] at short
  omega

variable {size : Nat} {code : String} {field : WireField}

theorem take_eq_ok {value : WireValue} (inside : cursor ≤ input.length) :
    take input cursor size code = .ok (value, next) ↔
      ∃ raw, raw <+: input.drop cursor ∧ raw.length = size ∧ value = .bytes raw ∧ next = cursor + raw.length := by
  unfold take
  constructor
  · intro run
    split at run
    · rename_i fits
      simp only [Except.ok.injEq, Prod.mk.injEq] at run
      obtain ⟨rfl, rfl⟩ := run
      have length : (slice input cursor (cursor + size)).length = size := by
        rw [length_slice]
        omega
      refine ⟨_, ?_, length, rfl, by rw [length]⟩
      unfold slice
      rw [drop_take]
      exact take_prefix _ _
    · cases run
  · rintro ⟨raw, before, rfl, rfl, rfl⟩
    rw [if_pos (length_le_of_front inside before), slice_of_front before]

theorem groupsValue_lt (short : raw.length ≤ left + 1)
    (last : ∀ byte, raw[left]? = some byte → byte.toNat ≤ 1) : groupsValue raw < 128 ^ left * 2 := by
  induction left generalizing raw with
  | zero =>
    match raw, short with
    | [], _ => decide
    | [byte], _ =>
      have bit := last byte rfl
      simp only [groupsValue]
      omega
  | succ left ih =>
    cases raw with
    | nil => exact Nat.mul_pos (Nat.pow_pos (by decide)) (by decide)
    | cons byte rest =>
      have below := ih (Nat.le_of_succ_le_succ short) last
      rw [groupsValue, Nat.pow_succ]
      omega

theorem IsVarint.lt (varint : IsVarint raw value) : value < 2 ^ 64 :=
  varint.same ▸ groupsValue_lt varint.ten varint.tenth

theorem wireValue_eq_ok {value : WireValue} (inside : cursor ≤ input.length) :
    wireValue input start wire cursor = .ok (value, next) ↔
      ∃ body, body <+: input.drop cursor ∧ IsValue wire body value ∧ next = cursor + body.length := by
  constructor
  · intro run
    unfold wireValue at run
    split at run
    · obtain ⟨⟨number, stop⟩, read, rest⟩ := bind_eq_ok.mp run
      cases rest
      obtain ⟨raw, before, varint, rfl⟩ := varint_eq_ok.mp read
      exact ⟨raw, before, .varint varint, rfl⟩
    · obtain ⟨raw, before, length, rfl, rfl⟩ := (take_eq_ok inside).mp run
      exact ⟨raw, before, .fixed64 length, rfl⟩
    · obtain ⟨raw, before, length, rfl, rfl⟩ := (take_eq_ok inside).mp run
      exact ⟨raw, before, .fixed32 length, rfl⟩
    · obtain ⟨⟨size, stop⟩, read, rest⟩ := bind_eq_ok.mp run
      obtain ⟨-, -, taken⟩ := bind_eq_ok.mp rest
      obtain ⟨sizeRaw, before, varint, rfl⟩ := varint_eq_ok.mp read
      obtain ⟨raw, after, rfl, rfl, rfl⟩ := (take_eq_ok (length_le_of_front inside before)).mp taken
      refine ⟨sizeRaw ++ raw, append_prefix_drop.mpr ⟨before, after⟩, .delimited varint, ?_⟩
      rw [length_append, Nat.add_assoc]
    · cases run
  · rintro ⟨body, before, isValue, rfl⟩
    cases isValue with
    | varint varint => exact bind_eq_ok.mpr ⟨_, varint_eq_ok.mpr ⟨_, before, varint, rfl⟩, rfl⟩
    | fixed64 length => exact (take_eq_ok inside).mpr ⟨_, before, length, rfl, rfl⟩
    | fixed32 length => exact (take_eq_ok inside).mpr ⟨_, before, length, rfl, rfl⟩
    | @delimited size raw varint =>
      obtain ⟨front, back⟩ := append_prefix_drop.mp before
      refine bind_eq_ok.mpr ⟨_, varint_eq_ok.mpr ⟨_, front, varint, rfl⟩, bind_eq_ok.mpr ⟨(), ?_, ?_⟩⟩
      · exact rejectIf_eq_ok.mpr (Nat.not_le.mpr (IsVarint.lt varint))
      · refine (take_eq_ok (length_le_of_front inside front)).mpr ⟨raw, back, rfl, rfl, ?_⟩
        rw [length_append, Nat.add_assoc]

theorem isValue_wire {value : WireValue} (isValue : IsValue wire raw value) : wire < 8 := by
  cases isValue <;> decide

theorem wireField_eq_ok (inside : start ≤ input.length) : wireField input start = .ok (field, next) ↔
      field.raw <+: input.drop start ∧ field.WellFormed ∧ field.offset = start ∧ next = start + field.raw.length := by
  have number : ∀ tag : Nat, tag >>> 3 = tag / 8 := fun tag => Nat.shiftRight_eq_div_pow tag 3
  have wire : ∀ tag : Nat, tag &&& 7 = tag % 8 := fun tag => Nat.and_two_pow_sub_one_eq_mod tag 3
  unfold wireField
  simp only [number, wire]
  constructor
  · intro run
    obtain ⟨⟨tag, cursor⟩, read, rest⟩ := bind_eq_ok.mp run
    obtain ⟨_, fine, rest⟩ := bind_eq_ok.mp rest
    obtain ⟨⟨value, stop⟩, valued, made⟩ := bind_eq_ok.mp rest
    cases made
    obtain ⟨raw, before, varint, rfl⟩ := varint_eq_ok.mp read
    obtain ⟨body, after, isValue, rfl⟩ := (wireValue_eq_ok (length_le_of_front inside before)).mp valued
    have whole := append_prefix_drop.mpr ⟨before, after⟩
    have inRange : ¬(tag / 8 = 0 ∨ 0x1fffffff < tag / 8) := rejectIf_eq_ok.mp fine
    have numbered : 1 ≤ tag / 8 ∧ tag / 8 ≤ 0x1fffffff := by omega
    have stop : start + raw.length + body.length = start + (raw ++ body).length := by
      rw [length_append, Nat.add_assoc]
    have same : tag / 8 * 8 + tag % 8 = tag := Nat.div_add_mod' tag 8
    simp only [stop, slice_of_front whole]
    exact ⟨whole, ⟨numbered, raw, body, rfl, by rwa [same], isValue⟩, trivial, trivial⟩
  · rintro ⟨whole, ⟨inRange, tag, body, parts, varint, isValue⟩, rfl, rfl⟩
    obtain ⟨field, wireType, offset, raw, value⟩ := field
    simp only at whole parts varint isValue inRange ⊢
    subst parts
    have small := isValue_wire isValue
    obtain ⟨before, after⟩ := append_prefix_drop.mp whole
    refine bind_eq_ok.mpr ⟨_, varint_eq_ok.mpr ⟨tag, before, varint, rfl⟩, ?_⟩
    simp only [show (field * 8 + wireType) / 8 = field by omega, show (field * 8 + wireType) % 8 = wireType by omega]
    refine bind_eq_ok.mpr ⟨(), rejectIf_eq_ok.mpr (by omega), bind_eq_ok.mpr ⟨(value, offset + (tag ++ body).length), ?_, ?_⟩⟩
    · refine (wireValue_eq_ok (length_le_of_front inside before)).mpr ⟨body, after, isValue, ?_⟩
      rw [length_append, Nat.add_assoc]
    · rw [slice_of_front whole]
      rfl

theorem WireField.WellFormed.raw_ne_nil (wellFormed : field.WellFormed) : field.raw ≠ [] := by
  obtain ⟨tag, body, parts, varint, -⟩ := wellFormed.parts
  intro empty
  rw [parts, append_eq_nil_iff] at empty
  have groups := varint.groups
  rw [empty.1] at groups
  exact groups

/-- At the end of the input no field is left, since a field has bytes. -/
theorem ended_iff {fields : List WireField} (finished : ¬cursor < input.length) :
    (.ok [] : Except WireError _) = .ok fields ↔ fields.length ≤ left ∧ (∀ field ∈ fields, field.WellFormed) ∧
      Adjacent cursor fields ∧ fields.flatMap WireField.raw = input.drop cursor := by
  rw [drop_eq_nil_of_le (by omega)]
  cases fields with
  | nil => simp [Adjacent]
  | cons field rest =>
    simp only [Except.ok.injEq, reduceCtorEq, flatMap_cons, append_eq_nil_iff, false_iff]
    exact fun all => WireField.WellFormed.raw_ne_nil (all.2.1 field (mem_cons_self ..)) all.2.2.2.1

theorem fieldsTurns_eq_ok {fields : List WireField} (inside : cursor ≤ input.length) :
    fieldsTurns input left cursor = .ok fields ↔
      fields.length ≤ left ∧ (∀ field ∈ fields, field.WellFormed) ∧ Adjacent cursor fields ∧
        fields.flatMap WireField.raw = input.drop cursor := by
  induction left generalizing cursor fields with
  | zero =>
    rw [fieldsTurns]
    split
    · rename_i more
      simp only [reduceCtorEq, false_iff, Nat.le_zero, length_eq_zero_iff]
      rintro ⟨rfl, -, -, whole⟩
      have length := congrArg List.length whole
      simp at length
      omega
    · rename_i finished
      exact ended_iff finished
  | succ left ih =>
    rw [fieldsTurns]
    split
    · rename_i more
      constructor
      · intro run
        obtain ⟨⟨field, next⟩, first, run⟩ := bind_eq_ok.mp run
        obtain ⟨rest, turns, made⟩ := bind_eq_ok.mp run
        cases made
        obtain ⟨before, wellFormed, offset, rfl⟩ := (wireField_eq_ok inside).mp first
        have within := length_le_of_front inside before
        obtain ⟨few, all, adjacent, whole⟩ := (ih within).mp turns
        refine ⟨Nat.succ_le_succ few, forall_mem_cons.mpr ⟨wellFormed, all⟩, ⟨offset, adjacent⟩, ?_⟩
        rw [flatMap_cons, whole, ← drop_drop]
        exact prefix_iff_eq_append.mp before
      · rintro ⟨few, all, adjacent, whole⟩
        cases fields with
        | nil =>
          have length := congrArg List.length whole
          simp at length
          omega
        | cons field rest =>
          obtain ⟨wellFormed, all⟩ := forall_mem_cons.mp all
          obtain ⟨before, after⟩ : field.raw <+: input.drop cursor ∧
              rest.flatMap WireField.raw = input.drop (cursor + field.raw.length) := by
            rw [← drop_drop, ← whole, flatMap_cons, drop_left]
            exact ⟨prefix_append _ _, rfl⟩
          have within := length_le_of_front inside before
          exact bind_eq_ok.mpr ⟨_, (wireField_eq_ok inside).mpr ⟨before, wellFormed, adjacent.1, rfl⟩,
            bind_eq_ok.mpr ⟨rest, (ih within).mpr ⟨Nat.le_of_succ_le_succ few, all, adjacent.2, after⟩, rfl⟩⟩
    · rename_i finished
      exact ended_iff finished

theorem varint_onlyFails (cursor : Nat) : OnlyFails (varint input cursor) fun error => error.2 = cursor := by
  unfold varint
  suffices turns : ∀ left shift stop value, OnlyFails (varintTurns input cursor left shift stop value) fun error => error.2 = cursor from
    turns 10 0 cursor 0
  intro left
  induction left with
  | zero => exact fun _ _ _ => .error rfl
  | succ left ih =>
    intro shift stop value
    rw [varintTurns]
    split
    · exact .error rfl
    · split
      · exact .error rfl
      · dsimp only
        split
        · exact .ok _
        · exact ih _ _ _

theorem take_onlyFails : OnlyFails (take input cursor size code) fun error => error.2 = cursor := by
  unfold take
  split
  · exact .ok _
  · exact .error rfl

theorem wireValue_onlyFails (begun : start ≤ input.length) (inside : cursor ≤ input.length) :
    OnlyFails (wireValue input start wire cursor) fun error => error.2 ≤ input.length := by
  have here : ∀ error : WireError, error.2 = cursor → error.2 ≤ input.length := fun _ same => same.trans_le inside
  unfold wireValue
  split
  · exact ((varint_onlyFails cursor).mono here).bind fun _ _ => .ok _
  · exact take_onlyFails.mono here
  · exact take_onlyFails.mono here
  · refine ((varint_onlyFails cursor).mono here).bind fun read same => ?_
    obtain ⟨raw, before, -, stop⟩ := varint_eq_ok.mp same
    have within := length_le_of_front inside before
    exact .guarded (fun _ => by omega) fun _ => take_onlyFails.mono fun _ same => by omega
  · exact .error begun

theorem fieldsTurns_onlyFails (inside : cursor ≤ input.length) :
    OnlyFails (fieldsTurns input left cursor) fun error => error.2 ≤ input.length := by
  induction left generalizing cursor with
  | zero =>
    rw [fieldsTurns]
    split
    · exact .error inside
    · exact .ok _
  | succ left ih =>
    rw [fieldsTurns]
    split
    · refine .bind ?_ fun read same => (ih ?_).bind fun _ _ => .ok _
      · refine ((varint_onlyFails cursor).mono fun _ same => same.trans_le inside).bind fun read same => .guarded (fun _ => inside) fun _ => ?_
        obtain ⟨raw, before, -, stop⟩ := varint_eq_ok.mp same
        exact (wireValue_onlyFails inside (stop ▸ length_le_of_front inside before)).bind fun _ _ => .ok _
      · obtain ⟨before, -, -, stop⟩ := (wireField_eq_ok inside).mp same
        exact stop ▸ length_le_of_front inside before
    · exact .ok _

/-- The splitter accepts exactly the sequences of at most 65536 complete fields, and gives each with its bytes and offset; an
error is inside the input. -/
theorem fields_partition (input : List UInt8) :
    (∀ found, fields input = .ok found ↔ found.length ≤ 65536 ∧ (∀ field ∈ found, field.WellFormed) ∧ Adjacent 0 found ∧
      found.flatMap WireField.raw = input) ∧
    OnlyFails (fields input) fun error => error.2 ≤ input.length :=
  ⟨fun _ => fieldsTurns_eq_ok (Nat.zero_le _), fieldsTurns_onlyFails (Nat.zero_le _)⟩

end Payload

end Ferrum.Rocom
