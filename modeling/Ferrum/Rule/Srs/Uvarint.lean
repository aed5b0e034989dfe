import Ferrum.Lib.Leb128
import Ferrum.Rule.Srs.Primitives

namespace Ferrum.Rule.Srs

open Stateful (Ensures)

/-- The limits leave so many more bytes to decode. -/
def DecodeContext.Affords {R : Type} (context : DecodeContext R) (count : Nat) : Prop :=
  context.used .decodedBytes + count ≤ context.limits.maximum .decodedBytes ∧
    context.used .work + count ≤ context.limits.maximum .work

theorem requirePayload_ensures {R : Type} {context : DecodeContext R} {count : Nat}
    {good : Unit → DecodeContext R → Prop} {bad : Halt SrsError → DecodeContext R → Prop}
    (fits : context.used .decodedBytes + count ≤ context.limits.maximum .decodedBytes → good () context)
    (refused : ∀ error, ¬context.Affords count → bad (.error error) context) :
    (requirePayload count).Ensures context good bad := by
  have admitted := context.admitted .decodedBytes
  unfold requirePayload require
  refine .bind ?_
  unfold Ensures remaining
  rw [if_pos admitted]
  refine Ensures.failIf (fun enough => fits (by omega)) fun short => refused _ fun affords => ?_
  have room := affords.1
  omega

theorem charge_ensures {R : Type} {context : DecodeContext R} {kind : SrsLimitKind} {amount : Nat} (small : amount < 2 ^ 32)
    {good : Unit → DecodeContext R → Prop} {bad : Halt SrsError → DecodeContext R → Prop}
    (fits : ∀ after, context.used kind + amount ≤ context.limits.maximum kind → after.limits = context.limits →
      after.reader = context.reader → after.used = Function.update context.used kind (context.used kind + amount) → good () after)
    (refused : ∀ error, context.limits.maximum kind < context.used kind + amount → bad (.error error) context) :
    (charge kind amount).Ensures context good bad := by
  unfold Ensures
  by_cases room : context.used kind + amount ≤ context.limits.maximum kind
  · obtain ⟨after, run, limits, reader, used⟩ := charge_fits room
    rw [run]
    exact fits after room limits reader used
  · rw [charge_over small (by omega)]
    exact refused _ (by omega)

/-- A byte is read if there is one and the limits leave it. -/
theorem readByte_ensures (context : DecodeContext (List UInt8)) :
    readByte.Ensures context
      (fun byte after => context.reader = byte :: after.reader ∧ ∀ more, after.Affords more ↔ context.Affords (1 + more))
      fun halt _ => (∃ error, halt = .error error) ∧ (context.reader = [] ∨ ¬context.Affords 1) := by
  unfold readByte readExact
  refine .bind (.bind (requirePayload_ensures (fun room => .bind ?_) fun error short => ⟨⟨_, rfl⟩, .inr short⟩))
  refine charge_ensures (by decide) (fun worked workRoom limits reader used => .bind ?_) fun error beyond => ⟨⟨_, rfl⟩, .inr ?_⟩
  · unfold Ensures fillExact
    rw [reader]
    cases unread : context.reader with
    | nil => exact ⟨⟨_, rfl⟩, .inl rfl⟩
    | cons byte rest =>
      refine Ensures.bind (charge_ensures (by decide) (fun after fits limits' reader' used' => ?_) fun error beyond => ?_)
      · refine ⟨by rw [reader']; rfl, fun more => ?_⟩
        unfold DecodeContext.Affords
        rw [limits', used']
        simp [DecodeContext.withReader, limits, used]
        omega
      · simp [DecodeContext.withReader, limits, used] at beyond
        omega
  · intro affords
    have room := affords.2
    omega

/-- Reads the LEB128 form of some number `rest`, of which the bits above `value` are. -/
theorem uvarintTurns_ensures {left index value : Nat} (turns : index + left = 10) (below : value < 2 ^ (index * 7))
    (context : DecodeContext (List UInt8)) :
    (uvarintTurns left index value).Ensures context
      (fun result after => ∃ rest, (index = 0 ∨ rest ≠ 0) ∧ result = value + rest * 2 ^ (index * 7) ∧ result < 2 ^ 64 ∧
        context.reader = leb128 rest ++ after.reader)
      fun halt _ => (∃ error, halt = .error error) ∧ ∀ rest tail, (index = 0 ∨ rest ≠ 0) →
        value + rest * 2 ^ (index * 7) < 2 ^ 64 → context.Affords (leb128 rest).length →
        context.reader ≠ leb128 rest ++ tail := by
  induction left generalizing index value context with
  | zero =>
    refine ⟨⟨_, rfl⟩, fun rest tail positive fits _ _ => ?_⟩
    rw [show index = 10 by omega] at fits
    omega
  | succ left ih =>
    rw [uvarintTurns]
    refine .bind ((readByte_ensures context).mono (fun byte after read => ?_) fun halt _ stopped => ⟨stopped.1, ?_⟩)
    · obtain ⟨reader, affords⟩ := read
      rw [reader]
      refine .bind (.failIf (fun fine => ?_) fun beyond => ⟨⟨_, rfl⟩, ?_⟩)
      · have turn : index * 7 ≤ 56 ∨ index * 7 = 63 ∧ byte.toNat ≤ 1 := by
          rw [UInt8.lt_iff_toNat_lt, UInt8.toNat_one] at fine
          omega
        simp only [or_group below turn]
        split
        · rename_i ends
          replace ends : byte.toNat < 128 := UInt8.lt_iff_toNat_lt.mp ends
          refine .bind (.failIf (fun canonical => ?_) fun padded => ⟨⟨_, rfl⟩, ?_⟩)
          · have whole := group_sum_lt below turn
            rw [Nat.mod_eq_of_lt ends] at whole ⊢
            refine ⟨byte.toNat, ?_, rfl, whole, by rw [leb128_small ends, UInt8.ofNat_toNat]; rfl⟩
            rw [← UInt8.toNat_inj, UInt8.toNat_zero] at canonical
            omega
          · intro rest tail positive _ _ same
            rw [← UInt8.toNat_inj, UInt8.toNat_zero] at padded
            have shape := leb128_cons same
            omega
        · rename_i more
          replace more : 128 ≤ byte.toNat := Nat.not_lt.mp fun less => more (UInt8.lt_iff_toNat_lt.mpr less)
          have next := group_lt byte below
          rw [← Nat.succ_mul] at next
          have scale : ∀ rest, value + byte.toNat % 128 * 2 ^ (index * 7) + rest * 2 ^ ((index + 1) * 7) =
              value + (byte.toNat % 128 + 128 * rest) * 2 ^ (index * 7) := by
            intro rest
            rw [Nat.succ_mul, Nat.pow_add]
            ring
          refine (ih (by omega) next after).mono (fun result last found => ?_) fun halt _ stopped => ⟨stopped.1, ?_⟩
          · obtain ⟨rest, positive, same, small, unread⟩ := found
            refine ⟨byte.toNat % 128 + 128 * rest, .inr (by omega), same.trans (scale rest), small, ?_⟩
            rw [leb128_byte more (by omega), unread]
            rfl
          · intro rest tail positive fits room same
            rcases leb128_cons same with ⟨small, number, -⟩ | ⟨large, number, unread⟩
            · omega
            · refine stopped.2 (rest / 128) tail (.inr (by omega)) ?_ ((affords _).mpr ?_) unread
              · rw [scale, show byte.toNat % 128 + 128 * (rest / 128) = rest by omega]
                exact fits
              · rw [leb128, if_neg (by omega), List.length_cons, Nat.add_comm] at room
                exact room
      · intro rest tail positive fits _ same
        rw [UInt8.lt_iff_toNat_lt, UInt8.toNat_one] at beyond
        obtain ⟨rfl, large⟩ := beyond
        have shape := leb128_cons same
        omega
    · intro rest tail _ _ room same
      have length := congrArg List.length same
      have positive : 0 < (leb128 rest).length := by
        rw [leb128]
        split
        · exact Nat.succ_pos _
        · exact Nat.succ_pos _
      rcases stopped.2 with empty | short
      · rw [empty, List.length_nil, List.length_append] at length
        omega
      · exact short ⟨by have fits := room.1; omega, by have fits := room.2; omega⟩

/-- A number below `2 ^ 64` is read from one byte string only, its LEB128 form without trailing zero groups; what follows
is left, and every other input is an error. -/
theorem readUvarint_canonical (context : DecodeContext (List UInt8)) :
    (∀ raw rest value, context.reader = raw ++ rest → context.Affords raw.length → value < 2 ^ 64 →
      ((∃ after, readUvarint context = (.ok value, after) ∧ after.reader = rest) ↔ raw = leb128 value)) ∧
    (∀ value after, readUvarint context = (.ok value, after) → value < 2 ^ 64 ∧ context.reader = leb128 value ++ after.reader) ∧
    ((∀ value < 2 ^ 64, ∀ rest, context.reader ≠ leb128 value ++ rest) →
      ∃ error after, readUvarint context = (Checked.fail error, after)) ∧
    ∀ value < 2 ^ 64, (leb128 value).length ≤ 10 := by
  have turns := uvarintTurns_ensures (show 0 + 10 = 10 from rfl) (show 0 < 2 ^ (0 * 7) by decide) context
  have read : ∀ value after, readUvarint context = (.ok value, after) →
      value < 2 ^ 64 ∧ context.reader = leb128 value ++ after.reader := by
    intro value after run
    obtain ⟨rest, -, same, small, reader⟩ := turns.ok run
    simp only [Nat.zero_mul, Nat.pow_zero, Nat.mul_one, Nat.zero_add] at same
    exact ⟨small, same ▸ reader⟩
  refine ⟨fun raw rest value split affords small => ⟨?_, ?_⟩, read, fun unread => ?_, fun value small => ?_⟩
  · rintro ⟨after, run, rfl⟩
    exact List.append_cancel_right (split.symm.trans (read value after run).2)
  · rintro rfl
    cases run : readUvarint context with
    | mk result after =>
      cases result with
      | ok found =>
        obtain ⟨rfl, reader⟩ := leb128_append_inj (split.symm.trans (read found after run).2)
        exact ⟨after, rfl, reader.symm⟩
      | error halt => exact absurd split ((turns.error run).2 value rest (.inl rfl) (by simpa using small) affords)
  · cases run : readUvarint context with
    | mk result after =>
      cases result with
      | ok found => exact absurd (read found after run).2 (unread found (read found after run).1 _)
      | error halt =>
        obtain ⟨⟨error, rfl⟩, -⟩ := turns.error run
        exact ⟨error, after, rfl⟩
  · exact length_leb128_le (by decide) (small.trans (by decide))

def sampleContext : DecodeContext (List UInt8) := .new [0x96, 0x01, 7] .default

theorem sampleContext_read :
    (∃ after, readUvarint sampleContext = (.ok 150, after) ∧ after.reader = [7]) ∧ (leb128 150).length ≤ 10 := by
  have read := readUvarint_canonical sampleContext
  refine ⟨(read.1 [0x96, 0x01] [7] 150 rfl ⟨by decide, by decide⟩ (by decide)).mpr ?_, read.2.2.2 150 (by decide)⟩
  rw [leb128, if_neg (by decide), leb128_small (by decide)]
  decide

end Ferrum.Rule.Srs
