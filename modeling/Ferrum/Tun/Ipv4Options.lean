import Ferrum.Tun.PacketParser
import Ferrum.Tun.Reassembly

namespace Ferrum.Tun

open List

/-- An option of an IPv4 header: the one-byte no-operation, or a kind with its data. -/
inductive Ipv4Option
  | noOperation
  | option (kind : UInt8) (data : List UInt8)

namespace Ipv4Option

def bytes : Ipv4Option → List UInt8
  | noOperation => [1]
  | option kind data => kind :: UInt8.ofNat (data.length + 2) :: data

def Valid : Ipv4Option → Prop
  | noOperation => True
  | option kind data => kind ≠ 0 ∧ kind ≠ 1 ∧ data.length + 2 < 256

def isOption : Ipv4Option → Bool
  | noOperation => false
  | option _ _ => true

/-- The option stands in every fragment. -/
def copied : Ipv4Option → Bool
  | noOperation => false
  | option kind _ => kind &&& 0x80 != 0

def Refused (refused : UInt8 → Option PacketRejectReason) : Ipv4Option → Prop
  | noOperation => False
  | option kind _ => refused kind ≠ none

end Ipv4Option

/-- The option area of a header: its options and the zeros that pad it. -/
structure OptionsOf (area : List UInt8) (options : List Ipv4Option) : Prop where
  valid : ∀ option ∈ options, option.Valid
  padded : ∃ padding, area = options.flatMap Ipv4Option.bytes ++ List.replicate padding 0

/-- The area carries the options of another that are copied into every fragment, and no others. -/
def CarriesCopied (original area : List UInt8) : Prop :=
  ∃ options carried, OptionsOf original options ∧ OptionsOf area carried ∧
    carried.filter Ipv4Option.isOption = options.filter Ipv4Option.copied

section Reading

variable {bytes tail data : List UInt8} {cursor : Nat} {kind : UInt8}

theorem drop_eq_cons {first : UInt8} (rest : bytes.drop cursor = first :: tail) :
    cursor < bytes.length ∧ byte bytes cursor = first ∧ bytes[cursor]? = some first ∧ bytes.drop (cursor + 1) = tail := by
  have inside : cursor < bytes.length := by
    by_contra outside
    rw [drop_eq_nil_of_le (by omega)] at rest
    simp at rest
  rw [drop_eq_getElem_cons inside] at rest
  obtain ⟨same, after⟩ := List.cons.inj rest
  refine ⟨inside, ?_, ?_, after⟩
  · rw [byte, getD_eq_getElem?_getD, List.getElem?_eq_getElem inside]
    exact same
  · rw [List.getElem?_eq_getElem inside, same]

theorem drop_eq_option (valid : (Ipv4Option.option kind data).Valid)
    (rest : bytes.drop cursor = (Ipv4Option.option kind data).bytes ++ tail) :
    cursor < bytes.length ∧ byte bytes cursor = kind ∧ bytes[cursor + 1]? = some (UInt8.ofNat (data.length + 2)) ∧
      (UInt8.ofNat (data.length + 2)).toNat = data.length + 2 ∧ cursor + (data.length + 2) ≤ bytes.length ∧
      slice bytes cursor (cursor + (data.length + 2)) = (Ipv4Option.option kind data).bytes ∧
      bytes.drop (cursor + (data.length + 2)) = tail := by
  obtain ⟨inside, first, _, after⟩ := drop_eq_cons rest
  obtain ⟨_, _, second, _⟩ := drop_eq_cons after
  have long : (Ipv4Option.option kind data).bytes.length = data.length + 2 := rfl
  have total : bytes.length = cursor + (data.length + 2) + tail.length := by
    have length := congrArg List.length rest
    rw [length_drop, length_append, long] at length
    omega
  refine ⟨inside, first, second, ?_, by omega, ?_, ?_⟩
  · rw [UInt8.toNat_ofNat']
    exact Nat.mod_eq_of_lt valid.2.2
  · rw [slice, drop_take, rest, Nat.add_sub_cancel_left, ← long, take_left]
  · rw [← drop_drop, rest, ← long, drop_left]

theorem drop_option {length : UInt8} (inside : cursor < bytes.length) (next : bytes[cursor + 1]? = some length)
    (long : 2 ≤ length.toNat) (fits : cursor + length.toNat ≤ bytes.length) :
    bytes.drop cursor =
      (Ipv4Option.option (byte bytes cursor) (slice bytes (cursor + 2) (cursor + length.toNat))).bytes ++
        bytes.drop (cursor + length.toNat) := by
  have second : cursor + 1 < bytes.length := by omega
  have size : (slice bytes (cursor + 2) (cursor + length.toNat)).length + 2 = length.toNat := by
    rw [length_slice]
    omega
  have split : bytes.drop (cursor + 2) =
      slice bytes (cursor + 2) (cursor + length.toNat) ++ bytes.drop (cursor + length.toNat) := by
    have parts := take_append_drop (length.toNat - 2) (bytes.drop (cursor + 2))
    have stop : cursor + 2 + (length.toNat - 2) = cursor + length.toNat := by omega
    have count : cursor + length.toNat - (cursor + 2) = length.toNat - 2 := by omega
    rw [drop_drop, stop] at parts
    rw [slice, drop_take, count]
    exact parts.symm
  rw [drop_eq_getElem_cons inside, drop_eq_getElem_cons second, split]
  rw [List.getElem?_eq_getElem second] at next
  simp only [Ipv4Option.bytes, size, UInt8.ofNat_toNat, cons_append, List.cons.injEq, and_true]
  refine ⟨?_, Option.some.inj next⟩
  simp [byte, getD_eq_getElem?_getD, inside]

end Reading

variable {area : List UInt8} {turns : Nat}

variable {malformed : PacketRejectReason} {refused : UInt8 → Option PacketRejectReason} {cursor padding : Nat}
  {header : List UInt8} {first : Bool}

theorem optionsLoop_sound
    (enough : area.length < cursor + turns) (accepted : optionsLoop malformed refused area turns cursor = .ok ()) :
    ∃ options, OptionsOf (area.drop cursor) options := by
  induction turns generalizing cursor with
  | zero =>
    rw [drop_eq_nil_of_le (by omega)]
    exact ⟨[], by simp, 0, rfl⟩
  | succ turns ih =>
    rw [optionsLoop] at accepted
    split at accepted
    · rename_i outside
      rw [drop_eq_nil_of_le outside]
      exact ⟨[], by simp, 0, rfl⟩
    · rename_i inside
      have some : cursor < area.length := by omega
      split at accepted
      · rename_i zero
        split at accepted
        · simp at accepted
        · rename_i zeros
          refine ⟨[], by simp, area.length - cursor, ?_⟩
          rw [flatMap_nil, nil_append, eq_replicate_iff, length_drop]
          refine ⟨rfl, ?_⟩
          rw [drop_eq_getElem_cons some]
          intro value member
          rcases mem_cons.mp member with rfl | later
          · simpa [byte, getD_eq_getElem?_getD, some] using zero
          · by_contra nonzero
            exact zeros (any_eq_true.mpr ⟨value, later, by simpa using nonzero⟩)
      · rename_i nonzero
        split at accepted
        · rename_i one
          obtain ⟨options, valid, padding, same⟩ := ih (by omega) accepted
          refine ⟨.noOperation :: options, ?_, padding, ?_⟩
          · exact forall_mem_cons.mpr ⟨trivial, valid⟩
          · rw [drop_eq_getElem_cons some, same]
            have first : area[cursor] = 1 := by simpa [byte, getD_eq_getElem?_getD, some] using one
            rw [first]
            rfl
        · rename_i other
          split at accepted
          · simp at accepted
          · rename_i length next
            split at accepted
            · simp at accepted
            · rename_i fits
              split at accepted
              · simp at accepted
              · obtain ⟨options, valid, padding, same⟩ := ih (by omega) accepted
                have shape := drop_option some next (by omega) (by omega)
                have small := length.toNat_lt
                refine ⟨.option (byte area cursor) (slice area (cursor + 2) (cursor + length.toNat)) :: options,
                  forall_mem_cons.mpr ⟨⟨nonzero, other, ?_⟩, valid⟩, padding, ?_⟩
                · rw [length_slice]
                  omega
                · rw [shape, same, flatMap_cons, append_assoc]

variable {options : List Ipv4Option}

theorem optionsLoop_eq_ok (enough : area.length < cursor + turns)
    (shape : area.drop cursor = options.flatMap Ipv4Option.bytes ++ List.replicate padding 0)
    (valid : ∀ option ∈ options, option.Valid) :
    optionsLoop malformed refused area turns cursor = .ok () ↔ ∀ option ∈ options, ¬option.Refused refused := by
  induction options generalizing turns cursor with
  | nil =>
    simp only [not_mem_nil, false_implies, implies_true, iff_true]
    cases turns with
    | zero => rfl
    | succ turns =>
      rw [optionsLoop]
      split
      · rfl
      · rename_i inside
        cases padding with
        | zero =>
          have length := congrArg List.length shape
          simp at length
          omega
        | succ padding =>
          obtain ⟨_, zero, _, after⟩ := drop_eq_cons shape
          rw [if_pos zero, after]
          simp
  | cons option rest ih =>
    obtain ⟨validOption, validRest⟩ := forall_mem_cons.mp valid
    rw [flatMap_cons, append_assoc] at shape
    rw [forall_mem_cons]
    cases turns with
    | zero =>
      rw [drop_eq_nil_of_le (by omega)] at shape
      cases option <;> simp [Ipv4Option.bytes] at shape
    | succ turns =>
      rw [optionsLoop]
      cases option with
      | noOperation =>
        obtain ⟨inside, one, _, after⟩ := drop_eq_cons shape
        rw [if_neg (by omega), one, if_neg (by decide), if_pos rfl, ih (by omega) after validRest]
        simp [Ipv4Option.Refused]
      | option kind data =>
        obtain ⟨inside, first, next, size, fits, _, after⟩ := drop_eq_option validOption shape
        rw [if_neg (by omega), first, if_neg validOption.1, if_neg validOption.2.1, next]
        dsimp only
        rw [size, if_neg (by omega)]
        split
        · rename_i reason found
          simp [Ipv4Option.Refused, found]
        · rename_i permitted
          rw [ih (by omega) after validRest]
          simp [Ipv4Option.Refused, permitted]

theorem copiedOptionsLoop_eq (written : List UInt8) (enough : header.length < cursor + turns)
    (shape : header.drop cursor = options.flatMap Ipv4Option.bytes ++ List.replicate padding 0)
    (valid : ∀ option ∈ options, option.Valid)
    (allowed : first = true ∨ ∀ option ∈ options, option.isOption = true → option.copied = true) :
    copiedOptionsLoop header first turns cursor written =
      some (written ++ (options.filter Ipv4Option.copied).flatMap Ipv4Option.bytes) := by
  induction options generalizing turns cursor written with
  | nil =>
    rw [filter_nil, flatMap_nil, append_nil]
    cases turns with
    | zero => rfl
    | succ turns =>
      rw [copiedOptionsLoop]
      split
      · rfl
      · rename_i inside
        cases padding with
        | zero =>
          have length := congrArg List.length shape
          simp at length
          omega
        | succ padding =>
          obtain ⟨_, zero, _, after⟩ := drop_eq_cons shape
          rw [if_pos zero, after]
          simp
  | cons option rest ih =>
    obtain ⟨validOption, validRest⟩ := forall_mem_cons.mp valid
    have allowedRest : first = true ∨ ∀ option ∈ rest, option.isOption = true → option.copied = true :=
      allowed.imp_right fun every other member => every other (mem_cons_of_mem _ member)
    rw [flatMap_cons, append_assoc] at shape
    cases turns with
    | zero =>
      rw [drop_eq_nil_of_le (by omega)] at shape
      cases option <;> simp [Ipv4Option.bytes] at shape
    | succ turns =>
      rw [copiedOptionsLoop]
      cases option with
      | noOperation =>
        obtain ⟨inside, one, _, after⟩ := drop_eq_cons shape
        rw [if_neg (by omega), one, if_neg (by decide), if_pos rfl]
        exact ih _ (by omega) after validRest allowedRest
      | option kind data =>
        obtain ⟨inside, kindAt, next, size, fits, whole, after⟩ := drop_eq_option validOption shape
        rw [if_neg (by omega), kindAt, if_neg validOption.1, if_neg validOption.2.1, next]
        dsimp only
        rw [size, if_neg (by omega), whole]
        split
        · rename_i copied
          rw [ih _ (by omega) after validRest allowedRest, filter_cons_of_pos (by simpa [Ipv4Option.copied] using copied),
            flatMap_cons, append_assoc]
        · rename_i kept
          have plain : (Ipv4Option.option kind data).copied = false := by simpa [Ipv4Option.copied] using kept
          rw [filter_cons_of_neg (by simp [plain])]
          split
          · exact ih _ (by omega) after validRest allowedRest
          · rename_i later
            rcases allowed with isFirst | every
            · exact absurd isFirst later
            · exact absurd (every _ mem_cons_self rfl) (by simp [plain])

theorem normalizedIpv4Header_eq (lengths : 20 ≤ header.length ∧ header.length ≤ 60)
    (words : header.length % 4 = 0) (shape : OptionsOf (header.drop 20) options)
    (allowed : first = true ∨ ∀ option ∈ options, option.isOption = true → option.copied = true) :
    normalizedIpv4Header header first =
      some (normalizedFixedHeader header ++ (options.filter Ipv4Option.copied).flatMap Ipv4Option.bytes) := by
  obtain ⟨valid, padding, padded⟩ := shape
  unfold normalizedIpv4Header
  rw [if_neg (by omega)]
  exact copiedOptionsLoop_eq _ (by omega) padded valid allowed

theorem OptionsOf.copied_unique {first second : List Ipv4Option} (left : OptionsOf area first)
    (right : OptionsOf area second) : (first.filter Ipv4Option.copied).flatMap Ipv4Option.bytes =
      (second.filter Ipv4Option.copied).flatMap Ipv4Option.bytes := by
  obtain ⟨leftValid, leftPadding, leftPadded⟩ := left
  obtain ⟨rightValid, rightPadding, rightPadded⟩ := right
  have enough : area.length < 0 + (area.length + 1) := by omega
  have one := copiedOptionsLoop_eq [] enough (drop_zero.trans leftPadded) leftValid (.inl rfl)
  have two := copiedOptionsLoop_eq [] enough (drop_zero.trans rightPadded) rightValid (.inl rfl)
  exact Option.some.inj (one.symm.trans two)

theorem validateIpv4Options_options (accepted : validateIpv4Options area = .ok ()) : ∃ options, OptionsOf area options := by
  obtain ⟨options, shape⟩ := optionsLoop_sound (by omega) accepted
  exact ⟨options, by simpa using shape⟩

theorem CarriesCopied.accepted {original : List UInt8} (carries : CarriesCopied original area)
    (accepted : validateIpv4Options original = .ok ()) : validateIpv4Options area = .ok () := by
  obtain ⟨options, carried, ⟨valid, padding, padded⟩, ⟨carriedValid, carriedPadding, carriedPadded⟩, same⟩ := carries
  refine (optionsLoop_eq_ok (by omega) (drop_zero.trans carriedPadded) carriedValid).mpr ?_
  intro option member
  cases shape : option with
  | noOperation => exact id
  | option kind data =>
    rw [← shape]
    have copied : option ∈ options.filter Ipv4Option.copied := by
      rw [← same]
      exact mem_filter.mpr ⟨member, by simp [shape, Ipv4Option.isOption]⟩
    exact (optionsLoop_eq_ok (by omega) (drop_zero.trans padded) valid).mp accepted option (mem_filter.mp copied).1

theorem carried_filter {carried : List Ipv4Option}
    (same : carried.filter Ipv4Option.isOption = options.filter Ipv4Option.copied) :
    carried.filter Ipv4Option.copied = options.filter Ipv4Option.copied ∧
      ∀ option ∈ carried, option.isOption = true → option.copied = true := by
  have every : ∀ option ∈ carried, option.isOption = true → option.copied = true := by
    intro option member isOption
    have inside : option ∈ options.filter Ipv4Option.copied := same ▸ mem_filter.mpr ⟨member, isOption⟩
    exact (mem_filter.mp inside).2
  refine ⟨?_, every⟩
  rw [← same]
  refine filter_congr ?_
  intro option member
  cases shape : option with
  | noOperation => rfl
  | option kind data =>
    rw [← shape, every option member (by simp [shape, Ipv4Option.isOption])]
    simp [shape, Ipv4Option.isOption]

end Ferrum.Tun
