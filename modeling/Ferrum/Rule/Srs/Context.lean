import Ferrum.Lib.Stateful
import Ferrum.Rule.SparseIndex

namespace Ferrum.Rule.Srs

open Function

/-- A matcher of a well-formed rule that is rejected on purpose. -/
inductive UnsupportedSrsMatcher where
  | queryType | network | domainRegex | sourceIpCidr | sourcePort | sourcePortRange | port | portRange | processName
  | processPath | processPathRegex | packageName | packageNameRegex | wifiSsid | wifiBssid | adGuardDomain | networkType
  | networkIsExpensive | networkIsConstrained | networkInterfaceAddress | defaultInterfaceAddress | logicalRule | invert
deriving DecidableEq, Repr

inductive SrsErrorKind where
  | io | invalidMagic | unsupportedVersion | compression | truncated | nonCanonicalVarint | integerOverflow | allocation
  | invalidLimits | limitExceeded | invalidRuleType | invalidLogicalMode | logicalDepth | invalidItem | duplicateItem
  | invalidBoolean | invalidUtf8 | invalidDomainSet | invalidIpSet | unsupportedMatcher | empty | trailingPayload
  | trailingFileData | compile
deriving DecidableEq, Repr

/-- The dimensions that are admitted before anything is expanded. -/
inductive SrsLimitKind where
  | encodedBytes | decodedBytes | rules | entries | collection | domainNodes | domainDepth | logicalDepth | expandedBytes
  | keywordBytes | keywordLength | unsupportedStringBytes | work
deriving DecidableEq, Repr

def SrsLimitKind.defaultMaximum : SrsLimitKind → Nat
  | .encodedBytes | .expandedBytes => 64 * 1024 * 1024
  | .decodedBytes => 128 * 1024 * 1024
  | .rules => 100000
  | .entries => 1000000
  | .collection | .domainNodes => 8000000
  | .domainDepth => 258
  | .logicalDepth => 100
  | .keywordBytes => 2 * 1024 * 1024
  | .keywordLength => 255
  | .unsupportedStringBytes => 8 * 1024
  | .work => 512 * 1024 * 1024

structure SrsError where
  kind : SrsErrorKind
  version : Option UInt8
  ruleIndex : Option Nat
  item : Option UInt8
  unsupported : Option UnsupportedSrsMatcher
  limit : Option SrsLimitKind
deriving DecidableEq

namespace SrsError

def new (kind : SrsErrorKind) : SrsError :=
  { kind, version := none, ruleIndex := none, item := none, unsupported := none, limit := none }

def withVersion (error : SrsError) (version : UInt8) : SrsError := { error with version := some version }

/-- `SrsError::limit`. -/
def ofLimit (kind : SrsLimitKind) : SrsError := { new .limitExceeded with limit := some kind }

def atRule (error : SrsError) (ruleIndex : Nat) : SrsError :=
  if error.ruleIndex.isNone then { error with ruleIndex := some ruleIndex } else error

def atItem (error : SrsError) (item : UInt8) : SrsError := { error with item := some item }

/-- `SrsError::unsupported`. -/
def ofUnsupported (matcher : UnsupportedSrsMatcher) (version : UInt8) (ruleIndex : Nat) : SrsError :=
  { new .unsupportedMatcher with version := some version, ruleIndex := some ruleIndex, unsupported := some matcher }

/-- `From<RuleCompileError>`. -/
def ofCompile : RuleCompileError → SrsError
  | .allocation => new .allocation
  | .resourceLimit => new .limitExceeded
  | _ => new .compile

end SrsError

/-- The maxima of one decoding: positive, and no larger than the defaults. -/
structure SrsDecodeLimits where
  maximum : SrsLimitKind → Nat
  positive : ∀ kind, 0 < maximum kind
  bounded : ∀ kind, maximum kind ≤ kind.defaultMaximum

namespace SrsDecodeLimits

def default : SrsDecodeLimits :=
  { maximum := SrsLimitKind.defaultMaximum, positive := by intro kind; cases kind <;> decide, bounded := fun _ => le_rfl }

/-- One override that is in range. -/
def override (limits : SrsDecodeLimits) (kind : SrsLimitKind) (value : Nat)
    (valid : 0 < value ∧ value ≤ limits.maximum kind) : SrsDecodeLimits :=
  { maximum := update limits.maximum kind value
    positive := by
      intro other
      by_cases same : other = kind
      · subst same
        simpa using valid.1
      · simpa [same] using limits.positive other
    bounded := by
      intro other
      by_cases same : other = kind
      · subst same
        simpa using valid.2.trans (limits.bounded other)
      · simpa [same] using limits.bounded other }

/-- The loop of `try_new`, with the kinds that were seen. -/
def tryOverrides (limits : SrsDecodeLimits) (seen : List SrsLimitKind) :
    List (SrsLimitKind × Nat) → Except SrsError SrsDecodeLimits
  | [] => .ok limits
  | (kind, value) :: rest =>
    if valid : (0 < value ∧ value ≤ limits.maximum kind) ∧ kind ∉ seen then
      (limits.override kind value valid.1).tryOverrides (kind :: seen) rest
    else .error (.new .invalidLimits)

def tryNew (overrides : List (SrsLimitKind × Nat)) : Except SrsError SrsDecodeLimits :=
  default.tryOverrides [] overrides

end SrsDecodeLimits

/-- `std::io::Error`, as far as the decoder looks at it. -/
inductive IoError where
  | byteLimit (kind : SrsLimitKind) | unexpectedEof | invalidData | other
deriving DecidableEq, Repr

/-- A reader that fills a buffer of the asked size. -/
class Read (R : Type) where
  readExact : (count : Nat) → R → Except IoError (Vector UInt8 count) × R

/-- The accounting of one parser; no counter is ever above its maximum. -/
structure DecodeContext (R : Type) where
  reader : R
  limits : SrsDecodeLimits
  used : SrsLimitKind → Nat
  admitted : ∀ kind, used kind ≤ limits.maximum kind

namespace DecodeContext

variable {R : Type}

def new (reader : R) (limits : SrsDecodeLimits) : DecodeContext R :=
  { reader, limits, used := fun _ => 0, admitted := fun _ => Nat.zero_le _ }

def withReader (context : DecodeContext R) (reader : R) : DecodeContext R := { context with reader }

def add (context : DecodeContext R) (kind : SrsLimitKind) (amount : Nat)
    (fits : context.used kind + amount ≤ context.limits.maximum kind) : DecodeContext R :=
  { context with
    used := update context.used kind (context.used kind + amount)
    admitted := by
      intro other
      by_cases same : other = kind
      · subst same
        simpa using fits
      · simpa [same] using context.admitted other }

end DecodeContext

/-- A step of the decoder. -/
abbrev Decode (R α : Type) : Type := Stateful (DecodeContext R) SrsError α

section Accounting

variable {R : Type}

def charge (kind : SrsLimitKind) (amount : Nat) : Decode R Unit := fun context =>
  if 2 ^ 64 ≤ context.used kind + amount then (Checked.fail (.new .integerOverflow), context)
  else if fits : context.used kind + amount ≤ context.limits.maximum kind then (.ok (), context.add kind amount fits)
  else (Checked.fail (.ofLimit kind), context)

def work (amount : Nat) : Decode R Unit := charge .work amount

def depth (kind : SrsLimitKind) (reached : Nat) : Decode R Unit := fun context =>
  (Checked.failIf (context.limits.maximum kind < reached) (.ofLimit kind), context)

/-- `maximum - used`, which underflows when more is used. -/
def remaining (kind : SrsLimitKind) : Decode R Nat := fun context =>
  (if context.used kind ≤ context.limits.maximum kind then .ok (context.limits.maximum kind - context.used kind)
    else .error .panic, context)

def require (kind : SrsLimitKind) (amount : Nat) : Decode R Unit := do
  let available ← remaining kind
  Stateful.lift (Checked.failIf (available < amount) (.ofLimit kind))

def requirePayload (bytes : Nat) : Decode R Unit := require .decodedBytes bytes

def ruleCount (count : Nat) : Decode R Unit := require .rules count

def collection (count minimumBytes : Nat) : Decode R Nat := do
  charge .collection count
  work count
  Stateful.failIf (2 ^ 64 ≤ count * minimumBytes) (.new .integerOverflow)
  requirePayload (count * minimumBytes)
  return count

def entry (expandedBytes : Nat) : Decode R Unit := do
  charge .entries 1
  charge .expandedBytes expandedBytes
  Stateful.assert (1 + expandedBytes < 2 ^ 64)
  work (1 + expandedBytes)

end Accounting

section Laws

variable {R : Type}

theorem SrsLimitKind.defaultMaximum_lt (kind : SrsLimitKind) : kind.defaultMaximum < 2 ^ 32 := by
  cases kind <;> decide

theorem DecodeContext.used_lt (context : DecodeContext R) (kind : SrsLimitKind) : context.used kind < 2 ^ 32 :=
  ((context.admitted kind).trans (context.limits.bounded kind)).trans_lt kind.defaultMaximum_lt

variable {context : DecodeContext R}

theorem charge_fits {kind : SrsLimitKind} {amount : Nat} (fits : context.used kind + amount ≤ context.limits.maximum kind) :
    ∃ after, charge kind amount context = (.ok (), after) ∧ after.limits = context.limits ∧
      after.reader = context.reader ∧ after.used = update context.used kind (context.used kind + amount) := by
  have small := (fits.trans (context.limits.bounded kind)).trans_lt kind.defaultMaximum_lt
  refine ⟨context.add kind amount fits, ?_, rfl, rfl, rfl⟩
  unfold charge
  rw [if_neg (by omega), dif_pos fits]

theorem charge_over {kind : SrsLimitKind} {amount : Nat} (small : amount < 2 ^ 32)
    (beyond : context.limits.maximum kind < context.used kind + amount) :
    charge kind amount context = (Checked.fail (.ofLimit kind), context) := by
  have used := context.used_lt kind
  unfold charge
  rw [if_neg (by omega), dif_neg (by omega)]

/-- Entries and work are left for so many values without bytes of their own. -/
def DecodeContext.Admits (context : DecodeContext R) (count : Nat) : Prop :=
  context.used .entries + count ≤ context.limits.maximum .entries ∧
    context.used .work + count ≤ context.limits.maximum .work

instance (context : DecodeContext R) (count : Nat) : Decidable (context.Admits count) :=
  inferInstanceAs (Decidable (_ ∧ _))

theorem entry_counted (entries : context.used .entries + 1 ≤ context.limits.maximum .entries) :
    ∃ middle, entry 0 context = charge .work 1 middle ∧ middle.limits = context.limits ∧
      middle.used .entries = context.used .entries + 1 ∧ middle.used .work = context.used .work := by
  obtain ⟨counted, first, limits, -, used⟩ := charge_fits entries
  have noBytes : counted.used .expandedBytes + 0 ≤ counted.limits.maximum .expandedBytes :=
    counted.admitted .expandedBytes
  obtain ⟨middle, second, sameLimits, -, sameUsed⟩ := charge_fits noBytes
  refine ⟨middle, (Stateful.bind_ok first).trans (Stateful.bind_ok second), sameLimits.trans limits, ?_, ?_⟩
  · rw [sameUsed, update_of_ne (by decide), used, update_self]
  · rw [sameUsed, update_of_ne (by decide), used, update_of_ne (by decide)]

theorem entry_admitted (admits : context.Admits 1) :
    ∃ after, entry 0 context = (.ok (), after) ∧ ∀ count, after.Admits count ↔ context.Admits (count + 1) := by
  obtain ⟨middle, run, limits, entries, same⟩ := entry_counted admits.1
  have working : middle.used .work + 1 ≤ middle.limits.maximum .work := by
    rw [limits, same]
    exact admits.2
  obtain ⟨after, charged, afterLimits, -, used⟩ := charge_fits working
  refine ⟨after, run.trans charged, fun count => ?_⟩
  unfold DecodeContext.Admits
  rw [afterLimits, limits, used, update_of_ne (by decide), update_self, entries, same]
  omega

theorem entry_refused (refused : ¬context.Admits 1) :
    ∃ kind after, (kind = .entries ∨ kind = .work) ∧ entry 0 context = (Checked.fail (.ofLimit kind), after) := by
  by_cases entries : context.used .entries + 1 ≤ context.limits.maximum .entries
  · obtain ⟨middle, run, limits, -, same⟩ := entry_counted entries
    have beyond : middle.limits.maximum .work < middle.used .work + 1 := by
      rw [limits, same]
      unfold DecodeContext.Admits at refused
      omega
    exact ⟨.work, middle, .inr rfl, run.trans (charge_over (by decide) beyond)⟩
  · exact ⟨.entries, context, .inl rfl, Stateful.bind_error (charge_over (by decide) (not_le.mp entries))⟩

end Laws

end Ferrum.Rule.Srs
