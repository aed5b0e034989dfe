import Ferrum.Shadowsocks.TcpFlowRun

namespace Ferrum.Shadowsocks

open List Checked Crypto

/-- The frames of chunks, sealed one after the other from a nonce on. -/
inductive Frames (cipher : Aead) : NonceCounter → List (List UInt8) → List UInt8 → NonceCounter → Prop
  | nil (nonce : NonceCounter) : Frames cipher nonce [] [] nonce
  | cons {nonce last : NonceCounter} {chunk wire wires : List UInt8} {chunks : List (List UInt8)} {after : TcpSealer}
      (encoded : EncodedChunk cipher nonce chunk after wire) (rest : Frames cipher after.nonce chunks wires last) :
      Frames cipher nonce (chunk :: chunks) (wire ++ wires) last

namespace Frames

variable {cipher : Aead} {nonce middle last : NonceCounter} {chunks : List (List UInt8)} {wire : List UInt8}

theorem snoc (frames : Frames cipher nonce chunks wire middle) {chunk added : List UInt8} {after : TcpSealer}
    (encoded : EncodedChunk cipher middle chunk after added) :
    Frames cipher nonce (chunks ++ [chunk]) (wire ++ added) after.nonce := by
  induction frames with
  | nil nonce =>
    rw [nil_append, nil_append, ← append_nil added]
    exact .cons encoded (.nil _)
  | cons first rest ih =>
    rw [cons_append, append_assoc]
    exact .cons first (ih encoded)

theorem chunks_eq_nil (frames : Frames cipher nonce chunks [] last) : chunks = [] := by
  generalize empty : ([] : List UInt8) = wire at frames
  cases frames with
  | nil => rfl
  | cons encoded rest => exact absurd (append_eq_nil_iff.mp empty.symm).1 encoded.nonempty

theorem header (frames : Frames cipher nonce chunks wire last) (nonempty : wire ≠ []) :
    ∃ payloadLen chunk rest wires next final, chunks = chunk :: rest ∧ payloadLen.val = chunk.length ∧
      chunk.length ≤ maxEncodePayloadLen ∧ nonce.reserve = .ok (nonce.bytes, next) ∧ next.reserve = .ok (next.bytes, final) ∧
      wire = cipher.sealed nonce (U16.toBeBytes payloadLen) ++ (cipher.sealed next chunk ++ wires) ∧
      Frames cipher final rest wires last := by
  cases frames with
  | nil => exact absurd rfl nonempty
  | cons encoded rest =>
    obtain ⟨payloadLen, next, length, reserved, reservedNext, bytes⟩ := encoded.parts
    refine ⟨payloadLen, _, _, _, next, _, rfl, length, encoded.bounded, reserved, reservedNext, ?_, rest⟩
    rw [bytes, append_assoc]

end Frames

/-- A transport writes as many bytes as it reports, and no more than it was asked for. -/
def TransportCall.Honest : TransportCall → Prop
  | .read width (.ready count content) => count ≤ width ∧ count ≤ content.length
  | _ => True

theorem receivedBytes_read (width count : Nat) (content : List UInt8) :
    receivedBytes [.read width (.ready count content)] = content.take count := append_nil _

def Ended (calls : List TransportCall) : Prop := ∃ width content, .read width (.ready 0 content) ∈ calls

def ReadFailed (calls : List TransportCall) : Prop := ∃ width, .read width .failed ∈ calls

variable {first second : List TransportCall} {cipher : Aead} {filled : Nat} {scratch todo left : List UInt8}

theorem ended_append : Ended (first ++ second) ↔ Ended first ∨ Ended second := by
  simp only [Ended, mem_append, exists_or]

theorem readFailed_append : ReadFailed (first ++ second) ↔ ReadFailed first ∨ ReadFailed second := by
  simp only [ReadFailed, mem_append, exists_or]

/-- What a read returns: the next bytes of the plaintext. An error is recorded, and means that a
read of the transport failed, that it ended too early, or that the error is excused; at the end
nothing is returned, and nothing comes after it. -/
def Takes (stands : List UInt8 → List UInt8 → Prop) (excused : ShadowsocksError → Prop) (lifecycle : Lifecycle)
    (calls : List TransportCall) (todo left : List UInt8) : Poll (List UInt8) → Prop
  | .pending => stands todo left ∧ ¬Ended calls
  | .ready (.ok bytes) => ∃ later, todo = bytes ++ later ∧ stands later left ∧
    (Ended calls → bytes = [] ∧ (left = [] → later = []))
  | .ready (.error error) => lifecycle.fatalError = some error ∧ (ReadFailed calls ∨ Ended calls ∧ left ≠ [] ∨ excused error)

/-- What a receive state makes of the wire that is left: the plaintext `todo` comes next. -/
def DataRx.Expects (cipher : Aead) (nonce : NonceCounter) (scratch todo left : List UInt8) : DataRx → Prop
  | .length filled => ∃ chunks last, Frames cipher nonce chunks (scratch.take filled ++ left) last ∧ todo = chunks.flatten
  | .payload wireLen filled => ∃ chunk chunks wires next last, nonce.reserve = .ok (nonce.bytes, next) ∧
      chunk.length ≤ maxEncodePayloadLen ∧ wireLen = chunk.length + tagLen ∧
      scratch.take filled ++ left = cipher.sealed nonce chunk ++ wires ∧ Frames cipher next chunks wires last ∧
      todo = chunk ++ chunks.flatten
  | .ready position => ∃ chunks last, Frames cipher nonce chunks left last ∧ todo = scratch.drop position ++ chunks.flatten
  | .closed => ∃ chunks last, Frames cipher nonce chunks left last ∧ todo = chunks.flatten
  | .poison => False

theorem DataRx.expects_filling {nonce : NonceCounter} {part : Option Nat} {filled' : Nat}
    {scratch' left' : List UInt8} (same : scratch'.take filled' ++ left' = scratch.take filled ++ left)
    (expects : (DataRx.filling part filled).Expects cipher nonce scratch todo left) :
    (DataRx.filling part filled').Expects cipher nonce scratch' todo left' := by
  cases part with
  | none =>
    obtain ⟨chunks, last, frames, plain⟩ := expects
    exact ⟨chunks, last, same ▸ frames, plain⟩
  | some wireLen =>
    obtain ⟨chunk, chunks, wires, next, last, reserved, bounded, width, bytes, frames, plain⟩ := expects
    exact ⟨chunk, chunks, wires, next, last, reserved, bounded, width, same.trans bytes, frames, plain⟩

theorem take_readInto_honest {content : List UInt8} {readEnd count : Nat} (inside : filled ≤ scratch.length)
    (width : count ≤ readEnd - filled) (content' : count ≤ content.length) :
    (readInto scratch filled readEnd content).take (filled + count) = scratch.take filled ++ content.take count := by
  have front : (scratch.take filled).length = filled := length_take_of_le inside
  unfold readInto copyFromSlice
  rw [append_assoc, take_append, take_take, front, Nat.add_sub_cancel_left, Nat.min_eq_right (by omega),
    take_append_of_le_length (by rw [length_take]; omega), take_take, Nat.min_eq_left width]

namespace DataRead

variable {cipher : Aead} {read : DataRead} {answer : ReadAnswer} {todo left rest : List UInt8}

variable {part : Option Nat} {filled readEnd count : Nat} {content scratch : List UInt8}

theorem Received.honest (received : read.Received answer part filled readEnd count content scratch)
    (honest : TransportCall.Honest (.read (readEnd - filled) (.ready count content))) (small : DataRx.wanted part < 2 ^ 64) :
    wrappingAdd filled count = filled + count ∧ filled + count ≤ DataRx.wanted part ∧
      (readInto scratch filled readEnd content).take (filled + count) = read.scratch.take filled ++ content.take count ∧
      (readInto scratch filled readEnd content).length = DataRx.wanted part := by
  obtain ⟨width, delivered⟩ := honest
  have order := received.order
  have fits := received.fits
  have length := received.length
  have inside := received.inside
  refine ⟨?_, by omega, ?_, ?_⟩
  · unfold wrappingAdd
    exact Nat.mod_eq_of_lt (by omega)
  · rw [take_readInto_honest (by omega) width delivered, received.kept]
  · rw [length_readInto (by omega) order, length]

theorem started_left (state : read.state = .filling part filled) (sound : read.state.Sound read.scratch)
    (started : read.state ≠ .length 0) (expects : read.state.Expects cipher read.opener.nonce read.scratch todo left) :
    left ≠ [] := by
  rintro rfl
  cases part with
  | none =>
    rw [state] at sound expects started
    obtain ⟨chunks, last, frames, -⟩ := expects
    rcases sound with zero | ⟨length, inside⟩
    · exact started (zero ▸ rfl)
    · have front : (read.scratch.take filled).length = filled := length_take_of_le (by omega)
      rw [append_nil] at frames
      have nonempty : read.scratch.take filled ≠ [] := by
        intro empty
        rw [empty] at front
        exact started (by rw [← front]; rfl)
      obtain ⟨payloadLen, chunk, _, wires, next, _, _, _, _, _, _, bytes, _⟩ := frames.header nonempty
      have total := congrArg List.length bytes
      rw [front, length_append, Aead.length_sealed, U16.length_toBeBytes] at total
      simp only [aeadTagBytes, encryptedLengthLen, tagLen] at total inside
      omega
  | some wireLen =>
    rw [state] at sound expects
    obtain ⟨length, inside⟩ := sound
    obtain ⟨chunk, chunks, wires, next, last, reserved, bounded, width, bytes, frames, -⟩ := expects
    have total := congrArg List.length bytes
    rw [append_nil, length_take, length_append, Aead.length_sealed] at total
    simp only [aeadTagBytes, tagLen] at total width
    omega

variable {chunks : List (List UInt8)} {last : NonceCounter} {width destinationLen : Nat} {calls : List TransportCall}

theorem header_opened (opens : cipher.Opens) (same : read.opener.cipher = cipher)
    (length : scratch.length = encryptedLengthLen)
    (frames : Frames cipher read.opener.nonce chunks (scratch ++ rest) last) :
    ∃ payloadLen chunk others wires next final, chunks = chunk :: others ∧ payloadLen.val = chunk.length ∧
      chunk.length ≤ maxEncodePayloadLen ∧ next.reserve = .ok (next.bytes, final) ∧
      rest = cipher.sealed next chunk ++ wires ∧ Frames cipher final others wires last ∧
      read.opener.openInPlace scratch =
        ⟨⟨cipher, next⟩, U16.toBeBytes payloadLen, some read.opener.nonce.bytes, .ok ()⟩ := by
  have nonempty : scratch ++ rest ≠ [] := by
    apply ne_nil_of_length_pos
    rw [length_append, length]
    exact Nat.lt_of_lt_of_le (by decide) (Nat.le_add_right _ _)
  obtain ⟨payloadLen, chunk, others, wires, next, final, shape, width, bounded, reserved, reservedNext, bytes, tail⟩ :=
    frames.header nonempty
  have sealedLength : (cipher.sealed read.opener.nonce (U16.toBeBytes payloadLen)).length = encryptedLengthLen := by
    rw [Aead.length_sealed, U16.length_toBeBytes]
    rfl
  obtain ⟨header, wire⟩ := append_inj bytes (by rw [length, sealedLength])
  refine ⟨payloadLen, chunk, others, wires, next, final, shape, width, bounded, reservedNext, wire, tail, ?_⟩
  subst same
  rw [header]
  exact TcpOpener.openInPlace_reserved opens reserved _

theorem payload_opened (opens : cipher.Opens) (same : read.opener.cipher = cipher) {chunk wires : List UInt8}
    {next : NonceCounter} (reserved : read.opener.nonce.reserve = .ok (read.opener.nonce.bytes, next))
    (length : scratch.length = chunk.length + tagLen)
    (bytes : scratch ++ rest = cipher.sealed read.opener.nonce chunk ++ wires) :
    rest = wires ∧ read.opener.openInPlace scratch = ⟨⟨cipher, next⟩, chunk, some read.opener.nonce.bytes, .ok ()⟩ := by
  obtain ⟨payload, wire⟩ := append_inj bytes (by rw [length, Aead.length_sealed]; rfl)
  refine ⟨wire, ?_⟩
  subst same
  rw [payload]
  exact TcpOpener.openInPlace_reserved opens reserved _

/-- The opener stands where the wire that is left goes on. -/
structure Expecting (cipher : Aead) (read : DataRead) (todo left : List UInt8) : Prop where
  same : read.opener.cipher = cipher
  state : read.state.Expects cipher read.opener.nonce read.scratch todo left

/-- What the loop over the data returns. -/
def Reads (cipher : Aead) (calls : List TransportCall) (read : DataRead) (todo left : List UInt8) : Poll (List UInt8) → Prop :=
  Takes (Expecting cipher read) (fun _ => False) read.lifecycle calls todo left

theorem not_ended_ready (positive : count ≠ 0) : ¬Ended [.read width (.ready count content)] := by
  rintro ⟨_, _, member⟩
  rw [mem_singleton] at member
  cases member
  exact positive rfl

theorem expecting_afterCopy (after : DataRead) {bytes : List UInt8} {start position : Nat}
    (same : after.opener.cipher = cipher) (inside : start ≤ after.scratch.length)
    (copied : copyReady after.scratch start destinationLen = some (bytes, position))
    (frames : Frames cipher after.opener.nonce chunks rest last) :
    ∃ later, after.scratch.drop start ++ chunks.flatten = bytes ++ later ∧
      Expecting cipher { after with state := .afterCopy after.scratch position } later rest := by
  obtain ⟨-, within, parts⟩ := copyReady_eq_some inside copied
  refine ⟨after.scratch.drop position ++ chunks.flatten, by rw [parts, append_assoc], same, ?_⟩
  simp only [DataRx.afterCopy]
  split
  · rename_i whole
    refine ⟨chunks, last, frames, ?_⟩
    rw [whole, drop_length, nil_append]
  · exact ⟨chunks, last, frames, rfl⟩

theorem Received.small (received : read.Received answer part filled readEnd count content scratch)
    (expecting : Expecting cipher read todo left) : DataRx.wanted part < 2 ^ 64 := by
  cases part with
  | none => decide
  | some wireLen =>
    have expects := expecting.state
    rw [received.state] at expects
    obtain ⟨chunk, _, _, _, _, _, bounded, width, -⟩ := expects
    rw [DataRx.wanted, width]
    simp only [maxEncodePayloadLen, tagLen] at bounded ⊢
    omega

theorem Received.header (opens : cipher.Opens) (received : read.Received answer none filled readEnd count content scratch)
    (expecting : Expecting cipher read todo left)
    (honest : TransportCall.Honest (.read (readEnd - filled) (.ready count content)))
    (whole : wrappingAdd filled count = encryptedLengthLen) (split : left = content.take count ++ rest) :
    ∃ payloadLen chunk chunks wires next final last, payloadLen.val = chunk.length ∧ chunk.length ≤ maxEncodePayloadLen ∧
      next.reserve = .ok (next.bytes, final) ∧ rest = cipher.sealed next chunk ++ wires ∧
      Frames cipher final chunks wires last ∧ todo = chunk ++ chunks.flatten ∧
      read.opener.openInPlace (readInto scratch filled readEnd content) =
        ⟨⟨cipher, next⟩, U16.toBeBytes payloadLen, some read.opener.nonce.bytes, .ok ()⟩ := by
  obtain ⟨same, expects⟩ := expecting
  obtain ⟨sum, -, bytes, length⟩ := received.honest honest (received.small ⟨same, expects⟩)
  replace length : (readInto scratch filled readEnd content).length = encryptedLengthLen := length
  rw [received.state] at expects
  obtain ⟨chunks, last, frames, plain⟩ := expects
  rw [split, ← append_assoc, ← bytes, ← sum, whole, take_of_length_le (Nat.le_of_eq length)] at frames
  obtain ⟨payloadLen, chunk, others, wires, next, final, rfl, width, bounded, reserved, wire, tail, opened⟩ :=
    header_opened opens same length frames
  exact ⟨payloadLen, chunk, others, wires, next, final, last, width, bounded, reserved, wire, tail, plain, opened⟩

theorem Received.payload {wireLen : Nat} (opens : cipher.Opens)
    (received : read.Received answer (some wireLen) filled readEnd count content scratch)
    (expecting : Expecting cipher read todo left)
    (honest : TransportCall.Honest (.read (readEnd - filled) (.ready count content)))
    (whole : wrappingAdd filled count = wireLen) (split : left = content.take count ++ rest) :
    ∃ chunk chunks next last, Frames cipher next chunks rest last ∧ todo = chunk ++ chunks.flatten ∧
      read.opener.openInPlace (readInto scratch filled readEnd content) =
        ⟨⟨cipher, next⟩, chunk, some read.opener.nonce.bytes, .ok ()⟩ := by
  obtain ⟨same, expects⟩ := expecting
  obtain ⟨sum, -, bytes, length⟩ := received.honest honest (received.small ⟨same, expects⟩)
  replace length : (readInto scratch filled readEnd content).length = wireLen := length
  rw [received.state] at expects
  obtain ⟨chunk, chunks, wires, next, last, reserved, bounded, width, wire, frames, plain⟩ := expects
  rw [split, ← append_assoc, ← bytes, ← sum, whole, take_of_length_le (Nat.le_of_eq length)] at wire
  obtain ⟨rfl, opened⟩ := payload_opened opens same reserved (length.trans width) wire
  exact ⟨chunk, chunks, next, last, frames, plain, opened⟩

theorem Broken.cause (broken : Broken read answer width) (opens : cipher.Opens)
    (sound : read.state.Sound read.scratch) (expecting : Expecting cipher read todo left)
    (honest : TransportCall.Honest (.read width answer)) (split : left = receivedBytes [.read width answer] ++ rest) :
    ReadFailed [.read width answer] ∨ Ended [.read width answer] ∧ rest ≠ [] ∨ False := by
  cases broken with
  | transport answered => exact .inl ⟨width, by rw [answered]; exact mem_singleton_self _⟩
  | cut part state started answered =>
    have unchanged : left = rest := by
      rw [split, answered]
      rfl
    refine .inr (.inl ⟨⟨width, _, by rw [answered]; exact mem_singleton_self _⟩, ?_⟩)
    rw [← unchanged]
    exact started_left state sound started expecting.state
  | overrun received beyond =>
    obtain ⟨sum, within, -⟩ := received.honest (received.answered ▸ honest) (received.small expecting)
    omega
  | header received whole bad =>
    have answered := received.answered
    subst answered
    rw [receivedBytes_read] at split
    obtain ⟨payloadLen, chunk, _, _, _, _, _, length, bounded, _, _, _, _, opening⟩ :=
      received.header opens expecting honest whole split
    have short := bad _ _ (by rw [opening]) (by rw [opening]; rfl)
    rw [U16.fromBeBytes_toBeBytes, length] at short
    simp only [maxDecryptWireLen, tagLen, maxEncodePayloadLen] at short bounded
    omega
  | payload received whole bad =>
    have answered := received.answered
    subst answered
    rw [receivedBytes_read] at split
    obtain ⟨chunk, _, _, _, _, _, opening⟩ := received.payload opens expecting honest whole split
    rw [opening] at bad
    exact absurd rfl bad

theorem Turned.reads (opens : cipher.Opens) {next : Turn DataRead (List UInt8)}
    (turned : Turned read destinationLen answer next calls)
    (sound : read.state.Sound read.scratch) (expecting : Expecting cipher read todo left)
    (honest : ∀ call ∈ calls, call.Honest) (split : left = receivedBytes calls ++ rest) :
    next.Meets (fun _ state => Expecting cipher state todo rest ∧ ¬Ended calls)
      fun polled => Reads cipher calls polled.state todo rest polled.poll := by
  obtain ⟨same, expects⟩ := expecting
  cases turned with
  | exhausted =>
    rw [receivedBytes_nil, nil_append] at split
    exact ⟨⟨same, split ▸ expects⟩, nofun⟩
  | @waiting part filled width scratch state kept length inside answered =>
    have unchanged : left = rest := split
    subst unchanged
    rw [state] at expects
    refine ⟨⟨same, DataRx.expects_filling (congrArg (· ++ left) kept) expects⟩, ?_⟩
    rintro ⟨_, _, member⟩
    rw [mem_singleton] at member
    cases member
  | failed broken recorded txClosed =>
    exact ⟨recorded, broken.cause opens sound ⟨same, expects⟩ (honest _ (mem_singleton_self _)) split⟩
  | ended state answered =>
    have unchanged : left = rest := split
    subst unchanged
    rw [state] at expects
    obtain ⟨chunks, last, frames, plain⟩ := expects
    refine ⟨todo, (nil_append _).symm, ⟨same, chunks, last, frames, plain⟩, fun _ => ⟨rfl, ?_⟩⟩
    rintro rfl
    rw [plain, frames.chunks_eq_nil]
    rfl
  | @part part filled readEnd count content scratch budget received short =>
    obtain ⟨sum, -, bytes, -⟩ := received.honest (honest _ (mem_singleton_self _)) (received.small ⟨same, expects⟩)
    have state := received.state
    rw [state] at expects
    refine ⟨⟨same, DataRx.expects_filling ?_ expects⟩, not_ended_ready received.positive⟩
    rw [sum, bytes, split, receivedBytes_read, append_assoc]
  | header received whole opensTo opened buffer width =>
    obtain ⟨payloadLen, chunk, chunks, wires, next, final, last, length, bounded, reserved, wire, frames, plain, opening⟩ :=
      received.header opens ⟨same, expects⟩ (honest _ (mem_singleton_self _)) whole (split.trans (by rw [receivedBytes_read]))
    rw [opensTo] at opening
    subst opening
    refine ⟨⟨rfl, ?_⟩, not_ended_ready received.positive⟩
    refine ⟨chunk, chunks, wires, final, last, reserved, bounded, ?_, wire, frames, plain⟩
    cases buffer
    rw [width, U16.fromBeBytes_toBeBytes, length]
  | passed received whole opensTo opened buffer =>
    obtain ⟨chunk, chunks, next, last, frames, plain, opening⟩ := received.payload opens ⟨same, expects⟩
      (honest _ (mem_singleton_self _)) whole (split.trans (by rw [receivedBytes_read]))
    rw [opensTo] at opening
    subst opening
    refine ⟨⟨rfl, chunks, last, frames, ?_⟩, not_ended_ready received.positive⟩
    rw [plain, show chunk = [] from buffer, nil_append]
  | payload received whole opensTo opened buffer copied =>
    obtain ⟨chunk, chunks, next, last, frames, plain, opening⟩ := received.payload opens ⟨same, expects⟩
      (honest _ (mem_singleton_self _)) whole (split.trans (by rw [receivedBytes_read]))
    rw [opensTo] at opening
    subst opening
    obtain ⟨later, parts, expecting⟩ := expecting_afterCopy ⟨⟨cipher, next⟩, chunk, .closed, read.lifecycle⟩ rfl
      (Nat.zero_le _) copied frames
    exact ⟨later, plain.trans parts, expecting, fun ended => absurd ended (not_ended_ready received.positive)⟩
  | ready state copied =>
    have unchanged : left = rest := split
    subst unchanged
    rw [state] at expects sound
    obtain ⟨chunks, last, frames, rfl⟩ := expects
    obtain ⟨later, plain, expecting⟩ := expecting_afterCopy read same sound copied frames
    exact ⟨later, plain, expecting, nofun⟩
  | closed state =>
    have unchanged : left = rest := split
    subst unchanged
    exact ⟨todo, (nil_append _).symm, ⟨same, expects⟩, nofun⟩

theorem Reads.after {before : List TransportCall} {poll : Poll (List UInt8)} (quiet : ¬Ended before)
    (reads : Reads cipher calls read todo rest poll) : Reads cipher (before ++ calls) read todo rest poll := by
  have same : Ended (before ++ calls) ↔ Ended calls := ended_append.trans (or_iff_right quiet)
  rcases poll with _ | ⟨error | bytes⟩
  · exact ⟨reads.1, fun ended => reads.2 (same.mp ended)⟩
  · exact ⟨reads.1, reads.2.imp (fun failed => readFailed_append.mpr (.inr failed))
      (Or.imp_left fun both => ⟨same.mpr both.1, both.2⟩)⟩
  · obtain ⟨later, plain, expecting, last⟩ := reads
    exact ⟨later, plain, expecting, fun ended => last (same.mp ended)⟩

end DataRead

theorem pollDataRead_reads (opens : cipher.Opens) {read : DataRead} (fresh : read.lifecycle.terminal = none)
    (sound : read.state.Sound read.scratch) (expecting : DataRead.Expecting cipher read todo left)
    (destinationLen : Nat) (answers : List ReadAnswer) (budget : PollBudget) {polled : Polled DataRead (List UInt8)}
    (run : pollDataRead destinationLen answers budget read = some polled) (honest : ∀ call ∈ polled.calls, call.Honest)
    {rest : List UInt8} (split : left = receivedBytes polled.calls ++ rest) :
    DataRead.Reads cipher polled.calls polled.state todo rest polled.poll := by
  obtain ⟨same, again, reads⟩ := turns_left
    (fun before _ now => now.lifecycle = read.lifecycle ∧ now.state.Sound now.scratch ∧
      ((∀ call ∈ before, call.Honest) → ∀ rest, left = receivedBytes before ++ rest →
        DataRead.Expecting cipher now todo rest ∧ ¬Ended before))
    (fun before now poll => (∀ call ∈ before, call.Honest) → ∀ rest, left = receivedBytes before ++ rest →
      DataRead.Reads cipher before now todo rest poll)
    (fun before budget now answer good => by
      obtain ⟨same, sound, follows⟩ := good
      obtain ⟨next, calls, run, turned⟩ := DataRead.turn_turned destinationLen (same ▸ fresh) sound budget answer
      refine ⟨next, calls, run, ?_⟩
      have advances (honest : ∀ call ∈ before ++ calls, call.Honest) (rest : List UInt8)
          (split : left = receivedBytes (before ++ calls) ++ rest) := by
        rw [receivedBytes_append, append_assoc] at split
        obtain ⟨expecting, quiet⟩ := follows (fun call member => honest call (mem_append_left _ member)) _ split
        exact And.intro quiet (turned.reads opens sound expecting
          (fun call member => honest call (mem_append_right _ member)) rfl)
      have keeps := turned.sound sound
      cases next with
      | finished polled =>
        simp only [Turn.Meets, turned.calls_eq, append_nil]
        intro honest rest split
        obtain ⟨quiet, reads⟩ := advances honest rest split
        exact reads.after quiet
      | again state budget =>
        refine ⟨keeps.1.trans same, keeps.2, fun honest rest split => ?_⟩
        obtain ⟨quiet, expecting, stillQuiet⟩ := advances honest rest split
        exact ⟨expecting, fun ended => (ended_append.mp ended).elim quiet stillQuiet⟩)
    (fun before _ now good honest rest split => (good.2.2 honest rest split).imp id id) answers [] budget
    ⟨rfl, sound, fun _ rest split => ⟨by rw [← show left = rest from split]; exact expecting, nofun⟩⟩
  rw [show turns _ _ _ _ _ = _ from run] at again
  cases again
  exact reads honest rest split

end Ferrum.Shadowsocks
