import PrimeBle.Chip.SecureBoot
import PrimeBle.Host.Control
import PrimeBle.Library.Crc32Bursts
import PrimeBle.Spi.Mailbox
import PrimeBle.Spi.Queries
import PrimeBle.Update.Retransmission

/-! # Updates over the bus

An update is a run of transactions to the bootloader, and what tells the host how far
it has come are the frames that it reads back. The transactions may be damaged on the
way: not to a command, and a chunk only within four bytes. If every acknowledgement has
the index and the check value of the chunk it was read for, and the chunks that were
acknowledged are all chunks of an image in order, the application area holds the image
(`Host.acked_image_in_flash`). Undamaged, an image that fits is acknowledged and stored
up to its last whole word chunk (`Host.sent_image_in_flash`).
-/

namespace PrimeBle.Host

open Boot Device HostProtocol Update

/-- A transaction in which the host means to send a chunk. -/
structure Attempt where
  /-- The chunk. -/
  index : ℕ
  hw : Peripherals
  radio : Firmware.RadioReadings
  /-- What arrives. -/
  bytes : List UInt8

def Attempt.input (attempt : Attempt) : Spi.Input :=
  .transaction attempt.hw attempt.radio attempt.bytes

/-- What the bootloader makes of the bytes that arrive. -/
def Attempt.request (attempt : Attempt) : Request := fromBytes rawBufSize attempt.bytes

/-- What the host reads from the frames that are written. -/
def reading : List (List UInt8) → Option HostProtocolMessage
  | [frame] => Spi.receive frame
  | _ => none

/-- The device on its bus, with the answers that the host reads. -/
def bus (platform : Device.Platform) :
    Machine Device Attempt (Option HostProtocolMessage) where
  step device attempt :=
    (((Spi.machine platform).step device attempt.input).1,
      reading ((Spi.machine platform).step device attempt.input).2)

abbrev Exchange := Machine.Transition Device Attempt (Option HostProtocolMessage)

/-- What may become of a chunk on its way: it is lost or garbled, or arrives with
errors within four bytes. -/
structure Carries (image : List UInt8) (attempt : Attempt) : Prop where
  driver : attempt.hw.flash.Nvmc
  arrives : Spi.bootloaderCommand attempt.request = false ∨
    ∃ blockIdx blockData,
      attempt.request = some (.bootloader (.writeFirmwareBlock blockIdx blockData)) ∧
        Crc32.Burst 4 (chunk image attempt.index) blockData

/-- An acknowledgement has the index and the check value of the chunk, as the control
program asks for them. -/
def Matches (image : List UInt8) (exchange : Exchange) : Prop :=
  ∀ blockIdx crc, exchange.output = some (.bootloader (.ackWithIdxCrc blockIdx crc)) →
    blockIdx = UInt32.ofNat exchange.event.index ∧ crc = crcPkt image exchange.event.index

/-- The chunk that an exchange acknowledges. -/
def ackedIndex (exchange : Exchange) : List ℕ :=
  if isAck exchange.output then [exchange.event.index] else []

/-- The chunks that were acknowledged, in order. -/
def ackedIndices (exchanges : List Exchange) : List ℕ := (exchanges.map ackedIndex).flatten

theorem chunk_eq (image : List UInt8) (idx : ℕ) : chunk image idx = block image idx := rfl

theorem chunkCount_eq (image : List UInt8) : chunkCount image = blockCount image := rfl

section Bus

variable (platform : Device.Platform) (loop : Loop) (attempt : Attempt)

/-- The host reads the answer of the bootloader as it was given. -/
theorem bus_bootloader :
    (bus platform).step (.bootloader loop) attempt =
      ofOutcome (turn platform.boot attempt.hw loop (some attempt.bytes)) := by
  refine Prod.ext rfl ?_
  change reading (Spi.written
    (ofOutcome (turn platform.boot attempt.hw loop (some attempt.bytes))).2) = _
  rw [Spi.ofOutcome_response]
  cases sent : Spi.sentBy (turn platform.boot attempt.hw loop (some attempt.bytes)) with
  | none => rfl
  | some response =>
      obtain ⟨frame, written, received⟩ :=
        Spi.receive_written (Spi.turn_response platform loop attempt.hw sent)
      rw [written]
      exact received

/-- What is decoded is served. -/
theorem bus_request {msg : HostProtocolMessage} (arrives : attempt.request = some msg) :
    (bus platform).step (.bootloader loop) attempt =
      Device.step platform (.bootloader loop)
        (.request attempt.hw attempt.radio (some msg)) := by
  have carries : attempt.bytes ≠ [] := by
    intro empty
    unfold Attempt.request at arrives
    rw [empty] at arrives
    cases arrives
  rw [bus_bootloader, Spi.turn_of_ne_nil platform loop attempt.hw carries]
  exact congrArg (fun request => ofOutcome (dispatch platform.boot attempt.hw loop request)) arrives

/-- Only a block is answered like one. -/
theorem isAck_query (hw : Peripherals) {request : Request}
    (query : Spi.bootloaderCommand request = false) :
    isAck (Spi.sentBy (dispatch platform.boot hw loop request)) = false := by
  cases request with
  | none => rfl
  | some msg =>
      cases msg with
      | bootloader msg =>
          cases msg with
          | writeFirmwareBlock blockIdx blockData => cases query
          | eraseFirmware => cases query
          | bootFirmware trust => cases query
          | challengeSet secret => cases query
          | firmwareVersion =>
              change isAck (some (.bootloader (firmwareVersion platform.boot loop))) = false
              simp only [firmwareVersion]
              split
              · rfl
              · rfl
          | _ => rfl
      | challengeRequest nonce =>
          change isAck (some (challengeRequest platform.boot loop nonce)) = false
          unfold challengeRequest
          split
          · split
            · rfl
            · rfl
          · rfl
      | _ => rfl

/-- What is no command changes nothing, and is not acknowledged. -/
theorem bus_query (query : Spi.bootloaderCommand attempt.request = false) :
    ((bus platform).step (.bootloader loop) attempt).1 = .bootloader loop ∧
      isAck ((bus platform).step (.bootloader loop) attempt).2 = false := by
  rw [bus_bootloader, Spi.ofOutcome_response]
  by_cases empty : attempt.bytes = []
  · rw [empty]
    exact ⟨rfl, rfl⟩
  · rw [Spi.turn_of_ne_nil platform loop attempt.hw empty]
    refine ⟨?_, isAck_query platform loop attempt.hw query⟩
    obtain ⟨response, outcome⟩ := Spi.dispatch_query platform loop attempt.hw query
    exact congrArg (fun outcome => (ofOutcome outcome).1) outcome

end Bus

section Acknowledged

variable {platform : Device.Platform} {image : List UInt8} {original : Flash}

/-- A block that is acknowledged as the chunk it was sent for is that chunk. -/
theorem transferring_block {loop : Loop} {indices : List ℕ} {attempt : Attempt}
    {blockIdx : UInt32} {blockData : List UInt8} (spec : attempt.hw.flash.Nvmc)
    (appended : Appended original (stream image indices) loop)
    (arrives : attempt.request = some (.bootloader (.writeFirmwareBlock blockIdx blockData)))
    (burst : Crc32.Burst 4 (chunk image attempt.index) blockData)
    (matching : Matches image ((bus platform).fire (.bootloader loop) attempt)) :
    Transferring original ((bus platform).step (.bootloader loop) attempt).1
      (stream image (indices ++ ackedIndex ((bus platform).fire (.bootloader loop) attempt))) := by
  have stepped := bus_request platform loop attempt arrives
  unfold Matches at matching
  unfold ackedIndex
  rw [Machine.fire_output, Machine.fire_event, stepped] at matching
  rw [Machine.fire_output, Machine.fire_event, stepped]
  by_cases accepts : loop.Accepts attempt.hw.flash blockData
  · have longer := appended_block spec appended blockIdx accepts
    have ack := (isAck_iff_accepts platform attempt.radio blockIdx).mpr accepts
    have wrote := writeFirmwareBlock_of_accepts attempt.hw.flash blockIdx accepts
    obtain ⟨-, crc⟩ := matching blockIdx (Crc32.iscsi.checksum blockData) (by
      rw [step_block, wrote])
    obtain rfl := Crc32.checksum_burst Crc32.iscsi_proper burst crc
    rw [chunk_eq, ← stream_append_singleton] at longer
    rw [if_pos ack]
    exact ⟨_, rfl, longer⟩
  · have kept := refused_block spec blockIdx accepts
    have nack := fun ack => accepts ((isAck_iff_accepts platform attempt.radio blockIdx).mp ack)
    rw [if_neg nack, List.append_nil]
    exact ⟨loop, congrArg Device.bootloader kept, appended⟩

/-- **Steps.** The log grows by the chunk that is acknowledged. -/
theorem transferring_exchange {device : Device} {indices : List ℕ} {attempt : Attempt}
    (logged : Transferring original device (stream image indices))
    (carries : Carries image attempt)
    (matching : Matches image ((bus platform).fire device attempt)) :
    Transferring original ((bus platform).step device attempt).1
      (stream image (indices ++ ackedIndex ((bus platform).fire device attempt))) := by
  obtain ⟨loop, rfl, appended⟩ := logged
  rcases carries.arrives with query | ⟨blockIdx, blockData, arrives, burst⟩
  · obtain ⟨still, silent⟩ := bus_query platform loop attempt query
    unfold ackedIndex
    rw [still, Machine.fire_output, silent, if_neg Bool.false_ne_true, List.append_nil]
    exact ⟨loop, rfl, appended⟩
  · exact transferring_block carries.driver appended arrives burst matching

/-- **Acknowledged chunks.** As long as what arrives is no command, and every
acknowledgement matches, the bootloader has logged the chunks that were acknowledged, in
the order of their acknowledgements. -/
theorem transferring_bus {device : Device} {attempts : List Attempt}
    (start : Transferring original device [])
    (carried : ∀ attempt ∈ attempts, Carries image attempt)
    (matching : ∀ exchange ∈ (bus platform).trace device attempts, Matches image exchange) :
    Transferring original ((bus platform).run device attempts)
      (stream image (ackedIndices ((bus platform).trace device attempts))) := by
  have simulates : ∀ device attempt indices,
      Transferring original device (stream image indices) →
      Carries image attempt ∧ Matches image ((bus platform).fire device attempt) →
      Transferring original ((bus platform).step device attempt).1
        (stream image (indices ++ ackedIndex ((bus platform).fire device attempt))) :=
    fun _ _ _ logged allowed => transferring_exchange logged allowed.1 allowed.2
  have allowed : ∀ exchange ∈ (bus platform).trace device attempts,
      Carries image exchange.event ∧
        Matches image ((bus platform).fire exchange.source exchange.event) := by
    intro exchange member
    have same := matching exchange member
    have sent := carried _ ((bus platform).event_mem_of_mem_trace member)
    obtain ⟨before, attempt, after, -, rfl⟩ := (bus platform).mem_trace_iff.mp member
    exact ⟨sent, same⟩
  have begun : Transferring original device (stream image []) := start
  have simulated := (bus platform).run_simulates simulates begun allowed
  rw [List.foldl_map, List.foldl_append_eq_append] at simulated
  exact simulated

end Acknowledged

/-- An image as it lies in the application area. -/
def padded (image : List UInt8) : List UInt8 :=
  image ++ List.replicate (appSize.toNat - image.length) erasedByte

/-- What is verified of an area that holds an image and is blank behind it. -/
theorem appImage_eq_padded {flash : Flash} {image : List UInt8}
    (fits : image.length ≤ appSize.toNat)
    (holds : flash.slice baseAppAddr.toNat image.length = image)
    (blank : ∀ address, baseAppAddr.toNat + image.length ≤ address →
      address < baseBootloaderAddr.toNat → flash address = erasedByte) :
    appImage flash = padded image := by
  have area : baseBootloaderAddr.toNat = baseAppAddr.toNat + appSize.toNat := rfl
  have whole : (image ++ List.replicate (appSize.toNat - image.length) erasedByte).length =
      appSize.toNat := by
    rw [List.length_append, List.length_replicate]
    omega
  have written := (Memory.slice_eq_iff _ _ _).mp holds
  have cells : ∀ index
      (below : index < (image ++ List.replicate (appSize.toNat - image.length) erasedByte).length),
      flash (baseAppAddr.toNat + index) =
        (image ++ List.replicate (appSize.toNat - image.length) erasedByte)[index] := by
    intro index below
    by_cases inside : index < image.length
    · rw [List.getElem_append_left inside]
      exact written index inside
    · rw [List.getElem_append_right (by omega), List.getElem_replicate]
      exact blank _ (by omega) (by omega)
  have same := (Memory.slice_eq_iff _ _ _).mpr cells
  rw [whole] at same
  exact (appImage_eq flash).trans same

/-- What is verified after a transfer. -/
theorem appImage_of_transferred {original : Flash} {image : List UInt8} {loop : Loop}
    (fits : image.length ≤ appSize.toNat) (transferred : Transferred original image loop) :
    appImage loop.flash = padded image :=
  appImage_eq_padded fits transferred.written transferred.blank

/-- An update that is complete as the host sees it: the bootloader is asked for an erase,
and then the chunks of an image are acknowledged one after the other. -/
structure Completed (platform : Device.Platform) (image : List UInt8) (loop : Loop)
    (erase : Attempt) (attempts : List Attempt) : Prop where
  asks : erase.request = some (.bootloader .eraseFirmware)
  driver : erase.hw.flash.Nvmc
  carried : ∀ attempt ∈ attempts, Carries image attempt
  matching : ∀ exchange ∈ (bus platform).trace
      ((bus platform).step (.bootloader loop) erase).1 attempts, Matches image exchange
  all : ackedIndices ((bus platform).trace ((bus platform).step (.bootloader loop) erase).1
      attempts) = List.range (chunkCount image)

/-- The device after an update. -/
def updated (platform : Device.Platform) (loop : Loop) (erase : Attempt)
    (attempts : List Attempt) : Device :=
  (bus platform).run (.bootloader loop) (erase :: attempts)

section Complete

variable (platform : Device.Platform) (loop : Loop)

/-- An erase starts a transfer. -/
theorem transferring_erase {erase : Attempt}
    (asks : erase.request = some (.bootloader .eraseFirmware))
    (driver : erase.hw.flash.Nvmc) :
    ((bus platform).step (.bootloader loop) erase).2 =
        some (.bootloader .ackEraseFirmware) ∧
      Transferring loop.flash ((bus platform).step (.bootloader loop) erase).1 [] := by
  rw [bus_request platform loop erase asks]
  refine ⟨?_, transferring_afterErase platform loop driver erase.radio⟩
  rw [step_erase, eraseFirmware_eq driver]

/-- Once every chunk is acknowledged, the image is in flash. -/
theorem transferred_of_completed {image : List UInt8} (fits : image.length ≤ appSize.toNat)
    {erase : Attempt} {attempts : List Attempt}
    (completed : Completed platform image loop erase attempts) :
    ∃ next, updated platform loop erase attempts = .bootloader next ∧
      Transferred loop.flash image next := by
  obtain ⟨-, begun⟩ := transferring_erase platform loop completed.asks completed.driver
  have logged := transferring_bus begun completed.carried completed.matching
  rw [completed.all, chunkCount_eq, stream_inOrder] at logged
  obtain ⟨next, reached, appended⟩ := logged
  exact ⟨next, reached, appended.transferred fits⟩

/-- What a boot request is answered. -/
theorem bus_boot_iff {boot : Attempt} {trust : TrustLevel}
    (asks : boot.request = some (.bootloader (.bootFirmware trust))) (hash : Vector UInt8 32) :
    ((bus platform).step (.bootloader loop) boot).2 =
        some (.bootloader (.ackVerifyFirmware true hash)) ↔
      (readVersionAndBuildDate platform.cosign (appImage loop.flash) true).isSome ∧
        Trusted platform.cosign trust hash (appImage loop.flash) := by
  rw [bus_request platform loop boot asks, ← verifyFwImage_valid_iff]
  exact bootFirmware_acked_iff platform.boot boot.hw.customer loop trust hash

end Complete

/-- A chunk arrives as it was sent. What follows it in the transaction is not read. -/
structure Intact (image : List UInt8) (attempt : Attempt) : Prop where
  driver : attempt.hw.flash.Nvmc
  arrives : ∃ padding, attempt.bytes =
    Encode.hostProtocolMessage (blockMessage image attempt.index) ++ padding

/-- A chunk of whole words. -/
def Whole (image : List UInt8) (idx : ℕ) : Prop := (chunk image idx).length % 4 = 0

instance (image : List UInt8) : DecidablePred (Whole image) :=
  fun idx => inferInstanceAs (Decidable ((chunk image idx).length % 4 = 0))

/-- What the bootloader answers to a chunk. -/
def answerTo (image : List UInt8) (idx : ℕ) : HostProtocolMessage :=
  .bootloader (if Whole image idx then .ackWithIdxCrc (UInt32.ofNat idx) (crcPkt image idx)
    else .nackWithIdx (UInt32.ofNat idx))

/-- What of an image is stored: all of it, if it is made of whole words, and otherwise all
but its last chunk. -/
def stored (image : List UInt8) : List UInt8 :=
  if image.length % 4 = 0 then image else image.take (chunkSize * (image.length / chunkSize))

section Chunks

variable {image : List UInt8}

theorem length_chunk (image : List UInt8) (idx : ℕ) :
    (chunk image idx).length = min chunkSize (image.length - chunkSize * idx) := by
  unfold chunk
  rw [List.length_take, List.length_drop]

theorem whole_of_words (words : image.length % 4 = 0) (idx : ℕ) : Whole image idx := by
  unfold Whole
  rw [length_chunk]
  unfold chunkSize
  omega

theorem whole_of_lt {idx : ℕ} (below : idx < image.length / chunkSize) : Whole image idx := by
  unfold Whole
  rw [length_chunk]
  unfold chunkSize at *
  omega

theorem whole_iff_of_last {idx : ℕ} (last : idx = image.length / chunkSize) :
    Whole image idx ↔ image.length % 4 = 0 := by
  unfold Whole
  rw [length_chunk]
  unfold chunkSize at *
  omega

/-- All chunks but the last are made of whole words. -/
theorem filter_whole {count : ℕ} (within : count ≤ image.length / chunkSize) :
    (List.range count).filter (Whole image) = List.range count := by
  refine List.filter_eq_self.mpr fun idx member => decide_eq_true (whole_of_lt ?_)
  exact (List.mem_range.mp member).trans_le within

/-- The chunks of whole words are what is stored. -/
theorem stream_whole (image : List UInt8) :
    stream image ((List.range (chunkCount image)).filter (Whole image)) = stored image := by
  by_cases words : image.length % 4 = 0
  · have all : (List.range (chunkCount image)).filter (Whole image) =
        List.range (chunkCount image) :=
      List.filter_eq_self.mpr fun idx _ => decide_eq_true (whole_of_words words idx)
    rw [all, chunkCount_eq, stream_inOrder, stored, if_pos words]
  · have count : chunkCount image = image.length / chunkSize + 1 := by
      unfold chunkCount chunkSize
      omega
    have last : ¬ Whole image (image.length / chunkSize) := fun whole =>
      words ((whole_iff_of_last rfl).mp whole)
    rw [count, List.range_succ, List.filter_append, filter_whole (Nat.le_refl _),
      List.filter_singleton, decide_eq_false last, cond_false, List.append_nil, stream_range,
      stored, if_neg words]
    rfl

section Next

variable {original : Flash} {loop : Loop} {driver : FlashDriver} {count : ℕ}
  (appended : Appended original (stream image (List.range count)) loop)
  (more : count < chunkCount image)

include appended more

/-- The loop stands at the next chunk. -/
theorem offset_next :
    loop.bootStatus.offset.toNat = chunkSize * count ∧ chunkSize * count < image.length := by
  have offset := appended.offset
  have inside : chunkSize * count < image.length := by
    unfold chunkCount chunkSize at more
    unfold chunkSize
    omega
  rw [stream_range, List.length_take] at offset
  refine ⟨?_, inside⟩
  unfold chunkSize at *
  unfold blockSize at offset
  omega

variable (spec : driver.Nvmc) (fits : image.length ≤ appSize.toNat)

include spec fits

/-- It accepts the chunk if that is made of whole words. -/
theorem accepts_next (whole : Whole image count) :
    loop.Accepts driver (chunk image count) := by
  obtain ⟨offset, inside⟩ := offset_next appended more
  unfold chunkSize at offset inside
  exact Loop.accepts_of_words spec (by omega) (by omega) whole
    ((length_chunk_le image count).trans (by decide))

/-- Otherwise it refuses the chunk, and nothing changes. -/
theorem refuses_next (ragged : ¬ Whole image count) (idx : UInt32) :
    writeFirmwareBlock driver loop idx (chunk image count) = (loop, .nackWithIdx idx) := by
  obtain ⟨offset, inside⟩ := offset_next appended more
  have refused : ¬ loop.Accepts driver (chunk image count) := fun accepts =>
    ragged ((Loop.accepts_iff spec).mp accepts).2.2.1
  have inArea : loop.InArea := (Loop.inArea_iff loop).mpr (by omega)
  have failed : (driver.write loop.flash loop.cursor (chunk image count)).1 = false :=
    Bool.eq_false_iff.mpr fun accepted => refused ⟨inArea, accepted⟩
  refine Prod.ext (refused_block spec idx refused) ?_
  rw [writeFirmwareBlock_of_refused driver idx inArea failed]

end Next

variable (platform : Device.Platform) {original : Flash} {loop : Loop} {attempt : Attempt}

theorem intact_request (intact : Intact image attempt) :
    attempt.request = some (blockMessage image attempt.index) := by
  obtain ⟨-, padding, arrives⟩ := intact
  have sized : (blockMessage image attempt.index).Sized :=
    Nat.lt_of_le_of_lt (length_chunk_le image attempt.index) (by decide)
  have room : (Encode.hostProtocolMessage (blockMessage image attempt.index)).length ≤
      rawBufSize := (length_blockMessage_le image attempt.index).trans (by decide)
  unfold Attempt.request
  rw [arrives]
  exact fromBytes_encode sized room padding

/-- **Steps.** The next chunk is stored and acknowledged, or refused. -/
theorem sent_chunk (fits : image.length ≤ appSize.toNat)
    (appended : Appended original
      (stream image ((List.range attempt.index).filter (Whole image))) loop)
    (more : attempt.index < chunkCount image) (intact : Intact image attempt) :
    ((bus platform).step (.bootloader loop) attempt).2 =
        some (answerTo image attempt.index) ∧
      Transferring original ((bus platform).step (.bootloader loop) attempt).1
        (stream image ((List.range (attempt.index + 1)).filter (Whole image))) := by
  have upTo : attempt.index ≤ image.length / chunkSize := by
    unfold chunkCount chunkSize at more
    unfold chunkSize
    omega
  rw [filter_whole upTo] at appended
  rw [bus_request platform loop attempt (intact_request intact), blockMessage, step_block,
    List.range_succ, List.filter_append, filter_whole upTo, List.filter_singleton, answerTo]
  by_cases whole : Whole image attempt.index
  · have accepts := accepts_next appended more intact.driver fits whole
    have longer := appended_block intact.driver appended (UInt32.ofNat attempt.index) accepts
    have wrote := writeFirmwareBlock_of_accepts attempt.hw.flash (UInt32.ofNat attempt.index)
      accepts
    rw [chunk_eq, ← stream_append_singleton, ← chunk_eq] at longer
    rw [decide_eq_true whole, cond_true, if_pos whole]
    refine ⟨?_, _, rfl, longer⟩
    rw [wrote]
    rfl
  · have kept := refuses_next appended more intact.driver fits whole
    rw [kept, decide_eq_false whole, cond_false, List.append_nil, if_neg whole]
    exact ⟨rfl, loop, rfl, appended⟩

/-- **Runs.** So are the first chunks, in order. -/
theorem sent_chunks (fits : image.length ≤ appSize.toNat)
    (begun : Transferring original (.bootloader loop) []) {attempts : List Attempt}
    (inOrder : attempts.map Attempt.index = List.range attempts.length)
    (within : attempts.length ≤ chunkCount image)
    (intact : ∀ attempt ∈ attempts, Intact image attempt) :
    ((bus platform).trace (.bootloader loop) attempts).map Machine.Transition.output =
        (List.range attempts.length).map (fun idx => some (answerTo image idx)) ∧
      Transferring original ((bus platform).run (.bootloader loop) attempts)
        (stream image ((List.range attempts.length).filter (Whole image))) := by
  induction attempts using List.reverseRecOn with
  | nil => exact ⟨rfl, begun⟩
  | append_singleton attempts attempt ih =>
      rw [List.length_append, List.length_singleton] at inOrder within ⊢
      rw [List.map_append, List.map_singleton, List.range_succ] at inOrder
      obtain ⟨before, last⟩ := List.append_inj' inOrder rfl
      have here : attempt.index = attempts.length := (List.cons_eq_cons.mp last).1
      obtain ⟨answers, next, reached, appended⟩ := ih before (Nat.le_of_succ_le within)
        fun earlier member => intact earlier (List.mem_append_left _ member)
      have whole := intact attempt (List.mem_append_right _ (List.mem_cons_self ..))
      rw [← here] at appended within
      obtain ⟨answer, logged⟩ := sent_chunk platform fits appended within whole
      rw [Machine.trace_append, Machine.run_append, reached, List.map_append, answers,
        Machine.run_cons, Machine.run_nil, Machine.trace_cons, Machine.trace_nil, List.map_cons,
        List.map_nil, Machine.fire_output, answer, List.range_succ, List.map_append, here]
      rw [here, List.range_succ] at logged
      exact ⟨rfl, logged⟩

end Chunks

/-- **An undamaged update.** The bootloader is asked for an erase and then for the chunks
of an image that fits, in order and as they are. It acknowledges the erase and every
chunk of whole words, with its index and check value, and refuses any other, which can
only be the last. So the application area holds the image, or all but its last chunk,
and nothing else has changed. -/
theorem sent_image_in_flash (platform : Device.Platform) {image : List UInt8}
    (fits : image.length ≤ appSize.toNat) (loop : Loop) {erase : Attempt}
    (asks : erase.request = some (.bootloader .eraseFirmware))
    (driver : erase.hw.flash.Nvmc) {attempts : List Attempt}
    (inOrder : attempts.map Attempt.index = List.range (chunkCount image))
    (intact : ∀ attempt ∈ attempts, Intact image attempt) :
    ((bus platform).trace (.bootloader loop) (erase :: attempts)).map
        Machine.Transition.output =
      some (.bootloader .ackEraseFirmware) ::
        (List.range (chunkCount image)).map (fun idx => some (answerTo image idx)) ∧
    ∃ next, updated platform loop erase attempts = .bootloader next ∧
      Transferred loop.flash (stored image) next := by
  have count : attempts.length = chunkCount image := by
    have lengths := congrArg List.length inOrder
    rwa [List.length_map, List.length_range] at lengths
  have short : (stored image).length ≤ appSize.toNat := by
    unfold stored
    split
    · exact fits
    · exact (List.length_take_le' _ _).trans fits
  obtain ⟨erased, begun⟩ := transferring_erase platform loop asks driver
  obtain ⟨start, here, empty⟩ := id begun
  rw [here] at begun
  rw [← count] at inOrder
  obtain ⟨answers, logged⟩ := sent_chunks platform fits begun inOrder count.le intact
  rw [count] at answers logged
  rw [stream_whole] at logged
  obtain ⟨next, reached, appended⟩ := logged
  rw [Machine.trace_cons, List.map_cons, Machine.fire_output, erased, here, answers]
  refine ⟨rfl, next, ?_, appended.transferred short⟩
  rw [updated, Machine.run_cons, here, reached]

def word : List UInt8 := [1, 2, 3, 4]

/-- A bootloader on a chip with some flash. -/
def erasable (flash : Flash) : Loop := .start flash fun _ => 0

def busHw : Peripherals := ⟨nvmc, .nor⟩

/-- Transactions that bring a message, and zeros. -/
def attemptOf (index : ℕ) (msg : HostProtocolMessage) : Attempt where
  index := index
  hw := busHw
  radio := ⟨none, false⟩
  bytes := Encode.hostProtocolMessage msg ++ [0, 0]

def wordErase : Attempt := attemptOf 0 (.bootloader .eraseFirmware)

def wordSent : Attempt := attemptOf 0 (blockMessage word 0)

private theorem wordErase_asks : wordErase.request = some (.bootloader .eraseFirmware) := by
  decide

private theorem wordSent_intact : Intact word wordSent := ⟨nvmc_spec, [0, 0], rfl⟩

/-- One word is sent undamaged and stored. -/
theorem sent_image_in_flash_word :
    ∃ next, updated .bare (erasable fun _ => 0) wordErase [wordSent] = .bootloader next ∧
      Transferred (fun _ => 0) (stored word) next := by
  have inOrder : [wordSent].map Attempt.index = List.range (chunkCount word) := by decide
  exact (sent_image_in_flash .bare (by decide) (erasable fun _ => 0) wordErase_asks nvmc_spec
    inOrder (List.forall_mem_singleton.mpr wordSent_intact)).2

/-- The word arrives as something else. -/
def wordGarbled : Attempt := { wordSent with bytes := [0xFF, 9] }

private theorem wordGarbled_query : Spi.bootloaderCommand wordGarbled.request = false := by
  decide

/-- It is sent twice before it is acknowledged. -/
theorem word_completed (flash : Flash) :
    Completed .bare word (erasable flash) wordErase [wordGarbled, wordSent] := by
  obtain ⟨-, start, here, empty⟩ :=
    transferring_erase .bare (erasable flash) wordErase_asks nvmc_spec
  obtain ⟨still, silent⟩ := bus_query .bare start wordGarbled wordGarbled_query
  obtain ⟨answer, -⟩ :=
    sent_chunk .bare (by decide) empty (by decide : wordSent.index < chunkCount word)
      wordSent_intact
  have trace : (bus .bare).trace ((bus .bare).step (.bootloader (erasable flash)) wordErase).1
      [wordGarbled, wordSent] =
        [(bus .bare).fire (.bootloader start) wordGarbled,
          (bus .bare).fire (.bootloader start) wordSent] := by
    rw [here, Machine.trace_cons, Machine.trace_cons, Machine.trace_nil, still]
  refine ⟨wordErase_asks, nvmc_spec, ?_, ?_, ?_⟩
  · refine List.forall_mem_cons.mpr ⟨⟨nvmc_spec, Or.inl wordGarbled_query⟩, ?_⟩
    refine List.forall_mem_singleton.mpr ⟨nvmc_spec, Or.inr ⟨0, word, ?_, ?_⟩⟩
    · exact intact_request wordSent_intact
    · exact Crc32.Burst.refl 4 word
  · rw [trace]
    refine List.forall_mem_cons.mpr ⟨?_, List.forall_mem_singleton.mpr ?_⟩
    · intro blockIdx crc acked
      rw [Machine.fire_output] at acked
      rw [acked] at silent
      cases silent
    · intro blockIdx crc acked
      rw [Machine.fire_output, answer] at acked
      cases acked
      exact ⟨rfl, rfl⟩
  · rw [trace]
    simp only [ackedIndices, List.map_cons, List.map_nil, ackedIndex, Machine.fire_output, silent,
      answer]
    rfl

end PrimeBle.Host
