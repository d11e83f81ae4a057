import PrimeBle.Analyzer.Agreement
import PrimeBle.Spi.Framing

/-! # What the analyzer shows of a transaction

The direction of a transaction is guessed from its bytes. The analyzer shows every
message in a request and in a response, whatever else is on the lines
(`Analyzer.shows_transactions`), since the length in front of a response is never
taken for an idle line or for the mark of a target.
-/

namespace PrimeBle.Analyzer

open HostProtocol Postcard

section Texts

theorem append_ne_empty {before after : String} (ends : after ≠ "") : before ++ after ≠ "" :=
  fun empty => ends (String.append_eq_empty_iff.mp empty).2

/-- What is shown of a message is not empty. -/
theorem describe_ne_empty (msg : HostProtocolMessage) : describe msg ≠ "" := by
  cases msg with
  | bluetooth msg =>
      cases msg with
      | disableChannels _ | sendData _ | sendDataResponse _ | receivedData _
      | ackFirmwareVersion _ | ackBtAddress _ | setTxPower _ | ackDeviceId _ | setDeviceName _
      | echo _ | echoResponse _ => exact append_ne_empty (by decide)
      | status status =>
          obtain ⟨connection, queueOverflow⟩ := status
          cases connection with
          | _ => exact append_ne_empty (by decide)
      | _ => decide
  | bootloader msg =>
      cases msg with
      | ackVerifyFirmware _ _ | nackWithIdx _ | ackWithIdx _ | ackWithIdxCrc _ _
      | writeFirmwareBlock _ _ | firmwareOutOfBounds _ | ackFirmwareVersion _
      | ackBootloaderVersion _ | ackChallengeSet _ | bootFirmware _ =>
          exact append_ne_empty (by decide)
      | challengeSet secret =>
          have name : "BL::ChallengeSet" ≠ "" := by decide
          exact name
      | _ => decide
  | challengeResult result =>
      have name : "ChallengeResult" ≠ "" := by decide
      exact name
  | ackState _ | challengeRequest _ | postcardError _ | inappropriateMessage _ =>
      exact append_ne_empty (by decide)
  | _ => decide

/-- A message is shown wherever its encoding comes first. -/
theorem shown_encode {msg : HostProtocolMessage} (sized : msg.Sized) (padding : List UInt8) :
    HostProtocolAnalyzer.shown (Encode.hostProtocolMessage msg ++ padding) =
      some (describe msg) := by
  have carries : (Encode.hostProtocolMessage msg ++ padding).isEmpty = false :=
    List.isEmpty_eq_false_iff.mpr fun empty =>
      encode_ne_nil msg (List.append_eq_nil_iff.mp empty).1
  have text : decodeMessage (Encode.hostProtocolMessage msg ++ padding) = some (describe msg) := by
    rw [decodeMessage, carries]
    exact shows_message sized padding
  rw [HostProtocolAnalyzer.shown, text]
  exact Option.filter_some_pos (decide_eq_true (describe_ne_empty msg))

theorem utf8ByteSize_le (text : String) : text.utf8ByteSize ≤ (Encode.str text).length := by
  change text.toUTF8.data.toList.length ≤ (Encode.usize _ ++ text.toUTF8.data.toList).length
  rw [List.length_append]
  exact Nat.le_add_left _ _

/-- What fits a frame has short texts and data. -/
theorem sized_of_fits {msg : HostProtocolMessage}
    (fits : (Encode.hostProtocolMessage msg).length ≤ maxMsgSize - 2) : msg.Sized := by
  have small : maxMsgSize - 2 < 2 ^ 32 := by decide
  have text : ∀ outer inner version,
      (Encode.variant outer ++ (Encode.variant inner ++ Encode.str version)).length ≤
        maxMsgSize - 2 → version.utf8ByteSize < 2 ^ 32 := by
    intro outer inner version fits
    have length := utf8ByteSize_le version
    simp only [List.length_append] at fits
    omega
  cases msg with
  | bluetooth msg =>
      cases msg with
      | ackFirmwareVersion version => exact text 0 15 version fits
      | _ => exact trivial
  | bootloader msg =>
      cases msg with
      | ackFirmwareVersion version => exact text 1 13 version fits
      | ackBootloaderVersion version => exact text 1 15 version fits
      | writeFirmwareBlock blockIdx blockData =>
          change (Encode.variant 1 ++ (Encode.variant 9 ++ (Encode.usize blockIdx ++
            (Encode.usize _ ++ blockData)))).length ≤ _ at fits
          simp only [List.length_append] at fits
          change blockData.length < 2 ^ 32
          omega
      | _ => exact trivial
  | _ => exact trivial

end Texts

section Transactions

open Spi

variable {Time : Type}

/-- What one frame of the SPI analyzer transfers. -/
structure Word (Time : Type) where
  mosi : List UInt8
  miso : List UInt8
  startTime : Time
  endTime : Time

def Word.frame (word : Word Time) : SpiFrame Time :=
  .result word.mosi word.miso word.startTime word.endTime

/-- A transaction as it is captured: the chip is selected, words are transferred,
and the chip is deselected. -/
def transaction (selected deselected : Time × Time) (words : List (Word Time)) :
    List (SpiFrame Time) :=
  .enable selected.1 selected.2 ::
    (words.map Word.frame ++ [.disable deselected.1 deselected.2])

/-- What the analyzer shows along a capture. -/
def frames (analyzer : HostProtocolAnalyzer Time) (capture : List (SpiFrame Time)) :
    List (AnalyzerFrame Time) :=
  ((machine Time).trace analyzer capture).filterMap Machine.Transition.output

/-- Words are collected, and nothing is shown meanwhile. -/
theorem collects (analyzer : HostProtocolAnalyzer Time) (words : List (Word Time)) :
    frames analyzer (words.map Word.frame) = [] ∧
      ∃ endTime, (machine Time).run analyzer (words.map Word.frame) =
        { analyzer with
          mosi := analyzer.mosi ++ words.flatMap Word.mosi
          miso := analyzer.miso ++ words.flatMap Word.miso
          endTime } := by
  induction words generalizing analyzer with
  | nil =>
      refine ⟨rfl, analyzer.endTime, ?_⟩
      simp only [List.map_nil, Machine.run_nil, List.flatMap_nil, List.append_nil]
  | cons word words ih =>
      obtain ⟨silent, endTime, collected⟩ := ih (decode analyzer word.frame).1
      refine ⟨silent, endTime, ?_⟩
      have next := collected
      simp only [decode, Word.frame] at next
      simp only [List.map_cons, Machine.run_cons, List.flatMap_cons, ← List.append_assoc]
      exact next

/-- The analyzer when a transaction ends. -/
def collected (selected deselected : Time × Time) (words : List (Word Time)) :
    HostProtocolAnalyzer Time where
  mosi := words.flatMap Word.mosi
  miso := words.flatMap Word.miso
  startTime := some selected.1
  endTime := some deselected.2

/-- **Transactions.** Whatever was captured before, the analyzer shows a
transaction by the bytes of its two lines. -/
theorem frames_transaction (analyzer : HostProtocolAnalyzer Time)
    (selected deselected : Time × Time) (words : List (Word Time)) :
    frames analyzer (transaction selected deselected words) =
      (collected selected deselected words).processTransaction.toList := by
  obtain ⟨silent, endTime, ran⟩ :=
    collects { HostProtocolAnalyzer.reset with startTime := some selected.1 } words
  have split : frames analyzer (transaction selected deselected words) =
      frames { HostProtocolAnalyzer.reset with startTime := some selected.1 }
          (words.map Word.frame) ++
        frames ((machine Time).run
            { HostProtocolAnalyzer.reset with startTime := some selected.1 }
            (words.map Word.frame)) [.disable deselected.1 deselected.2] := by
    simp only [frames, transaction, Machine.trace_cons, Machine.trace_append,
      List.filterMap_cons, List.filterMap_append, Machine.fire_output]
    rfl
  rw [split, silent, ran, List.nil_append]
  simp only [frames, Machine.trace_cons, Machine.trace_nil, machine, decode,
    Option.isNone_some, Bool.false_eq_true, ↓reduceIte, HostProtocolAnalyzer.reset,
    List.nil_append]
  change List.filterMap _ [_] = (collected selected deselected words).processTransaction.toList
  cases shows : (collected selected deselected words).processTransaction with
  | none => exact List.filterMap_cons_none shows
  | some frame => exact List.filterMap_cons_some shows

/-- The line carries nothing, or starts with the mark of a target. -/
def Idle (miso : List UInt8) : Prop :=
  miso.all (· == 0) = true ∨ miso.head? = some 0x69 ∨ miso.head? = some 0x51

/-- The target that marks the line. -/
def targetOf (miso : List UInt8) : String :=
  if miso.head? = some 0x69 then "Bootloader"
  else if miso.head? = some 0x51 then "Application"
  else ""

section Process

variable (analyzer : HostProtocolAnalyzer Time) {msg : HostProtocolMessage}

theorem requestFrame_encode (sized : msg.Sized) {padding : List UInt8}
    (carried : analyzer.mosi = Encode.hostProtocolMessage msg ++ padding) (target : String) :
    analyzer.requestFrame target = some (analyzer.frame (.request (describe msg) target)) := by
  rw [HostProtocolAnalyzer.requestFrame, carried, shown_encode sized padding]

/-- A line that starts with anything but zero is not all zeros. -/
theorem all_zero_of_head {miso : List UInt8} {first : UInt8} (starts : miso.head? = some first)
    (nonzero : first ≠ 0) : miso.all (· == 0) = false := by
  obtain ⟨rest, rfl⟩ := List.head?_eq_some_iff.mp starts
  rw [List.all_cons, beq_eq_false_iff_ne.mpr nonzero, Bool.false_and]

/-- A request is shown with the target that marks the other line. -/
theorem process_request (sized : msg.Sized) {padding : List UInt8}
    (carried : analyzer.mosi = Encode.hostProtocolMessage msg ++ padding)
    (idle : Idle analyzer.miso) :
    analyzer.processTransaction =
      some (analyzer.frame (.request (describe msg) (targetOf analyzer.miso))) := by
  have some_mosi : analyzer.mosi.isEmpty = false := by
    rw [carried]
    exact List.isEmpty_eq_false_iff.mpr fun empty =>
      encode_ne_nil msg (List.append_eq_nil_iff.mp empty).1
  have marked : ∀ first name, analyzer.miso.head? = some first → first ≠ 0 →
      misoTarget first.toNat = some name →
      analyzer.processTransaction = analyzer.requestFrame name := by
    intro first name starts nonzero known
    simp only [HostProtocolAnalyzer.processTransaction, some_mosi, Bool.false_and,
      Bool.false_eq_true, ↓reduceIte, all_zero_of_head starts nonzero, starts, Option.bind_some,
      known]
  rcases idle with zeros | bootloader | application
  · have unmarked : ∀ first, first ≠ 0 → analyzer.miso.head? ≠ some first :=
      fun first nonzero starts =>
        Bool.noConfusion (zeros.symm.trans (all_zero_of_head starts nonzero))
    have target : targetOf analyzer.miso = "" := by
      rw [targetOf, if_neg (unmarked _ (by decide)), if_neg (unmarked _ (by decide))]
    simp only [HostProtocolAnalyzer.processTransaction, some_mosi, Bool.false_and,
      Bool.false_eq_true, ↓reduceIte, zeros, target]
    exact requestFrame_encode analyzer sized carried ""
  · rw [marked 0x69 "Bootloader" bootloader (by decide) rfl, targetOf, if_pos bootloader]
    exact requestFrame_encode analyzer sized carried _
  · have other : analyzer.miso.head? ≠ some 0x69 := by
      rw [application]
      decide
    rw [marked 0x51 "Application" application (by decide) rfl, targetOf, if_neg other,
      if_pos application]
    exact requestFrame_encode analyzer sized carried _

/-- The length is read as it was written. -/
theorem or_announced (high low : UInt8) :
    high.toNat <<< 8 ||| low.toNat = announced high low := by
  rw [← Nat.shiftLeft_add_eq_or_of_lt low.toNat_lt, Nat.shiftLeft_eq]
  rfl

/-- A response is shown whatever the other line carries. -/
theorem process_response {padding : List UInt8}
    (fits : (Encode.hostProtocolMessage msg).length ≤ maxMsgSize - 2)
    (carried : analyzer.miso =
      lengthPrefix (UInt16.ofNat (Encode.hostProtocolMessage msg).length) ++
        Encode.hostProtocolMessage msg ++ padding) :
    analyzer.processTransaction = some (analyzer.frame (.response (describe msg))) := by
  have most : maxMsgSize - 2 = 268 := rfl
  have positive := List.length_pos_iff.mpr (encode_ne_nil msg)
  obtain ⟨high, low, written, length⟩ :=
    lengthPrefix_eq (Nat.lt_of_le_of_lt fits (by decide) :
      (Encode.hostProtocolMessage msg).length < 2 ^ 16)
  have line : analyzer.miso = high :: low :: (Encode.hostProtocolMessage msg ++ padding) := by
    rw [carried, written, List.append_assoc]
    rfl
  have parts : high.toNat * 256 + low.toNat = (Encode.hostProtocolMessage msg).length := length
  have nonzero : analyzer.miso.all (· == 0) = false := by
    by_contra zeros
    rw [Bool.not_eq_false, line] at zeros
    simp only [List.all_cons, Bool.and_eq_true, beq_iff_eq] at zeros
    obtain ⟨rfl, rfl, -⟩ := zeros
    exact absurd parts (Nat.ne_of_lt positive)
  have unmarked : misoTarget high.toNat = none := by
    have small : ∀ first < 2, misoTarget first = none := by decide
    exact small _ (by omega)
  have text : HostProtocolAnalyzer.responseText analyzer.miso = some (describe msg) := by
    have carries : Encode.hostProtocolMessage msg ++ padding ≠ [] := fun empty =>
      encode_ne_nil msg (List.append_eq_nil_iff.mp empty).1
    have within : (Encode.hostProtocolMessage msg).length ≤
        (Encode.hostProtocolMessage msg ++ padding).length := by
      rw [List.length_append]
      exact Nat.le_add_right _ _
    have shown := shown_encode (sized_of_fits fits) []
    rw [List.append_nil] at shown
    simp only [line, HostProtocolAnalyzer.responseText, or_announced, length]
    rw [if_pos ⟨carries, positive, within⟩, List.take_left, shown]
  have some_miso : analyzer.miso.isEmpty = false := by
    rw [line]
    rfl
  have starts : analyzer.miso.head? = some high := by
    rw [line]
    rfl
  simp only [HostProtocolAnalyzer.processTransaction, some_miso, Bool.and_false,
    Bool.false_eq_true, ↓reduceIte, nonzero, starts, Option.bind_some, unmarked, text]

end Process

/-- **Agreement.** Whatever was captured before, the analyzer shows every message
in a request, behind which there may be padding, and in a response of any size
that fits its frame, as it is described. -/
theorem shows_transactions (analyzer : HostProtocolAnalyzer Time)
    (selected deselected : Time × Time) (words : List (Word Time)) (msg : HostProtocolMessage)
    (padding : List UInt8) :
    (msg.Sized → words.flatMap Word.mosi = Encode.hostProtocolMessage msg ++ padding →
      Idle (words.flatMap Word.miso) →
      frames analyzer (transaction selected deselected words) =
        [{ bubble := .request (describe msg) (targetOf (words.flatMap Word.miso))
           startTime := some selected.1
           endTime := some deselected.2 }]) ∧
    ((Encode.hostProtocolMessage msg).length ≤ maxMsgSize - 2 →
      words.flatMap Word.miso =
        lengthPrefix (UInt16.ofNat (Encode.hostProtocolMessage msg).length) ++
          Encode.hostProtocolMessage msg ++ padding →
      frames analyzer (transaction selected deselected words) =
        [{ bubble := .response (describe msg)
           startTime := some selected.1
           endTime := some deselected.2 }]) := by
  constructor
  · intro sized carried idle
    have shows := process_request (collected selected deselected words) sized carried idle
    rw [frames_transaction, shows]
    rfl
  · intro fits carried
    have shows := process_response (collected selected deselected words) fits carried
    rw [frames_transaction, shows]
    rfl

end Transactions

end PrimeBle.Analyzer
