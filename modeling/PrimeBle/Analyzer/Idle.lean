import PrimeBle.Analyzer.Transactions

/-! # Idle polling

A transaction with only zeros on both lines should not be shown. But three zeros on
MOSI are a message, the one that disables no channels, and what follows it counts as
padding. So such transactions are ignored exactly when they are shorter
(`Analyzer.ignores_polling_iff`).
-/

namespace PrimeBle.Analyzer

open HostProtocol

variable {Time : Type}

/-- Every byte on both lines is zero. -/
structure Polls (words : List (Word Time)) : Prop where
  mosi : ∀ byte ∈ words.flatMap Word.mosi, byte = 0
  miso : ∀ byte ∈ words.flatMap Word.miso, byte = 0

/-- The message that three zeros encode. -/
def disableNone : HostProtocolMessage := .bluetooth (.disableChannels ⟨0⟩)

theorem encode_disableNone : Encode.hostProtocolMessage disableNone = List.replicate 3 0 := by
  decide

/-- Fewer zeros do not decode. -/
theorem shown_short {count : ℕ} (short : count < 3) :
    HostProtocolAnalyzer.shown (List.replicate count 0) = none := by
  have cases : ∀ count < 3, decodeMessage (List.replicate count 0) = none := by decide
  rw [HostProtocolAnalyzer.shown, cases count short, Option.filter_none]

theorem idle_of_zeros {miso : List UInt8} (zeros : ∀ byte ∈ miso, byte = 0) :
    miso.all (· == 0) = true :=
  List.all_eq_true.mpr fun byte present => beq_iff_eq.mpr (zeros byte present)

section Process

variable (analyzer : HostProtocolAnalyzer Time)
  (mosi : ∀ byte ∈ analyzer.mosi, byte = 0) (miso : ∀ byte ∈ analyzer.miso, byte = 0)
include mosi miso

/-- Zeros are not an error. -/
theorem undecoded_zeros : analyzer.undecoded = none := by
  have quiet : ∀ line : List UInt8, (∀ byte ∈ line, byte = 0) → line.any (· != 0) = false :=
    fun line zeros => List.any_eq_false.mpr fun byte present => by
      rw [zeros byte present]
      decide
  simp only [HostProtocolAnalyzer.undecoded, quiet _ mosi, quiet _ miso, Bool.or_self,
    Bool.false_eq_true, ↓reduceIte]

theorem process_short (short : analyzer.mosi.length < 3) :
    analyzer.processTransaction = none := by
  have line : analyzer.mosi = List.replicate analyzer.mosi.length 0 :=
    List.eq_replicate_of_mem mosi
  have silent : analyzer.requestFrame "" = none := by
    rw [HostProtocolAnalyzer.requestFrame, line, shown_short short]
    exact undecoded_zeros analyzer mosi miso
  simp only [HostProtocolAnalyzer.processTransaction, idle_of_zeros miso, silent, ↓reduceIte,
    ite_self]

theorem process_long (long : 3 ≤ analyzer.mosi.length) :
    analyzer.processTransaction =
      some (analyzer.frame (.request (describe disableNone) (targetOf analyzer.miso))) := by
  have line : analyzer.mosi = Encode.hostProtocolMessage disableNone ++
      List.replicate (analyzer.mosi.length - 3) 0 := by
    rw [encode_disableNone, List.replicate_append_replicate, Nat.add_sub_cancel' long]
    exact List.eq_replicate_of_mem mosi
  exact process_request analyzer trivial line (.inl (idle_of_zeros miso))

end Process

/-- **Idle polling.** Whatever was captured before, a transaction of zeros is ignored
exactly when fewer than three bytes are sent to the target. -/
theorem ignores_polling_iff (analyzer : HostProtocolAnalyzer Time)
    (selected deselected : Time × Time) (words : List (Word Time)) (polls : Polls words) :
    frames analyzer (transaction selected deselected words) = [] ↔
      (words.flatMap Word.mosi).length < 3 := by
  rw [frames_transaction, Option.toList_eq_nil_iff]
  constructor
  · intro ignored
    by_contra long
    have shown := process_long (collected selected deselected words) polls.mosi polls.miso
      (not_lt.mp long)
    cases shown.symm.trans ignored
  · intro short
    exact process_short (collected selected deselected words) polls.mosi polls.miso short

/-- A poll of zeros, one byte in each direction at a time. -/
def poll (count : ℕ) : List (Word ℕ) :=
  List.replicate count { mosi := [0], miso := [0], startTime := 0, endTime := 0 }

theorem poll_polls (count : ℕ) : Polls (poll count) := by
  constructor
  · intro byte present
    obtain ⟨word, sent, carried⟩ := List.mem_flatMap.mp present
    rw [(List.mem_replicate.mp sent).2] at carried
    exact List.mem_singleton.mp carried
  · intro byte present
    obtain ⟨word, sent, carried⟩ := List.mem_flatMap.mp present
    rw [(List.mem_replicate.mp sent).2] at carried
    exact List.mem_singleton.mp carried

/-- Two bytes are ignored. -/
theorem ignores_poll_two : frames .reset (transaction (0, 0) (0, 0) (poll 2)) = [] :=
  (ignores_polling_iff _ _ _ _ (poll_polls 2)).mpr (by decide)

/-- Three are shown as a request. -/
theorem shows_poll_three :
    Polls (poll 3) ∧ frames .reset (transaction (0, 0) (0, 0) (poll 3)) =
      [{ bubble := .request "BT::DisableChannels(0x00)" "", startTime := some 0,
         endTime := some 0 }] := by
  refine ⟨poll_polls 3, ?_⟩
  rfl

end PrimeBle.Analyzer
