import PrimeBle.Update.Transfer

/-! # Re-sending blocks

A host cuts an image into blocks of 256 bytes, sends them in order and may send
a block again whose acknowledgement it missed. The bootloader echoes the index
of a block but places it at the running offset, so a block that is sent again is
appended once more. The area ends up with the image exactly when every block
sent carries the bytes that the image has where the block lands
(`Update.holds_iff_inPlace`).
-/

namespace PrimeBle.Update

open Boot Device

/-- The size of the blocks an image is cut into. -/
def blockSize : ℕ := 256

/-- The block of an image with the given index. -/
def block (image : List UInt8) (index : ℕ) : List UInt8 :=
  (image.drop (blockSize * index)).take blockSize

def blockCount (image : List UInt8) : ℕ := (image.length + (blockSize - 1)) / blockSize

/-- The blocks below `next` have been acknowledged; sending the listed ones, each
the next one or one of these, gets to `last`. -/
inductive Retransmission : (next : ℕ) → List ℕ → (last : ℕ) → Prop where
  | done {next : ℕ} : Retransmission next [] next
  | fresh {next last : ℕ} {sent : List ℕ} (rest : Retransmission (next + 1) sent last) :
      Retransmission next (next :: sent) last
  | again {next index last : ℕ} {sent : List ℕ} (earlier : index < next)
      (rest : Retransmission next sent last) : Retransmission next (index :: sent) last

/-- The requests that send blocks of an image. -/
def sending (hw : Peripherals) (radio : Firmware.RadioReadings) (image : List UInt8)
    (sent : List ℕ) : List Device.Event :=
  sent.map fun index => .block hw radio (UInt32.ofNat index) (block image index)

/-- The application area holds the image and nothing else. -/
def Holds (flash : Flash) (image : List UInt8) : Prop :=
  image.length ≤ appSize.toNat ∧
    ∀ index < appSize.toNat, flash (baseAppAddr.toNat + index) = image.getD index erasedByte

/-- Laid end to end from an offset on, the blocks sent carry what the image has
there, where there is nothing but erased bytes after its end. -/
def InPlace (image : List UInt8) (offset : ℕ) : List ℕ → Prop
  | [] => True
  | index :: sent =>
      (∀ position < (block image index).length, offset + position < appSize.toNat →
        (block image index).getD position erasedByte =
          image.getD (offset + position) erasedByte) ∧
      InPlace image (offset + (block image index).length) sent

/-- What has been sent, end to end. -/
def stream (image : List UInt8) (sent : List ℕ) : List UInt8 := (sent.map (block image)).flatten

theorem inPlace_iff (image : List UInt8) (offset : ℕ) (sent : List ℕ) :
    InPlace image offset sent ↔
      ∀ position < (stream image sent).length, offset + position < appSize.toNat →
        (stream image sent).getD position erasedByte =
          image.getD (offset + position) erasedByte := by
  induction sent generalizing offset with
  | nil =>
      refine ⟨fun _ position below => ?_, fun _ => trivial⟩
      cases below
  | cons index sent ih =>
      have split : stream image (index :: sent) = block image index ++ stream image sent := rfl
      unfold InPlace
      rw [ih, split, List.length_append]
      constructor
      · intro ⟨here, later⟩ position below inside
        by_cases first : position < (block image index).length
        · rw [List.getD_append _ _ _ _ first]
          exact here position first inside
        · have place := later (position - (block image index).length) (by omega) (by omega)
          rw [List.getD_append_right _ _ _ _ (by omega), place]
          congr 1
          omega
      · intro all
        refine ⟨fun position first inside => ?_, fun position below inside => ?_⟩
        · have place := all position (by omega) inside
          rw [List.getD_append _ _ _ _ first] at place
          exact place
        · have place := all ((block image index).length + position) (by omega) (by omega)
          rw [List.getD_append_right _ _ _ _ (by omega), Nat.add_sub_cancel_left] at place
          rw [place, Nat.add_assoc]

/-- Every block sent for the first time makes the stream as long as the part of
the image up to its end. -/
theorem Retransmission.covers (image : List UInt8) {next last : ℕ} {sent : List ℕ}
    (pattern : Retransmission next sent last) :
    (image.take (blockSize * last)).length ≤
      (image.take (blockSize * next)).length + (stream image sent).length := by
  induction pattern with
  | done => exact Nat.le_add_right _ _
  | @fresh next last sent rest ih =>
      have split : stream image (next :: sent) = block image next ++ stream image sent := rfl
      rw [split, List.length_append]
      unfold block
      rw [Nat.mul_succ] at ih
      simp only [List.length_take, List.length_drop] at ih ⊢
      omega
  | @again next index last sent earlier rest ih =>
      have split : stream image (index :: sent) = block image index ++ stream image sent := rfl
      rw [split, List.length_append]
      omega

theorem take_blockCount (image : List UInt8) :
    image.take (blockSize * blockCount image) = image := by
  apply List.take_of_length_le
  unfold blockCount blockSize
  omega

theorem stream_append_singleton (image : List UInt8) (sent : List ℕ) (index : ℕ) :
    stream image (sent ++ [index]) = stream image sent ++ block image index := by
  unfold stream
  rw [List.map_append, List.flatten_append, List.map_singleton, List.flatten_singleton]

/-- The first blocks in order are the beginning of the image. -/
theorem stream_range (image : List UInt8) (count : ℕ) :
    stream image (List.range count) = image.take (blockSize * count) := by
  induction count with
  | zero => rfl
  | succ count ih =>
      rw [List.range_succ, stream_append_singleton, ih, Nat.mul_succ, List.take_add]
      rfl

/-- Nothing is sent twice: the stream is the image. -/
theorem stream_inOrder (image : List UInt8) :
    stream image (List.range (blockCount image)) = image := by
  rw [stream_range, take_blockCount]

/-- A transmission in order is in place. -/
theorem inPlace_inOrder {image : List UInt8} {sent : List ℕ}
    (inOrder : sent = List.range (blockCount image)) : InPlace image 0 sent := by
  rw [inPlace_iff, inOrder, stream_inOrder]
  intro position below inside
  rw [Nat.zero_add]

/-- Every block is acknowledged when it is sent for the first time. When it is sent
again it may be refused. -/
def FirstAcked (platform : Device.Platform) (device : Device) (hw : Peripherals)
    (radio : Firmware.RadioReadings) (image : List UInt8) (sent : List ℕ) : Prop :=
  ∀ before index after, sent = before ++ index :: after → index ∉ before →
    isAck ((machine platform).step ((machine platform).run device (sending hw radio image before))
      (.block hw radio (UInt32.ofNat index) (block image index))).2 = true

/-- The loop after some transmissions: the next one lands right behind them, unless they
have run past the area. -/
structure Sent (image : List UInt8) (sent : List ℕ) (loop : Loop) : Prop where
  logged : loop.flash.Logged baseAppAddr.toNat baseBootloaderAddr.toNat erasedByte
    (stream image sent)
  cursor : loop.bootStatus.offset.toNat = (stream image sent).length ∧
      (stream image sent).length % 4 = 0 ∨
    appSize.toNat < loop.bootStatus.offset.toNat ∧ appSize.toNat < (stream image sent).length
  words : ∀ index ∈ sent, (block image index).length % 4 = 0

section Sending

variable {image : List UInt8} {sent : List ℕ} {loop : Loop}

/-- What has not run past the area is a log. -/
theorem Sent.appended (state : Sent image sent loop)
    (below : loop.bootStatus.offset.toNat ≤ appSize.toNat) :
    Appended loop.flash (stream image sent) loop := by
  rcases state.cursor with ⟨offset, aligned⟩ | ⟨above, -⟩
  · exact ⟨offset, aligned, state.logged, fun _ _ _ => rfl⟩
  · exact absurd below (Nat.not_le.mpr above)

/-- A block that is accepted lands behind what was sent before. -/
theorem Sent.accepted {driver : FlashDriver} (spec : driver.Nvmc) (state : Sent image sent loop)
    (idx : UInt32) {index : ℕ} (accepts : loop.Accepts driver (block image index)) :
    Sent image (sent ++ [index])
      (writeFirmwareBlock driver loop idx (block image index)).1 := by
  obtain ⟨inArea, words⟩ := (Loop.accepts_iff spec).mp accepts
  have next := appended_block spec (state.appended ((Loop.inArea_iff loop).mp inArea)) idx accepts
  rw [← stream_append_singleton] at next
  refine ⟨next.logged, Or.inl ⟨next.offset, next.aligned⟩, fun other member => ?_⟩
  rcases List.mem_append.mp member with earlier | last
  · exact state.words other earlier
  · rw [List.mem_singleton.mp last]
    exact words.2.1

/-- A block that was sent before is only refused once the area is full, and nothing
of it would have landed there. -/
theorem Sent.refused {driver : FlashDriver} (spec : driver.Nvmc) (state : Sent image sent loop)
    (idx : UInt32) {index : ℕ} (again : index ∈ sent)
    (refused : ¬ loop.Accepts driver (block image index)) :
    Sent image (sent ++ [index])
      (writeFirmwareBlock driver loop idx (block image index)).1 := by
  have words := state.words index again
  have short : (block image index).length ≤ rawBufSize :=
    Nat.le_trans (List.length_take_le blockSize _) (by decide)
  have size : baseBootloaderAddr.toNat = baseAppAddr.toNat + appSize.toNat := rfl
  have above : appSize.toNat < loop.bootStatus.offset.toNat := by
    by_contra below
    have log := state.appended (Nat.not_lt.mp below)
    have aligned := log.aligned
    rw [← log.offset] at aligned
    exact refused (Loop.accepts_of_words spec (Nat.not_lt.mp below) aligned words short)
  have full : appSize.toNat < (stream image sent).length := by
    rcases state.cursor with ⟨offset, -⟩ | ⟨-, full⟩
    · exact offset ▸ above
    · exact full
  rw [refused_block spec idx refused]
  refine ⟨fun place inside => ?_, Or.inr ⟨above, ?_⟩, fun other member => ?_⟩
  · rw [stream_append_singleton, List.getD_append _ _ _ _ (by omega)]
    exact state.logged place inside
  · rw [stream_append_singleton, List.length_append]
    exact Nat.lt_add_right _ full
  · rcases List.mem_append.mp member with earlier | last
    · exact state.words other earlier
    · rw [List.mem_singleton.mp last]
      exact words

/-- **Transmissions.** Whatever is sent lands behind what was sent before, as far as it
lands in the area, if all blocks are accepted at first. -/
theorem sent_run (platform : Device.Platform) {hw : Peripherals} (spec : hw.flash.Nvmc)
    (radio : Firmware.RadioReadings) {done : List ℕ} (state : Sent image done loop)
    (acked : ∀ before index after, sent = before ++ index :: after → index ∉ done ++ before →
      isAck ((machine platform).step ((machine platform).run (.bootloader loop)
        (sending hw radio image before))
        (.block hw radio (UInt32.ofNat index) (block image index))).2 = true) :
    ∃ next, (machine platform).run (.bootloader loop) (sending hw radio image sent) =
      .bootloader next ∧ Sent image (done ++ sent) next := by
  induction sent generalizing done loop with
  | nil => exact ⟨loop, rfl, by rwa [List.append_nil]⟩
  | cons index sent ih =>
      have step : Sent image (done ++ [index]) (writeFirmwareBlock hw.flash loop
          (UInt32.ofNat index) (block image index)).1 := by
        by_cases accepts : loop.Accepts hw.flash (block image index)
        · exact state.accepted spec _ accepts
        · by_cases again : index ∈ done
          · exact state.refused spec _ again accepts
          · have ack := acked [] index sent rfl (by rwa [List.append_nil])
            exact absurd ((isAck_iff_accepts platform radio _).mp ack) accepts
      obtain ⟨next, reached, final⟩ := ih step fun before other after split fresh =>
        acked (index :: before) other after (congrArg (index :: ·) split)
          (by rwa [List.append_cons])
      refine ⟨next, reached, ?_⟩
      rwa [List.append_cons]

/-- The area holds what was sent, in the order in which it was sent. -/
theorem sending_logged (platform : Device.Platform) (loop : Loop) {hw : Peripherals}
    (spec : hw.flash.Nvmc) (radio : Firmware.RadioReadings) (image : List UInt8)
    (sent : List ℕ)
    (acked : FirstAcked platform (afterErase platform loop hw radio) hw radio image sent) :
    ((machine platform).run (afterErase platform loop hw radio)
      (sending hw radio image sent)).flash.Logged baseAppAddr.toNat baseBootloaderAddr.toNat
        erasedByte (stream image sent) := by
  obtain ⟨erased, here, empty⟩ := transferring_afterErase platform loop spec radio
  have start : Sent image [] erased := ⟨empty.logged, Or.inl ⟨empty.offset, rfl⟩, nofun⟩
  rw [here] at acked ⊢
  obtain ⟨next, reached, final⟩ := sent_run platform spec radio start acked
  rw [reached]
  exact final.logged

/-- If everything is acknowledged, so is what is sent for the first time. -/
theorem firstAcked_of_acked {platform : Device.Platform} {device : Device} {hw : Peripherals}
    {radio : Firmware.RadioReadings}
    (acked : ∀ transition ∈ (machine platform).trace device (sending hw radio image sent),
      isAck transition.output = true) :
    FirstAcked platform device hw radio image sent := by
  rintro before index after rfl -
  have split : sending hw radio image (before ++ index :: after) =
      sending hw radio image before ++
        .block hw radio (UInt32.ofNat index) (block image index) ::
          sending hw radio image after := List.map_append
  rw [split] at acked
  exact acked _ ((machine platform).fire_mem_trace device _ _ _)

end Sending

theorem holds_iff_stream {flash : Flash} {image : List UInt8} {sent : List ℕ}
    (logged : flash.Logged baseAppAddr.toNat baseBootloaderAddr.toNat erasedByte
      (stream image sent)) :
    Holds flash image ↔ image.length ≤ appSize.toNat ∧ ∀ index < appSize.toNat,
      (stream image sent).getD index erasedByte = image.getD index erasedByte := by
  have size : baseBootloaderAddr.toNat = baseAppAddr.toNat + appSize.toNat := rfl
  unfold Holds
  apply and_congr_right
  intro fits
  apply forall₂_congr
  intro index inside
  rw [logged index (by omega)]

/-- **Re-sending.** Once every block has been acknowledged, whatever became of those
sent again, the area holds the image exactly when the image fits and everything sent is
in place. -/
theorem holds_iff_inPlace (platform : Device.Platform) (loop : Loop) {hw : Peripherals}
    (spec : hw.flash.Nvmc) (radio : Firmware.RadioReadings) (image : List UInt8)
    {sent : List ℕ} (pattern : Retransmission 0 sent (blockCount image))
    (acked : FirstAcked platform (afterErase platform loop hw radio) hw radio image sent) :
    Holds ((machine platform).run (afterErase platform loop hw radio)
        (sending hw radio image sent)).flash image ↔
      image.length ≤ appSize.toNat ∧ InPlace image 0 sent := by
  rw [holds_iff_stream (sending_logged platform loop spec radio image sent acked), inPlace_iff]
  apply and_congr_right
  intro fits
  have covers := pattern.covers image
  rw [take_blockCount, Nat.mul_zero, List.take_zero, List.length_nil, Nat.zero_add] at covers
  constructor
  · intro same position below inside
    rw [Nat.zero_add] at inside ⊢
    exact same position inside
  · intro same index inside
    by_cases below : index < (stream image sent).length
    · have place := same index below (by omega)
      rw [Nat.zero_add] at place
      exact place
    · rw [List.getD_eq_default _ _ (by omega), List.getD_eq_default _ _ (by omega)]

private def twoBlocks : List UInt8 := List.replicate 256 0 ++ [1, 1, 1, 1]

private theorem twoBlocks_count : blockCount twoBlocks = 2 := by decide +kernel

private def blankLoop : Loop := .start (fun _ => erasedByte) (fun _ => 0)

private def plainHw : Peripherals := ⟨nvmc, .nor⟩

/-- Two blocks sent in order are held. -/
theorem holds_iff_inPlace_inOrder :
    Holds ((machine .bare).run (afterErase .bare blankLoop plainHw ⟨none, false⟩)
      (sending plainHw ⟨none, false⟩ twoBlocks [0, 1])).flash twoBlocks := by
  have acked : ∀ transition ∈ (machine .bare).trace
      (afterErase .bare blankLoop plainHw ⟨none, false⟩)
      (sending plainHw ⟨none, false⟩ twoBlocks [0, 1]), isAck transition.output = true := by
    decide +kernel
  have pattern : Retransmission 0 [0, 1] (blockCount twoBlocks) := by
    rw [twoBlocks_count]
    exact .fresh (.fresh .done)
  have fits : twoBlocks.length ≤ appSize.toNat := by decide +kernel
  have indices : List.range (blockCount twoBlocks) = [0, 1] := by
    rw [twoBlocks_count]
    rfl
  exact (holds_iff_inPlace .bare blankLoop nvmc_spec ⟨none, false⟩ twoBlocks pattern
    (firstAcked_of_acked acked)).mpr ⟨fits, inPlace_inOrder indices.symm⟩

/-- The first block is sent again, and the second one ends up behind its copy. -/
theorem resent_block_displaces :
    Retransmission 0 [0, 0, 1] (blockCount twoBlocks) ∧
      (∀ transition ∈ (machine .bare).trace (afterErase .bare blankLoop plainHw ⟨none, false⟩)
        (sending plainHw ⟨none, false⟩ twoBlocks [0, 0, 1]), isAck transition.output = true) ∧
      ¬ Holds ((machine .bare).run (afterErase .bare blankLoop plainHw ⟨none, false⟩)
        (sending plainHw ⟨none, false⟩ twoBlocks [0, 0, 1])).flash twoBlocks := by
  have acked : ∀ transition ∈ (machine .bare).trace
      (afterErase .bare blankLoop plainHw ⟨none, false⟩)
      (sending plainHw ⟨none, false⟩ twoBlocks [0, 0, 1]), isAck transition.output = true := by
    decide +kernel
  have pattern : Retransmission 0 [0, 0, 1] (blockCount twoBlocks) := by
    rw [twoBlocks_count]
    exact .fresh (.again Nat.zero_lt_one (.fresh .done))
  refine ⟨pattern, acked, ?_⟩
  intro holds
  have same := ((holds_iff_stream (sending_logged .bare blankLoop nvmc_spec ⟨none, false⟩
    twoBlocks [0, 0, 1] (firstAcked_of_acked acked))).mp holds).2 256 (by decide)
  have different : (stream twoBlocks [0, 0, 1]).getD 256 erasedByte ≠
      twoBlocks.getD 256 erasedByte := by decide +kernel
  exact different same

end PrimeBle.Update
