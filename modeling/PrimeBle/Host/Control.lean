import PrimeBle.HostProtocol.Encode
import PrimeBle.Library.Cobs
import PrimeBle.Library.Crc32
import PrimeBle.Library.Machine

/-! # The host's control program

To update the application the program asks for an erase and then sends the image in
chunks, each in a frame on a serial line. It reads what comes back into the buffer
that it built the frame in, and decodes it there. Whatever the line brings, the
program asks for the erase and the chunks in turn, each once, and a receiver that cuts
the line at its zeros gets these messages (`Host.written_script`). An answer that comes
whole is what it acts on, whatever else is in the buffer (`Host.heard_whole`).
-/

namespace PrimeBle.Host

open HostProtocol

/-- The size of the chunks an update is cut into. -/
def chunkSize : ℕ := 256

/-- The size of the buffer, large enough for all messages. -/
def bufSize : ℕ := 512

/-- Serialize a message into a frame, if the buffer has room for it. -/
def toSliceCobs (msg : HostProtocolMessage) : Option (List UInt8) :=
  let frame := Cobs.frame (Encode.hostProtocolMessage msg)
  if frame.length ≤ bufSize then some frame else none

/-- What is written to the front of a buffer leaves the rest as it was. -/
def overwrite (buf bytes : List UInt8) : List UInt8 := bytes ++ buf.drop bytes.length

/-- Decode the frame at the front of the buffer, in place. -/
def fromBytesCobs (buf : List UInt8) : Option (HostProtocolMessage × List UInt8) :=
  (Cobs.decode buf).bind fun data =>
    (fromBytes data.length data).map fun msg => (msg, overwrite buf data)

/-- A chunk of the update file. -/
def chunk (image : List UInt8) (idx : ℕ) : List UInt8 :=
  (image.drop (chunkSize * idx)).take chunkSize

/-- How many chunks there are. -/
def chunkCount (image : List UInt8) : ℕ := (image.length + (chunkSize - 1)) / chunkSize

/-- The message that carries a chunk. Its index has 32 bits, as on the device. -/
def blockMessage (image : List UInt8) (idx : ℕ) : HostProtocolMessage :=
  .bootloader (.writeFirmwareBlock (UInt32.ofNat idx) (chunk image idx))

/-- The check value of a chunk. -/
def crcPkt (image : List UInt8) (idx : ℕ) : UInt32 := Crc32.iscsi.checksum (chunk image idx)

/-- How far the program has come. -/
inductive Progress where
  /-- It is about to ask for the erase. -/
  | erasing
  /-- It sends the chunks. -/
  | sending
  | left
  | panicked
  deriving DecidableEq, Repr

/-- What the program keeps besides its buffer. -/
structure Stage where
  progress : Progress
  /-- The next chunk. -/
  next : ℕ
  /-- How many chunks were acknowledged, which the program prints one by one. -/
  acked : ℕ
  deriving DecidableEq, Repr

def Stage.start : Stage := ⟨.erasing, 0, 0⟩

section Turns

variable (image : List UInt8)

/-- What the program asks for in its next turn. -/
def Stage.ask (stage : Stage) : Option HostProtocolMessage :=
  match stage.progress with
  | .erasing => some (.bootloader .eraseFirmware)
  | .sending => if stage.next < chunkCount image then some (blockMessage image stage.next) else none
  | .left | .panicked => none

/-- The program goes on after a turn. -/
def Stage.goOn (stage : Stage) : Stage :=
  match stage.progress with
  | .erasing => { stage with progress := .sending, next := 0 }
  | _ => { stage with next := stage.next + 1 }

/-- The program ends after a turn. -/
def Stage.stop (stage : Stage) (progress : Progress) : Stage :=
  { stage.goOn with progress }

/-- The answer to the erase. -/
def Stage.hearErase (stage : Stage) : HostProtocolMessage → Stage
  | .bootloader .ackEraseFirmware => stage.goOn
  | _ => stage.stop .left

/-- The answer to a chunk. -/
def Stage.hearBlock (stage : Stage) : HostProtocolMessage → Stage
  | .bootloader (.ackWithIdxCrc blockIdx crc) =>
      if blockIdx = UInt32.ofNat stage.next ∧ crc = crcPkt image stage.next then
        { stage.goOn with acked := stage.acked + 1 }
      else stage.stop .left
  | .bootloader (.nackWithIdx _) => stage.stop .left
  | _ => stage.goOn

/-- What the program makes of an answer. -/
def Stage.hear (stage : Stage) (msg : HostProtocolMessage) : Stage :=
  match stage.progress with
  | .erasing => stage.hearErase msg
  | _ => stage.hearBlock image msg

/-- What a read from the serial line brings within its time limit. -/
inductive Reading where
  | timeout
  | failed
  | received (bytes : List UInt8)
  deriving DecidableEq, Repr

/-- The program and its buffer. -/
structure Session where
  stage : Stage
  buf : List UInt8

def Session.start : Session := ⟨.start, List.replicate bufSize 0⟩

/-- Put bytes in the buffer. -/
def Session.fill (session : Session) (bytes : List UInt8) : Session :=
  { session with buf := overwrite session.buf bytes }

/-- Decode what is in the buffer and act on it. -/
def Session.decode (session : Session) : Session :=
  match fromBytesCobs session.buf with
  | none => { session with stage := session.stage.stop .panicked }
  | some (msg, buf) => ⟨session.stage.hear image msg, buf⟩

/-- What the program makes of what it read, after it has built a frame in its buffer. -/
def Session.read (session : Session) : Reading → Session
  | .timeout => { session with stage := session.stage.stop .left }
  | .failed =>
      -- The erase is not checked for a failed read: the frame of the request is decoded.
      match session.stage.progress with
      | .erasing => session.decode image
      | _ => { session with stage := session.stage.goOn }
  | .received bytes => (session.fill (bytes.take bufSize)).decode image

/-- One turn of the program, with what it writes to the line. -/
def Session.step (session : Session) (reading : Reading) : Session × List UInt8 :=
  match session.stage.ask image with
  | none => (session, [])
  | some request =>
      match toSliceCobs request with
      | none => ({ session with stage := session.stage.stop .panicked }, [])
      | some frame => ((session.fill frame).read image reading, frame)

/-- The program, from one turn to the next. -/
def control : Machine Session Reading (List UInt8) where
  step := Session.step image

@[simp] theorem control_step (session : Session) (reading : Reading) :
    (control image).step session reading = session.step image reading := rfl

/-- What the program asks for, in turn. -/
def script : List HostProtocolMessage :=
  .bootloader .eraseFirmware :: (List.range (chunkCount image)).map (blockMessage image)

/-- What a receiver makes of the bytes on the line. -/
def messages (bytes : List UInt8) : List (Option HostProtocolMessage) :=
  (Cobs.receive bytes).map fun data => data.bind fun data => fromBytes data.length data

end Turns

section Frames

theorem length_chunk_le (image : List UInt8) (idx : ℕ) : (chunk image idx).length ≤ chunkSize :=
  List.length_take_le _ _

/-- The message of a chunk is little longer than the chunk. -/
theorem length_blockMessage_le (image : List UInt8) (idx : ℕ) :
    (Encode.hostProtocolMessage (blockMessage image idx)).length ≤ 20 + chunkSize := by
  have data := Postcard.length_bytes_le (chunk image idx)
  have index : (Postcard.Encode.usize (UInt32.ofNat idx)).length ≤ 5 :=
    Postcard.length_u32_le (UInt32.ofNat idx)
  have outer := Postcard.length_variant_le 1
  have inner := Postcard.length_variant_le 9
  have short := length_chunk_le image idx
  simp only [blockMessage, Encode.hostProtocolMessage, Encode.bootloader, List.length_append]
  omega

/-- The frame of a chunk fits the buffer. -/
theorem length_frame_block_le (image : List UInt8) (idx : ℕ) :
    (Cobs.frame (Encode.hostProtocolMessage (blockMessage image idx))).length ≤ bufSize := by
  have frame := Cobs.length_frame_le (Encode.hostProtocolMessage (blockMessage image idx))
  have encoded := length_blockMessage_le image idx
  unfold Cobs.blockMax at frame
  unfold chunkSize at encoded
  unfold bufSize
  omega

/-- A message whose frame is at the front of the buffer is what is decoded there. -/
theorem fromBytesCobs_frame {msg : HostProtocolMessage} (sized : msg.Sized)
    (rest : List UInt8) :
    (fromBytesCobs (Cobs.frame (Encode.hostProtocolMessage msg) ++ rest)).map Prod.fst =
      some msg := by
  have decoded := fromBytes_encode sized (Nat.le_refl _) []
  rw [List.append_nil] at decoded
  rw [fromBytesCobs, Cobs.decode_frame, Option.bind_some, decoded]
  rfl

/-- Messages are received from the frames they were sent in. -/
theorem messages_frames {msgs : List HostProtocolMessage} (sized : ∀ msg ∈ msgs, msg.Sized) :
    messages (msgs.map fun msg => Cobs.frame (Encode.hostProtocolMessage msg)).flatten =
      msgs.map some := by
  have split : (msgs.map fun msg => Cobs.frame (Encode.hostProtocolMessage msg)) =
      (msgs.map Encode.hostProtocolMessage).map Cobs.frame := by
    rw [List.map_map]
    rfl
  rw [messages, split, Cobs.receive_frames, List.map_map, List.map_map]
  refine List.map_congr_left fun msg member => ?_
  have decoded := fromBytes_encode (sized msg member) (Nat.le_refl _) []
  rw [List.append_nil] at decoded
  exact decoded

end Frames

section Turns

variable (image : List UInt8) (stage : Stage)

/-- How many requests were made so far. -/
def Stage.asked : ℕ :=
  match stage.progress with
  | .erasing => 0
  | _ => stage.next + 1

@[simp] theorem asked_goOn : stage.goOn.asked = stage.asked + 1 := by
  obtain ⟨progress, next, acked⟩ := stage
  cases progress with
  | _ => rfl

@[simp] theorem asked_stop {progress : Progress} (ended : progress ≠ .erasing) :
    (stage.stop progress).asked = stage.asked + 1 := by
  obtain ⟨before, next, acked⟩ := stage
  cases progress with
  | erasing => exact absurd rfl ended
  | _ =>
      cases before with
      | _ => rfl

theorem asked_hearErase (msg : HostProtocolMessage) :
    (stage.hearErase msg).asked = stage.asked + 1 := by
  unfold Stage.hearErase
  split
  · exact asked_goOn stage
  · exact asked_stop stage Progress.noConfusion

theorem asked_hearBlock (msg : HostProtocolMessage) :
    (stage.hearBlock image msg).asked = stage.asked + 1 := by
  unfold Stage.hearBlock
  split
  · split
    · exact asked_goOn stage
    · exact asked_stop stage Progress.noConfusion
  · exact asked_stop stage Progress.noConfusion
  · exact asked_goOn stage

/-- An answer ends the turn, whatever it is. -/
theorem asked_hear (msg : HostProtocolMessage) :
    (stage.hear image msg).asked = stage.asked + 1 := by
  unfold Stage.hear
  split
  · exact asked_hearErase stage msg
  · exact asked_hearBlock image stage msg

theorem asked_decode (session : Session) :
    (session.decode image).stage.asked = session.stage.asked + 1 := by
  unfold Session.decode
  split
  · exact asked_stop session.stage Progress.noConfusion
  · exact asked_hear image session.stage _

/-- So does no answer. -/
theorem asked_read (session : Session) (reading : Reading) :
    (session.read image reading).stage.asked = session.stage.asked + 1 := by
  cases reading with
  | timeout => exact asked_stop session.stage Progress.noConfusion
  | failed =>
      unfold Session.read
      simp only
      split
      · exact asked_decode image session
      · exact asked_goOn session.stage
  | received bytes => exact asked_decode image _

end Turns

section Script

variable {image : List UInt8} {stage : Stage}

/-- Every request has a frame that fits the buffer. -/
theorem toSliceCobs_ask {request : HostProtocolMessage} (asks : stage.ask image = some request) :
    toSliceCobs request = some (Cobs.frame (Encode.hostProtocolMessage request)) := by
  unfold Stage.ask at asks
  split at asks
  · cases asks
    rfl
  · split at asks
    · cases asks
      exact if_pos (length_frame_block_le image stage.next)
    · cases asks
  · cases asks
  · cases asks

/-- The program asks for what the script has next. -/
theorem script_asked {request : HostProtocolMessage} (asks : stage.ask image = some request) :
    (script image)[stage.asked]? = some request := by
  obtain ⟨progress, next, acked⟩ := stage
  cases progress with
  | erasing => exact asks
  | sending =>
      have more : next < chunkCount image := by
        by_contra ended
        cases (if_neg ended).symm.trans asks
      have request := (if_pos more).symm.trans asks
      simp only [script, Stage.asked, List.getElem?_cons_succ, List.getElem?_map,
        List.getElem?_range more]
      exact request
  | left => cases asks
  | panicked => cases asks

/-- The program has not ended. -/
def Stage.Going (stage : Stage) : Prop :=
  stage.progress = .erasing ∨ stage.progress = .sending

/-- Until it ends, the program only rests at the end of the script. -/
theorem asked_of_silent (silent : stage.ask image = none) (going : stage.Going) :
    (script image).length ≤ stage.asked := by
  obtain ⟨progress, next, acked⟩ := stage
  rcases going with erasing | sending
  · cases erasing
    cases silent
  · cases sending
    have ended : ¬ next < chunkCount image := fun more => by
      cases (if_pos more).symm.trans silent
    simp only [script, Stage.asked, List.length_cons, List.length_map, List.length_range]
    omega

theorem silent_of_ended (ended : ¬ stage.Going) : stage.ask image = none := by
  obtain ⟨progress, next, acked⟩ := stage
  cases progress with
  | erasing => exact absurd (Or.inl rfl) ended
  | sending => exact absurd (Or.inr rfl) ended
  | left => rfl
  | panicked => rfl

/-- **Turns.** The program rests, or it writes the frame of what the script has next. -/
theorem step_cases (session : Session) (reading : Reading) :
    (session.stage.ask image = none ∧ session.step image reading = (session, [])) ∨
      ∃ request, (script image)[session.stage.asked]? = some request ∧
        session.step image reading =
          ((session.fill (Cobs.frame (Encode.hostProtocolMessage request))).read image reading,
            Cobs.frame (Encode.hostProtocolMessage request)) := by
  cases asks : session.stage.ask image with
  | none =>
      refine Or.inl ⟨rfl, ?_⟩
      simp only [Session.step, asks]
  | some request =>
      refine Or.inr ⟨request, script_asked asks, ?_⟩
      simp only [Session.step, asks, toSliceCobs_ask asks]

/-- Every message of the script is received as it was sent. -/
theorem sized_script {msg : HostProtocolMessage} (asked : msg ∈ script image) : msg.Sized := by
  rcases List.mem_cons.mp asked with rfl | block
  · trivial
  · obtain ⟨idx, -, rfl⟩ := List.mem_map.mp block
    exact Nat.lt_of_le_of_lt (length_chunk_le image idx) (by decide)

end Script

section Runs

variable (image : List UInt8)

/-- The frames of the first messages of the script. -/
def frames (count : ℕ) : List UInt8 :=
  (((script image).take count).map fun msg =>
    Cobs.frame (Encode.hostProtocolMessage msg)).flatten

/-- What the program has written. -/
def written (session : Session) (readings : List Reading) : List UInt8 :=
  (((control image).trace session readings).map Machine.Transition.output).flatten

theorem frames_succ {count : ℕ} {request : HostProtocolMessage}
    (asks : (script image)[count]? = some request) :
    frames image (count + 1) =
      frames image count ++ Cobs.frame (Encode.hostProtocolMessage request) := by
  unfold frames
  rw [List.take_add_one, asks, Option.toList_some, List.map_append, List.flatten_append,
    List.map_singleton, List.flatten_singleton]

theorem frames_step (session : Session) (reading : Reading) :
    frames image session.stage.asked ++ (session.step image reading).2 =
      frames image (session.step image reading).1.stage.asked := by
  rcases step_cases session reading with ⟨-, rests⟩ | ⟨request, asks, asked⟩
  · rw [rests, List.append_nil]
  · rw [asked, asked_read]
    exact (frames_succ image asks).symm

/-- What is written goes on with the script where it stood. -/
theorem frames_run (session : Session) (readings : List Reading) :
    frames image session.stage.asked ++ written image session readings =
      frames image ((control image).run session readings).stage.asked := by
  induction readings generalizing session with
  | nil => exact List.append_nil _
  | cons reading readings ih =>
      have first := frames_step image session reading
      have rest := ih (session.step image reading).1
      rw [← first, List.append_assoc] at rest
      exact rest

/-- A turn asks for one message, unless it is the end. -/
theorem asked_step (session : Session) (reading : Reading) :
    (session.step image reading).1.stage.asked ≤ session.stage.asked + 1 ∧
      ((session.step image reading).1.stage.Going → session.stage.Going ∧
        (session.stage.asked + 1 ≤ (session.step image reading).1.stage.asked ∨
          (script image).length ≤ (session.step image reading).1.stage.asked)) := by
  rcases step_cases session reading with ⟨silent, rests⟩ | ⟨request, asks, asked⟩
  · rw [rests]
    exact ⟨Nat.le_succ _, fun going => ⟨going, Or.inr (asked_of_silent silent going)⟩⟩
  · have turned := asked_read image (session.fill (Cobs.frame
      (Encode.hostProtocolMessage request))) reading
    rw [asked]
    refine ⟨turned.le, fun _ => ⟨?_, Or.inl turned.ge⟩⟩
    by_contra ended
    have rests : session.step image reading = (session, []) := by
      simp only [Session.step, silent_of_ended ended]
    have same := congrArg (fun turn : Session × List UInt8 => turn.1.stage.asked)
      (rests.symm.trans asked)
    exact Nat.succ_ne_self _ (turned.symm.trans same.symm)

theorem asked_run (readings : List Reading) :
    ((control image).run .start readings).stage.asked ≤ readings.length ∧
      (((control image).run .start readings).stage.Going →
        min readings.length (script image).length ≤
          ((control image).run .start readings).stage.asked) := by
  induction readings using List.reverseRecOn with
  | nil => exact ⟨Nat.le_refl 0, fun _ => Nat.min_le_left _ _⟩
  | append_singleton readings reading ih =>
      obtain ⟨most, least⟩ := ih
      obtain ⟨one, goes⟩ :=
        asked_step image ((control image).run .start readings) reading
      rw [Machine.run_append, Machine.run_cons, Machine.run_nil, control_step,
        List.length_append, List.length_singleton]
      refine ⟨by omega, fun going => ?_⟩
      obtain ⟨before, turned⟩ := goes going
      have reached := least before
      omega

/-- **The program's script.** Whatever the serial line brings, the program asks for the
erase and then for the chunks in order, each once, and a receiver that cuts the line at
its zeros gets these messages. It has gone through as many as it had turns, or through
all of them, unless it has ended. -/
theorem written_script (readings : List Reading) :
    ∃ count ≤ readings.length,
      messages (written image .start readings) = ((script image).take count).map some ∧
        (((control image).run .start readings).stage.Going →
          min readings.length (script image).length ≤ count) := by
  obtain ⟨most, least⟩ := asked_run image readings
  refine ⟨_, most, ?_, least⟩
  have sent : written image .start readings =
      frames image ((control image).run .start readings).stage.asked :=
    frames_run image .start readings
  rw [sent]
  exact messages_frames fun msg member => sized_script (List.mem_of_mem_take member)

end Runs

section Answers

variable (image : List UInt8)

/-- The program as it deals in messages. -/
def dialogue : Machine Stage HostProtocolMessage (Option HostProtocolMessage) where
  step stage msg :=
    (if stage.ask image = none then stage else stage.hear image msg, stage.ask image)

/-- What is written for a request. -/
def frameOf (request : Option HostProtocolMessage) : List UInt8 :=
  request.elim [] fun msg => Cobs.frame (Encode.hostProtocolMessage msg)

/-- An answer that comes in one piece, with anything behind it. -/
structure Answer where
  msg : HostProtocolMessage
  rest : List UInt8
  sized : msg.Sized
  fits : (Cobs.frame (Encode.hostProtocolMessage msg)).length ≤ bufSize

def Answer.reading (answer : Answer) : Reading :=
  .received (Cobs.frame (Encode.hostProtocolMessage answer.msg) ++ answer.rest)

/-- The program decodes the answer, whatever is in its buffer. -/
theorem read_answer (session : Session) (answer : Answer) :
    (session.read image answer.reading).stage = session.stage.hear image answer.msg := by
  obtain ⟨msg, rest, sized, fits⟩ := answer
  have kept : (Cobs.frame (Encode.hostProtocolMessage msg) ++ rest).take bufSize =
      Cobs.frame (Encode.hostProtocolMessage msg) ++
        rest.take (bufSize - (Cobs.frame (Encode.hostProtocolMessage msg)).length) := by
    rw [List.take_append, List.take_of_length_le fits]
  have decoded := fromBytesCobs_frame sized
    (rest.take (bufSize - (Cobs.frame (Encode.hostProtocolMessage msg)).length) ++
      session.buf.drop ((Cobs.frame (Encode.hostProtocolMessage msg) ++ rest).take
        bufSize).length)
  unfold Answer.reading Session.read Session.decode Session.fill overwrite
  simp only
  rw [kept, List.append_assoc]
  rw [kept] at decoded
  obtain ⟨⟨heard, buf⟩, found, rfl⟩ := Option.map_eq_some_iff.mp decoded
  simp only [found]

/-- **Steps.** A turn in which an answer comes whole is a turn of the dialogue. -/
theorem step_answer (session : Session) (answer : Answer) :
    (session.step image answer.reading).1.stage =
        ((dialogue image).step session.stage answer.msg).1 ∧
      (session.step image answer.reading).2 =
        frameOf ((dialogue image).step session.stage answer.msg).2 := by
  cases asks : session.stage.ask image with
  | none =>
      simp only [Session.step, dialogue, asks, ↓reduceIte]
      exact ⟨trivial, rfl⟩
  | some request =>
      simp only [Session.step, dialogue, asks, toSliceCobs_ask asks, reduceCtorEq, ↓reduceIte]
      exact ⟨read_answer image _ answer, rfl⟩

/-- An answer does not make the dialogue panic. -/
theorem hear_progress (stage : Stage) (msg : HostProtocolMessage)
    (sound : stage.progress ≠ .panicked) : (stage.hear image msg).progress ≠ .panicked := by
  have goesOn : stage.goOn.progress ≠ .panicked := by
    unfold Stage.goOn
    split
    · exact Progress.noConfusion
    · exact sound
  have stops : (stage.stop .left).progress ≠ .panicked := Progress.noConfusion
  unfold Stage.hear
  split
  · unfold Stage.hearErase
    split
    · exact goesOn
    · exact stops
  · unfold Stage.hearBlock
    split
    · split
      · exact goesOn
      · exact stops
    · exact stops
    · exact goesOn

theorem dialogue_progress (msgs : List HostProtocolMessage) :
    ((dialogue image).run .start msgs).progress ≠ .panicked := by
  have start : Stage.start.progress ≠ .panicked := Progress.noConfusion
  have kept : ∀ stage msg, stage.progress ≠ .panicked →
      ((dialogue image).step stage msg).1.progress ≠ .panicked := by
    intro stage msg sound
    simp only [dialogue]
    split
    · exact sound
    · exact hear_progress image stage msg sound
  exact Machine.run_invariant kept start msgs

/-- **Answers are heard.** As long as every answer comes whole, the program deals with
its messages alone, whatever comes behind them and whatever was left in the buffer: it
asks what the dialogue asks, comes as far, and never panics. -/
theorem heard_whole (answers : List Answer) :
    ((control image).run .start (answers.map Answer.reading)).stage =
        (dialogue image).run .start (answers.map Answer.msg) ∧
      ((control image).trace .start (answers.map Answer.reading)).map
          Machine.Transition.output =
        ((dialogue image).trace .start (answers.map Answer.msg)).map
          (fun turn => frameOf turn.output) ∧
      ((dialogue image).run .start (answers.map Answer.msg)).progress ≠ .panicked := by
  have agree : ∀ session : Session,
      ((control image).run session (answers.map Answer.reading)).stage =
          (dialogue image).run session.stage (answers.map Answer.msg) ∧
        ((control image).trace session (answers.map Answer.reading)).map
            Machine.Transition.output =
          ((dialogue image).trace session.stage (answers.map Answer.msg)).map
            (fun turn => frameOf turn.output) := by
    intro session
    induction answers generalizing session with
    | nil => exact ⟨rfl, rfl⟩
    | cons answer answers ih =>
        obtain ⟨stage, asked⟩ := step_answer image session answer
        obtain ⟨final, rest⟩ := ih (session.step image answer.reading).1
        rw [stage] at final rest
        exact ⟨final, List.cons_eq_cons.mpr ⟨asked, rest⟩⟩
  obtain ⟨final, asked⟩ := agree .start
  exact ⟨final, asked, dialogue_progress image _⟩

end Answers

end PrimeBle.Host
