import PrimeBle.Boot.Main
import PrimeBle.Firmware.System

/-! # The device across resets and boots

After a reset the bootloader runs; it hands over to the application by jumping
to it, and a reset of either, requested or not, leads back to the bootloader.
Flash and UICR are what persists. A request is served by whichever program runs.
-/

namespace PrimeBle

open HostProtocol

inductive Device where
  | bootloader (loop : Boot.Loop)
  | application (flash : Boot.Flash) (uicr : Uicr) (app : Firmware.State)

namespace Device

def flash : Device → Boot.Flash
  | bootloader loop => loop.flash
  | application flash _ _ => flash

def uicr : Device → Uicr
  | bootloader loop => loop.uicr
  | application _ uicr _ => uicr

def isApplication : Device → Bool
  | bootloader _ => false
  | application _ _ _ => true

/-- The device after a reset: the bootloader enters its loop. -/
def start (flash : Boot.Flash) (uicr : Uicr) : Device := bootloader (.start flash uicr)

inductive Event where
  /-- A request arrives and is served on peripherals that behave as given. -/
  | request (hw : Boot.Peripherals) (radio : Firmware.RadioReadings) (request : Request)
  /-- Something else happens to the application. -/
  | background (event : Firmware.Background)
  /-- The chip is reset from outside, between two requests. -/
  | reset

/-- What both programs run on. -/
structure Platform where
  cosign : Boot.Cosign
  firmware : Firmware.Platform

/-- The bootloader's share of the platform. -/
def Platform.boot (platform : Platform) : Boot.Platform where
  cosign := platform.cosign
  hmac := platform.firmware.hmac

/-- A platform for concrete runs, on which no image is signed. -/
def Platform.bare : Platform where
  cosign := { parse _ _ := none, parseUnverified _ _ _ := none }
  firmware := .bare

/-- What an iteration of the bootloader's loop leads to. -/
def ofOutcome : Boot.Outcome → Device × Option HostProtocolMessage
  | .next loop response => (bootloader loop, response)
  | .sysReset loop => (start loop.flash loop.uicr, none)
  | .jumpToApp loop sent => (application loop.flash loop.uicr .start, some sent)

/-- What a step of the application leads to. -/
def ofApplication (flash : Boot.Flash) (uicr : Uicr) (after : Firmware.State × Firmware.Output) :
    Device × Option HostProtocolMessage :=
  match after.1.power with
  | .reset => (start flash uicr, none)
  | _ => (application flash uicr after.1, after.2.response)

/-- A step of the application leads back to the bootloader, and sends nothing, or on,
and sends its response. -/
theorem ofApplication_cases (flash : Boot.Flash) (uicr : Uicr)
    (after : Firmware.State × Firmware.Output) :
    ofApplication flash uicr after = (start flash uicr, none) ∨
      ofApplication flash uicr after = (application flash uicr after.1, after.2.response) := by
  unfold ofApplication
  split
  · exact Or.inl rfl
  · exact Or.inr rfl

/-- A block of an update arrives. -/
abbrev Event.block (hw : Boot.Peripherals) (radio : Firmware.RadioReadings) (idx : UInt32)
    (data : List UInt8) : Event :=
  .request hw radio (some (.bootloader (.writeFirmwareBlock idx data)))

/-- An erase request arrives. -/
abbrev Event.erase (hw : Boot.Peripherals) (radio : Firmware.RadioReadings) : Event :=
  .request hw radio (some (.bootloader .eraseFirmware))

variable (platform : Platform)

def step (device : Device) (event : Event) : Device × Option HostProtocolMessage :=
  match device, event with
  | bootloader loop, .request hw _ request =>
      ofOutcome (Boot.dispatch platform.boot hw loop request)
  | application flash uicr app, .request _ radio request =>
      ofApplication flash uicr (Firmware.step platform.firmware uicr app (.request radio request))
  | bootloader loop, .background _ => (bootloader loop, none)
  | application flash uicr app, .background event =>
      ofApplication flash uicr (Firmware.step platform.firmware uicr app (.background event))
  | device, .reset => (start device.flash device.uicr, none)

/-- The device, from one event to the next. -/
def machine : Machine Device Event (Option HostProtocolMessage) where
  step := step platform

abbrev Transition := Machine.Transition Device Event (Option HostProtocolMessage)

@[simp] theorem machine_step (device : Device) (event : Event) :
    (machine platform).step device event = step platform device event := rfl

@[simp] theorem step_block (loop : Boot.Loop) (hw : Boot.Peripherals)
    (radio : Firmware.RadioReadings) (idx : UInt32) (data : List UInt8) :
    step platform (bootloader loop) (.block hw radio idx data) =
      (bootloader (Boot.writeFirmwareBlock hw.flash loop idx data).1,
        some (.bootloader (Boot.writeFirmwareBlock hw.flash loop idx data).2)) := rfl

@[simp] theorem step_erase (loop : Boot.Loop) (hw : Boot.Peripherals)
    (radio : Firmware.RadioReadings) :
    step platform (bootloader loop) (.erase hw radio) =
      (bootloader (Boot.eraseFirmware hw.flash loop).1,
        some (.bootloader (Boot.eraseFirmware hw.flash loop).2)) := rfl

/-- The application never writes flash or UICR. -/
theorem step_application (flash : Boot.Flash) (uicr : Uicr) (app : Firmware.State)
    (event : Event) :
    (step platform (application flash uicr app) event).1 = start flash uicr ∨
      ∃ next, (step platform (application flash uicr app) event).1 =
        application flash uicr next := by
  have kept : ∀ after, (ofApplication flash uicr after).1 = start flash uicr ∨
      ∃ next, (ofApplication flash uicr after).1 = application flash uicr next := by
    intro after
    rcases ofApplication_cases flash uicr after with left | stays
    · exact Or.inl (congrArg Prod.fst left)
    · exact Or.inr ⟨_, congrArg Prod.fst stays⟩
  cases event with
  | request hw radio request => exact kept _
  | background event => exact kept _
  | reset => exact Or.inl rfl

/-- The predicate holds of the loop whenever the bootloader runs. -/
def AtLoop (predicate : Boot.Loop → Prop) : Device → Prop
  | bootloader loop => predicate loop
  | application _ _ _ => True

/-- What holds of every fresh loop and survives the requests that the loop goes
on after holds at the head of the loop. -/
theorem atLoop_step {predicate : Boot.Loop → Prop} {device : Device} {event : Event}
    (before : device.AtLoop predicate)
    (fresh : ∀ flash uicr, predicate (.start flash uicr))
    (served : ∀ loop hw radio request next response, device = bootloader loop →
      event = .request hw radio request →
      Boot.dispatch platform.boot hw loop request = .next next response → predicate next) :
    (step platform device event).1.AtLoop predicate := by
  cases device with
  | application flash uicr app =>
      rcases step_application platform flash uicr app event with reset | ⟨next, same⟩
      · rw [reset]
        exact fresh flash uicr
      · rw [same]
        trivial
  | bootloader loop =>
      cases event with
      | background event => exact before
      | reset => exact fresh loop.flash loop.uicr
      | request hw radio request =>
          change (ofOutcome (Boot.dispatch platform.boot hw loop request)).1.AtLoop predicate
          cases outcome : Boot.dispatch platform.boot hw loop request with
          | next next response =>
              exact served loop hw radio request next response rfl rfl outcome
          | sysReset next => exact fresh next.flash next.uicr
          | jumpToApp next sent => trivial

end Device

end PrimeBle
