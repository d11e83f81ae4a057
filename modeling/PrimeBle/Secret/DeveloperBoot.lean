import PrimeBle.Secret.Registers

/-! # The secret and developer firmware

Before it boots developer firmware on a device whose secret is sealed, the
bootloader wipes the secret, but it ignores whether the wipe succeeded. Developer
firmware never runs with the secret in place exactly when every write of every
wipe takes effect (`Secret.developerSafe_iff_wipeTakes`).
-/

namespace PrimeBle.Secret

open Boot Device HostProtocol

/-- The secret has been sealed; if it has been wiped, its words are zero. -/
def Provisioned (uicr : Uicr) : Prop :=
  uicr.sealRegister = uicrSealedSecret ∨
    (uicr.sealRegister = uicrSealedWiped ∧ uicr.secret = List.replicate 8 0)

/-- A register write clears bits or has no effect. -/
def MayFail (event : Device.Event) : Prop :=
  ∀ hw radio request, event = .request hw radio request → ∀ index old new,
    hw.customer index old new = old ∨ hw.customer index old new = old &&& new

/-- Developer firmware that is booted does not find the secret. -/
def DeveloperSafe (transition : Device.Transition) : Prop :=
  ∀ loop hw radio flash uicr app, transition.source = .bootloader loop →
    transition.event = bootEvent hw radio .developer →
    transition.target = .application flash uicr app →
    uicr.sealRegister ≠ uicrSealedSecret ∧ uicr.secret = List.replicate 8 0

/-- If an event makes the bootloader wipe the secret, all the register writes of
the wipe take effect. -/
def WipeTakes (platform : Device.Platform) (device : Device) (event : Device.Event) : Prop :=
  ∀ loop hw radio, device = .bootloader loop → event = bootEvent hw radio .developer →
    VerifiesTwice platform loop.flash .developer → loop.uicr.sealRegister = uicrSealedSecret →
    Takes hw.customer loop.uicr (Vector.replicate 8 0) ∧
      hw.customer uicrSealIndex uicrSealedSecret uicrSealedWiped ≠ uicrSealedSecret

/-- What holds between any two steps. -/
def Guarded (device : Device) : Prop := Provisioned device.uicr ∧ device.AtLoop Cached

/-- A wipe that fails in part leaves the secret sealed. -/
theorem provisioned_wiped {write : CellWrite UInt32} {uicr : Uicr}
    (mayFail : ∀ index old new, write index old new = old ∨ write index old new = old &&& new)
    (sealing : uicr.sealRegister = uicrSealedSecret) : Provisioned (wiped write uicr) := by
  by_cases takes : Takes write uicr (Vector.replicate 8 0)
  · obtain ⟨-, words, sealAfter⟩ := writeSecret_of_takes takes uicrSealedWiped
    rw [sealing] at sealAfter
    rcases mayFail uicrSealIndex uicrSealedSecret uicrSealedWiped with kept | cleared
    · exact Or.inl (sealAfter.trans kept)
    · exact Or.inr ⟨sealAfter.trans (cleared.trans (by decide)), words⟩
  · obtain ⟨-, -, sealAfter⟩ := writeSecret_of_fails takes uicrSealedWiped
    exact Or.inl (sealAfter.trans sealing)

theorem guarded_step (platform : Device.Platform) {device : Device} {event : Device.Event}
    (guarded : Guarded device) (mayFail : MayFail event) :
    Guarded (step platform device event).1 := by
  obtain ⟨provisioned, cached⟩ := guarded
  rcases step_cases platform device event with
    untouched | ⟨loop, hw, radio, secret, rfl, rfl⟩ | ⟨loop, hw, radio, rfl, rfl, verifies, sealing⟩
  · refine ⟨?_, untouched.cached cached⟩
    rw [untouched.uicr]
    exact provisioned
  · have known : loop.cachedSeal = uicrSealedSecret ∨ loop.cachedSeal = uicrSealedWiped := by
      rw [cached]
      exact provisioned.imp id And.left
    rw [step_challengeSet, challengeSet_notAllowed known]
    exact ⟨provisioned, cached⟩
  · have wipes : loop.cachedSeal = uicrSealedSecret ∧ TrustLevel.developer = .developer :=
      ⟨sealing, rfl⟩
    rw [step_boot_of_verifies platform _ radio verifies, if_pos wipes]
    exact ⟨provisioned_wiped (mayFail hw radio _ rfl) (cached.symm.trans sealing), trivial⟩

theorem developerSafe_of_wipeTakes (platform : Device.Platform) {device : Device}
    {event : Device.Event} (guarded : Guarded device) (takes : WipeTakes platform device event) :
    DeveloperSafe ((machine platform).fire device event) := by
  rintro loop hw radio flash uicr app rfl rfl booted
  obtain ⟨provisioned, cached⟩ := guarded
  rw [Machine.fire_target, machine_step] at booted
  by_cases verifies : VerifiesTwice platform loop.flash .developer
  · rw [step_boot_of_verifies platform _ radio verifies] at booted
    by_cases sealing : loop.cachedSeal = uicrSealedSecret
    · have wipes : loop.cachedSeal = uicrSealedSecret ∧ TrustLevel.developer = .developer :=
        ⟨sealing, rfl⟩
      rw [if_pos wipes] at booted
      cases booted
      have before := cached.symm.trans sealing
      obtain ⟨cleared, sealed⟩ := takes loop hw radio rfl rfl verifies before
      obtain ⟨-, words, sealAfter⟩ := writeSecret_of_takes cleared uicrSealedWiped
      rw [before] at sealAfter
      refine ⟨?_, words⟩
      intro still
      exact sealed (sealAfter.symm.trans still)
    · have spared : ¬ (loop.cachedSeal = uicrSealedSecret ∧ TrustLevel.developer = .developer) :=
        fun wipes => sealing wipes.1
      rw [if_neg spared] at booted
      cases booted
      have notSealed : loop.uicr.sealRegister ≠ uicrSealedSecret := by
        rw [← cached]
        exact sealing
      exact ⟨notSealed, (provisioned.resolve_left notSealed).2⟩
  · rw [step_boot_of_fails platform _ radio verifies] at booted
    cases booted

theorem wipeTakes_of_developerSafe (platform : Device.Platform) {device : Device}
    {event : Device.Event} (guarded : Guarded device)
    (safe : DeveloperSafe ((machine platform).fire device event)) :
    WipeTakes platform device event := by
  rintro loop hw radio rfl rfl verifies before
  have wipes : loop.cachedSeal = uicrSealedSecret ∧ TrustLevel.developer = .developer :=
    ⟨guarded.2.trans before, rfl⟩
  have booted : (step platform (.bootloader loop) (bootEvent hw radio .developer)).1 = _ :=
    step_boot_of_verifies platform _ radio verifies
  rw [if_pos wipes] at booted
  obtain ⟨sealed, words⟩ := safe loop hw radio _ _ _ rfl rfl booted
  by_cases takes : Takes hw.customer loop.uicr (Vector.replicate 8 0)
  · refine ⟨takes, ?_⟩
    obtain ⟨-, -, sealAfter⟩ := writeSecret_of_takes takes uicrSealedWiped
    rw [before] at sealAfter
    intro kept
    exact sealed (sealAfter.trans kept)
  · exact absurd words (writeSecret_of_fails takes uicrSealedWiped).2.1

/-- **Developer boots.** From any provisioned state on, with register writes that
may fail, no developer firmware that is booted finds the secret exactly when
every wipe takes effect. -/
theorem developerSafe_iff_wipeTakes (platform : Device.Platform) (flash : Flash) {uicr : Uicr}
    (provisioned : Provisioned uicr) {events : List Device.Event}
    (mayFail : ∀ event ∈ events, MayFail event) :
    (∀ transition ∈ (machine platform).trace (.start flash uicr) events,
        DeveloperSafe transition) ↔
      ∀ transition ∈ (machine platform).trace (.start flash uicr) events,
        WipeTakes platform transition.source transition.event := by
  have kept : ∀ device event, Guarded device → MayFail event → WipeTakes platform device event →
      DeveloperSafe ((machine platform).fire device event) ∧
        Guarded ((machine platform).step device event).1 :=
    fun device event guarded mayFail takes =>
      ⟨developerSafe_of_wipeTakes platform guarded takes, guarded_step platform guarded mayFail⟩
  have needed : ∀ device event, Guarded device → MayFail event →
      DeveloperSafe ((machine platform).fire device event) → WipeTakes platform device event :=
    fun device event guarded _ => wipeTakes_of_developerSafe platform guarded
  have start : Guarded (.start flash uicr) := ⟨provisioned, rfl⟩
  exact (machine platform).forall_trace_iff_of_valid kept needed start mayFail

/-- A platform on which the image in flash is signed by a developer. -/
def developerSigned : Device.Platform where
  cosign :=
    { parse _ _ := some ⟨"1.0.0", "Jan 01 2025", false, Vector.replicate 32 0⟩
      parseUnverified _ _ _ := some ⟨"1.0.0", "Jan 01 2025", false, Vector.replicate 32 0⟩ }
  firmware := Device.Platform.bare.firmware

private def sealedUicr : Uicr := fun index => if index = uicrSealIndex then uicrSealedSecret else 1

private theorem sealedUicr_provisioned : Provisioned sealedUicr := Or.inl rfl

private def developerBoot (write : CellWrite UInt32) : Device.Event :=
  bootEvent ⟨nvmc, write⟩ ⟨none, false⟩ .developer

private theorem developerSigned_verifies (flash : Flash) :
    VerifiesTwice developerSigned flash .developer := by
  refine ⟨Vector.replicate 32 0, ?_⟩
  unfold verifyFwImage readVersionAndBuildDate
  rfl

private theorem step_developerBoot (flash : Flash) (write : CellWrite UInt32) :
    (step developerSigned (.start flash sealedUicr) (developerBoot write)).1 =
      .application flash (wiped write sealedUicr) .start := by
  have wipes : (Loop.start flash sealedUicr).cachedSeal = uicrSealedSecret ∧
      TrustLevel.developer = .developer := ⟨rfl, rfl⟩
  have booted : (step developerSigned (.bootloader (.start flash sealedUicr))
      (developerBoot write)).1 = _ :=
    step_boot_of_verifies developerSigned _ ⟨none, false⟩ (developerSigned_verifies flash)
  rw [if_pos wipes] at booted
  exact booted

/-- All writes of the wipe take effect. -/
theorem developerSafe_iff_wipeTakes_nor :
    DeveloperSafe ((machine developerSigned).fire (.start (fun _ => 0) sealedUicr)
      (developerBoot .nor)) := by
  have mayFail : ∀ event ∈ [developerBoot .nor], MayFail event := by
    intro event member hw radio request sent index old new
    rw [List.mem_singleton.mp member] at sent
    cases sent
    exact Or.inr rfl
  have takes : ∀ transition ∈ (machine developerSigned).trace (.start (fun _ => 0) sealedUicr)
      [developerBoot .nor], WipeTakes developerSigned transition.source transition.event := by
    intro transition member
    rw [List.mem_singleton.mp member]
    rintro loop hw radio - sent - -
    cases sent
    refine ⟨?_, by decide⟩
    intro index below
    rw [Vector.getElem_replicate]
    exact UInt32.and_zero
  have safe := (developerSafe_iff_wipeTakes developerSigned _ sealedUicr_provisioned mayFail).mpr
    takes
  exact safe _ (List.mem_singleton.mpr rfl)

/-- No register write of the wipe takes effect, and the firmware is booted all the
same. -/
theorem failedWipe_not_developerSafe :
    ¬ ∀ transition ∈ (machine developerSigned).trace (.start (fun _ => 0) sealedUicr)
      [developerBoot fun _ old _ => old], DeveloperSafe transition := by
  intro safe
  have here := safe _ (List.mem_singleton.mpr rfl)
  have words := (here _ _ _ _ _ _ rfl rfl (step_developerBoot _ _)).2
  have fails : ¬ Takes (fun _ old _ => old) sealedUicr (Vector.replicate 8 0) := by
    intro takes
    exact absurd (takes 0 (by decide)) (by decide)
  exact (writeSecret_of_fails fails uicrSealedWiped).2.1 words

end PrimeBle.Secret
