import Esp8266.Timer1.Interrupt
import Esp8266.Waveform.PwmSchedule

/-! Requests are applied to their own waveforms, and waits for the interrupt end. -/
namespace Esp8266.Timer1
open Esp8266.Runs Esp8266.Waveform

structure Watched where
  system : System
  latest : Pin → Times

def Watched.initial : Watched := ⟨.initial, fun _ => ⟨0, 0⟩⟩

def Watched.record (s : Watched) : Action → Pin → Times
  | .advance _ =>
    match s.system.caller with
    | .change r | .enable r => set s.latest r.pin r.times
    | _ => s.latest
  | _ => s.latest

def watched (cpu : Cpu) (flashPin : Pin → Bool) : Machine Watched Action (List Drive) where
  step s action :=
    let next := s.system.step cpu flashPin action
    (⟨next.1, s.record action⟩, next.2)

/-- A call comes when no other one runs, and gives no run time to a waveform that is enabled; and
no interrupt finds a waveform that is being stopped with its change still pending. -/
def Undisturbed (s : System) : Action → Prop
  | .call (.startWaveformClockCycles pin _ runTime) => s.caller = .idle ∧
    ∀ i : Pin, i.val = pin.toNat → s.wvf.waveformEnabled i = true → runTime = 0
  | .call (.stopWaveform _) => s.caller = .idle
  | .interrupt _ _ => ∀ pin, s.caller = .cancel pin → s.wvf.waveformToChange ≠ some pin
  | .advance _ => True

theorem set_congr {α β : Type} (f : α → β) {values : Pin → α} {pin : Pin} {value : α}
    (h : f value = f (values pin)) (i : Pin) : f (set values pin value i) = f (values i) := by
  by_cases hi : i = pin
  · rw [hi, set_same, h]
  · rw [set_other hi]

instance (s : System) (action : Action) : Decidable (Undisturbed s action) :=
  match action with
  | .call (.startWaveformClockCycles pin _ runTime) =>
    inferInstanceAs (Decidable (s.caller = .idle ∧ ∀ i : Pin, i.val = pin.toNat →
      s.wvf.waveformEnabled i = true → runTime = 0))
  | .call (.stopWaveform _) => inferInstanceAs (Decidable (s.caller = .idle))
  | .interrupt _ _ =>
    inferInstanceAs (Decidable (∀ pin : Pin, s.caller = .cancel pin →
      s.wvf.waveformToChange ≠ some pin))
  | .advance _ => isTrue trivial

section Visits
variable {g g' g'' : WVFState}

structure Visited (g g' : WVFState) : Prop where
  toEnable : g'.waveformToEnable = g.waveformToEnable
  toDisable : g'.waveformToDisable = g.waveformToDisable
  newHigh : g'.waveformNewHigh = g.waveformNewHigh
  newLow : g'.waveformNewLow = g.waveformNewLow
  startPin : g'.startPin = g.startPin
  endPin : g'.endPin = g.endPin
  running : g'.timerRunning = g.timerRunning
  expiry : ∀ i, (g'.waveform i).expiryCycle = (g.waveform i).expiryCycle
  enabled : ∀ i, g'.waveformEnabled i = true → g.waveformEnabled i = true
  kept : ∀ i, g.waveformEnabled i = true → (g.waveform i).expiryCycle = 0 →
    g'.waveformEnabled i = true
  times : ∀ i, (g'.waveform i).desired = (g.waveform i).desired ∧
      (g'.waveformToChange = some i ↔ g.waveformToChange = some i) ∨
    g.waveformToChange = some i ∧ g'.waveformToChange = none ∧
      (g'.waveform i).desired = ⟨g.waveformNewHigh, g.waveformNewLow⟩

theorem Visited.refl (g : WVFState) : Visited g g :=
  ⟨rfl, rfl, rfl, rfl, rfl, rfl, rfl, fun _ => rfl, fun _ h => h, fun _ h _ => h,
    fun _ => .inl ⟨rfl, Iff.rfl⟩⟩

theorem Visited.trans (h : Visited g g') (h' : Visited g' g'') : Visited g g'' where
  toEnable := h'.toEnable.trans h.toEnable
  toDisable := h'.toDisable.trans h.toDisable
  newHigh := h'.newHigh.trans h.newHigh
  newLow := h'.newLow.trans h.newLow
  startPin := h'.startPin.trans h.startPin
  endPin := h'.endPin.trans h.endPin
  running := h'.running.trans h.running
  expiry i := (h'.expiry i).trans (h.expiry i)
  enabled i hi := h.enabled i (h'.enabled i hi)
  kept i hi hzero := h'.kept i (h.kept i hi hzero) ((h.expiry i).trans hzero)
  times i := by
    rcases h.times i with ⟨hsame, hchange⟩ | ⟨htaken, hnone, hnew⟩
    · rcases h'.times i with ⟨hsame', hchange'⟩ | ⟨htaken', hnone', hnew'⟩
      · exact .inl ⟨hsame'.trans hsame, hchange'.trans hchange⟩
      · refine .inr ⟨hchange.mp htaken', hnone', ?_⟩
        rw [hnew', h.newHigh, h.newLow]
    · rcases h'.times i with ⟨hsame', hchange'⟩ | ⟨htaken', -, -⟩
      · have hstill : g''.waveformToChange = none := by
          cases hcase : g''.waveformToChange with
          | none => rfl
          | some j =>
            rcases h'.times j with ⟨-, hchange''⟩ | ⟨htaken', -, -⟩
            · exact nomatch hnone.symm.trans (hchange''.mp hcase)
            · exact nomatch hnone.symm.trans htaken'
        exact .inr ⟨htaken, hstill, hsame'.trans hnew⟩
      · rw [hnone] at htaken'
        exact nomatch htaken'

theorem toggle_visited (adjust : UInt32 → UInt32) (now : UInt32) (i : Pin) :
    Visited g (g.toggle adjust now i) := by
  unfold WVFState.toggle
  dsimp only
  split
  · exact ⟨rfl, rfl, rfl, rfl, rfl, rfl, rfl, set_congr Wave.expiryCycle rfl, fun _ h => h,
      fun _ h _ => h, fun j => .inl ⟨set_congr Wave.desired (by rfl) j, Iff.rfl⟩⟩
  · by_cases hchange : g.waveformToChange = some i
    · simp only [if_pos hchange]
      refine ⟨rfl, rfl, rfl, rfl, rfl, rfl, rfl, set_congr Wave.expiryCycle rfl, fun _ h => h,
        fun _ h _ => h, ?_⟩
      intro j
      by_cases hj : j = i
      · subst hj
        refine .inr ⟨hchange, rfl, ?_⟩
        dsimp only
        rw [set_same]
        rfl
      · refine .inl ⟨?_, ?_⟩
        · dsimp only
          rw [set_other hj]
        · rw [hchange]
          exact iff_of_false (fun h => nomatch h) fun h => hj (Option.some.inj h).symm
    · simp only [if_neg hchange]
      exact ⟨rfl, rfl, rfl, rfl, rfl, rfl, rfl, set_congr Wave.expiryCycle rfl, fun _ h => h,
        fun _ h _ => h, fun j => .inl ⟨set_congr Wave.desired (by rfl) j, Iff.rfl⟩⟩

theorem visit_visited (adjust : UInt32 → UInt32) (now : UInt32) (i : Pin) :
    Visited g (g.visit adjust now i).1 ∧
      ∀ drive ∈ (g.visit adjust now i).2, drive.enabled = true := by
  unfold WVFState.visit
  split
  · exact ⟨.refl g, fun drive hmem => nomatch hmem⟩
  · rename_i hoff
    have henabled : g.waveformEnabled i = true := Bool.not_eq_false _ ▸ hoff
    split
    · rename_i hexpired
      refine ⟨⟨rfl, rfl, rfl, rfl, rfl, rfl, rfl, fun _ => rfl, ?_, ?_,
        fun _ => .inl ⟨rfl, Iff.rfl⟩⟩, ?_⟩
      · intro j hj
        by_cases hji : j = i
        · rw [hji]
          exact henabled
        · dsimp only at hj
          rwa [set_other hji] at hj
      · intro j hj hzero
        have hji : j ≠ i := by
          rintro rfl
          exact hexpired.1 hzero
        dsimp only
        rwa [set_other hji]
      · intro drive hmem
        rw [List.mem_singleton.mp hmem]
        exact henabled
    · split
      · refine ⟨toggle_visited adjust now i, ?_⟩
        intro drive hmem
        rw [List.mem_singleton.mp hmem]
        exact henabled
      · exact ⟨.refl g, fun drive hmem => nomatch hmem⟩

theorem visits_visited (adjust : UInt32 → UInt32) (counts : Pin → UInt32) (pins : List Pin) :
    Visited g (g.visits adjust counts pins).1 ∧
      ∀ drive ∈ (g.visits adjust counts pins).2, drive.enabled = true := by
  induction pins generalizing g with
  | nil => exact ⟨.refl g, fun drive hmem => nomatch hmem⟩
  | cons i pins ih =>
    obtain ⟨hvisit, hdriven⟩ := visit_visited (g := g) adjust (counts i) i
    obtain ⟨hrest, hmore⟩ := ih (g := (g.visit adjust (counts i) i).1)
    refine ⟨hvisit.trans hrest, ?_⟩
    intro drive hmem
    rcases List.mem_append.mp hmem with hmem | hmem
    · exact hdriven drive hmem
    · exact hmore drive hmem

theorem passes_visited (adjust : UInt32 → UInt32) (counts : List (Pin → UInt32)) :
    Visited g (g.passes adjust counts).1 ∧
      ∀ drive ∈ (g.passes adjust counts).2, drive.enabled = true := by
  induction counts generalizing g with
  | nil => exact ⟨.refl g, fun drive hmem => nomatch hmem⟩
  | cons pass counts ih =>
    obtain ⟨hvisits, hdriven⟩ := visits_visited (g := g) adjust pass g.pins
    obtain ⟨hrest, hmore⟩ := ih (g := (g.visits adjust pass g.pins).1)
    refine ⟨hvisits.trans hrest, ?_⟩
    intro drive hmem
    rcases List.mem_append.mp hmem with hmem | hmem
    · exact hdriven drive hmem
    · exact hmore drive hmem

end Visits

section Requests
variable {g : WVFState} {latest : Pin → Times}

structure Shared (g : WVFState) (latest : Pin → Times) : Prop where
  range : ∀ i, g.waveformEnabled i = true → g.startPin ≤ i.val ∧ i.val ≤ g.endPin
  running : ∀ i, g.waveformEnabled i = true → g.timerRunning = true
  pending : ∀ i, g.waveformToChange = some i → g.waveformEnabled i = true ∧
    (g.waveform i).expiryCycle = 0 ∧ (⟨g.waveformNewHigh, g.waveformNewLow⟩ : Times) = latest i
  applied : ∀ i, g.waveformEnabled i = true → g.waveformToChange ≠ some i →
    g.waveformToDisable i = false → (g.waveform i).desired = latest i
  starting : ∀ i, g.waveformToEnable i = true →
    g.waveformEnabled i = false ∧ (g.waveform i).desired = latest i

def Quiet (g : WVFState) : Prop :=
  (∀ i, g.waveformToEnable i = false) ∧ ∀ i, g.waveformToDisable i = false

def At (g : WVFState) : Caller → Prop
  | .idle | .idleTimer | .stop _ | .disable _ => Quiet g
  | .expiry r => Quiet g ∧ (g.waveformEnabled r.pin = true → r.runTime = 0)
  | .expirySet r => Quiet g ∧ (g.waveformEnabled r.pin = true →
      r.runTime = 0 ∧ (g.waveform r.pin).expiryCycle = 0)
  | .check r => Quiet g ∧ (g.waveformEnabled r.pin = true → (g.waveform r.pin).expiryCycle = 0)
  | .waitChange r =>
    Quiet g ∧ g.waveformEnabled r.pin = true ∧ (g.waveform r.pin).expiryCycle = 0
  | .newHigh r => Quiet g ∧ g.waveformEnabled r.pin = true ∧
      (g.waveform r.pin).expiryCycle = 0 ∧ g.waveformToChange = none
  | .newLow r => Quiet g ∧ g.waveformEnabled r.pin = true ∧
      (g.waveform r.pin).expiryCycle = 0 ∧ g.waveformToChange = none ∧
      g.waveformNewHigh = r.times.high
  | .change r => Quiet g ∧ g.waveformEnabled r.pin = true ∧
      (g.waveform r.pin).expiryCycle = 0 ∧ g.waveformToChange = none ∧
      g.waveformNewHigh = r.times.high ∧ g.waveformNewLow = r.times.low
  | .fill r => Quiet g ∧ g.waveformEnabled r.pin = false
  | .enable r => Quiet g ∧ g.waveformEnabled r.pin = false ∧ (g.waveform r.pin).desired = r.times
  | .init _ => ∀ i, g.waveformToDisable i = false
  | .waitEnable _ => (∀ i, g.waveformToDisable i = false) ∧ g.timerRunning = true
  | .cancel pin => (∀ i, g.waveformToEnable i = false) ∧
      (∀ i, g.waveformToDisable i = true → i = pin) ∧
      (g.waveformToChange = some pin → g.waveformToDisable pin = true)
  | .waitDisable pin => (∀ i, g.waveformToEnable i = false) ∧
      (∀ i, g.waveformToDisable i = true → i = pin) ∧ g.waveformToChange ≠ some pin

theorem Visited.none {g' : WVFState} (h : Visited g g') (hnone : g.waveformToChange = none) :
    g'.waveformToChange = none := by
  cases hcase : g'.waveformToChange with
  | none => rfl
  | some i =>
    rcases h.times i with ⟨-, hchange⟩ | ⟨htaken, -, -⟩
    · exact nomatch hnone.symm.trans (hchange.mp hcase)
    · exact nomatch hnone.symm.trans htaken

theorem Visited.pending {g' : WVFState} (h : Visited g g') {i : Pin}
    (hpending : g'.waveformToChange = some i) : g.waveformToChange = some i := by
  rcases h.times i with ⟨-, hchange⟩ | ⟨htaken, -, -⟩
  · exact hchange.mp hpending
  · exact htaken

theorem Visited.off {g' : WVFState} (h : Visited g g') {i : Pin}
    (hoff : g.waveformEnabled i = false) : g'.waveformEnabled i = false := by
  rw [Bool.eq_false_iff]
  exact fun hon => Bool.noConfusion (hoff.symm.trans (h.enabled i hon))

theorem Visited.offDesired {g' : WVFState} (h : Visited g g') (hshared : Shared g latest) {i : Pin}
    (hoff : g.waveformEnabled i = false) : (g'.waveform i).desired = (g.waveform i).desired := by
  rcases h.times i with ⟨hsame, -⟩ | ⟨htaken, -, -⟩
  · exact hsame
  · exact Bool.noConfusion (hoff.symm.trans (hshared.pending i htaken).1)

theorem Visited.shared {g' : WVFState} (h : Visited g g') (hshared : Shared g latest) :
    Shared g' latest where
  range i hon := by
    rw [h.startPin, h.endPin]
    exact hshared.range i (h.enabled i hon)
  running i hon := h.running.trans (hshared.running i (h.enabled i hon))
  pending i hpending := by
    obtain ⟨hon, hzero, hnew⟩ := hshared.pending i (h.pending hpending)
    rw [h.newHigh, h.newLow]
    exact ⟨h.kept i hon hzero, (h.expiry i).trans hzero, hnew⟩
  applied i hon hother hstay := by
    rw [h.toDisable] at hstay
    rcases h.times i with ⟨hsame, hchange⟩ | ⟨htaken, -, hnew⟩
    · exact hsame.trans (hshared.applied i (h.enabled i hon) (mt hchange.mpr hother) hstay)
    · exact hnew.trans (hshared.pending i htaken).2.2
  starting i hstart := by
    rw [h.toEnable] at hstart
    obtain ⟨hoff, hdesired⟩ := hshared.starting i hstart
    exact ⟨h.off hoff, (h.offDesired hshared hoff).trans hdesired⟩

theorem Visited.quiet {g' : WVFState} (h : Visited g g') (hquiet : Quiet g) : Quiet g' := by
  rw [Quiet, h.toEnable, h.toDisable]
  exact hquiet

theorem Visited.at {g' : WVFState} (h : Visited g g') (hshared : Shared g latest) {c : Caller}
    (hat : At g c) : At g' c := by
  cases c with
  | idle => exact h.quiet hat
  | idleTimer => exact h.quiet hat
  | stop pin => exact h.quiet hat
  | disable pin => exact h.quiet hat
  | expiry r => exact ⟨h.quiet hat.1, fun hon => hat.2 (h.enabled _ hon)⟩
  | expirySet r =>
    refine ⟨h.quiet hat.1, fun hon => ?_⟩
    obtain ⟨hrun, hzero⟩ := hat.2 (h.enabled _ hon)
    exact ⟨hrun, (h.expiry _).trans hzero⟩
  | check r =>
    exact ⟨h.quiet hat.1, fun hon => (h.expiry _).trans (hat.2 (h.enabled _ hon))⟩
  | waitChange r =>
    obtain ⟨hquiet, hon, hzero⟩ := hat
    exact ⟨h.quiet hquiet, h.kept _ hon hzero, (h.expiry _).trans hzero⟩
  | newHigh r =>
    obtain ⟨hquiet, hon, hzero, hnone⟩ := hat
    exact ⟨h.quiet hquiet, h.kept _ hon hzero, (h.expiry _).trans hzero, h.none hnone⟩
  | newLow r =>
    obtain ⟨hquiet, hon, hzero, hnone, hhigh⟩ := hat
    exact ⟨h.quiet hquiet, h.kept _ hon hzero, (h.expiry _).trans hzero, h.none hnone,
      h.newHigh.trans hhigh⟩
  | change r =>
    obtain ⟨hquiet, hon, hzero, hnone, hhigh, hlow⟩ := hat
    exact ⟨h.quiet hquiet, h.kept _ hon hzero, (h.expiry _).trans hzero, h.none hnone,
      h.newHigh.trans hhigh, h.newLow.trans hlow⟩
  | fill r => exact ⟨h.quiet hat.1, h.off hat.2⟩
  | enable r =>
    obtain ⟨hquiet, hoff, hdesired⟩ := hat
    exact ⟨h.quiet hquiet, h.off hoff, (h.offDesired hshared hoff).trans hdesired⟩
  | init r =>
    change ∀ i, g'.waveformToDisable i = false
    rw [h.toDisable]
    exact hat
  | waitEnable r =>
    change (∀ i, g'.waveformToDisable i = false) ∧ g'.timerRunning = true
    rw [h.toDisable, h.running]
    exact hat
  | cancel pin =>
    obtain ⟨hstart, hstop, hpending⟩ := hat
    change (∀ i, g'.waveformToEnable i = false) ∧ (∀ i, g'.waveformToDisable i = true → i = pin) ∧
      (g'.waveformToChange = some pin → g'.waveformToDisable pin = true)
    rw [h.toEnable, h.toDisable]
    exact ⟨hstart, hstop, fun hchange => hpending (h.pending hchange)⟩
  | waitDisable pin =>
    obtain ⟨hstart, hstop, hother⟩ := hat
    change (∀ i, g'.waveformToEnable i = false) ∧ (∀ i, g'.waveformToDisable i = true → i = pin) ∧
      g'.waveformToChange ≠ some pin
    rw [h.toEnable, h.toDisable]
    exact ⟨hstart, hstop, mt h.pending hother⟩

theorem ordered_bounds {pins : List Pin} (h : pins.Pairwise (· < ·)) {i : Pin} (hi : i ∈ pins) :
    (pins.head?.map Fin.val).getD 65535 ≤ i.val ∧
      i.val ≤ (pins.getLast?.map (·.val + 1)).getD 0 := by
  induction pins generalizing i with
  | nil => exact nomatch hi
  | cons first rest ih =>
    obtain ⟨hfirst, hrest⟩ := List.pairwise_cons.mp h
    have hlow : first.val ≤ i.val := by
      rcases List.mem_cons.mp hi with rfl | hmem
      · exact Nat.le_refl _
      · exact Nat.le_of_lt (hfirst i hmem)
    refine ⟨hlow, ?_⟩
    cases rest with
    | nil =>
      rw [List.mem_singleton.mp hi]
      exact Nat.le_succ _
    | cons second rest =>
      rw [List.getLast?_cons_cons]
      rcases List.mem_cons.mp hi with rfl | hmem
      · have hnext : i < second := hfirst second (List.mem_cons_self ..)
        exact Nat.le_trans (Nat.le_of_lt hnext) (ih hrest (List.mem_cons_self ..)).2
      · exact (ih hrest hmem).2

theorem takeOver_shared (hshared : Shared g latest) (hrunning : g.timerRunning = true)
    (hstop : ∀ i, g.waveformToDisable i = true → g.waveformToChange ≠ some i) :
    Shared g.takeOver latest := by
  unfold WVFState.takeOver
  split
  · exact hshared
  · have hcases : ∀ i, (g.waveformEnabled i && !g.waveformToDisable i || g.waveformToEnable i) =
        true → g.waveformEnabled i = true ∧ g.waveformToDisable i = false ∨
          g.waveformToEnable i = true := by
      intro i hon
      simpa using hon
    refine ⟨?_, fun _ _ => hrunning, ?_, ?_, fun i hstart => nomatch hstart⟩
    · intro i hon
      refine ordered_bounds ((List.pairwise_lt_finRange 17).filter _) ?_
      exact List.mem_filter.mpr ⟨List.mem_finRange i, hon⟩
    · intro i hpending
      obtain ⟨hon, hzero, hnew⟩ := hshared.pending i hpending
      have hstay : g.waveformToDisable i = false := by
        rw [Bool.eq_false_iff]
        exact fun hdisable => hstop i hdisable hpending
      refine ⟨?_, hzero, hnew⟩
      dsimp only
      rw [hon, hstay]
      rfl
    · intro i hon hother _
      rcases hcases i hon with ⟨hwas, hstay⟩ | hstart
      · exact hshared.applied i hwas hother hstay
      · exact (hshared.starting i hstart).2

theorem takeOver_quiet (hquiet : Quiet g) : g.takeOver = g := if_pos hquiet

theorem interrupt_keeps (adjust : UInt32 → UInt32) (counts : List (Pin → UInt32)) {c : Caller}
    (hshared : Shared g latest) (hat : At g c)
    (hundisturbed : ∀ pin, c = .cancel pin → g.waveformToChange ≠ some pin) :
    Shared (g.interrupt adjust counts).1 latest ∧ At (g.interrupt adjust counts).1 c := by
  unfold WVFState.interrupt
  split
  · rename_i hrunning
    have hvisited := (passes_visited (g := g.takeOver) adjust counts).1
    have hkeep : Shared g.takeOver latest → At g.takeOver c →
        Shared (g.takeOver.passes adjust counts).1 latest ∧
          At (g.takeOver.passes adjust counts).1 c :=
      fun hover hpoint => ⟨hvisited.shared hover, hvisited.at hover hpoint⟩
    have hquiet : Quiet g → Shared (g.takeOver.passes adjust counts).1 latest ∧
        At (g.takeOver.passes adjust counts).1 c := by
      intro hquiet
      have hsame := takeOver_quiet hquiet
      rw [hsame] at hkeep ⊢
      exact hkeep hshared hat
    have hnone : ∀ i, g.takeOver.waveformToEnable i = false ∧
        g.takeOver.waveformToDisable i = false := by
      intro i
      unfold WVFState.takeOver
      split
      · rename_i hempty
        exact ⟨hempty.1 i, hempty.2 i⟩
      · exact ⟨rfl, rfl⟩
    have hchange : g.takeOver.waveformToChange = g.waveformToChange := by
      unfold WVFState.takeOver
      split <;> rfl
    cases c with
    | idle => exact hquiet hat
    | idleTimer => exact hquiet hat
    | stop pin => exact hquiet hat
    | disable pin => exact hquiet hat
    | expiry r => exact hquiet hat.1
    | expirySet r => exact hquiet hat.1
    | check r => exact hquiet hat.1
    | waitChange r => exact hquiet hat.1
    | newHigh r => exact hquiet hat.1
    | newLow r => exact hquiet hat.1
    | change r => exact hquiet hat.1
    | fill r => exact hquiet hat.1
    | enable r => exact hquiet hat.1
    | init r =>
      refine hkeep (takeOver_shared hshared hrunning fun i hdisable => ?_) fun i => (hnone i).2
      exact Bool.noConfusion ((hat i).symm.trans hdisable)
    | waitEnable r =>
      refine hkeep (takeOver_shared hshared hrunning fun i hdisable => ?_) ⟨fun i => (hnone i).2, ?_⟩
      · exact Bool.noConfusion ((hat.1 i).symm.trans hdisable)
      · unfold WVFState.takeOver
        split <;> exact hrunning
    | cancel pin =>
      obtain ⟨hstart, hstop, hpending⟩ := hat
      have hother := hundisturbed pin rfl
      refine hkeep (takeOver_shared hshared hrunning fun i hdisable => ?_)
        ⟨fun i => (hnone i).1, fun i hdisable => ?_, fun hpend => ?_⟩
      · rw [hstop i hdisable]
        exact hother
      · exact Bool.noConfusion ((hnone i).2.symm.trans hdisable)
      · exact absurd (hchange.symm.trans hpend) hother
    | waitDisable pin =>
      obtain ⟨hstart, hstop, hother⟩ := hat
      refine hkeep (takeOver_shared hshared hrunning fun i hdisable => ?_)
        ⟨fun i => (hnone i).1, fun i hdisable => ?_, hchange ▸ hother⟩
      · rw [hstop i hdisable]
        exact hother
      · exact Bool.noConfusion ((hnone i).2.symm.trans hdisable)
  · exact ⟨hshared, hat⟩

theorem Shared.expire (h : Shared g latest) (pin : Pin) (wave : Wave)
    (hdesired : wave.desired = (g.waveform pin).desired)
    (hzero : g.waveformEnabled pin = true → wave.expiryCycle = 0) :
    Shared { g with waveform := set g.waveform pin wave } latest where
  range := h.range
  running := h.running
  pending i hpending := by
    obtain ⟨hon, hnone, hnew⟩ := h.pending i hpending
    refine ⟨hon, ?_, hnew⟩
    dsimp only
    by_cases hi : i = pin
    · rw [hi, set_same]
      rw [hi] at hon
      exact hzero hon
    · rw [set_other hi]
      exact hnone
  applied i hon hother hstay :=
    (set_congr Wave.desired hdesired i).trans (h.applied i hon hother hstay)
  starting i hstart :=
    ⟨(h.starting i hstart).1,
      (set_congr Wave.desired hdesired i).trans (h.starting i hstart).2⟩

theorem Shared.fill (h : Shared g latest) (hquiet : Quiet g) (pin : Pin) (wave : Wave)
    (hoff : g.waveformEnabled pin = false) :
    Shared { g with waveform := set g.waveform pin wave } latest where
  range := h.range
  running := h.running
  pending i hpending := by
    obtain ⟨hon, hnone, hnew⟩ := h.pending i hpending
    have hi : i ≠ pin := by
      rintro rfl
      exact Bool.noConfusion (hoff.symm.trans hon)
    dsimp only
    rw [set_other hi]
    exact ⟨hon, hnone, hnew⟩
  applied i hon hother hstay := by
    have hi : i ≠ pin := by
      rintro rfl
      exact Bool.noConfusion (hoff.symm.trans hon)
    dsimp only
    rw [set_other hi]
    exact h.applied i hon hother hstay
  starting i hstart := Bool.noConfusion ((hquiet.1 i).symm.trans hstart)

theorem Shared.change (h : Shared g latest) (hquiet : Quiet g) (r : Request)
    (hon : g.waveformEnabled r.pin = true) (hzero : (g.waveform r.pin).expiryCycle = 0)
    (hnone : g.waveformToChange = none) (hhigh : g.waveformNewHigh = r.times.high)
    (hlow : g.waveformNewLow = r.times.low) :
    Shared { g with waveformToChange := some r.pin } (set latest r.pin r.times) where
  range := h.range
  running := h.running
  pending i hpending := by
    obtain rfl := Option.some.inj hpending
    refine ⟨hon, hzero, ?_⟩
    dsimp only
    rw [set_same, hhigh, hlow]
  applied i hi hother hstay := by
    have hne : i ≠ r.pin := by
      rintro rfl
      exact hother rfl
    rw [set_other hne]
    refine h.applied i hi ?_ hstay
    rw [hnone]
    exact fun h => nomatch h
  starting i hstart := Bool.noConfusion ((hquiet.1 i).symm.trans hstart)

theorem Shared.enable (h : Shared g latest) (hquiet : Quiet g) (r : Request)
    (hoff : g.waveformEnabled r.pin = false) (hdesired : (g.waveform r.pin).desired = r.times) :
    Shared { g with waveformToEnable := set g.waveformToEnable r.pin true }
      (set latest r.pin r.times) where
  range := h.range
  running := h.running
  pending i hpending := by
    obtain ⟨hon, hzero, hnew⟩ := h.pending i hpending
    have hi : i ≠ r.pin := by
      rintro rfl
      exact Bool.noConfusion (hoff.symm.trans hon)
    rw [set_other hi]
    exact ⟨hon, hzero, hnew⟩
  applied i hon hother hstay := by
    have hi : i ≠ r.pin := by
      rintro rfl
      exact Bool.noConfusion (hoff.symm.trans hon)
    rw [set_other hi]
    exact h.applied i hon hother hstay
  starting i hstart := by
    by_cases hi : i = r.pin
    · rw [hi, set_same]
      exact ⟨hoff, hdesired⟩
    · dsimp only at hstart
      rw [set_other hi] at hstart
      exact Bool.noConfusion ((hquiet.1 i).symm.trans hstart)

theorem advance_keeps (cpu : Cpu) (now : UInt32) {c : Caller} (hshared : Shared g latest)
    (hat : At g c) :
    let next := (⟨g, c⟩ : Running).advance cpu now
    Shared next.wvf ((⟨⟨⟨g, c⟩, []⟩, latest⟩ : Watched).record (.advance now)) ∧
      At next.wvf next.caller := by
  cases c with
  | idle => exact ⟨hshared, hat⟩
  | expiry r =>
    obtain ⟨hquiet, hrun⟩ := hat
    have hzero : g.waveformEnabled r.pin = true →
        (if r.runTime ≠ 0 then now + r.runTime else 0) = 0 :=
      fun hon => if_neg (not_not_intro (hrun hon))
    refine ⟨hshared.expire r.pin _ rfl hzero, hquiet, fun hon => ⟨hrun hon, ?_⟩⟩
    exact (congrArg Wave.expiryCycle set_same).trans (hzero hon)
  | expirySet r =>
    obtain ⟨hquiet, hrun⟩ := hat
    by_cases hset : r.runTime ≠ 0 ∧ (g.waveform r.pin).expiryCycle = 0
    · simp only [Running.advance, if_pos hset]
      have hoff : g.waveformEnabled r.pin = true → False := fun hon => hset.1 (hrun hon).1
      exact ⟨hshared.expire r.pin _ rfl fun hon => (hoff hon).elim, hquiet,
        fun hon => (hoff hon).elim⟩
    · simp only [Running.advance, if_neg hset]
      exact ⟨hshared, hquiet, fun hon => (hrun hon).2⟩
  | check r =>
    obtain ⟨hquiet, hzero⟩ := hat
    by_cases hon : g.waveformEnabled r.pin = true
    · simp only [Running.advance, if_pos hon]
      exact ⟨hshared, hquiet, hon, hzero hon⟩
    · simp only [Running.advance, if_neg hon]
      exact ⟨hshared, hquiet, Bool.eq_false_iff.mpr hon⟩
  | waitChange r =>
    by_cases hpending : g.waveformToChange ≠ none
    · simp only [Running.advance, if_pos hpending]
      exact ⟨hshared, hat⟩
    · simp only [Running.advance, if_neg hpending]
      obtain ⟨hquiet, hon, hzero⟩ := hat
      exact ⟨hshared, hquiet, hon, hzero, Classical.not_not.mp hpending⟩
  | newHigh r =>
    obtain ⟨hquiet, hon, hzero, hnone⟩ := hat
    exact ⟨⟨hshared.range, hshared.running, fun i h => (nomatch hnone.symm.trans h),
      hshared.applied, hshared.starting⟩, hquiet, hon, hzero, hnone, rfl⟩
  | newLow r =>
    obtain ⟨hquiet, hon, hzero, hnone, hhigh⟩ := hat
    exact ⟨⟨hshared.range, hshared.running, fun i h => (nomatch hnone.symm.trans h),
      hshared.applied, hshared.starting⟩, hquiet, hon, hzero, hnone, hhigh, rfl⟩
  | change r =>
    obtain ⟨hquiet, hon, hzero, hnone, hhigh, hlow⟩ := hat
    exact ⟨hshared.change hquiet r hon hzero hnone hhigh hlow, hquiet⟩
  | fill r =>
    obtain ⟨hquiet, hoff⟩ := hat
    exact ⟨hshared.fill hquiet r.pin _ hoff, hquiet, hoff, congrArg Wave.desired set_same⟩
  | enable r =>
    obtain ⟨hquiet, hoff, hdesired⟩ := hat
    exact ⟨hshared.enable hquiet r hoff hdesired, hquiet.2⟩
  | init r =>
    exact ⟨⟨hshared.range, fun _ _ => rfl, hshared.pending, hshared.applied, hshared.starting⟩, hat,
      rfl⟩
  | waitEnable r =>
    by_cases hdone : ∀ i, g.waveformToEnable i = false
    · simp only [Running.advance, if_pos hdone]
      exact ⟨hshared, hdone, hat.1⟩
    · simp only [Running.advance, if_neg hdone]
      exact ⟨hshared, hat⟩
  | stop pin =>
    simp only [Running.advance]
    split
    · exact ⟨hshared, hat⟩
    · split <;> exact ⟨hshared, hat⟩
  | disable pin =>
    refine ⟨⟨hshared.range, hshared.running, hshared.pending, ?_, hshared.starting⟩, hat.1, ?_,
      fun _ => if_pos rfl⟩
    · exact fun i hon hother _ => hshared.applied i hon hother (hat.2 i)
    · intro i hdisable
      by_cases hi : i = pin
      · exact hi
      · dsimp only [Running.advance] at hdisable
        rw [set_other hi] at hdisable
        exact Bool.noConfusion hdisable
  | cancel pin =>
    obtain ⟨hstart, hstop, hpending⟩ := hat
    by_cases hchange : g.waveformToChange = some pin
    · simp only [Running.advance, if_pos hchange]
      refine ⟨⟨hshared.range, hshared.running, fun i h => (nomatch h), ?_, hshared.starting⟩, hstart,
        hstop, fun h => nomatch h⟩
      intro i hon _ hstay
      refine hshared.applied i hon ?_ hstay
      rw [hchange]
      intro hsame
      rw [← Option.some.inj hsame, hpending hchange] at hstay
      exact Bool.noConfusion hstay
    · simp only [Running.advance, if_neg hchange]
      exact ⟨hshared, hstart, hstop, hchange⟩
  | waitDisable pin =>
    by_cases hdone : ∀ i, g.waveformToDisable i = false
    · simp only [Running.advance, if_pos hdone]
      exact ⟨hshared, hat.1, hdone⟩
    · simp only [Running.advance, if_neg hdone]
      exact ⟨hshared, hat⟩
  | idleTimer =>
    simp only [Running.advance, WVFState.disableIdleTimer]
    split
    · rename_i hoff
      exact ⟨⟨hshared.range, fun i hon => Bool.noConfusion ((hoff i).symm.trans hon),
        hshared.pending, hshared.applied, hshared.starting⟩, hat⟩
    · exact ⟨hshared, hat⟩

structure Inv (s : Watched) : Prop where
  alone : s.system.suspended = []
  shared : Shared s.system.wvf s.latest
  point : At s.system.wvf s.system.caller

theorem initial_inv : Inv .initial where
  alone := rfl
  shared := ⟨fun _ h => (nomatch h), fun _ h => (nomatch h), fun _ h => (nomatch h),
    fun _ h => (nomatch h), fun _ h => nomatch h⟩
  point := ⟨fun _ => rfl, fun _ => rfl⟩

theorem step_inv (cpu : Cpu) (flashPin : Pin → Bool) {s : Watched} (h : Inv s) (action : Action)
    (hundisturbed : Undisturbed s.system action) :
    Inv ((watched cpu flashPin).step s action).1 := by
  obtain ⟨⟨⟨g, c⟩, suspended⟩, latest⟩ := s
  obtain ⟨halone, hshared, hat⟩ := h
  change suspended = [] at halone
  subst halone
  cases action with
  | call call =>
    cases call with
    | startWaveformClockCycles pin times runTime =>
      obtain ⟨hidle, hrunTime⟩ := hundisturbed
      change c = .idle at hidle
      subst hidle
      refine ⟨rfl, hshared, ?_⟩
      simp only [watched, System.step, System.resume, if_true, Call.enter]
      split
      · split
        · exact hat
        · exact ⟨hat, hrunTime _ rfl⟩
      · exact hat
    | stopWaveform pin =>
      have hidle : c = .idle := hundisturbed
      subst hidle
      refine ⟨rfl, hshared, ?_⟩
      simp only [watched, System.step, System.resume, if_true, Call.enter]
      split <;> exact hat
  | advance now =>
    obtain ⟨hnext, hpoint⟩ := advance_keeps cpu now hshared hat
    exact ⟨rfl, hnext, hpoint⟩
  | interrupt turbo counts =>
    obtain ⟨hnext, hpoint⟩ := interrupt_keeps (adjust cpu turbo) counts hshared hat hundisturbed
    exact ⟨rfl, hnext, hpoint⟩

end Requests

section Released
variable {g : WVFState} {i j : Pin} {high : Bool}

structure Pending (g : WVFState) (i : Pin) (high : Bool) : Prop where
  change : g.waveformToChange = some i
  enabled : g.waveformEnabled i = true
  endless : (g.waveform i).expiryCycle = 0
  level : g.waveformState i = high

theorem past_next (cycle : UInt32) : past cycle (cycle + 1) = true := by
  have hlast : cycle - (cycle + 1) = 0xFFFFFFFF := by grind
  rw [past, hlast]
  rfl

theorem Pending.other (h : Pending g i high) (hj : j ≠ i) (adjust : UInt32 → UInt32)
    (now : UInt32) :
    Pending (g.visit adjust now j).1 i high ∧
      (g.visit adjust now j).1.waveform i = g.waveform i := by
  have hi : i ≠ j := hj.symm
  have hnot : g.waveformToChange ≠ some j := by
    rw [h.change]
    exact fun hsame => hi (Option.some.inj hsame)
  unfold WVFState.visit
  split
  · exact ⟨h, rfl⟩
  · split
    · exact ⟨⟨h.change, (set_other hi).trans h.enabled, h.endless, h.level⟩, rfl⟩
    · split
      · unfold WVFState.toggle
        dsimp only
        split
        · exact ⟨⟨h.change, h.enabled, (congrArg Wave.expiryCycle (set_other hi)).trans h.endless,
            (set_other hi).trans h.level⟩, set_other hi⟩
        · exact ⟨⟨h.change, h.enabled, (congrArg Wave.expiryCycle (set_other hi)).trans h.endless,
            (set_other hi).trans h.level⟩, set_other hi⟩
      · exact ⟨h, rfl⟩

theorem Pending.edge (h : Pending g i high) (adjust : UInt32 → UInt32) :
    let next := (g.visit adjust ((g.waveform i).nextServiceCycle + 1) i).1
    if high = true then Pending next i false else next.waveformToChange = none := by
  have hon : ¬ g.waveformEnabled i = false := by
    rw [h.enabled]
    exact Bool.noConfusion
  have hstay : ¬ ((g.waveform i).expiryCycle ≠ 0 ∧
      past (g.waveform i).expiryCycle ((g.waveform i).nextServiceCycle + 1) = true) :=
    fun hexpired => hexpired.1 h.endless
  simp only [WVFState.visit, if_neg hon, if_neg hstay, past_next, if_true, WVFState.toggle, h.level]
  cases high with
  | true =>
    simp only [if_true]
    exact ⟨h.change, h.enabled, (congrArg Wave.expiryCycle set_same).trans h.endless, set_same⟩
  | false => simp only [h.change, Bool.false_eq_true, if_false, if_true]

theorem Pending.others (h : Pending g i high) (adjust : UInt32 → UInt32) (counts : Pin → UInt32)
    (pins : List Pin) (hmem : i ∉ pins) :
    Pending (g.visits adjust counts pins).1 i high := by
  induction pins generalizing g with
  | nil => exact h
  | cons first pins ih =>
    obtain ⟨hfirst, hrest⟩ := not_or.mp (mt List.mem_cons.mpr hmem)
    exact ih (h.other (Ne.symm hfirst) adjust (counts first)).1 hrest

theorem Pending.visits (h : Pending g i high) (adjust : UInt32 → UInt32) (pins : List Pin)
    (hnodup : pins.Nodup) (hmem : i ∈ pins) :
    let next := (g.visits adjust (fun _ => (g.waveform i).nextServiceCycle + 1) pins).1
    if high = true then Pending next i false else next.waveformToChange = none := by
  induction pins generalizing g with
  | nil => exact nomatch hmem
  | cons first pins ih =>
    obtain ⟨hfirst, hnodup⟩ := List.nodup_cons.mp hnodup
    by_cases hi : first = i
    · subst hi
      have hedge := h.edge adjust
      cases high with
      | true => exact Pending.others hedge adjust _ pins hfirst
      | false => exact (visits_visited adjust _ pins).1.none hedge
    · have hrest : i ∈ pins := by
        rcases List.mem_cons.mp hmem with hsame | hrest
        · exact absurd hsame.symm hi
        · exact hrest
      obtain ⟨hother, hwave⟩ := h.other hi adjust ((g.waveform i).nextServiceCycle + 1)
      have hmore := ih hother hnodup hrest
      rw [hwave] at hmore
      exact hmore

theorem Pending.released (h : Pending g i high) (adjust : UInt32 → UInt32)
    (hrange : g.startPin ≤ i.val ∧ i.val ≤ g.endPin) :
    ∃ counts, (g.passes adjust counts).1.waveformToChange = none := by
  have hmem : ∀ g' : WVFState, g'.startPin = g.startPin → g'.endPin = g.endPin → i ∈ g'.pins := by
    intro g' hstart hend
    refine List.mem_filter.mpr ⟨List.mem_finRange i, ?_⟩
    rw [hstart, hend]
    exact decide_eq_true hrange
  have hnodup : ∀ g' : WVFState, g'.pins.Nodup :=
    fun g' => (List.nodup_finRange 17).filter _
  have hpass := h.visits adjust g.pins (hnodup g) (hmem g rfl rfl)
  cases high with
  | false => exact ⟨[_], hpass⟩
  | true =>
    have hvisited := (visits_visited (g := g) adjust
      (fun _ => (g.waveform i).nextServiceCycle + 1) g.pins).1
    have hnext := Pending.visits hpass adjust _ (hnodup _)
      (hmem _ hvisited.startPin hvisited.endPin)
    exact ⟨[_, _], hnext⟩

theorem Inv.released {s : Watched} (h : Inv s) {r : Request} (hwait : s.system.caller = .waitChange r)
    (adjust : UInt32 → UInt32) :
    ∃ counts, (s.system.wvf.interrupt adjust counts).1.waveformToChange = none := by
  have hquiet : Quiet s.system.wvf := by
    have hpoint := h.point
    rw [hwait] at hpoint
    exact hpoint.1
  cases hpending : s.system.wvf.waveformToChange with
  | none =>
    refine ⟨[], ?_⟩
    unfold WVFState.interrupt
    split
    · rw [takeOver_quiet hquiet]
      exact hpending
    · exact hpending
  | some i =>
    obtain ⟨hon, hzero, -⟩ := h.shared.pending i hpending
    obtain ⟨counts, hnone⟩ := Pending.released ⟨hpending, hon, hzero, rfl⟩ adjust
      (h.shared.range i hon)
    refine ⟨counts, ?_⟩
    rw [WVFState.interrupt, if_pos (h.shared.running i hon), takeOver_quiet hquiet]
    exact hnone

end Released

/-- In every state of a run that is not disturbed: the pin of a pending change is enabled, and its
new times are those of its latest request; a wait for it can end; an enabled waveform that is not
being stopped has the times of its latest request once that was taken over; and the interrupt
drives enabled pins only. -/
theorem requests_applied (cpu : Cpu) (flashPin : Pin → Bool) (actions : List Action)
    (along : (watched cpu flashPin).Along (fun s action => Undisturbed s.system action) .initial
      actions) :
    let s := ((watched cpu flashPin).run .initial actions).1
    let g := s.system.wvf
    (∀ pin, g.waveformToChange = some pin →
      g.waveformEnabled pin = true ∧ ⟨g.waveformNewHigh, g.waveformNewLow⟩ = s.latest pin) ∧
    (∀ r, s.system.caller = .waitChange r → ∀ turbo, ∃ counts,
      (s.system.step cpu flashPin (.interrupt turbo counts)).1.wvf.waveformToChange = none) ∧
    (∀ pin, g.waveformEnabled pin = true → g.waveformToChange ≠ some pin →
      g.waveformToDisable pin = false → (g.waveform pin).desired = s.latest pin) ∧
    ∀ turbo counts, ∀ drive ∈ (s.system.step cpu flashPin (.interrupt turbo counts)).2,
      drive.enabled = true := by
  have hinv := (watched cpu flashPin).run_invariant _ Inv
    (fun _ action h hundisturbed => step_inv cpu flashPin h action hundisturbed) _ actions
    initial_inv along
  refine ⟨fun pin hpending => ?_, fun r hwait turbo => hinv.released hwait _, hinv.shared.applied,
    ?_⟩
  · obtain ⟨hon, -, hnew⟩ := hinv.shared.pending pin hpending
    exact ⟨hon, hnew⟩
  · intro turbo counts drive hmem
    simp only [System.step, WVFState.interrupt] at hmem
    split at hmem
    · exact (passes_visited _ counts).2 drive hmem
    · exact nomatch hmem

def callAt (c : Call) (now : UInt32) : List Action := .call c :: List.replicate 7 (.advance now)

def started (times : Times) : List Action :=
  callAt (.startWaveformClockCycles 4 times 0) 0 ++
    [.interrupt false [fun _ => 1000], .advance 1000]

def changed : List Action :=
  started ⟨100, 200⟩ ++ callAt (.startWaveformClockCycles 4 ⟨300, 400⟩ 0) 1000 ++
    [.interrupt false [fun _ => 2000, fun _ => 3000], .interrupt false [fun _ => 4000]]

theorem changed_applied :
    let s := ((watched .mhz80 flashPins).run .initial changed).1
    let g := s.system.wvf
    (∀ pin, g.waveformToChange = some pin →
      g.waveformEnabled pin = true ∧ ⟨g.waveformNewHigh, g.waveformNewLow⟩ = s.latest pin) ∧
    (∀ r, s.system.caller = .waitChange r → ∀ turbo, ∃ counts,
      (s.system.step .mhz80 flashPins (.interrupt turbo counts)).1.wvf.waveformToChange = none) ∧
    (∀ pin, g.waveformEnabled pin = true → g.waveformToChange ≠ some pin →
      g.waveformToDisable pin = false → (g.waveform pin).desired = s.latest pin) ∧
    ∀ turbo counts, ∀ drive ∈ (s.system.step .mhz80 flashPins (.interrupt turbo counts)).2,
      drive.enabled = true :=
  requests_applied .mhz80 flashPins changed (by decide +kernel)

def ended : List Action :=
  started ⟨100, 200⟩ ++ callAt (.startWaveformClockCycles 4 ⟨300, 400⟩ 500) 1000 ++
    [.interrupt false [fun _ => 2000]]

theorem ended_wedged :
    let s := ((watched .mhz80 flashPins).run .initial ended).1
    let again := ((watched .mhz80 flashPins).run .initial (ended ++ started ⟨500, 600⟩)).1
    (s.system.wvf.waveformToChange = some 4 ∧ s.system.wvf.waveformEnabled 4 = false) ∧
      again.system.wvf.waveformEnabled 4 = true ∧ again.system.wvf.waveformToChange = none ∧
      (again.system.wvf.waveform 4).desired = ⟨300, 400⟩ ∧ again.latest 4 = ⟨500, 600⟩ := by
  decide +kernel

end Esp8266.Timer1
