import Esp8266.Waveform.Pwm

/-! The invariant of the PWM schedule, and which calls keep it. -/
namespace Esp8266.Waveform
open Esp8266.DeltaList Esp8266.Runs

abbrev Duty := Pin → Option Wave

def Wave.pulse (period : Nat) (wave : Wave) : Nat :=
  clip period (period * wave.desiredHighCycles / wave.desiredLowCycles)

structure Scheduled (s : State) (duty : Duty) : Prop where
  size : s.pwm.entries.length ≤ maxPWMs
  distinct : (keys s.pwm.entries).Nodup
  period : s.pwm.entries ≠ [] → total s.pwm.entries + s.pwm.last = s.period
  pulses : ∀ pin wave, duty pin = some wave →
    (pin, wave.pulse s.period) ∈ edges 0 s.pwm.entries
  active : ∀ pin, s.pwm.mask pin = true ↔ duty pin ≠ none
  defined : s.divided = false

structure Inv (s : State) (duty : Duty) : Prop extends Scheduled s duty where
  stashed : ∀ pin wave, duty pin = some wave → s.wave pin = wave ∧ 0 < wave.desiredLowCycles
  idle : ∀ pin, duty pin ≠ none → s.waveformEnabled pin = false

section Set
variable {α : Type} {values : Pin → α} {pin other : Pin} {value : α}

@[simp] theorem set_same : set values pin value pin = value := if_pos rfl

theorem set_other (h : other ≠ pin) : set values pin value other = values other := if_neg h

theorem set_self (h : values pin = value) : set values pin value = values := by
  funext other
  unfold set
  split
  · rename_i hsame
    rw [hsame, h]
  · rfl

end Set

section Add
variable {s : State} {p : PWMState} {pin : Pin} {val range : Nat}

theorem clip_bounds {period cc : Nat} (h : 2 ≤ period) :
    1 ≤ clip period cc ∧ clip period cc < period := by
  unfold clip
  split
  · omega
  · split <;> omega

theorem addPWMtoList_spec (hperiod : 2 ≤ s.period) (hfits : s.period * val < 2 ^ 32)
    (htotal : p.entries ≠ [] → total p.entries + p.last = s.period) :
    (keys (addPWMtoList s p pin val range).2.entries).Perm (pin :: keys p.entries) ∧
      total (addPWMtoList s p pin val range).2.entries +
        (addPWMtoList s p pin val range).2.last = s.period ∧
      ∀ e, e ∈ edges 0 (addPWMtoList s p pin val range).2.entries ↔
        e = (pin, Wave.pulse s.period ⟨val, range⟩) ∨ e ∈ edges 0 p.entries := by
  have hcc : clip s.period (cycles s.period val range) = Wave.pulse s.period ⟨val, range⟩ := by
    unfold cycles Wave.pulse
    rw [Nat.mod_eq_of_lt hfits]
  obtain ⟨hpos, hlt⟩ := @clip_bounds s.period (cycles s.period val range) hperiod
  unfold addPWMtoList
  by_cases hempty : p.entries = []
  · simp only [hempty, if_true]
    refine ⟨List.Perm.refl _, ?_, ?_⟩
    · simp
      omega
    · simp [edges, hcc]
  · simp only [hempty, if_false]
    have hsum := htotal hempty
    refine ⟨keys_insert _ _ _ _ _, ?_, ?_⟩
    · rw [total_insert (Nat.zero_le _) (by omega), hsum]
    · intro e
      rw [mem_edges_insert (Nat.zero_le _), hcc]

end Add

def Computes (s : State) (pins : List Pin) : Prop :=
  2 ≤ s.period ∧ ∀ pin ∈ pins, s.period * (s.wave pin).desiredHighCycles < 2 ^ 32 ∧
    0 < (s.wave pin).desiredLowCycles

section Readd
variable {s : State} {p : PWMState} {pin : Pin} {pins : List Pin}

theorem addPWMtoList_state (val range : Nat) : (addPWMtoList s p pin val range).1 =
    { s with wave := set s.wave pin ⟨val, range⟩, divided := s.divided || range = 0 } := by
  unfold addPWMtoList
  split <;> rfl

theorem addPWMtoList_stashed (hlow : 0 < (s.wave pin).desiredLowCycles) :
    (addPWMtoList s p pin (s.wave pin).desiredHighCycles (s.wave pin).desiredLowCycles).1 = s := by
  have hzero : (s.wave pin).desiredLowCycles ≠ 0 := Nat.pos_iff_ne_zero.mp hlow
  have hwave : set s.wave pin (s.wave pin) = s.wave := set_self rfl
  rw [addPWMtoList_state]
  simp [hzero, hwave]

theorem addPWMtoList_mask (val range : Nat) :
    (addPWMtoList s p pin val range).2.mask = set p.mask pin true := by
  unfold addPWMtoList
  split <;> rfl

theorem readd_spec (hcomputes : Computes s pins)
    (htotal : p.entries ≠ [] → total p.entries + p.last = s.period) :
    (readd s p pins).1 = s ∧
      (keys (readd s p pins).2.entries).Perm (pins ++ keys p.entries) ∧
      ((readd s p pins).2.entries ≠ [] →
        total (readd s p pins).2.entries + (readd s p pins).2.last = s.period) ∧
      (∀ e, e ∈ edges 0 (readd s p pins).2.entries ↔
        (∃ pin ∈ pins, e = (pin, (s.wave pin).pulse s.period)) ∨ e ∈ edges 0 p.entries) ∧
      ∀ pin, (readd s p pins).2.mask pin = true ↔ pin ∈ pins ∨ p.mask pin = true := by
  induction pins generalizing p with
  | nil => exact ⟨rfl, List.Perm.refl _, htotal, by simp [readd], by simp [readd]⟩
  | cons pin pins ih =>
    obtain ⟨hperiod, hpins⟩ := hcomputes
    obtain ⟨⟨hfits, hlow⟩, hrest⟩ := List.forall_mem_cons.mp hpins
    obtain ⟨hkeys, hsum, hedges⟩ := @addPWMtoList_spec s p pin _ (s.wave pin).desiredLowCycles
      hperiod hfits htotal
    have hmask := @addPWMtoList_mask s p pin (s.wave pin).desiredHighCycles
      (s.wave pin).desiredLowCycles
    rw [readd, addPWMtoList_stashed hlow]
    obtain ⟨hsame, hkeysRest, htotalRest, hedgesRest, hmaskRest⟩ := ih ⟨hperiod, hrest⟩ fun _ => hsum
    refine ⟨hsame, ?_, htotalRest, ?_, ?_⟩
    · apply hkeysRest.trans
      exact (hkeys.append_left pins).trans List.perm_middle
    · intro e
      rw [hedgesRest, hedges]
      simp only [List.mem_cons, exists_eq_or_imp]
      rw [or_left_comm, or_assoc]
    · intro other
      rw [hmaskRest, hmask, List.mem_cons]
      by_cases hother : other = pin
      · simp [hother]
      · simp [hother, set_other hother]

end Readd

def FreqFits (cpu : Cpu) (s : State) (freq : Nat) : Prop :=
  newPeriod cpu freq s.pwm.entries.length = s.period ∨ s.pwm.entries = [] ∨
    (2 ≤ newPeriod cpu freq s.pwm.entries.length ∧ ∀ pin ∈ keys s.pwm.entries,
      s.pwm.mask pin = true ∧
        newPeriod cpu freq s.pwm.entries.length * (s.wave pin).desiredHighCycles < 2 ^ 32)

section Calls
variable {s : State} {duty : Duty} {pin : Pin}

theorem Inv.listed (h : Inv s duty) (hactive : s.pwm.mask pin = true) :
    pin ∈ keys s.pwm.entries := by
  obtain ⟨wave, hwave⟩ := Option.ne_none_iff_exists'.mp ((h.active pin).mp hactive)
  exact mem_keys_of_edges (h.pulses pin wave hwave)

theorem setPWMFreq_inv (cpu : Cpu) (freq : Nat) (h : Inv s duty) (hfits : FreqFits cpu s freq) :
    Inv (setPWMFreq cpu freq s) duty := by
  unfold setPWMFreq
  simp only
  split
  · exact ⟨⟨h.size, h.distinct, h.period, h.pulses, h.active, h.defined⟩, h.stashed, h.idle⟩
  · rename_i hchanged
    split
    · rename_i hempty
      refine ⟨⟨h.size, h.distinct, fun hne => absurd hempty hne, ?_, h.active, h.defined⟩, h.stashed,
        h.idle⟩
      intro pin wave hwave
      have hpulse := h.pulses pin wave hwave
      rw [hempty] at hpulse
      cases hpulse
    · rename_i hlisted
      obtain ⟨hperiod, hpins⟩ := (hfits.resolve_left hchanged).resolve_left hlisted
      obtain ⟨changed, hc⟩ : ∃ changed, changed =
          { s with freq, period := newPeriod cpu freq s.pwm.entries.length } := ⟨_, rfl⟩
      have hcomputes : Computes changed (keys s.pwm.entries) := by
        rw [hc]
        refine ⟨hperiod, fun pin hpin => ?_⟩
        obtain ⟨hactive, hproduct⟩ := hpins pin hpin
        obtain ⟨wave, hwave⟩ := Option.ne_none_iff_exists'.mp ((h.active pin).mp hactive)
        obtain ⟨hstashed, hlow⟩ := h.stashed pin wave hwave
        exact ⟨hproduct, by rw [hstashed]; exact hlow⟩
      obtain ⟨hsame, hkeys, htotal, hedges, hmask⟩ :=
        @readd_spec changed ⟨fun _ => false, [], 0⟩ _ hcomputes (fun hne => absurd rfl hne)
      rw [← hc, hsame]
      have hkeys : (keys (readd changed ⟨fun _ => false, [], 0⟩ (keys s.pwm.entries)).2.entries).Perm
          (keys s.pwm.entries) := hkeys.trans (by simp [keys])
      constructor
      · constructor
        · have hlength := hkeys.length_eq
          simp only [keys, List.length_map] at hlength ⊢
          rw [hlength]
          exact h.size
        · exact hkeys.nodup_iff.mpr h.distinct
        · exact htotal
        · intro pin wave hwave
          rw [hedges]
          refine Or.inl ⟨pin, h.listed ((h.active pin).mpr ?_), ?_⟩
          · rw [hwave]
            exact Option.some_ne_none _
          · rw [hc, (h.stashed pin wave hwave).1]
        · intro pin
          rw [hmask, ← h.active pin]
          simp only [Bool.false_eq_true, or_false]
          exact ⟨fun hin => (hpins pin hin).1, h.listed⟩
        · rw [hc]
          exact h.defined
      · rw [hc]
        exact h.stashed
      · rw [hc]
        exact h.idle

theorem duty_other {wave : Wave} {other : Pin} (h : set duty pin none other = some wave) :
    other ≠ pin ∧ duty other = some wave := by
  unfold set at h
  split at h
  · cases h
  · exact ⟨‹_›, h⟩

theorem duty_active {other : Pin} (hmask : s.pwm.mask other = true ↔ duty other ≠ none) :
    set s.pwm.mask pin false other = true ↔ set duty pin none other ≠ none := by
  by_cases hother : other = pin
  · simp [hother]
  · rw [set_other hother, set_other hother]
    exact hmask

theorem idle_none (h : Inv s duty) (hidle : s.pwm.mask pin ≠ true) : duty pin = none := by
  rw [Ne, h.active] at hidle
  exact Classical.not_not.mp hidle

theorem stopPWM_inv (pin : Pin) (h : Inv s duty) : Inv (stopPWM pin s) (set duty pin none) := by
  unfold stopPWM
  split
  · rename_i hidle
    rw [set_self (idle_none h fun hactive => Bool.noConfusion (hidle.symm.trans hactive))]
    exact h
  · have hstashed : ∀ other wave, set duty pin none other = some wave →
        s.wave other = wave ∧ 0 < wave.desiredLowCycles :=
      fun other wave hwave => h.stashed other wave (duty_other hwave).2
    have hidle : ∀ other, set duty pin none other ≠ none → s.waveformEnabled other = false := by
      intro other hother
      obtain ⟨wave, hwave⟩ := Option.ne_none_iff_exists'.mp hother
      apply h.idle
      rw [(duty_other hwave).2]
      exact Option.some_ne_none wave
    have hactive := fun other => @duty_active s duty pin other (h.active other)
    simp only
    split
    · rename_i hnone
      refine ⟨⟨Nat.zero_le _, List.nodup_nil, fun hne => absurd rfl hne, ?_, hactive, h.defined⟩,
        hstashed, hidle⟩
      intro other wave hwave
      have hon := (hactive other).mpr (hwave ▸ Option.some_ne_none wave)
      rw [hnone other] at hon
      cases hon
    · exact ⟨⟨h.size, h.distinct, h.period, fun other wave hwave =>
        h.pulses other wave (duty_other hwave).2, hactive, h.defined⟩, hstashed, hidle⟩

theorem stopWaveform_inv (pin : Pin) (h : Inv s duty) : Inv (stopWaveform pin s) duty := by
  unfold stopWaveform
  split
  · refine ⟨⟨h.size, h.distinct, h.period, h.pulses, h.active, h.defined⟩, h.stashed, ?_⟩
    intro other hother
    simp only
    by_cases hsame : other = pin
    · rw [hsame, set_same]
    · rw [set_other hsame]
      exact h.idle other hother
  · exact h

theorem edge_inv (pin : Pin) (h : Inv s duty) : Inv (edge pin s) duty := by
  unfold edge
  split
  · rename_i other wave hchange
    split
    · rename_i hedge
      refine ⟨⟨h.size, h.distinct, h.period, h.pulses, h.active, h.defined⟩, ?_, h.idle⟩
      intro first duties hduties
      have hne : first ≠ pin := by
        rintro rfl
        have hidle := h.idle first (hduties ▸ Option.some_ne_none _)
        rw [hedge.2] at hidle
        cases hidle
      simp only
      rw [set_other hne]
      exact h.stashed first duties hduties
    · exact h
  · exact h

theorem startWaveform_inv (flashPin : Pin → Bool) (pin : Pin) (wave : Wave) (h : Inv s duty) :
    Inv (startWaveform flashPin pin wave s)
      (if flashPin pin = true ∨ wave.desiredHighCycles = 0 then duty else set duty pin none) := by
  unfold startWaveform
  split
  · exact h
  · have hstopped := stopPWM_inv pin h
    simp only
    split
    · have hwaited : Inv (((stopPWM pin s).waveformToChange.map Prod.fst).elim (stopPWM pin s)
          fun other => edge other (stopPWM pin s)) (set duty pin none) := by
        cases (stopPWM pin s).waveformToChange.map Prod.fst with
        | none => exact hstopped
        | some other => exact edge_inv other hstopped
      exact ⟨⟨hwaited.size, hwaited.distinct, hwaited.period, hwaited.pulses, hwaited.active,
        hwaited.defined⟩, hwaited.stashed, hwaited.idle⟩
    · refine ⟨⟨hstopped.size, hstopped.distinct, hstopped.period, hstopped.pulses, hstopped.active,
        hstopped.defined⟩, ?_, ?_⟩
      · intro other duties hduties
        simp only
        rw [set_other (duty_other hduties).1]
        exact hstopped.stashed other duties hduties
      · intro other hother
        obtain ⟨duties, hduties⟩ := Option.ne_none_iff_exists'.mp hother
        simp only
        rw [set_other (duty_other hduties).1]
        exact hstopped.idle other hother

end Calls

section Clean
variable {pin : Pin} {mask : Pin → Bool}

theorem cleanLoop_keep (leftover : Nat) (entries : Deltas Pin) (hnodup : (keys entries).Nodup) :
    (cleanLoop pin mask leftover entries).2 =
        keep (fun other => other ≠ pin && mask other) leftover entries ∧
      ∀ other, other ≠ pin → (cleanLoop pin mask leftover entries).1 other = mask other := by
  induction entries generalizing mask leftover with
  | nil => exact ⟨rfl, fun _ _ => rfl⟩
  | cons entry entries ih =>
    rw [keys_cons, List.nodup_cons] at hnodup
    have htest : (decide (entry.1 ≠ pin) && mask entry.1) = true ↔
        entry.1 ≠ pin ∧ mask entry.1 = true := by
      rw [Bool.and_eq_true, decide_eq_true_iff]
    rw [cleanLoop, keep]
    by_cases hremoved : entry.1 ≠ pin ∧ mask entry.1 = true
    · obtain ⟨hkept, hmask⟩ := @ih mask 0 hnodup.2
      rw [if_pos hremoved, if_pos (htest.mpr hremoved)]
      simp only [hkept]
      exact ⟨trivial, hmask⟩
    · rw [if_neg hremoved, if_neg fun h => hremoved (htest.mp h)]
      obtain ⟨hkept, hmask⟩ := @ih (set mask entry.1 false) (leftover + entry.2) hnodup.2
      constructor
      · rw [hkept]
        apply keep_congr
        intro other hother
        rw [set_other]
        rintro rfl
        exact hnodup.1 hother
      · intro other hother
        rw [hmask other hother]
        by_cases hsame : other = entry.1
        · rw [hsame, set_same]
          rw [hsame] at hother
          exact (eq_false_of_ne_true fun h => hremoved ⟨hother, h⟩).symm
        · exact set_other hsame

theorem clean_spec {s : State} {duty : Duty} (h : Inv s duty) (pin : Pin) :
    keys (cleanAndRemovePWM s.pwm pin).entries =
        (keys s.pwm.entries).filter (fun other => other ≠ pin && s.pwm.mask other) ∧
      ((cleanAndRemovePWM s.pwm pin).entries ≠ [] →
        total (cleanAndRemovePWM s.pwm pin).entries + (cleanAndRemovePWM s.pwm pin).last = s.period) ∧
      (∀ e, e ∈ edges 0 (cleanAndRemovePWM s.pwm pin).entries ↔
        e ∈ edges 0 s.pwm.entries ∧ e.1 ≠ pin ∧ s.pwm.mask e.1 = true) ∧
      ∀ other, other ≠ pin → (cleanAndRemovePWM s.pwm pin).mask other = s.pwm.mask other := by
  obtain ⟨hkept, hmask⟩ := @cleanLoop_keep pin s.pwm.mask 0 s.pwm.entries h.distinct
  have hentries : (cleanAndRemovePWM s.pwm pin).entries =
      (keep (fun other => other ≠ pin && s.pwm.mask other) 0 s.pwm.entries).1 :=
    congrArg Prod.fst hkept
  have hlast : (cleanAndRemovePWM s.pwm pin).last = s.pwm.last +
      (keep (fun other => other ≠ pin && s.pwm.mask other) 0 s.pwm.entries).2 :=
    congrArg (fun kept : Deltas Pin × Nat => s.pwm.last + kept.2) hkept
  have hsum := total_keep (fun other => other ≠ pin && s.pwm.mask other) 0 s.pwm.entries
  refine ⟨?_, fun hne => ?_, ?_, hmask⟩
  · rw [hentries]
    exact keys_keep _ _ _
  · have hlisted : s.pwm.entries ≠ [] := by
      intro hempty
      rw [hentries, hempty] at hne
      exact hne rfl
    have hperiod := h.period hlisted
    rw [hentries, hlast]
    omega
  · intro e
    rw [hentries, edges_keep, List.mem_filter, Bool.and_eq_true, decide_eq_true_iff]

end Clean

/-- The call comes to `_addPWMtoList`. -/
def schedules (s : State) (pin : Pin) (val range : Nat) : Bool :=
  (cleanAndRemovePWM s.pwm pin).entries.length < maxPWMs && cycles s.period val range ≠ 0 &&
    cycles s.period val range < s.period

def inserted (s : State) (pin : Pin) (val range : Nat) : State :=
  let stopped := stopWaveform pin s
  let added := addPWMtoList stopped (cleanAndRemovePWM stopped.pwm pin) pin val range
  { added.1 with pwm := added.2 }

def record (flashPin : Pin → Bool) (s : State) (duty : Duty) : Call → Duty
  | .setPWM pin val range =>
    set duty pin (if schedules s pin val range = true then some ⟨val, range⟩ else none)
  | .stopPWM pin => set duty pin none
  | .startWaveform pin wave =>
    if flashPin pin = true ∨ wave.desiredHighCycles = 0 then duty else set duty pin none
  | _ => duty

/-- When a call keeps the schedule: no product passes 32 bits, a new period is 2 at least, and it
doesn't come while a pin in the list is stopped. -/
def Fits (cpu : Cpu) (s : State) : Call → Prop
  | .setPWM pin val range => 0 < val ∧ val < range ∧ range ≤ 65535 ∧
    (schedules s pin val range = true →
      s.period * val < 2 ^ 32 ∧ FreqFits cpu (inserted s pin val range) s.freq)
  | .setPWMFreq freq => 100 ≤ freq ∧ FreqFits cpu s freq
  | _ => True

section Steps
variable {s : State} {duty : Duty} {pin : Pin} {val range : Nat}

theorem stopWaveform_same (pin : Pin) (s : State) : (stopWaveform pin s).pwm = s.pwm ∧
    (stopWaveform pin s).period = s.period ∧ (stopWaveform pin s).freq = s.freq := by
  unfold stopWaveform
  split <;> exact ⟨rfl, rfl, rfl⟩

theorem stopWaveform_idle (pin : Pin) (s : State) :
    (stopWaveform pin s).waveformEnabled pin = false := by
  unfold stopWaveform
  split
  · exact set_same
  · exact eq_false_of_ne_true ‹_›

theorem full_idle (h : Inv s duty) (hfull : maxPWMs ≤ (cleanAndRemovePWM s.pwm pin).entries.length) :
    duty pin = none := by
  apply idle_none h
  intro hactive
  have hkeys := congrArg List.length (clean_spec h pin).1
  have hshorter : ((keys s.pwm.entries).filter fun other => other ≠ pin && s.pwm.mask other).length <
      (keys s.pwm.entries).length := by
    rw [List.length_filter_lt_length_iff_exists]
    exact ⟨pin, h.listed hactive, by simp⟩
  have hsize := h.size
  simp only [keys, List.length_map] at hkeys hshorter
  omega

theorem inserted_inv (h : Inv s duty) (hrange : 0 < range)
    (hschedules : schedules s pin val range = true) (hfits : s.period * val < 2 ^ 32) :
    Inv (inserted s pin val range) (set duty pin (some ⟨val, range⟩)) := by
  simp only [schedules, Bool.and_eq_true, decide_eq_true_iff] at hschedules
  obtain ⟨⟨hroom, hpos⟩, hlt⟩ := hschedules
  obtain ⟨hpwm, hperiod, -⟩ := stopWaveform_same pin s
  have hstopped := stopWaveform_inv pin h
  obtain ⟨hkeys, htotal, hedges, hmask⟩ := clean_spec hstopped pin
  rw [hpwm] at hkeys htotal hedges hmask
  obtain ⟨hkeys', htotal', hedges'⟩ := @addPWMtoList_spec (stopWaveform pin s)
    (cleanAndRemovePWM s.pwm pin) pin val range (by omega) (by rw [hperiod]; exact hfits) htotal
  have hmask' := @addPWMtoList_mask (stopWaveform pin s) (cleanAndRemovePWM s.pwm pin) pin val range
  have hpin : pin ∉ keys (cleanAndRemovePWM s.pwm pin).entries := by
    rw [hkeys]
    simp
  have hduty : ∀ other wave, set duty pin (some ⟨val, range⟩) other = some wave →
      other = pin ∧ wave = ⟨val, range⟩ ∨ other ≠ pin ∧ duty other = some wave := by
    intro other wave hwave
    unfold set at hwave
    split at hwave
    · exact Or.inl ⟨‹_›, (Option.some.inj hwave).symm⟩
    · exact Or.inr ⟨‹_›, hwave⟩
  unfold inserted
  simp only [hpwm, addPWMtoList_state]
  constructor
  · constructor
    · have hlength := hkeys'.length_eq
      simp only [keys, List.length_map, List.length_cons] at hlength ⊢
      rw [hlength]
      exact hroom
    · rw [hkeys'.nodup_iff, List.nodup_cons]
      refine ⟨hpin, ?_⟩
      rw [hkeys]
      exact h.distinct.filter _
    · exact fun _ => htotal'
    · intro other wave hwave
      rw [hedges', hperiod]
      rcases hduty other wave hwave with ⟨rfl, rfl⟩ | ⟨hother, hwave⟩
      · exact Or.inl rfl
      · refine Or.inr ((hedges _).mpr ⟨h.pulses other wave hwave, hother, ?_⟩)
        exact (h.active other).mpr (hwave ▸ Option.some_ne_none wave)
    · intro other
      rw [hmask']
      by_cases hother : other = pin
      · simp [hother]
      · rw [set_other hother, set_other hother, hmask other hother]
        exact h.active other
    · simp [hstopped.defined, Nat.pos_iff_ne_zero.mp hrange]
  · intro other wave hwave
    rcases hduty other wave hwave with ⟨rfl, rfl⟩ | ⟨hother, hwave⟩
    · exact ⟨set_same, hrange⟩
    · simp only [set_other hother]
      exact hstopped.stashed other wave hwave
  · intro other hother
    by_cases hsame : other = pin
    · rw [hsame]
      exact stopWaveform_idle pin s
    · rw [set_other hsame] at hother
      exact hstopped.idle other hother

theorem setPWM_inv (cpu : Cpu) (h : Inv s duty) (hrange : 0 < range)
    (hfits : schedules s pin val range = true →
      s.period * val < 2 ^ 32 ∧ FreqFits cpu (inserted s pin val range) s.freq) :
    Inv (setPWM cpu pin val range s)
      (set duty pin (if schedules s pin val range = true then some ⟨val, range⟩ else none)) := by
  obtain ⟨hpwm, hperiod, hfreq⟩ := stopWaveform_same pin s
  have hstopped := stopWaveform_inv pin h
  unfold setPWM
  simp only [hpwm, hperiod, hfreq]
  split
  · rename_i hfull
    have hnone : schedules s pin val range ≠ true := by
      simp [schedules, Nat.not_lt.mpr hfull]
    rw [if_neg hnone, set_self (full_idle h hfull)]
    exact hstopped
  · rename_i hroom
    split
    · rename_i hclipped
      have hnone : schedules s pin val range ≠ true := by
        intro hschedules
        simp only [schedules, Bool.and_eq_true, decide_eq_true_iff] at hschedules
        omega
      rw [if_neg hnone]
      exact stopPWM_inv pin (stopWaveform_inv pin hstopped)
    · rename_i hclear
      have hschedules : schedules s pin val range = true := by
        simp only [schedules, Bool.and_eq_true, decide_eq_true_iff]
        omega
      obtain ⟨hproduct, hfreqFits⟩ := hfits hschedules
      have hinserted := inserted_inv h hrange hschedules hproduct
      rw [if_pos hschedules]
      have hsame := setPWMFreq_inv cpu s.freq hinserted hfreqFits
      unfold inserted at hsame
      simp only [hpwm] at hsame
      exact hsame

theorem call_inv (cpu : Cpu) (flashPin : Pin → Bool) (h : Inv s duty) (c : Call)
    (hfits : Fits cpu s c) : Inv (call cpu flashPin s c) (record flashPin s duty c) := by
  cases c with
  | setPWM pin val range => exact setPWM_inv cpu h (Nat.zero_lt_of_lt hfits.2.1) hfits.2.2.2
  | stopPWM pin => exact stopPWM_inv pin h
  | startWaveform pin wave => exact startWaveform_inv flashPin pin wave h
  | setPWMFreq freq => exact setPWMFreq_inv cpu freq h hfits.2
  | edge pin => exact edge_inv pin h
  | expire pin =>
    refine ⟨⟨h.size, h.distinct, h.period, h.pulses, h.active, h.defined⟩, h.stashed, ?_⟩
    intro other hother
    by_cases hsame : other = pin
    · rw [hsame]
      exact set_same
    · exact (set_other hsame).trans (h.idle other hother)

theorem start_inv (cpu : Cpu) : Inv (State.start cpu) fun _ => none :=
  ⟨⟨Nat.zero_le _, List.nodup_nil, fun hne => absurd rfl hne, fun _ _ h => (nomatch h),
    fun _ => by simp [State.start], rfl⟩, fun _ _ h => (nomatch h), fun _ h => absurd rfl h⟩

end Steps

def recorded (cpu : Cpu) (flashPin : Pin → Bool) : Machine (State × Duty) Call Unit where
  step s c := ((call cpu flashPin s.1 c, record flashPin s.1 s.2 c), ())

/-- In every run of calls that fit, the schedule is as the pins have to be in every state. -/
theorem scheduled_along (cpu : Cpu) (flashPin : Pin → Bool) (calls : List Call)
    (h : (recorded cpu flashPin).Along (fun s c => Fits cpu s.1 c) (State.start cpu, fun _ => none)
      calls) :
    Scheduled ((recorded cpu flashPin).run (State.start cpu, fun _ => none) calls).1.1
      ((recorded cpu flashPin).run (State.start cpu, fun _ => none) calls).1.2 := by
  have hinv := (recorded cpu flashPin).run_invariant (fun s c => Fits cpu s.1 c)
    (fun s => Inv s.1 s.2) (fun s c hs hc => call_inv cpu flashPin hs c hc) _ calls (start_inv cpu) h
  exact hinv.toScheduled

def flashPins (pin : Pin) : Bool := 6 ≤ pin.val && pin.val ≤ 11

def plainCalls : List Call := [.setPWM 4 128 256, .setPWM 5 64 256, .setPWMFreq 2000, .stopPWM 4]

theorem plainCalls_scheduled :
    Scheduled ((recorded .mhz80 flashPins).run (State.start .mhz80, fun _ => none) plainCalls).1.1
      ((recorded .mhz80 flashPins).run (State.start .mhz80, fun _ => none) plainCalls).1.2 := by
  apply scheduled_along
  refine ⟨⟨by decide, by decide, by decide, fun _ => ⟨by decide, Or.inr (Or.inr ?_)⟩⟩,
    ⟨by decide, by decide, by decide, fun _ => ⟨by decide, Or.inr (Or.inr ?_)⟩⟩,
    ⟨by decide, Or.inr (Or.inr ?_)⟩, trivial, trivial⟩
  · exact ⟨by decide, by decide⟩
  · exact ⟨by decide, by decide⟩
  · exact ⟨by decide, by decide⟩

def stoppedCalls : List Call := [.setPWM 4 128 256, .setPWM 5 64 256, .stopPWM 4, .setPWMFreq 2000]

theorem stoppedCalls_reactivate :
    ¬ Scheduled ((recorded .mhz80 flashPins).run (State.start .mhz80, fun _ => none) stoppedCalls).1.1
      ((recorded .mhz80 flashPins).run (State.start .mhz80, fun _ => none) stoppedCalls).1.2 := by
  intro h
  have hactive := (h.active 4).mp (by decide)
  exact hactive (by decide)

end Esp8266.Waveform
