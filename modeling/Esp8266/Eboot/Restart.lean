import Esp8266.Eboot.Install

/-! The command in RTC memory, and boots until it is done. -/
namespace Esp8266.Eboot
open Esp8266.Memory Esp8266.Flash Esp8266.CrashLogic Esp8266.Runs

section Command

inductive RtcAction where
  | write (cmd : EbootCommand)
  | clear

def RtcAction.apply (rtc : EbootCommand) : RtcAction → EbootCommand
  | .write cmd => ebootCommandWrite cmd
  | .clear => ebootCommandClear rtc

theorem read_written (cmd : EbootCommand) : (ebootCommandRead (ebootCommandWrite cmd)).1 = 0 := by
  have hmagic : ebootMagic &&& ebootMagicMask = ebootMagic := by decide
  have hbytes : ({ cmd with magic := ebootMagic } : EbootCommand).bytes =
      (ebootCommandWrite cmd).bytes := by
    simp only [EbootCommand.bytes, ebootCommandWrite]
  have hstored : (ebootCommandWrite cmd).crc32 =
      ({ cmd with magic := ebootMagic } : EbootCommand).calculateCrc32 := by
    simp only [ebootCommandWrite]
  have hcrc : (ebootCommandWrite cmd).crc32 = (ebootCommandWrite cmd).calculateCrc32 := by
    rw [hstored, EbootCommand.calculateCrc32, EbootCommand.calculateCrc32, hbytes]
  exact if_neg (not_or.mpr ⟨not_not_intro hmagic, not_not_intro hcrc⟩)

theorem read_unmarked {rtc : EbootCommand} (h : rtc.magic = 0) : (ebootCommandRead rtc).1 = 1 := by
  refine if_pos (.inl ?_)
  rw [h]
  decide

def CommandKept (rtc : EbootCommand) (actions : List RtcAction) : Prop :=
  let read := ebootCommandRead (actions.foldl RtcAction.apply rtc)
  match actions.getLast? with
  | some (.write cmd) => read.1 = 0 ∧ read.2.action = cmd.action ∧ read.2.args = cmd.args
  | some .clear => read.1 = 1
  | none => read = ebootCommandRead rtc

theorem command_kept (rtc : EbootCommand) (actions : List RtcAction) : CommandKept rtc actions := by
  unfold CommandKept
  cases hlast : actions.getLast? with
  | none =>
    rw [List.getLast?_eq_none_iff] at hlast
    rw [hlast]
    rfl
  | some last =>
    obtain ⟨before, rfl⟩ := List.getLast?_eq_some_iff.mp hlast
    rw [List.foldl_append, List.foldl_cons, List.foldl_nil]
    cases last with
    | write cmd => exact ⟨read_written cmd, rfl, rfl⟩
    | clear => exact read_unmarked rfl

end Command

section Boots
variable {u : Uzlib} {c₀ : Chip} {src dst size : UInt32} {count : Nat} {final : Cells UInt8}

structure Start where
  reads : List Outcome
  checks : List Outcome
  changes : List Outcome
  garbage : List UInt8

def Chip.start (c : Chip) (start : Start) : Chip :=
  { c with reads := start.reads, checks := start.checks, changes := start.changes }

/-- Each boot runs `main`; the answer is what `copy_raw` returned, if it did. -/
def boots (u : Uzlib) : Machine Chip Start (Option Nat) where
  step c start :=
    let r := main u start.garbage (c.start start)
    (r.2, r.1.join)

/-- A boot in which `copy_raw` finds the condition, and returns 0 if it returns. -/
def Copies (u : Uzlib) (condition : Chip → Prop) (c : Chip) (start : Start) : Prop :=
  condition ((c.start start).called true) ∧ ∀ code, ((boots u).step c start).2 = some code → code = 0

structure Commanded (c₀ : Chip) (src dst size : UInt32) : Prop where
  valid : (ebootCommandRead c₀.rtc).1 = 0
  action : c₀.rtc.action = actionCopyRaw
  src : c₀.rtc.args 0 = src
  dst : c₀.rtc.args 1 = dst
  size : c₀.rtc.args 2 = size

theorem Within.trans {c c' : Chip} {dst count : Nat} (h : Within c₀ dst count c)
    (h' : Within c dst count c') : Within c₀ dst count c' := by
  obtain ⟨new, hnew, hmem⟩ := h.touched
  obtain ⟨new', hnew', hmem'⟩ := h'.touched
  refine ⟨h'.chip.trans h.chip, h'.rtc.trans h.rtc, h'.reads.trans h.reads,
    fun a ha => (h'.outside a ha).trans (h.outside a ha), new ++ new', ?_, ?_⟩
  · rw [hnew', hnew, List.append_assoc]
  · intro sector hsector
    rcases List.mem_append.mp hsector with hold | hnext
    · exact hmem sector hold
    · exact hmem' sector hnext

theorem Within.start {c : Chip} {dst count : Nat} {before : Start}
    (h : Within (c₀.start before) dst count c) (start : Start) :
    Within (c₀.start start) dst count (c.start start) :=
  ⟨h.chip, h.rtc, List.suffix_refl _, h.outside, h.touched⟩

def Going (c₀ : Chip) (dst count : Nat) (final : Cells UInt8) (c : Chip) : Prop :=
  (∃ start, Within (c₀.start start) dst count c) ∨ c.flash = final ∧ c.rtc.magic = 0

def CopyEnds (u : Uzlib) (condition : Chip → Prop) (c₀ : Chip) (src dst size : UInt32) (count : Nat)
    (final : Cells UInt8) : Prop :=
  ∀ start c garbage, Within (c₀.start start) dst.toNat count c → condition c →
    Triple (· = c) (copyRaw u garbage src dst size)
      (fun code c' => Within c dst.toNat count c' ∧ (code = 0 → c'.flash = final))
      (Within c dst.toNat count)

theorem main_cases (c : Chip) (garbage : List UInt8) :
    main u garbage c = (none, c.called true) ∨
      main u garbage c = afterVersion u garbage (c.called true) := by
  rcases spiRead_cases c true (0x1000 + 16) 4 with h | ⟨bytes, h⟩ | ⟨-, h⟩
  · exact .inl (bind_stopped h)
  · exact .inr (bind_run h)
  · exact .inr (bind_run h)

theorem afterVersion_copies {c : Chip} {garbage : List UInt8}
    (hvalid : (ebootCommandRead c.rtc).1 = 0) (haction : c.rtc.action = actionCopyRaw) :
    afterVersion u garbage c =
      (copyRaw u garbage (c.rtc.args 0) (c.rtc.args 1) (c.rtc.args 2) >>= fun res =>
        clearCommand >>= fun _ => pure (some res)) c := by
  change (if (ebootCommandRead c.rtc).1 = 0 then
    (if c.rtc.action = actionCopyRaw then
      copyRaw u garbage (c.rtc.args 0) (c.rtc.args 1) (c.rtc.args 2) >>= fun res =>
        clearCommand >>= fun _ => pure (some res)
    else clearCommand >>= fun _ => pure none)
    else (pure none : Boot (Option Nat))) c = _
  rw [if_pos hvalid, if_pos haction]

theorem afterVersion_idle {c : Chip} {garbage : List UInt8}
    (hinvalid : (ebootCommandRead c.rtc).1 = 1) : afterVersion u garbage c = (some none, c) := by
  change (if (ebootCommandRead c.rtc).1 = 0 then
    (if c.rtc.action = actionCopyRaw then
      copyRaw u garbage (c.rtc.args 0) (c.rtc.args 1) (c.rtc.args 2) >>= fun res =>
        clearCommand >>= fun _ => pure (some res)
    else clearCommand >>= fun _ => pure none)
    else (pure none : Boot (Option Nat))) c = _
  rw [hinvalid]
  rfl

theorem boot_going {condition : Chip → Prop} (hcopy : CopyEnds u condition c₀ src dst size count final)
    (hcommand : Commanded c₀ src dst size) {c : Chip} (hgoing : Going c₀ dst.toNat count final c)
    (start : Start) (hcopies : Copies u condition c start) :
    Going c₀ dst.toNat count final ((boots u).step c start).1 := by
  obtain ⟨hcondition, hzero⟩ := hcopies
  have hmain := main_cases (u := u) (c.start start) start.garbage
  simp only [boots] at hzero ⊢
  rcases hgoing with ⟨before, hwithin⟩ | ⟨hflash, hmagic⟩
  · have hstarted := (hwithin.start start).called true
    rcases hmain with hmain | hmain
    · rw [hmain]
      exact .inl ⟨start, hstarted⟩
    · have hrtc : ((c.start start).called true).rtc = c₀.rtc := hstarted.rtc
      have hvalid : (ebootCommandRead ((c.start start).called true).rtc).1 = 0 := by
        rw [hrtc]
        exact hcommand.valid
      have haction : ((c.start start).called true).rtc.action = actionCopyRaw := by
        rw [hrtc]
        exact hcommand.action
      rw [afterVersion_copies hvalid haction, hrtc, hcommand.src, hcommand.dst, hcommand.size]
        at hmain
      have hspec := hcopy start _ start.garbage hstarted hcondition
      cases hend : copyRaw u start.garbage src dst size ((c.start start).called true) with
      | mk res c' =>
        cases res with
        | none =>
          rw [bind_stopped hend] at hmain
          rw [hmain]
          have hstopped := hspec.stopped rfl (congrArg Prod.fst hend)
          rw [hend] at hstopped
          exact .inl ⟨start, hstarted.trans hstopped⟩
        | some code =>
          rw [bind_run hend] at hmain
          rw [hmain] at hzero ⊢
          have hended := hspec.ended rfl (congrArg Prod.fst hend)
          rw [hend] at hended
          exact .inr ⟨hended.2 (hzero code rfl), rfl⟩
  · right
    rcases hmain with hmain | hmain
    · rw [hmain]
      exact ⟨hflash, hmagic⟩
    · have hinvalid : (ebootCommandRead ((c.start start).called true).rtc).1 = 1 := read_unmarked hmagic
      rw [hmain, afterVersion_idle hinvalid]
      exact ⟨hflash, hmagic⟩

theorem boots_going {condition : Chip → Prop} (hcopy : CopyEnds u condition c₀ src dst size count final)
    (hcommand : Commanded c₀ src dst size) (starts : List Start)
    (along : (boots u).Along (Copies u condition) c₀ starts) :
    Going c₀ dst.toNat count final ((boots u).run c₀ starts).1 := by
  refine (boots u).run_invariant (Copies u condition) (Going c₀ dst.toNat count final)
    (fun c start hgoing hcopies => boot_going hcopy hcommand hgoing start hcopies) c₀ starts ?_ along
  exact .inl ⟨⟨c₀.reads, c₀.checks, c₀.changes, []⟩, Within.refl _ _ _⟩

theorem copied_within {c : Chip} {src dst count : Nat} (h : Within c₀ dst count c)
    (hapart : src + count ≤ dst ∨ dst + count ≤ src) :
    copied c.flash src dst count = copied c₀.flash src dst count := by
  funext a
  unfold copied
  split
  · exact h.outside _ (by omega)
  · exact h.outside _ (by omega)

theorem copyRaw_ends (hsrc : src.toNat % flashSectorSize = 0)
    (hdst : dst.toNat % flashSectorSize = 0) (hsize : size.toNat ≤ 2 ^ 31 - flashSectorSize)
    (hapart : src.toNat + rounded size.toNat ≤ dst.toNat ∨
      dst.toNat + rounded size.toNat ≤ src.toNat)
    (hplain : ¬ GzipMagic c₀.flash src.toNat) :
    CopyEnds u (Detects src.toNat) c₀ src dst size (rounded size.toNat)
      (copied c₀.flash src.toNat dst.toNat (rounded size.toNat)) := by
  intro start c garbage hwithin hdetects
  have hstill : ¬ GzipMagic c.flash src.toNat := by
    have hsector : flashSectorSize = 4096 := rfl
    have hrounded : rounded size.toNat = 0 ∨ flashSectorSize ≤ rounded size.toNat := by
      rw [rounded, hsector]
      omega
    rw [hsector] at hrounded
    unfold GzipMagic
    rw [hwithin.outside _ (by omega), hwithin.outside _ (by omega)]
    exact hplain
  refine (copyRaw_plain hsrc hdst hsize (by omega) hdetects hstill).weaken (fun _ h => h) ?_
    fun _ h => h
  intro code c' hc'
  refine ⟨hc'.1, fun hcode => (hc'.2 hcode).trans ?_⟩
  exact @copied_within (c₀.start start) _ _ _ _ hwithin hapart

/-- The copy of an image installs it, also when it begins again after resets, and the command is kept
for it. -/
theorem eboot_installs (u : Uzlib) {src dst size : UInt32}
    (hsrc : src.toNat % flashSectorSize = 0) (hdst : dst.toNat % flashSectorSize = 0)
    (hsize : size.toNat < 2 ^ 31)
    (hapart : dst.toNat ≤ src.toNat ∨ src.toNat + size.toNat ≤ dst.toNat) :
    ((∀ c garbage, Detects src.toNat c → ¬ GzipMagic c.flash src.toNat →
      CopyInstalls u garbage c src dst size) ↔
        size.toNat ≤ 2 ^ 31 - flashSectorSize ∨ dst = src) ∧
    (size.toNat ≤ 2 ^ 31 - flashSectorSize →
      src.toNat + size.toNat ≤ dst.toNat ∨ dst.toNat + size.toNat ≤ src.toNat →
      ∀ c₀ starts, ¬ GzipMagic c₀.flash src.toNat → Commanded c₀ src dst size →
        (boots u).Along (Copies u (Detects src.toNat)) c₀ starts →
        Going c₀ dst.toNat (rounded size.toNat)
          (copied c₀.flash src.toNat dst.toNat (rounded size.toNat)) ((boots u).run c₀ starts).1) ∧
    ∀ rtc actions, CommandKept rtc actions := by
  refine ⟨copyInstalls_iff hsrc hdst hsize hapart, ?_, command_kept⟩
  intro hfits hdisjoint c₀ starts hplain hcommand along
  have hapart' : src.toNat + rounded size.toNat ≤ dst.toNat ∨
      dst.toNat + rounded size.toNat ≤ src.toNat :=
    hdisjoint.imp (rounded_below hsrc hdst) (rounded_below hdst hsrc)
  exact boots_going (copyRaw_ends hsrc hdst hfits hapart' hplain) hcommand starts along

end Boots

def refusing : Uzlib := ⟨Unit, .done none, fun _ _ => .done none⟩

theorem firstSector_installs :
    ((∀ c garbage, Detects (0x2000 : UInt32).toNat c →
      ¬ GzipMagic c.flash (0x2000 : UInt32).toNat →
      CopyInstalls refusing garbage c 0x2000 0x1000 0x1000) ↔
        (0x1000 : UInt32).toNat ≤ 2 ^ 31 - flashSectorSize ∨ (0x1000 : UInt32) = 0x2000) ∧
    ((0x1000 : UInt32).toNat ≤ 2 ^ 31 - flashSectorSize →
      (0x2000 : UInt32).toNat + (0x1000 : UInt32).toNat ≤ (0x1000 : UInt32).toNat ∨
        (0x1000 : UInt32).toNat + (0x1000 : UInt32).toNat ≤ (0x2000 : UInt32).toNat →
      ∀ c₀ starts, ¬ GzipMagic c₀.flash (0x2000 : UInt32).toNat →
        Commanded c₀ 0x2000 0x1000 0x1000 →
        (boots refusing).Along (Copies refusing (Detects (0x2000 : UInt32).toNat)) c₀ starts →
        Going c₀ (0x1000 : UInt32).toNat (rounded (0x1000 : UInt32).toNat)
          (copied c₀.flash (0x2000 : UInt32).toNat (0x1000 : UInt32).toNat
            (rounded (0x1000 : UInt32).toNat)) ((boots refusing).run c₀ starts).1) ∧
    ∀ rtc actions, CommandKept rtc actions :=
  eboot_installs refusing (by decide) (by decide) (by decide) (by decide)

def staged : Chip where
  flash a := if a = 0x100000 then 1 else 0
  chipSectors := 2 ^ 10
  chipFits := by decide
  rtc := ⟨0, 0, fun _ => 0, 0⟩
  reads := []
  checks := []
  changes := []
  touched := []

theorem largest_notCopied :
    (copyRaw refusing [] 0x100000 0x2000 0x7FFFFFFF staged).1 = some 0 ∧
      ¬ CopyInstalls refusing [] staged 0x100000 0x2000 0x7FFFFFFF := by
  refine ⟨by decide +kernel, ?_⟩
  intro hinstalls
  have hread := (hinstalls (by decide +kernel)).1
  have hfirst := congrArg (fun bytes => bytes[0]?) hread
  rw [read_getElem? _ _ _ _ (by decide), read_getElem? _ _ _ _ (by decide)] at hfirst
  revert hfirst
  decide +kernel

end Esp8266.Eboot
