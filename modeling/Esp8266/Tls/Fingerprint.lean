import Esp8266.Library.Ctype
import Esp8266.Tls.Validator

/-! Which strings are fingerprints. -/
namespace Esp8266.Tls
open Esp8266.Ctype

inductive Written : List UInt8 → List UInt8 → Prop
  | nil : Written [] []
  | cons {high low : UInt8} {h l : Nat} {separators rest numbers : List UInt8}
    (hhigh : digitValue high = some h) (hh : h < 16) (hlow : digitValue low = some l) (hl : l < 16)
    (hseparators : ∀ c ∈ separators, isSeparator c = true) (hrest : Written rest numbers) :
    Written (high :: low :: (separators ++ rest)) (UInt8.ofNat (16 * h + l) :: numbers)

theorem htoi_value : ∀ n < 256, (digitValue (UInt8.ofNat n)).filter (· < 16) =
    if htoi (UInt8.ofNat n) ≤ 15 then some (htoi (UInt8.ofNat n)).toNat else none := by
  decide +kernel

theorem htoi_eq (c : UInt8) : (digitValue c).filter (· < 16) =
    if htoi c ≤ 15 then some (htoi c).toNat else none := by
  have h := htoi_value c.toNat c.toNat_lt
  rwa [UInt8.ofNat_toNat] at h

theorem htoi_of_digit {c : UInt8} {v : Nat} (h : digitValue c = some v) (hv : v < 16) :
    htoi c = UInt8.ofNat v := by
  have hvalue := htoi_eq c
  rw [h, Option.filter_some, if_pos (decide_eq_true hv)] at hvalue
  split at hvalue
  · rw [Option.some.inj hvalue, UInt8.ofNat_toNat]
  · cases hvalue

theorem digit_of_htoi {c : UInt8} (h : htoi c ≤ 15) :
    digitValue c = some (htoi c).toNat ∧ (htoi c).toNat < 16 := by
  have hvalue := htoi_eq c
  rw [if_pos h] at hvalue
  obtain ⟨hdigit, hless⟩ := Option.filter_eq_some_iff.mp hvalue
  exact ⟨hdigit, of_decide_eq_true hless⟩

theorem ofNat_le_15 {v : Nat} (hv : v < 16) : UInt8.ofNat v ≤ 15 := by
  rw [UInt8.le_iff_toNat_le, UInt8.toNat_ofNat_of_lt' (show v < 2 ^ 8 by omega)]
  exact Nat.le_of_lt_succ hv

theorem number_eq : ∀ h < 16, ∀ l < 16,
    (UInt8.ofNat h <<< 4) ||| UInt8.ofNat l = UInt8.ofNat (16 * h + l) := by
  decide +kernel

theorem digit_ne_zero {c : UInt8} {v : Nat} (h : digitValue c = some v) : c ≠ 0 := by
  rintro rfl
  cases h

theorem digit_not_separator {c : UInt8} {v : Nat} (h : digitValue c = some v) :
    isSeparator c = false := by
  unfold isSeparator
  rw [Bool.or_eq_false_iff]
  constructor
  · refine decide_eq_false ?_
    rintro rfl
    cases h
  · refine decide_eq_false ?_
    rintro rfl
    cases h

theorem skip_written {separators rest numbers : List UInt8}
    (hseparators : ∀ c ∈ separators, isSeparator c = true) (h : Written rest numbers) :
    (separators ++ rest).dropWhile isSeparator = rest := by
  rw [List.dropWhile_append_of_pos hseparators]
  cases h with
  | nil => rfl
  | cons hhigh => exact List.dropWhile_cons_of_neg (ne_true_of_eq_false (digit_not_separator hhigh))

theorem scan_written {text numbers : List UInt8} (h : Written text numbers) (fp : List UInt8) :
    scan numbers.length (some text) fp = .stopped (some []) (fp ++ numbers) := by
  induction h generalizing fp with
  | nil => rw [List.append_nil, List.length_nil, scan]
  | @cons high low h l separators rest numbers hhigh hh hlow hl hseparators hrest ih =>
    have hgood : ¬ (15 < htoi high ∨ 15 < htoi low) := by
      rw [htoi_of_digit hhigh hh, htoi_of_digit hlow hl, not_or, UInt8.not_lt, UInt8.not_lt]
      exact ⟨ofNat_le_15 hh, ofNat_le_15 hl⟩
    rw [List.length_cons, scan]
    simp only [readByte, advance]
    rw [if_neg (digit_ne_zero hhigh), if_neg (digit_ne_zero hlow), if_neg hgood,
      htoi_of_digit hhigh hh, htoi_of_digit hlow hl, number_eq h hh l hl]
    unfold skipSeparators
    rw [Option.map_some, skip_written hseparators hrest, ih, List.append_assoc]
    rfl

theorem written_of_scan (missing : Nat) {text fp out : List UInt8} {cursor : Cursor}
    (hplain : ∀ c ∈ text, c ≠ 0) (h : scan missing (some text) fp = .stopped cursor out)
    (hlength : out.length = fp.length + missing) (hend : readByte cursor = some 0) :
    ∃ numbers, out = fp ++ numbers ∧ Written text numbers := by
  induction missing generalizing text fp with
  | zero =>
    rw [scan] at h
    injection h with hcursor hout
    rw [← hcursor] at hend
    refine ⟨[], by rw [← hout, List.append_nil], ?_⟩
    cases text with
    | nil => exact .nil
    | cons c rest => exact absurd (Option.some.inj hend) (hplain c List.mem_cons_self)
  | succ missing ih =>
    rw [scan] at h
    cases text with
    | nil =>
      simp only [readByte, if_true] at h
      injection h with _ hout
      rw [hout] at hlength
      omega
    | cons c text =>
      obtain ⟨hc, htext⟩ := List.forall_mem_cons.mp hplain
      simp only [readByte, if_neg hc, advance] at h
      cases text with
      | nil => exact nomatch h
      | cons d text =>
        obtain ⟨hd, hrest⟩ := List.forall_mem_cons.mp htext
        simp only [if_neg hd] at h
        split at h
        · exact nomatch h
        · rename_i hgood
          rw [not_or, UInt8.not_lt, UInt8.not_lt] at hgood
          obtain ⟨hhigh, hh⟩ := digit_of_htoi hgood.1
          obtain ⟨hlow, hl⟩ := digit_of_htoi hgood.2
          have hsuffix : text.dropWhile isSeparator <:+ text := List.dropWhile_suffix _
          obtain ⟨numbers, hout, hwritten⟩ := ih
            (fun e he => hrest e (hsuffix.subset he)) h (by
              rw [hlength, List.length_append, List.length_singleton]
              omega)
          have hnumber := number_eq _ hh _ hl
          rw [UInt8.ofNat_toNat, UInt8.ofNat_toNat] at hnumber
          have hcons : Written (c :: d :: (text.takeWhile isSeparator ++
              text.dropWhile isSeparator)) _ :=
            .cons hhigh hh hlow hl (List.all_eq_true.mp List.all_takeWhile) hwritten
          rw [List.takeWhile_append_dropWhile, ← hnumber] at hcons
          refine ⟨_, ?_, hcons⟩
          rw [hout, List.append_assoc]
          rfl

theorem scan_inside (missing : Nat) (text fp : List UInt8) :
    scan missing (some text) fp ≠ .outside ∧
      ∀ cursor out, scan missing (some text) fp = .stopped cursor out →
        out.length = fp.length + missing → cursor ≠ none := by
  induction missing generalizing text fp with
  | zero =>
    rw [scan]
    refine ⟨Scan.noConfusion, fun cursor out h _ => ?_⟩
    injection h with hcursor
    rw [← hcursor]
    exact Option.some_ne_none _
  | succ missing ih =>
    rw [scan]
    have hstopped : ∀ cursor, Scan.stopped cursor fp ≠ .outside ∧ ∀ cursor' out,
        Scan.stopped cursor fp = .stopped cursor' out →
          out.length = fp.length + (missing + 1) → cursor' ≠ none := by
      refine fun cursor => ⟨Scan.noConfusion, fun cursor' out h hlength => ?_⟩
      injection h with _ hout
      rw [← hout] at hlength
      omega
    have hrefused : Scan.refused ≠ .outside ∧ ∀ cursor out, Scan.refused = .stopped cursor out →
        out.length = fp.length + (missing + 1) → cursor ≠ none :=
      ⟨Scan.noConfusion, fun _ _ h => nomatch h⟩
    cases text with
    | nil =>
      simp only [readByte, if_true]
      exact hstopped _
    | cons c text =>
      simp only [readByte, advance]
      split
      · exact hstopped _
      · cases text with
        | nil =>
          simp only [if_true]
          exact hrefused
        | cons d text =>
          simp only
          split
          · exact hrefused
          · split
            · exact hrefused
            · obtain ⟨hinside, hcursor⟩ := ih (text.dropWhile isSeparator)
                (fp ++ [(htoi c <<< 4) ||| htoi d])
              refine ⟨hinside, fun cursor out h hlength => hcursor cursor out h ?_⟩
              rw [hlength, List.length_append, List.length_singleton]
              omega

theorem parseFingerprint_inside (text : List UInt8) : parseFingerprint text ≠ .outside := by
  obtain ⟨hinside, hcursor⟩ := scan_inside 20 text []
  unfold parseFingerprint
  split
  · rename_i hscan
    exact absurd hscan hinside
  · exact Parsed.noConfusion
  · rename_i cursor fp hscan
    split
    · rename_i hlength
      split
      · rename_i hread
        refine absurd ?_ (hcursor cursor fp hscan (by rw [hlength]; rfl))
        unfold readByte at hread
        split at hread
        · rfl
        · cases hread
        · cases hread
      · split
        · exact Parsed.noConfusion
        · exact Parsed.noConfusion
    · exact Parsed.noConfusion

theorem parseFingerprint_iff (text : CString) (fingerprint : Fingerprint) :
    parseFingerprint text.text = .accepted fingerprint ↔ Written text.text fingerprint.bytes := by
  constructor
  · intro h
    unfold parseFingerprint at h
    split at h
    · cases h
    · cases h
    · rename_i cursor fp hscan
      split at h
      · rename_i hlength
        split at h
        · cases h
        · rename_i c hread
          split at h
          · rename_i hzero
            obtain ⟨numbers, hout, hwritten⟩ := written_of_scan 20 text.plain hscan
              (by rw [hlength]; rfl) (hzero ▸ hread)
            injection h with heq
            rw [← heq]
            simp only
            rw [hout]
            exact hwritten
          · cases h
      · cases h
  · intro h
    have hscan := scan_written h []
    rw [fingerprint.length, List.nil_append] at hscan
    unfold parseFingerprint
    rw [hscan]
    simp only
    rw [dif_pos fingerprint.length]
    rfl

end Esp8266.Tls
