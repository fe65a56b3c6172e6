import Mathlib.Data.List.TakeWhile
import Esp8266.Library.CString
import Esp8266.Library.Delimiter
import Esp8266.Web.Text

/-! The parameters of an Authorization header, which are looked for by their names. -/
namespace Esp8266.Web
open Esp8266.CString Esp8266.Delimiter Esp8266.Substring

def extractParam (authReq param : List UInt8) (delimit : UInt8) : List UInt8 :=
  let start := indexOfString authReq param 0
  if start = -1 then []
  else
    substring authReq (start.toNat + param.length)
      (unsigned (indexOf authReq delimit (start.toNat + param.length)))

theorem indexOfString_zero {text sub : List UInt8} (htext : 0 ∉ text) (hsub : 0 ∉ sub)
    (hne : sub ≠ []) : indexOfString text sub 0 = toIndex 0 (firstIndex sub text) := by
  have hvisible : visible text = text := visible_eq fun c hc h => htext (h ▸ hc)
  have hvisible' : visible sub = sub := visible_eq fun c hc h => hsub (h ▸ hc)
  unfold indexOfString
  rw [List.drop_zero, hvisible, hvisible']
  cases text with
  | nil => simp [firstIndex, hne, toIndex]
  | cons c text =>
    have hsome : ¬ 0 ≥ (c :: text).length := Nat.not_succ_le_zero _
    rw [if_neg hsome]
    cases firstIndex sub (c :: text) <;> rfl

theorem takeWhile_absent {c : UInt8} {text : List UInt8} (h : c ∉ text) :
    text.takeWhile (· ≠ c) = text := by
  rw [List.takeWhile_eq_self_iff]
  intro d hd
  exact decide_eq_true fun hc => h (hc ▸ hd)

theorem extractParam_eq {authReq param : List UInt8} {delimit : UInt8} (htext : 0 ∉ authReq)
    (hparam : 0 ∉ param) (hne : param ≠ []) (hshort : authReq.length < 2 ^ 31) :
    extractParam authReq param delimit =
      ((behind param authReq).getD []).takeWhile (· ≠ delimit) := by
  unfold extractParam behind
  rw [indexOfString_zero htext hparam hne]
  cases hfirst : firstIndex param authReq with
  | none => rfl
  | some i =>
    have hstart : toIndex 0 (some i) = (i : Int) := Int.zero_add _
    have hpos : ¬ (i : Int) = -1 := by omega
    dsimp only
    rw [hstart, if_neg hpos, Int.toNat_natCast, Option.map_some, Option.getD_some]
    obtain ⟨⟨more, hmore⟩, -⟩ := firstIndex_some hfirst
    have hbound : i + param.length ≤ authReq.length := by
      have hlength := congrArg List.length hmore
      have hpositive := List.length_pos_iff.mpr hne
      rw [List.length_append, List.length_drop] at hlength
      omega
    generalize i + param.length = start at hbound
    have hrest : 0 ∉ authReq.drop start := fun h => htext (List.mem_of_mem_drop h)
    unfold indexOf
    by_cases hout : start ≥ authReq.length
    · have hunsigned : unsigned (-1) = 2 ^ 32 - 1 := rfl
      rw [if_pos hout, hunsigned, substring_eq _ (by omega), List.drop_of_length_le hout,
        List.take_nil, List.takeWhile_nil]
    · rw [if_neg hout, strchr_mem hrest]
      by_cases hmem : delimit ∈ authReq.drop start
      · rw [if_pos hmem]
        have hlength : ((authReq.drop start).takeWhile (· ≠ delimit)).length ≤
            (authReq.drop start).length := (List.takeWhile_sublist _).length_le
        rw [List.length_drop] at hlength
        generalize hn : ((authReq.drop start).takeWhile (· ≠ delimit)).length = n at hlength
        have hunsigned : unsigned ((start : Int) + (n : Int)) = start + n := by
          unfold unsigned
          omega
        dsimp only
        rw [hunsigned, substring_eq _ (Nat.le_add_right _ _), Nat.add_sub_cancel_left, ← hn]
        exact (List.prefix_iff_eq_take.mp (List.takeWhile_prefix _)).symm
      · rw [if_neg hmem]
        have hunsigned : unsigned (-1) = 2 ^ 32 - 1 := rfl
        dsimp only
        rw [hunsigned, substring_eq _ (by omega), List.take_of_length_le (by
          rw [List.length_drop]
          omega)]
        exact (takeWhile_absent hmem).symm

inductive ParamName where
  | username
  | realm
  | nonce
  | uri
  | response
  | opaqueString
  | qop
  | nc
  | cnonce
  deriving DecidableEq

def ParamName.text : ParamName → List UInt8
  | .username => [117, 115, 101, 114, 110, 97, 109, 101]
  | .realm => [114, 101, 97, 108, 109]
  | .nonce => [110, 111, 110, 99, 101]
  | .uri => [117, 114, 105]
  | .response => [114, 101, 115, 112, 111, 110, 115, 101]
  | .opaqueString => [111, 112, 97, 113, 117, 101]
  | .qop => [113, 111, 112]
  | .nc => [110, 99]
  | .cnonce => [99, 110, 111, 110, 99, 101]

def ParamName.all : List ParamName :=
  [.username, .realm, .nonce, .uri, .response, .opaqueString, .qop, .nc, .cnonce]

structure Parameters where
  value : ParamName → CStr
  qopQuoted : Bool
  ncQuoted : Bool
  quote : ∀ name, 34 ∉ (value name).bytes
  names : ∀ name word, ¬ ParamName.text word <:+: (value name).bytes

namespace Parameters
variable (p : Parameters)

def quoted : ParamName → Bool
  | .qop => p.qopQuoted
  | .nc => p.ncQuoted
  | _ => true

/-- What is behind the `=`. -/
def shown (name : ParamName) : List UInt8 :=
  if p.quoted name then 34 :: ((p.value name).bytes ++ [34]) else (p.value name).bytes

def after : List ParamName → List UInt8
  | [] => []
  | name :: names => 44 :: 32 :: (name.text ++ 61 :: (p.shown name ++ after names))

def header : List ParamName → List UInt8
  | [] => []
  | name :: names => name.text ++ 61 :: (p.shown name ++ after p names)

end Parameters

theorem name_letters (name : ParamName) :
    ∀ c ∈ name.text, c ≠ 0 ∧ c ≠ 32 ∧ c ≠ 34 ∧ c ≠ 44 ∧ c ≠ 61 := by
  cases name <;> simp [ParamName.text]

theorem name_ne_nil (name : ParamName) : name.text ≠ [] := by
  cases name <;> exact List.cons_ne_nil _ _

theorem name_suffix (word name : ParamName) :
    word.text <:+ name.text ↔ name = word ∨ word = .nonce ∧ name = .cnonce := by
  cases word <;> cases name <;> decide

section Search
variable {p : Parameters} {word name : ParamName} {tail rest : List UInt8}

def paramMark (word : ParamName) (tail : List UInt8) : List UInt8 := word.text ++ 61 :: tail

theorem not_prefix_cons {c : UInt8} (hc : ∀ d ∈ word.text, d ≠ c) :
    ¬ paramMark word tail <+: c :: rest := by
  intro h
  unfold paramMark at h
  cases hword : word.text with
  | nil => exact name_ne_nil word hword
  | cons d text =>
    rw [hword, List.cons_append, List.cons_prefix_cons] at h
    exact hc d (hword ▸ List.mem_cons_self) h.1

theorem prefix_name {part : List UInt8} (hpart : 61 ∉ part) :
    paramMark word tail <+: part ++ 61 :: rest ↔ part = word.text ∧ tail <+: rest := by
  have hword : 61 ∉ word.text := fun h => (name_letters word _ h).2.2.2.2 rfl
  unfold paramMark
  constructor
  · rintro ⟨more, hmore⟩
    rw [List.append_assoc, List.cons_append] at hmore
    obtain ⟨hname, hrest⟩ := delimited_inj hword hpart hmore
    exact ⟨hname.symm, more, hrest⟩
  · rintro ⟨rfl, more, rfl⟩
    exact ⟨more, by simp⟩

theorem absent_value {value : List UInt8} (hvalue : ¬ word.text <:+: value)
    (hrest : ∀ c ∈ rest.head?, c = 34 ∨ c = 44) : Absent (paramMark word tail) value rest := by
  intro i hi
  rw [List.drop_append_of_le_length (Nat.le_of_lt hi)]
  rintro ⟨more, hmore⟩
  unfold paramMark at hmore
  rw [List.append_assoc] at hmore
  rcases List.append_eq_append_iff.mp hmore with ⟨more', hpart, -⟩ | ⟨more', hword, hbehind⟩
  · apply hvalue
    have hinfix : word.text <:+: value.drop i := ⟨[], more', by rw [List.nil_append, ← hpart]⟩
    exact hinfix.trans (List.drop_suffix i value).isInfix
  · cases more' with
    | nil =>
      apply hvalue
      rw [List.append_nil] at hword
      rw [hword]
      exact (List.drop_suffix i value).isInfix
    | cons c more' =>
      have hmem : c ∈ word.text := by
        rw [hword]
        exact List.mem_append_right _ List.mem_cons_self
      have hletter := name_letters word c hmem
      rcases hrest c (by rw [hbehind]; rfl) with rfl | rfl
      · exact hletter.2.2.1 rfl
      · exact hletter.2.2.2.1 rfl

theorem after_head (p : Parameters) (names : List ParamName) :
    ∀ c ∈ (p.after names).head?, c = 34 ∨ c = 44 := by
  cases names with
  | nil => exact fun c h => nomatch h
  | cons name names =>
    intro c h
    cases h
    exact Or.inr rfl

theorem absent_shown (p : Parameters) (name : ParamName) (names : List ParamName) :
    Absent (paramMark word tail) (61 :: p.shown name) (p.after names) := by
  have hletters := name_letters word
  refine absent_cons (not_prefix_cons fun d hd => (hletters d hd).2.2.2.2) ?_
  unfold Parameters.shown
  split
  · refine absent_cons (not_prefix_cons fun d hd => (hletters d hd).2.2.1) (absent_append ?_ ?_)
    · refine absent_value (p.names name word) fun c hc => ?_
      cases hc
      exact Or.inl rfl
    · exact absent_cons (not_prefix_cons fun d hd => (hletters d hd).2.2.1)
        fun i hi => absurd hi (Nat.not_lt_zero i)
  · exact absent_value (p.names name word) (after_head p names)

theorem absent_text {text : List UInt8} (hpart : 61 ∉ text)
    (h : ¬ (word.text <:+ text ∧ tail <+: rest)) :
    Absent (paramMark word tail) text (61 :: rest) := by
  intro i hi hfound
  rw [List.drop_append_of_le_length (Nat.le_of_lt hi),
    prefix_name fun hmem => hpart (List.mem_of_mem_drop hmem)] at hfound
  exact h ⟨hfound.1 ▸ List.drop_suffix i text, hfound.2⟩

theorem behind_param (p : Parameters) (name : ParamName) (names : List ParamName) :
    behind (paramMark word tail) (name.text ++ 61 :: (p.shown name ++ p.after names)) =
      if word.text <:+ name.text ∧ tail <+: p.shown name ++ p.after names then
        some ((p.shown name ++ p.after names).drop tail.length)
      else behind (paramMark word tail) (p.after names) := by
  have hname : 61 ∉ name.text := fun h => (name_letters name _ h).2.2.2.2 rfl
  split
  · rename_i h
    obtain ⟨⟨front, hfront⟩, ⟨more, hmore⟩⟩ := h
    have habsent : Absent (paramMark word tail) front
        (word.text ++ 61 :: (p.shown name ++ p.after names)) := by
      intro i hi hfound
      have hlength : (front.drop i ++ word.text).length = word.text.length := by
        rw [List.drop_append_of_le_length (Nat.le_of_lt hi), ← List.append_assoc,
          prefix_name] at hfound
        · rw [hfound.1]
        · rw [← hfront] at hname
          exact fun hmem => hname (by
            rcases List.mem_append.mp hmem with hmem | hmem
            · exact List.mem_append_left _ (List.mem_of_mem_drop hmem)
            · exact List.mem_append_right _ hmem)
      rw [List.length_append, List.length_drop] at hlength
      omega
    rw [← hfront, List.append_assoc, behind_absent habsent, ← hmore]
    have hmark : word.text ++ 61 :: (tail ++ more) = paramMark word tail ++ more := by
      simp [paramMark]
    rw [hmark, behind_here, List.drop_left]
  · rename_i h
    rw [behind_absent (absent_text hname h), ← List.cons_append,
      behind_absent (absent_shown p name names)]

theorem behind_after (p : Parameters) (names : List ParamName) :
    behind (paramMark word tail) (p.after names) = behind (paramMark word tail) (p.header names) := by
  cases names with
  | nil => rfl
  | cons name names =>
    have hletters := name_letters word
    have habsent : Absent (paramMark word tail) [44, 32]
        (name.text ++ 61 :: (p.shown name ++ p.after names)) :=
      absent_cons (not_prefix_cons fun d hd => (hletters d hd).2.2.2.1)
        (absent_cons (not_prefix_cons fun d hd => (hletters d hd).2.1)
          fun i hi => absurd hi (Nat.not_lt_zero i))
    exact behind_absent habsent

theorem behind_header (p : Parameters) (name : ParamName) (names : List ParamName) :
    behind (paramMark word tail) (p.header (name :: names)) =
      if word.text <:+ name.text ∧ tail <+: p.shown name ++ p.after names then
        some ((p.shown name ++ p.after names).drop tail.length)
      else behind (paramMark word tail) (p.header names) := by
  rw [Parameters.header, behind_param, behind_after]

end Search

end Esp8266.Web
