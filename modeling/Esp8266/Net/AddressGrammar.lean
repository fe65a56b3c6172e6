import Esp8266.Library.Fields
import Esp8266.Net.Ipv6Parse

/-! Which texts `fromString4`, `fromString6` and `fromString` accept: fields may be empty, the
letters behind `f` count on, and what was stored before a refusal stays stored. -/
namespace Esp8266.Net
open Esp8266.Ctype Esp8266.Fields

def decimalDigit (c : UInt8) : Option Nat := (digitValue c).filter (· < 10)

def hexDigit (c : UInt8) : Option Nat := (digitValue c).filter (· < 16)

def Octet (field : List UInt8) : Prop := Number decimalDigit 10 255 0 field

def octetValue (field : List UInt8) : UInt8 := UInt8.ofNat (value decimalDigit 10 0 field)

def LooseQuad (text : List UInt8) : Prop :=
  ∃ fields : List (List UInt8), fields.length = 4 ∧ (∀ field ∈ fields, Octet field) ∧
    text = separated 46 fields

def Quad (fields : List (List UInt8)) (text : List UInt8) : Prop :=
  fields.length = 4 ∧ (∀ field ∈ fields, field ≠ [] ∧ Octet field) ∧ text = separated 46 fields

/-- Letters and digits of a number that fits a block, with `g` for sixteen and so on; none at all
are a block of 0. -/
def LooseGroup (group : List UInt8) : Prop := Number digitValue 16 0xffff 0 group

def HexGroup (group : List UInt8) : Prop := group ≠ [] ∧ Number hexDigit 16 0xffff 0 group

/-- Groups as the loop takes them apart, with a double colon or without, and how many
separators stand between them. A single colon is one that no colon follows. -/
inductive LooseGroups : Bool → Nat → List UInt8 → Prop where
  | last {group : List UInt8} (hgroup : LooseGroup group) : LooseGroups false 0 group
  | colon {doubled : Bool} {n : Nat} {group rest : List UInt8} (hgroup : LooseGroup group)
      (hnext : rest.head? ≠ some 58) (hrest : LooseGroups doubled n rest) :
      LooseGroups doubled (n + 1) (group ++ 58 :: rest)
  | double {n : Nat} {group rest : List UInt8} (hgroup : LooseGroup group)
      (hrest : LooseGroups false n rest) : LooseGroups true (n + 1) (group ++ 58 :: 58 :: rest)

def LooseAddress6 (text : List UInt8) : Prop :=
  ∃ doubled n, LooseGroups doubled n text ∧ n ≤ 7 ∧ (doubled = false → n = 7)

def HexGroups (text : List UInt8) : Prop :=
  (∃ groups, groups ≠ [] ∧ (∀ group ∈ groups, HexGroup group) ∧ text = separated 58 groups) ∨
  ∃ before after, (∀ group ∈ before ++ after, HexGroup group) ∧
    text = separated 58 before ++ 58 :: 58 :: separated 58 after

def BeginsQuad (text : List UInt8) : Prop :=
  ∃ field rest, Octet field ∧ text = field ++ 46 :: rest

def BeginsGroups (text : List UInt8) : Prop :=
  ∃ group rest, LooseGroup group ∧ text = group ++ 58 :: rest

structure ParsesExactly (text : List UInt8) : Prop where
  quad : ∀ a : IPAddress, (a.fromString4 text).2 = true ↔ ∃ fields, Quad fields text
  stored : ∀ (a : IPAddress) (fields : List (List UInt8)), Quad fields text →
    (a.fromString4 text).1.type = .v4 ∧
      ∀ i < 4, (a.fromString4 text).1.octet i = octetValue fields[i]!
  groups : ∀ a : IPAddress, (a.fromString6 text).2 = true → HexGroups text
  atomic : ∀ a : IPAddress, (a.fromString text).2 = false → (a.fromString text).1 = a

/-- No text of empty octets, none of empty groups or letters behind `f`, and none that begins like
an address and is none. -/
structure Regular (text : List UInt8) : Prop where
  quad : LooseQuad text → ∃ fields, Quad fields text
  groups : LooseAddress6 text → HexGroups text
  whole : BeginsQuad text ∨ BeginsGroups text → LooseQuad text ∨ LooseAddress6 text

theorem decimalDigit_chars : ∀ n < 256, decimalDigit (UInt8.ofNat n) =
    if 48 ≤ UInt8.ofNat n && UInt8.ofNat n ≤ 57 then some (n - 48) else none := by
  decide +kernel

theorem digitValue_chars : ∀ n < 256, digitValue (UInt8.ofNat n) =
    if isalnum (tolower (UInt8.ofNat n)) then
      some ((if tolower (UInt8.ofNat n) ≥ 97 then tolower (UInt8.ofNat n) - 39
        else tolower (UInt8.ofNat n)) - 48).toNat
    else none := by
  decide +kernel

theorem decimalDigit_eq (c : UInt8) :
    decimalDigit c = if 48 ≤ c && c ≤ 57 then some (c.toNat - 48) else none := by
  have h := decimalDigit_chars c.toNat c.toNat_lt
  rw [UInt8.ofNat_toNat] at h
  exact h

theorem digitValue_eq (c : UInt8) : digitValue c = if isalnum (tolower c) then
    some ((if tolower c ≥ 97 then tolower c - 39 else tolower c) - 48).toNat else none := by
  have h := digitValue_chars c.toNat c.toNat_lt
  rw [UInt8.ofNat_toNat] at h
  exact h

theorem tolower_colon (c : UInt8) : tolower c = 58 ↔ c = 58 := by
  have h : ∀ n < 256, tolower (UInt8.ofNat n) = 58 ↔ UInt8.ofNat n = 58 := by decide +kernel
  have hc := h c.toNat c.toNat_lt
  rw [UInt8.ofNat_toNat] at hc
  exact hc

section quad
variable {a : IPAddress} {dots acc : Nat} {rest text : List UInt8}

theorem fromString4Loop_char (c : UInt8) (d : Nat) (hdigit : decimalDigit c = some d)
    (hacc : acc ≤ 255) : fromString4Loop (c :: rest) (UInt16.ofNat acc) dots a =
      if 255 < acc * 10 + d then (a, false)
      else fromString4Loop rest (UInt16.ofNat (acc * 10 + d)) dots a := by
  rw [decimalDigit_eq] at hdigit
  split at hdigit
  · rename_i hc
    have hd := Option.some.inj hdigit
    have hlow : 48 ≤ c.toNat ∧ c.toNat ≤ 57 := by
      simp only [Bool.and_eq_true, decide_eq_true_eq, UInt8.le_iff_toNat_le] at hc
      exact hc
    have hsub : (c - 48).toNat = c.toNat - 48 :=
      UInt8.toNat_sub_of_le c 48 (UInt8.le_iff_toNat_le.mpr hlow.1)
    have hnext : UInt16.ofNat acc * 10 + (c - 48).toUInt16 = UInt16.ofNat (acc * 10 + d) := by
      apply UInt16.toNat_inj.mp
      simp only [UInt16.toNat_add, UInt16.toNat_mul, UInt16.toNat_ofNat', UInt8.toNat_toUInt16,
        hsub, show (10 : UInt16).toNat = 10 from rfl]
      omega
    have hrange : UInt16.ofNat (acc * 10 + d) > 255 ↔ 255 < acc * 10 + d := by
      rw [gt_iff_lt, UInt16.lt_iff_toNat_lt, UInt16.toNat_ofNat',
        show (255 : UInt16).toNat = 255 from rfl]
      omega
    rw [fromString4Loop]
    simp only [hc, if_true, hnext, hrange]
  · exact absurd hdigit (by simp)

theorem fromString4Loop_other {c : UInt8} (hdigit : decimalDigit c = none) (hdot : c ≠ 46)
    (n : UInt16) : fromString4Loop (c :: rest) n dots a = (a, false) := by
  rw [decimalDigit_eq] at hdigit
  split at hdigit
  · exact absurd hdigit (by simp)
  · rename_i hc
    rw [fromString4Loop, if_neg hc, if_neg hdot]

theorem fromString4Loop_dot (n : UInt16) : fromString4Loop (46 :: rest) n dots a =
    if dots = 3 then (a, false)
    else fromString4Loop rest 0 (dots + 1) (a.setOctet dots n.toUInt8) := by
  rw [fromString4Loop, if_neg (by decide), if_pos rfl]

theorem fromString4Loop_field {field : List UInt8} (h : Octet field) (rest : List UInt8) :
    fromString4Loop (field ++ rest) 0 dots a =
      fromString4Loop rest (UInt16.ofNat (value decimalDigit 10 0 field)) dots a := by
  apply Number.read (by decide)
    (fun text acc => fromString4Loop text (UInt16.ofNat acc) dots a) _ h rest
  intro c d acc rest hdigit hfits
  show fromString4Loop _ _ _ _ = _
  rw [fromString4Loop_char c d hdigit (by omega), if_neg (by omega)]

theorem octet_toUInt8 {field : List UInt8} (h : Octet field) :
    (UInt16.ofNat (value decimalDigit 10 0 field)).toUInt8 = octetValue field := by
  have hfits := h.fits
  apply UInt8.toNat_inj.mp
  unfold octetValue
  rw [UInt16.toNat_toUInt8, UInt16.toNat_ofNat', UInt8.toNat_ofNat']
  omega

def storeOctets : Nat → List (List UInt8) → IPAddress → IPAddress
  | _, [], a => a
  | dots, field :: fields, a => storeOctets (dots + 1) fields (a.setOctet dots (octetValue field))

theorem fromString4Loop_fields (fields : List (List UInt8)) (hne : fields ≠ [])
    (hcount : dots + fields.length = 4) (hfields : ∀ field ∈ fields, Octet field) :
    fromString4Loop (separated 46 fields) 0 dots a =
      ((storeOctets dots fields a).setV4, true) := by
  induction fields generalizing dots a with
  | nil => exact absurd rfl hne
  | cons field fields ih =>
    have hfield := hfields field List.mem_cons_self
    rw [List.length_cons] at hcount
    cases fields with
    | nil =>
      have hdots : dots = 3 := by
        rw [List.length_nil] at hcount
        omega
      have hread := @fromString4Loop_field a dots _ hfield []
      rw [List.append_nil] at hread
      show fromString4Loop field 0 dots a = _
      rw [hread, fromString4Loop, if_neg (by rw [hdots]; decide), octet_toUInt8 hfield, hdots]
      rfl
    | cons next fields =>
      have hdots : dots ≠ 3 := by
        rw [List.length_cons] at hcount
        omega
      rw [separated_cons field (List.cons_ne_nil _ _), fromString4Loop_field hfield,
        fromString4Loop_dot, if_neg hdots, octet_toUInt8 hfield,
        ih (List.cons_ne_nil _ _) (by omega)
          (fun f hf => hfields f (List.mem_cons_of_mem field hf))]
      rfl

theorem fields_of_accepted (text : List UInt8)
    (h : (fromString4Loop text 0 dots a).2 = true) (hdots : dots ≤ 3) :
    ∃ fields : List (List UInt8), dots + fields.length = 4 ∧ (∀ field ∈ fields, Octet field) ∧
      text = separated 46 fields := by
  induction hlength : text.length using Nat.strongRecOn generalizing text dots a with
  | ind n ih =>
    rcases splits decimalDigit 10 0 (Nat.zero_le 255) text with hall |
      ⟨field, c, rest, rfl, hfield, hc⟩ | ⟨field, c, d, rest, rfl, hfield, hc, hhigh⟩
    · have hread := @fromString4Loop_field a dots _ hall []
      rw [List.append_nil] at hread
      rw [hread, fromString4Loop] at h
      split at h
      · exact absurd h (by simp)
      · rename_i hthree
        refine ⟨[text], ?_, ?_, rfl⟩
        · rw [List.length_singleton]
          omega
        · intro f hf
          rw [List.mem_singleton.mp hf]
          exact hall
    · rw [fromString4Loop_field hfield] at h
      by_cases hdot : c = 46
      · subst hdot
        rw [fromString4Loop_dot] at h
        split at h
        · exact absurd h (by simp)
        · obtain ⟨fields, hcount, hfields, hrest⟩ := ih rest.length
            (by rw [← hlength, List.length_append, List.length_cons]; omega) rest h (by omega) rfl
          have hne : fields ≠ [] := by
            intro hnil
            rw [hnil, List.length_nil] at hcount
            omega
          refine ⟨field :: fields, by rw [List.length_cons]; omega, ?_, ?_⟩
          · intro f hf
            cases List.mem_cons.mp hf with
            | inl hfirst => exact hfirst ▸ hfield
            | inr hlater => exact hfields f hlater
          · rw [separated_cons field hne, ← hrest]
      · rw [fromString4Loop_other hc hdot] at h
        exact absurd h (by simp)
    · rw [fromString4Loop_field hfield, fromString4Loop_char c d hc hfield.fits, if_pos hhigh] at h
      exact absurd h (by simp)

theorem fromString4_accepts (a : IPAddress) (text : List UInt8) :
    (a.fromString4 text).2 = true ↔ LooseQuad text := by
  constructor
  · intro h
    obtain ⟨fields, hcount, hfields, htext⟩ := fields_of_accepted text h (Nat.zero_le 3)
    exact ⟨fields, by omega, hfields, htext⟩
  · rintro ⟨fields, hcount, hfields, rfl⟩
    have hne : fields ≠ [] := by
      intro hnil
      rw [hnil] at hcount
      exact absurd hcount (by decide)
    unfold IPAddress.fromString4
    rw [fromString4Loop_fields fields hne (by omega) hfields]

theorem fromString4_untouched (a : IPAddress) (text : List UInt8) (h : ¬ BeginsQuad text) :
    (a.fromString4 text) = (a, false) := by
  unfold IPAddress.fromString4
  rcases splits decimalDigit 10 0 (Nat.zero_le 255) text with hall |
    ⟨field, c, rest, rfl, hfield, hc⟩ | ⟨field, c, d, rest, rfl, hfield, hc, hhigh⟩
  · have hread := @fromString4Loop_field a 0 _ hall []
    rw [List.append_nil] at hread
    rw [hread, fromString4Loop, if_pos (by decide)]
  · have hdot : c ≠ 46 := by
      rintro rfl
      exact h ⟨field, rest, hfield, rfl⟩
    rw [fromString4Loop_field hfield, fromString4Loop_other hc hdot]
  · rw [fromString4Loop_field hfield, fromString4Loop_char c d hc hfield.fits, if_pos hhigh]

theorem fromString4Loop_typed (text : List UInt8) (n : UInt16) (dots : Nat) (a : IPAddress)
    (h : a.type ≠ .any) : (fromString4Loop text n dots a).1.type ≠ .any := by
  induction text generalizing n dots a with
  | nil =>
    unfold fromString4Loop
    split
    · exact h
    · exact IpType.noConfusion
  | cons c rest ih =>
    unfold fromString4Loop
    simp only
    split
    · split
      · exact h
      · exact ih _ _ _ h
    · split
      · split
        · exact h
        · exact ih _ _ _ IpType.noConfusion
      · exact h

theorem withOctet_even {i : Nat} (block : UInt16) (b : UInt8) (hi : i % 2 = 0) :
    (IPAddress.withOctet block i b).toUInt8 = b ∧
      (IPAddress.withOctet block i b >>> 8).toUInt8 = (block >>> 8).toUInt8 := by
  have hmask : ∀ j < 8, (65280#16).getLsbD (8 + j) = true := by decide
  unfold IPAddress.withOctet
  rw [if_pos hi]
  constructor
  · apply UInt8.toBitVec_inj.mp
    ext
    simp
  · apply UInt8.toBitVec_inj.mp
    ext j hj
    have hkept := hmask j hj
    simp [hkept]

theorem withOctet_odd {i : Nat} (block : UInt16) (b : UInt8) (hi : i % 2 ≠ 0) :
    (IPAddress.withOctet block i b).toUInt8 = block.toUInt8 ∧
      (IPAddress.withOctet block i b >>> 8).toUInt8 = b := by
  have hlow : ∀ j < 8, (255#8).getLsbD j = true := by decide
  have hhigh : ∀ j < 8, (255#16).getLsbD (8 + j) = false := by decide
  unfold IPAddress.withOctet
  rw [if_neg hi]
  constructor
  · apply UInt8.toBitVec_inj.mp
    ext j hj
    have hkept := hlow j hj
    rw [BitVec.getLsbD_eq_getElem hj] at hkept
    simp [hkept]
  · apply UInt8.toBitVec_inj.mp
    ext j hj
    have hfits : 8 + j < 16 ∧ j < 16 ∧ ¬ 8 + j < 8 := ⟨by omega, by omega, by omega⟩
    have hcleared := hhigh j hj
    rw [BitVec.getLsbD_eq_getElem hfits.1] at hcleared
    simp [hcleared, hfits, BitVec.getLsbD_eq_getElem hj]

theorem octet_setOctet (a : IPAddress) {i j : Nat} (hi : i < 4) (hj : j < 4) (b : UInt8) :
    (a.setOctet i b).octet j = if j = i then b else a.octet j := by
  have hlength := a.blocks
  have hblock : (a.setOctet i b).raw6[j / 2]! =
      if j / 2 = i / 2 then IPAddress.withOctet a.raw6[i / 2]! i b else a.raw6[j / 2]! := by
    show (a.raw6.set (i / 2) _)[j / 2]! = _
    rw [List.getElem!_eq_getElem?_getD, List.getElem?_set]
    split
    · rename_i hsame
      rw [if_pos (by omega), if_pos hsame.symm]
      rfl
    · rename_i hother
      rw [if_neg (fun h => hother h.symm), List.getElem!_eq_getElem?_getD]
  unfold IPAddress.octet
  rw [hblock]
  by_cases hsame : j / 2 = i / 2
  · rw [if_pos hsame]
    by_cases heven : i % 2 = 0
    · obtain ⟨hlow, hhigh⟩ := withOctet_even a.raw6[i / 2]! b heven
      split
      · rw [hlow, if_pos (by omega)]
      · rw [hhigh, if_neg (by omega), hsame]
    · obtain ⟨hlow, hhigh⟩ := withOctet_odd a.raw6[i / 2]! b heven
      split
      · rw [hlow, if_neg (by omega), hsame]
      · rw [hhigh, if_pos (by omega)]
  · rw [if_neg hsame, if_neg (show j ≠ i by rintro rfl; exact hsame rfl)]

theorem octet_storeOctets (fields : List (List UInt8)) (dots : Nat) (a : IPAddress)
    (hroom : dots + fields.length ≤ 4) {i : Nat} (hi : i < 4) :
    (storeOctets dots fields a).octet i =
      if dots ≤ i ∧ i < dots + fields.length then octetValue fields[i - dots]! else a.octet i := by
  induction fields generalizing dots a with
  | nil =>
    rw [List.length_nil, if_neg (by omega)]
    rfl
  | cons field fields ih =>
    rw [List.length_cons] at hroom
    rw [storeOctets, ih _ _ (by omega), List.length_cons]
    by_cases hlater : dots + 1 ≤ i ∧ i < dots + 1 + fields.length
    · have hindex : i - dots = (i - (dots + 1)) + 1 := by omega
      rw [if_pos hlater, if_pos (by omega), hindex]
      rfl
    · rw [if_neg hlater, octet_setOctet a (by omega) hi]
      by_cases hfirst : i = dots
      · rw [if_pos hfirst, if_pos (by omega), hfirst, Nat.sub_self]
        rfl
      · rw [if_neg hfirst, if_neg (by omega)]

theorem fromString4_stored (a : IPAddress) {text : List UInt8} {fields : List (List UInt8)}
    (h : Quad fields text) : (a.fromString4 text).1.type = .v4 ∧
      ∀ i < 4, (a.fromString4 text).1.octet i = octetValue fields[i]! := by
  obtain ⟨hcount, hfields, rfl⟩ := h
  have hne : fields ≠ [] := by
    intro hnil
    rw [hnil] at hcount
    exact absurd hcount (by decide)
  have hrun : a.fromString4 (separated 46 fields) = ((storeOctets 0 fields a).setV4, true) :=
    fromString4Loop_fields fields hne (by omega) (fun field hmem => (hfields field hmem).2)
  rw [hrun]
  refine ⟨rfl, ?_⟩
  intro i hi
  have hoctet := octet_storeOctets fields 0 a (by omega) hi
  rw [if_pos (by omega)] at hoctet
  exact hoctet

end quad

section groups
variable {rest text : List UInt8} {acc : Nat}

theorem parse6_char (s : Parse6) (c : UInt8) (d : Nat) (hdigit : digitValue c = some d)
    (hacc : acc ≤ 0xffff) : parse6 (c :: rest) { s with acc := UInt32.ofNat acc } =
      if 0xffff < acc * 16 + d then (s.ip, false)
      else parse6 rest { s with acc := UInt32.ofNat (acc * 16 + d) } := by
  rw [digitValue_eq] at hdigit
  split at hdigit
  · rename_i halnum
    have hd := Option.some.inj hdigit
    generalize hvalue : (if tolower c ≥ 97 then tolower c - 39 else tolower c) - 48 = digit at hd
    have hdlt := digit.toNat_lt
    have hnext : UInt32.ofNat acc * 16 + digit.toUInt32 = UInt32.ofNat (acc * 16 + d) := by
      apply UInt32.toNat_inj.mp
      simp only [UInt32.toNat_add, UInt32.toNat_mul, UInt32.toNat_ofNat', UInt8.toNat_toUInt32,
        hd, show (16 : UInt32).toNat = 16 from rfl]
      omega
    have hrange : UInt32.ofNat (acc * 16 + d) > 0xffff ↔ 0xffff < acc * 16 + d := by
      rw [gt_iff_lt, UInt32.lt_iff_toNat_lt, UInt32.toNat_ofNat',
        show (0xffff : UInt32).toNat = 0xffff from rfl]
      omega
    rw [parse6.eq_def]
    simp only [halnum, if_true, hvalue, hnext, hrange]
  · exact absurd hdigit (by simp)

theorem parse6_other (s : Parse6) {c : UInt8} (hdigit : digitValue c = none) (hcolon : c ≠ 58) :
    parse6 (c :: rest) s = (s.ip, false) := by
  have hlower : tolower c ≠ 58 := fun h => hcolon ((tolower_colon c).mp h)
  rw [digitValue_eq] at hdigit
  split at hdigit
  · exact absurd hdigit (by simp)
  · rename_i halnum
    rw [parse6.eq_def]
    simp only [halnum, hlower, if_false, Bool.false_eq_true]

def Parse6.read (s : Parse6) (group : List UInt8) : Parse6 :=
  { s with acc := UInt32.ofNat (value digitValue 16 0 group) }

theorem parse6_group (s : Parse6) (hacc : s.acc = 0) {group : List UInt8}
    (h : LooseGroup group) (rest : List UInt8) :
    parse6 (group ++ rest) s = parse6 rest (s.read group) := by
  have hstart : { s with acc := UInt32.ofNat 0 } = s := by
    rw [← show s.acc = UInt32.ofNat 0 from hacc]
  have hread := Number.read (show 0 < 16 by decide)
    (fun text acc => parse6 text { s with acc := UInt32.ofNat acc })
    (fun c d acc rest hdigit hfits => by
      show parse6 _ _ = _
      rw [parse6_char s c d hdigit (by omega), if_neg (by omega)]) h rest
  simp only [hstart] at hread
  exact hread

theorem parse6_read (s : Parse6) {group : List UInt8} {c : UInt8} {d : Nat}
    (hdigit : digitValue c = some d) (hgroup : LooseGroup group) :
    parse6 (c :: rest) (s.read group) =
      if 0xffff < value digitValue 16 0 group * 16 + d then (s.ip, false)
      else parse6 rest
        { s with acc := UInt32.ofNat (value digitValue 16 0 group * 16 + d) } :=
  parse6_char s c d hdigit hgroup.fits

theorem parse6_colon_refused (s : Parse6)
    (h : s.dots = 7 ∨ s.doubledots.isSome ∧ rest.head? = some 58) :
    parse6 (58 :: rest) s = (s.ip, false) := by
  have hcolon : tolower 58 = 58 ∧ isalnum 58 = false := by decide
  rw [parse6.eq_def]
  simp only [hcolon, if_false, if_true, Bool.false_eq_true]
  cases rest with
  | nil =>
    have hdots : s.dots = 7 := by simpa using h
    simp only [hdots, if_true]
  | cons next rest =>
    simp only
    split
    · split
      · rfl
      · rename_i hfirst
        have hdots : s.dots = 7 := by simpa [hfirst] using h
        simp only [hdots, if_true]
    · rename_i hother
      have hdots : s.dots = 7 := by simpa [hother] using h
      simp only [hdots, if_true]

theorem finish_accepts (s : Parse6) :
    s.finish.2 = true ↔ (s.doubledots = none → s.dots = 7) := by
  unfold Parse6.finish
  by_cases hfew : s.doubledots = none ∧ s.dots ≠ 7
  · simp [hfew.1, hfew.2]
  · cases hdouble : s.doubledots with
    | none =>
      have hdots : s.dots = 7 := by
        apply Decidable.byContradiction
        exact fun hother => hfew ⟨hdouble, hother⟩
      have hstored : s.store.doubledots = none := hdouble
      simp [hdots, hstored]
    | some doubledots =>
      have hstored : s.store.doubledots = some doubledots := hdouble
      simp [hstored]

structure Completes (s : Parse6) (doubled : Bool) (n : Nat) : Prop where
  room : s.dots + n ≤ 7
  enough : s.doubledots = none → doubled = false → s.dots + n = 7
  once : doubled = true → s.doubledots = none

theorem parse6_of_groups {doubled : Bool} {n : Nat} (h : LooseGroups doubled n text)
    (s : Parse6) (hacc : s.acc = 0) (hs : Completes s doubled n) : (parse6 text s).2 = true := by
  induction h generalizing s with
  | @last group hgroup =>
    have hread := parse6_group s hacc hgroup []
    rw [List.append_nil] at hread
    rw [hread, parse6, finish_accepts]
    exact fun hdouble => hs.enough hdouble rfl
  | @colon doubled n group rest hgroup hnext hrest ih =>
    have hroom := hs.room
    rw [parse6_group s hacc hgroup, parse6_colon (s.read group) _ hnext (show s.dots ≠ 7 by omega)]
    apply ih _ rfl
    refine ⟨?_, ?_, hs.once⟩
    · show s.dots + 1 + n ≤ 7
      omega
    · intro hdouble hplain
      have henough := hs.enough hdouble hplain
      show s.dots + 1 + n = 7
      omega
  | @double n group rest hgroup hrest ih =>
    have hroom := hs.room
    rw [parse6_group s hacc hgroup,
      parse6_doubleColon (s.read group) _ (hs.once rfl) (show s.dots ≠ 7 by omega)]
    apply ih _ rfl
    refine ⟨?_, fun hdouble => absurd hdouble (by simp), fun hagain => absurd hagain (by simp)⟩
    show s.dots + 1 + n ≤ 7
    omega

theorem groups_of_parse6 (text : List UInt8) (s : Parse6) (hacc : s.acc = 0) (hdots : s.dots ≤ 7)
    (h : (parse6 text s).2 = true) :
    ∃ doubled n, LooseGroups doubled n text ∧ Completes s doubled n := by
  induction hlength : text.length using Nat.strongRecOn generalizing text s with
  | ind length ih =>
    rcases splits digitValue 16 0 (Nat.zero_le 0xffff) text with hall |
      ⟨group, c, rest, rfl, hgroup, hc⟩ | ⟨group, c, d, rest, rfl, hgroup, hc, hhigh⟩
    · have hread := parse6_group s hacc hall []
      rw [List.append_nil] at hread
      rw [hread, parse6, finish_accepts] at h
      exact ⟨false, 0, .last hall, hdots, fun hdouble _ => h hdouble,
        fun hagain => absurd hagain (by simp)⟩
    · rw [parse6_group s hacc hgroup] at h
      by_cases hcolon : c = 58
      · subst hcolon
        have hroom : s.dots ≠ 7 := by
          intro hseven
          rw [parse6_colon_refused (s.read group) (.inl hseven)] at h
          exact absurd h (by simp)
        by_cases hnext : rest.head? = some 58
        · -- a double colon
          obtain ⟨rest', rfl⟩ : ∃ rest', rest = 58 :: rest' := by
            cases rest with
            | nil => exact absurd hnext (by simp)
            | cons next rest => exact ⟨rest, by rw [Option.some.inj hnext]⟩
          have hfirst : s.doubledots = none := by
            cases hdouble : s.doubledots with
            | none => rfl
            | some _ =>
              have hagain : s.doubledots.isSome := Option.isSome_iff_exists.mpr ⟨_, hdouble⟩
              rw [parse6_colon_refused (s.read group) (.inr ⟨hagain, hnext⟩)] at h
              exact absurd h (by simp)
          rw [parse6_doubleColon (s.read group) _ hfirst hroom] at h
          obtain ⟨doubled, n, hrest, hs⟩ := ih rest'.length
            (by simp only [← hlength, List.length_append, List.length_cons]; omega) rest' _ rfl
            (show s.dots + 1 ≤ 7 by omega) h rfl
          have hplain : doubled = false := by
            cases doubled with
            | false => rfl
            | true => exact absurd (hs.once rfl) (by simp)
          subst hplain
          have hfits : s.dots + 1 + n ≤ 7 := hs.room
          exact ⟨true, n + 1, .double hgroup hrest, by omega, fun _ hno => absurd hno (by simp),
            fun _ => hfirst⟩
        · rw [parse6_colon (s.read group) _ hnext hroom] at h
          obtain ⟨doubled, n, hrest, hs⟩ := ih rest.length
            (by simp only [← hlength, List.length_append, List.length_cons]; omega) rest _ rfl
            (show s.dots + 1 ≤ 7 by omega) h rfl
          have hfits : s.dots + 1 + n ≤ 7 := hs.room
          refine ⟨doubled, n + 1, .colon hgroup hnext hrest, by omega, ?_, hs.once⟩
          intro hdouble hplain
          have henough : s.dots + 1 + n = 7 := hs.enough hdouble hplain
          omega
      · rw [parse6_other _ hc hcolon] at h
        exact absurd h (by simp)
    · rw [parse6_group s hacc hgroup, parse6_read s hc hgroup, if_pos hhigh] at h
      exact absurd h (by simp)

theorem fromString6_accepts (a : IPAddress) (text : List UInt8) :
    (a.fromString6 text).2 = true ↔ LooseAddress6 text := by
  constructor
  · intro h
    obtain ⟨doubled, n, hgroups, hs⟩ := groups_of_parse6 text _ rfl (Nat.zero_le 7) h
    refine ⟨doubled, n, hgroups, ?_, ?_⟩
    · simpa using hs.room
    · intro hplain
      simpa using hs.enough rfl hplain
  · rintro ⟨doubled, n, hgroups, hroom, hseven⟩
    apply parse6_of_groups hgroups _ rfl
    exact ⟨by simpa using hroom, fun _ hplain => by simpa using hseven hplain, fun _ => rfl⟩

theorem fromString6_untouched (a : IPAddress) (text : List UInt8) (h : ¬ BeginsGroups text) :
    a.fromString6 text = (a, false) := by
  unfold IPAddress.fromString6
  rcases splits digitValue 16 0 (Nat.zero_le 0xffff) text with hall |
    ⟨group, c, rest, rfl, hgroup, hc⟩ | ⟨group, c, d, rest, rfl, hgroup, hc, hhigh⟩
  · have hread := parse6_group ⟨a, 0, 0, none⟩ rfl hall []
    rw [List.append_nil] at hread
    rw [hread, parse6]
    rfl
  · have hcolon : c ≠ 58 := by
      rintro rfl
      exact h ⟨group, rest, hgroup, rfl⟩
    rw [parse6_group _ rfl hgroup, parse6_other _ hc hcolon]
    rfl
  · rw [parse6_group _ rfl hgroup, parse6_read _ hc hgroup, if_pos hhigh]

theorem finish_typed (s : Parse6) (h : s.ip.type ≠ .any) : s.finish.1.type ≠ .any := by
  unfold Parse6.finish
  split
  · exact h
  · simp only
    split <;> exact IpType.noConfusion

theorem parse6_typed (text : List UInt8) (s : Parse6) (h : s.ip.type ≠ .any) :
    (parse6 text s).1.type ≠ .any := by
  fun_induction parse6 text s with
  | case1 s => exact finish_typed s h
  | case3 s char rest c hc c' acc hfits ih => exact ih h
  | case5 s char c hc hcolon hdots ih => exact ih IpType.noConfusion
  | case8 s char c hc hcolon rest hfirst doubledots hdots ih => exact ih IpType.noConfusion
  | case10 s char c hc hcolon next rest hnext hdots ih => exact ih IpType.noConfusion
  | _ => exact h

end groups

theorem fromString_changes (text : List UInt8) (h : BeginsQuad text ∨ BeginsGroups text) :
    (IPAddress.new.fromString text).1 ≠ IPAddress.new := by
  have htyped : (IPAddress.new.fromString text).1.type ≠ .any := by
    have hquad : BeginsQuad text → (IPAddress.new.fromString4 text).1.type ≠ .any := by
      rintro ⟨field, rest, hfield, rfl⟩
      unfold IPAddress.fromString4
      rw [fromString4Loop_field hfield, fromString4Loop_dot, if_neg (by decide)]
      exact fromString4Loop_typed _ _ _ _ IpType.noConfusion
    have hgroups : ∀ a : IPAddress, BeginsGroups text → (a.fromString6 text).1.type ≠ .any := by
      rintro a ⟨group, rest, hgroup, rfl⟩
      unfold IPAddress.fromString6
      rw [parse6_group _ rfl hgroup]
      by_cases hnext : rest.head? = some 58
      · obtain ⟨rest', rfl⟩ : ∃ rest', rest = 58 :: rest' := by
          cases rest with
          | nil => exact absurd hnext (by simp)
          | cons next rest => exact ⟨rest, by rw [Option.some.inj hnext]⟩
        rw [parse6_doubleColon (Parse6.read ⟨a, 0, 0, none⟩ group) _ rfl (show 0 ≠ 7 by decide)]
        exact parse6_typed _ _ IpType.noConfusion
      · rw [parse6_colon (Parse6.read ⟨a, 0, 0, none⟩ group) _ hnext (show 0 ≠ 7 by decide)]
        exact parse6_typed _ _ IpType.noConfusion
    unfold IPAddress.fromString
    simp only
    by_cases hbegins : BeginsQuad text
    · split
      · exact parse6_typed text _ (hquad hbegins)
      · exact hquad hbegins
    · rw [fromString4_untouched _ _ hbegins]
      exact hgroups _ (h.resolve_left hbegins)
  intro hsame
  rw [hsame] at htyped
  exact htyped rfl

/-- The parsers accept exactly their formats, and leave the object alone when they refuse, where
the text has no empty octets, no empty groups or letters behind `f`, and does not begin like an
address without being one. -/
theorem parsesExactly_iff (text : List UInt8) : ParsesExactly text ↔ Regular text := by
  constructor
  · intro h
    refine ⟨?_, ?_, ?_⟩
    · intro hloose
      exact (h.quad .new).mp ((fromString4_accepts .new text).mpr hloose)
    · intro hloose
      exact h.groups .new ((fromString6_accepts .new text).mpr hloose)
    · intro hbegins
      apply Classical.byContradiction
      intro hneither
      rw [not_or] at hneither
      have hrefused : (IPAddress.new.fromString text).2 = false := by
        have hquad : (IPAddress.new.fromString4 text).2 = false :=
          Bool.eq_false_iff.mpr fun h => hneither.1 ((fromString4_accepts _ _).mp h)
        unfold IPAddress.fromString
        simp only [hquad, Bool.not_false, if_true]
        exact Bool.eq_false_iff.mpr fun h => hneither.2 ((fromString6_accepts _ _).mp h)
      exact fromString_changes text hbegins (h.atomic .new hrefused)
  · intro h
    refine ⟨?_, fun a fields hquad => fromString4_stored a hquad, ?_, ?_⟩
    · intro a
      rw [fromString4_accepts]
      constructor
      · exact h.quad
      · rintro ⟨fields, hcount, hfields, htext⟩
        exact ⟨fields, hcount, fun field hmem => (hfields field hmem).2, htext⟩
    · intro a haccept
      exact h.groups ((fromString6_accepts a text).mp haccept)
    · intro a hrefused
      have hneither : ¬ (LooseQuad text ∨ LooseAddress6 text) := by
        rintro (hquad | hgroups)
        · have haccept := (fromString4_accepts a text).mpr hquad
          unfold IPAddress.fromString at hrefused
          simp only [haccept, Bool.not_true, Bool.false_eq_true, if_false] at hrefused
          exact absurd hrefused (by simp)
        · unfold IPAddress.fromString at hrefused
          simp only at hrefused
          split at hrefused
          · rw [(fromString6_accepts _ text).mpr hgroups] at hrefused
            exact absurd hrefused (by simp)
          · rename_i haccept
            rw [hrefused] at haccept
            exact haccept rfl
      have hbegins : ¬ (BeginsQuad text ∨ BeginsGroups text) := fun hb => hneither (h.whole hb)
      rw [not_or] at hbegins
      unfold IPAddress.fromString
      rw [fromString4_untouched a text hbegins.1]
      show (a.fromString6 text).1 = a
      rw [fromString6_untouched a text hbegins.2]

theorem dots_accepted : ¬ ParsesExactly [46, 46, 46] ∧ ¬ ParsesExactly [49, 46, 120] := by
  constructor
  · intro h
    obtain ⟨fields, hcount, hfields, htext⟩ := (h.quad .new).mp (by decide)
    have hlength := separated_length 46 fields fun f hf => (hfields f hf).1
    rw [← htext, hcount] at hlength
    exact absurd hlength (by decide)
  · intro h
    have hsame := congrArg IPAddress.type (h.atomic .new (by decide))
    exact absurd hsame (by decide)

end Esp8266.Net
