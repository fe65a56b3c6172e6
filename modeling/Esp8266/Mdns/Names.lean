import Esp8266.Library.Ctype
import Esp8266.Library.Numeral

/-! The names of resource records and how they are compared. -/
namespace Esp8266.Mdns
open Esp8266.Ctype

structure RRDomain where
  labels : List (List UInt8)
  nameLength : Nat
  deriving DecidableEq

def RRDomain.clear : RRDomain := ⟨[], 0⟩

/-- `0 == strncasecmp(pT, pO, n)` for two labels of `n` bytes -/
def sameLabel : List UInt8 → List UInt8 → Bool
  | c :: pT, d :: pO =>
    if tolower c ≠ tolower d then false
    else if c = 0 then true
    else sameLabel pT pO
  | _, _ => true

/-- The loop of `stcMDNS_RRDomain::compare`. -/
def compareLabels : List (List UInt8) → List (List UInt8) → Bool
  | [], [] => true
  | pT :: labels, pO :: others =>
    pT.length = pO.length && sameLabel pT pO && compareLabels labels others
  | _, _ => false

def RRDomain.compare (domain other : RRDomain) : Bool :=
  domain.nameLength = other.nameLength && compareLabels domain.labels other.labels

def labelText : List UInt8 → List UInt8
  | [] => []
  | c :: label => if c = 0 then [] else tolower c :: labelText label

def labelKey (label : List UInt8) : Nat × List UInt8 := (label.length, labelText label)

def RRDomain.key (domain : RRDomain) : Nat × List (Nat × List UInt8) :=
  (domain.nameLength, domain.labels.map labelKey)

theorem sameLabel_iff {label other : List UInt8} (h : label.length = other.length) :
    sameLabel label other = true ↔ labelText label = labelText other := by
  induction label generalizing other with
  | nil =>
    rw [List.eq_nil_of_length_eq_zero h.symm]
    exact iff_of_true rfl rfl
  | cons c label ih =>
    match other, h with
    | d :: other, h =>
      rw [sameLabel, labelText, labelText]
      by_cases hc : c = 0
      · rw [if_pos hc, if_pos hc]
        by_cases hd : d = 0
        · rw [if_pos hd, hc, hd, if_neg (Classical.not_not.mpr rfl)]
          exact iff_of_true rfl rfl
        · rw [if_neg hd, if_pos fun h => hd (tolower_eq_zero.mp (h.symm.trans (congrArg tolower hc)))]
          exact iff_of_false Bool.noConfusion fun h => nomatch h
      · rw [if_neg hc, if_neg hc]
        by_cases hd : d = 0
        · rw [if_pos hd, if_pos fun h => hc (tolower_eq_zero.mp (h.trans (congrArg tolower hd)))]
          exact iff_of_false Bool.noConfusion fun h => nomatch h
        · rw [if_neg hd, List.cons.injEq]
          by_cases hsame : tolower c = tolower d
          · rw [if_neg (Classical.not_not.mpr hsame), ih (Nat.succ.inj h)]
            exact (and_iff_right hsame).symm
          · rw [if_pos hsame]
            exact iff_of_false Bool.noConfusion fun h => hsame h.1

theorem compareLabels_iff {labels others : List (List UInt8)} :
    compareLabels labels others = true ↔ labels.map labelKey = others.map labelKey := by
  induction labels generalizing others with
  | nil =>
    cases others with
    | nil => exact iff_of_true rfl rfl
    | cons other others => exact iff_of_false Bool.noConfusion fun h => nomatch h
  | cons label labels ih =>
    cases others with
    | nil => exact iff_of_false Bool.noConfusion fun h => nomatch h
    | cons other others =>
      rw [compareLabels, Bool.and_eq_true, Bool.and_eq_true, decide_eq_true_iff, ih, List.map_cons,
        List.map_cons, List.cons.injEq]
      refine and_congr_left fun _ => ?_
      unfold labelKey
      rw [Prod.mk.injEq]
      exact and_congr_right sameLabel_iff

theorem compare_iff {domain other : RRDomain} :
    domain.compare other = true ↔ domain.key = other.key := by
  unfold RRDomain.compare RRDomain.key
  rw [Bool.and_eq_true, decide_eq_true_iff, compareLabels_iff, Prod.mk.injEq]

end Esp8266.Mdns

/-! The names that the responder builds: a host, a service, all services, and an address. A name
is what is in `m_acName` up to `m_u16NameLength`. -/
namespace Esp8266.Mdns
open Esp8266.Numeral

def domainMaxLength : Nat := 256

def domainLabelMaxLength : Nat := 63

def underline : UInt8 := 95

/-- What `addLabel` adds behind the length byte: nothing without a label. -/
def labelBytes (label : Option (List UInt8)) (prependUnderline : Bool) : List UInt8 :=
  match label with
  | none => []
  | some label => if prependUnderline = true then underline :: label else label

def encodeLabel (label : List UInt8) : List UInt8 := UInt8.ofNat label.length :: label

def addLabel (name : List UInt8) (label : Option (List UInt8)) (prependUnderline : Bool) :
    Option (List UInt8) :=
  if domainLabelMaxLength ≥ (labelBytes label prependUnderline).length ∧
      domainMaxLength ≥ name.length + (1 + (labelBytes label prependUnderline).length) then
    some (name ++ encodeLabel (labelBytes label prependUnderline))
  else none

def buildDomain (labels : List (Option (List UInt8) × Bool)) : Option (List UInt8) :=
  labels.foldlM (fun name label => addLabel name label.1 label.2) []

def scpcLocal : List UInt8 := [108, 111, 99, 97, 108]

def scpcServices : List UInt8 := [115, 101, 114, 118, 105, 99, 101, 115]

def scpcDNSSD : List UInt8 := [100, 110, 115, 45, 115, 100]

def scpcUDP : List UInt8 := [117, 100, 112]

def scpcReverseIP4Domain : List UInt8 := [105, 110, 45, 97, 100, 100, 114]

def scpcReverseTopDomain : List UInt8 := [97, 114, 112, 97]

def buildDomainForHost (hostname : Option (List UInt8)) : Option (List UInt8) :=
  match hostname with
  | none | some [] => none
  | some hostname => buildDomain [(some hostname, false), (some scpcLocal, false), (none, false)]

def buildDomainForDNSSD : Option (List UInt8) :=
  buildDomain [(some scpcServices, true), (some scpcDNSSD, true), (some scpcUDP, true),
    (some scpcLocal, false), (none, false)]

def octets (address : Nat) : List Nat :=
  [address % 256, address / 256 % 256, address / 65536 % 256, address / 16777216 % 256]

def buildDomainForReverseIP4 (address : Nat) : Option (List UInt8) :=
  buildDomain ((octets address).reverse.map (fun octet => (some (numeral 10 octet), false)) ++
    [(some scpcReverseIP4Domain, false), (some scpcReverseTopDomain, false), (none, false)])

def labelsOf : Nat → List UInt8 → List (List UInt8)
  | 0, _ | _, [] => []
  | fuel + 1, length :: rest =>
    if length = 0 then []
    else rest.take length.toNat :: labelsOf fuel (rest.drop length.toNat)

def RRDomain.ofName (name : List UInt8) : RRDomain := ⟨labelsOf name.length name, name.length⟩

/-- `operator==` with a domain that is built for it. -/
def RRDomain.named (domain : RRDomain) (name : Option (List UInt8)) : Bool :=
  name.any fun name => domain.compare (.ofName name)

section
variable {name : List UInt8} {labels : List (List UInt8)}

theorem compare_self (domain : RRDomain) : domain.compare domain = true := compare_iff.mpr rfl

theorem compare_comm (domain other : RRDomain) : domain.compare other = other.compare domain := by
  rw [Bool.eq_iff_iff, compare_iff, compare_iff]
  exact eq_comm

@[simp] theorem named_none (domain : RRDomain) : domain.named none = false := rfl

@[simp] theorem named_some (domain : RRDomain) (name : List UInt8) :
    domain.named (some name) = domain.compare (.ofName name) := rfl

theorem named_ofName (name : List UInt8) : (RRDomain.ofName name).named (some name) = true :=
  compare_self _

def texts (labels : List (Option (List UInt8) × Bool)) : List (List UInt8) :=
  labels.map fun label => labelBytes label.1 label.2

def encodeLabels (labels : List (List UInt8)) : List UInt8 := labels.flatMap encodeLabel

theorem length_encodeLabels_cons (label : List UInt8) (labels : List (List UInt8)) :
    (encodeLabels (label :: labels)).length = 1 + label.length + (encodeLabels labels).length := by
  simp [encodeLabels, encodeLabel]
  omega

theorem foldlM_addLabel {labels : List (Option (List UInt8) × Bool)} {first : List UInt8}
    (h : labels.foldlM (fun name label => addLabel name label.1 label.2) first = some name) :
    name = first ++ encodeLabels (texts labels) ∧
      ∀ text ∈ texts labels, text.length ≤ domainLabelMaxLength := by
  induction labels generalizing first with
  | nil =>
    cases h
    simp [texts, encodeLabels]
  | cons label labels ih =>
    rw [List.foldlM_cons] at h
    obtain ⟨next, hnext, h⟩ := Option.bind_eq_some_iff.mp h
    unfold addLabel at hnext
    split at hnext
    · rename_i hfits
      cases hnext
      obtain ⟨hname, hlengths⟩ := ih h
      refine ⟨?_, ?_⟩
      · rw [hname]
        simp [texts, encodeLabels]
      · intro text htext
        rcases List.mem_cons.mp htext with rfl | htext
        · exact hfits.1
        · exact hlengths text htext
    · cases hnext

theorem buildDomain_some {labels : List (Option (List UInt8) × Bool)}
    (h : buildDomain labels = some name) : name = encodeLabels (texts labels) ∧
      ∀ text ∈ texts labels, text.length ≤ domainLabelMaxLength := by
  have hname := foldlM_addLabel h
  rw [List.nil_append] at hname
  exact hname

theorem lengthByte_toNat {label : List UInt8} (h : label.length ≤ domainLabelMaxLength) :
    (UInt8.ofNat label.length).toNat = label.length := by
  rw [UInt8.toNat_ofNat']
  exact Nat.mod_eq_of_lt (Nat.lt_of_le_of_lt h (by decide))

theorem lengthByte_ne_zero {label : List UInt8} (hfull : label ≠ [])
    (h : label.length ≤ domainLabelMaxLength) : UInt8.ofNat label.length ≠ 0 := by
  intro hzero
  have hlength := congrArg UInt8.toNat hzero
  rw [lengthByte_toNat h] at hlength
  exact hfull (List.eq_nil_of_length_eq_zero hlength)

theorem labelsOf_encodeLabels (labels : List (List UInt8))
    (hlengths : ∀ label ∈ labels, label.length ≤ domainLabelMaxLength) {fuel : Nat}
    (hfuel : (encodeLabels labels).length ≤ fuel) :
    labelsOf fuel (encodeLabels labels) = labels.takeWhile (· ≠ []) := by
  induction labels generalizing fuel with
  | nil => cases fuel <;> rfl
  | cons label labels ih =>
    have hlabel := hlengths label List.mem_cons_self
    rw [length_encodeLabels_cons] at hfuel
    cases fuel with
    | zero => omega
    | succ fuel =>
      have hcons : encodeLabels (label :: labels) =
          UInt8.ofNat label.length :: (label ++ encodeLabels labels) := rfl
      rw [hcons, labelsOf, List.takeWhile_cons]
      by_cases hempty : label = []
      · rw [hempty]
        rfl
      · rw [if_neg (lengthByte_ne_zero hempty hlabel), lengthByte_toNat hlabel, List.take_left, List.drop_left,
          ih (fun label h => hlengths label (List.mem_cons_of_mem _ h)) (by omega),
          if_pos (decide_eq_true hempty)]

theorem ofName_labels {labels : List (Option (List UInt8) × Bool)}
    (h : buildDomain labels = some name) :
    (RRDomain.ofName name).labels = (texts labels).takeWhile (· ≠ []) := by
  obtain ⟨hname, hlengths⟩ := buildDomain_some h
  rw [hname]
  exact labelsOf_encodeLabels _ hlengths (Nat.le_refl _)

theorem compare_length {domain other : RRDomain} (h : domain.compare other = true) :
    domain.labels.length = other.labels.length := by
  have hkey := congrArg (fun key => key.2.length) (compare_iff.mp h)
  simpa [RRDomain.key] using hkey

end

end Esp8266.Mdns
