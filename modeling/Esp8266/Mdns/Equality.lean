import Mathlib.Data.List.Nodup
import Mathlib.Algebra.BigOperators.Group.List.Basic
import Esp8266.Mdns.Answers
import Esp8266.Mdns.ReadDomain

/-! When TXT items and domains are equal: the items as sets, and a domain byte by byte in
`m_acName`. -/
namespace Esp8266.Mdns
open Esp8266.Ctype

def SameTxts (txts others : List Txt) : Prop := ∀ txt, txt ∈ txts ↔ txt ∈ others

theorem txtsInclude_iff {txts others : List Txt} (hkeys : (others.map Txt.key).Nodup) :
    txtsInclude txts others = true ↔ ∀ txt ∈ txts, txt ∈ others ∧ txt.value.isSome = true := by
  unfold txtsInclude
  rw [List.all_eq_true]
  refine forall_congr' fun txt => forall_congr' fun _ => ?_
  cases hfind : others.find? fun other => other.key = txt.key with
  | none =>
    simp only [Bool.false_eq_true, false_iff, not_and]
    intro hmem
    exact absurd (decide_eq_true rfl) (List.find?_eq_none.mp hfind txt hmem)
  | some other =>
    have hmem := List.mem_of_find?_eq_some hfind
    have hkey : other.key = txt.key := by simpa using List.find?_some hfind
    simp only [Bool.and_eq_true, decide_eq_true_iff]
    constructor
    · rintro ⟨hvalue, hsame⟩
      have heq : other = txt := by
        cases other
        cases txt
        simp_all
      exact ⟨heq ▸ hmem, hvalue⟩
    · rintro ⟨htxt, hvalue⟩
      exact ⟨hvalue, congrArg Txt.value (List.inj_on_of_nodup_map hkeys hmem htxt hkey)⟩

theorem txtsLength_congr {txts others : List Txt} (hkeys : (txts.map Txt.key).Nodup)
    (hothers : (others.map Txt.key).Nodup) (h : SameTxts txts others) :
    txtsLength txts = txtsLength others := by
  have hperm : txts.Perm others :=
    (List.perm_ext_iff_of_nodup (List.Nodup.of_map _ hkeys)
      (List.Nodup.of_map _ hothers)).mpr h
  unfold txtsLength
  rw [(hperm.map _).sum_eq]

theorem compareTxts_iff {txts others : List Txt} (hkeys : (txts.map Txt.key).Nodup)
    (hothers : (others.map Txt.key).Nodup) :
    compareTxts txts others = true ↔
      SameTxts txts others ∧ ∀ txt ∈ txts, txt.value.isSome = true := by
  unfold compareTxts
  rw [Bool.and_eq_true, Bool.and_eq_true, decide_eq_true_iff, txtsInclude_iff hothers,
    txtsInclude_iff hkeys]
  constructor
  · rintro ⟨⟨-, hforth⟩, hback⟩
    exact ⟨fun txt => ⟨fun h => (hforth txt h).1, fun h => (hback txt h).1⟩,
      fun txt h => (hforth txt h).2⟩
  · rintro ⟨hsame, hvalues⟩
    exact ⟨⟨txtsLength_congr hkeys hothers hsame,
      fun txt h => ⟨(hsame txt).mp h, hvalues txt h⟩⟩,
      fun txt h => ⟨(hsame txt).mpr h, hvalues txt ((hsame txt).mpr h)⟩⟩

/-- `stcMDNS_RRDomain` as it is in memory. -/
structure EncodedDomain where
  acName : NameBuffer
  nameLength : Nat

theorem emptyName_length : (List.replicate domainMaxLength (0 : UInt8)).length = domainMaxLength :=
  List.length_replicate

def EncodedDomain.clear : EncodedDomain :=
  ⟨⟨List.replicate domainMaxLength 0, emptyName_length⟩, 0⟩

/-- `stcMDNS_RRDomain::addLabel`, or nothing where it writes outside of `m_acName` -/
def EncodedDomain.addLabel (domain : EncodedDomain) (label : Option (List UInt8))
    (prependUnderline : Bool) : Option (Bool × EncodedDomain) :=
  let text := labelBytes label prependUnderline
  if domainLabelMaxLength ≥ text.length ∧
      domainMaxLength ≥ domain.nameLength + (1 + text.length) then
    match domain.acName.write domain.nameLength [UInt8.ofNat text.length] with
    | none => none
    | some acName =>
      if text = [] then some (true, ⟨acName, domain.nameLength + 1⟩)
      else
        match acName.write (domain.nameLength + 1) (text ++ [0]) with
        | none => none
        | some acName => some (true, ⟨acName, domain.nameLength + 1 + text.length⟩)
  else some (false, domain)

/-- `0 == strncasecmp(pT, pO, n)`, or nothing where a byte behind the last one is read -/
def strncasecmp : List UInt8 → List UInt8 → Nat → Option Bool
  | _, _, 0 => some true
  | c :: pT, d :: pO, n + 1 =>
    if tolower c ≠ tolower d then some false
    else if c = 0 then some true
    else strncasecmp pT pO n
  | _, _, _ => none

/-- The loop of `stcMDNS_RRDomain::compare`, with what is behind `pT` and `pO` -/
def compareLoop : List UInt8 → List UInt8 → Option Bool
  | length :: pT, length' :: pO =>
    if length ≠ length' then some false
    else
      match strncasecmp pT pO length.toNat with
      | none => none
      | some false => some false
      | some true =>
        if length ≠ 0 then compareLoop (pT.drop length.toNat) (pO.drop length'.toNat)
        else some true
  | _, _ => none
termination_by pT => pT.length
decreasing_by
  rw [List.length_drop, List.length_cons]
  omega

def EncodedDomain.compare (domain other : EncodedDomain) : Option Bool :=
  if domain.nameLength = other.nameLength then
    compareLoop domain.acName.bytes other.acName.bytes
  else some false

inductive Produced : EncodedDomain → List (List UInt8) → Prop
  | clear : Produced .clear []
  | added {domain domain' : EncodedDomain} {labels : List (List UInt8)}
      {label : Option (List UInt8)} {prependUnderline : Bool} (before : Produced domain labels)
      (h : domain.addLabel label prependUnderline = some (true, domain')) :
      Produced domain' (labels ++ [labelBytes label prependUnderline])
  | read {datagram : List UInt8} {s t : DomainReader}
      (h : s.readRRDomain datagram = some (true, t)) :
      Produced ⟨t.acName, t.nameLength⟩ (labelsOf t.nameLength t.name ++ [[]])

def SameLabels (labels others : List (List UInt8)) : Prop :=
  labels.map (List.map tolower) = others.map (List.map tolower)

structure EncodedDomain.Holds (domain : EncodedDomain) (labels : List (List UInt8)) : Prop where
  count : domain.nameLength = (encodeLabels labels).length
  bytes : domain.acName.bytes.take domain.nameLength = encodeLabels labels
  lengths : ∀ label ∈ labels, label.length ≤ domainLabelMaxLength
  closed : [] ∈ labels ∨ domain.acName.bytes[domain.nameLength]? = some 0

theorem encodeLabels_append (labels others : List (List UInt8)) :
    encodeLabels (labels ++ others) = encodeLabels labels ++ encodeLabels others :=
  List.flatMap_append

section Add
variable {domain domain' : EncodedDomain} {labels : List (List UInt8)}
  {label : Option (List UInt8)} {prependUnderline : Bool}

theorem encodedAddLabel_spec (domain : EncodedDomain) (label : Option (List UInt8))
    (prependUnderline : Bool) :
    (domain.addLabel label prependUnderline = none ↔
      labelBytes label prependUnderline ≠ [] ∧
      (labelBytes label prependUnderline).length ≤ domainLabelMaxLength ∧
      domain.nameLength + 1 + (labelBytes label prependUnderline).length = domainMaxLength) ∧
    ∀ domain', domain.addLabel label prependUnderline = some (true, domain') →
      (labelBytes label prependUnderline).length ≤ domainLabelMaxLength ∧
      domain'.nameLength = domain.nameLength + 1 + (labelBytes label prependUnderline).length ∧
      domain'.acName.bytes.take domain'.nameLength =
        domain.acName.bytes.take domain.nameLength ++
          encodeLabel (labelBytes label prependUnderline) ∧
      (labelBytes label prependUnderline ≠ [] →
        domain'.acName.bytes[domain'.nameLength]? = some 0) := by
  unfold EncodedDomain.addLabel
  generalize labelBytes label prependUnderline = text
  dsimp only
  by_cases hfits : domainLabelMaxLength ≥ text.length ∧
      domainMaxLength ≥ domain.nameLength + (1 + text.length)
  · rw [if_pos hfits]
    obtain ⟨acName, hwrite, hbytes⟩ := domain.acName.write_spec domain.nameLength
      [UInt8.ofNat text.length] (by
        rw [List.length_singleton]
        omega)
    rw [hwrite]
    dsimp only
    rw [List.length_singleton] at hbytes
    by_cases hempty : text = []
    · rw [if_pos hempty]
      subst hempty
      refine ⟨iff_of_false (fun h => nomatch h) fun h => h.1 rfl, fun domain' h => ?_⟩
      cases h
      exact ⟨hfits.1, rfl, hbytes, fun h => absurd rfl h⟩
    · rw [if_neg hempty]
      by_cases hinside : domain.nameLength + 1 + (text ++ [0]).length ≤ domainMaxLength
      · obtain ⟨acName', hwrite', hbytes'⟩ := acName.write_spec (domain.nameLength + 1)
          (text ++ [0]) hinside
        rw [hwrite']
        dsimp only
        rw [List.length_append, List.length_singleton] at hinside hbytes'
        refine ⟨iff_of_false (fun h => nomatch h) fun h => ?_, fun domain' h => ?_⟩
        · omega
        · cases h
          have htext : domain.acName.bytes.take domain.nameLength ++ encodeLabel text =
              acName.bytes.take (domain.nameLength + 1) ++ text := by
            rw [hbytes, List.append_assoc]
            rfl
          have hlength : (acName.bytes.take (domain.nameLength + 1) ++ text).length =
              domain.nameLength + 1 + text.length := by
            rw [List.length_append, List.length_take, acName.size, Nat.min_eq_left (by omega)]
          rw [← List.append_assoc, ← Nat.add_assoc] at hbytes'
          refine ⟨hfits.1, rfl, ?_, fun _ => ?_⟩
          · have htake := congrArg (List.take (domain.nameLength + 1 + text.length)) hbytes'
            rw [List.take_take, Nat.min_eq_left (Nat.le_succ _), List.take_left' hlength] at htake
            rw [htext]
            exact htake
          · have hget := congrArg (fun bytes => bytes[domain.nameLength + 1 + text.length]?) hbytes'
            rw [List.getElem?_take_of_lt (Nat.lt_succ_self _),
              List.getElem?_append_right (Nat.le_of_eq hlength), hlength, Nat.sub_self] at hget
            exact hget
      · have hwrite' : acName.write (domain.nameLength + 1) (text ++ [0]) = none :=
          dif_neg hinside
        rw [hwrite']
        rw [List.length_append, List.length_singleton] at hinside
        refine ⟨iff_of_true rfl ⟨hempty, hfits.1, ?_⟩, fun domain' h => nomatch h⟩
        omega
  · rw [if_neg hfits]
    refine ⟨iff_of_false (fun h => nomatch h) fun h => hfits ⟨h.2.1, ?_⟩, fun domain' h => ?_⟩
    · omega
    · cases h

theorem addLabel_eq_none : domain.addLabel label prependUnderline = none ↔
    labelBytes label prependUnderline ≠ [] ∧
    (labelBytes label prependUnderline).length ≤ domainLabelMaxLength ∧
    domain.nameLength + 1 + (labelBytes label prependUnderline).length = domainMaxLength :=
  (encodedAddLabel_spec domain label prependUnderline).1

theorem EncodedDomain.Holds.added (h : domain.Holds labels)
    (hadd : domain.addLabel label prependUnderline = some (true, domain')) :
    domain'.Holds (labels ++ [labelBytes label prependUnderline]) := by
  obtain ⟨hshort, hcount, hbytes, hclosed⟩ :=
    (encodedAddLabel_spec domain label prependUnderline).2 domain' hadd
  generalize labelBytes label prependUnderline = text at hshort hcount hbytes hclosed
  have hencoded : encodeLabels (labels ++ [text]) = encodeLabels labels ++ encodeLabel text := by
    rw [encodeLabels_append]
    simp [encodeLabels]
  refine ⟨?_, ?_, ?_, ?_⟩
  · rw [hcount, hencoded, List.length_append, ← h.count, encodeLabel, List.length_cons]
    omega
  · rw [hbytes, h.bytes, hencoded]
  · intro label hlabel
    rcases List.mem_append.mp hlabel with hlabel | hlabel
    · exact h.lengths label hlabel
    · rwa [List.mem_singleton.mp hlabel]
  · by_cases hempty : text = []
    · exact Or.inl (List.mem_append_right labels (hempty ▸ List.mem_singleton_self _))
    · exact Or.inr (hclosed hempty)

end Add

theorem Taken.labels {datagram : List UInt8} {slip first : Bool} {depth start stop : Nat}
    {name : List UInt8} (h : Taken datagram slip first depth start name stop) :
    ∃ labels, name = encodeLabels (labels ++ [[]]) ∧
      ∀ label ∈ labels, label ≠ [] ∧ label.length ≤ domainLabelMaxLength := by
  induction h with
  | root | nothing => exact ⟨[], rfl, fun _ h => nomatch h⟩
  | @label slip first depth start stop length text rest byte pos short part whole next ih =>
    obtain ⟨labels, rfl, hlabels⟩ := ih
    refine ⟨text :: labels, ?_, fun label hlabel => ?_⟩
    · simp [encodeLabels, encodeLabel, whole]
    · rcases List.mem_cons.mp hlabel with rfl | hlabel
      · refine ⟨fun hempty => pos ?_, ?_⟩
        · apply UInt8.toNat_inj.mp
          rw [← whole, hempty]
          rfl
        · rw [whole]
          exact Nat.le_of_lt_succ short
      · exact hlabels label hlabel
  | pointer byte mark second inside few target ih => exact ih
  | half byte mark second inside few target ih => exact ih

theorem readRRDomain_holds {datagram : List UInt8} {s t : DomainReader}
    (h : s.readRRDomain datagram = some (true, t)) :
    (EncodedDomain.mk t.acName t.nameLength).Holds (labelsOf t.nameLength t.name ++ [[]]) := by
  obtain ⟨bResult, t', hloop, hsound⟩ := @readLoop_sound datagram _ 0 0 s.clear
    (Nat.lt_succ_self _) (by decide)
  cases h.symm.trans hloop
  obtain ⟨slip, name, htaken, hname, hlength, hfits⟩ := hsound rfl
  obtain ⟨labels, rfl, hlabels⟩ := htaken.labels
  have hcount : t.nameLength = (encodeLabels (labels ++ [[]])).length :=
    hlength.trans (Nat.zero_add _)
  have htext : t.name = encodeLabels (labels ++ [[]]) := hname
  have hlengths : ∀ label ∈ labels ++ [[]], label.length ≤ domainLabelMaxLength := by
    intro label hlabel
    rcases List.mem_append.mp hlabel with hlabel | hlabel
    · exact (hlabels label hlabel).2
    · rw [List.mem_singleton.mp hlabel]
      exact Nat.zero_le _
  have hof : labelsOf t.nameLength t.name = labels := by
    rw [htext, labelsOf_encodeLabels _ hlengths (Nat.le_of_eq hcount.symm),
      List.takeWhile_append_of_pos fun label hlabel => decide_eq_true (hlabels label hlabel).1]
    simp
  rw [hof]
  exact ⟨hcount, htext, hlengths, Or.inl (List.mem_append_right labels (List.mem_singleton_self _))⟩

theorem Produced.holds {domain : EncodedDomain} {labels : List (List UInt8)}
    (h : Produced domain labels) : domain.Holds labels := by
  induction h with
  | clear => exact ⟨rfl, rfl, fun _ h => absurd h List.not_mem_nil, Or.inr rfl⟩
  | added before h ih => exact ih.added h
  | read h => exact readRRDomain_holds h

inductive LabelsAt : List UInt8 → List (List UInt8) → Prop
  | stop (rest : List UInt8) : LabelsAt (0 :: rest) []
  | label {label rest : List UInt8} {labels : List (List UInt8)} (full : label ≠ [])
      (short : label.length ≤ domainLabelMaxLength) (next : LabelsAt rest labels) :
      LabelsAt (encodeLabel label ++ rest) (label :: labels)

theorem labelsAt_encodeLabels {labels : List (List UInt8)} {rest : List UInt8}
    (hlengths : ∀ label ∈ labels, label.length ≤ domainLabelMaxLength)
    (hclosed : [] ∈ labels ∨ rest[0]? = some 0) :
    LabelsAt (encodeLabels labels ++ rest) (labels.takeWhile (· ≠ [])) := by
  induction labels with
  | nil =>
    match rest, hclosed with
    | _ :: rest, Or.inr hzero =>
      cases hzero
      exact .stop rest
  | cons label labels ih =>
    rw [List.takeWhile_cons, encodeLabels, List.flatMap_cons, List.append_assoc]
    by_cases hempty : label = []
    · rw [hempty]
      exact .stop _
    · rw [if_pos (decide_eq_true hempty)]
      refine .label hempty (hlengths label List.mem_cons_self)
        (ih (fun label h => hlengths label (List.mem_cons_of_mem _ h)) ?_)
      rcases hclosed with hclosed | hclosed
      · rcases List.mem_cons.mp hclosed with hlabel | hclosed
        · exact absurd hlabel.symm hempty
        · exact Or.inl hclosed
      · exact Or.inr hclosed

theorem EncodedDomain.Holds.labelsAt {domain : EncodedDomain} {labels : List (List UInt8)}
    (h : domain.Holds labels) : LabelsAt domain.acName.bytes (labels.takeWhile (· ≠ [])) := by
  rw [← List.take_append_drop domain.nameLength domain.acName.bytes, h.bytes]
  refine labelsAt_encodeLabels h.lengths (h.closed.imp_right fun hzero => ?_)
  rw [List.getElem?_drop, Nat.add_zero]
  exact hzero

theorem strncasecmp_append {label other : List UInt8} (h : label.length = other.length)
    (rest rest' : List UInt8) :
    strncasecmp (label ++ rest) (other ++ rest') label.length = some (sameLabel label other) := by
  induction label generalizing other with
  | nil =>
    rw [List.eq_nil_of_length_eq_zero h.symm]
    simp [strncasecmp, sameLabel]
  | cons c label ih =>
    cases other with
    | nil => cases h
    | cons d other =>
      simp only [List.cons_append, List.length_cons, strncasecmp, sameLabel]
      rw [ih (Nat.succ.inj h), apply_ite some, apply_ite some]

theorem compareLoop_labelsAt {bytes others : List UInt8} {labels otherLabels : List (List UInt8)}
    (h : LabelsAt bytes labels) (hother : LabelsAt others otherLabels) :
    compareLoop bytes others = some (compareLabels labels otherLabels) := by
  induction h generalizing others otherLabels with
  | stop rest =>
    cases hother with
    | stop rest' =>
      rw [compareLoop]
      simp [strncasecmp, compareLabels]
    | label full short next =>
      rw [encodeLabel, List.cons_append, compareLoop,
        if_pos (lengthByte_ne_zero full short).symm]
      rfl
  | @label label rest labels full short next ih =>
    cases hother with
    | stop rest' =>
      rw [encodeLabel, List.cons_append, compareLoop, if_pos (lengthByte_ne_zero full short)]
      rfl
    | @label other rest' otherLabels full' short' next' =>
      rw [encodeLabel, encodeLabel, List.cons_append, List.cons_append, compareLoop, compareLabels]
      by_cases hlength : label.length = other.length
      · rw [if_neg (Classical.not_not.mpr (congrArg UInt8.ofNat hlength)), lengthByte_toNat short,
          lengthByte_toNat short', strncasecmp_append hlength, decide_eq_true hlength]
        cases hsame : sameLabel label other with
        | false => rfl
        | true =>
          dsimp only
          rw [if_pos (lengthByte_ne_zero full short), List.drop_left, List.drop_left, ih next']
          rfl
      · have hbytes : UInt8.ofNat label.length ≠ UInt8.ofNat other.length := by
          intro h
          have hnat := congrArg UInt8.toNat h
          rw [lengthByte_toNat short, lengthByte_toNat short'] at hnat
          exact hlength hnat
        rw [if_pos hbytes, decide_eq_false hlength]
        rfl

theorem compare_encoded {domain other : EncodedDomain} {labels others : List (List UInt8)}
    (h : domain.Holds labels) (hother : other.Holds others) :
    domain.compare other =
      some (RRDomain.compare ⟨labels.takeWhile (· ≠ []), domain.nameLength⟩
        ⟨others.takeWhile (· ≠ []), other.nameLength⟩) := by
  unfold EncodedDomain.compare RRDomain.compare
  dsimp only
  by_cases hlength : domain.nameLength = other.nameLength
  · rw [if_pos hlength, decide_eq_true hlength, compareLoop_labelsAt h.labelsAt hother.labelsAt,
      Bool.true_and]
  · rw [if_neg hlength, decide_eq_false hlength, Bool.false_and]

/-- A difference that `compare` does not come to: behind a NUL of a label, or behind an empty
label. -/
structure HiddenDifference (labels others : List (List UInt8)) : Prop where
  different : ¬ SameLabels labels others
  lengths : (encodeLabels labels).length = (encodeLabels others).length
  shown : (labels.takeWhile (· ≠ [])).map labelKey = (others.takeWhile (· ≠ [])).map labelKey

theorem labelText_eq (label : List UInt8) :
    labelText label = (label.map tolower).takeWhile (· ≠ 0) := by
  induction label with
  | nil => rfl
  | cons c label ih =>
    rw [labelText, List.map_cons, List.takeWhile_cons]
    by_cases hc : c = 0
    · rw [if_pos hc, if_neg]
      rw [decide_eq_true_iff, Classical.not_not]
      exact tolower_eq_zero.mpr hc
    · have htolower : tolower c ≠ 0 := fun h => hc (tolower_eq_zero.mp h)
      rw [if_neg hc, if_pos (decide_eq_true htolower), ih]

theorem shown_eq (labels : List (List UInt8)) :
    (labels.takeWhile (· ≠ [])).map labelKey =
      ((labels.map (List.map tolower)).takeWhile (· ≠ [])).map fun label =>
        (label.length, label.takeWhile (· ≠ 0)) := by
  induction labels with
  | nil => rfl
  | cons label labels ih =>
    rw [List.map_cons, List.takeWhile_cons, List.takeWhile_cons]
    cases label with
    | nil => rfl
    | cons c label =>
      simp only [ne_eq, reduceCtorEq, not_false_eq_true, decide_true, if_true, List.map_cons] at ih ⊢
      rw [ih, labelKey, labelText_eq, List.map_cons, List.length_cons, List.length_cons,
        List.length_map]

theorem SameLabels.lengths {labels others : List (List UInt8)} (h : SameLabels labels others) :
    (encodeLabels labels).length = (encodeLabels others).length := by
  have hlength : ∀ labels : List (List UInt8), (encodeLabels labels).length =
      ((labels.map (List.map tolower)).map fun label => label.length + 1).sum := by
    intro labels
    simp [encodeLabels, encodeLabel, List.length_flatMap, Function.comp_def]
  rw [hlength, hlength, h]

def EncodedDomain.Compares (domain other : EncodedDomain) (same : Prop) : Prop :=
  ∃ bResult, domain.compare other = some bResult ∧ (bResult = true ↔ same)

theorem compares_iff {domain other : EncodedDomain} {labels others : List (List UInt8)}
    (h : domain.Holds labels) (hother : other.Holds others) :
    domain.Compares other (SameLabels labels others) ↔ ¬ HiddenDifference labels others := by
  have hresult : RRDomain.compare ⟨labels.takeWhile (· ≠ []), domain.nameLength⟩
        ⟨others.takeWhile (· ≠ []), other.nameLength⟩ = true ↔
      (encodeLabels labels).length = (encodeLabels others).length ∧
      (labels.takeWhile (· ≠ [])).map labelKey = (others.takeWhile (· ≠ [])).map labelKey := by
    rw [compare_iff, RRDomain.key, RRDomain.key, Prod.mk.injEq, h.count, hother.count]
  unfold EncodedDomain.Compares
  rw [compare_encoded h hother]
  constructor
  · rintro ⟨bResult, hcompare, hsame⟩ hidden
    cases hcompare
    exact hidden.different (hsame.mp (hresult.mpr ⟨hidden.lengths, hidden.shown⟩))
  · intro hvisible
    refine ⟨_, rfl, fun htrue => ?_, fun hsame => hresult.mpr ⟨hsame.lengths, ?_⟩⟩
    · by_contra hdifferent
      obtain ⟨hlengths, hshown⟩ := hresult.mp htrue
      exact hvisible ⟨hdifferent, hlengths, hshown⟩
    · rw [shown_eq, shown_eq, hsame]

/-- TXT items are found equal as sets unless the same set has an item without a value; domains are
found equal up to case unless they differ where `compare` does not look; and a label is added inside
of the buffer unless it is not empty and ends with the buffer. -/
theorem equality_exact (txts others : List Txt) (hkeys : (txts.map Txt.key).Nodup)
    (hothers : (others.map Txt.key).Nodup) (domain other : EncodedDomain)
    (labels otherLabels : List (List UInt8)) (h : Produced domain labels)
    (hother : Produced other otherLabels) (label : Option (List UInt8))
    (prependUnderline : Bool) :
    ((compareTxts txts others = true ↔ SameTxts txts others) ↔
      ¬ (SameTxts txts others ∧ ∃ txt ∈ txts, txt.value = none)) ∧
    (domain.Compares other (SameLabels labels otherLabels) ↔
      ¬ HiddenDifference labels otherLabels) ∧
    ((domain.addLabel label prependUnderline).isSome = true ↔
      ¬ (labelBytes label prependUnderline ≠ [] ∧
        (labelBytes label prependUnderline).length ≤ domainLabelMaxLength ∧
        (encodeLabels labels).length + 1 + (labelBytes label prependUnderline).length =
          domainMaxLength)) := by
  refine ⟨?_, compares_iff h.holds hother.holds, ?_⟩
  · rw [compareTxts_iff hkeys hothers]
    constructor
    · rintro hcompare ⟨hsame, txt, hmem, hnone⟩
      have hvalue := (hcompare.mpr hsame).2 txt hmem
      rw [hnone] at hvalue
      cases hvalue
    · intro hvalues
      refine and_iff_left_of_imp fun hsame txt hmem => ?_
      rw [Option.isSome_iff_ne_none]
      exact fun hnone => hvalues ⟨hsame, txt, hmem, hnone⟩
  · rw [← h.holds.count, ← addLabel_eq_none, Option.isSome_iff_ne_none]

def keyOnly : Txt := ⟨[107, 101, 121], none⟩

def keyed : Txt := ⟨[97], some [98]⟩

def localDomain : EncodedDomain :=
  ((EncodedDomain.clear.addLabel (some scpcLocal) false).map Prod.snd).getD .clear

theorem localDomain_produced : Produced localDomain [scpcLocal] :=
  @Produced.added .clear localDomain [] (some scpcLocal) false .clear rfl

theorem equality_exact_keyOnly :
    ((compareTxts [keyOnly, keyed] [keyed, keyOnly] = true ↔
        SameTxts [keyOnly, keyed] [keyed, keyOnly]) ↔
      ¬ (SameTxts [keyOnly, keyed] [keyed, keyOnly] ∧
        ∃ txt ∈ [keyOnly, keyed], txt.value = none)) ∧
    (localDomain.Compares .clear (SameLabels [scpcLocal] []) ↔ ¬ HiddenDifference [scpcLocal] []) ∧
    ((localDomain.addLabel (some scpcUDP) true).isSome = true ↔
      ¬ (labelBytes (some scpcUDP) true ≠ [] ∧
        (labelBytes (some scpcUDP) true).length ≤ domainLabelMaxLength ∧
        (encodeLabels [scpcLocal]).length + 1 + (labelBytes (some scpcUDP) true).length =
          domainMaxLength)) :=
  equality_exact [keyOnly, keyed] [keyed, keyOnly] (by decide) (by decide) localDomain .clear
    [scpcLocal] [] localDomain_produced .clear (some scpcUDP) true

theorem keyOnly_unequal : ¬ ∀ txts others : List Txt, (txts.map Txt.key).Nodup →
    (others.map Txt.key).Nodup → (compareTxts txts others = true ↔ SameTxts txts others) := by
  intro hall
  have hsame : SameTxts [keyOnly] [keyOnly] := fun _ => Iff.rfl
  exact absurd ((hall [keyOnly] [keyOnly] (by decide) (by decide)).mpr hsame) (by decide)

end Esp8266.Mdns
