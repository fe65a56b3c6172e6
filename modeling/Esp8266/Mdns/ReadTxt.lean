import Esp8266.Library.CString
import Esp8266.Mdns.Answers

/-! `MDNSResponder::_readRRAnswerTXT`: the items of a TXT record. The record is in a buffer of its
own size, and what is behind it in memory is open. `new` ends the program when it fails. -/
namespace Esp8266.Mdns
open Esp8266.CString

/-- What one item gives: the key and the value if there is a key, how many bytes are read from its
start on, and the offsets of the bytes that `strncpy` reads for the key and the value. -/
structure TxtItem where
  txt : Option Txt
  reads : Nat
  used : List Nat

def equalSign : UInt8 := 61

def valueLength (length : UInt8) (offset : Nat) : Nat := (length - UInt8.ofNat (offset + 1)).toNat

def setTxt (length : UInt8) (memory : List UInt8) (offset : Nat) : Option TxtItem :=
  match strncpy (offset % 2 ^ 8) memory,
    strncpy (valueLength length offset) (memory.drop (offset + 1)) with
  | some key, some value =>
    some ⟨some ⟨key.1, if valueLength length offset = 0 then none else some value.1⟩,
      offset + 1 + value.2, List.range key.2 ++ (List.range value.2).map (offset + 1 + ·)⟩
  | _, _ => none

def readTxtItem (length : UInt8) (memory : List UInt8) : Option TxtItem :=
  match strchr equalSign memory with
  | none => none
  | some (none, reads) => some ⟨none, reads, []⟩
  | some (some offset, reads) =>
    if offset % 2 ^ 8 = 0 then some ⟨none, reads, []⟩ else setTxt length memory offset

structure TxtVisit where
  length : UInt8
  left : Nat
  item : TxtItem

structure TxtReading where
  txts : List Txt
  result : Bool
  visits : List TxtVisit

/-- The loop of `_readRRAnswerTXT` at the rest of the record, with the memory behind it; nothing
when `rounds` rounds are not enough or memory ends. -/
def readTxtItems (beyond : List UInt8) : Nat → List UInt8 → List Txt → Option TxtReading
  | _, [], txts => some ⟨txts, true, []⟩
  | 0, _ :: _, _ => none
  | rounds + 1, length :: rest, txts =>
    if length = 0 then readTxtItems beyond rounds rest []
    else
      match readTxtItem length (rest ++ beyond) with
      | none => none
      | some item =>
        match item.txt with
        | none => some ⟨[], false, [⟨length, rest.length, item⟩]⟩
        | some txt =>
          (readTxtItems beyond rounds (rest.drop length.toNat) (txt :: txts)).map fun reading =>
            { reading with visits := ⟨length, rest.length, item⟩ :: reading.visits }

def readRRAnswerTXT (rdata beyond : List UInt8) : Option TxtReading :=
  readTxtItems beyond rdata.length rdata []

def HasKey (item : List UInt8) : Prop :=
  ∃ key value, item = key ++ equalSign :: value ∧ key ≠ [] ∧ equalSign ∉ key

inductive BadItem : List UInt8 → Prop where
  | beyond {length : UInt8} {rest : List UInt8} (h : rest.length < length.toNat) :
      BadItem (length :: rest)
  | noKey {length : UInt8} {rest : List UInt8} (hlength : length ≠ 0)
      (h : ¬ HasKey (rest.take length.toNat)) : BadItem (length :: rest)
  | later {length : UInt8} {rest : List UInt8} (h : BadItem (rest.drop length.toNat)) :
      BadItem (length :: rest)

/-- What is expected of the function: it comes back, reads nothing behind the record and uses for
each item only its own bytes, and fails for a bad item only, with no items. -/
def ReadsTxt (rdata beyond : List UInt8) : Prop :=
  ∃ reading, readRRAnswerTXT rdata beyond = some reading ∧
    (∀ visit ∈ reading.visits, visit.item.reads ≤ visit.left ∧
      ∀ offset ∈ visit.item.used, offset < visit.length.toNat) ∧
    (reading.result = false ↔ BadItem rdata) ∧
    (reading.result = false → reading.txts = [])

/-- How far the function gets along the record, with `bad` for whether an item of the record is
bad: each item that it passes has its sign inside and behind a key without NUL; or the sign is
behind the item and just so far that the lengths of 8 bits make an empty value of it. -/
inductive Scanned (bad : Prop) : List UInt8 → Prop where
  | nil (h : ¬ bad) : Scanned bad []
  | empty {rest : List UInt8} (h : Scanned bad rest) : Scanned bad (0 :: rest)
  | item {length : UInt8} {key value : List UInt8} (hkey : key ≠ []) (hsign : equalSign ∉ key)
      (hnul : 0 ∉ key) (hinside : key.length < length.toNat)
      (hfits : length.toNat ≤ (key ++ equalSign :: value).length)
      (h : Scanned bad ((key ++ equalSign :: value).drop length.toNat)) :
      Scanned bad (length :: (key ++ equalSign :: value))
  | stop {length : UInt8} {key rest : List UInt8} (hlength : length ≠ 0) (hsign : equalSign ∉ key)
      (hnul : 0 ∉ key) (hwraps : key.length % 2 ^ 8 = 0) :
      Scanned bad (length :: (key ++ equalSign :: rest))
  | nul {length : UInt8} {key rest : List UInt8} (hlength : length ≠ 0) (hsign : equalSign ∉ key)
      (hnul : 0 ∉ key) (h : bad) : Scanned bad (length :: (key ++ 0 :: rest))
  | passed {length : UInt8} {key rest : List UInt8} (hlength : length ≠ 0)
      (hsign : equalSign ∉ key) (hnul : 0 ∉ key) (houtside : length.toNat ≤ key.length)
      (hkey : key.length % 2 ^ 8 ≠ 0) (hvalue : (key.length + 1) % 2 ^ 8 = length.toNat)
      (h : Scanned bad ((key ++ equalSign :: rest).drop length.toNat)) :
      Scanned bad (length :: (key ++ equalSign :: rest))

section
variable {length : UInt8} {key rest beyond : List UInt8} {bad : Prop}

def TxtVisit.Inside (visit : TxtVisit) : Prop :=
  visit.item.reads ≤ visit.left ∧ ∀ offset ∈ visit.item.used, offset < visit.length.toNat

def ReadsItems (beyond : List UInt8) (bad : Prop) (rounds : Nat) (rest : List UInt8)
    (txts : List Txt) : Prop :=
  ∃ reading, readTxtItems beyond rounds rest txts = some reading ∧
    (∀ visit ∈ reading.visits, visit.Inside) ∧ (reading.result = false ↔ bad) ∧
    (reading.result = false → reading.txts = [])

theorem valueLength_inside {offset : Nat} (h : offset < length.toNat) :
    valueLength length offset = length.toNat - (offset + 1) := by
  have hlt := UInt8.toNat_lt length
  unfold valueLength
  rw [UInt8.toNat_sub, UInt8.toNat_ofNat']
  omega

theorem valueLength_eq_zero {offset : Nat} :
    valueLength length offset = 0 ↔ (offset + 1) % 2 ^ 8 = length.toNat := by
  have hlt := UInt8.toNat_lt length
  unfold valueLength
  rw [UInt8.toNat_sub, UInt8.toNat_ofNat']
  omega

theorem readTxtItem_nul (hsign : equalSign ∉ key) (hnul : 0 ∉ key) :
    readTxtItem length ((key ++ 0 :: rest) ++ beyond) = some ⟨none, key.length + 1, []⟩ := by
  rw [List.append_assoc, List.cons_append, readTxtItem, strchr_nul (by decide) hsign hnul]

theorem readTxtItem_stop (hsign : equalSign ∉ key) (hnul : 0 ∉ key)
    (hwraps : key.length % 2 ^ 8 = 0) :
    readTxtItem length ((key ++ equalSign :: rest) ++ beyond) =
      some ⟨none, key.length + 1, []⟩ := by
  rw [List.append_assoc, List.cons_append, readTxtItem, strchr_found hsign hnul]
  exact if_pos hwraps

theorem readTxtItem_sign (length : UInt8) (rest beyond : List UInt8) (hsign : equalSign ∉ key)
    (hnul : 0 ∉ key) (hkey : key.length % 2 ^ 8 ≠ 0) :
    readTxtItem length ((key ++ equalSign :: rest) ++ beyond) =
      setTxt length ((key ++ equalSign :: rest) ++ beyond) key.length := by
  rw [List.append_assoc, List.cons_append, readTxtItem, strchr_found hsign hnul]
  exact if_neg hkey

theorem readTxtItem_beyond (hsign : equalSign ∉ rest) (hnul : 0 ∉ rest) {item : TxtItem}
    (h : readTxtItem length (rest ++ beyond) = some item) : rest.length < item.reads := by
  unfold readTxtItem at h
  cases hfound : strchr equalSign (rest ++ beyond) with
  | none =>
    rw [hfound] at h
    cases h
  | some found =>
    have hreads := lt_of_strchr hsign hnul hfound
    rw [hfound] at h
    obtain ⟨offset, reads⟩ := found
    cases offset with
    | none =>
      cases h
      exact hreads
    | some offset =>
      have hlast := strchr_reads hfound
      simp only [] at h
      split at h
      · cases h
        exact hreads
      · unfold setTxt at h
        split at h
        · cases h
          simp only []
          omega
        · cases h

theorem readsItems_none (hlength : length ≠ 0) (hitem : readTxtItem length (rest ++ beyond) = none)
    (rounds : Nat) (txts : List Txt) :
    ¬ ReadsItems beyond bad (rounds + 1) (length :: rest) txts := by
  rintro ⟨reading, hreading, -⟩
  rw [readTxtItems, if_neg hlength, hitem] at hreading
  cases hreading

theorem readsItems_stop (hlength : length ≠ 0) {item : TxtItem}
    (hitem : readTxtItem length (rest ++ beyond) = some item) (htxt : item.txt = none)
    (rounds : Nat) (txts : List Txt) :
    ReadsItems beyond bad (rounds + 1) (length :: rest) txts ↔
      (⟨length, rest.length, item⟩ : TxtVisit).Inside ∧ bad := by
  unfold ReadsItems
  rw [readTxtItems, if_neg hlength, hitem]
  simp [htxt]

theorem readsItems_pass (hlength : length ≠ 0) {item : TxtItem} {txt : Txt}
    (hitem : readTxtItem length (rest ++ beyond) = some item) (htxt : item.txt = some txt)
    (rounds : Nat) (txts : List Txt) :
    ReadsItems beyond bad (rounds + 1) (length :: rest) txts ↔
      (⟨length, rest.length, item⟩ : TxtVisit).Inside ∧
        ReadsItems beyond bad rounds (rest.drop length.toNat) (txt :: txts) := by
  unfold ReadsItems
  rw [readTxtItems, if_neg hlength, hitem]
  simp only [htxt]
  constructor
  · rintro ⟨reading, hreading, hinside, hresult, hempty⟩
    obtain ⟨later, hlater, rfl⟩ := Option.map_eq_some_iff.mp hreading
    exact ⟨hinside _ List.mem_cons_self, later, hlater,
      fun visit hvisit => hinside visit (List.mem_cons_of_mem _ hvisit), hresult, hempty⟩
  · rintro ⟨hhere, later, hlater, hinside, hresult, hempty⟩
    refine ⟨_, Option.map_eq_some_iff.mpr ⟨later, hlater, rfl⟩, ?_, hresult, hempty⟩
    intro visit hvisit
    rcases List.mem_cons.mp hvisit with rfl | hvisit
    · exact hhere
    · exact hinside visit hvisit

theorem readsItems_empty (rounds : Nat) (txts : List Txt) :
    ReadsItems beyond bad (rounds + 1) (0 :: rest) txts ↔ ReadsItems beyond bad rounds rest [] := by
  unfold ReadsItems
  rw [readTxtItems, if_pos rfl]

theorem ReadsItems.inside (hlength : length ≠ 0) {rounds : Nat} {txts : List Txt}
    (h : ReadsItems beyond bad (rounds + 1) (length :: rest) txts) :
    ∃ item, readTxtItem length (rest ++ beyond) = some item ∧
      (⟨length, rest.length, item⟩ : TxtVisit).Inside := by
  cases hitem : readTxtItem length (rest ++ beyond) with
  | none => exact absurd h (readsItems_none hlength hitem rounds txts)
  | some item =>
    refine ⟨item, rfl, ?_⟩
    cases htxt : item.txt with
    | none => exact ((readsItems_stop hlength hitem htxt rounds txts).mp h).1
    | some txt => exact ((readsItems_pass hlength hitem htxt rounds txts).mp h).1

theorem setTxt_inside (beyond : List UInt8) (hnul : 0 ∉ key) (hinside : key.length < length.toNat)
    (hfits : length.toNat ≤ (key ++ equalSign :: rest).length) :
    ∃ item txt, setTxt length ((key ++ equalSign :: rest) ++ beyond) key.length = some item ∧
      item.txt = some txt ∧ txt.key = key ∧
      (⟨length, (key ++ equalSign :: rest).length, item⟩ : TxtVisit).Inside := by
  have hlength := UInt8.toNat_lt length
  have hkey : strncpy (key.length % 2 ^ 8) ((key ++ equalSign :: rest) ++ beyond) =
      some (key, key.length) := by
    rw [Nat.mod_eq_of_lt (by omega), List.append_assoc]
    exact strncpy_exact hnul _
  have hvalue := valueLength_inside hinside
  have hread : valueLength length key.length ≤
      (((key ++ equalSign :: rest) ++ beyond).drop (key.length + 1)).length := by
    rw [List.length_drop, List.length_append]
    omega
  obtain ⟨value, reads, hcopy, hle⟩ := strncpy_within hread
  unfold setTxt
  rw [hkey, hcopy]
  refine ⟨_, _, rfl, rfl, rfl, by simp only []; omega, ?_⟩
  intro offset hoffset
  rcases List.mem_append.mp hoffset with hoffset | hoffset
  · exact Nat.lt_trans (List.mem_range.mp hoffset) hinside
  · obtain ⟨i, hi, rfl⟩ := List.mem_map.mp hoffset
    have := List.mem_range.mp hi
    simp only at this ⊢
    omega

theorem setTxt_passed (rest beyond : List UInt8) (hlength : length ≠ 0)
    (hvalue : (key.length + 1) % 2 ^ 8 = length.toNat) :
    ∃ item txt, setTxt length ((key ++ equalSign :: rest) ++ beyond) key.length = some item ∧
      item.txt = some txt ∧
      (⟨length, (key ++ equalSign :: rest).length, item⟩ : TxtVisit).Inside := by
  have hpos : length.toNat ≠ 0 := fun h => hlength (UInt8.toNat_inj.mp h)
  have hshort : key.length % 2 ^ 8 ≤ key.length := Nat.mod_le _ _
  have hread : key.length % 2 ^ 8 ≤ ((key ++ equalSign :: rest) ++ beyond).length := by
    rw [List.length_append, List.length_append]
    omega
  obtain ⟨name, reads, hcopy, hle⟩ := strncpy_within hread
  unfold setTxt
  rw [hcopy, valueLength_eq_zero.mpr hvalue]
  refine ⟨_, _, rfl, rfl, ?_, ?_⟩
  · simp
  · intro offset hoffset
    simp only [List.range_zero, List.map_nil, List.append_nil] at hoffset
    have := List.mem_range.mp hoffset
    simp only
    omega

theorem not_hasKey_outside (hsign : equalSign ∉ key) (houtside : length.toNat ≤ key.length) :
    ¬ HasKey ((key ++ rest).take length.toNat) := by
  rintro ⟨name, value, heq, -⟩
  rw [List.take_append_of_le_length houtside] at heq
  have hmem : equalSign ∈ key.take length.toNat := by
    rw [heq]
    simp
  exact hsign (List.mem_of_mem_take hmem)

theorem not_hasKey_first : ¬ HasKey ((equalSign :: rest).take length.toNat) := by
  rintro ⟨name, value, heq, hname, hsign⟩
  cases name with
  | nil => exact hname rfl
  | cons b name =>
    cases hcount : length.toNat with
    | zero =>
      rw [hcount] at heq
      cases heq
    | succ n =>
      rw [hcount, List.take_succ_cons, List.cons_append] at heq
      have hb : equalSign = b := (List.cons.inj heq).1
      exact hsign (hb ▸ List.mem_cons_self)

theorem badItem_stop (hlength : length ≠ 0) (hsign : equalSign ∉ key)
    (hwraps : key.length % 2 ^ 8 = 0) : BadItem (length :: (key ++ equalSign :: rest)) := by
  have hlt := UInt8.toNat_lt length
  refine .noKey hlength ?_
  cases key with
  | nil => exact not_hasKey_first
  | cons b key =>
    refine not_hasKey_outside hsign ?_
    rw [List.length_cons] at hwraps ⊢
    omega

theorem Scanned.reads (h : Scanned bad rest) : ∀ {rounds : Nat} (txts : List Txt),
    (BadItem rest → bad) → rest.length ≤ rounds → ReadsItems beyond bad rounds rest txts := by
  induction h with
  | nil hgood =>
    intro rounds txts _ _
    refine ⟨⟨txts, true, []⟩, by simp [readTxtItems], by simp, ?_, by simp⟩
    exact iff_of_false (by simp) hgood
  | empty _ ih =>
    intro rounds txts hbad hrounds
    cases rounds with
    | zero => exact absurd hrounds (Nat.not_succ_le_zero _)
    | succ rounds =>
      rw [readsItems_empty]
      exact ih [] (fun h => hbad (.later h)) (Nat.le_of_succ_le_succ hrounds)
  | @item length key value hkey hsign hnul hinside hfits _ ih =>
    intro rounds txts hbad hrounds
    have hlt := UInt8.toNat_lt length
    have hlength : length ≠ 0 := by
      rintro rfl
      exact Nat.not_lt_zero _ hinside
    have hpos := List.length_pos_iff.mpr hkey
    cases rounds with
    | zero => exact absurd hrounds (Nat.not_succ_le_zero _)
    | succ rounds =>
      obtain ⟨item, txt, hset, htxt, -, hvisit⟩ :=
        setTxt_inside beyond hnul hinside hfits
      have hitem := (readTxtItem_sign length value beyond hsign hnul (by omega)).trans hset
      refine (readsItems_pass hlength hitem htxt rounds txts).mpr ⟨hvisit, ?_⟩
      refine ih _ (fun h => hbad (.later h)) ?_
      rw [List.length_drop]
      rw [List.length_cons] at hrounds
      omega
  | stop hlength hsign hnul hwraps =>
    intro rounds txts hbad hrounds
    cases rounds with
    | zero => exact absurd hrounds (Nat.not_succ_le_zero _)
    | succ rounds =>
      refine (readsItems_stop hlength (readTxtItem_stop hsign hnul hwraps) rfl rounds txts).mpr
        ⟨⟨?_, by simp⟩, hbad (badItem_stop hlength hsign hwraps)⟩
      simp
  | nul hlength hsign hnul h =>
    intro rounds txts hbad hrounds
    cases rounds with
    | zero => exact absurd hrounds (Nat.not_succ_le_zero _)
    | succ rounds =>
      refine (readsItems_stop hlength (readTxtItem_nul hsign hnul) rfl rounds txts).mpr
        ⟨⟨?_, by simp⟩, h⟩
      simp
  | @passed length key value hlength hsign hnul houtside hkey hvalue _ ih =>
    intro rounds txts hbad hrounds
    cases rounds with
    | zero => exact absurd hrounds (Nat.not_succ_le_zero _)
    | succ rounds =>
      obtain ⟨item, txt, hset, htxt, hvisit⟩ :=
        setTxt_passed value beyond hlength hvalue
      have hitem := (readTxtItem_sign length value beyond hsign hnul hkey).trans hset
      refine (readsItems_pass hlength hitem htxt rounds txts).mpr ⟨hvisit, ?_⟩
      refine ih _ (fun h => hbad (.later h)) ?_
      rw [List.length_drop]
      rw [List.length_cons] at hrounds
      omega

theorem setTxt_txt {memory : List UInt8} {offset : Nat} {item : TxtItem}
    (h : setTxt length memory offset = some item) : ∃ txt, item.txt = some txt := by
  unfold setTxt at h
  split at h
  · cases h
    exact ⟨_, rfl⟩
  · cases h

theorem setTxt_outside (houtside : length.toNat ≤ key.length)
    (hvalue : (key.length + 1) % 2 ^ 8 ≠ length.toNat) {item : TxtItem}
    (h : setTxt length ((key ++ equalSign :: rest) ++ beyond) key.length = some item)
    {left : Nat} : ¬ (⟨length, left, item⟩ : TxtVisit).Inside := by
  unfold setTxt at h
  split at h
  · rename_i name value hname hcopy
    cases h
    have hpos := pos_of_strncpy (fun hzero => hvalue (valueLength_eq_zero.mp hzero)) hcopy
    rintro ⟨-, hused⟩
    have hfirst := hused (key.length + 1) (List.mem_append_right _
      (List.mem_map.mpr ⟨0, List.mem_range.mpr hpos, rfl⟩))
    simp only at hfirst
    omega
  · cases h

theorem ReadsItems.scanned {rounds : Nat} : ∀ {rest : List UInt8} {txts : List Txt},
    ReadsItems beyond bad rounds rest txts → (BadItem rest → bad) → rest.length ≤ rounds →
      Scanned bad rest := by
  induction rounds with
  | zero =>
    intro rest txts h hbad hrounds
    rw [List.eq_nil_of_length_eq_zero (Nat.le_zero.mp hrounds)] at h ⊢
    obtain ⟨reading, hreading, -, hresult, -⟩ := h
    rw [readTxtItems] at hreading
    cases hreading
    exact .nil fun hb => nomatch hresult.mpr hb
  | succ rounds ih =>
    intro rest txts h hbad hrounds
    cases rest with
    | nil =>
      obtain ⟨reading, hreading, -, hresult, -⟩ := h
      rw [readTxtItems] at hreading
      cases hreading
      exact .nil fun hb => nomatch hresult.mpr hb
    | cons length rest =>
      by_cases hlength : length = 0
      · rw [hlength] at h hbad ⊢
        rw [readsItems_empty] at h
        exact .empty (ih h (fun hb => hbad (.later hb)) (Nat.le_of_succ_le_succ hrounds))
      · have hlater : (rest.drop length.toNat).length ≤ rounds := by
          rw [List.length_drop]
          rw [List.length_cons] at hrounds
          omega
        obtain ⟨item, hitem, hvisit⟩ := h.inside hlength
        rcases strchr_cases equalSign rest with
          ⟨hsign, hnul⟩ | ⟨key, value, rfl, hsign, hnul⟩ | ⟨key, value, rfl, hsign, hnul⟩
        · exact absurd hvisit.1 (Nat.not_le_of_lt (readTxtItem_beyond hsign hnul hitem))
        · by_cases hwraps : key.length % 2 ^ 8 = 0
          · exact .stop hlength hsign hnul hwraps
          · have hset := (readTxtItem_sign _ _ _ hsign hnul hwraps).symm.trans hitem
            obtain ⟨txt, htxt⟩ := setTxt_txt hset
            have hnext := ((readsItems_pass hlength hitem htxt rounds txts).mp h).2
            have hscanned := ih hnext (fun hb => hbad (.later hb)) hlater
            have hkey : key ≠ [] := by
              rintro rfl
              exact hwraps rfl
            by_cases hinside : key.length < length.toNat
            · by_cases hfits : length.toNat ≤ (key ++ equalSign :: value).length
              · exact .item hkey hsign hnul hinside hfits hscanned
              · rw [List.drop_of_length_le (by omega)] at hscanned
                cases hscanned with
                | nil hgood => exact absurd (hbad (.beyond (by omega))) hgood
            · by_cases hvalue : (key.length + 1) % 2 ^ 8 = length.toNat
              · exact .passed hlength hsign hnul (by omega) hwraps hvalue hscanned
              · exact absurd hvisit (setTxt_outside (by omega) hvalue hset)
        · rw [readTxtItem_nul hsign hnul] at hitem
          cases hitem
          exact .nul hlength hsign hnul
            ((readsItems_stop hlength (readTxtItem_nul hsign hnul) rfl rounds txts).mp h).2

/-- The function does as is expected exactly for the records that it scans so. -/
theorem readRRAnswerTXT_iff (rdata beyond : List UInt8) :
    ReadsTxt rdata beyond ↔ Scanned (BadItem rdata) rdata :=
  ⟨fun h => ReadsItems.scanned h id (Nat.le_refl _),
    fun h => h.reads [] id (Nat.le_refl _)⟩

theorem txt_withoutSign : ¬ ReadsTxt [1, 97] [61, 98, 0] := by
  rintro ⟨reading, hreading, hinside, -⟩
  cases hreading
  exact absurd (hinside _ List.mem_cons_self).1 (by decide)

end

end Esp8266.Mdns
