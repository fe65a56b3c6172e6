import Esp8266.Mdns.ReadTxt

/-! The TXT items of a service: how they are added, written into a record and read back. -/
namespace Esp8266.Mdns
open Esp8266.CString

/-- `stcMDNSServiceTxt`: an item, and whether it is a dynamic one. -/
structure ServiceTxt where
  txt : Txt
  temp : Bool

def Txt.length (txt : Txt) : Nat := txt.key.length + 1 + (txt.value.getD []).length

def setValue (value : Option (List UInt8)) : Option (List UInt8) :=
  if value = some [] then none else value

def serviceTxtMaxLength : Nat := 1300

def allocServiceTxt (txts : List ServiceTxt) (txt : Txt) (temp : Bool) : List ServiceTxt × Bool :=
  if serviceTxtMaxLength > txtsLength (txts.map ServiceTxt.txt) + 1 + txt.key.length + 1 +
      (txt.value.getD []).length then
    (⟨txt, temp⟩ :: txts, true)
  else (txts, false)

def updateServiceTxt (txts : List ServiceTxt) (found : ServiceTxt) (txt : Txt) (temp : Bool) :
    List ServiceTxt :=
  if serviceTxtMaxLength > txtsLength (txts.map ServiceTxt.txt) -
      (found.txt.value.getD []).length + (txt.value.getD []).length then
    modifyFirst (fun item => item.txt.key = txt.key)
      (fun item => ⟨⟨item.txt.key, setValue txt.value⟩, temp⟩) txts
  else txts

def addServiceTxt (txts : List ServiceTxt) (txt : Txt) (temp : Bool) : List ServiceTxt × Bool :=
  if txt.key = [] then (txts, false)
  else
    match txts.find? fun item => item.txt.key = txt.key with
    | some found => (updateServiceTxt txts found txt temp, true)
    | none => allocServiceTxt txts txt temp

def removeTempTxts (txts : List ServiceTxt) : List ServiceTxt := txts.filter fun item => !item.temp

def writeTxt (txt : Txt) : List UInt8 :=
  UInt8.ofNat txt.length :: (txt.key ++ equalSign :: txt.value.getD [])

def txtRData (txts : List Txt) : List UInt8 := txts.flatMap writeTxt

inductive TxtCall where
  | addServiceTxt (key : CStr) (value : Option CStr)
  | addDynamicServiceTxt (key : CStr) (value : Option CStr)
  | releaseTempServiceTxts

def TxtCall.apply (txts : List ServiceTxt) : TxtCall → List ServiceTxt
  | .addServiceTxt key value =>
    (Mdns.addServiceTxt txts ⟨key.bytes, value.map CStr.bytes⟩ false).1
  | .addDynamicServiceTxt key value =>
    (Mdns.addServiceTxt txts ⟨key.bytes, value.map CStr.bytes⟩ true).1
  | .releaseTempServiceTxts => removeTempTxts txts

def TxtCall.PlainKey : TxtCall → Prop
  | .addServiceTxt key _ | .addDynamicServiceTxt key _ => equalSign ∉ key.bytes
  | .releaseTempServiceTxts => True

def txtsAfter (calls : List TxtCall) : List Txt :=
  (calls.foldl TxtCall.apply []).map ServiceTxt.txt

def RoundTrips (txts : List Txt) : Prop :=
  ∀ beyond, ∃ reading, readRRAnswerTXT (txtRData txts) beyond = some reading ∧
    reading.result = true ∧ reading.txts.Perm txts

def Txt.Fits (txt : Txt) : Prop := txt.length < 2 ^ 8 ∧ txt.value ≠ some []

section
variable {txt : Txt} {txts : List Txt}

theorem length_writeTxt (txt : Txt) : (writeTxt txt).length = 1 + txt.length := by
  simp [writeTxt, Txt.length]
  omega

theorem length_txtRData (txts : List Txt) :
    (txtRData txts).length = (txts.map fun txt => 1 + txt.length).sum := by
  simp [txtRData, List.length_flatMap, length_writeTxt]

/-- What holds of every item of a service: there is a key, without `=`, and no NUL. -/
structure Txt.Plain (txt : Txt) : Prop where
  key : txt.key ≠ []
  sign : equalSign ∉ txt.key
  keyNul : 0 ∉ txt.key
  valueNul : 0 ∉ txt.value.getD []

structure Accepted (txts : List Txt) : Prop where
  plain : ∀ txt ∈ txts, txt.Plain
  fits : (txts.map fun txt => 1 + txt.length).sum < serviceTxtMaxLength

theorem Accepted.txtsLength (h : Accepted txts) :
    txtsLength txts = (txts.map fun txt => 1 + txt.length).sum := by
  have hfits := h.fits
  unfold serviceTxtMaxLength at hfits
  exact Nat.mod_eq_of_lt (Nat.lt_trans hfits (by decide))

theorem readTxtItem_write (hplain : txt.Plain) (hfits : txt.Fits) (memory : List UInt8) :
    ∃ item, readTxtItem (UInt8.ofNat txt.length)
      ((txt.key ++ equalSign :: txt.value.getD []) ++ memory) = some item ∧
      item.txt = some txt := by
  have hlength : (UInt8.ofNat txt.length).toNat = txt.length := by
    rw [UInt8.toNat_ofNat']
    exact Nat.mod_eq_of_lt hfits.1
  have hpos := List.length_pos_iff.mpr hplain.key
  have hshort := hfits.1
  unfold Txt.length at hshort
  have hinside : txt.key.length < (UInt8.ofNat txt.length).toNat := by
    rw [hlength, Txt.length]
    omega
  have hvalue : valueLength (UInt8.ofNat txt.length) txt.key.length =
      (txt.value.getD []).length := by
    rw [valueLength_inside hinside, hlength, Txt.length]
    omega
  have hkey : strncpy (txt.key.length % 2 ^ 8)
      ((txt.key ++ equalSign :: txt.value.getD []) ++ memory) = some (txt.key, txt.key.length) := by
    rw [Nat.mod_eq_of_lt (by omega), List.append_assoc]
    exact strncpy_exact hplain.keyNul _
  have hbehind : ((txt.key ++ equalSign :: txt.value.getD []) ++ memory).drop
      (txt.key.length + 1) = txt.value.getD [] ++ memory := by
    rw [List.append_assoc, List.drop_append, List.drop_of_length_le (by omega)]
    simp
  have hcopy := strncpy_exact hplain.valueNul memory
  rw [readTxtItem_sign _ _ memory hplain.sign hplain.keyNul (by omega)]
  unfold setTxt
  rw [hkey, hvalue, hbehind, hcopy]
  refine ⟨_, rfl, ?_⟩
  obtain ⟨key, value⟩ := txt
  cases value with
  | none => rfl
  | some value =>
    have hne : value ≠ [] := fun h => hfits.2 (congrArg some h)
    simp [hne]

theorem readTxtItems_write (hplain : ∀ txt ∈ txts, txt.Plain) (hfits : ∀ txt ∈ txts, txt.Fits)
    (beyond : List UInt8) {rounds : Nat} (hrounds : (txtRData txts).length ≤ rounds)
    (first : List Txt) : ∃ reading, readTxtItems beyond rounds (txtRData txts) first = some reading ∧
      reading.result = true ∧ reading.txts = txts.reverse ++ first := by
  induction txts generalizing rounds first with
  | nil => exact ⟨⟨first, true, []⟩, by simp [txtRData, readTxtItems], rfl, rfl⟩
  | cons txt txts ih =>
    have hhere := hfits txt List.mem_cons_self
    have hcons : txtRData (txt :: txts) = UInt8.ofNat txt.length ::
        ((txt.key ++ equalSign :: txt.value.getD []) ++ txtRData txts) := by
      simp [txtRData, writeTxt]
    have htext : (txt.key ++ equalSign :: txt.value.getD []).length = txt.length := by
      rw [List.length_append, List.length_cons, Txt.length]
      omega
    have hlength : (UInt8.ofNat txt.length).toNat = txt.length := by
      rw [UInt8.toNat_ofNat']
      exact Nat.mod_eq_of_lt hhere.1
    have hne : UInt8.ofNat txt.length ≠ 0 := by
      intro h
      have hzero := congrArg UInt8.toNat h
      rw [hlength, Txt.length, UInt8.toNat_zero] at hzero
      omega
    rw [hcons, List.length_cons, List.length_append] at hrounds
    cases rounds with
    | zero => exact absurd hrounds (Nat.not_succ_le_zero _)
    | succ rounds =>
      have hrest : (txtRData txts).length ≤ rounds := by omega
      obtain ⟨item, hitem, htxt⟩ := readTxtItem_write (hplain txt List.mem_cons_self) hhere
        (txtRData txts ++ beyond)
      obtain ⟨reading, hreading, hresult, htxts⟩ := ih
        (fun txt h => hplain txt (List.mem_cons_of_mem _ h))
        (fun txt h => hfits txt (List.mem_cons_of_mem _ h)) hrest (txt :: first)
      rw [hcons, readTxtItems, if_neg hne, List.append_assoc _ (txtRData txts) beyond, hitem]
      simp only [htxt]
      rw [hlength, ← htext, List.drop_left, hreading]
      refine ⟨_, rfl, hresult, ?_⟩
      simp only [htxts, List.reverse_cons, List.append_assoc, List.singleton_append]

theorem readTxtItem_length {length : UInt8} {memory : List UInt8} (hnul : 0 ∉ memory)
    {item : TxtItem} (h : readTxtItem length memory = some item) (htxt : item.txt = some txt) :
    txt.length % 2 ^ 8 = length.toNat ∧ txt.value ≠ some [] := by
  have hlt := UInt8.toNat_lt length
  unfold readTxtItem at h
  split at h
  · cases h
  · cases h
    cases htxt
  · rename_i offset reads hfound
    split at h
    · cases h
      cases htxt
    · unfold setTxt at h
      split at h
      · rename_i key value hkey hvalue
        cases h
        cases htxt
        have hkeyLength := length_of_strncpy hnul hkey
        have hvalueLength := length_of_strncpy (fun hmem => hnul (List.mem_of_mem_drop hmem)) hvalue
        have htotal : (offset % 2 ^ 8 + 1 + valueLength length offset) % 2 ^ 8 = length.toNat := by
          unfold valueLength
          rw [UInt8.toNat_sub, UInt8.toNat_ofNat']
          omega
        by_cases hempty : valueLength length offset = 0
        · simp only [Txt.length, hempty, if_true, Option.getD_none, List.length_nil]
          rw [hempty] at htotal
          exact ⟨by rw [hkeyLength]; exact htotal, fun h => nomatch h⟩
        · simp only [Txt.length, hempty, if_false, Option.getD_some]
          rw [hkeyLength, hvalueLength]
          refine ⟨htotal, fun h => ?_⟩
          rw [Option.some.inj h] at hvalueLength
          exact hempty hvalueLength.symm
      · cases h

theorem readTxtItems_covers {rest : List UInt8} (hnul : 0 ∉ rest) {rounds : Nat}
    {first : List Txt} {reading : TxtReading}
    (h : readTxtItems [] rounds rest first = some reading) (hresult : reading.result = true) :
    ∃ items, reading.txts = items ++ first ∧ (∀ txt ∈ items, txt.value ≠ some []) ∧
      rest.length ≤ (items.map fun txt => 1 + txt.length % 2 ^ 8).sum := by
  induction rounds generalizing rest first reading with
  | zero =>
    cases rest with
    | nil =>
      cases h
      exact ⟨[], rfl, by simp, Nat.le_refl 0⟩
    | cons length rest => cases h
  | succ rounds ih =>
    cases rest with
    | nil =>
      cases h
      exact ⟨[], rfl, by simp, Nat.le_refl 0⟩
    | cons length rest =>
      rw [List.mem_cons, not_or] at hnul
      rw [readTxtItems, if_neg (Ne.symm hnul.1), List.append_nil] at h
      cases hitem : readTxtItem length rest with
      | none =>
        rw [hitem] at h
        cases h
      | some item =>
        rw [hitem] at h
        cases htxt : item.txt with
        | none =>
          simp only [htxt] at h
          cases h
          cases hresult
        | some txt =>
          simp only [htxt] at h
          obtain ⟨later, hlater, rfl⟩ := Option.map_eq_some_iff.mp h
          obtain ⟨hlength, hvalue⟩ := readTxtItem_length hnul.2 hitem htxt
          obtain ⟨items, hitems, hvalues, hcovers⟩ := ih
            (fun hmem => hnul.2 (List.mem_of_mem_drop hmem)) hlater hresult
          refine ⟨items ++ [txt], by simp [hitems], ?_, ?_⟩
          · intro other hother
            rcases List.mem_append.mp hother with hother | hother
            · exact hvalues other hother
            · rw [List.mem_singleton.mp hother]
              exact hvalue
          · rw [List.length_drop] at hcovers
            rw [List.map_append, List.sum_append, List.length_cons]
            simp only [List.map_cons, List.map_nil, List.sum_cons, List.sum_nil, hlength]
            omega

theorem eq_of_sum_le {f g : Txt → Nat} (hle : ∀ txt, f txt ≤ g txt)
    (h : (txts.map g).sum ≤ (txts.map f).sum) : ∀ txt ∈ txts, f txt = g txt := by
  have hsum : ∀ txts : List Txt, (txts.map f).sum ≤ (txts.map g).sum := by
    intro txts
    induction txts with
    | nil => exact Nat.le_refl 0
    | cons txt txts ih =>
      have := hle txt
      simp only [List.map_cons, List.sum_cons]
      omega
  induction txts with
  | nil => simp
  | cons txt txts ih =>
    have hhere := hle txt
    have hrest := hsum txts
    simp only [List.map_cons, List.sum_cons] at h
    intro other hother
    rcases List.mem_cons.mp hother with rfl | hother
    · omega
    · exact ih (by omega) other hother

theorem nul_not_mem_txtRData (hplain : ∀ txt ∈ txts, txt.Plain)
    (hlengths : ∀ txt ∈ txts, txt.length % 2 ^ 8 ≠ 0) : 0 ∉ txtRData txts := by
  intro hmem
  obtain ⟨txt, htxt, hmem⟩ := List.mem_flatMap.mp hmem
  have hhere := hplain txt htxt
  unfold writeTxt at hmem
  rcases List.mem_cons.mp hmem with hzero | hmem
  · have hlength := congrArg UInt8.toNat hzero
    rw [UInt8.toNat_ofNat'] at hlength
    exact hlengths txt htxt hlength.symm
  · rcases List.mem_append.mp hmem with hmem | hmem
    · exact hhere.keyNul hmem
    · rcases List.mem_cons.mp hmem with hmem | hmem
      · exact absurd hmem (by decide)
      · exact hhere.valueNul hmem

theorem RoundTrips.fits (hplain : ∀ txt ∈ txts, txt.Plain) (h : RoundTrips txts)
    (hlengths : ∀ txt ∈ txts, txt.length % 2 ^ 8 ≠ 0) : ∀ txt ∈ txts, txt.Fits := by
  obtain ⟨reading, hreading, hresult, hperm⟩ := h []
  obtain ⟨items, hitems, hvalues, hcovers⟩ := readTxtItems_covers
    (nul_not_mem_txtRData hplain hlengths) hreading hresult
  rw [hitems, List.append_nil] at hperm
  rw [length_txtRData, (hperm.map fun txt => 1 + txt.length % 2 ^ 8).sum_nat] at hcovers
  have hsame := eq_of_sum_le (f := fun txt => 1 + txt.length % 2 ^ 8)
    (g := fun txt => 1 + txt.length) (fun txt => Nat.add_le_add_left (Nat.mod_le _ _) 1) hcovers
  intro txt htxt
  refine ⟨?_, hvalues txt (hperm.mem_iff.mpr htxt)⟩
  have := hsame txt htxt
  have hlt := Nat.mod_lt txt.length (show 2 ^ 8 > 0 by decide)
  omega

theorem sum_filter_le (size : α → Nat) (p : α → Bool) (list : List α) :
    ((list.filter p).map size).sum ≤ (list.map size).sum := by
  induction list with
  | nil => exact Nat.le_refl 0
  | cons x list ih =>
    rw [List.filter_cons]
    split
    · simp only [List.map_cons, List.sum_cons]
      omega
    · simp only [List.map_cons, List.sum_cons]
      omega

theorem plain_of_call {key : CStr} (value : Option CStr) (hsign : equalSign ∉ key.bytes)
    (hkey : key.bytes ≠ []) : (⟨key.bytes, value.map CStr.bytes⟩ : Txt).Plain := by
  refine ⟨hkey, hsign, key.nul, ?_⟩
  cases value with
  | none => exact List.not_mem_nil
  | some value => exact value.nul

theorem setValue_length (value : Option (List UInt8)) :
    ((setValue value).getD []).length = (value.getD []).length := by
  unfold setValue
  split
  · rename_i h
    rw [h]
    rfl
  · rfl

variable {items : List ServiceTxt}

theorem accepted_nil : Accepted [] := ⟨by simp, by decide⟩

theorem Accepted.update (h : Accepted (items.map ServiceTxt.txt)) (hplain : txt.Plain)
    {found : ServiceTxt} (hfound : items.find? (fun item => item.txt.key = txt.key) = some found)
    (temp : Bool) : Accepted ((updateServiceTxt items found txt temp).map ServiceTxt.txt) := by
  unfold updateServiceTxt
  split
  · rename_i hroom
    rw [h.txtsLength, List.map_map] at hroom
    have hkey : found.txt.key = txt.key := by simpa using List.find?_some hfound
    let change : ServiceTxt → ServiceTxt := fun item => ⟨⟨item.txt.key, setValue txt.value⟩, temp⟩
    have hsum := @sum_modifyFirst _ _ change _ _ (fun item => 1 + item.txt.length) hfound
    have hold : found.txt.length = txt.key.length + 1 + (found.txt.value.getD []).length := by
      rw [← hkey]
      rfl
    have hnew : Txt.length ⟨found.txt.key, setValue txt.value⟩ = txt.length := by
      rw [Txt.length, Txt.length, setValue_length, hkey]
    have hlength : txt.length = txt.key.length + 1 + (txt.value.getD []).length := rfl
    refine ⟨?_, ?_⟩
    · intro other hother
      obtain ⟨item, hitem, rfl⟩ := List.mem_map.mp hother
      rcases mem_modifyFirst hitem with hitem | ⟨old, hold, hsame, rfl⟩
      · exact h.plain _ (List.mem_map_of_mem hitem)
      · have hplainOld := h.plain _ (List.mem_map_of_mem hold)
        refine ⟨hplainOld.key, hplainOld.sign, hplainOld.keyNul, ?_⟩
        simp only [setValue]
        split
        · exact List.not_mem_nil
        · exact hplain.valueNul
    · rw [List.map_map]
      simp only [change, Function.comp_def] at hsum hroom ⊢
      rw [hnew, hold] at hsum
      omega
  · exact h

theorem Accepted.alloc (h : Accepted (items.map ServiceTxt.txt)) (hplain : txt.Plain)
    (temp : Bool) : Accepted ((allocServiceTxt items txt temp).1.map ServiceTxt.txt) := by
  unfold allocServiceTxt
  split
  · rename_i hroom
    rw [h.txtsLength] at hroom
    refine ⟨?_, ?_⟩
    · intro other hother
      rcases List.mem_cons.mp hother with rfl | hother
      · exact hplain
      · exact h.plain other hother
    · rw [List.map_cons, List.map_cons, List.sum_cons]
      simp only [Txt.length] at hroom ⊢
      omega
  · exact h

theorem Accepted.add (h : Accepted (items.map ServiceTxt.txt)) {key : CStr}
    (value : Option CStr) (hsign : equalSign ∉ key.bytes) (temp : Bool) :
    Accepted ((addServiceTxt items ⟨key.bytes, value.map CStr.bytes⟩ temp).1.map
      ServiceTxt.txt) := by
  unfold addServiceTxt
  split
  · exact h
  · rename_i hkey
    have hplain := plain_of_call value hsign hkey
    split
    · rename_i found hfound
      exact h.update hplain hfound temp
    · exact h.alloc hplain temp

theorem Accepted.removeTemp (h : Accepted (items.map ServiceTxt.txt)) :
    Accepted ((removeTempTxts items).map ServiceTxt.txt) := by
  refine ⟨?_, ?_⟩
  · intro txt htxt
    obtain ⟨item, hitem, rfl⟩ := List.mem_map.mp htxt
    exact h.plain _ (List.mem_map_of_mem (List.mem_filter.mp hitem).1)
  · have hfits := h.fits
    rw [List.map_map] at hfits ⊢
    exact Nat.lt_of_le_of_lt (sum_filter_le _ _ _) hfits

theorem accepted_after (calls : List TxtCall) (hkeys : ∀ call ∈ calls, call.PlainKey) :
    Accepted (txtsAfter calls) := by
  have hall : ∀ items : List ServiceTxt, Accepted (items.map ServiceTxt.txt) →
      Accepted ((calls.foldl TxtCall.apply items).map ServiceTxt.txt) := by
    induction calls with
    | nil => exact fun _ h => h
    | cons call calls ih =>
      intro items h
      refine ih (fun call hcall => hkeys call (List.mem_cons_of_mem _ hcall)) _ ?_
      have hkey := hkeys call List.mem_cons_self
      cases call with
      | addServiceTxt key value => exact h.add value hkey false
      | addDynamicServiceTxt key value => exact h.add value hkey true
      | releaseTempServiceTxts => exact h.removeTemp
  exact hall [] accepted_nil

/-- The record is as long as is announced. It is read back when all items fit, and only then,
unless a length of 8 bits is 0. -/
theorem txts_roundTrip (calls : List TxtCall) (hkeys : ∀ call ∈ calls, call.PlainKey) :
    (txtRData (txtsAfter calls)).length = txtsLength (txtsAfter calls) ∧
      ((∀ txt ∈ txtsAfter calls, txt.Fits) → RoundTrips (txtsAfter calls)) ∧
      (RoundTrips (txtsAfter calls) → (∀ txt ∈ txtsAfter calls, txt.length % 2 ^ 8 ≠ 0) →
        ∀ txt ∈ txtsAfter calls, txt.Fits) := by
  have haccepted := accepted_after calls hkeys
  refine ⟨by rw [length_txtRData, haccepted.txtsLength], ?_, RoundTrips.fits haccepted.plain⟩
  intro hfits beyond
  obtain ⟨reading, hreading, hresult, htxts⟩ := readTxtItems_write haccepted.plain hfits beyond
    (Nat.le_refl _) []
  rw [List.append_nil] at htxts
  exact ⟨reading, hreading, hresult, htxts ▸ List.reverse_perm _⟩

theorem txts_roundTrip_one :
    (∀ call ∈ [TxtCall.addServiceTxt ⟨[97], by decide⟩ (some ⟨[98], by decide⟩)], call.PlainKey) ∧
      (txtRData [⟨[97], some [98]⟩]).length = txtsLength [⟨[97], some [98]⟩] ∧
      RoundTrips [⟨[97], some [98]⟩] := by
  have hkeys : ∀ call ∈ [TxtCall.addServiceTxt ⟨[97], by decide⟩ (some ⟨[98], by decide⟩)],
      call.PlainKey := by
    simp [TxtCall.PlainKey, equalSign]
  obtain ⟨hlength, hfits, -⟩ := txts_roundTrip _ hkeys
  exact ⟨hkeys, hlength, hfits (List.forall_mem_singleton.mpr (by unfold Txt.Fits; decide))⟩

end

theorem nul_not_mem_replicate : (0 : UInt8) ∉ List.replicate 254 98 :=
  fun h => absurd (List.eq_of_mem_replicate h) (by decide)

def longTxt : TxtCall := .addServiceTxt ⟨[97], by decide⟩
  (some ⟨List.replicate 254 98, nul_not_mem_replicate⟩)

theorem longTxt_reading :
    (readRRAnswerTXT (txtRData (txtsAfter [longTxt])) []).map TxtReading.result = some false := by
  decide +kernel

theorem longTxt_lost : ¬ ∀ calls : List TxtCall, (∀ call ∈ calls, call.PlainKey) →
    RoundTrips (txtsAfter calls) := by
  intro h
  have hkeys : ∀ call ∈ [longTxt], call.PlainKey := by
    intro call hcall
    rw [List.mem_singleton.mp hcall]
    exact (by decide : equalSign ∉ [97])
  obtain ⟨reading, hreading, hresult, -⟩ := h _ hkeys []
  have hfails := longTxt_reading
  rw [hreading, Option.map_some, hresult] at hfails
  cases hfails

end Esp8266.Mdns
