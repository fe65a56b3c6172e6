import Esp8266.Strings.Substitution

/-! `String::replace` with the string itself as an argument. -/
namespace Esp8266.WString
open Esp8266.Substring

theorem firstIndex_self (text : List UInt8) : firstIndex text text = some 0 := by
  cases text with
  | nil => rfl
  | cons c rest =>
    unfold firstIndex
    rw [if_pos (List.prefix_refl _)]

theorem cstr_ne_nil {bytes : List UInt8} (h : bytes ≠ []) (hfirst : bytes[0]? ≠ some 0)
    (rest : List UInt8) : cstr (bytes ++ rest) ≠ [] := by
  cases bytes with
  | nil => exact absurd rfl h
  | cons c bytes =>
    unfold cstr
    rw [List.cons_append, List.takeWhile_cons,
      if_pos (bne_iff_ne.mpr fun hzero => hfirst (by rw [hzero]; rfl))]
    exact List.cons_ne_nil _ _

theorem strstr_at_end {store before tail sub : List UInt8} (hstore : store = before ++ 0 :: tail)
    (hsub : cstr sub ≠ []) : strstr store before.length sub = none := by
  have hstr := strstr_todo sub (show store = before ++ [] ++ 0 :: tail by
    rw [hstore, List.append_nil]) (by simp)
  rw [hstr, firstIndex, if_neg hsub]
  rfl

theorem strstr_self (store : List UInt8) : strstr store 0 store = some 0 := by
  unfold strstr
  rw [List.drop_zero, firstIndex_self]
  rfl

theorem replaceEqual_self {s : Str} (hs : Searched s) (replace : Operand)
    (hreplace : Valid (replace.get s)) (hlen : (replace.get s).len = s.len)
    (hfirst : (replace.get s).text[0]? ≠ some 0) (fuel : Nat) :
    Valid (replaceEqual .self replace fuel s 0) := by
  have hstorage := hs.valid.storage
  have htextlen := text_length hs.valid
  have hreplen := text_length hreplace
  have hnonempty := hs.nonempty
  have hsplit := hs.valid.split
  generalize s.store.drop (s.len + 1) = tail at hsplit
  have hput := put_over (show s.store = [] ++ s.text ++ 0 :: tail from hsplit) rfl
    (show (replace.get s).text.length ≤ s.text.length by omega)
  rw [List.drop_of_length_le (by omega), List.nil_append, List.nil_append] at hput
  have hvalid : Valid { s with store := (replace.get s).text ++ 0 :: tail } := by
    refine ⟨⟨?_, hs.valid.limit, hs.valid.intact⟩, hs.valid.fits, ?_⟩
    · refine Eq.trans ?_ hstorage
      have hsize := congrArg List.length hsplit
      simp only [List.length_append, List.length_cons] at hsize ⊢
      omega
    · rw [List.getElem?_append_right (by simp only; omega), hreplen, hlen]
      simp
  cases fuel with
  | zero => exact hs.valid
  | succ fuel =>
    unfold replaceEqual
    simp only [get_self, strstr_self, Nat.zero_add]
    rw [show s.put 0 (replace.get s).text = _ from hput]
    cases fuel with
    | zero => exact hvalid
    | succ fuel =>
      have hne : (replace.get s).text ≠ [] := by
        intro hnil
        rw [hnil, List.length_nil] at hreplen
        omega
      have hend := strstr_at_end
        (show (replace.get s).text ++ 0 :: tail = (replace.get s).text ++ 0 :: tail from rfl)
        (cstr_ne_nil hne hfirst (0 :: tail))
      rw [hreplen] at hend
      unfold replaceEqual
      simp only [get_self, hend]
      exact hvalid

theorem replaceShorter_self {s replace : Str} (hs : Searched s) (hreplace : Valid replace)
    (hlen : replace.len < s.len) (hfirst : replace.text[0]? ≠ some 0) (fuel : Nat) :
    Valid (replaceShorter .self (.other replace) ((replace.len : Int) - s.len) (fuel + 2) s 0 0) := by
  have hstorage := hs.valid.storage
  have hfits := hs.valid.fits
  have htextlen := text_length hs.valid
  have hreplen := text_length hreplace
  have hsplit := hs.valid.split
  generalize s.store.drop (s.len + 1) = tail at hsplit
  have hput := put_over (show s.store = [] ++ s.text ++ 0 :: tail from hsplit) rfl
    (show replace.text.length ≤ s.text.length by omega)
  rw [List.nil_append] at hput
  have hheld : Held { s with
      store := replace.text ++ (s.text.drop replace.text.length ++ 0 :: tail) } := by
    refine ⟨?_, hs.valid.limit, hs.valid.intact⟩
    refine Eq.trans ?_ hstorage
    have hsize := congrArg List.length hsplit
    simp only [List.length_append, List.length_cons, List.length_drop] at hsize ⊢
    omega
  have hset := hheld.setLen_eq (show replace.len ≤ s.capacity by omega)
  have hdiff : (s.len : Int) + ((replace.len : Int) - s.len) = replace.len := by omega
  have hstore : replace.text ++ (s.text.drop replace.text.length ++ 0 :: tail) =
      (replace.text ++ s.text.drop replace.text.length) ++ 0 :: tail := by
    rw [List.append_assoc]
  have hlength : (replace.text ++ s.text.drop replace.text.length).length = s.len := by
    rw [List.length_append, List.length_drop]
    omega
  have hne : replace.text ++ s.text.drop replace.text.length ≠ [] := by
    intro hnil
    rw [hnil, List.length_nil] at hlength
    exact hs.nonempty hlength.symm
  have hhead : (replace.text ++ s.text.drop replace.text.length)[0]? ≠ some 0 := by
    intro hzero
    cases hrep : replace.text with
    | nil =>
      rw [hrep, List.length_nil, List.drop_zero, List.nil_append] at hzero
      exact hs.nul (List.mem_of_getElem? hzero)
    | cons c rest =>
      rw [hrep, List.cons_append] at hzero
      exact hfirst (by rw [hrep]; exact hzero)
  have hend := strstr_at_end hstore
    (show cstr (replace.text ++ (s.text.drop replace.text.length ++ 0 :: tail)) ≠ [] by
      rw [hstore]
      exact cstr_ne_nil hne hhead (0 :: tail))
  have hread : cstr ((replace.text ++ (s.text.drop replace.text.length ++ 0 :: tail)).drop
      s.len) = [] := by
    rw [hstore, ← hlength, List.drop_left]
    rfl
  rw [hlength] at hend
  unfold replaceShorter
  simp only [get_self, get_other, strstr_self, Nat.sub_self, List.take_zero, Nat.zero_add]
  rw [put_same (show s.store = [] ++ s.store from rfl), show s.put 0 replace.text = _ from hput]
  simp only
  rw [hdiff, hset]
  unfold replaceShorter
  simp only [get_self, hend, hread, List.nil_append]
  exact (hset ▸ hheld.setLen (replace.len : Int) : Held { s with
    store := replace.text ++ (s.text.drop replace.text.length ++ 0 :: tail)
    len := replace.len }).terminate (show replace.len ≤ s.capacity by omega)

theorem replaceLonger_self {s replace : Str} (hs : Searched s) {diff : Nat}
    (hdiff : replace.text.length = s.len + diff) (hroom : s.len + diff ≤ s.capacity) (fuel : Nat) :
    Valid (replaceLonger .self (.other replace) diff (fuel + 1) s s.len) := by
  have hlast := lastIndexOf_last hs.valid hs.cstr_ne_nil hs.len_eq
    (Nat.pos_of_ne_zero hs.nonempty) (Nat.le_refl _)
  have htextlen := text_length hs.valid
  have hpos := hs.nonempty
  rw [hs.cstr_eq, cstr_of_not_mem hs.nul, htextlen, Nat.min_self] at hlast
  have hzero : lastIndexOf s s (s.len - 1) = some 0 := by
    cases hfound : lastIndexOf s s (s.len - 1) with
    | none =>
      rw [hfound] at hlast
      exact absurd (List.prefix_refl s.text) (hlast 0 (Nat.le_refl 0) (by omega))
    | some i =>
      rw [hfound] at hlast
      have hle := hlast.2.1.length_le
      rw [List.length_drop] at hle
      rw [show i = 0 by omega]
  have hfits := replaceLongerAt_fits hs.cstr_ne_nil hs.len_eq hdiff hs.valid
    (show cstr s.store <+: s.text.drop 0 from
      ⟨[], by rw [hs.cstr_eq, List.drop_zero, List.append_nil]⟩) hroom
  unfold replaceLonger
  rw [if_neg hpos]
  simp only [get_self, hzero]
  cases fuel with
  | zero => exact hfits.1
  | succ fuel =>
    unfold replaceLonger
    rw [if_pos rfl]
    exact hfits.1

theorem replaceGrowing_self {s replace : Str} (hs : Searched s) (hreplace : Valid replace)
    (hlen : s.len < replace.len) (mem : Allocations) :
    Valid (replaceGrowing s mem .self (.other replace) (replace.len - s.len)).1 := by
  have hsize := (growing_size hs.valid hs hreplace hlen).2.1
  rw [← (growing_size hs.valid hs hreplace hlen).1] at hsize
  have hbuffer := growing_buffer hs.valid mem hsize
  rw [replaceGrowing_eq s mem .self _ (get_self s) rfl]
  split
  · exact hs.valid
  · rename_i hmore
    have hcount : 1 ≤ countLoop s s (s.store.length + 1) 0 := by
      cases hzero : countLoop s s (s.store.length + 1) 0 with
      | zero => rw [hzero, Nat.zero_mul] at hmore; exact absurd rfl hmore
      | succ n => omega
    have hone := Nat.mul_le_mul_right (replace.len - s.len) hcount
    simp only at hbuffer ⊢
    generalize (if _ > s.capacity then changeBuffer s mem _ else (true, s, mem)) = r
      at hbuffer ⊢
    cases hok : r.1 with
    | false =>
      rw [if_neg (by simp), hbuffer.2 hok]
      exact hs.valid
    | true =>
      obtain ⟨hvalid, hroom, hglen, hgtext⟩ := hbuffer.1 hok
      rw [if_pos rfl]
      have hsearched : Searched r.2.1 :=
        ⟨hvalid, by rw [hglen]; exact hs.nonempty, by rw [hgtext]; exact hs.nul⟩
      apply replaceLonger_self hsearched
      · rw [text_length hreplace, hglen]
        omega
      · rw [hglen]
        omega

theorem replaceEqual_by_self {s find : Str} (hs : Valid s) (hfind : Searched find)
    (hlen : s.len = find.len) (fuel : Nat) : replaceEqual (.other find) .self fuel s 0 = s := by
  have hsplit := hs.split
  cases fuel with
  | zero => rfl
  | succ fuel =>
    unfold replaceEqual
    simp only [get_other, get_self]
    cases hstr : strstr s.store 0 find.store with
    | none => rfl
    | some i =>
      obtain ⟨-, -, hat, -⟩ := strstr_some (Nat.zero_le _) hstr
      have hle := hat.length_le
      have hseen := seen_le hs
      rw [List.length_drop, ← hfind.len_eq, hs.cstr_eq] at hle
      have hpos := hfind.nonempty
      obtain rfl : i = 0 := by omega
      have hend := strstr_at_end hsplit hfind.cstr_ne_nil
      rw [text_length hs] at hend
      simp only [Nat.zero_add]
      rw [put_same hsplit]
      cases fuel with
      | zero => rfl
      | succ fuel =>
        unfold replaceEqual
        simp only [get_other, hend]

end Esp8266.WString
