import Esp8266.Strings.Replace

/-! What `String::replace` leaves: the three branches, and when they substitute each
occurrence that a scan from the left finds. -/
namespace Esp8266.WString
open Esp8266.Substring

theorem cstr_split {bytes : List UInt8} (h : 0 ∈ bytes) :
    ∃ tail, bytes = cstr bytes ++ 0 :: tail := by
  induction bytes with
  | nil => cases h
  | cons c rest ih =>
    have hcons : cstr (c :: rest) = if (c != 0) = true then c :: cstr rest else [] :=
      List.takeWhile_cons
    rw [hcons]
    split
    · rename_i hc
      have hrest : 0 ∈ rest := by
        cases List.mem_cons.mp h with
        | inl hzero => exact absurd hzero.symm (bne_iff_ne.mp hc)
        | inr hrest => exact hrest
      obtain ⟨tail, htail⟩ := ih hrest
      refine ⟨tail, ?_⟩
      rw [List.cons_append, ← htail]
    · rename_i hc
      refine ⟨rest, ?_⟩
      have hzero : c = 0 := by simpa using hc
      rw [hzero, List.nil_append]

theorem Valid.cstr_split {s : Str} (h : Valid s) :
    ∃ tail, s.store = cstr s.text ++ 0 :: tail := by
  rw [← h.cstr_eq]
  exact WString.cstr_split (List.mem_of_getElem? h.terminated)

theorem seen_le {s : Str} (h : Valid s) : (cstr s.text).length ≤ s.len := by
  rw [← text_length h]
  exact (cstr_leads s.text).length_le

structure Searched (find : Str) : Prop where
  valid : Valid find
  nonempty : find.len ≠ 0
  nul : 0 ∉ find.text

theorem Searched.cstr_eq {find : Str} (h : Searched find) : cstr find.store = find.text := by
  rw [h.valid.cstr_eq, cstr_of_not_mem h.nul]

theorem Searched.text_ne_nil {find : Str} (h : Searched find) : find.text ≠ [] := by
  intro hnil
  have hlength := text_length h.valid
  rw [hnil] at hlength
  exact h.nonempty hlength.symm

theorem Searched.cstr_ne_nil {find : Str} (h : Searched find) : cstr find.store ≠ [] := by
  rw [h.cstr_eq]
  exact h.text_ne_nil

theorem Searched.len_eq {find : Str} (h : Searched find) :
    find.len = (cstr find.store).length := by
  rw [h.cstr_eq, text_length h.valid]

theorem strstr_unfound {s find : Str} (hs : Valid s) (hfind : Valid find)
    (h : firstIndex (cstr find.text) (cstr s.text) = none) : strstr s.store 0 find.store = none := by
  unfold strstr
  rw [List.drop_zero, hs.cstr_eq, hfind.cstr_eq, h]
  rfl

theorem put_same {s : Str} {bytes after : List UInt8} (hstore : s.store = bytes ++ after) :
    s.put 0 bytes = s := by
  have hput := put_over (show s.store = [] ++ bytes ++ after from hstore) rfl (Nat.le_refl _)
  rw [List.drop_length, List.nil_append, List.nil_append, ← hstore] at hput
  exact hput

theorem replaceString_unfound {s find : Str} (hs : Valid s) (hfind : Valid find)
    (h : firstIndex (cstr find.text) (cstr s.text) = none) (mem : Allocations)
    (replace : Operand) : replaceString s mem (.other find) replace = (s, mem) := by
  have hstr := strstr_unfound hs hfind h
  have hequal : ∀ fuel, replaceEqual (.other find) replace fuel s 0 = s := by
    intro fuel
    cases fuel with
    | zero => rfl
    | succ fuel =>
      unfold replaceEqual
      simp only [get_other, hstr]
  have hshorter : ∀ diff fuel, replaceShorter (.other find) replace diff fuel s 0 0 = s := by
    intro diff fuel
    cases fuel with
    | zero => rfl
    | succ fuel =>
      obtain ⟨tail, htail⟩ := hs.cstr_split
      unfold replaceShorter
      simp only [get_other, hstr]
      rw [List.drop_zero, hs.cstr_eq,
        put_same (show s.store = (cstr s.text ++ [0]) ++ tail by
          rw [htail, List.append_assoc, List.singleton_append])]
  have hcount : countLoop s find (s.store.length + 1) 0 = 0 := by
    unfold countLoop
    simp only [hstr]
  have hgrowing : ∀ diff, replaceGrowing s mem (.other find) replace diff = (s, mem) := by
    intro diff
    unfold replaceGrowing
    simp only [get_other, hcount, Nat.zero_mul, Nat.add_zero, ↓reduceIte]
  unfold replaceString
  simp only [hequal, hshorter, hgrowing, ite_self]

section Branches

variable {s : Str} (find replace : Operand) (hs : s.len ≠ 0) (hfind : (find.get s).len ≠ 0)
  (mem : Allocations)
include hs hfind

theorem replaceString_equal (hlen : (replace.get s).len = (find.get s).len) :
    replaceString s mem find replace =
      (replaceEqual find replace (s.store.length + 1) s 0, mem) := by
  have hdiff : ((replace.get s).len : Int) - (find.get s).len = 0 := by omega
  exact (if_neg (not_or.mpr ⟨hs, hfind⟩)).trans (if_pos hdiff)

theorem replaceString_shorter (hlen : (replace.get s).len < (find.get s).len) :
    replaceString s mem find replace =
      (replaceShorter find replace (((replace.get s).len : Int) - (find.get s).len)
        (s.store.length + 1) s 0 0, mem) := by
  have hdiff : ¬ ((replace.get s).len : Int) - (find.get s).len = 0 := by omega
  have hneg : ((replace.get s).len : Int) - (find.get s).len < 0 := by omega
  exact (if_neg (not_or.mpr ⟨hs, hfind⟩)).trans ((if_neg hdiff).trans (if_pos hneg))

theorem replaceString_growing (hlen : (find.get s).len < (replace.get s).len) :
    replaceString s mem find replace =
      replaceGrowing s mem find replace ((replace.get s).len - (find.get s).len) := by
  have hdiff : ¬ ((replace.get s).len : Int) - (find.get s).len = 0 := by omega
  have hneg : ¬ ((replace.get s).len : Int) - (find.get s).len < 0 := by omega
  rw [show (replace.get s).len - (find.get s).len =
    (((replace.get s).len : Int) - (find.get s).len).toNat by omega]
  exact (if_neg (not_or.mpr ⟨hs, hfind⟩)).trans ((if_neg hdiff).trans (if_neg hneg))

end Branches

theorem replaceEqual_leaves {s find replace : Str} (hs : Valid s) (hfind : Searched find)
    (hreplace : Valid replace) (hlen : replace.len = find.len) :
    let r := replaceEqual (.other find) (.other replace) (s.store.length + 1) s 0
    Valid r ∧ (0 ∉ s.text → r.text = substitute find.text replace.text s.text) := by
  obtain ⟨tail, hstore⟩ := hs.cstr_split
  have hstorage := hs.storage
  have htextlen := text_length hs
  have hsize := congrArg List.length hstore
  rw [List.length_append, List.length_cons] at hsize
  have hseen := seen_le hs
  have hloop := replaceEqual_substitutes hfind.cstr_ne_nil (hlen.trans hfind.len_eq)
    (text_length hreplace) (cstr s.text) (nul_not_mem_cstr _)
    (show (cstr s.text).length < s.store.length + 1 by omega)
    (show s.store = [] ++ cstr s.text ++ 0 :: tail from hstore)
  rw [hfind.cstr_eq, List.nil_append] at hloop
  have hsame : (substitute find.text replace.text (cstr s.text)).length =
      (cstr s.text).length := by
    have hlength := substitute_length find.text replace.text hfind.text_ne_nil (cstr s.text)
    rw [text_length hreplace, text_length hfind.valid, hlen] at hlength
    omega
  intro r
  rw [show r = _ from hloop]
  refine ⟨⟨⟨?_, hs.limit, hs.intact⟩, hs.fits, ?_⟩, ?_⟩
  · refine Eq.trans ?_ hstorage
    rw [List.length_append, List.length_cons, hsame]
    omega
  · have hterm := hs.terminated
    rw [hstore, List.getElem?_append_right hseen] at hterm
    simp only
    rw [List.getElem?_append_right (by omega), hsame]
    exact hterm
  · intro hnul
    rw [cstr_of_not_mem hnul] at hsame ⊢
    exact List.take_left' (show _ = s.len by omega)

theorem replaceShorter_leaves {s find replace : Str} (hs : Valid s) (hnul : 0 ∉ s.text)
    (hfind : Searched find) (hreplace : Valid replace) (hlen : replace.len < find.len) :
    let r := replaceShorter (.other find) (.other replace) ((replace.len : Int) - find.len)
      (s.store.length + 1) s 0 0
    Valid r ∧ r.text = substitute find.text replace.text s.text := by
  have hstorage := hs.storage
  have htextlen := text_length hs
  have hfits := hs.fits
  obtain ⟨rest, hloop, hrest⟩ := replaceShorter_substitutes hfind.cstr_ne_nil hfind.len_eq
    (text_length hreplace) hlen s.text hnul (show s.text.length < s.store.length + 1 by omega)
    hs.toHeld (show s.store = [] ++ [] ++ s.text ++ 0 :: _ from hs.split)
    (by rw [htextlen]; exact (Nat.zero_add _).symm)
  rw [hfind.cstr_eq, List.nil_append] at hloop hrest
  have hshort : (substitute find.text replace.text s.text).length ≤ s.len := by
    have hlength := substitute_length find.text replace.text hfind.text_ne_nil s.text
    have hle := Nat.mul_le_mul_left ((pieces find.text s.text).length - 1) (Nat.le_of_lt hlen)
    rw [← text_length hreplace, ← text_length hfind.valid] at hle
    omega
  intro r
  rw [show r = _ from hloop]
  refine ⟨⟨⟨?_, hs.limit, hs.intact⟩, ?_, ?_⟩, ?_⟩
  · exact hrest.trans hstorage
  · exact Nat.le_trans hshort hfits
  · simp
  · exact List.take_left' rfl

theorem replaceGrowing_eq (s : Str) (mem : Allocations) (find replace : Operand) {f : Str}
    (hf : find.get s = f) {diff size : Nat}
    (hsize : s.len + countLoop s f (s.store.length + 1) 0 * diff = size) :
    replaceGrowing s mem find replace diff =
      if size = s.len then (s, mem)
      else
        let r := if size > s.capacity then changeBuffer s mem size else (true, s, mem)
        if r.1 then
          (replaceLonger find replace diff (s.store.length + 1) r.2.1 r.2.1.len, r.2.2)
        else r.2 := by
  subst hf hsize
  rfl

theorem growing_buffer {s : Str} (hs : Valid s) (mem : Allocations) {size : Nat}
    (hsize : size + 16 < 2 ^ 32) :
    let r := if size > s.capacity then changeBuffer s mem size else (true, s, mem)
    (r.1 = true → Grown s size r.2.1) ∧ (r.1 = false → r.2.1 = s) := by
  simp only
  split
  · rename_i hmore
    exact changeBuffer_grown hs mem hmore hsize
  · rename_i hroom
    exact ⟨fun _ => ⟨hs, Nat.le_of_not_lt hroom, rfl, rfl⟩, by simp⟩

theorem growing_size {s find replace : Str} (hs : Valid s) (hfind : Searched find)
    (hreplace : Valid replace) (hlen : find.len < replace.len) :
    let count := (pieces find.text (cstr s.text)).length - 1
    countLoop s find (s.store.length + 1) 0 = count ∧
      s.len + count * (replace.len - find.len) + 16 < 2 ^ 32 ∧
      (substitute find.text replace.text (cstr s.text)).length =
        (cstr s.text).length + count * (replace.len - find.len) := by
  obtain ⟨tail, hstore⟩ := hs.cstr_split
  have htextlen := text_length hs
  have hsize := congrArg List.length hstore
  rw [List.length_append, List.length_cons] at hsize
  have hcount := countLoop_counts hfind.cstr_ne_nil hfind.len_eq s (cstr s.text)
    (nul_not_mem_cstr _) (show (cstr s.text).length < s.store.length + 1 by omega)
    (show s.store = [] ++ cstr s.text ++ 0 :: tail from hstore)
  rw [hfind.cstr_eq] at hcount
  have hlength := substitute_length find.text replace.text hfind.text_ne_nil (cstr s.text)
  rw [text_length hreplace, text_length hfind.valid] at hlength
  have hseen := seen_le hs
  have hroom := substitute_length find.text [] hfind.text_ne_nil (cstr s.text)
  rw [text_length hfind.valid, List.length_nil, Nat.mul_zero, Nat.add_zero] at hroom
  have hlimit := hs.capacity_bounds.2
  have hlimit' := hreplace.capacity_bounds.2
  have hfits := hs.fits
  have hfits' := hreplace.fits
  have hnonempty := hfind.nonempty
  obtain ⟨diff, hdiff⟩ : ∃ diff, replace.len = find.len + diff :=
    ⟨replace.len - find.len, by omega⟩
  simp only
  generalize (pieces find.text (cstr s.text)).length - 1 = count at hcount hlength hroom ⊢
  have hcountle : count ≤ count * find.len := Nat.le_mul_of_pos_right _ (by omega)
  have hfew : count ≤ capacityMax := by omega
  have hmuch := Nat.mul_le_mul hfew (show diff ≤ capacityMax by omega)
  unfold capacityMax at hlimit hmuch
  rw [hdiff, Nat.mul_add] at hlength
  rw [hdiff, Nat.add_sub_cancel_left]
  refine ⟨hcount, by omega, by omega⟩

theorem replaceGrowing_leaves {s find replace : Str} (hs : Valid s) (hfind : Searched find)
    (hreplace : Valid replace) (hlen : find.len < replace.len) (mem : Allocations)
    (hcount : countRight find.text replace.text (cstr s.text).length s.text ≤
      (pieces find.text (cstr s.text)).length - 1) :
    Valid (replaceGrowing s mem (.other find) (.other replace) (replace.len - find.len)).1 := by
  obtain ⟨hcounted, hsize, -⟩ := growing_size hs hfind hreplace hlen
  have hstorage := hs.storage
  have hfits := hs.fits
  have htextlen := text_length hs
  have hseen := seen_le hs
  have hright := countRight_length find.text replace.text (cstr s.text).length s.text
  rw [text_length hreplace, text_length hfind.valid] at hright
  have hbuffer := growing_buffer hs mem hsize
  unfold replaceGrowing
  simp only [get_other, hcounted]
  split
  · exact hs
  · generalize (if _ > s.capacity then changeBuffer s mem _ else (true, s, mem)) = r
      at hbuffer ⊢
    cases hok : r.1 with
    | false =>
      rw [if_neg (by simp), hbuffer.2 hok]
      exact hs
    | true =>
      have hgrown := hbuffer.1 hok
      rw [if_pos rfl]
      have hpass := replaceLonger_right hfind.cstr_ne_nil hfind.len_eq
        (show replace.text.length = find.len + (replace.len - find.len) by
          rw [text_length hreplace]
          omega)
        (show 0 < replace.len - find.len by omega) (s.store.length + 1) hgrown.valid
        (Nat.le_refl _) (show r.2.1.len ≤ _ by rw [hgrown.len]; omega)
        (show (cstr s.text).length = _ by rw [hgrown.len, hgrown.text]; omega)
      rw [hfind.cstr_eq, hgrown.text] at hpass
      apply (hpass.1 _).1
      have hroom := hgrown.room
      have hless := Nat.mul_le_mul_right (replace.len - find.len) hcount
      obtain ⟨diff, hdiff⟩ : ∃ diff, replace.len = find.len + diff :=
        ⟨replace.len - find.len, by omega⟩
      rw [hdiff, Nat.mul_add] at hright
      rw [hdiff, Nat.add_sub_cancel_left] at hroom hless
      omega

def countedSize (s find replace : Str) : Nat :=
  s.len + countLoop s find (s.store.length + 1) 0 * (replace.len - find.len)

/-- Each occurrence that a scan from the left finds has been substituted, in the size that
was computed, and no write has left the storage. -/
structure Substituted (s find replace r : Str) : Prop where
  text : r.text = substitute find.text replace.text s.text
  counted : r.len ≤ countedSize s find replace
  fits : r.len ≤ r.capacity
  intact : r.overrun = false

theorem substituted_of_valid {s find replace r : Str} (hr : Valid r)
    (htext : r.text = substitute find.text replace.text s.text)
    (hsize : (substitute find.text replace.text s.text).length ≤ countedSize s find replace) :
    Substituted s find replace r := by
  refine ⟨htext, ?_, hr.fits, hr.intact⟩
  rw [← text_length hr, htext]
  exact hsize

theorem substitute_not_longer {s find replace : Str} (hs : Valid s) (hfind : Searched find)
    (hreplace : Valid replace) (hlen : replace.len ≤ find.len) :
    (substitute find.text replace.text s.text).length ≤ countedSize s find replace := by
  have hlength := substitute_length find.text replace.text hfind.text_ne_nil s.text
  have hle := Nat.mul_le_mul_left ((pieces find.text s.text).length - 1) hlen
  rw [text_length hreplace, text_length hfind.valid, text_length hs] at hlength
  unfold countedSize
  omega

theorem unfound_of_one_piece {sub : List UInt8} (hsub : sub ≠ [])
    {text : List UInt8} (hone : (pieces sub text).length - 1 = 0) :
    firstIndex sub text = none := by
  cases h : firstIndex sub text with
  | none => rfl
  | some i =>
    have hmore := List.length_pos_iff.mpr (pieces_ne_nil sub hsub (text.drop (i + sub.length)))
    rw [pieces_some hsub h, List.length_cons] at hone
    omega

theorem replaceGrowing_iff {s find replace : Str} (hs : Valid s) (hnul : 0 ∉ s.text)
    (hfind : Searched find) (hreplace : Valid replace) (hlen : find.len < replace.len)
    (mem : Allocations)
    (halloc : s.capacity < (substitute find.text replace.text s.text).length →
      (changeBuffer s mem (substitute find.text replace.text s.text).length).1 = true) :
    Substituted s find replace
        (replaceGrowing s mem (.other find) (.other replace) (replace.len - find.len)).1 ↔
      Agrees find.text replace.text (pieces find.text s.text) := by
  obtain ⟨hcounted, hsize, hlength⟩ := growing_size hs hfind hreplace hlen
  rw [cstr_of_not_mem hnul] at hcounted hsize hlength
  have hstorage := hs.storage
  have hfits := hs.fits
  have htextlen := text_length hs
  rw [htextlen] at hlength
  have hmore : find.text.length < replace.text.length := by
    rw [text_length hfind.valid, text_length hreplace]
    exact hlen
  have hbound : (substitute find.text replace.text s.text).length ≤
      countedSize s find replace := by
    unfold countedSize
    exact Nat.le_of_eq (by rw [hcounted, hlength])
  have hagree := substituteRight_eq_iff hfind.text_ne_nil hmore s.text
  have hbuffer := growing_buffer hs mem hsize
  rw [← hlength] at hbuffer hsize
  unfold replaceGrowing
  simp only [get_other, hcounted]
  rw [← hlength]
  split
  · rename_i hsame
    have hone : (pieces find.text s.text).length - 1 = 0 := by
      have hzero : ((pieces find.text s.text).length - 1) * (replace.len - find.len) = 0 := by
        omega
      cases Nat.mul_eq_zero.mp hzero with
      | inl hnone => exact hnone
      | inr hless => omega
    have hunfound := unfound_of_one_piece hfind.text_ne_nil hone
    have hsubst := substitute_none replace.text hunfound
    constructor
    · intro _
      rw [pieces_none hunfound]
      trivial
    · intro _
      exact substituted_of_valid hs hsubst.symm hbound
  · have hok : (if (substitute find.text replace.text s.text).length > s.capacity then
        changeBuffer s mem (substitute find.text replace.text s.text).length
        else (true, s, mem)).1 = true := by
      split
      · rename_i hfull
        exact halloc hfull
      · rfl
    generalize (if _ > s.capacity then changeBuffer s mem _ else (true, s, mem)) = r
      at hbuffer hok ⊢
    have hgrown := hbuffer.1 hok
    rw [if_pos hok]
    have hpass := replaceLonger_right hfind.cstr_ne_nil hfind.len_eq
      (show replace.text.length = find.len + (replace.len - find.len) by
        rw [text_length hreplace]
        omega)
      (show 0 < replace.len - find.len by omega) (s.store.length + 1) hgrown.valid
      (Nat.le_refl _) (show r.2.1.len ≤ _ by rw [hgrown.len]; omega)
      (show s.text.length = _ by
        rw [hgrown.len, hgrown.text, cstr_of_not_mem hnul]
        omega)
    rw [hfind.cstr_eq, hgrown.text] at hpass
    change (_ → Valid _ ∧ _ = substituteRight find.text replace.text s.text) ∧
      (_ < (substituteRight find.text replace.text s.text).length → _) at hpass
    by_cases hroom : (substituteRight find.text replace.text s.text).length ≤ r.2.1.capacity
    · obtain ⟨hvalid, htext⟩ := hpass.1 hroom
      rw [← hagree]
      constructor
      · intro h
        rw [← htext]
        exact h.text
      · intro hsame
        exact substituted_of_valid hvalid (htext.trans hsame) hbound
    · have hover := hpass.2 (Nat.lt_of_not_le hroom)
      constructor
      · intro h
        rw [h.intact] at hover
        cases hover
      · intro h
        rw [hagree.mpr h] at hroom
        exact absurd hgrown.room hroom

theorem unfound_with_nul {s find : Str} (hnul : 0 ∉ s.text) (hfind : 0 ∈ find.text) :
    firstIndex find.text s.text = none := by
  cases h : firstIndex find.text s.text with
  | none => rfl
  | some i =>
    obtain ⟨hat, -, -⟩ := firstIndex_some h
    exact absurd (List.mem_of_mem_drop (hat.subset hfind)) hnul

/-- `replace` substitutes each occurrence found from the left exactly if the replacement is
not longer, or the second pass finds the occurrences of the first. A NUL in what is looked
for is harmless if the part in front of it does not occur. -/
theorem replace_substitutes (s find replace : Str) (mem : Allocations) (hs : Valid s)
    (hfind : Valid find) (hreplace : Valid replace) (hnul : 0 ∉ s.text) (hlen : find.len ≠ 0)
    (halloc : s.capacity < (substitute find.text replace.text s.text).length →
      (changeBuffer s mem (substitute find.text replace.text s.text).length).1 = true) :
    let r := (replaceString s mem (.other find) (.other replace)).1
    (0 ∉ find.text → (Substituted s find replace r ↔
      replace.len ≤ find.len ∨ Agrees find.text replace.text (pieces find.text s.text))) ∧
    (0 ∈ find.text → firstIndex (cstr find.text) s.text = none →
      Substituted s find replace r) := by
  intro r
  constructor
  · intro hfindnul
    have hsearched : Searched find := ⟨hfind, hlen, hfindnul⟩
    by_cases hempty : s.len = 0
    · have htext : s.text = [] := by
        rw [Str.text, hempty, List.take_zero]
      have hr : r = s := by
        show (replaceString s mem (.other find) (.other replace)).1 = s
        rw [replaceString, if_pos (Or.inl hempty)]
      rw [hr, htext]
      constructor
      · intro _
        exact Or.inr trivial
      · intro _
        exact ⟨by rw [htext]; rfl, Nat.le_add_right _ _, hs.fits, hs.intact⟩
    · by_cases hequal : replace.len = find.len
      · have hleaves := replaceEqual_leaves hs hsearched hreplace hequal
        have hsize := substitute_not_longer hs hsearched hreplace (Nat.le_of_eq hequal)
        have hr := congrArg Prod.fst
          (replaceString_equal (.other find) (.other replace) hempty hlen mem hequal)
        rw [show r = _ from hr]
        exact ⟨fun _ => Or.inl (Nat.le_of_eq hequal),
          fun _ => substituted_of_valid hleaves.1 (hleaves.2 hnul) hsize⟩
      · by_cases hshorter : replace.len < find.len
        · have hleaves := replaceShorter_leaves hs hnul hsearched hreplace hshorter
          have hsize := substitute_not_longer hs hsearched hreplace (Nat.le_of_lt hshorter)
          have hr := congrArg Prod.fst
            (replaceString_shorter (.other find) (.other replace) hempty hlen mem hshorter)
          rw [show r = _ from hr]
          exact ⟨fun _ => Or.inl (Nat.le_of_lt hshorter),
            fun _ => substituted_of_valid hleaves.1 hleaves.2 hsize⟩
        · have hgrow : find.len < replace.len := by omega
          have hiff := replaceGrowing_iff hs hnul hsearched hreplace hgrow mem halloc
          have hr := congrArg Prod.fst
            (replaceString_growing (.other find) (.other replace) hempty hlen mem hgrow)
          rw [show r = (replaceGrowing s mem _ _ (replace.len - find.len)).1 from hr, hiff]
          exact ⟨Or.inr, fun h => h.resolve_left (by omega)⟩
  · intro hfindnul hfront
    have hr : r = s := by
      show (replaceString s mem (.other find) (.other replace)).1 = s
      rw [replaceString_unfound hs hfind (by rw [cstr_of_not_mem hnul]; exact hfront)]
    rw [hr]
    refine ⟨?_, Nat.le_add_right _ _, hs.fits, hs.intact⟩
    rw [substitute_none _ (unfound_with_nul hnul hfindnul)]

theorem replace_substitutes_longer :
    let s := (copy .init [] [97, 45, 98, 45]).1
    let find := (copy .init [] [45]).1
    let replace := (copy .init [] [32, 116, 111, 32]).1
    Substituted s find replace (replaceString s [] (.other find) (.other replace)).1 := by
  intro s find replace
  have hs : Valid s := ⟨⟨by decide, by decide, by decide⟩, by decide, by decide⟩
  have hfind : Valid find := ⟨⟨by decide, by decide, by decide⟩, by decide, by decide⟩
  have hreplace : Valid replace := ⟨⟨by decide, by decide, by decide⟩, by decide, by decide⟩
  have hsubst := replace_substitutes s find replace [] hs hfind hreplace (by decide) (by decide)
    (by decide)
  exact (hsubst.1 (by decide)).mpr (Or.inr (by decide))

theorem replace_passes_disagree :
    (let s := (copy .init [] [97, 97, 97]).1
     let find := (copy .init [] [97, 97]).1
     let replace := (copy .init [] [98, 98, 98]).1
     let r := (replaceString s [] (.other find) (.other replace)).1
     0 ∉ s.text ∧ substitute find.text replace.text s.text = [98, 98, 98, 97] ∧
       r.text = [97, 98, 98, 98]) ∧
    (let s := (copy .init [] [122, 122, 122, 122, 97, 98, 97, 98, 97]).1
     let find := (copy .init [] [97, 98, 97]).1
     let replace := (copy .init [] [97, 120, 120, 120]).1
     let r := (replaceString s [] (.other find) (.other replace)).1
     0 ∉ s.text ∧ r.capacity < r.len ∧ r.overrun = true) := by
  decide

end Esp8266.WString
