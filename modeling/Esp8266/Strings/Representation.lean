import Esp8266.Strings.Operations

/-! Every operation of `String` leaves its representation intact, but for those that
`Guard` excludes; equal texts then compare equal. -/
namespace Esp8266.WString
open Esp8266.Substring Esp8266.Runs
open Esp8266.Ctype (isspace)

theorem Held.terminate_at {s : Str} (h : Held s) {n : Nat} (hlen : s.len = n)
    (hn : n ≤ s.capacity) : Valid (s.put n [0]) := by
  subst hlen
  exact h.terminate hn

theorem Held.finish {s : Str} (h : Held s) {n : Nat} (hn : n ≤ s.capacity) :
    Valid ((s.setLen n).put n [0]) :=
  (h.setLen n).terminate_at (h.len_setLen hn) hn

theorem Held.finish_put {s : Str} (h : Held s) {n start : Nat} {bytes : List UInt8}
    (hn : n ≤ s.capacity) (hfit : start + bytes.length ≤ s.capacity + 1) :
    Valid (((s.setLen n).put start bytes).put n [0]) :=
  ((h.setLen n).put hfit).terminate_at (h.len_setLen hn) hn

theorem copy_valid {s : Str} (h : Valid s) (mem : Allocations) {bytes : List UInt8}
    (hsize : bytes.length < 2 ^ 31) : Valid (copy s mem bytes).1 := by
  have hgrown := reserve_grown h mem (show bytes.length + 16 < 2 ^ 32 by omega)
  unfold copy
  simp only
  split
  · rename_i hok
    obtain ⟨hvalid, hroom, -, -⟩ := hgrown.1 hok
    exact hvalid.toHeld.finish_put hroom (by omega)
  · rename_i hfail
    rw [hgrown.2 (by simpa using hfail)]
    exact h.toHeld.invalidate

theorem concat_valid {s : Str} (h : Valid s) (mem : Allocations) {bytes : List UInt8}
    (hsize : bytes.length < 2 ^ 31) : Valid (concat s mem bytes).2.1 := by
  have hfits := h.fits
  have hlimit := h.capacity_bounds.2
  unfold capacityMax at hlimit
  have hgrown := reserve_grown h mem (show s.len + bytes.length + 16 < 2 ^ 32 by omega)
  unfold concat
  rw [Nat.mod_eq_of_lt (show s.len + bytes.length < 2 ^ 32 by omega)]
  simp only
  split
  · exact h
  · split
    · rename_i hok
      obtain ⟨hvalid, hroom, hlen, -⟩ := hgrown.1 hok
      exact (hvalid.toHeld.put (by rw [hlen]; omega)).finish hroom
    · rename_i hfail
      rw [hgrown.2 (by simpa using hfail)]
      exact h

theorem concatSelf_valid {s : Str} (h : Valid s) (mem : Allocations) :
    Valid (concatSelf s mem).2.1 := by
  have hfits := h.fits
  have hlimit := h.capacity_bounds.2
  unfold capacityMax at hlimit
  have hgrown := reserve_grown h mem (show 2 * s.len + 16 < 2 ^ 32 by omega)
  unfold concatSelf
  simp only
  split
  · exact h
  · split
    · rename_i hok
      obtain ⟨hvalid, hroom, hlen, htext⟩ := hgrown.1 hok
      exact (hvalid.toHeld.put (by rw [htext, text_length h, hlen]; omega)).finish hroom
    · rename_i hfail
      rw [hgrown.2 (by simpa using hfail)]
      exact h

theorem insert_valid {s : Str} (h : Valid s) (mem : Allocations) (position : Nat)
    {bytes : List UInt8} (hsize : bytes.length < 2 ^ 31) :
    Valid (insert s mem position bytes).1 := by
  have hfits := h.fits
  have hlimit := h.capacity_bounds.2
  unfold capacityMax at hlimit
  have hgrown := reserve_grown h mem (show s.len + bytes.length + 16 < 2 ^ 32 by omega)
  unfold insert
  rw [Nat.mod_eq_of_lt (show s.len + bytes.length < 2 ^ 32 by omega)]
  simp only
  split
  · exact h
  · rename_i hposition
    split
    · rename_i hfail
      rw [hgrown.2 hfail]
      exact h
    · rename_i hok
      obtain ⟨hvalid, hroom, hlen, -⟩ := hgrown.1 (by simpa using hok)
      have hmoved := (hvalid.toHeld.setLen ((s.len + bytes.length : Nat) : Int)).put
        (show position + bytes.length +
            ((reserve s mem (s.len + bytes.length)).2.1.store.drop position |>.take
              (s.len - position)).length ≤ _ by
          rw [List.length_take, capacity_setLen]
          omega)
      have hput := hmoved.put
        (show position + bytes.length ≤ _ by
          rw [capacity_put, capacity_setLen]
          omega)
      exact hput.terminate_at (hvalid.toHeld.len_setLen hroom) hroom

theorem mapBuffer_length (f : UInt8 → UInt8) (store : List UInt8) :
    (mapBuffer f store).length = store.length := by
  induction store with
  | nil => rfl
  | cons c rest ih =>
    unfold mapBuffer
    split
    · rfl
    · rw [List.length_cons, List.length_cons, ih]

theorem mapBuffer_nul (f : UInt8 → UInt8) {store : List UInt8} {i : Nat}
    (h : store[i]? = some 0) : (mapBuffer f store)[i]? = some 0 := by
  induction store generalizing i with
  | nil => cases h
  | cons c rest ih =>
    unfold mapBuffer
    split
    · exact h
    · rename_i hc
      cases i with
      | zero => exact absurd (by simpa using h) hc
      | succ i => exact ih (by simpa using h)

theorem mapBuffer_valid {s : Str} (h : Valid s) (f : UInt8 → UInt8) :
    Valid { s with store := mapBuffer f s.store } :=
  ⟨⟨(mapBuffer_length f s.store).trans h.storage, h.limit, h.intact⟩, h.fits,
    mapBuffer_nul f h.terminated⟩

theorem remove_valid {s : Str} (h : Valid s) (index count : Nat) :
    Valid (remove s index count) := by
  have hfits := h.fits
  unfold remove
  split
  · exact h
  · split
    · exact h
    · simp only
      generalize (if count > s.len - index then s.len - index else count) = taken
      apply h.toHeld.finish_put (by omega)
      rw [List.length_take, List.length_drop]
      omega

theorem trimEnd_le (store : List UInt8) (start last : Nat) : trimEnd store start last ≤ last := by
  induction last with
  | zero => exact Nat.le_refl 0
  | succ last ih =>
    unfold trimEnd
    split
    · omega
    · exact Nat.le_refl _

theorem trim_valid {s : Str} (h : Valid s) : Valid (trim s) := by
  have hfits := h.fits
  have hend := trimEnd_le s.store (s.store.takeWhile isspace).length s.len
  unfold trim
  split
  · exact h
  · simp only
    generalize hstart : (s.store.takeWhile isspace).length = start at hend ⊢
    have hle : trimEnd s.store start s.len - start ≤ s.capacity := by omega
    generalize trimEnd s.store start s.len - start = newlen at hle ⊢
    split
    · apply h.toHeld.finish_put hle
      rw [List.length_take]
      omega
    · exact h.toHeld.finish hle

theorem setCharAt_valid {s : Str} (h : Valid s) (loc : Nat) (c : UInt8) :
    Valid (setCharAt s loc c) := by
  have hfits := h.fits
  have hstorage := h.storage
  unfold setCharAt
  split
  · rename_i hloc
    have hfit : loc + [c].length ≤ s.capacity + 1 := by
      rw [List.length_singleton]
      omega
    refine ⟨h.toHeld.put hfit, hfits, ?_⟩
    rw [put_store (by omega), len_put, List.append_assoc, List.getElem?_append_right (by
      rw [List.length_take]
      omega), List.length_take, List.getElem?_append_right (by
      rw [List.length_singleton]
      omega), List.getElem?_drop, ← h.terminated]
    congr 1
    rw [List.length_singleton]
    omega
  · exact h

theorem ofChar_valid (c : UInt8) : Valid (ofChar c) :=
  ⟨⟨rfl, nofun, rfl⟩, show 1 ≤ 10 by decide, rfl⟩

theorem text_short {s : Str} (h : Valid s) : s.text.length < 2 ^ 31 := by
  have hfits := h.fits
  have hlimit := h.capacity_bounds.2
  unfold capacityMax at hlimit
  rw [text_length h]
  omega

theorem substring_valid {s : Str} (h : Valid s) (mem : Allocations) (left right : Nat) :
    Valid (substring s mem left right).1 := by
  have hstorage := h.storage
  have hlimit := h.capacity_bounds.2
  unfold capacityMax at hlimit
  unfold substring
  simp only
  split
  · exact valid_init
  · apply concat_valid valid_init
    rw [List.length_take, List.length_drop]
    omega

theorem reserve_valid {s : Str} (h : Valid s) (mem : Allocations) {size : Nat}
    (hsize : s.isHeap = true → size + 16 < 2 ^ 32) (hword : size < 2 ^ 32) :
    Valid (reserve s mem size).2.1 := by
  by_cases hsmall : size + 16 < 2 ^ 32
  · have hgrown := reserve_grown h mem hsmall
    cases hok : (reserve s mem size).1 with
    | true => exact (hgrown.1 hok).valid
    | false =>
      rw [hgrown.2 hok]
      exact h
  · have hinline : s.isHeap = false := by
      cases hheap : s.isHeap with
      | true => exact absurd (hsize hheap) hsmall
      | false => rfl
    have hcapacity : s.capacity = 10 := by
      rw [Str.capacity, hinline]
      rfl
    have hnone : changeBuffer s mem size = (false, s, mem) := by
      unfold changeBuffer
      rw [if_neg (by unfold ssoSize; omega)]
      simp only
      rw [show (size + 16) % 2 ^ 32 / 16 * 16 = 0 by omega, if_neg (by decide), if_pos rfl,
        hinline]
      rfl
    unfold reserve
    rw [if_neg (by omega), hnone]
    exact h

theorem plus_valid (mem : Allocations) {lhs rhs : List UInt8} (hlhs : lhs.length < 2 ^ 31)
    (hrhs : rhs.length < 2 ^ 31) : Valid (plus mem lhs rhs).1 := by
  unfold plus
  exact concat_valid (concat_valid (reserve_valid valid_init mem nofun (by omega)) _ hlhs) _ hrhs

def GrowthSafe (s find replace : Str) (mem : Allocations) : Prop :=
  countRight find.text replace.text (cstr s.text).length s.text ≤
      (pieces find.text (cstr s.text)).length - 1 ∨
    s.capacity < countedSize s find replace ∧
      (changeBuffer s mem (countedSize s find replace)).1 = false

/-- What one `String` may be asked to replace. Unless nothing is found, what is looked for
has no NUL, nor has a text that gets shorter. A text that is replaced as a whole does not
look empty then, and one that is put into itself does not grow. -/
def ReplaceSafe (w : World) (i find replace : Nat) : Prop :=
  let s := w.vars i
  let f := w.vars find
  let r := w.vars replace
  s.len = 0 ∨ f.len = 0 ∨ firstIndex (cstr f.text) (cstr s.text) = none ∨
    (0 ∉ f.text ∧
      if find = i then f.len < r.len ∨ r.text[0]? ≠ some 0
      else if replace = i then r.len = f.len
      else
        (r.len < f.len → 0 ∉ s.text) ∧ (f.len < r.len → GrowthSafe s f r w.mem))

def Guard (w : World) : Action → Prop
  | .clear i => (w.vars i).store[0]? = some 0
  | .reserve i size => (w.vars i).isHeap = true → size.toNat + 16 < 2 ^ 32
  | .replace i find replace => ReplaceSafe w i find replace
  | _ => True

theorem replaceGrowing_valid {s find replace : Str} (hs : Valid s) (hfind : Searched find)
    (hreplace : Valid replace) (hlen : find.len < replace.len) {mem : Allocations}
    (hsafe : GrowthSafe s find replace mem) :
    Valid (replaceGrowing s mem (.other find) (.other replace) (replace.len - find.len)).1 := by
  rcases hsafe with hcount | ⟨hfull, hfail⟩
  · exact replaceGrowing_leaves hs hfind hreplace hlen mem hcount
  · have hsize := (growing_size hs hfind hreplace hlen).2.1
    rw [← (growing_size hs hfind hreplace hlen).1] at hsize
    have hsame := (changeBuffer_grown hs mem hfull hsize).2 hfail
    rw [replaceGrowing_eq s mem (.other find) _ (get_other s find) (show _ = countedSize s find replace from rfl),
      if_pos hfull]
    split
    · exact hs
    · simp only [hfail, Bool.false_eq_true, ↓reduceIte, hsame]
      exact hs

theorem operand_get (w : World) (i j : Nat) : (w.operand i j).get (w.vars i) = w.vars j := by
  unfold World.operand
  split
  · rename_i hself
    rw [hself]
    rfl
  · rfl

theorem replace_found_valid {w : World} (h : ∀ i, Valid (w.vars i)) {i find replace : Nat}
    (hs : (w.vars i).len ≠ 0) (hfind : Searched (w.vars find))
    (hsafe : if find = i then
        (w.vars find).len < (w.vars replace).len ∨ (w.vars replace).text[0]? ≠ some 0
      else if replace = i then (w.vars replace).len = (w.vars find).len
      else
        ((w.vars replace).len < (w.vars find).len → 0 ∉ (w.vars i).text) ∧
          ((w.vars find).len < (w.vars replace).len →
            GrowthSafe (w.vars i) (w.vars find) (w.vars replace) w.mem)) :
    Valid (replaceString (w.vars i) w.mem (w.operand i find) (w.operand i replace)).1 := by
  have hfindget := operand_get w i find
  have hreplaceget := operand_get w i replace
  have hf : ((w.operand i find).get (w.vars i)).len ≠ 0 := by
    rw [hfindget]
    exact hfind.nonempty
  by_cases hself : find = i
  · subst hself
    rw [if_pos rfl] at hsafe
    rw [show w.operand find find = .self from if_pos rfl] at hf ⊢
    by_cases hequal : (w.vars replace).len = (w.vars find).len
    · rw [replaceString_equal .self _ hs hf w.mem (by rw [hreplaceget]; exact hequal)]
      apply replaceEqual_self hfind _ (by rw [hreplaceget]; exact h replace)
      · rw [hreplaceget, hequal]
      · rw [hreplaceget]
        exact hsafe.resolve_left (by omega)
    · have hother : w.operand find replace = .other (w.vars replace) := if_neg (by
        intro hsame
        exact hequal (by rw [hsame]))
      rw [hother]
      by_cases hless : (w.vars replace).len < (w.vars find).len
      · rw [replaceString_shorter .self (.other _) hs hf w.mem hless]
        have hstorage := (h find).storage
        have hpass := replaceShorter_self hfind (h replace) hless
          (hsafe.resolve_left (by omega)) (w.vars find).capacity
        rw [hstorage]
        exact hpass
      · have hmore : (w.vars find).len < (w.vars replace).len := by omega
        rw [replaceString_growing .self (.other _) hs hf w.mem hmore]
        exact replaceGrowing_self hfind (h replace) hmore w.mem
  · rw [if_neg hself] at hsafe
    rw [show w.operand i find = .other (w.vars find) from if_neg hself] at hf ⊢
    by_cases hinto : replace = i
    · subst hinto
      rw [if_pos rfl] at hsafe
      rw [show w.operand replace replace = .self from if_pos rfl,
        replaceString_equal (.other _) .self hs hf w.mem hsafe,
        replaceEqual_by_self (h replace) hfind hsafe]
      exact h replace
    · rw [if_neg hinto] at hsafe
      rw [show w.operand i replace = .other (w.vars replace) from if_neg hinto]
      by_cases hequal : (w.vars replace).len = (w.vars find).len
      · rw [replaceString_equal (.other _) (.other _) hs hf w.mem hequal]
        exact (replaceEqual_leaves (h i) hfind (h replace) hequal).1
      · by_cases hless : (w.vars replace).len < (w.vars find).len
        · rw [replaceString_shorter (.other _) (.other _) hs hf w.mem hless]
          exact (replaceShorter_leaves (h i) (hsafe.1 hless) hfind (h replace) hless).1
        · have hmore : (w.vars find).len < (w.vars replace).len := by omega
          rw [replaceString_growing (.other _) (.other _) hs hf w.mem hmore]
          exact replaceGrowing_valid (h i) hfind (h replace) hmore (hsafe.2 hmore)

theorem replace_valid {w : World} (h : ∀ i, Valid (w.vars i)) {i find replace : Nat}
    (hsafe : ReplaceSafe w i find replace) :
    Valid (replaceString (w.vars i) w.mem (w.operand i find) (w.operand i replace)).1 := by
  have hfindget := operand_get w i find
  by_cases hs : (w.vars i).len = 0
  · unfold replaceString
    rw [if_pos (Or.inl hs)]
    exact h i
  · by_cases hf : (w.vars find).len = 0
    · unfold replaceString
      rw [if_pos (Or.inr (by rw [hfindget]; exact hf))]
      exact h i
    · rcases hsafe with hempty | hempty | hnone | ⟨hnul, hsafe⟩
      · exact absurd hempty hs
      · exact absurd hempty hf
      · by_cases hother : find = i
        · rw [hother, firstIndex_self] at hnone
          cases hnone
        · rw [show w.operand i find = .other (w.vars find) from if_neg hother,
            replaceString_unfound (h i) (h find) hnone]
          exact h i
      · exact replace_found_valid h hs ⟨h find, hf, hnul⟩ hsafe

section Steps

variable {w : World} (h : ∀ i, Valid (w.vars i))
include h

theorem set_valid (i : Nat) {s : Str} (hs : Valid s) (k : Nat) : Valid ((w.set i s).vars k) := by
  unfold World.set
  simp only
  split
  · exact hs
  · exact h k

theorem put_valid (i : Nat) {r : Str × Allocations} (hr : Valid r.1) (k : Nat) :
    Valid ((w.put i r).vars k) :=
  set_valid h i hr k

theorem concat_keeps (i j k : Nat) : Valid ((w.concat i j).vars k) := by
  unfold World.concat
  split
  · exact put_valid h i (concatSelf_valid (h i) w.mem) k
  · exact put_valid h i (concat_valid (h i) w.mem (text_short (h j))) k

theorem clear_valid {i : Nat} (hfirst : (w.vars i).store[0]? = some 0) :
    Valid (clear (w.vars i)) := by
  have hlen := (h i).toHeld.len_setLen (Nat.zero_le _)
  refine ⟨(h i).toHeld.setLen _, ?_, ?_⟩
  · exact Nat.le_trans (Nat.le_of_eq hlen) (Nat.zero_le _)
  · rw [show (clear (w.vars i)).len = 0 from hlen]
    exact hfirst

theorem step_valid {a : Action} (hguard : Guard w a) (k : Nat) :
    Valid ((w.step a).vars k) := by
  have htext := fun i => text_short (h i)
  cases a with
  | construct i source =>
    cases source with
    | none => exact set_valid h i valid_init k
    | some source =>
      exact put_valid h i (copy_valid valid_init w.mem source.short) k
  | constructChar i c => exact set_valid h i (ofChar_valid c) k
  | copyConstruct i j => exact put_valid h i (copy_valid valid_init w.mem (htext j)) k
  | assign i j =>
    simp only [World.step]
    split
    · exact h k
    · exact put_valid h i (copy_valid (h i) w.mem (htext j)) k
  | assignMove i j =>
    simp only [World.step]
    split
    · exact h k
    · exact set_valid (set_valid h i (h j)) j valid_init k
  | assignChars i source =>
    cases source with
    | none => exact set_valid h i (h i).toHeld.invalidate k
    | some source => exact put_valid h i (copy_valid (h i) w.mem source.short) k
  | concat i j => exact concat_keeps h i j k
  | concatChars i source =>
    cases source with
    | none => exact h k
    | some source => exact put_valid h i (concat_valid (h i) w.mem source.short) k
  | reserve i size =>
    exact put_valid h i (reserve_valid (h i) w.mem hguard size.toNat_lt) k
  | clear i => exact set_valid h i (clear_valid h hguard) k
  | replaceChar i find replace => exact set_valid h i (mapBuffer_valid (h i) _) k
  | replace i find replace => exact put_valid h i (replace_valid h hguard) k
  | remove i index count => exact set_valid h i (remove_valid (h i) _ _) k
  | trim i => exact set_valid h i (trim_valid (h i)) k
  | toLowerCase i => exact set_valid h i (mapBuffer_valid (h i) _) k
  | toUpperCase i => exact set_valid h i (mapBuffer_valid (h i) _) k
  | setCharAt i loc c => exact set_valid h i (setCharAt_valid (h i) _ c) k
  | substring r i left right => exact put_valid h r (substring_valid (h i) w.mem _ _) k
  | plus r i j => exact put_valid h r (plus_valid w.mem (htext i) (htext j)) k
  | plusMoveLeft r i j =>
    have hconcat := concat_keeps h i j
    exact set_valid (set_valid hconcat i valid_init) r (hconcat i) k
  | plusMoveRight r i j =>
    simp only [World.step, World.plusMoveRight]
    split
    · exact put_valid (set_valid h j valid_init) r (insert_valid (h j) w.mem 0 (htext i)) k
    · exact put_valid (set_valid h j valid_init) r (plus_valid w.mem (htext i) (htext j)) k
  | plusMoveBoth r i j =>
    simp only [World.step, World.plusMoveBoth]
    split
    · exact put_valid (set_valid h j valid_init) r (insert_valid (h j) w.mem 0 (htext i)) k
    · have hconcat := set_valid (concat_keeps h i j) j valid_init
      exact set_valid (set_valid hconcat i valid_init) r (hconcat i) k
  | prepend r source j => exact put_valid h r (plus_valid w.mem source.short (htext j)) k
  | prependMove r source j =>
    exact put_valid (set_valid h j valid_init) r (insert_valid (h j) w.mem 0 source.short) k
  | append r i source =>
    exact put_valid h r
      (concat_valid (copy_valid valid_init w.mem (htext i)) _ source.short) k
  | appendMove r i source =>
    exact put_valid (set_valid h i valid_init) r (concat_valid (h i) w.mem source.short) k

end Steps

theorem strcmp_self (bytes : List UInt8) : strcmp bytes bytes = 0 := by
  induction bytes with
  | nil => rfl
  | cons c rest ih =>
    unfold strcmp
    rw [if_pos rfl]
    exact ih

theorem equals_of_text {s t : Str} (hs : Valid s) (ht : Valid t) (htext : s.text = t.text) :
    equals s t = true := by
  have hlen : s.len = t.len := by
    rw [← text_length hs, htext, text_length ht]
  unfold equals compareTo
  rw [hs.cstr_eq, ht.cstr_eq, htext, strcmp_self, hlen]
  simp

def program : Machine World Action Unit := ⟨fun w a => (w.step a, ())⟩

def World.start (mem : Allocations) : World := ⟨fun _ => .init, mem⟩

/-- In every guarded run every String keeps its length within its capacity, its capacity
within its storage, and a NUL behind its text; and equal texts compare equal. -/
theorem strings_keep_representation (mem : Allocations) (actions : List Action)
    (along : program.Along Guard (.start mem) actions) :
    let w := (program.run (.start mem) actions).1
    (∀ i, (w.vars i).len ≤ (w.vars i).capacity ∧
      (w.vars i).capacity + 1 ≤ (w.vars i).store.length ∧
      (w.vars i).store[(w.vars i).len]? = some 0 ∧ (w.vars i).overrun = false) ∧
    ∀ i j, (w.vars i).text = (w.vars j).text → (w.vars i).len = (w.vars j).len →
      equals (w.vars i) (w.vars j) = true := by
  intro w
  have hvalid : ∀ i, Valid (w.vars i) :=
    program.run_invariant Guard (fun w => ∀ i, Valid (w.vars i))
      (fun _ _ h hguard k => step_valid h hguard k) _ actions (fun _ => valid_init) along
  constructor
  · intro i
    exact ⟨(hvalid i).fits, Nat.le_of_eq (hvalid i).storage.symm, (hvalid i).terminated,
      (hvalid i).intact⟩
  · intro i j htext _
    exact equals_of_text (hvalid i) (hvalid j) htext

theorem strings_keep_representation_replace :
    let w := (program.run (.start []) [.construct 0 (some ⟨[97, 98], by decide⟩),
      .constructChar 1 99, .plus 2 0 1, .replace 2 0 1, .clear 3]).1
    (w.vars 2).store[(w.vars 2).len]? = some 0 ∧ equals (w.vars 3) (w.vars 4) = true := by
  have hkeep := strings_keep_representation [] [.construct 0 (some ⟨[97, 98], by decide⟩),
    .constructChar 1 99, .plus 2 0 1, .replace 2 0 1, .clear 3]
    ⟨trivial, trivial, trivial, Or.inr (Or.inr (Or.inr ⟨by decide, fun _ => by decide,
      fun hmore => absurd hmore (by decide)⟩)), rfl, trivial⟩
  exact ⟨(hkeep.1 2).2.2.1, hkeep.2 3 4 (by decide) (by decide)⟩

theorem clear_leaves_no_nul :
    (let w := (program.run (.start []) [.construct 0 (some ⟨[97, 98, 99], by decide⟩),
      .clear 0]).1
     (w.vars 0).store[(w.vars 0).len]? = some 97 ∧ (w.vars 0).text = (w.vars 1).text ∧
       (w.vars 0).len = (w.vars 1).len ∧ equals (w.vars 0) (w.vars 1) = false) ∧
    (let w := (program.run (.start []) [.reserve 0 20, .reserve 0 0xFFFFFFF0]).1
     (w.vars 0).store = [] ∧ (w.vars 0).capacity = 31) := by
  decide

end Esp8266.WString
