import Esp8266.Library.Ctype
import Esp8266.Web.Text

/-! `_parseArguments` of the web server, and the items it splits a query string into. -/
namespace Esp8266.Web
open Esp8266.Ctype

structure RequestArgument where
  key : List UInt8
  value : List UInt8
  deriving DecidableEq

structure Item where
  equal_index : Int
  pos : Nat
  key_end_pos : Int
  next_index : Int

def urlDecode : List UInt8 → List UInt8
  | [] => []
  | 37 :: first :: second :: rest =>
    UInt8.ofInt (strtol16 [48, 120, first, second]) :: urlDecode rest
  | encodedChar :: rest => (if encodedChar = 43 then 32 else encodedChar) :: urlDecode rest

def storeArgHandler (data : List UInt8) (item : Item) (arg : RequestArgument) : RequestArgument :=
  { key := urlDecode (substring data item.pos (unsigned item.key_end_pos)),
    value :=
      if item.equal_index ≠ -1 && (item.equal_index < item.next_index - 1 || item.next_index = -1)
      then urlDecode (substring data (unsigned (item.equal_index + 1)) (unsigned item.next_index))
      else arg.value }

def nullArgHandler (_data : List UInt8) (_item : Item) (arg : RequestArgument) :
    RequestArgument := arg

def isSeparator (c : UInt8) : Bool := c = 38 || c = 59

def skipEmpty : List UInt8 → Nat → Nat
  | [], pos => pos
  | c :: rest, pos => if isSeparator c then skipEmpty rest (pos + 1) else pos

def earlier (next_index next_index2 : Int) : Int :=
  if next_index = -1 || (next_index2 ≠ -1 && next_index2 < next_index) then next_index2
  else next_index

def locate (data : List UInt8) (pos : Nat) : Item :=
  let equal_index := indexOf data 61 pos
  let next_index := earlier (indexOf data 38 pos) (indexOf data 59 pos)
  let key_end_pos :=
    if equal_index = -1 || (equal_index > next_index && next_index ≠ -1) then next_index
    else equal_index
  let key_end_pos := if key_end_pos = -1 then (data.length : Int) else key_end_pos
  ⟨equal_index, pos, key_end_pos, next_index⟩

def parseLoop (data : List UInt8)
    (handler : List UInt8 → Item → RequestArgument → RequestArgument) :
    Nat → Nat → Nat → (Nat → RequestArgument) → List Nat →
      Option (Nat × (Nat → RequestArgument) × List Nat)
  | 0, _, _, _, _ => none
  | fuel + 1, pos, arg_total, args, stores =>
    let item := locate data (skipEmpty (data.drop pos) pos)
    if item.pos < item.key_end_pos then
      let args := fun i => if i = arg_total then handler data item (args i) else args i
      if item.next_index = -1 then some (arg_total + 1, args, stores ++ [arg_total])
      else parseLoop data handler fuel (unsigned (item.next_index + 1)) (arg_total + 1) args
        (stores ++ [arg_total])
    else if item.next_index = -1 then some (arg_total, args, stores)
    else parseLoop data handler fuel item.pos arg_total args stores

def parseArgumentsPrivate (data : List UInt8)
    (handler : List UInt8 → Item → RequestArgument → RequestArgument) (fuel : Nat)
    (args : Nat → RequestArgument) : Option (Nat × (Nat → RequestArgument) × List Nat) :=
  parseLoop data handler fuel 0 0 args []

def newArgument : RequestArgument := ⟨[], []⟩

/-- `_parseArguments`: `_currentArgCount` and the elements of `_currentArgs`, one more for the
plain body; before the first pass they are whatever they were. -/
def parseArguments (data : List UInt8) (fuel : Nat) (old : Nat → RequestArgument) :
    Option (Nat × List RequestArgument) := do
  let counted ← parseArgumentsPrivate data nullArgHandler fuel old
  let stored ← parseArgumentsPrivate data storeArgHandler fuel (fun _ => newArgument)
  return (counted.1, (List.range (counted.1 + 1)).map stored.2.1)

theorem skipEmpty_visible (text : List UInt8) (pos : Nat) :
    skipEmpty text pos = pos + ((visible text).takeWhile isSeparator).length := by
  induction text generalizing pos with
  | nil => rfl
  | cons c rest ih =>
    rw [skipEmpty, visible_cons]
    by_cases hc : c = 0
    · subst hc
      rfl
    · rw [if_neg hc, List.takeWhile_cons]
      cases isSeparator c with
      | false => rfl
      | true =>
        rw [if_pos rfl, if_pos rfl, ih, List.length_cons]
        omega

theorem findIdx?_isSeparator (text : List UInt8) :
    text.findIdx? isSeparator =
      match text.findIdx? (· = 38), text.findIdx? (· = 59) with
      | none, second => second
      | first, none => first
      | some first, some second => some (min first second) := by
  induction text with
  | nil => rfl
  | cons c rest ih =>
    rw [List.findIdx?_cons, List.findIdx?_cons, List.findIdx?_cons, ih]
    by_cases hand : c = 38
    · subst hand
      cases rest.findIdx? (· = 59) <;> rfl
    · by_cases hsemi : c = 59
      · subst hsemi
        cases rest.findIdx? (· = 38) <;> rfl
      · have hother : isSeparator c = false := by simp [isSeparator, hand, hsemi]
        rw [hother]
        simp only [hand, hsemi, decide_false, Bool.false_eq_true, if_false]
        cases rest.findIdx? (· = 38) with
        | none => rfl
        | some first =>
          cases rest.findIdx? (· = 59) with
          | none => rfl
          | some second => simp [Nat.add_min_add_right]

theorem earlier_toIndex (pos : Nat) (first second : Option Nat) :
    earlier (toIndex pos first) (toIndex pos second) =
      toIndex pos (match first, second with
        | none, second => second
        | first, none => first
        | some first, some second => some (min first second)) := by
  unfold earlier
  cases first with
  | none => simp [toIndex]
  | some first =>
    have hfirst : toIndex pos (some first) ≠ -1 := by
      show (pos : Int) + first ≠ -1
      omega
    cases second with
    | none =>
      have hsecond : toIndex pos none = -1 := rfl
      rw [if_neg (by simp [hfirst, hsecond])]
    | some second =>
      have hsecond : toIndex pos (some second) ≠ -1 := by
        show (pos : Int) + second ≠ -1
        omega
      simp only [hfirst, hsecond, decide_false, Bool.false_or, ne_eq, not_false_eq_true,
        decide_true, Bool.true_and, decide_eq_true_eq]
      have hless : toIndex pos (some second) < toIndex pos (some first) ↔ second < first := by
        show (pos : Int) + second < pos + first ↔ _
        omega
      by_cases hle : first ≤ second
      · rw [if_neg (by omega), Nat.min_eq_left hle]
      · rw [if_pos (by omega), Nat.min_eq_right (by omega)]

variable {text : List UInt8} {pos : Nat}

theorem locate_equal (hpos : pos ≤ (visible text).length) :
    (locate text pos).equal_index =
      toIndex pos (((visible text).drop pos).findIdx? (· = 61)) :=
  indexOf_visible text 61 (by decide) pos hpos

theorem locate_next (hpos : pos ≤ (visible text).length) :
    (locate text pos).next_index =
      toIndex pos (((visible text).drop pos).findIdx? isSeparator) := by
  show earlier (indexOf text 38 pos) (indexOf text 59 pos) = _
  rw [indexOf_visible text 38 (by decide) pos hpos, indexOf_visible text 59 (by decide) pos hpos,
    earlier_toIndex, ← findIdx?_isSeparator]

theorem locate_key_end : (locate text pos).key_end_pos =
    let key_end_pos :=
      if (locate text pos).equal_index = -1 ||
          ((locate text pos).equal_index > (locate text pos).next_index &&
            (locate text pos).next_index ≠ -1) then (locate text pos).next_index
      else (locate text pos).equal_index
    if key_end_pos = -1 then (text.length : Int) else key_end_pos := rfl

theorem locate_visits (hpos : pos ≤ (visible text).length) {c : UInt8} {rest : List UInt8}
    (hdrop : (visible text).drop pos = c :: rest) (hfirst : isSeparator c = false)
    (hsome : ∃ s ∈ rest, isSeparator s = true) :
    ((locate text pos).pos : Int) < (locate text pos).key_end_pos ↔ c ≠ 61 := by
  have hequal := locate_equal hpos
  have hnext := locate_next hpos
  have hlater : ∃ next, rest.findIdx? isSeparator = some next := by
    obtain ⟨s, hmem, hs⟩ := hsome
    exact Option.isSome_iff_exists.mp (by
      rw [List.findIdx?_isSome, List.any_eq_true]
      exact ⟨s, hmem, hs⟩)
  obtain ⟨next, hlater⟩ := hlater
  rw [hdrop, List.findIdx?_cons, hfirst, hlater] at hnext
  rw [hdrop, List.findIdx?_cons] at hequal
  have hnext' : (locate text pos).next_index = pos + next + 1 := by
    rw [hnext]
    show (pos : Int) + (next + 1 : Nat) = _
    omega
  have hitem : (locate text pos).pos = pos := rfl
  rw [locate_key_end, hnext', hitem]
  by_cases hc : c = 61
  · have hhere : (locate text pos).equal_index = pos := by
      rw [hequal, if_pos (by simpa using hc)]
      show (pos : Int) + (0 : Nat) = pos
      omega
    rw [hhere]
    have hneither : ((pos : Int) = -1 || ((pos : Int) > pos + next + 1 &&
        (pos : Int) + next + 1 ≠ -1)) = false := by
      simp only [Bool.or_eq_false_iff, Bool.and_eq_false_iff, decide_eq_false_iff_not]
      omega
    simp only [hneither, Bool.false_eq_true, if_false]
    rw [if_neg (by omega)]
    simp [hc]
  · have hequal' : (locate text pos).equal_index = -1 ∨
        (pos : Int) < (locate text pos).equal_index := by
      rw [hequal, if_neg (by simpa using hc)]
      cases rest.findIdx? (· = 61) with
      | none => exact Or.inl rfl
      | some i =>
        right
        show (pos : Int) < pos + (i + 1 : Nat)
        omega
    generalize (locate text pos).equal_index = equal_index at hequal'
    refine iff_of_true ?_ hc
    simp only [Bool.or_eq_true, Bool.and_eq_true, decide_eq_true_eq]
    split <;> split <;> omega

def AtItem (text : List UInt8) (pos : Nat) : Prop :=
  pos = 0 ∨ ∃ s, text[pos - 1]? = some s ∧ isSeparator s = true

theorem skipEmpty_spec (hpos : pos ≤ (visible text).length) (hitem : AtItem (visible text) pos) :
    let start := skipEmpty (text.drop pos) pos
    pos ≤ start ∧ start ≤ (visible text).length ∧ AtItem (visible text) start ∧
      (visible text).drop start = ((visible text).drop pos).dropWhile isSeparator ∧
      ∀ i s, pos ≤ i → i < start → (visible text)[i]? = some s → isSeparator s = true := by
  simp only [skipEmpty_visible, visible_drop text pos hpos]
  generalize visible text = shown at hpos hitem ⊢
  generalize hskipped : (shown.drop pos).takeWhile isSeparator = skipped
  have hsplit : shown.drop pos = skipped ++ (shown.drop pos).dropWhile isSeparator := by
    rw [← hskipped, List.takeWhile_append_dropWhile]
  have hall : ∀ s ∈ skipped, isSeparator s = true := by
    rw [← hskipped]
    exact List.all_eq_true.mp List.all_takeWhile
  have hfits : pos + skipped.length ≤ shown.length := by
    have hlength := congrArg List.length hsplit
    rw [List.length_drop, List.length_append] at hlength
    omega
  have hskip : ∀ i s, pos ≤ i → i < pos + skipped.length → shown[i]? = some s →
      isSeparator s = true := by
    intro i s hle hlt hs
    have hat : (shown.drop pos)[i - pos]? = some s := by
      rw [List.getElem?_drop, show pos + (i - pos) = i by omega, hs]
    rw [hsplit, List.getElem?_append_left (by omega)] at hat
    exact hall s (List.mem_of_getElem? hat)
  refine ⟨Nat.le_add_right _ _, hfits, ?_, ?_, hskip⟩
  · by_cases hnone : skipped.length = 0
    · rw [hnone]
      exact hitem
    · right
      have hlast : pos + skipped.length - 1 < shown.length := by omega
      exact ⟨_, List.getElem?_eq_getElem hlast,
        hskip _ _ (by omega) (by omega) (List.getElem?_eq_getElem hlast)⟩
  · rw [← List.drop_drop]
    conv => lhs; rw [hsplit]
    rw [List.drop_left]

variable {handler : List UInt8 → Item → RequestArgument → RequestArgument}
variable {fuel arg_total : Nat} {args : Nat → RequestArgument} {stores : List Nat}

theorem parseLoop_round (hshort : text.length < 2 ^ 31) (hpos : pos ≤ (visible text).length)
    (hitem : AtItem (visible text) pos) :
    let start := skipEmpty (text.drop pos) pos
    (∀ i s, start ≤ i → (visible text)[i]? = some s → isSeparator s = false) ∧
        (locate text start).next_index = -1 ∨
    (∃ next s, start ≤ next ∧ (visible text)[next]? = some s ∧ isSeparator s = true ∧
      (∀ i s, start ≤ i → i < next → (visible text)[i]? = some s → isSeparator s = false) ∧
      (((visible text)[start]? ≠ some 61 ∧
          ((locate text start).pos : Int) < (locate text start).key_end_pos ∧
          (locate text start).next_index ≠ -1 ∧
          unsigned ((locate text start).next_index + 1) = next + 1) ∨
        ((visible text)[start]? = some 61 ∧ start < next ∧
          ¬ ((locate text start).pos : Int) < (locate text start).key_end_pos ∧
          (locate text start).next_index ≠ -1))) := by
  obtain ⟨-, hstart, -, hdrop, -⟩ := skipEmpty_spec hpos hitem
  generalize skipEmpty (text.drop pos) pos = start at hstart hdrop ⊢
  have hlength := visible_length_le text
  have hnext := locate_next hstart
  cases hfind : ((visible text).drop start).findIdx? isSeparator with
  | none =>
    left
    rw [hfind] at hnext
    refine ⟨fun i s hi hs => ?_, hnext⟩
    apply List.findIdx?_eq_none_iff.mp hfind
    apply List.mem_of_getElem? (i := i - start)
    rw [List.getElem?_drop, show start + (i - start) = i by omega, hs]
  | some k =>
    right
    rw [hfind] at hnext
    obtain ⟨hk, hfound, hbefore⟩ := List.findIdx?_eq_some_iff_getElem.mp hfind
    obtain ⟨sep, hat, hsep⟩ : ∃ sep, ((visible text).drop start)[k]? = some sep ∧
        isSeparator sep = true := ⟨_, List.getElem?_eq_getElem hk, hfound⟩
    have hlast : (visible text)[start + k]? = some sep := by
      rw [← List.getElem?_drop, hat]
    have hinner : ∀ i s, start ≤ i → i < start + k → (visible text)[i]? = some s →
        isSeparator s = false := by
      intro i s hi hlt hs
      have hat : ((visible text).drop start)[i - start]? = some s := by
        rw [List.getElem?_drop, show start + (i - start) = i by omega, hs]
      obtain ⟨hin, hvalue⟩ := List.getElem?_eq_some_iff.mp hat
      have hno := hbefore (i - start) (by omega)
      rw [hvalue] at hno
      simpa using hno
    have hwithin : start + k < (visible text).length := by
      rw [List.length_drop] at hk
      omega
    have hnext' : (locate text start).next_index = (start + k : Nat) := by
      rw [hnext]
      show (start : Int) + k = _
      omega
    have hsome : (locate text start).next_index ≠ -1 := by omega
    have hafter : unsigned ((locate text start).next_index + 1) = start + k + 1 := by
      unfold unsigned
      rw [hnext']
      omega
    refine ⟨start + k, _, Nat.le_add_right _ _, hlast, hsep, hinner, ?_⟩
    cases hrest : (visible text).drop start with
    | nil => simp [hrest] at hk
    | cons c rest =>
      have hfirst : isSeparator c = false := by
        have hhead := List.head?_dropWhile_not isSeparator ((visible text).drop pos)
        rw [← hdrop, hrest] at hhead
        exact hhead
      have hc : (visible text)[start]? = some c := by
        have hzero := congrArg List.head? hrest
        rw [List.head?_drop] at hzero
        exact hzero
      have hpositive : 0 < k := by
        apply Nat.pos_of_ne_zero
        intro hzero
        subst hzero
        rw [Nat.add_zero, hc] at hlast
        rw [← Option.some.inj hlast, hfirst] at hsep
        exact absurd hsep (by decide)
      have hlater : ∃ s ∈ rest, isSeparator s = true := by
        refine ⟨_, List.mem_of_getElem? (i := k - 1) ?_, hsep⟩
        rw [hrest, show k = k - 1 + 1 by omega, List.getElem?_cons_succ] at hat
        exact hat
      have hvisits := locate_visits hstart hrest hfirst hlater
      by_cases hequal : c = 61
      · right
        exact ⟨by rw [hc, hequal], by omega, fun h => hvisits.mp h hequal, hsome⟩
      · left
        exact ⟨by rw [hc]; simpa using hequal, hvisits.mpr hequal, hsome, hafter⟩

def LeadingEqual (text : List UInt8) : Prop :=
  ∃ p q s, p < q ∧ text[p]? = some 61 ∧ AtItem text p ∧ text[q]? = some s ∧ isSeparator s = true

theorem parseLoop_stuck (handler : List UInt8 → Item → RequestArgument → RequestArgument)
    (fuel arg_total : Nat) (args : Nat → RequestArgument) (stores : List Nat)
    (hshort : text.length < 2 ^ 31) {p q : Nat} {s : UInt8} (hpq : p < q)
    (hequal : (visible text)[p]? = some 61) (hp : AtItem (visible text) p)
    (hq : (visible text)[q]? = some s) (hs : isSeparator s = true) (hle : pos ≤ p)
    (hitem : AtItem (visible text) pos) :
    parseLoop text handler fuel pos arg_total args stores = none := by
  have hwithin : p < (visible text).length := (List.getElem?_eq_some_iff.mp hequal).1
  induction fuel generalizing pos arg_total args stores with
  | zero => rfl
  | succ fuel ih =>
    have hpos : pos ≤ (visible text).length := by omega
    obtain ⟨-, hstart, hat, -, hskip⟩ := skipEmpty_spec hpos hitem
    have hround := parseLoop_round hshort hpos hitem
    have hstartle : skipEmpty (text.drop pos) pos ≤ p := by
      apply Nat.le_of_not_lt
      intro hlt
      exact absurd (hskip p 61 hle hlt hequal) (by decide)
    rw [parseLoop]
    generalize skipEmpty (text.drop pos) pos = start at *
    rcases hround with ⟨hnone, -⟩ | ⟨next, sep, hnextle, hsep, hissep, hfirst, hcase⟩
    · rw [hnone q s (by omega) hq] at hs
      exact absurd hs (by decide)
    · rcases hcase with ⟨hnot, hvisit, hsome, hafter⟩ | ⟨-, -, hstay, hsome⟩
      · simp only [hvisit, hsome, hafter, if_true, if_false]
        have hitem' : AtItem (visible text) (next + 1) := Or.inr ⟨sep, hsep, hissep⟩
        have hbefore : next + 1 ≤ p := by
          rcases hp with hzero | ⟨b, hb, hbsep⟩
          · have hsame : start = p := by omega
            rw [hsame] at hnot
            exact absurd hequal hnot
          · have hne : start ≠ p := by
              intro hsame
              rw [hsame] at hnot
              exact hnot hequal
            apply Nat.le_of_not_lt
            intro hlt
            rw [hfirst (p - 1) b (by omega) (by omega) hb] at hbsep
            exact absurd hbsep (by decide)
        exact ih _ _ _ hbefore hitem'
      · simp only [hstay, hsome, if_false]
        exact ih _ _ _ hstartle hat

theorem parseLoop_ends (hshort : text.length < 2 ^ 31) (h : ¬ LeadingEqual (visible text))
    (hpos : pos ≤ (visible text).length) (hitem : AtItem (visible text) pos)
    (hfuel : (visible text).length - pos < fuel) :
    ∃ count, ∀ handler arg_total args stores, ∃ args',
      parseLoop text handler fuel pos arg_total args stores =
        some (arg_total + count, args', stores ++ List.range' arg_total count) := by
  induction fuel generalizing pos with
  | zero => exact absurd hfuel (Nat.not_lt_zero _)
  | succ fuel ih =>
    obtain ⟨hskipped, hstart, hat, -, -⟩ := skipEmpty_spec hpos hitem
    have hround := parseLoop_round hshort hpos hitem
    simp only [parseLoop]
    generalize skipEmpty (text.drop pos) pos = start at *
    rcases hround with ⟨-, hlast⟩ | ⟨next, sep, hnextle, hsep, hissep, hfirst, hcase⟩
    · by_cases hvisit : ((locate text start).pos : Int) < (locate text start).key_end_pos
      · exact ⟨1, fun _ _ _ _ => ⟨_, by simp only [hvisit, hlast, if_true]; rfl⟩⟩
      · refine ⟨0, fun _ _ args _ => ⟨args, ?_⟩⟩
        simp only [hvisit, hlast, if_true, if_false, List.range'_zero, List.append_nil,
          Nat.add_zero]
    · rcases hcase with ⟨-, hvisit, hsome, hafter⟩ | ⟨hequal, hlt, -, -⟩
      · have hwithin : next < (visible text).length := (List.getElem?_eq_some_iff.mp hsep).1
        have hitem' : AtItem (visible text) (next + 1) := Or.inr ⟨sep, hsep, hissep⟩
        obtain ⟨count, hrest⟩ := ih (Nat.succ_le_of_lt hwithin) hitem' (by omega)
        refine ⟨count + 1, fun handler arg_total args stores => ?_⟩
        obtain ⟨args', hargs⟩ := hrest handler (arg_total + 1) (fun i => if i = arg_total then
          handler text (locate text start) (args i) else args i) (stores ++ [arg_total])
        refine ⟨args', ?_⟩
        simp only [hvisit, hsome, hafter, if_true, if_false, hargs, List.append_assoc,
          List.singleton_append, ← List.range'_succ, Nat.add_assoc, Nat.add_comm 1]
      · exact absurd ⟨start, next, sep, hlt, hequal, hat, hsep, hissep⟩ h

def PassesAgree (data : List UInt8) : Prop :=
  ∃ fuel, ∀ old, ∃ count args args' stores stores',
    parseArgumentsPrivate data nullArgHandler fuel old = some (count, args, stores) ∧
    parseArgumentsPrivate data storeArgHandler fuel (fun _ => newArgument) =
      some (count, args', stores') ∧
    ∀ i ∈ stores', i < count

/-- The passes end and agree unless there is an `=` at the start of an item that is not the
last one. -/
theorem passesAgree_iff (data : Text) :
    PassesAgree data.bytes ↔ ¬ LeadingEqual (visible data.bytes) := by
  constructor
  · rintro ⟨fuel, hpasses⟩ ⟨p, q, s, hpq, hequal, hp, hq, hs⟩
    obtain ⟨_, _, _, _, _, hcounted, -, -⟩ := hpasses (fun _ => newArgument)
    have hstuck := parseLoop_stuck nullArgHandler fuel 0 (fun _ => newArgument) [] data.short hpq
      hequal hp hq hs (Nat.zero_le p) (Or.inl rfl)
    rw [parseArgumentsPrivate, hstuck] at hcounted
    exact absurd hcounted (by simp)
  · intro hleading
    obtain ⟨count, hrun⟩ := parseLoop_ends data.short hleading (Nat.zero_le _) (Or.inl rfl)
      (Nat.lt_succ_self ((visible data.bytes).length - 0))
    refine ⟨(visible data.bytes).length - 0 + 1, fun old => ?_⟩
    obtain ⟨args, hcounted⟩ := hrun nullArgHandler 0 old []
    obtain ⟨args', hstored⟩ := hrun storeArgHandler 0 (fun _ => newArgument) []
    rw [Nat.zero_add] at hcounted hstored
    refine ⟨count, args, args', _, _, hcounted, hstored, ?_⟩
    intro i hi
    rw [List.nil_append, List.mem_range'_1] at hi
    omega

def leadingEqual : Text := ⟨[61, 97, 38, 98], by decide⟩

theorem leadingEqual_hangs : ¬ PassesAgree leadingEqual.bytes := by
  rintro ⟨fuel, hpasses⟩
  obtain ⟨_, _, _, _, _, hcounted, -, -⟩ := hpasses (fun _ => newArgument)
  have hstuck : ∀ fuel, parseLoop leadingEqual.bytes nullArgHandler fuel 0 0
      (fun _ => newArgument) [] = none := by
    intro fuel
    induction fuel with
    | zero => rfl
    | succ fuel ih => exact ih
  rw [parseArgumentsPrivate, hstuck] at hcounted
  exact absurd hcounted (by simp)

end Esp8266.Web

/-! The arguments of the current request and the accessors that search them. -/
namespace Esp8266.Web

structure CurrentArgs where
  currentArgs : Option (List RequestArgument)
  currentArgCount : Nat
  currentArgsHavePlain : Nat

namespace CurrentArgs

def elements (s : CurrentArgs) : List RequestArgument := s.currentArgs.getD []

def visited (s : CurrentArgs) : Nat := s.currentArgCount + s.currentArgsHavePlain

/-- The loop of `arg(name)` and `hasArg` over the indices below `limit`, none outside of the
array. -/
def find (elements : List RequestArgument) (name : List UInt8) :
    (remaining i : Nat) → Option (Option RequestArgument)
  | 0, _ => some none
  | remaining + 1, i =>
    match elements[i]? with
    | none => none
    | some arg => if equals arg.key name then some (some arg) else find elements name remaining (i + 1)

/-- `arg(name)`, none if it reads outside of the array -/
def arg (s : CurrentArgs) (name : List UInt8) : Option (List UInt8) :=
  (find s.elements name s.visited 0).map fun found => (found.map RequestArgument.value).getD []

def hasArg (s : CurrentArgs) (name : List UInt8) : Option Bool :=
  (find s.elements name s.visited 0).map Option.isSome

def argAt (s : CurrentArgs) (field : RequestArgument → List UInt8) (i : Int) :
    Option (List UInt8) :=
  if 0 ≤ i && i < s.visited then s.elements[i.toNat]?.map field else some []

def argValue (s : CurrentArgs) (i : Int) : Option (List UInt8) := s.argAt RequestArgument.value i

def argName (s : CurrentArgs) (i : Int) : Option (List UInt8) := s.argAt RequestArgument.key i

def Inside (s : CurrentArgs) : Prop := s.visited ≤ s.elements.length

theorem find_isSome (elements : List RequestArgument) (name : List UInt8) (remaining i : Nat)
    (h : i + remaining ≤ elements.length) :
    ∃ found, find elements name remaining i = some found ∧
      ∀ arg, found = some arg → ∃ j, i ≤ j ∧ j < i + remaining ∧ elements[j]? = some arg ∧
        equals arg.key name = true := by
  induction remaining generalizing i with
  | zero => exact ⟨none, rfl, by simp⟩
  | succ remaining ih =>
    have hin : elements[i]? = some elements[i] := List.getElem?_eq_getElem (by omega)
    rw [find, hin]
    simp only []
    by_cases hname : equals elements[i].key name = true
    · rw [if_pos hname]
      refine ⟨_, rfl, ?_⟩
      intro arg harg
      rw [← Option.some.inj harg]
      exact ⟨i, Nat.le_refl i, by omega, hin, hname⟩
    · rw [if_neg hname]
      obtain ⟨found, hfound, hat⟩ := ih (i + 1) (by omega)
      refine ⟨found, hfound, fun arg harg => ?_⟩
      obtain ⟨j, hle, hlt, hj, hkey⟩ := hat arg harg
      exact ⟨j, by omega, by omega, hj, hkey⟩

end CurrentArgs

end Esp8266.Web
