import Esp8266.Web.Arguments

/-! Percent-encoded forms, and that `_parseArguments` reads them back. -/
namespace Esp8266.Web
open Esp8266.Ctype

inductive EncodesByte : UInt8 → List UInt8 → Prop
  | literal (c : UInt8) (h : isalnum c = true) : EncodesByte c [c]
  | percent (c first second : UInt8) (hfirst : digitValue first = some (c.toNat / 16))
      (hsecond : digitValue second = some (c.toNat % 16)) : EncodesByte c [37, first, second]
  | plus : EncodesByte 32 [43]

inductive Encodes : List UInt8 → List UInt8 → Prop
  | nil : Encodes [] []
  | cons {c : UInt8} {bytes text rest : List UInt8} (first : EncodesByte c text)
      (others : Encodes bytes rest) : Encodes (c :: bytes) (text ++ rest)

/-- An item; the `=` of an empty value may be missing. -/
inductive EncodesItem : RequestArgument → List UInt8 → Prop
  | pair {key value k v : List UInt8} (hkey : Encodes key k) (hvalue : Encodes value v) :
      EncodesItem ⟨key, value⟩ (k ++ 61 :: v)
  | bare {key k : List UInt8} (hkey : Encodes key k) : EncodesItem ⟨key, []⟩ k

inductive EncodesForm : List RequestArgument → List UInt8 → Prop
  | nil : EncodesForm [] []
  | single {arg : RequestArgument} {text : List UInt8} (item : EncodesItem arg text) :
      EncodesForm [arg] text
  | cons {arg next : RequestArgument} {args : List RequestArgument} {text rest : List UInt8}
      {separator : UInt8} (item : EncodesItem arg text) (hsep : isSeparator separator = true)
      (others : EncodesForm (next :: args) rest) :
      EncodesForm (arg :: next :: args) (text ++ separator :: rest)

def isPlain (c : UInt8) : Bool := isalnum c || c = 37 || c = 43

theorem digitValue_isalnum {c : UInt8} {d : Nat} (h : digitValue c = some d) :
    isalnum c = true := by
  unfold digitValue at h
  unfold isalnum
  split at h
  · simp_all
  · split at h
    · simp_all
    · split at h
      · simp_all
      · cases h

theorem isPlain_not {c : UInt8} (h : isPlain c = true) :
    c ≠ 0 ∧ c ≠ 61 ∧ isSeparator c = false := by
  refine ⟨?_, ?_, ?_⟩
  · rintro rfl
    exact absurd h (by decide)
  · rintro rfl
    exact absurd h (by decide)
  · cases hsep : isSeparator c with
    | false => rfl
    | true =>
      unfold isSeparator at hsep
      rw [Bool.or_eq_true, decide_eq_true_eq, decide_eq_true_eq] at hsep
      rcases hsep with rfl | rfl
      · exact absurd h (by decide)
      · exact absurd h (by decide)

theorem EncodesByte.plain {c : UInt8} {text : List UInt8} (h : EncodesByte c text) :
    ∀ x ∈ text, isPlain x = true := by
  intro x hx
  cases h with
  | literal _ halnum =>
    rw [List.mem_singleton.mp hx]
    simp [isPlain, halnum]
  | percent _ first second hfirst hsecond =>
    have hone := digitValue_isalnum hfirst
    have htwo := digitValue_isalnum hsecond
    simp only [List.mem_cons, List.not_mem_nil, or_false] at hx
    rcases hx with rfl | rfl | rfl
    · rfl
    · simp [isPlain, hone]
    · simp [isPlain, htwo]
  | plus =>
    rw [List.mem_singleton.mp hx]
    rfl

theorem Encodes.plain {bytes text : List UInt8} (h : Encodes bytes text) :
    ∀ x ∈ text, isPlain x = true := by
  induction h with
  | nil => simp
  | cons first _ ih =>
    intro x hx
    cases List.mem_append.mp hx with
    | inl hfirst => exact first.plain x hfirst
    | inr hrest => exact ih x hrest

theorem strtol16_byte {first second : UInt8} {high low : Nat} (hhigh : high < 16) (hlow : low < 16)
    (hfirst : digitValue first = some high) (hsecond : digitValue second = some low) :
    strtol16 [48, 120, first, second] = (high * 16 + low : Nat) := by
  have hread : readDigits 16 [first, second] 0 = (high * 16 + low, []) := by
    simp only [readDigits, hfirst, hsecond, if_pos hhigh, if_pos hlow, Nat.zero_mul, Nat.zero_add]
  have hstart : strtol16 [48, 120, first, second] =
      min (2 ^ 31 - 1) ((readDigits 16 [first, second] 0).1 : Int) := rfl
  rw [hstart, hread]
  simp only
  omega

theorem urlDecode_other {c : UInt8} (hc : c ≠ 37) (rest : List UInt8) :
    urlDecode (c :: rest) = (if c = 43 then 32 else c) :: urlDecode rest := by
  rw [urlDecode.eq_def]
  split
  · simp_all
  · simp_all
  · simp_all

theorem urlDecode_encodesByte {c : UInt8} {text : List UInt8} (h : EncodesByte c text)
    (rest : List UInt8) : urlDecode (text ++ rest) = c :: urlDecode rest := by
  cases h with
  | literal _ halnum =>
    have hpercent : c ≠ 37 := by
      rintro rfl
      exact absurd halnum (by decide)
    have hplus : c ≠ 43 := by
      rintro rfl
      exact absurd halnum (by decide)
    rw [List.singleton_append, urlDecode_other hpercent, if_neg hplus]
  | percent _ first second hfirst hsecond =>
    have hc := c.toNat_lt
    have hvalue := strtol16_byte (by omega) (Nat.mod_lt _ (by decide)) hfirst hsecond
    have hbyte : c.toNat / 16 * 16 + c.toNat % 16 = c.toNat := by omega
    rw [List.cons_append, List.cons_append, List.cons_append, List.nil_append, urlDecode, hvalue,
      hbyte]
    congr 1
    have hexact : ((c.toNat : Int) % 2 ^ 8).toNat = c.toNat := by omega
    show UInt8.ofNat ((c.toNat : Int) % 2 ^ 8).toNat = c
    rw [hexact, UInt8.ofNat_toNat]
  | plus => rfl

theorem urlDecode_encodes {bytes text : List UInt8} (h : Encodes bytes text) :
    urlDecode text = bytes := by
  induction h with
  | nil => rfl
  | cons first _ ih => rw [urlDecode_encodesByte first, ih]

theorem Encodes.ne_nil {bytes text : List UInt8} (h : Encodes bytes text) (hne : bytes ≠ []) :
    text ≠ [] := by
  cases h with
  | nil => exact absurd rfl hne
  | cons first _ => cases first <;> simp

def itemText (k : List UInt8) : Option (List UInt8) → List UInt8
  | none => k
  | some v => k ++ 61 :: v

theorem EncodesItem.split {arg : RequestArgument} {text : List UInt8} (h : EncodesItem arg text)
    (hkey : arg.key ≠ []) : ∃ k v, text = itemText k v ∧ k ≠ [] ∧
      (∀ x ∈ k, isPlain x = true) ∧ (∀ w, v = some w → ∀ x ∈ w, isPlain x = true) ∧
      arg = ⟨urlDecode k, urlDecode (v.getD [])⟩ := by
  cases h with
  | pair hk hv =>
    refine ⟨_, some _, rfl, hk.ne_nil hkey, hk.plain, ?_, ?_⟩
    · rintro w hw
      cases hw
      exact hv.plain
    · rw [Option.getD_some, urlDecode_encodes hk, urlDecode_encodes hv]
  | bare hk =>
    refine ⟨_, none, rfl, hk.ne_nil hkey, hk.plain, by simp, ?_⟩
    rw [Option.getD_none, urlDecode_encodes hk]
    rfl

theorem findIdx?_none_of {p : UInt8 → Bool} {k : List UInt8} (h : ∀ x ∈ k, p x = false) :
    k.findIdx? p = none :=
  List.findIdx?_eq_none_iff.mpr h

theorem findIdx?_behind {p : UInt8 → Bool} {k rest : List UInt8} (h : ∀ x ∈ k, p x = false) :
    (k ++ rest).findIdx? p = (rest.findIdx? p).map (· + k.length) := by
  rw [List.findIdx?_append, findIdx?_none_of h]
  rfl

variable {data k : List UInt8} {pos : Nat}

theorem locate_item (hzero : ∀ x ∈ data, x ≠ 0) (hpos : pos ≤ data.length)
    (v : Option (List UInt8)) (tail : List UInt8)
    (hdrop : data.drop pos = itemText k v ++ tail)
    (hkey : ∀ x ∈ k, isPlain x = true) (hvalue : ∀ w, v = some w → ∀ x ∈ w, isPlain x = true)
    (htail : ∀ c, tail.head? = some c → isSeparator c = true) :
    let item := locate data pos
    item.pos = pos ∧ item.key_end_pos = (pos + k.length : Nat) ∧
      item.next_index = (if tail = [] then -1 else ((pos + (itemText k v).length : Nat) : Int)) ∧
      (∀ w, v = some w → item.equal_index = (pos + k.length : Nat)) ∧
      (v = none → item.equal_index = -1 ∨
        (tail ≠ [] ∧ item.equal_index > (pos + k.length : Nat))) := by
  have hshown := visible_eq hzero
  have hlength : pos + (itemText k v).length + tail.length = data.length := by
    have hsplit := congrArg List.length hdrop
    rw [List.length_drop, List.length_append] at hsplit
    omega
  have hitem : ∀ x ∈ itemText k v, isSeparator x = false := by
    intro x hx
    cases v with
    | none => exact (isPlain_not (hkey x hx)).2.2
    | some w =>
      cases List.mem_append.mp hx with
      | inl hmem => exact (isPlain_not (hkey x hmem)).2.2
      | inr hmem =>
        cases List.mem_cons.mp hmem with
        | inl hequal => rw [hequal]; rfl
        | inr hmem => exact (isPlain_not (hvalue w rfl x hmem)).2.2
  have hnoequal : ∀ x ∈ k, decide (x = 61) = false :=
    fun x hx => decide_eq_false (isPlain_not (hkey x hx)).2.1
  have hnext : (locate data pos).next_index =
      (if tail = [] then -1 else ((pos + (itemText k v).length : Nat) : Int)) := by
    rw [locate_next (by rw [hshown]; exact hpos), hshown, hdrop, findIdx?_behind hitem]
    cases htail' : tail with
    | nil => rfl
    | cons c rest =>
      rw [if_neg (List.cons_ne_nil _ _), List.findIdx?_cons, htail c (by rw [htail']; rfl),
        if_pos rfl]
      show (pos : Int) + (0 + (itemText k v).length : Nat) = _
      omega
  have hequal : (locate data pos).equal_index = _ := locate_equal (by rw [hshown]; exact hpos)
  rw [hshown, hdrop] at hequal
  cases v with
  | none =>
    have hequal' : (locate data pos).equal_index = -1 ∨
        (tail ≠ [] ∧ (locate data pos).equal_index > (pos + k.length : Nat)) := by
      rw [hequal, show itemText k none = k from rfl, findIdx?_behind hnoequal]
      cases htail' : tail with
      | nil => exact Or.inl rfl
      | cons c rest =>
        have hc : c ≠ 61 := by
          rintro rfl
          exact absurd (htail 61 (by rw [htail']; rfl)) (by decide)
        rw [List.findIdx?_cons, if_neg (by simpa using hc)]
        cases rest.findIdx? (· = 61) with
        | none => exact Or.inl rfl
        | some i =>
          refine Or.inr ⟨List.cons_ne_nil _ _, ?_⟩
          show (pos : Int) + (i + 1 + k.length : Nat) > _
          omega
    refine ⟨rfl, ?_, hnext, by simp, fun _ => hequal'⟩
    rw [locate_key_end, hnext]
    generalize (locate data pos).equal_index = equal_index at hequal'
    rw [show itemText k none = k from rfl] at hlength ⊢
    cases tail with
    | nil =>
      rw [List.length_nil] at hlength
      simp only [if_true, Bool.or_eq_true, Bool.and_eq_true, decide_eq_true_eq]
      rcases hequal' with hnone | ⟨hne, -⟩
      · rw [hnone, ite_self, if_pos rfl]
        omega
      · exact absurd rfl hne
    | cons c rest =>
      simp only [List.cons_ne_nil, if_false, Bool.or_eq_true, Bool.and_eq_true,
        decide_eq_true_eq]
      split <;> split <;> omega
  | some w =>
    have hhere : (locate data pos).equal_index = (pos + k.length : Nat) := by
      rw [hequal, show itemText k (some w) ++ tail = k ++ (61 :: (w ++ tail)) by simp [itemText],
        findIdx?_behind hnoequal, List.findIdx?_cons, if_pos (by decide)]
      show (pos : Int) + (0 + k.length : Nat) = _
      omega
    refine ⟨rfl, ?_, hnext, fun _ _ => hhere, by simp⟩
    have hbefore : k.length < (itemText k (some w)).length := by simp [itemText]
    rw [locate_key_end, hnext, hhere]
    simp only [Bool.or_eq_true, Bool.and_eq_true, decide_eq_true_eq]
    cases tail with
    | nil =>
      rw [if_pos rfl, if_neg (by omega), if_neg (by omega)]
    | cons c rest =>
      rw [if_neg (List.cons_ne_nil _ _), if_neg (by omega), if_neg (by omega)]

theorem store_item (hshort : data.length < 2 ^ 31) (hzero : ∀ x ∈ data, x ≠ 0)
    (hpos : pos ≤ data.length) (v : Option (List UInt8)) (tail : List UInt8)
    (hdrop : data.drop pos = itemText k v ++ tail)
    (hkey : ∀ x ∈ k, isPlain x = true) (hvalue : ∀ w, v = some w → ∀ x ∈ w, isPlain x = true)
    (htail : ∀ c, tail.head? = some c → isSeparator c = true) (arg : RequestArgument)
    (hnew : arg.value = []) :
    storeArgHandler data (locate data pos) arg = ⟨urlDecode k, urlDecode (v.getD [])⟩ := by
  obtain ⟨hstart, hend, hnext, hequal, hnone⟩ :=
    locate_item hzero hpos v tail hdrop hkey hvalue htail
  have hlength : pos + (itemText k v).length + tail.length = data.length := by
    have hsplit := congrArg List.length hdrop
    rw [List.length_drop, List.length_append] at hsplit
    omega
  have hkeylength : k.length ≤ (itemText k v).length := by
    cases v <;> simp [itemText]
  have hkeytext : substring data (locate data pos).pos (unsigned (locate data pos).key_end_pos) =
      k := by
    have hindex : unsigned ((pos + k.length : Nat) : Int) = pos + k.length := by
      unfold unsigned
      omega
    rw [hstart, hend, hindex, substring_eq _ (Nat.le_add_right _ _), Nat.add_sub_cancel_left,
      hdrop]
    cases v with
    | none => exact List.take_left
    | some w =>
      rw [itemText, List.append_assoc]
      exact List.take_left
  unfold storeArgHandler
  rw [hkeytext]
  congr 1
  simp only [Bool.and_eq_true, Bool.or_eq_true, decide_eq_true_eq]
  cases v with
  | none =>
    have hempty : ¬ ((locate data pos).equal_index ≠ -1 ∧
        ((locate data pos).equal_index < (locate data pos).next_index - 1 ∨
          (locate data pos).next_index = -1)) := by
      rcases hnone rfl with hno | ⟨hne, hlater⟩
      · omega
      · rw [hnext, if_neg hne]
        simp only [itemText]
        omega
    rw [if_neg hempty, hnew]
    rfl
  | some w =>
    have htext : (itemText k (some w)).length = k.length + (w.length + 1) := by simp [itemText]
    have hrest : data.drop (pos + k.length + 1) = w ++ tail := by
      have hmore : (data.drop pos).drop (k.length + 1) = w ++ tail := by
        rw [hdrop, itemText, List.append_assoc, ← List.drop_drop, List.drop_left]
        rfl
      rw [List.drop_drop] at hmore
      exact hmore
    rw [hequal w rfl, hnext]
    have hfirst : unsigned (((pos + k.length : Nat) : Int) + 1) = pos + k.length + 1 := by
      unfold unsigned
      omega
    rw [hfirst, Option.getD_some]
    by_cases hlast : tail = []
    · have hmax : unsigned (-1) = 2 ^ 32 - 1 := by decide
      rw [if_pos hlast, if_pos (by omega), hmax, substring_eq _ (by omega), hrest, hlast,
        List.append_nil, List.take_of_length_le]
      rw [hlast, List.length_nil] at hlength
      omega
    · have hlater : unsigned ((pos + (itemText k (some w)).length : Nat) : Int) =
          pos + k.length + 1 + w.length := by
        unfold unsigned
        omega
      rw [if_neg hlast, hlater]
      by_cases hw : w = []
      · rw [if_neg, hnew, hw]
        · rfl
        · rw [htext, hw, List.length_nil]
          omega
      · have hpositive := List.length_pos_iff.mpr hw
        rw [if_pos (by omega), substring_eq _ (Nat.le_add_right _ _), Nat.add_sub_cancel_left,
          hrest, List.take_left]

theorem parseLoop_item (handler : List UInt8 → Item → RequestArgument → RequestArgument)
    (fuel arg_total : Nat) (args : Nat → RequestArgument) (stores : List Nat)
    (hshort : data.length < 2 ^ 31) (hzero : ∀ x ∈ data, x ≠ 0) (hpos : pos ≤ data.length)
    (v : Option (List UInt8)) (tail : List UInt8)
    (hdrop : data.drop pos = itemText k v ++ tail) (hk : k ≠ [])
    (hkey : ∀ x ∈ k, isPlain x = true) (hvalue : ∀ w, v = some w → ∀ x ∈ w, isPlain x = true)
    (htail : ∀ c, tail.head? = some c → isSeparator c = true) :
    parseLoop data handler (fuel + 1) pos arg_total args stores =
      (let args := fun i =>
        if i = arg_total then handler data (locate data pos) (args i) else args i
      if tail = [] then some (arg_total + 1, args, stores ++ [arg_total])
      else parseLoop data handler fuel (pos + (itemText k v).length + 1) (arg_total + 1) args
        (stores ++ [arg_total])) := by
  obtain ⟨hstart, hend, hnext, -, -⟩ := locate_item hzero hpos v tail hdrop hkey hvalue htail
  have hlength : pos + (itemText k v).length + tail.length = data.length := by
    have hsplit := congrArg List.length hdrop
    rw [List.length_drop, List.length_append] at hsplit
    omega
  have hpositive := List.length_pos_iff.mpr hk
  have hskip : skipEmpty (data.drop pos) pos = pos := by
    cases hk' : k with
    | nil => exact absurd hk' hk
    | cons c rest =>
      have hfirst : data.drop pos = c :: (itemText rest v ++ tail) := by
        rw [hdrop, hk']
        cases v <;> rfl
      have hplain := isPlain_not (hkey c (by rw [hk']; exact List.mem_cons_self ..))
      rw [hfirst, skipEmpty, hplain.2.2]
      rfl
  have hvisit : ((locate data pos).pos : Int) < (locate data pos).key_end_pos := by
    rw [hstart, hend]
    omega
  rw [parseLoop]
  simp only [hskip, hvisit, if_true]
  by_cases hlast : tail = []
  · rw [if_pos hlast] at hnext
    rw [if_pos hnext, if_pos hlast]
  · rw [if_neg hlast] at hnext
    have hafter : unsigned ((locate data pos).next_index + 1) =
        pos + (itemText k v).length + 1 := by
      rw [hnext]
      unfold unsigned
      omega
    rw [if_neg (by omega), if_neg hlast, hafter]

theorem EncodesItem.nonzero {arg : RequestArgument} {text : List UInt8}
    (h : EncodesItem arg text) : ∀ x ∈ text, x ≠ 0 := by
  intro x hx
  cases h with
  | pair hk hv =>
    cases List.mem_append.mp hx with
    | inl hmem => exact (isPlain_not (hk.plain x hmem)).1
    | inr hmem =>
      cases List.mem_cons.mp hmem with
      | inl hequal => rw [hequal]; decide
      | inr hmem => exact (isPlain_not (hv.plain x hmem)).1
  | bare hk => exact (isPlain_not (hk.plain x hx)).1

theorem EncodesForm.nonzero {args : List RequestArgument} {text : List UInt8}
    (h : EncodesForm args text) : ∀ x ∈ text, x ≠ 0 := by
  induction h with
  | nil => simp
  | single item => exact item.nonzero
  | cons item hsep _ ih =>
    intro x hx
    cases List.mem_append.mp hx with
    | inl hmem => exact item.nonzero x hmem
    | inr hmem =>
      cases List.mem_cons.mp hmem with
      | inl hx =>
        rintro rfl
        rw [← hx] at hsep
        exact absurd hsep (by decide)
      | inr hmem => exact ih x hmem

theorem drop_item {item rest : List UInt8} {separator : UInt8}
    (hdrop : data.drop pos = item ++ separator :: rest) :
    pos + item.length + 1 ≤ data.length ∧ data.drop (pos + item.length + 1) = rest := by
  constructor
  · have hsize := congrArg List.length hdrop
    rw [List.length_drop, List.length_append, List.length_cons] at hsize
    omega
  · rw [Nat.add_assoc, ← List.drop_drop, hdrop, ← List.drop_drop, List.drop_left]
    rfl

theorem parseLoop_counts {args : List RequestArgument} {text : List UInt8}
    (h : EncodesForm args text) (hne : args ≠ []) (hkeys : ∀ arg ∈ args, arg.key ≠ [])
    (hshort : data.length < 2 ^ 31) (hzero : ∀ x ∈ data, x ≠ 0) (hpos : pos ≤ data.length)
    (hdrop : data.drop pos = text) (arg_total : Nat) (array : Nat → RequestArgument)
    (stores : List Nat) :
    ∃ array' stores', parseLoop data nullArgHandler args.length pos arg_total array stores =
      some (arg_total + args.length, array', stores') := by
  induction h generalizing pos arg_total array stores with
  | nil => exact absurd rfl hne
  | single item =>
    obtain ⟨k, v, htext, hk, hkey, hvalue, -⟩ := item.split (hkeys _ (List.mem_singleton.mpr rfl))
    have hround := parseLoop_item nullArgHandler 0 arg_total array stores hshort hzero hpos v []
      (by rw [hdrop, htext, List.append_nil]) hk hkey hvalue (by simp)
    exact ⟨_, _, hround⟩
  | @cons arg next args text rest separator item hsep others ih =>
    obtain ⟨k, v, htext, hk, hkey, hvalue, -⟩ := item.split (hkeys _ (List.mem_cons_self ..))
    have hsplit : data.drop pos = itemText k v ++ separator :: rest := by rw [hdrop, htext]
    have hround := parseLoop_item nullArgHandler (args.length + 1) arg_total array stores hshort
      hzero hpos v (separator :: rest) hsplit hk hkey hvalue (by simpa using hsep)
    obtain ⟨hlength, hafter⟩ := drop_item hsplit
    obtain ⟨array', stores', hrest⟩ := ih (List.cons_ne_nil _ _)
      (fun a ha => hkeys a (List.mem_cons_of_mem _ ha)) hlength hafter (arg_total + 1) _
      (stores ++ [arg_total])
    refine ⟨array', stores', ?_⟩
    refine hround.trans ?_
    simp only [List.cons_ne_nil, if_false]
    refine hrest.trans ?_
    simp only [List.length_cons]
    congr 2
    omega

theorem parseLoop_stores {args : List RequestArgument} {text : List UInt8}
    (h : EncodesForm args text) (hne : args ≠ []) (hkeys : ∀ arg ∈ args, arg.key ≠ [])
    (hshort : data.length < 2 ^ 31) (hzero : ∀ x ∈ data, x ≠ 0) (hpos : pos ≤ data.length)
    (hdrop : data.drop pos = text) (arg_total : Nat) (array : Nat → RequestArgument)
    (stores : List Nat) (hnew : ∀ i, arg_total ≤ i → array i = newArgument) :
    ∃ array' stores', parseLoop data storeArgHandler args.length pos arg_total array stores =
        some (arg_total + args.length, array', stores') ∧
      (∀ i, i < arg_total → array' i = array i) ∧
      ∀ i, array' (arg_total + i) = args.getD i newArgument := by
  induction h generalizing pos arg_total array stores with
  | nil => exact absurd rfl hne
  | single item =>
    obtain ⟨k, v, htext, hk, hkey, hvalue, harg⟩ :=
      item.split (hkeys _ (List.mem_singleton.mpr rfl))
    have hsplit : data.drop pos = itemText k v ++ [] := by rw [hdrop, htext, List.append_nil]
    have hround := parseLoop_item storeArgHandler 0 arg_total array stores hshort hzero hpos v []
      hsplit hk hkey hvalue (by simp)
    have hstore := store_item hshort hzero hpos v [] hsplit hkey hvalue (by simp)
      (array arg_total) (by rw [hnew _ (Nat.le_refl _)]; rfl)
    rw [← harg] at hstore
    refine ⟨_, _, hround, fun i hi => if_neg (by omega), fun i => ?_⟩
    cases i with
    | zero => simpa using hstore
    | succ i => simpa using hnew _ (by omega)
  | @cons arg next args text rest separator item hsep others ih =>
    obtain ⟨k, v, htext, hk, hkey, hvalue, harg⟩ := item.split (hkeys _ (List.mem_cons_self ..))
    have hsplit : data.drop pos = itemText k v ++ separator :: rest := by rw [hdrop, htext]
    have hround := parseLoop_item storeArgHandler (args.length + 1) arg_total array stores hshort
      hzero hpos v (separator :: rest) hsplit hk hkey hvalue (by simpa using hsep)
    have hstore := store_item hshort hzero hpos v (separator :: rest) hsplit hkey hvalue
      (by simpa using hsep) (array arg_total) (by rw [hnew _ (Nat.le_refl _)]; rfl)
    rw [← harg] at hstore
    obtain ⟨hlength, hafter⟩ := drop_item hsplit
    obtain ⟨array', stores', hrest, hbefore, hstored⟩ := ih (List.cons_ne_nil _ _)
      (fun a ha => hkeys a (List.mem_cons_of_mem _ ha)) hlength hafter (arg_total + 1)
      (fun i => if i = arg_total then storeArgHandler data (locate data pos) (array i) else array i)
      (stores ++ [arg_total])
      (fun i hi => by rw [if_neg (by omega)]; exact hnew i (by omega))
    refine ⟨array', stores', ?_, fun i hi => ?_, fun i => ?_⟩
    · refine hround.trans ?_
      simp only [List.cons_ne_nil, if_false]
      refine hrest.trans ?_
      simp only [List.length_cons]
      congr 2
      omega
    · rw [hbefore i (by omega), if_neg (by omega)]
    · cases i with
      | zero =>
        rw [Nat.add_zero, hbefore arg_total (Nat.lt_succ_self _), if_pos rfl, hstore]
        rfl
      | succ i =>
        have hnext := hstored i
        rw [show arg_total + 1 + i = arg_total + (i + 1) by omega] at hnext
        rw [hnext]
        rfl

/-- `_parseArguments` reads a form back: its arguments in order, and a new one for a plain
body. -/
theorem parseArguments_form (data : Text) (args : List RequestArgument)
    (h : EncodesForm args data.bytes) (hkeys : ∀ arg ∈ args, arg.key ≠ [])
    (old : Nat → RequestArgument) :
    ∃ fuel, parseArguments data.bytes fuel old = some (args.length, args ++ [newArgument]) := by
  by_cases hne : args = []
  · subst hne
    have hempty : ∀ text, EncodesForm [] text → text = [] := by
      intro text hform
      cases hform
      rfl
    refine ⟨1, ?_⟩
    rw [hempty _ h]
    rfl
  · have hzero := h.nonzero
    obtain ⟨counted, _, hcounted⟩ :=
      parseLoop_counts h hne hkeys data.short hzero (Nat.zero_le _) rfl 0 old []
    obtain ⟨array, _, hstored, -, hvalues⟩ := parseLoop_stores h hne hkeys data.short hzero
      (Nat.zero_le _) rfl 0 (fun _ => newArgument) [] (fun _ _ => rfl)
    refine ⟨args.length, ?_⟩
    have hcount : parseArgumentsPrivate data.bytes nullArgHandler args.length old =
        some (0 + args.length, counted, _) := hcounted
    have hstore : parseArgumentsPrivate data.bytes storeArgHandler args.length
        (fun _ => newArgument) = some (0 + args.length, array, _) := hstored
    unfold parseArguments
    rw [hcount, hstore]
    have hlist : (List.range (0 + args.length + 1)).map array = args ++ [newArgument] := by
      apply List.ext_getElem?
      intro i
      have hvalue := hvalues i
      rw [Nat.zero_add] at hvalue
      rw [List.getElem?_map, Nat.zero_add]
      by_cases hin : i < args.length
      · rw [List.getElem?_range (by omega), List.getElem?_append_left hin, Option.map_some, hvalue,
          List.getD_eq_getElem?_getD, List.getElem?_eq_getElem hin]
        rfl
      · rw [List.getElem?_append_right (by omega)]
        by_cases hlast : i = args.length
        · rw [List.getElem?_range (by omega), Option.map_some, hvalue, hlast,
            List.getD_eq_getElem?_getD, List.getElem?_eq_none (Nat.le_refl _), Nat.sub_self]
          rfl
        · rw [List.getElem?_eq_none (by rw [List.length_range]; omega),
            List.getElem?_eq_none (by rw [List.length_singleton]; omega)]
          rfl
    show some (0 + args.length, (List.range (0 + args.length + 1)).map array) = _
    rw [hlist, Nat.zero_add]

theorem parseArguments_three :
    ∃ fuel, parseArguments [97, 61, 37, 48, 100, 38, 98, 43, 59, 99, 61, 49] fuel
      (fun _ => newArgument) =
        some (3, [⟨[97], [13]⟩, ⟨[98, 32], []⟩, ⟨[99], [49]⟩, newArgument]) :=
  parseArguments_form ⟨[97, 61, 37, 48, 100, 38, 98, 43, 59, 99, 61, 49], by decide⟩
    [⟨[97], [13]⟩, ⟨[98, 32], []⟩, ⟨[99], [49]⟩]
    (.cons (.pair (.cons (.literal 97 rfl) .nil) (.cons (.percent 13 48 100 rfl rfl) .nil)) rfl
      (.cons (.bare (.cons (.literal 98 rfl) (.cons .plus .nil))) rfl
        (.single (.pair (.cons (.literal 99 rfl) .nil) (.cons (.literal 49 rfl) .nil)))))
    (by simp) (fun _ => newArgument)

end Esp8266.Web
