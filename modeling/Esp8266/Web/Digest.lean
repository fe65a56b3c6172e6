import Esp8266.Web.Parameters

/-! `authenticateDigest`: a header is accepted if the digest of its parameters is right, and in which
order the parameters may stand. MD5 is any function on texts. -/
namespace Esp8266.Web
open Esp8266.CString Esp8266.Delimiter Esp8266.Substring

inductive HTTPMethod where
  | get
  | head
  | post
  | put
  | patch
  | delete
  | options
  deriving DecidableEq

def HTTPMethod.text : HTTPMethod → List UInt8
  | .get => [71, 69, 84]
  | .head => [72, 69, 65, 68]
  | .post => [80, 79, 83, 84]
  | .put => [80, 85, 84]
  | .patch => [80, 65, 84, 67, 72]
  | .delete => [68, 69, 76, 69, 84, 69]
  | .options => [79, 80, 84, 73, 79, 78, 83]

def HTTPMethod.digestText : HTTPMethod → List UInt8
  | .get => [71, 69, 84]
  | .post => [80, 79, 83, 84]
  | .put => [80, 85, 84]
  | .delete => [68, 69, 76, 69, 84, 69]
  | _ => [71, 69, 84]

def digestScheme : List UInt8 := [68, 105, 103, 101, 115, 116]

def auth : List UInt8 := [97, 117, 116, 104]

structure Challenge where
  srealm : List UInt8
  snonce : List UInt8
  sopaque : List UInt8

def olderText (H1 nonce H2 : List UInt8) : List UInt8 := H1 ++ 58 :: (nonce ++ 58 :: H2)

def newerText (H1 nonce nc cnonce H2 : List UInt8) : List UInt8 :=
  H1 ++ 58 :: (nonce ++ 58 :: (nc ++ 58 :: (cnonce ++ 58 :: (auth ++ 58 :: H2))))

def authenticateDigest (md5 : List UInt8 → CStr) (s : Challenge) (currentMethod : HTTPMethod)
    (authorization : Option (List UInt8)) (username : List UInt8) (H1 : CStr) : Bool :=
  match authorization with
  | none => false
  | some authReq =>
    if startsWith authReq digestScheme = false then false
    else
      let authReq := substring authReq 7 authReq.length
      let username' := extractParam authReq (paramMark .username [34]) 34
      if username' = [] ∨ equals username' username = false then false
      else
        let realm := extractParam authReq (paramMark .realm [34]) 34
        let nonce := extractParam authReq (paramMark .nonce [34]) 34
        let uri := extractParam authReq (paramMark .uri [34]) 34
        let response := extractParam authReq (paramMark .response [34]) 34
        let opaqueString := extractParam authReq (paramMark .opaqueString [34]) 34
        if realm = [] ∨ nonce = [] ∨ uri = [] ∨ response = [] ∨ opaqueString = [] then false
        else if equals opaqueString s.sopaque = false ∨ equals nonce s.snonce = false ∨
            equals realm s.srealm = false then false
        else
          let H2 := (md5 (visible (currentMethod.digestText ++ 58 :: uri))).bytes
          let responsecheck :=
            if indexOfString authReq (paramMark .qop auth) 0 ≠ -1 ∨
                indexOfString authReq (paramMark .qop (34 :: auth ++ [34])) 0 ≠ -1 then
              let nc := extractParam authReq (paramMark .nc []) 44
              let cnonce := extractParam authReq (paramMark .cnonce [34]) 34
              md5 (visible (newerText H1.bytes nonce nc cnonce H2))
            else md5 (visible (olderText H1.bytes nonce H2))
          equals response responsecheck.bytes

def rfcDigest (md5 : List UInt8 → CStr) (method : HTTPMethod) (p : Parameters) (H1 : CStr) :
    Option (List UInt8) :=
  if (p.value .qop).bytes = auth then
    some (md5 (newerText H1.bytes (p.value .nonce).bytes (p.value .nc).bytes
      (p.value .cnonce).bytes (md5 (method.text ++ 58 :: (p.value .uri).bytes)).bytes)).bytes
  else none

structure Parameters.Complete (p : Parameters) (nonce : List UInt8) : Prop where
  username : (p.value .username).bytes ≠ []
  realm : (p.value .realm).bytes ≠ []
  nonce : nonce ≠ []
  uri : (p.value .uri).bytes ≠ []
  response : (p.value .response).bytes ≠ []
  opaqueString : (p.value .opaqueString).bytes ≠ []

structure Authentic (md5 : List UInt8 → CStr) (s : Challenge) (method : HTTPMethod)
    (p : Parameters) (username : List UInt8) (H1 : CStr) : Prop where
  complete : p.Complete (p.value .nonce).bytes
  username : (p.value .username).bytes = username
  realm : (p.value .realm).bytes = s.srealm
  nonce : (p.value .nonce).bytes = s.snonce
  opaqueString : (p.value .opaqueString).bytes = s.sopaque
  response : rfcDigest md5 method p H1 = some (p.value .response).bytes

def authorization (p : Parameters) (order : List ParamName) : List UInt8 :=
  digestScheme ++ 32 :: p.header order

def isNonce (name : ParamName) : Bool := name = .nonce || name = .cnonce

def Parameters.firstNonce (p : Parameters) (order : List ParamName) : List UInt8 :=
  match order.find? isNonce with
  | some name => (p.value name).bytes
  | none => []

def Parameters.shownNc (p : Parameters) : List UInt8 := (p.shown .nc).takeWhile (· ≠ 44)

def Parameters.newer (p : Parameters) : Prop :=
  auth <+: p.shown .qop ∨ 34 :: auth ++ [34] <+: p.shown .qop

instance (p : Parameters) : Decidable p.newer := inferInstanceAs (Decidable (_ ∨ _))

def Parameters.checkedText (p : Parameters) (nonce H1 H2 : List UInt8) : List UInt8 :=
  if p.newer then newerText H1 nonce p.shownNc (p.value .cnonce).bytes H2
  else olderText H1 nonce H2

section Search
variable {p : Parameters} {word : ParamName} {order : List ParamName}

theorem takeWhile_delimited {c : UInt8} {text : List UInt8} (h : c ∉ text) (rest : List UInt8) :
    (text ++ c :: rest).takeWhile (· ≠ c) = text := by
  have hother : ∀ d ∈ text, decide (d ≠ c) = true := by
    intro d hd
    exact decide_eq_true fun hc => h (hc ▸ hd)
  rw [List.takeWhile_append_of_pos hother]
  simp

theorem behind_quoted (p : Parameters)
    (hquoted : ∀ name, word.text <:+ name.text → p.quoted name = true) (order : List ParamName) :
    ((behind (paramMark word [34]) (p.header order)).getD []).takeWhile (· ≠ 34) =
      match order.find? fun name => word.text <:+ name.text with
      | some name => (p.value name).bytes
      | none => [] := by
  induction order with
  | nil =>
    rw [Parameters.header, behind_nil (by simp [paramMark])]
    rfl
  | cons name names ih =>
    rw [behind_header, List.find?_cons]
    by_cases hsuffix : word.text <:+ name.text
    · have hshown : p.shown name = 34 :: ((p.value name).bytes ++ [34]) :=
        if_pos (hquoted name hsuffix)
      have hfound : word.text <:+ name.text ∧ [34] <+: p.shown name ++ p.after names :=
        ⟨hsuffix, by simp [hshown]⟩
      rw [if_pos hfound, decide_eq_true hsuffix, hshown]
      simp only [List.length_singleton, List.cons_append, List.drop_succ_cons, List.drop_zero,
        Option.getD_some, List.append_assoc, List.nil_append]
      exact takeWhile_delimited (p.quote name) _
    · rw [if_neg fun h => hsuffix h.1, decide_eq_false hsuffix]
      exact ih

theorem not_suffix {name : ParamName} (hname : name ≠ word) (hword : word ≠ .nonce) :
    ¬ word.text <:+ name.text := by
  intro hsuffix
  rcases (name_suffix word name).mp hsuffix with h | h
  · exact hname h
  · exact hword h.1

theorem find_word (hword : word ≠ .nonce) (hmem : word ∈ order) :
    order.find? (fun name => word.text <:+ name.text) = some word := by
  induction order with
  | nil => cases hmem
  | cons name names ih =>
    rw [List.find?_cons]
    by_cases hname : name = word
    · have hsuffix : word.text <:+ name.text := (name_suffix word name).mpr (Or.inl hname)
      rw [decide_eq_true hsuffix, hname]
    · have hsuffix : ¬ word.text <:+ name.text := by
        intro h
        rcases (name_suffix word name).mp h with h | h
        · exact hname h
        · exact hword h.1
      rw [decide_eq_false hsuffix]
      exact ih (List.mem_of_ne_of_mem (Ne.symm hname) hmem)

theorem find_nonce (order : List ParamName) :
    order.find? (fun name => ParamName.nonce.text <:+ name.text) = order.find? isNonce := by
  congr 1
  funext name
  rw [decide_eq_decide.mpr (name_suffix .nonce name)]
  cases name <;> rfl

theorem behind_nc (p : Parameters) (hmem : ParamName.nc ∈ order) :
    ((behind (paramMark .nc []) (p.header order)).getD []).takeWhile (· ≠ 44) = p.shownNc := by
  induction order with
  | nil => cases hmem
  | cons name names ih =>
    rw [behind_header]
    by_cases hname : name = .nc
    · subst hname
      rw [if_pos ⟨List.suffix_rfl, List.nil_prefix⟩]
      simp only [List.length_nil, List.drop_zero, Option.getD_some, Parameters.shownNc]
      cases names with
      | nil => rw [Parameters.after, List.append_nil]
      | cons name names =>
        rw [Parameters.after, List.takeWhile_append]
        split
        · rename_i hall
          have hcomma : ¬ decide ((44 : UInt8) ≠ 44) = true := by decide
          rw [List.takeWhile_cons, if_neg hcomma, List.append_nil]
          exact ((List.takeWhile_prefix _).eq_of_length hall).symm
        · rfl
    · rw [if_neg fun h => not_suffix hname (by decide) h.1]
      exact ih (List.mem_of_ne_of_mem (Ne.symm hname) hmem)

theorem prefix_stop {sub text rest : List UInt8} (hsub : 44 ∉ sub)
    (hrest : ∀ c ∈ rest.head?, c = 44) : sub <+: text ++ rest ↔ sub <+: text := by
  constructor
  · rintro ⟨more, hmore⟩
    rcases List.append_eq_append_iff.mp hmore with ⟨more', htext, -⟩ | ⟨more', hword, hbehind⟩
    · exact ⟨more', htext.symm⟩
    · cases more' with
      | nil =>
        rw [List.append_nil] at hword
        exact hword ▸ List.prefix_rfl
      | cons c more' =>
        have hc := hrest c (by rw [hbehind]; rfl)
        exact absurd (hword ▸ List.mem_append_right _ (hc ▸ List.mem_cons_self)) hsub
  · exact fun h => h.trans (List.prefix_append text rest)

theorem behind_qop (p : Parameters) {tail : List UInt8} (htail : 44 ∉ tail)
    (hmem : ParamName.qop ∈ order) (hnodup : order.Nodup) :
    (behind (paramMark .qop tail) (p.header order)).isSome = true ↔ tail <+: p.shown .qop := by
  have habsent : ∀ names, ParamName.qop ∉ names →
      behind (paramMark .qop tail) (p.header names) = none := by
    intro names
    induction names with
    | nil => exact fun _ => behind_nil (by simp [paramMark])
    | cons name names ih =>
      intro h
      rw [List.mem_cons, not_or] at h
      rw [behind_header, if_neg fun hfound => not_suffix (Ne.symm h.1) (by decide) hfound.1,
        ih h.2]
  induction order with
  | nil => cases hmem
  | cons name names ih =>
    obtain ⟨hname', hnodup'⟩ := List.nodup_cons.mp hnodup
    rw [behind_header]
    by_cases hname : name = .qop
    · subst hname
      have hstop : tail <+: p.shown .qop ++ p.after names ↔ tail <+: p.shown .qop := by
        apply prefix_stop htail
        cases names with
        | nil =>
          intro c h
          cases h
        | cons name names =>
          intro c h
          cases h
          rfl
      rw [habsent names hname']
      by_cases hmatch : tail <+: p.shown .qop
      · rw [if_pos ⟨List.suffix_rfl, hstop.mpr hmatch⟩]
        exact iff_of_true rfl hmatch
      · rw [if_neg fun h => hmatch (hstop.mp h.2)]
        exact iff_of_false Bool.noConfusion hmatch
    · rw [if_neg fun h => not_suffix hname (by decide) h.1]
      exact ih (List.mem_of_ne_of_mem (Ne.symm hname) hmem) hnodup'

theorem zero_notMem_paramMark {tail : List UInt8} (htail : 0 ∉ tail) : 0 ∉ paramMark word tail := by
  intro h
  unfold paramMark at h
  rcases List.mem_append.mp h with h | h
  · exact (name_letters word 0 h).1 rfl
  · rcases List.mem_cons.mp h with h | h
    · exact absurd h (by decide)
    · exact htail h

theorem zero_notMem_shown (p : Parameters) (name : ParamName) : 0 ∉ p.shown name := by
  unfold Parameters.shown
  split <;> simp [(p.value name).nul]

theorem zero_notMem_after (p : Parameters) (names : List ParamName) : 0 ∉ p.after names := by
  induction names with
  | nil => exact List.not_mem_nil
  | cons name names ih =>
    have hname : 0 ∉ name.text := fun h => (name_letters name 0 h).1 rfl
    simp [Parameters.after, hname, zero_notMem_shown, ih]

theorem zero_notMem_header (p : Parameters) (order : List ParamName) : 0 ∉ p.header order := by
  cases order with
  | nil => exact List.not_mem_nil
  | cons name names =>
    have hname : 0 ∉ name.text := fun h => (name_letters name 0 h).1 rfl
    simp [Parameters.header, hname, zero_notMem_shown, zero_notMem_after]

theorem paramMark_ne_nil {tail : List UInt8} : paramMark word tail ≠ [] := by
  simp [paramMark]

theorem extractParam_quoted (hquoted : ∀ name, word.text <:+ name.text → p.quoted name = true)
    (hword : word ≠ .nonce) (hmem : word ∈ order) (hshort : (p.header order).length < 2 ^ 31) :
    extractParam (p.header order) (paramMark word [34]) 34 = (p.value word).bytes := by
  rw [extractParam_eq (zero_notMem_header p order) (zero_notMem_paramMark (by decide)) paramMark_ne_nil
    hshort, behind_quoted p hquoted, find_word hword hmem]

theorem extractParam_nonce (hshort : (p.header order).length < 2 ^ 31) :
    extractParam (p.header order) (paramMark .nonce [34]) 34 = p.firstNonce order := by
  rw [extractParam_eq (zero_notMem_header p order) (zero_notMem_paramMark (by decide)) paramMark_ne_nil
    hshort, behind_quoted p, find_nonce]
  · rfl
  · intro name hsuffix
    rcases (name_suffix .nonce name).mp hsuffix with rfl | ⟨-, rfl⟩ <;> rfl

theorem extractParam_nc (hmem : ParamName.nc ∈ order) (hshort : (p.header order).length < 2 ^ 31) :
    extractParam (p.header order) (paramMark .nc []) 44 = p.shownNc := by
  rw [extractParam_eq (zero_notMem_header p order) (zero_notMem_paramMark List.not_mem_nil)
    paramMark_ne_nil hshort, behind_nc p hmem]

theorem indexOfString_qop {tail : List UInt8} (htail : 44 ∉ tail) (hzero : 0 ∉ tail)
    (hmem : ParamName.qop ∈ order) (hnodup : order.Nodup) :
    indexOfString (p.header order) (paramMark .qop tail) 0 ≠ -1 ↔ tail <+: p.shown .qop := by
  rw [indexOfString_zero (zero_notMem_header p order) (zero_notMem_paramMark hzero) paramMark_ne_nil,
    ← behind_qop p htail hmem hnodup, behind, Option.isSome_map]
  cases firstIndex (paramMark .qop tail) (p.header order) with
  | none => simp [toIndex]
  | some i => simp [toIndex]

end Search

section Verdict
variable {p : Parameters} {order : List ParamName} {method : HTTPMethod}

theorem equals_iff {text other : List UInt8} (h : 0 ∉ text) :
    equals text other = true ↔ text = other := by
  have hvisible : visible text = text := visible_eq fun c hc hzero => h (hzero ▸ hc)
  unfold equals
  rw [Bool.and_eq_true, decide_eq_true_iff, decide_eq_true_iff, hvisible]
  constructor
  · rintro ⟨hlength, hsame⟩
    have hother : visible other = other := by
      apply (List.takeWhile_prefix _).eq_of_length
      change (visible other).length = other.length
      rw [← hsame, hlength]
    rw [hsame, hother]
  · rintro rfl
    exact ⟨rfl, hvisible.symm⟩

theorem refuses_iff {c : Prop} [Decidable c] {b : Bool} :
    (if c then false else b) = true ↔ ¬ c ∧ b = true := by
  by_cases hc : c <;> simp [hc]

theorem zero_notMem_firstNonce (p : Parameters) (order : List ParamName) :
    0 ∉ p.firstNonce order := by
  unfold Parameters.firstNonce
  split
  · exact (p.value _).nul
  · exact List.not_mem_nil

theorem zero_notMem_shownNc (p : Parameters) : 0 ∉ p.shownNc :=
  fun h => zero_notMem_shown p .nc ((List.takeWhile_sublist _).subset h)

theorem visible_checkedText (p : Parameters) {nonce : List UInt8} (hnonce : 0 ∉ nonce)
    (H1 H2 : CStr) : visible (p.checkedText nonce H1.bytes H2.bytes) =
      p.checkedText nonce H1.bytes H2.bytes := by
  apply visible_eq
  intro c hc
  rintro rfl
  unfold Parameters.checkedText at hc
  split at hc
  · simp [newerText, auth, H1.nul, H2.nul, hnonce, zero_notMem_shownNc, (p.value .cnonce).nul] at hc
  · simp [olderText, H1.nul, H2.nul, hnonce] at hc

theorem visible_digestMethod (method : HTTPMethod) (uri : CStr) :
    visible (method.digestText ++ 58 :: uri.bytes) = method.digestText ++ 58 :: uri.bytes := by
  apply visible_eq
  intro c hc
  rintro rfl
  cases method <;> simp [HTTPMethod.digestText, uri.nul] at hc

theorem authenticateDigest_iff (md5 : List UInt8 → CStr) (s : Challenge) (method : HTTPMethod)
    (username : List UInt8) (H1 : CStr) (horder : order.Perm ParamName.all)
    (hshort : (authorization p order).length < 2 ^ 31) :
    authenticateDigest md5 s method (some (authorization p order)) username H1 = true ↔
      p.Complete (p.firstNonce order) ∧ (p.value .username).bytes = username ∧
      (p.value .realm).bytes = s.srealm ∧ p.firstNonce order = s.snonce ∧
      (p.value .opaqueString).bytes = s.sopaque ∧
      (md5 (p.checkedText (p.firstNonce order) H1.bytes
        (md5 (method.digestText ++ 58 :: (p.value .uri).bytes)).bytes)).bytes =
          (p.value .response).bytes := by
  have hmem : ∀ name, name ∈ order := fun name => horder.mem_iff.mpr (by cases name <;> decide)
  have hnodup : order.Nodup := horder.nodup_iff.mpr (by decide)
  have hlength : (p.header order).length < 2 ^ 31 := by
    rw [authorization, List.length_append, List.length_cons] at hshort
    omega
  have hscheme : startsWith (authorization p order) digestScheme = true := by
    have htake : (authorization p order).take 6 = digestScheme := rfl
    have hsix : 6 ≤ (authorization p order).length := by
      rw [authorization, List.length_append]
      exact Nat.le_add_right 6 _
    unfold startsWith
    rw [show digestScheme.length = 6 from rfl, htake, decide_eq_true hsix, decide_eq_true rfl]
    rfl
  have hheader : substring (authorization p order) 7 (authorization p order).length =
      p.header order := by
    have hdrop : (authorization p order).drop 7 = p.header order := rfl
    have hsize : (authorization p order).length = 7 + (p.header order).length := by
      rw [authorization, List.length_append, List.length_cons]
      exact Nat.add_right_comm 6 _ 1
    rw [substring_eq _ (by omega), hdrop, hsize, Nat.add_sub_cancel_left, List.take_length]
  have hquoted : ∀ word, word ≠ .qop → word ≠ .nc → word ≠ .nonce →
      extractParam (p.header order) (paramMark word [34]) 34 = (p.value word).bytes := by
    intro word hqop hnc hnonce
    refine extractParam_quoted (fun name hsuffix => ?_) hnonce (hmem word) hlength
    rcases (name_suffix word name).mp hsuffix with rfl | ⟨rfl, rfl⟩
    · cases name <;> first | rfl | contradiction
    · rfl
  have hnewer : (indexOfString (p.header order) (paramMark .qop auth) 0 ≠ -1 ∨
      indexOfString (p.header order) (paramMark .qop (34 :: auth ++ [34])) 0 ≠ -1) ↔ p.newer :=
    or_congr (indexOfString_qop (by decide) (by decide) (hmem .qop) hnodup)
      (indexOfString_qop (by decide) (by decide) (hmem .qop) hnodup)
  have htext : (if p.newer then
      md5 (visible (newerText H1.bytes (p.firstNonce order) p.shownNc (p.value .cnonce).bytes
        (md5 (method.digestText ++ 58 :: (p.value .uri).bytes)).bytes))
      else md5 (visible (olderText H1.bytes (p.firstNonce order)
        (md5 (method.digestText ++ 58 :: (p.value .uri).bytes)).bytes))) =
      md5 (p.checkedText (p.firstNonce order) H1.bytes
        (md5 (method.digestText ++ 58 :: (p.value .uri).bytes)).bytes) := by
    rw [← visible_checkedText p (zero_notMem_firstNonce p order), Parameters.checkedText]
    split <;> rfl
  unfold authenticateDigest
  simp only [hscheme, hheader, hquoted _ (by decide : ParamName.username ≠ .qop) (by decide)
      (by decide), hquoted _ (by decide : ParamName.realm ≠ .qop) (by decide) (by decide),
    hquoted _ (by decide : ParamName.uri ≠ .qop) (by decide) (by decide),
    hquoted _ (by decide : ParamName.response ≠ .qop) (by decide) (by decide),
    hquoted _ (by decide : ParamName.opaqueString ≠ .qop) (by decide) (by decide),
    hquoted _ (by decide : ParamName.cnonce ≠ .qop) (by decide) (by decide),
    extractParam_nonce hlength, extractParam_nc (hmem .nc) hlength, hnewer,
    visible_digestMethod, htext]
  simp only [Bool.true_eq_false, if_false, refuses_iff, not_or, Bool.not_eq_false,
    equals_iff (CStr.nul _), equals_iff (zero_notMem_firstNonce p order)]
  constructor
  · rintro ⟨⟨husername, hname⟩, ⟨hrealm, hnonce, huri, hresponse, hstring⟩,
      ⟨hsstring, hsnonce, hsrealm⟩, hdigest⟩
    exact ⟨⟨husername, hrealm, hnonce, huri, hresponse, hstring⟩, hname, hsrealm, hsnonce,
      hsstring, hdigest.symm⟩
  · rintro ⟨⟨husername, hrealm, hnonce, huri, hresponse, hstring⟩, hname, hsrealm, hsnonce,
      hsstring, hdigest⟩
    exact ⟨⟨husername, hname⟩, ⟨hrealm, hnonce, huri, hresponse, hstring⟩,
      ⟨hsstring, hsnonce, hsrealm⟩, hdigest.symm⟩

/-- When the order and the form of a request do not lead the search astray: what it takes for a
complete request has the server's nonce in front of the client's, a method with a digest of its own,
the quality of protection that is offered and a count without quotes and commas; and a complete
request is taken for one. -/
structure Unambiguous (p : Parameters) (order : List ParamName) (method : HTTPMethod) : Prop where
  accepted : p.Complete (p.firstNonce order) →
    p.firstNonce order = (p.value .nonce).bytes ∧ method.digestText = method.text ∧
    (p.value .qop).bytes = auth ∧ p.ncQuoted = false ∧ 44 ∉ (p.value .nc).bytes
  refused : p.Complete (p.value .nonce).bytes → (p.value .qop).bytes = auth →
    p.Complete (p.firstNonce order)

def Right (p : Parameters) (order : List ParamName) (method : HTTPMethod) : Prop :=
  ∀ (md5 : List UInt8 → CStr) (s : Challenge) (username : List UInt8) (H1 : CStr),
    authenticateDigest md5 s method (some (authorization p order)) username H1 = true ↔
      Authentic md5 s method p username H1

theorem newer_of_auth (h : (p.value .qop).bytes = auth) : p.newer := by
  unfold Parameters.newer Parameters.shown
  rw [h]
  by_cases hquoted : p.quoted .qop = true
  · rw [if_pos hquoted]
    exact Or.inr List.prefix_rfl
  · rw [if_neg hquoted]
    exact Or.inl List.prefix_rfl

theorem shownNc_plain (hquoted : p.ncQuoted = false) (hcomma : 44 ∉ (p.value .nc).bytes) :
    p.shownNc = (p.value .nc).bytes := by
  have hshown : p.shown .nc = (p.value .nc).bytes := if_neg (by
    rw [Parameters.quoted, hquoted]
    exact Bool.noConfusion)
  rw [Parameters.shownNc, hshown]
  exact takeWhile_absent hcomma

theorem shownNc_inj {rest rest' : List UInt8}
    (h : p.shownNc ++ 58 :: rest = (p.value .nc).bytes ++ 58 :: rest') :
    p.ncQuoted = false ∧ 44 ∉ (p.value .nc).bytes := by
  cases hquoted : p.ncQuoted with
  | true =>
    have hshown : p.shown .nc = 34 :: ((p.value .nc).bytes ++ [34]) := if_pos hquoted
    rw [Parameters.shownNc, hshown, List.takeWhile_cons, if_pos (by decide)] at h
    have hmem : (34 : UInt8) ∈ (p.value .nc).bytes := by
      cases hbytes : (p.value .nc).bytes with
      | nil =>
        rw [hbytes] at h
        exact absurd (List.cons.inj h).1 (by decide)
      | cons c bytes =>
        rw [hbytes] at h
        rw [(List.cons.inj h).1]
        exact List.mem_cons_self
    exact absurd hmem (p.quote .nc)
  | false =>
    refine ⟨rfl, fun hcomma => ?_⟩
    have hshown : p.shown .nc = (p.value .nc).bytes := if_neg (by
      rw [Parameters.quoted, hquoted]
      exact Bool.noConfusion)
    obtain ⟨front, back, hbytes, hfront⟩ := List.eq_append_cons_of_mem hcomma
    rw [Parameters.shownNc, hshown, hbytes, takeWhile_delimited hfront, List.append_assoc] at h
    exact absurd (List.cons.inj (List.append_cancel_left h)).1 (by decide)

end Verdict

section Exact
variable {p : Parameters} {order : List ParamName} {method : HTTPMethod}

theorem Unambiguous.right (h : Unambiguous p order method) (horder : order.Perm ParamName.all)
    (hshort : (authorization p order).length < 2 ^ 31) : Right p order method := by
  intro md5 s username H1
  rw [authenticateDigest_iff md5 s method username H1 horder hshort]
  by_cases hcomplete : p.Complete (p.firstNonce order)
  · obtain ⟨hnonce, hmethod, hqop, hquoted, hcomma⟩ := h.accepted hcomplete
    have htext : ∀ H2, p.checkedText (p.value .nonce).bytes H1.bytes H2 =
        newerText H1.bytes (p.value .nonce).bytes (p.value .nc).bytes (p.value .cnonce).bytes H2 := by
      intro H2
      rw [Parameters.checkedText, if_pos (newer_of_auth hqop), shownNc_plain hquoted hcomma]
    rw [hnonce] at hcomplete
    rw [hnonce, hmethod, htext]
    constructor
    · rintro ⟨-, husername, hrealm, hsnonce, hstring, hdigest⟩
      refine ⟨hcomplete, husername, hrealm, hsnonce, hstring, ?_⟩
      rw [rfcDigest, if_pos hqop, hdigest]
    · intro hauthentic
      have hdigest := hauthentic.response
      rw [rfcDigest, if_pos hqop, Option.some.injEq] at hdigest
      exact ⟨hcomplete, hauthentic.username, hauthentic.realm, hauthentic.nonce,
        hauthentic.opaqueString, hdigest⟩
  · refine iff_of_false (fun haccepted => hcomplete haccepted.1) fun hauthentic => hcomplete ?_
    have hqop : (p.value .qop).bytes = auth := by
      have hdigest := hauthentic.response
      unfold rfcDigest at hdigest
      by_contra hqop
      rw [if_neg hqop] at hdigest
      cases hdigest
    exact h.refused hauthentic.complete hqop

def noText : CStr := ⟨[], List.not_mem_nil⟩

def oneBefore (text : CStr) : CStr := ⟨49 :: text.bytes, by simp [text.nul]⟩

theorem method_head (method : HTTPMethod) (rest : List UInt8) (text : List UInt8) :
    method.text ++ rest ≠ 58 :: text ∧ method.digestText ++ rest ≠ 58 :: text := by
  cases method <;> simp [HTTPMethod.text, HTTPMethod.digestText]

theorem Right.accepted (h : Right p order method) (horder : order.Perm ParamName.all)
    (hshort : (authorization p order).length < 2 ^ 31)
    (hcomplete : p.Complete (p.firstNonce order)) :
    p.firstNonce order = (p.value .nonce).bytes ∧ method.digestText = method.text ∧
      (p.value .qop).bytes = auth ∧ p.ncQuoted = false ∧ 44 ∉ (p.value .nc).bytes := by
  obtain ⟨A2, hA2⟩ : ∃ A2, A2 = method.digestText ++ 58 :: (p.value .uri).bytes := ⟨_, rfl⟩
  obtain ⟨text, htext⟩ : ∃ text, text = p.checkedText (p.firstNonce order) [] [] := ⟨_, rfl⟩
  have hhead : ∃ rest, text = 58 :: rest := by
    rw [htext]
    unfold Parameters.checkedText
    split <;> exact ⟨_, rfl⟩
  obtain ⟨rest, hrest⟩ := hhead
  have hdiffer : A2 ≠ text := by
    rw [hA2, hrest]
    exact (method_head method _ rest).2
  obtain ⟨md5, hmd5⟩ : ∃ md5 : List UInt8 → CStr, md5 = fun t =>
    if t = text then p.value .response else if t = A2 then noText
    else oneBefore (p.value .response) := ⟨_, rfl⟩
  have hchecked : (md5 text).bytes = (p.value .response).bytes := by
    simp [hmd5]
  have hH2 : (md5 A2).bytes = [] := by
    simp [hmd5, hdiffer, noText]
  have hother : ∀ t, (md5 t).bytes = (p.value .response).bytes → t = text := by
    intro t ht
    by_contra hne
    simp only [hmd5, if_neg hne] at ht
    split at ht
    · exact hcomplete.response ht.symm
    · exact absurd (congrArg List.length ht) (by simp [oneBefore])
  have hempty : ∀ t, (md5 t).bytes = [] → t = A2 := by
    intro t ht
    by_contra hne
    simp only [hmd5, if_neg hne] at ht
    split at ht
    · exact hcomplete.response ht
    · cases ht
  have hauthentic := (h md5 ⟨(p.value .realm).bytes, p.firstNonce order,
    (p.value .opaqueString).bytes⟩ (p.value .username).bytes noText).mp (by
      rw [authenticateDigest_iff md5 _ method _ noText horder hshort]
      refine ⟨hcomplete, rfl, rfl, rfl, rfl, ?_⟩
      rw [← hA2, hH2, show noText.bytes = [] from rfl, ← htext, hchecked])
  have hdigest := hauthentic.response
  unfold rfcDigest at hdigest
  split at hdigest
  · rename_i hqop
    have hsame := hother _ (Option.some.inj hdigest)
    have hnonce : p.firstNonce order = (p.value .nonce).bytes := hauthentic.nonce.symm
    rw [htext, hnonce, Parameters.checkedText, if_pos (newer_of_auth hqop), newerText, newerText]
      at hsame
    have hbehind := (List.cons.inj (List.append_cancel_left
      (List.cons.inj (List.append_cancel_left hsame)).2)).2
    obtain ⟨hquoted, hcomma⟩ := shownNc_inj hbehind.symm
    rw [shownNc_plain hquoted hcomma] at hbehind
    have hA2' := (List.cons.inj (List.append_cancel_left (List.cons.inj (List.append_cancel_left
      (List.cons.inj (List.append_cancel_left hbehind)).2)).2)).2
    have hmethod := hempty _ hA2'
    rw [hA2] at hmethod
    exact ⟨hnonce, (List.append_cancel_right hmethod).symm, hqop, hquoted, hcomma⟩
  · cases hdigest

theorem Right.refused (h : Right p order method) (horder : order.Perm ParamName.all)
    (hshort : (authorization p order).length < 2 ^ 31)
    (hcomplete : p.Complete (p.value .nonce).bytes) (hqop : (p.value .qop).bytes = auth) :
    p.Complete (p.firstNonce order) := by
  have haccepted := (h (fun _ => p.value .response) ⟨(p.value .realm).bytes,
    (p.value .nonce).bytes, (p.value .opaqueString).bytes⟩ (p.value .username).bytes noText).mpr
      ⟨hcomplete, rfl, rfl, rfl, rfl, by rw [rfcDigest, if_pos hqop]⟩
  rw [authenticateDigest_iff _ _ method _ noText horder hshort] at haccepted
  exact haccepted.1

/-- The verdict is right, whatever the digest and the server's values are, exactly for the requests
that do not lead the search astray. -/
theorem digest_exact (p : Parameters) (order : List ParamName) (method : HTTPMethod)
    (horder : order.Perm ParamName.all) (hshort : (authorization p order).length < 2 ^ 31) :
    Right p order method ↔ Unambiguous p order method :=
  ⟨fun h => ⟨h.accepted horder hshort, h.refused horder hshort⟩,
    fun h => h.right horder hshort⟩

end Exact

def shortText : ParamName → List UInt8
  | .username => [117]
  | .realm => [114]
  | .nonce => [110]
  | .uri => [47]
  | .response => [120]
  | .opaqueString => [111]
  | .qop => auth
  | .nc => [49]
  | .cnonce => [109]

theorem shortText_nul (name : ParamName) : 0 ∉ shortText name := by
  cases name <;> decide

def shortParameters : Parameters where
  value name := ⟨shortText name, shortText_nul name⟩
  qopQuoted := false
  ncQuoted := false
  quote := by
    intro name
    cases name <;> decide
  names := by
    intro name word
    cases name <;> cases word <;> decide

def clientFirst : List ParamName :=
  [.username, .realm, .cnonce, .nonce, .uri, .response, .opaqueString, .qop, .nc]

theorem digest_exact_short :
    Right shortParameters ParamName.all .get ↔ Unambiguous shortParameters ParamName.all .get :=
  digest_exact shortParameters ParamName.all .get (List.Perm.refl _) (by decide)

theorem clientFirst_refused : ¬ ∀ (p : Parameters) (order order' : List ParamName),
    order.Perm ParamName.all → order'.Perm ParamName.all →
    (authorization p order).length < 2 ^ 31 → (authorization p order').length < 2 ^ 31 →
    ∀ (md5 : List UInt8 → CStr) (s : Challenge) (method : HTTPMethod) (username : List UInt8)
      (H1 : CStr),
      authenticateDigest md5 s method (some (authorization p order)) username H1 =
        authenticateDigest md5 s method (some (authorization p order')) username H1 := by
  intro hall
  have hperm : clientFirst.Perm ParamName.all := by decide
  have hsame := hall shortParameters ParamName.all clientFirst (List.Perm.refl _) hperm (by decide)
    (by decide) (fun _ => ⟨[120], by decide⟩) ⟨[114], [110], [111]⟩ .get [117] noText
  have haccepted := (@authenticateDigest_iff shortParameters _ (fun _ => ⟨[120], by decide⟩)
    ⟨[114], [110], [111]⟩ .get [117] noText (List.Perm.refl ParamName.all) (by decide)).mpr
      ⟨⟨by decide, by decide, by decide, by decide, by decide, by decide⟩, rfl, rfl, rfl, rfl, rfl⟩
  rw [hsame, authenticateDigest_iff _ _ _ _ _ hperm (by decide)] at haccepted
  exact absurd haccepted.2.2.2.1 (by decide)

end Esp8266.Web
