import Esp8266.Ota.Authentication
import Esp8266.Strings.Base64
import Esp8266.Web.Digest

/-! `authenticate`: a header of the Basic scheme is compared with the credentials in Base64, one of
the Digest scheme goes to `authenticateDigest`. -/
namespace Esp8266.Web
open Esp8266.CString Esp8266.Ctype

def basicScheme : List UInt8 := [66, 97, 115, 105, 99]

def credentialHash (md5 : List UInt8 → CStr) (username realm password : List UInt8) : CStr :=
  md5 (visible (username ++ 58 :: (realm ++ 58 :: password)))

def raw (username password : CStr) : List UInt8 := username.bytes ++ 58 :: password.bytes

/-- `authenticate`, where `reserved` says whether there is memory for the credentials in Base64. -/
def authenticate (md5 : List UInt8 → CStr) (s : Challenge) (currentMethod : HTTPMethod)
    (reserved : Bool) (authorization : Option (List UInt8)) (username password : CStr) : Bool :=
  match authorization with
  | none => false
  | some authReq =>
    if startsWith authReq basicScheme = true then
      let authReq := trim (substring authReq 6 authReq.length)
      if (raw username password).length = 0 then false
      else
        let encoded := Base64.encode reserved (raw username password) false
        if encoded.length = 0 then false else Ota.equalsConstantTime authReq encoded
    else if startsWith authReq digestScheme = true then
      let realm := extractParam authReq (paramMark .realm [34]) 34
      authenticateDigest md5 s currentMethod authorization username.bytes
        (credentialHash md5 username.bytes realm password.bytes)
    else false

def token (username password : CStr) : List UInt8 :=
  Base64.encode true (raw username password) false

theorem encodeValue_graphic (n : UInt8) : isspace (Base64.encodeValue n) = false := by
  have hall : ∀ k : Fin 256, isspace (Base64.encodeValue (UInt8.ofNat k)) = false := by
    decide +kernel
  simpa using hall n.toFin

theorem encodeBlock_graphic {s : Base64.EncodeState} (h : ¬ s.stepsnewline > 0)
    (plaintext : List UInt8) : ∀ x ∈ (Base64.encodeBlock s plaintext).2, isspace x = false := by
  induction plaintext generalizing s with
  | nil => exact fun x hx => absurd hx List.not_mem_nil
  | cons c plaintext ih =>
    have hfirst : (∀ x ∈ (Base64.encodeByte s c).2, isspace x = false) ∧
        ¬ (Base64.encodeByte s c).1.stepsnewline > 0 := by
      unfold Base64.encodeByte
      cases s.step <;> simp [h, encodeValue_graphic]
    intro x hx
    rcases List.mem_append.mp hx with hx | hx
    · exact hfirst.1 x hx
    · exact ih hfirst.2 x hx

/-- Without newlines there is nothing that `trim` takes away, and no NUL. -/
theorem encode_graphic (data : List UInt8) :
    ∀ x ∈ Base64.encode true data false, isspace x = false ∧ x ≠ 0 := by
  intro x hx
  rw [Base64.encode_eq] at hx
  rcases List.mem_append.mp hx with hx | hx
  · exact ⟨encodeBlock_graphic (by decide) data x hx, Base64.encodeBlock_ne_zero _ _ x hx⟩
  · refine ⟨?_, Base64.encodeBlockend_ne_zero _ x hx⟩
    unfold Base64.encodeBlockend at hx
    split at hx
    · exact absurd hx List.not_mem_nil
    all_goals
      rcases List.mem_cons.mp hx with rfl | hx
      · exact encodeValue_graphic _
      · simp only [List.mem_cons, List.not_mem_nil, or_false, or_self] at hx
        rw [hx]
        rfl

theorem trim_padded {before code after : List UInt8} (hbefore : ∀ x ∈ before, isspace x = true)
    (hafter : ∀ x ∈ after, isspace x = true) (hcode : ∀ x ∈ code, isspace x = false) :
    trim (before ++ (code ++ after)) = code := by
  have hkeep (c : List UInt8) (hc : ∀ x ∈ c, isspace x = false) : c.dropWhile isspace = c := by
    cases c with
    | nil => rfl
    | cons x c => rw [List.dropWhile_cons_of_neg (by simp [hc x (List.mem_cons_self ..)])]
  have hback : (code ++ after).reverse.dropWhile isspace = code.reverse := by
    rw [List.reverse_append, List.dropWhile_append_of_pos (by simpa using hafter),
      hkeep _ (by simpa using hcode)]
  unfold trim
  rw [List.dropWhile_append_of_pos hbefore]
  cases code with
  | nil =>
    rw [List.nil_append, List.dropWhile_eq_nil_iff.mpr hafter]
    rfl
  | cons x rest =>
    rw [List.cons_append, List.dropWhile_cons_of_neg (by simp [hcode x (List.mem_cons_self ..)]),
      ← List.cons_append, hback, List.reverse_reverse]

theorem equalsConstantTime_refl {text : List UInt8} (h : ∀ x ∈ text, x ≠ 0) :
    Ota.equalsConstantTime text text = true := by
  have hzip : text.zip text = text.map fun c => (c, c) := List.zipWith_self
  have hall : (text.zip text).takeWhile (fun pair => pair.1 ≠ 0) = text.zip text := by
    rw [hzip, List.takeWhile_eq_self_iff]
    simpa using h
  have hequal : (text.zip text).countP (fun pair => pair.1 = pair.2) = text.length := by
    rw [hzip, List.countP_eq_length.mpr (by simp), List.length_map]
  have hdiff : (text.zip text).countP (fun pair => pair.1 ≠ pair.2) = 0 := by
    rw [hzip, List.countP_eq_zero.mpr (by simp)]
  unfold Ota.equalsConstantTime
  rw [if_neg (fun hne => hne rfl)]
  split
  · rfl
  · simp only [hall, hequal, hdiff, decide_true, Bool.and_self]

theorem token_injective {username password name word : CStr}
    (h : token name word = token username password) :
    raw name word = raw username password := by
  rw [← Base64.decodeBlock_encode 0 (fun _ => 0) (raw name word) false,
    ← Base64.decodeBlock_encode 0 (fun _ => 0) (raw username password) false, ← token, h, token]

theorem raw_injective {username password name word : CStr}
    (husername : 58 ∉ username.bytes) (hname : 58 ∉ name.bytes)
    (h : raw name word = raw username password) :
    name.bytes = username.bytes ∧ word.bytes = password.bytes := by
  have hfront (user pass : CStr) (hcolon : 58 ∉ user.bytes) :
      (raw user pass).takeWhile (· ≠ 58) = user.bytes := by
    have hall : ∀ c ∈ user.bytes, decide (c ≠ 58) = true := fun c hc =>
      decide_eq_true fun hsame => hcolon (hsame ▸ hc)
    rw [raw, List.takeWhile_append_of_pos hall]
    simp
  have hsame : name.bytes = username.bytes := by
    rw [← hfront name word hname, h, hfront username password husername]
  rw [raw, raw, hsame] at h
  exact ⟨hsame, (List.cons.inj (List.append_cancel_left h)).2⟩

/-- A client that sends credentials in Base64, with any white space around them, is let in if they
are the right ones. -/
theorem authenticate_basic {username password name word : CStr} {before after : List UInt8}
    (hbefore : ∀ x ∈ before, isspace x = true) (hafter : ∀ x ∈ after, isspace x = true)
    (husername : 58 ∉ username.bytes) (hname : 58 ∉ name.bytes)
    (md5 : List UInt8 → CStr) (s : Challenge) (currentMethod : HTTPMethod) (separator : UInt8) :
    authenticate md5 s currentMethod true
        (some (basicScheme ++ separator :: (before ++ (token name word ++ after))))
        username password = true ↔
      name.bytes = username.bytes ∧ word.bytes = password.bytes := by
  generalize hheader : basicScheme ++ separator :: (before ++ (token name word ++ after)) = header
  have hstarts : startsWith header basicScheme = true := by
    rw [← hheader, startsWith, List.take_left, List.length_append]
    simp
  have hrest : trim (substring header 6 header.length) = token name word := by
    rw [substring_eq _ (by rw [← hheader]; simp [basicScheme]), ← hheader,
      List.take_of_length_le (by simp)]
    exact trim_padded hbefore hafter fun x hx => (encode_graphic _ x hx).1
  have hraw : (raw username password).length ≠ 0 := by simp [raw]
  have hencoded : (Base64.encode true (raw username password) false).length ≠ 0 := by
    intro hzero
    have := Base64.decodeBlock_encode 0 (fun _ => 0) (raw username password) false
    rw [List.eq_nil_of_length_eq_zero hzero] at this
    exact hraw (by rw [← this]; rfl)
  unfold authenticate
  simp only [if_pos hstarts, hrest, if_neg hraw, if_neg hencoded]
  constructor
  · intro hequal
    exact raw_injective husername hname (token_injective (Ota.equalsConstantTime_eq hequal))
  · rintro ⟨hsame, hword⟩
    have htoken : token name word = Base64.encode true (raw username password) false := by
      rw [token, raw, raw, hsame, hword]
    rw [htoken]
    exact equalsConstantTime_refl fun x hx => (encode_graphic _ x hx).2

theorem authenticate_basic_ab :
    authenticate (fun _ => ⟨[], by decide⟩) ⟨[], [], []⟩ .get true
        (some (basicScheme ++ 32 :: ([] ++ (token ⟨[97], by decide⟩ ⟨[98], by decide⟩ ++ [32]))))
        ⟨[97], by decide⟩ ⟨[98], by decide⟩ = true :=
  (authenticate_basic (fun _ hx => absurd hx List.not_mem_nil) (List.forall_mem_singleton.mpr rfl)
    (by decide) (by decide) _ _ _ 32).mpr ⟨rfl, rfl⟩

end Esp8266.Web
