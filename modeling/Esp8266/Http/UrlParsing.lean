import Esp8266.Http.Redirects

/-! What `begin` takes from a URL, beside the parts that the URL was put together from. -/
namespace Esp8266.Http
open Esp8266.Ctype Esp8266.Numeral Esp8266.Web

structure Port where
  digits : List UInt8
  number : UInt16
  read : readDigits 10 digits 0 = (number.toNat, [])
  positive : number ≠ 0

structure Url where
  scheme : List UInt8
  auth : Option (List UInt8 × List UInt8)
  host : List UInt8
  port : Option Port
  rest : List UInt8
  scheme_known : scheme.map tolower = http ∨ scheme.map tolower = https
  auth_plain : ∀ a ∈ auth, ∀ c ∈ a.1 ++ a.2, c ≠ 47 ∧ c ≠ 64
  host_nonempty : host ≠ []
  host_plain : ∀ c ∈ host, c ≠ 58 ∧ c ≠ 47 ∧ c ≠ 64 ∧ c ≠ 63
  rest_begins : rest = [] ∨ rest.head? = some 47 ∨ rest.head? = some 63

namespace Url
variable (url : Url)

def protocol : List UInt8 := url.scheme.map tolower

def number : UInt16 :=
  match url.port with
  | none => defaultPort url.protocol
  | some port => port.number

def authText : List UInt8 :=
  match url.auth with
  | none => []
  | some a => a.1 ++ 58 :: a.2 ++ [64]

def portText : List UInt8 :=
  match url.port with
  | none => []
  | some port => 58 :: port.digits

def front : List UInt8 := url.authText ++ (url.host ++ url.portText)

def text : List UInt8 := url.scheme ++ 58 :: 47 :: 47 :: (url.front ++ url.rest)

def Named (field : List UInt8) : Prop :=
  field = url.host ∧ defaultPort url.protocol = url.number ∨
    ∃ digits, field = url.host ++ 58 :: digits ∧
      readDigits 10 digits 0 = (url.number.toNat, [])

def Addressed (type text : List UInt8) : Prop :=
  ∃ minor field remainder, url.Named field ∧
    text = type ++ [32] ++ written url.rest ++ [32] ++ version ++ [minor] ++ newline ++ hostName ++
      separator ++ field ++ newline ++ remainder

structure Begun (encode : Encode) (r : Bool × HTTPClient) : Prop where
  accepted : r.1 = true
  protocol : r.2.protocol = url.protocol
  host : r.2.host = url.host
  port : r.2.port = url.number
  authorization : ∀ a ∈ url.auth, r.2.base64Authorization = encode (a.1 ++ 58 :: a.2)
  uri : r.2.uri = url.rest
  request : ∀ type, url.Addressed type (r.2.requestText type)

structure ReadsBack : Prop where
  auth : ∀ a ∈ url.auth, 0 ∉ a.1 ++ a.2
  host : 0 ∉ url.host ∨ url.rest = [] ∧ url.port = none
  rest : url.rest.head? ≠ some 63
  http : url.protocol = Http.http → url.number ≠ 443
  https : url.protocol = Http.https → url.number ≠ 80

end Url

namespace HTTPClient
variable {s : HTTPClient}

theorem disconnect_net (s : HTTPClient) : ∃ net, s.disconnect true = { s with net := net } := by
  have hchange : ∀ (t : HTTPClient) (f : Context → Context), ∃ net, t.change f = { t with net := net } := by
    intro t f
    unfold change
    split
    · exact ⟨t.net, rfl⟩
    · exact ⟨_, rfl⟩
  unfold disconnect
  split
  · obtain ⟨net, hnet⟩ := hchange s fun context => { context with unread := false }
    obtain ⟨net', hnet'⟩ := hchange { s with net := net } Context.close
    rw [hnet]
    dsimp only
    split
    · exact ⟨net, rfl⟩
    · rw [hnet']
      exact ⟨net', rfl⟩
  · exact ⟨s.net, rfl⟩

theorem retarget_eq (host : List UInt8) (port : UInt16) (uri : List UInt8) (s : HTTPClient) :
    ∃ net canReuse, s.retarget host port uri =
      { s with host := host, port := port, uri := uri, net := net, canReuse := canReuse } := by
  unfold retarget
  dsimp only
  split
  · obtain ⟨net, hnet⟩ := disconnect_net { { s with host := host, port := port } with canReuse := false }
    exact ⟨net, false, by rw [hnet]⟩
  · exact ⟨s.net, s.canReuse, rfl⟩

end HTTPClient

theorem atol_digits {digits : List UInt8} {n : Nat} (h : readDigits 10 digits 0 = (n, []))
    (hsmall : n < 2 ^ 31) : atol digits = n := by
  have hmin : min (2 ^ 31 - 1) (n : Int) = n := by omega
  cases digits with
  | nil =>
    cases h
    rfl
  | cons first rest =>
    obtain ⟨d, hvalue, -⟩ := readDigits_digits h first List.mem_cons_self
    unfold atol
    simp only [sign_digits hvalue, h, Bool.false_eq_true, if_false, hmin]

namespace Url
variable {url : Url} {encode : Encode}

theorem scheme_plain (url : Url) : ∀ c ∈ url.scheme, c ≠ 58 ∧ c ≠ 0 := by
  intro c hc
  have hlower : tolower c ∈ http ++ https := by
    have hmem := List.mem_map_of_mem (f := tolower) hc
    rcases url.scheme_known with h | h
    · exact List.mem_append_left _ (h ▸ hmem)
    · exact List.mem_append_right _ (h ▸ hmem)
  constructor
  · rintro rfl
    exact absurd hlower (by decide)
  · rintro rfl
    exact absurd hlower (by decide)

theorem beginUrl_text (url : Url) (encode : Encode) (client : WiFiClient) (s : HTTPClient) :
    let read := authority (defaultPort url.protocol) (before 47 (url.front ++ url.rest))
    ∃ t, s.beginUrl encode client url.text = (true, t) ∧ t.protocol = url.protocol ∧
      t.host = read.2.host ∧ t.port = read.2.port ∧ t.uri = since 47 (url.front ++ url.rest) ∧
      t.base64Authorization = (read.1.map encode).getD s.base64Authorization := by
  have hplain := url.scheme_plain
  have hcolon : strchr 58 url.text = some url.scheme.length := by
    unfold text
    rw [strchr_append (fun h => (hplain 58 h).1 rfl), if_neg (fun h => (hplain 0 h).2 rfl)]
    simp [strchr]
  have htake : (url.text.take url.scheme.length).map tolower = url.protocol := by
    unfold text
    rw [List.take_left]
    rfl
  have hdrop : url.text.drop (url.scheme.length + 3) = url.front ++ url.rest := by
    unfold text
    rw [← List.drop_drop, List.drop_left]
    rfl
  have hknown : url.protocol = http ∨ url.protocol = https := url.scheme_known
  have hauthorize : ∀ (auth : Option (List UInt8)) (t : HTTPClient),
      t.authorize encode auth =
        { t with base64Authorization := (auth.map encode).getD t.base64Authorization } := by
    intro auth t
    cases auth <;> rfl
  intro read
  unfold HTTPClient.beginUrl HTTPClient.beginInternal
  simp only [hcolon, htake, hdrop, if_pos hknown, hauthorize]
  obtain ⟨net, canReuse, hretarget⟩ := HTTPClient.retarget_eq read.2.host read.2.port
    (since 47 (url.front ++ url.rest)) _
  exact ⟨_, congrArg _ hretarget, rfl, rfl, rfl, rfl, rfl⟩

theorem strchr_absent {ch : UInt8} {text : List UInt8} (h : ch ∉ text) : strchr ch text = none := by
  have hnone := strchr_append h []
  simpa [strchr] using hnone

theorem portText_plain {c : UInt8} (hc : c ∈ url.portText) : c ≠ 0 ∧ c ≠ 47 ∧ c ≠ 64 := by
  unfold portText at hc
  cases hport : url.port with
  | none =>
    rw [hport] at hc
    cases hc
  | some port =>
    rw [hport, List.mem_cons] at hc
    rcases hc with rfl | hdigit
    · decide
    · obtain ⟨d, hvalue, -⟩ := readDigits_digits port.read c hdigit
      refine ⟨?_, ?_, ?_⟩ <;> (rintro rfl; cases hvalue)

theorem authText_plain {c : UInt8} (hc : c ∈ url.authText) : c ≠ 47 := by
  unfold authText at hc
  cases hauth : url.auth with
  | none =>
    rw [hauth] at hc
    cases hc
  | some a =>
    rw [hauth] at hc
    simp only [List.mem_append, List.mem_cons, List.not_mem_nil, or_false] at hc
    rcases hc with (huser | rfl | hpassword) | rfl
    · exact (url.auth_plain a hauth c (List.mem_append_left _ huser)).1
    · decide
    · exact (url.auth_plain a hauth c (List.mem_append_right _ hpassword)).1
    · decide

theorem front_plain (url : Url) : 47 ∉ url.front := by
  unfold front
  simp only [List.mem_append, not_or]
  exact ⟨fun h => authText_plain h rfl, fun h => (url.host_plain 47 h).2.1 rfl,
    fun h => (portText_plain h).2.1 rfl⟩

theorem at_absent (url : Url) : strchr 64 (url.host ++ url.portText) = none := by
  apply strchr_absent
  rw [List.mem_append, not_or]
  exact ⟨fun h => (url.host_plain 64 h).2.2.1 rfl, fun h => (portText_plain h).2.2 rfl⟩

theorem authority_front (hauth : ∀ a ∈ url.auth, 0 ∉ a.1 ++ a.2) (port : UInt16) :
    authority port url.front =
      (url.auth.map fun a => a.1 ++ 58 :: a.2, (authority port (url.host ++ url.portText)).2) := by
  unfold front authText
  cases ha : url.auth with
  | none =>
    rw [List.nil_append]
    unfold authority
    simp only [at_absent, Option.map_none]
    cases strchr 58 (url.host ++ url.portText) <;> rfl
  | some a =>
    have hplain : 64 ∉ a.1 ++ 58 :: a.2 ∧ 0 ∉ a.1 ++ 58 :: a.2 := by
      have hnul := hauth a ha
      have hat := fun c hc => (url.auth_plain a ha c hc).2
      simp only [List.mem_append, List.mem_cons, not_or] at hnul hat ⊢
      exact ⟨⟨fun h => hat 64 (.inl h) rfl, by decide, fun h => hat 64 (.inr h) rfl⟩,
        hnul.1, by decide, hnul.2⟩
    have hsplit : a.1 ++ 58 :: a.2 ++ [64] ++ (url.host ++ url.portText) =
        (a.1 ++ 58 :: a.2) ++ 64 :: (url.host ++ url.portText) := by simp
    simp only [hsplit, Option.map_some]
    generalize a.1 ++ 58 :: a.2 = auth at hplain
    have hfound : strchr 64 (auth ++ 64 :: (url.host ++ url.portText)) = some auth.length := by
      rw [strchr_append hplain.1, if_neg hplain.2]
      simp [strchr]
    have hdrop : (auth ++ 64 :: (url.host ++ url.portText)).drop (auth.length + 1) =
        url.host ++ url.portText := by
      rw [← List.drop_drop, List.drop_left]
      rfl
    unfold authority
    simp only [hfound, at_absent, hdrop, Option.map_some, List.take_left]
    cases strchr 58 (url.host ++ url.portText) <;> rfl

theorem authority_host (hport : 0 ∉ url.host ∨ url.port = none) :
    (authority (defaultPort url.protocol) (url.host ++ url.portText)).2 =
      ⟨url.host, url.number⟩ := by
  have hhost : 58 ∉ url.host := fun h => (url.host_plain 58 h).1 rfl
  have habsent := url.at_absent
  unfold authority
  simp only [habsent]
  unfold number portText
  cases hp : url.port with
  | none => simp only [List.append_nil, strchr_absent hhost]
  | some port =>
    have hnul : 0 ∉ url.host := hport.resolve_right (by rw [hp]; exact Option.some_ne_none _)
    have hfound : strchr 58 (url.host ++ 58 :: port.digits) = some url.host.length := by
      rw [strchr_append hhost, if_neg hnul]
      simp [strchr]
    have hdrop : (url.host ++ 58 :: port.digits).drop (url.host.length + 1) = port.digits := by
      rw [← List.drop_drop, List.drop_left]
      rfl
    have hsmall := port.number.toNat_lt
    have hnumber : atol port.digits = port.number.toNat := atol_digits port.read (by omega)
    have hmod : ((port.number.toNat : Int) % 2 ^ 16).toNat = port.number.toNat := by omega
    simp only [hfound, hdrop, hnumber, List.take_left]
    rw [hmod, UInt16.ofNat_toNat]

theorem path_found (hrest : url.rest.head? ≠ some 63) (hfront : 0 ∉ url.front ∨ url.rest = []) :
    before 47 (url.front ++ url.rest) = url.front ∧
      since 47 (url.front ++ url.rest) = url.rest := by
  unfold before since
  rw [strchr_append url.front_plain]
  rcases url.rest_begins with hnil | hslash | hquery
  · simp [hnil, strchr]
  · obtain ⟨path, hpath⟩ : ∃ path, url.rest = 47 :: path := by
      cases hcons : url.rest with
      | nil =>
        rw [hcons] at hslash
        cases hslash
      | cons c path =>
        rw [hcons] at hslash
        exact ⟨path, by rw [Option.some.inj hslash]⟩
    have hnul : 0 ∉ url.front := hfront.resolve_right (by rw [hpath]; exact List.cons_ne_nil _ _)
    rw [if_neg hnul, hpath]
    simp [strchr]
  · exact absurd hquery hrest

theorem path_hidden (hfront : 0 ∈ url.front) :
    before 47 (url.front ++ url.rest) = url.front ++ url.rest ∧
      since 47 (url.front ++ url.rest) = [] := by
  unfold before since
  rw [strchr_append url.front_plain, if_pos hfront]
  exact ⟨rfl, rfl⟩

theorem front_nul_iff (hauth : ∀ a ∈ url.auth, 0 ∉ a.1 ++ a.2) :
    0 ∈ url.front ↔ 0 ∈ url.host := by
  have hport : 0 ∉ url.portText := fun h => (portText_plain h).1 rfl
  have hauthText : 0 ∉ url.authText := by
    unfold authText
    cases ha : url.auth with
    | none => exact List.not_mem_nil
    | some a =>
      have hnul := hauth a ha
      simp only [List.mem_append, List.mem_cons, not_or] at hnul ⊢
      exact ⟨⟨hnul.1, by decide, hnul.2⟩, by decide, List.not_mem_nil⟩
  simp only [front, List.mem_append, hauthText, hport, false_or, or_false]

def hostField (host : List UInt8) (port : UInt16) : List UInt8 :=
  host ++ if port ≠ 80 ∧ port ≠ 443 then 58 :: numeral 10 port.toNat else []

theorem requestText_split (type : List UInt8) (t : HTTPClient) :
    ∃ minor remainder, t.requestText type =
      type ++ [32] ++ written t.uri ++ [32] ++ version ++ [minor] ++ newline ++ hostName ++
        separator ++ hostField t.host t.port ++ newline ++ remainder := by
  have hbehind : ∀ (p q r : Prop) [Decidable p] [Decidable q] [Decidable r]
      (a b c d : List UInt8), ∃ remainder,
        (if p then [] else newline ++ a) ++ (if q then [] else newline ++ b) ++
          (if r then [] else newline ++ c) ++ (newline ++ d) = newline ++ remainder := by
    intro p q r _ _ _ a b c d
    split
    · split
      · split
        · exact ⟨d, rfl⟩
        · exact ⟨c ++ (newline ++ d), by simp⟩
      · exact ⟨_, by rw [List.append_assoc, List.nil_append, List.append_assoc]⟩
    · exact ⟨_, by rw [List.append_assoc, List.append_assoc, List.append_assoc]⟩
  obtain ⟨remainder, hremainder⟩ := hbehind (t.userAgent = []) t.useHTTP10
    (t.base64Authorization = []) (userAgentName ++ separator ++ t.userAgent) acceptEncoding
    (authorizationName ++ separator ++ ascii ['B', 'a', 's', 'i', 'c', ' '] ++ t.base64Authorization)
    (connectionName ++ separator ++ (if t.reuse then keepAlive else close) ++ newline ++
      t.headers ++ newline)
  refine ⟨if t.useHTTP10 then 48 else 49, remainder, ?_⟩
  have hminor : (if t.useHTTP10 then [48] else [49]) = [if t.useHTTP10 then (48 : UInt8) else 49] := by
    split <;> rfl
  unfold HTTPClient.requestText written hostField
  rw [hminor]
  simp only [List.append_assoc] at hremainder ⊢
  rw [← hremainder]

theorem defaultPort_cases (url : Url) :
    url.protocol = http ∧ defaultPort url.protocol = 80 ∨
      url.protocol = https ∧ defaultPort url.protocol = 443 := by
  rcases url.scheme_known with h | h
  · exact .inl ⟨h, by rw [protocol, h]; rfl⟩
  · exact .inr ⟨h, by rw [protocol, h]; rfl⟩

theorem addressed_iff (type : List UInt8) {t : HTTPClient} (hhost : t.host = url.host)
    (hport : t.port = url.number) (huri : t.uri = url.rest) :
    url.Addressed type (t.requestText type) ↔
      (url.protocol = http → url.number ≠ 443) ∧ (url.protocol = https → url.number ≠ 80) := by
  obtain ⟨minor, remainder, htext⟩ := requestText_split type t
  rw [hhost, hport, huri] at htext
  by_cases hwritten : url.number ≠ 80 ∧ url.number ≠ 443
  · have hfield : hostField url.host url.number = url.host ++ 58 :: numeral 10 url.number.toNat := by
      rw [hostField, if_pos hwritten]
    refine iff_of_true ⟨minor, _, remainder, .inr ⟨_, hfield, ?_⟩, htext⟩
      ⟨fun _ => hwritten.2, fun _ => hwritten.1⟩
    exact readDigits_numeral (by decide) (by decide) _
  · have hfield : hostField url.host url.number = url.host := by
      rw [hostField, if_neg hwritten, List.append_nil]
    have hdefault : (url.protocol = http → url.number ≠ 443) ∧
        (url.protocol = https → url.number ≠ 80) ↔ defaultPort url.protocol = url.number := by
      have hports : url.number = 80 ∨ url.number = 443 := by
        by_cases h80 : url.number = 80
        · exact .inl h80
        · exact .inr (Classical.byContradiction fun h443 => hwritten ⟨h80, h443⟩)
      rcases url.defaultPort_cases with ⟨hp, hd⟩ | ⟨hp, hd⟩ <;> rcases hports with hn | hn <;>
        simp [hp, hn] <;> decide
    rw [hdefault]
    rw [hfield] at htext
    constructor
    · rintro ⟨minor', field, remainder', hnamed, heq⟩
      rw [htext] at heq
      simp only [List.append_assoc, List.append_cancel_left_eq, List.cons_append, List.nil_append,
        List.cons.injEq] at heq
      obtain ⟨-, -, -, hrest⟩ := heq
      rcases hnamed with ⟨-, hsame⟩ | ⟨digits, rfl, -⟩
      · exact hsame
      · rw [List.append_assoc] at hrest
        have hhead := List.append_cancel_left hrest
        exact absurd (List.cons.inj hhead).1 (by decide)
    · intro hsame
      exact ⟨minor, url.host, remainder, .inl ⟨rfl, hsame⟩, htext⟩

theorem authority_unparted (hnul : 0 ∈ url.host) (port : UInt16) :
    (authority port (url.host ++ url.portText)).2.host = url.host ++ url.portText := by
  have hnone : strchr 58 (url.host ++ url.portText) = none := by
    rw [strchr_append (fun h => (url.host_plain 58 h).1 rfl), if_pos hnul]
  unfold authority
  simp only [at_absent, hnone]

theorem authority_hidden {a : List UInt8 × List UInt8} (ha : a ∈ url.auth) (hnul : 0 ∈ a.1 ++ a.2)
    (port : UInt16) : (authority port (before 47 (url.front ++ url.rest))).1 = none := by
  have hsplit : url.front ++ url.rest =
      (a.1 ++ 58 :: a.2) ++ ([64] ++ (url.host ++ url.portText) ++ url.rest) := by
    rw [front, authText, Option.mem_def.mp ha]
    simp
  have hmem : 0 ∈ a.1 ++ 58 :: a.2 := by
    simpa using hnul
  have hplain : 64 ∉ a.1 ++ 58 :: a.2 := by
    have hat := fun c hc => (url.auth_plain a ha c hc).2
    simp only [List.mem_append, List.mem_cons, not_or] at hat ⊢
    exact ⟨fun h => hat 64 (.inl h) rfl, by decide, fun h => hat 64 (.inr h) rfl⟩
  have hfront : 0 ∈ url.front := by
    rw [front, authText, Option.mem_def.mp ha]
    simp only [List.mem_append] at hmem ⊢
    exact .inl (.inl hmem)
  rw [(path_hidden hfront).1, hsplit]
  unfold authority
  rw [strchr_append hplain, if_pos hmem]
  dsimp only
  split <;> rfl

/-- The URL is read back from its text, whatever the object was used for before, exactly when no
separator is hidden and the port is not left out by mistake. -/
theorem url_exact (encode : Encode) (url : Url) :
    (∀ client (s : HTTPClient), url.Begun encode (s.beginUrl encode client url.text)) ↔
      url.ReadsBack := by
  constructor
  · intro hall
    have hauth : ∀ a ∈ url.auth, 0 ∉ a.1 ++ a.2 := by
      intro a ha hnul
      -- what the object had before is still there
      have hbegun := hall ⟨.given 0, false⟩
        { HTTPClient.new with base64Authorization := 0 :: encode (a.1 ++ 58 :: a.2) }
      obtain ⟨t, hbegin, -, -, -, -, hencoded⟩ := url.beginUrl_text encode ⟨.given 0, false⟩
        { HTTPClient.new with base64Authorization := 0 :: encode (a.1 ++ 58 :: a.2) }
      have hread := hbegun.authorization a ha
      rw [hbegin, hencoded, authority_hidden ha hnul] at hread
      exact absurd (congrArg List.length hread) (Nat.succ_ne_self _)
    have hbegun := hall ⟨.given 0, false⟩ HTTPClient.new
    obtain ⟨t, hbegin, -, hhost, hport, huri, -⟩ :=
      url.beginUrl_text encode ⟨.given 0, false⟩ HTTPClient.new
    rw [hbegin] at hbegun
    have hrest : since 47 (url.front ++ url.rest) = url.rest := huri.symm.trans hbegun.uri
    obtain ⟨hhttp, hhttps⟩ := (addressed_iff [] hbegun.host hbegun.port hbegun.uri).mp
      (hbegun.request [])
    refine ⟨hauth, ?_, ?_, hhttp, hhttps⟩
    · by_cases hnul : 0 ∈ url.host
      · obtain ⟨hbefore, hsince⟩ := path_hidden ((front_nul_iff hauth).mpr hnul)
        have hnil : url.rest = [] := hrest.symm.trans hsince
        refine .inr ⟨hnil, ?_⟩
        rw [hbefore, hnil, List.append_nil, authority_front hauth] at hhost
        have hread := hhost.symm.trans hbegun.host
        cases hp : url.port with
        | none => rfl
        | some port =>
          rw [authority_unparted hnul, portText, hp] at hread
          have hlength := congrArg List.length hread
          rw [List.length_append, List.length_cons] at hlength
          omega
      · exact .inl hnul
    · intro hquery
      have hne : since 47 (url.front ++ url.rest) ≠ [] := by
        rw [hrest]
        intro hnil
        rw [hnil] at hquery
        cases hquery
      have hslash := since_head 47 _ hne
      rw [hrest, hquery] at hslash
      exact absurd (Option.some.inj hslash) (by decide)
  · intro hread client s
    obtain ⟨t, hbegin, hprotocol, hhost, hport, huri, hencoded⟩ := url.beginUrl_text encode client s
    have hfront : 0 ∉ url.front ∨ url.rest = [] := by
      rcases hread.host with hnul | ⟨hrest, -⟩
      · exact .inl ((front_nul_iff hread.auth).not.mpr hnul)
      · exact .inr hrest
    have hhidden : 0 ∉ url.host ∨ url.port = none := hread.host.imp_right And.right
    obtain ⟨hbefore, hsince⟩ := path_found hread.rest hfront
    rw [hbefore, authority_front hread.auth, authority_host hhidden] at hhost hport
    rw [hbefore, authority_front hread.auth] at hencoded
    rw [hsince] at huri
    rw [hbegin]
    refine ⟨rfl, hprotocol, hhost, hport, ?_, huri, ?_⟩
    · intro a ha
      rw [hencoded, Option.mem_def.mp ha]
      rfl
    · intro type
      exact (addressed_iff type hhost hport huri).mpr ⟨hread.http, hread.https⟩

theorem http_known : http.map tolower = http ∨ http.map tolower = https := .inl rfl

theorem noAuth_plain : ∀ a ∈ (none : Option (List UInt8 × List UInt8)),
    ∀ c ∈ a.1 ++ a.2, c ≠ 47 ∧ c ≠ 64 := by
  intro a h
  cases h

theorem letter_nonempty : ([104] : List UInt8) ≠ [] := List.cons_ne_nil _ _

theorem letter_plain : ∀ c ∈ ([104] : List UInt8), c ≠ 58 ∧ c ≠ 47 ∧ c ≠ 64 ∧ c ≠ 63 := by
  simp

theorem query_begins : ([63, 120] : List UInt8) = [] ∨
    ([63, 120] : List UInt8).head? = some 47 ∨ ([63, 120] : List UInt8).head? = some 63 :=
  .inr (.inr rfl)

def queryUrl : Url where
  scheme := http
  auth := none
  host := [104]
  port := none
  rest := [63, 120]
  scheme_known := http_known
  auth_plain := noAuth_plain
  host_nonempty := letter_nonempty
  host_plain := letter_plain
  rest_begins := query_begins

theorem query_taken_for_host : ¬ ∀ (encode : Encode) (url : Url) (client : WiFiClient)
    (s : HTTPClient), url.Begun encode (s.beginUrl encode client url.text) := by
  intro hall
  have hbegun := hall id queryUrl ⟨.given 0, false⟩ HTTPClient.new
  exact absurd hbegun.host (by decide)

end Url
end Esp8266.Http
