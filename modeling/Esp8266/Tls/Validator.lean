/-! How a `WiFiClientSecureCtx` chooses what validates the server, and the validator of its own. -/
namespace Esp8266.Tls

structure Fingerprint where
  bytes : List UInt8
  length : bytes.length = 20
  deriving DecidableEq

inductive Key where
  | rsa (n e : List UInt8)
  | ec (curve : Nat) (q : List UInt8)
  deriving DecidableEq

structure PublicKey where
  key : Option Key

structure WiFiClientSecureCtx where
  useInsecure : Bool
  useFingerprint : Bool
  useSelfSigned : Bool
  fingerprint : Fingerprint
  knownkey : Option Nat
  knownkeyUsages : Nat
  ta : Option Nat
  now : Nat
  certStore : Option Nat

section Setters
variable (s : WiFiClientSecureCtx)

def clearAuthenticationSettings : WiFiClientSecureCtx :=
  { s with
    useInsecure := false
    useFingerprint := false
    useSelfSigned := false
    knownkey := none
    ta := none }

def setInsecure : WiFiClientSecureCtx :=
  { clearAuthenticationSettings s with useInsecure := true }

def setKnownKey (key usages : Nat) : WiFiClientSecureCtx :=
  { clearAuthenticationSettings s with knownkey := some key, knownkeyUsages := usages }

def setFingerprint (fingerprint : Fingerprint) : WiFiClientSecureCtx :=
  { clearAuthenticationSettings s with useFingerprint := true, fingerprint }

def allowSelfSignedCerts : WiFiClientSecureCtx :=
  { clearAuthenticationSettings s with useSelfSigned := true }

def setTrustAnchors (ta : Option Nat) : WiFiClientSecureCtx :=
  { clearAuthenticationSettings s with ta }

end Setters

def htoi (c : UInt8) : UInt8 :=
  if 48 ≤ c ∧ c ≤ 57 then c - 48
  else if 65 ≤ c ∧ c ≤ 70 then 10 + c - 65
  else if 97 ≤ c ∧ c ≤ 102 then 10 + c - 97
  else 255

abbrev Cursor := Option (List UInt8)

def readByte : Cursor → Option UInt8
  | none => none
  | some [] => some 0
  | some (c :: _) => some c

def advance : Cursor → Cursor
  | some (_ :: rest) => some rest
  | _ => none

def isSeparator (c : UInt8) : Bool := c = 32 || c = 58

/-- The inner loop of `setFingerprint`. -/
def skipSeparators (cursor : Cursor) : Cursor := cursor.map (List.dropWhile isSeparator)

inductive Scan where
  | stopped (cursor : Cursor) (fp : List UInt8)
  | refused
  | outside

/-- The loop of `setFingerprint`, with how many numbers are missing. -/
def scan : Nat → Cursor → List UInt8 → Scan
  | 0, cursor, fp => .stopped cursor fp
  | missing + 1, cursor, fp =>
    match readByte cursor with
    | none => .outside
    | some c =>
      if c = 0 then .stopped (advance cursor) fp
      else
        match readByte (advance cursor) with
        | none => .outside
        | some d =>
          if d = 0 then .refused
          else if 15 < htoi c ∨ 15 < htoi d then .refused
          else
            scan missing (skipSeparators (advance (advance cursor)))
              (fp ++ [(htoi c <<< 4) ||| htoi d])

inductive Parsed where
  | accepted (fingerprint : Fingerprint)
  | refused
  | outside
  deriving DecidableEq

/-- What `setFingerprint(const char *)` makes of a string. -/
def parseFingerprint (text : List UInt8) : Parsed :=
  match scan 20 (some text) [] with
  | .outside => .outside
  | .refused => .refused
  | .stopped cursor fp =>
    if h : fp.length = 20 then
      match readByte cursor with
      | none => .outside
      | some c => if c = 0 then .accepted ⟨fp, h⟩ else .refused
    else .refused

def setFingerprintString (s : WiFiClientSecureCtx) (text : List UInt8) :
    Bool × WiFiClientSecureCtx :=
  match parseFingerprint text with
  | .accepted fingerprint => (true, setFingerprint s fingerprint)
  | _ => (false, s)

inductive Validator where
  | insecure (matchFingerprint : Option Fingerprint) (allowSelfSigned : Bool)
  | knownKey (key : Key) (usages : Nat)
  | blank
  | minimal (ta : Option Nat) (now : Nat) (certStore : Option Nat)
  deriving DecidableEq

/-- What else `connect` depends on: the keys that are pointed to, whether there is memory for a
validator, and `BEARSSL_SSL_BASIC`. -/
structure Connect where
  keys : Nat → PublicKey
  memory : Bool
  basic : Bool

def installClientX509Validator (s : WiFiClientSecureCtx) (connect : Connect) :
    Bool × Option Validator :=
  if connect.memory = false then (false, none)
  else if s.useInsecure = true ∨ s.useFingerprint = true ∨ s.useSelfSigned = true then
    (true, some (.insecure (if s.useFingerprint = true then some s.fingerprint else none)
      s.useSelfSigned))
  else
    match s.knownkey with
    | some key =>
      match (connect.keys key).key with
      | some (.rsa n e) => (true, some (.knownKey (.rsa n e) s.knownkeyUsages))
      | some (.ec curve q) =>
        if connect.basic = true then (false, none)
        else (true, some (.knownKey (.ec curve q) s.knownkeyUsages))
      | none => (true, some .blank)
    | none => (true, some (.minimal s.ta s.now s.certStore))

inductive Name where
  | subject
  | issuer
  deriving DecidableEq

def nameBytes (name : Name) (parts : List (Name × List UInt8)) : List UInt8 :=
  (parts.filter fun part => part.1 = name).flatMap Prod.snd

/-- The hashes of BearSSL, and its decoder for certificates: a certificate can be pushed in pieces,
the parts of the names are reported on the way, and at the end there is an error or none. -/
structure BearSsl (δ : Type) where
  sha1 : List UInt8 → Fingerprint
  sha256 : List UInt8 → List UInt8
  decoderInit : δ
  decoderPush : δ → List UInt8 → δ × List (Name × List UInt8)
  lastError : δ → Nat
  push_nil : ∀ d, decoderPush d [] = (d, [])
  push_append : ∀ d first second, (decoderPush d (first ++ second)).1 =
    (decoderPush (decoderPush d first).1 second).1
  names_append : ∀ d first second name, nameBytes name (decoderPush d (first ++ second)).2 =
    nameBytes name (decoderPush d first).2 ++
      nameBytes name (decoderPush (decoderPush d first).1 second).2

/-- `br_x509_insecure_context`; of the hashes what was put in so far. -/
structure InsecureContext (δ : Type) where
  doneCert : Bool
  matchFingerprint : Option Fingerprint
  sha1Cert : List UInt8
  allowSelfSigned : Bool
  sha256Subject : List UInt8
  sha256Issuer : List UInt8
  ctx : δ

section Callbacks
variable {δ : Type} (ssl : BearSsl δ) (xc : InsecureContext δ)

def insecureStartChain : InsecureContext δ :=
  { xc with
    ctx := ssl.decoderInit
    doneCert := false
    sha1Cert := []
    sha256Subject := []
    sha256Issuer := [] }

def insecureAppend (buf : List UInt8) : InsecureContext δ :=
  if xc.doneCert = true then xc
  else
    let pushed := ssl.decoderPush xc.ctx buf
    { xc with
      sha1Cert := xc.sha1Cert ++ buf
      ctx := pushed.1
      sha256Subject := xc.sha256Subject ++ nameBytes .subject pushed.2
      sha256Issuer := xc.sha256Issuer ++ nameBytes .issuer pushed.2 }

def insecureEndCert : InsecureContext δ := { xc with doneCert := true }

def insecureEndChain : Nat :=
  if xc.doneCert = false then 1
  else if xc.matchFingerprint.any (fun fp => ssl.sha1 xc.sha1Cert ≠ fp) = true then 62
  else if xc.allowSelfSigned = true ∧
    ssl.sha256 xc.sha256Subject ≠ ssl.sha256 xc.sha256Issuer then 62
  else 0

def deliverCert (chunks : List (List UInt8)) : InsecureContext δ :=
  insecureEndCert (chunks.foldl (insecureAppend ssl) xc)

def deliver (chain : List (List (List UInt8))) : Nat :=
  insecureEndChain ssl (chain.foldl (deliverCert ssl) (insecureStartChain ssl xc))

def insecureInit (matchFingerprint : Option Fingerprint) (allowSelfSigned : Bool) :
    InsecureContext δ :=
  ⟨false, matchFingerprint, [], allowSelfSigned, [], [], ssl.decoderInit⟩

end Callbacks

structure CString where
  text : List UInt8
  plain : ∀ c ∈ text, c ≠ 0

inductive Setter where
  | setInsecure
  | setKnownKey (key usages : Nat)
  | setFingerprint (fingerprint : Fingerprint)
  | setFingerprintString (text : CString)
  | allowSelfSignedCerts
  | setTrustAnchors (ta : Option Nat)

def Setter.apply (s : WiFiClientSecureCtx) : Setter → WiFiClientSecureCtx
  | .setInsecure => Tls.setInsecure s
  | .setKnownKey key usages => Tls.setKnownKey s key usages
  | .setFingerprint fingerprint => Tls.setFingerprint s fingerprint
  | .setFingerprintString text => (Tls.setFingerprintString s text.text).2
  | .allowSelfSignedCerts => Tls.allowSelfSignedCerts s
  | .setTrustAnchors ta => Tls.setTrustAnchors s ta

def constructed (fingerprint : Fingerprint) (usages now : Nat) (certStore : Option Nat) :
    WiFiClientSecureCtx :=
  ⟨false, false, false, fingerprint, none, usages, none, now, certStore⟩

end Esp8266.Tls
