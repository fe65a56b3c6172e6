import Esp8266.Tls.Fingerprint

/-! The policy that the setters choose, and whether the engine gets a validator of it. -/
namespace Esp8266.Tls

inductive Policy where
  | chain (ta : Option Nat)
  | insecure
  | knownKey (key usages : Nat)
  | fingerprint (fingerprint : Fingerprint)
  | selfSigned

def Policy.after (p : Policy) : Setter → Policy
  | .setInsecure => .insecure
  | .setKnownKey key usages => .knownKey key usages
  | .setFingerprint fp => .fingerprint fp
  | .setFingerprintString text =>
    match parseFingerprint text.text with
    | .accepted fp => .fingerprint fp
    | _ => p
  | .allowSelfSignedCerts => .selfSigned
  | .setTrustAnchors ta => .chain ta

def chosen (setters : List Setter) : Policy := setters.foldl Policy.after (.chain none)

def Policy.validator (connect : Connect) (now : Nat) (certStore : Option Nat) :
    Policy → Option Validator
  | .chain ta => some (.minimal ta now certStore)
  | .insecure => some (.insecure none false)
  | .knownKey key usages => (connect.keys key).key.map fun key => .knownKey key usages
  | .fingerprint fp => some (.insecure (some fp) false)
  | .selfSigned => some (.insecure none true)

def Encodes (s : WiFiClientSecureCtx) : Policy → Prop
  | .chain ta => s.useInsecure = false ∧ s.useFingerprint = false ∧ s.useSelfSigned = false ∧
      s.knownkey = none ∧ s.ta = ta
  | .insecure => s.useInsecure = true ∧ s.useFingerprint = false ∧ s.useSelfSigned = false
  | .knownKey key usages => s.useInsecure = false ∧ s.useFingerprint = false ∧
      s.useSelfSigned = false ∧ s.knownkey = some key ∧ s.knownkeyUsages = usages
  | .fingerprint fingerprint => s.useFingerprint = true ∧ s.fingerprint = fingerprint ∧
      s.useSelfSigned = false
  | .selfSigned => s.useFingerprint = false ∧ s.useSelfSigned = true

section Setters
variable {s : WiFiClientSecureCtx} {p : Policy}

theorem Encodes.after (h : Encodes s p) (setter : Setter) :
    Encodes (setter.apply s) (p.after setter) ∧
      (setter.apply s).now = s.now ∧ (setter.apply s).certStore = s.certStore := by
  cases setter with
  | setInsecure => exact ⟨⟨rfl, rfl, rfl⟩, rfl, rfl⟩
  | setKnownKey key usages => exact ⟨⟨rfl, rfl, rfl, rfl, rfl⟩, rfl, rfl⟩
  | setFingerprint fingerprint => exact ⟨⟨rfl, rfl, rfl⟩, rfl, rfl⟩
  | setFingerprintString text =>
    unfold Setter.apply Policy.after setFingerprintString
    simp only
    cases parseFingerprint text.text with
    | accepted fingerprint => exact ⟨⟨rfl, rfl, rfl⟩, rfl, rfl⟩
    | refused => exact ⟨h, rfl, rfl⟩
    | outside => exact ⟨h, rfl, rfl⟩
  | allowSelfSignedCerts => exact ⟨⟨rfl, rfl⟩, rfl, rfl⟩
  | setTrustAnchors ta => exact ⟨⟨rfl, rfl, rfl, rfl, rfl⟩, rfl, rfl⟩

theorem Encodes.run (h : Encodes s p) (setters : List Setter) :
    Encodes (setters.foldl Setter.apply s) (setters.foldl Policy.after p) ∧
      (setters.foldl Setter.apply s).now = s.now ∧
      (setters.foldl Setter.apply s).certStore = s.certStore := by
  induction setters generalizing s p with
  | nil => exact ⟨h, rfl, rfl⟩
  | cons setter setters ih =>
    obtain ⟨hnext, hnow, hstore⟩ := h.after setter
    obtain ⟨hrest, hnow', hstore'⟩ := ih hnext
    exact ⟨hrest, hnow'.trans hnow, hstore'.trans hstore⟩

theorem Encodes.install (h : Encodes s p) (connect : Connect) :
    (connect.memory = false → (installClientX509Validator s connect).2 = none) ∧
      ∀ v, (installClientX509Validator s connect).2 = some v →
        p.validator connect s.now s.certStore = some v ∧ v ≠ .blank ∨
          v = .blank ∧ ∃ key usages, p = .knownKey key usages ∧ (connect.keys key).key = none := by
  refine ⟨fun hmemory => ?_, fun v hv => ?_⟩
  · unfold installClientX509Validator
    rw [if_pos hmemory]
  · unfold installClientX509Validator at hv
    split at hv
    · cases hv
    · cases p with
      | chain ta =>
        obtain ⟨hinsecure, hfingerprint, hself, hkey, hta⟩ := h
        rw [hinsecure, hfingerprint, hself, hkey, hta] at hv
        simp only [Bool.false_eq_true, or_self, if_false] at hv
        rw [← Option.some.inj hv]
        exact .inl ⟨rfl, Validator.noConfusion⟩
      | insecure =>
        obtain ⟨hinsecure, hfingerprint, hself⟩ := h
        rw [if_pos (.inl hinsecure), hfingerprint, hself] at hv
        rw [← Option.some.inj hv]
        exact .inl ⟨rfl, Validator.noConfusion⟩
      | fingerprint fingerprint =>
        obtain ⟨hfingerprint, hvalue, hself⟩ := h
        rw [if_pos (.inr (.inl hfingerprint)), if_pos hfingerprint, hvalue, hself] at hv
        rw [← Option.some.inj hv]
        exact .inl ⟨rfl, Validator.noConfusion⟩
      | selfSigned =>
        obtain ⟨hfingerprint, hself⟩ := h
        rw [if_pos (.inr (.inr hself)), hfingerprint, hself] at hv
        rw [← Option.some.inj hv]
        exact .inl ⟨rfl, Validator.noConfusion⟩
      | knownKey key usages =>
        obtain ⟨hinsecure, hfingerprint, hself, hkey, husages⟩ := h
        rw [hinsecure, hfingerprint, hself, hkey, husages] at hv
        simp only [Bool.false_eq_true, or_self, if_false] at hv
        cases hparsed : (connect.keys key).key with
        | none =>
          rw [hparsed] at hv
          exact .inr ⟨(Option.some.inj hv).symm, key, usages, rfl, hparsed⟩
        | some parsed =>
          have hvalidator : (Policy.knownKey key usages).validator connect s.now s.certStore =
              some (.knownKey parsed usages) := congrArg (Option.map _) hparsed
          rw [hparsed] at hv
          rw [hvalidator]
          cases parsed with
          | rsa n e =>
            rw [← Option.some.inj hv]
            exact .inl ⟨rfl, Validator.noConfusion⟩
          | ec curve q =>
            simp only at hv
            split at hv
            · cases hv
            · rw [← Option.some.inj hv]
              exact .inl ⟨rfl, Validator.noConfusion⟩

theorem Encodes.install_unparsed {key usages : Nat} (h : Encodes s (.knownKey key usages))
    {connect : Connect} (hmemory : connect.memory = true)
    (hkey : (connect.keys key).key = none) :
    (installClientX509Validator s connect).2 = some .blank := by
  obtain ⟨hinsecure, hfingerprint, hself, hknown, _⟩ := h
  unfold installClientX509Validator
  rw [if_neg (by rw [hmemory]; decide), hinsecure, hfingerprint, hself, if_neg (by decide), hknown]
  simp only
  rw [hkey]

theorem Encodes.install_selfSigned (h : Encodes s .selfSigned) {connect : Connect}
    (hmemory : connect.memory = true) :
    (installClientX509Validator s connect).2 = some (.insecure none true) := by
  obtain ⟨hfingerprint, hself⟩ := h
  unfold installClientX509Validator
  rw [if_neg (by rw [hmemory]; decide), if_pos (.inr (.inr hself)), hfingerprint, hself]
  rfl

end Setters

theorem validator_selfSigned {p : Policy} {connect : Connect} {now : Nat} {certStore : Option Nat}
    (h : p.validator connect now certStore = some (.insecure none true)) : p = .selfSigned := by
  cases p with
  | selfSigned => rfl
  | knownKey key usages =>
    obtain ⟨_, _, heq⟩ := Option.map_eq_some_iff.mp h
    cases heq
  | _ => cases h

section Chains
variable {δ : Type} (ssl : BearSsl δ)

def nameOf (name : Name) (cert : List UInt8) : List UInt8 :=
  nameBytes name (ssl.decoderPush ssl.decoderInit cert).2

def Decodes (cert : List UInt8) : Prop :=
  ssl.lastError (ssl.decoderPush ssl.decoderInit cert).1 = 0

def SameNames (cert : List UInt8) : Prop :=
  ssl.sha256 (nameOf ssl .subject cert) = ssl.sha256 (nameOf ssl .issuer cert)

theorem append_chunks (chunks : List (List UInt8)) (xc : InsecureContext δ)
    (hfirst : xc.doneCert = false) :
    chunks.foldl (insecureAppend ssl) xc = { xc with
      sha1Cert := xc.sha1Cert ++ chunks.flatten
      ctx := (ssl.decoderPush xc.ctx chunks.flatten).1
      sha256Subject := xc.sha256Subject ++
        nameBytes .subject (ssl.decoderPush xc.ctx chunks.flatten).2
      sha256Issuer := xc.sha256Issuer ++
        nameBytes .issuer (ssl.decoderPush xc.ctx chunks.flatten).2 } := by
  induction chunks generalizing xc with
  | nil =>
    have hnone : ∀ name, nameBytes name [] = [] := fun _ => rfl
    rw [List.flatten_nil, ssl.push_nil]
    simp only [hnone, List.append_nil, List.foldl_nil]
  | cons buf chunks ih =>
    have hnext : insecureAppend ssl xc buf = { xc with
        sha1Cert := xc.sha1Cert ++ buf
        ctx := (ssl.decoderPush xc.ctx buf).1
        sha256Subject := xc.sha256Subject ++
          nameBytes .subject (ssl.decoderPush xc.ctx buf).2
        sha256Issuer := xc.sha256Issuer ++
          nameBytes .issuer (ssl.decoderPush xc.ctx buf).2 } := by
      unfold insecureAppend
      rw [if_neg (ne_true_of_eq_false hfirst)]
    rw [List.foldl_cons, hnext, ih, List.flatten_cons, ssl.push_append, ssl.names_append,
      ssl.names_append]
    · simp only [List.append_assoc]
    · exact hfirst

theorem deliverCert_done (xc : InsecureContext δ) (hdone : xc.doneCert = true)
    (chunks : List (List UInt8)) : deliverCert ssl xc chunks = xc := by
  have hsame : chunks.foldl (insecureAppend ssl) xc = xc := by
    induction chunks with
    | nil => rfl
    | cons buf chunks ih =>
      have happend : insecureAppend ssl xc buf = xc := if_pos hdone
      rw [List.foldl_cons, happend, ih]
  unfold deliverCert insecureEndCert
  rw [hsame, ← hdone]

theorem deliver_rest (xc : InsecureContext δ) (hdone : xc.doneCert = true)
    (chain : List (List (List UInt8))) : chain.foldl (deliverCert ssl) xc = xc := by
  induction chain with
  | nil => rfl
  | cons chunks chain ih => rw [List.foldl_cons, deliverCert_done ssl xc hdone, ih]

theorem deliver_iff (fingerprint : Option Fingerprint) (selfSigned : Bool)
    (chain : List (List (List UInt8))) :
    deliver ssl (insecureInit ssl fingerprint selfSigned) chain = 0 ↔
      ∃ first rest, chain = first :: rest ∧
        (∀ fp, fingerprint = some fp → ssl.sha1 first.flatten = fp) ∧
        (selfSigned = true → SameNames ssl first.flatten) := by
  cases chain with
  | nil =>
    have hnone : deliver ssl (insecureInit ssl fingerprint selfSigned) [] = 1 := rfl
    rw [hnone]
    exact iff_of_false (by decide) fun ⟨_, _, h, _⟩ => nomatch h
  | cons first rest =>
    have hfirst : (first :: rest).foldl (deliverCert ssl)
        (insecureStartChain ssl (insecureInit ssl fingerprint selfSigned)) =
        ⟨true, fingerprint, first.flatten, selfSigned, nameOf ssl .subject first.flatten,
          nameOf ssl .issuer first.flatten, (ssl.decoderPush ssl.decoderInit first.flatten).1⟩ := by
      rw [List.foldl_cons, deliver_rest]
      · unfold deliverCert
        rw [append_chunks ssl first _ rfl]
        rfl
      · rfl
    have hanswer : deliver ssl (insecureInit ssl fingerprint selfSigned) (first :: rest) = 0 ↔
        (∀ fp, fingerprint = some fp → ssl.sha1 first.flatten = fp) ∧
          (selfSigned = true → SameNames ssl first.flatten) := by
      unfold deliver
      rw [hfirst]
      unfold insecureEndChain SameNames
      simp only
      rw [if_neg (by decide)]
      split
      · rename_i hdiffers
        refine iff_of_false (by decide) fun h => ?_
        obtain ⟨fp, hfp, hne⟩ := (Option.any_eq_true _ _).mp hdiffers
        exact of_decide_eq_true hne (h.1 fp hfp)
      · rename_i hsame
        have hsha1 : ∀ fp, fingerprint = some fp → ssl.sha1 first.flatten = fp := by
          intro fp hfp
          refine Classical.byContradiction fun hne => hsame ?_
          exact (Option.any_eq_true _ _).mpr ⟨fp, hfp, decide_eq_true hne⟩
        split
        · rename_i hnames
          exact iff_of_false (by decide) fun h => hnames.2 (h.2 hnames.1)
        · rename_i hnames
          refine iff_of_true rfl ⟨hsha1, fun hself => ?_⟩
          exact Classical.byContradiction fun hne => hnames ⟨hself, hne⟩
    rw [hanswer]
    constructor
    · exact fun h => ⟨first, rest, rfl, h⟩
    · rintro ⟨first', rest', heq, h⟩
      rw [(List.cons.inj heq).1]
      exact h

/-- The engine gets a validator that is initialised and of the last policy, strings are fingerprints
exactly if they are 20 numbers, and the own validator accepts exactly what the policy says: with a
fingerprint a chain whose first certificate has it, in the insecure mode any that has a certificate,
and in the self-signed mode one whose first certificate is decoded and has one name for subject and
issuer. -/
structure Follows (s : WiFiClientSecureCtx) (setters : List Setter) (connect : Connect)
    (chain : List (List (List UInt8))) : Prop where
  initialised : ∀ v, (installClientX509Validator s connect).2 = some v → v ≠ .blank
  policy : ∀ v, (installClientX509Validator s connect).2 = some v →
    (chosen setters).validator connect s.now s.certStore = some v
  reported : ∀ text : CString, (setFingerprintString s text.text).1 = true ↔
    ∃ fingerprint : Fingerprint, Written text.text fingerprint.bytes
  taken : ∀ (text : CString) (fingerprint : Fingerprint), Written text.text fingerprint.bytes →
    (setFingerprintString s text.text).2 = setFingerprint s fingerprint
  inside : ∀ text : CString, parseFingerprint text.text ≠ .outside
  unchanged : ∀ text : CString, (setFingerprintString s text.text).1 = false →
    (setFingerprintString s text.text).2 = s
  fingerprint : ∀ fp, (installClientX509Validator s connect).2 = some (.insecure (some fp) false) →
    (deliver ssl (insecureInit ssl (some fp) false) chain = 0 ↔
      ∃ first rest, chain = first :: rest ∧ ssl.sha1 first.flatten = fp)
  insecure : (installClientX509Validator s connect).2 = some (.insecure none false) →
    (deliver ssl (insecureInit ssl none false) chain = 0 ↔ chain ≠ [])
  selfSigned : (installClientX509Validator s connect).2 = some (.insecure none true) →
    (deliver ssl (insecureInit ssl none true) chain = 0 ↔
      ∃ first rest, chain = first :: rest ∧ Decodes ssl first.flatten ∧
        SameNames ssl first.flatten)

def Sensible (policy : Policy) (connect : Connect) (chain : List (List (List UInt8))) : Prop :=
  (∀ key usages, policy = .knownKey key usages → (connect.keys key).key ≠ none) ∧
    (policy = .selfSigned → ∀ first rest, chain = first :: rest →
      Decodes ssl first.flatten ∨ ¬ SameNames ssl first.flatten)

end Chains

theorem setFingerprintString_true (s : WiFiClientSecureCtx) (text : List UInt8) :
    (setFingerprintString s text).1 = true ↔ ∃ fp, parseFingerprint text = .accepted fp := by
  unfold setFingerprintString
  cases parseFingerprint text with
  | accepted fp => exact iff_of_true rfl ⟨fp, rfl⟩
  | refused => exact iff_of_false Bool.noConfusion fun ⟨_, h⟩ => nomatch h
  | outside => exact iff_of_false Bool.noConfusion fun ⟨_, h⟩ => nomatch h

theorem setFingerprintString_accepted (s : WiFiClientSecureCtx) {text : List UInt8}
    {fp : Fingerprint} (h : parseFingerprint text = .accepted fp) :
    (setFingerprintString s text).2 = setFingerprint s fp := by
  unfold setFingerprintString
  rw [h]

theorem setFingerprintString_false (s : WiFiClientSecureCtx) {text : List UInt8}
    (h : (setFingerprintString s text).1 = false) : (setFingerprintString s text).2 = s := by
  unfold setFingerprintString at h ⊢
  cases hparse : parseFingerprint text with
  | accepted fp =>
    rw [hparse] at h
    cases h
  | refused => rfl
  | outside => rfl

/-- The server is accepted as the last policy says if and only if, when there is memory for a
validator, the known key was parsed and a certificate that is not decoded is not taken for a
self-signed one. -/
theorem policy_followed_iff {δ : Type} (ssl : BearSsl δ) (fingerprint : Fingerprint)
    (usages now : Nat) (certStore : Option Nat) (setters : List Setter) (connect : Connect)
    (chain : List (List (List UInt8))) :
    Follows ssl (setters.foldl Setter.apply (constructed fingerprint usages now certStore)) setters
        connect chain ↔
      (connect.memory = true → Sensible ssl (chosen setters) connect chain) := by
  have hnew : Encodes (constructed fingerprint usages now certStore) (.chain none) :=
    ⟨rfl, rfl, rfl, rfl, rfl⟩
  have hencodes := (hnew.run setters).1
  constructor
  · intro follows hmemory
    constructor
    · intro key usages hpolicy hkey
      unfold chosen at hpolicy
      rw [hpolicy] at hencodes
      exact follows.initialised _ (hencodes.install_unparsed hmemory hkey) rfl
    · intro hpolicy first rest hchain
      unfold chosen at hpolicy
      rw [hpolicy] at hencodes
      cases Classical.em (SameNames ssl first.flatten) with
      | inl hnames =>
        have haccepted := (deliver_iff ssl none true chain).mpr
          ⟨first, rest, hchain, fun _ h => (nomatch h), fun _ => hnames⟩
        obtain ⟨first', rest', hchain', hdecodes, _⟩ :=
          (follows.selfSigned (hencodes.install_selfSigned hmemory)).mp haccepted
        rw [(List.cons.inj (hchain.symm.trans hchain')).1]
        exact .inl hdecodes
      | inr hnames => exact .inr hnames
  · intro hsensible
    generalize hs : setters.foldl Setter.apply (constructed fingerprint usages now certStore) = s
      at hencodes ⊢
    have hmemory : ∀ v, (installClientX509Validator s connect).2 = some v →
        connect.memory = true := by
      intro v hv
      refine eq_true_of_ne_false fun hnone => ?_
      rw [(hencodes.install connect).1 hnone] at hv
      cases hv
    have hvalid : ∀ v, (installClientX509Validator s connect).2 = some v →
        (chosen setters).validator connect s.now s.certStore = some v ∧ v ≠ .blank := by
      intro v hv
      obtain hvalid | ⟨_, key, usages, hpolicy, hkey⟩ := (hencodes.install connect).2 v hv
      · exact hvalid
      · exact absurd hkey ((hsensible (hmemory v hv)).1 key usages hpolicy)
    constructor
    case initialised => exact fun v hv => (hvalid v hv).2
    case policy => exact fun v hv => (hvalid v hv).1
    case reported =>
      intro text
      rw [setFingerprintString_true]
      exact exists_congr fun fp => parseFingerprint_iff text fp
    case taken =>
      exact fun text fp h => setFingerprintString_accepted s ((parseFingerprint_iff text fp).mpr h)
    case inside => exact fun text => parseFingerprint_inside text.text
    case unchanged => exact fun _ => setFingerprintString_false s
    case fingerprint =>
      intro fp _
      rw [deliver_iff]
      constructor
      · rintro ⟨first, rest, hchain, hsha1, _⟩
        exact ⟨first, rest, hchain, hsha1 fp rfl⟩
      · rintro ⟨first, rest, hchain, hsha1⟩
        exact ⟨first, rest, hchain, fun _ h => hsha1.trans (Option.some.inj h), Bool.noConfusion⟩
    case insecure =>
      intro _
      rw [deliver_iff]
      constructor
      · rintro ⟨first, rest, hchain, _⟩ hnone
        cases hnone.symm.trans hchain
      · intro hsome
        obtain ⟨first, rest, hchain⟩ := List.exists_cons_of_ne_nil hsome
        exact ⟨first, rest, hchain, fun _ h => (nomatch h), Bool.noConfusion⟩
    case selfSigned =>
      intro hv
      have hpolicy := validator_selfSigned (hvalid _ hv).1
      rw [deliver_iff]
      constructor
      · rintro ⟨first, rest, hchain, _, hnames⟩
        obtain hdecodes | hdiffer := (hsensible (hmemory _ hv)).2 hpolicy first rest hchain
        · exact ⟨first, rest, hchain, hdecodes, hnames rfl⟩
        · exact absurd (hnames rfl) hdiffer
      · rintro ⟨first, rest, hchain, _, hnames⟩
        exact ⟨first, rest, hchain, fun _ h => (nomatch h), fun _ => hnames⟩

def beforeChain : BearSsl Unit where
  sha1 _ := ⟨[0xda, 0x39, 0xa3, 0xee, 0x5e, 0x6b, 0x4b, 0x0d, 0x32, 0x55, 0xbf, 0xef, 0x95, 0x60,
    0x18, 0x90, 0xaf, 0xd8, 0x07, 0x09], rfl⟩
  sha256 := id
  decoderInit := ()
  decoderPush _ _ := ((), [])
  lastError _ := 34
  push_nil _ := rfl
  push_append _ _ _ := rfl
  names_append _ _ _ _ := rfl

theorem unparsedKey_blank :
    ¬ Follows beforeChain
      ([.setKnownKey 0 48].foldl Setter.apply (constructed (beforeChain.sha1 []) 0 0 none))
      [.setKnownKey 0 48] ⟨fun _ => ⟨none⟩, true, false⟩ [] :=
  fun follows => follows.initialised .blank rfl rfl

end Esp8266.Tls
