import Mathlib.Data.List.TakeWhile
import Esp8266.Http.KeepAlive

/-! What the next request of `sendRequest` has in common with the one that was redirected. The
headers that were added to a request are gone when its response was read. -/
namespace Esp8266.Http
open Esp8266.Ctype Esp8266.Numeral Esp8266.Web

def opensQuery (c : UInt8) : Bool := c = 63 || c = 35

def reference (protocol rest : List UInt8) : Target × List UInt8 :=
  let host := (authority (defaultPort protocol)
    ((before 47 rest).takeWhile fun c => !opensQuery c)).2
  let uri := (before 47 rest).dropWhile (fun c => !opensQuery c) ++ since 47 rest
  (⟨visible host.host, host.port⟩, if uri.head? = some 47 then uri else 47 :: uri)

/-- Where a `Location` leads from a URL: to another host, to another path of the host, or to a
URL of its own. -/
def resolve (protocol : List UInt8) (base : Target) (location : List UInt8) :
    Target × List UInt8 :=
  if [47, 47] <+: location then reference protocol (location.drop 2)
  else if location.head? = some 47 then (base, location)
  else
    let index := (strchr 58 location).getD 0
    reference ((location.take index).map tolower) (location.drop (index + 3))

structure Redirected (request : Sent) (response : Response) (next : Sent) : Prop where
  same : response.code = 301 ∨ response.code = 307 →
    next.method = request.method ∧ next.body = request.body ∧ next.headers = request.headers
  dropped : response.code = 302 ∨ response.code = 303 → next.method = get ∧ next.body = []
  there : (next.target, next.uri) = resolve request.protocol request.target response.location

/-- This holds of all that `sendRequest` sends. -/
def Preserved : List (Sent × Option Response) → Prop
  | (request, some response) :: (next, answer) :: rest =>
      Redirected request response next ∧ Preserved ((next, answer) :: rest)
  | _ => True

/-- A `Location` that `setURL` reads right: no host in front of a path, and a path in front of a
query. -/
def Plain (location : List UInt8) : Prop :=
  ¬ [47, 47] <+: location ∧ (location.head? ≠ some 47 →
    ∀ c ∈ before 47 (location.drop ((strchr 58 location).getD 0 + 3)), opensQuery c = false)

def added (headers : List UInt8) : List UInt8 := removeLine (contentLength ++ separator) headers

theorem before_since (ch : UInt8) (text : List UInt8) : before ch text ++ since ch text = text := by
  unfold before since
  cases strchr ch text with
  | none => exact List.append_nil text
  | some index => exact List.take_append_drop index text

theorem strchr_at {ch : UInt8} {text : List UInt8} {index : Nat} (h : strchr ch text = some index) :
    text[index]? = some ch := by
  induction text generalizing index with
  | nil => cases h
  | cons c rest ih =>
    unfold strchr at h
    split at h
    · rename_i hhere
      cases h
      exact congrArg some hhere
    · split at h
      · cases h
      · obtain ⟨k, hk, rfl⟩ := Option.map_eq_some_iff.mp h
        exact ih hk

theorem since_head (ch : UInt8) (text : List UInt8) (h : since ch text ≠ []) :
    (since ch text).head? = some ch := by
  unfold since at h ⊢
  cases hindex : strchr ch text with
  | none =>
    rw [hindex] at h
    exact absurd rfl h
  | some index => simp [List.head?_drop, strchr_at hindex]

def written (uri : List UInt8) : List UInt8 := if uri = [] then [47] else uri

theorem reference_iff (protocol rest : List UInt8) :
    ((⟨visible (authority (defaultPort protocol) (before 47 rest)).2.host,
        (authority (defaultPort protocol) (before 47 rest)).2.port⟩ : Target),
      written (since 47 rest)) = reference protocol rest ↔
      ∀ c ∈ before 47 rest, opensQuery c = false := by
  have hsplit : (before 47 rest).dropWhile (fun c => !opensQuery c) = [] ↔
      ∀ c ∈ before 47 rest, opensQuery c = false := by
    rw [List.dropWhile_eq_nil_iff]
    simp
  rw [← hsplit]
  constructor
  · intro heq
    have huri : written (since 47 rest) = (reference protocol rest).2 := congrArg Prod.snd heq
    -- a query makes the URI longer than what is written
    cases hquery : (before 47 rest).dropWhile fun c => !opensQuery c with
    | nil => rfl
    | cons c query =>
      have hopens : opensQuery c = true := by
        have hhead := List.head?_dropWhile_not (fun c => !opensQuery c) (before 47 rest)
        rw [hquery] at hhead
        simpa using hhead
      have hslash : ¬ c = 47 := by
        intro h
        rw [h] at hopens
        exact absurd hopens (by decide)
      have hlength := congrArg List.length huri
      unfold reference written at hlength
      dsimp only at hlength
      rw [hquery] at hlength
      simp only [List.cons_append, List.head?_cons, Option.some.injEq, if_neg hslash,
        List.length_cons, List.length_append] at hlength
      split at hlength
      · simp at hlength
      · omega
  · intro hquery
    have hall : (before 47 rest).takeWhile (fun c => !opensQuery c) = before 47 rest := by
      have hboth := List.takeWhile_append_dropWhile (p := fun c => !opensQuery c)
        (l := before 47 rest)
      rwa [hquery, List.append_nil] at hboth
    unfold reference written
    simp only [hall, hquery, List.nil_append]
    by_cases hempty : since 47 rest = []
    · simp [hempty]
    · simp [hempty, since_head 47 rest hempty]

namespace HTTPClient
variable {s : HTTPClient}

structure Untouched (s t : HTTPClient) : Prop where
  target : t.target = s.target
  uri : t.uri = s.uri
  protocol : t.protocol = s.protocol
  headers : t.headers = s.headers

theorem Untouched.refl (s : HTTPClient) : Untouched s s := ⟨rfl, rfl, rfl, rfl⟩

theorem Untouched.trans {t u : HTTPClient} (h : Untouched s t) (h' : Untouched t u) :
    Untouched s u where
  target := h'.target.trans h.target
  uri := h'.uri.trans h.uri
  protocol := h'.protocol.trans h.protocol
  headers := h'.headers.trans h.headers

theorem untouched_change (f : Context → Context) : Untouched s (s.change f) := by
  unfold change
  cases s.client <;> exact ⟨rfl, rfl, rfl, rfl⟩

theorem untouched_observe (seen : Seen) : Untouched s (s.observe seen) := by
  rw [observe_eq]
  exact untouched_change _

theorem untouched_disconnect (preserveClient : Bool) : Untouched s (s.disconnect preserveClient) := by
  unfold disconnect
  dsimp only
  split
  · split
    · exact untouched_change _
    · have hstopped := (untouched_change fun context => { context with unread := false }).trans
        (untouched_change (s := s.change _) Context.close)
      split
      · exact hstopped
      · exact ⟨hstopped.target, hstopped.uri, hstopped.protocol, hstopped.headers⟩
  · split <;> exact ⟨rfl, rfl, rfl, rfl⟩

theorem untouched_connect (kept : Seen) (attempt : Attempt) (opened : Seen) :
    Untouched s (s.connect kept attempt opened).2 := by
  apply (untouched_observe kept).trans
  unfold connect
  generalize s.observe kept = t
  dsimp only
  split
  · exact untouched_change _
  · split
    · exact Untouched.refl t
    · unfold openNew
      dsimp only
      have hopened : ∀ net, Untouched t { t with net := net } := fun _ => ⟨rfl, rfl, rfl, rfl⟩
      split
      · exact (hopened _).trans (untouched_observe opened)
      · exact hopened _

theorem untouched_readHeader (lost : Bool) (lines : List (List UInt8)) (encoding : List UInt8)
    (s : HTTPClient) : Untouched s (readHeader lost lines encoding s).2 := by
  induction lines generalizing encoding s with
  | nil => exact Untouched.refl s
  | cons line rest ih =>
    unfold readHeader
    dsimp only
    split
    · have hline : Untouched s (s.statusLine line) := ⟨rfl, rfl, rfl, rfl⟩
      exact hline.trans (ih encoding _)
    · split
      · have hfield : ∀ name value, Untouched s (s.headerField name value) :=
          fun _ _ => ⟨rfl, rfl, rfl, rfl⟩
        exact (hfield _ _).trans (ih _ _)
      · split
        · unfold headerEnd
          split <;> exact ⟨rfl, rfl, rfl, rfl⟩
        · exact ih encoding s

theorem handleHeaderResponse_untouched {lines : List (List UInt8)} {lost : Bool}
    (h : (s.handleHeaderResponse lines lost).1 ≠ errorNotConnected) :
    Untouched { s with headers := [] } (s.handleHeaderResponse lines lost).2 := by
  unfold handleHeaderResponse at h ⊢
  split
  · have hcleared : Untouched { s with headers := [] }
        { s.clear with canReuse := s.reuse, transferEncoding := .identity } := ⟨rfl, rfl, rfl, rfl⟩
    exact hcleared.trans (untouched_readHeader lost lines [] _)
  · rename_i hconnected
    rw [if_neg hconnected] at h
    exact absurd rfl h

def lengthLine (payload : List UInt8) : List UInt8 :=
  contentLength ++ separator ++ numeral 10 payload.length ++ newline

theorem addHeader_length (payload : List UInt8) :
    s.addHeader contentLength (numeral 10 payload.length) false =
      { s with headers := added s.headers ++ lengthLine payload } := by
  have hname : (!equalsIgnoreCase contentLength connectionName &&
      !equalsIgnoreCase contentLength userAgentName && !equalsIgnoreCase contentLength hostName &&
      !(equalsIgnoreCase contentLength authorizationName && s.base64Authorization ≠ [])) = true := by
    have hauth : equalsIgnoreCase contentLength authorizationName = false := by decide
    rw [hauth, Bool.false_and]
    decide
  unfold addHeader
  rw [if_pos hname]
  rfl

structure Written (s : HTTPClient) (type payload : List UInt8) (request : Sent) : Prop where
  method : request.method = type
  body : request.body = payload
  headers : request.headers = added s.headers ++ lengthLine payload
  target : request.target = s.target
  protocol : request.protocol = s.protocol
  uri : request.uri = written s.uri

theorem exchange_spec (x : Exchange) (type payload : List UInt8) :
    (∀ request, (s.exchange x type payload).request = some request →
      Written s type payload request) ∧
    (∀ response, (s.exchange x type payload).response = some response →
      (s.exchange x type payload).request.isSome = true ∧
        (s.exchange x type payload).value = response.code ∧
        (response.code ≠ errorNotConnected →
          Untouched { s with headers := [] } (s.exchange x type payload).state)) := by
  unfold exchange
  dsimp only
  have hwiped : Untouched s
      { s with currentHeaders := s.currentHeaders.map fun entry => (entry.1, []) } :=
    ⟨rfl, rfl, rfl, rfl⟩
  have hopened := hwiped.trans (untouched_connect x.kept x.attempt x.opened)
  generalize connect x.kept x.attempt x.opened _ = opened at hopened
  split
  · exact ⟨fun _ h => (nomatch h), fun _ h => nomatch h⟩
  · rw [addHeader_length]
    have hseen := untouched_observe (s := { opened.2 with
      headers := added opened.2.headers ++ lengthLine payload }) x.headerSeen
    generalize observe _ x.headerSeen = t at hseen
    have hwritten : ∀ request, some (t.sent type payload) = some request →
        Written s type payload request := by
      intro request hrequest
      cases hrequest
      refine ⟨rfl, rfl, ?_, hseen.target.trans hopened.target, hseen.protocol.trans hopened.protocol,
        congrArg written (hseen.uri.trans hopened.uri)⟩
      exact hseen.headers.trans (congrArg (added · ++ lengthLine payload) hopened.headers)
    split
    · exact ⟨fun _ h => (nomatch h), fun _ h => nomatch h⟩
    · split
      · exact ⟨hwritten, fun _ h => nomatch h⟩
      · split
        · exact ⟨hwritten, fun _ h => nomatch h⟩
        · refine ⟨hwritten, fun response hresponse => ?_⟩
          cases hresponse
          refine ⟨rfl, rfl, fun hcode => ?_⟩
          have hanswered := handleHeaderResponse_untouched hcode
          have hasked := untouched_observe (s := t) x.responseSeen
          have hafter := untouched_observe x.after (s :=
            (t.observe x.responseSeen).handleHeaderResponse x.lines x.lost |>.2)
          exact ⟨hafter.target.trans (hanswered.target.trans
              (hasked.target.trans (hseen.target.trans hopened.target))),
            hafter.uri.trans (hanswered.uri.trans (hasked.uri.trans (hseen.uri.trans hopened.uri))),
            hafter.protocol.trans (hanswered.protocol.trans
              (hasked.protocol.trans (hseen.protocol.trans hopened.protocol))),
            hafter.headers.trans hanswered.headers⟩

theorem retarget_spec (host : List UInt8) (port : UInt16) (uri : List UInt8) :
    (s.retarget host port uri).target = ⟨visible host, port⟩ ∧
      (s.retarget host port uri).uri = uri ∧ (s.retarget host port uri).headers = s.headers := by
  unfold retarget
  dsimp only
  split
  · have hkept := untouched_disconnect (s := { { s with host := host, port := port } with
      canReuse := false }) true
    exact ⟨hkept.target, rfl, hkept.headers⟩
  · exact ⟨rfl, rfl, rfl⟩

theorem beginInternal_spec {encode : Encode} {url : List UInt8}
    (h : (beginInternal encode url s).1 = true) :
    (beginInternal encode url s).2.headers = [] ∧
      (((beginInternal encode url s).2.target, written (beginInternal encode url s).2.uri) =
          reference ((url.take ((strchr 58 url).getD 0)).map tolower)
            (url.drop ((strchr 58 url).getD 0 + 3)) ↔
        ∀ c ∈ before 47 (url.drop ((strchr 58 url).getD 0 + 3)), opensQuery c = false) := by
  unfold beginInternal at h ⊢
  cases hindex : strchr 58 url with
  | none =>
    rw [hindex] at h
    cases h
  | some index =>
    rw [hindex] at h
    dsimp only at h ⊢
    rw [Option.getD_some]
    split
    · have hauthorized : ∀ auth, (authorize encode auth
          { s.clear with protocol := (url.take index).map tolower }).headers = [] := by
        intro auth
        cases auth <;> rfl
      dsimp only
      obtain ⟨htarget, huri, hheaders⟩ := retarget_spec
        (s := authorize encode _ { s.clear with protocol := (url.take index).map tolower }) _ _ _
      rw [htarget, huri, hheaders]
      exact ⟨hauthorized _, reference_iff _ _⟩
    · rename_i hother
      rw [if_neg hother] at h
      cases h

theorem setURL_spec {encode : Encode} {location : List UInt8}
    (h : (s.setURL encode location).1 = true) :
    (s.setURL encode location).2.headers = [] ∧
      (((s.setURL encode location).2.target, written (s.setURL encode location).2.uri) =
        resolve s.protocol s.target location ↔ Plain location) := by
  unfold setURL at h ⊢
  split
  · rename_i hpath
    refine ⟨rfl, ?_⟩
    have hwritten : written location = location := by
      cases location with
      | nil => cases hpath
      | cons c rest => rfl
    have hmoved : ((clear { s with uri := location }).target,
        written (clear { s with uri := location }).uri) = (s.target, location) :=
      congrArg (Prod.mk s.target) hwritten
    dsimp only
    rw [hmoved]
    by_cases hhost : [47, 47] <+: location
    · -- what is behind the slashes is shorter
      refine iff_of_false (fun heq => ?_) fun hplain => hplain.1 hhost
      have huri := congrArg (List.length ∘ Prod.snd) heq
      have hle := hhost.length_le
      have hdrop : (List.dropWhile (fun c => !opensQuery c) (before 47 (location.drop 2))).length ≤
          (before 47 (location.drop 2)).length := (List.dropWhile_sublist _).length_le
      have hall := congrArg List.length (before_since 47 (location.drop 2))
      unfold resolve reference at huri
      rw [if_pos hhost] at huri
      simp only [Function.comp_apply] at huri
      rw [List.length_append, List.length_drop] at hall
      simp only [List.length_cons, List.length_nil] at hle
      split at huri
      · rw [List.length_append] at huri
        omega
      · rw [List.length_cons, List.length_append] at huri
        omega
    · unfold resolve
      rw [if_neg hhost, if_pos hpath]
      exact iff_of_true rfl ⟨hhost, fun hother => absurd hpath hother⟩
  · rename_i hpath
    have hhost : ¬ [47, 47] <+: location := by
      intro hhost
      obtain ⟨rest, rfl⟩ := hhost
      exact hpath rfl
    rw [if_neg hpath] at h
    split
    · rename_i hprotocol
      rw [if_pos hprotocol] at h
      obtain ⟨hheaders, hthere⟩ := beginInternal_spec h
      refine ⟨hheaders, ?_⟩
      unfold resolve Plain
      rw [if_neg hhost, if_neg hpath]
      dsimp only
      rw [hthere]
      exact ⟨fun hplain => ⟨hhost, fun _ => hplain⟩, fun hplain => hplain.2 hpath⟩
    · rename_i hprotocol
      rw [if_neg hprotocol] at h
      cases h

theorem redirection_code {follow : FollowRedirects} {type : List UInt8} {response : Response}
    {redirect : Redirect} (h : redirection follow type response = some redirect) :
    (redirect = .same ∧ (response.code = 301 ∨ response.code = 307)) ∨
      (redirect = .dropped ∧ (response.code = 302 ∨ response.code = 303)) := by
  unfold redirection at h
  split at h
  · cases h
  · split at h
    · rename_i hsame
      split at h
      · cases h
        exact Or.inl ⟨rfl, hsame⟩
      · cases h
    · split at h
      · rename_i hdropped
        cases h
        exact Or.inr ⟨rfl, hdropped⟩
      · cases h

theorem headers_kept_iff (headers payload : List UInt8) :
    added [] ++ lengthLine payload = added headers ++ lengthLine payload ↔
      added headers = [] := by
  rw [List.append_left_inj]
  exact eq_comm

theorem redirected_iff {s t : HTTPClient} {type payload location : List UInt8} {redirect : Redirect}
    {request next : Sent} {response : Response} {follow : FollowRedirects}
    (hrequest : Written s type payload request)
    (hnext : Written t (redirect.request type payload).1
      (redirect.request type payload).2 next)
    (hfollow : redirection follow type response = some redirect) (hheaders : t.headers = [])
    (hlocation : response.location = location)
    (hthere : (t.target, written t.uri) = resolve s.protocol s.target location ↔ Plain location) :
    Redirected request response next ↔
      (redirect = .same → added s.headers = []) ∧ Plain location := by
  have hplace : (next.target, next.uri) =
      resolve request.protocol request.target response.location ↔ Plain location := by
    rw [hnext.target, hnext.uri, hrequest.protocol, hrequest.target, hlocation]
    exact hthere
  obtain ⟨rfl, hcode⟩ | ⟨rfl, hcode⟩ := redirection_code hfollow
  · have hkept : next.headers = request.headers ↔ added s.headers = [] := by
      rw [hnext.headers, hrequest.headers, hheaders]
      exact headers_kept_iff s.headers payload
    constructor
    · intro h
      exact ⟨fun _ => hkept.mp (h.same hcode).2.2, hplace.mp h.there⟩
    · rintro ⟨hnone, hplain⟩
      refine ⟨fun _ => ⟨?_, ?_, hkept.mpr (hnone rfl)⟩, fun hother => ?_, hplace.mpr hplain⟩
      · exact hnext.method.trans hrequest.method.symm
      · exact hnext.body.trans hrequest.body.symm
      · omega
  · constructor
    · intro h
      exact ⟨fun hsame => (nomatch hsame), hplace.mp h.there⟩
    · rintro ⟨-, hplain⟩
      exact ⟨fun hother => by omega, fun _ => ⟨hnext.method, hnext.body⟩, hplace.mpr hplain⟩

theorem follow_spec {x : Exchange} {type payload location : List UInt8} {redirect : Redirect}
    {follow : FollowRedirects}
    (h : (s.exchange x type payload).follow follow type = some (redirect, location)) :
    ∃ request response, (s.exchange x type payload).record = [(request, some response)] ∧
      Written s type payload request ∧ redirection follow type response = some redirect ∧
      response.location = location ∧
      Untouched { s with headers := [] } (s.exchange x type payload).state := by
  obtain ⟨hwritten, hanswered⟩ := exchange_spec (s := s) x type payload
  generalize s.exchange x type payload = turn at h hwritten hanswered
  obtain ⟨response, hresponse, hmap⟩ := Option.bind_eq_some_iff.mp h
  obtain ⟨found, hfound, hpair⟩ := Option.map_eq_some_iff.mp hmap
  cases hpair
  obtain ⟨hsent, -, hstate⟩ := hanswered response hresponse
  obtain ⟨request, hrequest⟩ := Option.isSome_iff_exists.mp hsent
  refine ⟨request, response, ?_, hwritten request hrequest, hfound, rfl, hstate ?_⟩
  · simp [Turn.record, hrequest, hresponse]
  · -- an error is no redirect
    intro hcode
    obtain ⟨-, hredirect⟩ | ⟨-, hredirect⟩ := redirection_code hfound <;> rw [hcode] at hredirect <;>
      exact absurd hredirect (by decide)

theorem record_none {turn : Turn} (h : turn.request = none) : turn.record = [] := by
  simp [Turn.record, h]

theorem sendLoop_first (encode : Encode) (server : Nat → Exchange) (redirects : Nat)
    (type payload : List UInt8) (s : HTTPClient) :
    ∃ later, (sendLoop encode server redirects type payload s).trace =
      (s.exchange (server redirects) type payload).record ++ later ∧
      ((s.exchange (server redirects) type payload).request = none → later = []) := by
  cases redirects with
  | zero => exact ⟨[], (List.append_nil _).symm, fun _ => rfl⟩
  | succ redirects =>
    unfold sendLoop
    dsimp only
    cases hfollow : (s.exchange (server (redirects + 1)) type payload).follow
        s.followRedirects type with
    | none => exact ⟨[], (List.append_nil _).symm, fun _ => rfl⟩
    | some followed =>
      obtain ⟨request, response, hrecord, -⟩ := follow_spec hfollow
      have hsome : (s.exchange (server (redirects + 1)) type payload).request ≠ none := by
        intro hnone
        rw [record_none hnone] at hrecord
        cases hrecord
      dsimp only
      split
      · exact ⟨[], (List.append_nil _).symm, fun _ => rfl⟩
      · exact ⟨_, rfl, fun hnone => absurd hnone hsome⟩

/-- At each redirect behind which a request is sent: no header was added to the request, if its
method is kept, and the location is plain. -/
def Intact (encode : Encode) (server : Nat → Exchange) :
    Nat → List UInt8 → List UInt8 → HTTPClient → Prop
  | 0, _, _, _ => True
  | redirects + 1, type, payload, s =>
    let turn := s.exchange (server (redirects + 1)) type payload
    ∀ redirect location, turn.follow s.followRedirects type = some (redirect, location) →
      let moved := turn.state.setURL encode location
      let request := redirect.request type payload
      moved.1 = true →
        ((moved.2.exchange (server redirects) request.1 request.2).request.isSome = true →
          (redirect = .same → added s.headers = []) ∧ Plain location) ∧
        Intact encode server redirects request.1 request.2 moved.2

theorem sendLoop_length (encode : Encode) (server : Nat → Exchange) (redirects : Nat)
    (type payload : List UInt8) (s : HTTPClient) :
    (sendLoop encode server redirects type payload s).trace.length ≤ redirects + 1 := by
  have hrecord : ∀ turn : Turn, turn.record.length ≤ 1 := by
    intro turn
    unfold Turn.record
    cases turn.request <;> simp
  induction redirects generalizing type payload s with
  | zero => exact hrecord _
  | succ redirects ih =>
    unfold sendLoop
    dsimp only
    have hturn := hrecord (s.exchange (server (redirects + 1)) type payload)
    split
    · exact Nat.le_trans hturn (by omega)
    · split
      · exact Nat.le_trans hturn (by omega)
      · rename_i redirect location _ _
        have hrest := ih (redirect.request type payload).1 (redirect.request type payload).2
          ((s.exchange (server (redirects + 1)) type payload).state.setURL encode location).2
        rw [List.length_append]
        omega

theorem preserved_cons {encode : Encode} {server : Nat → Exchange} {redirects : Nat}
    {type payload : List UInt8} {request : Sent} {response : Response} {good : Prop}
    (hgood : ∀ next, Written s type payload next → (Redirected request response next ↔ good)) :
    Preserved ((request, some response) :: (sendLoop encode server redirects type payload s).trace) ↔
      ((s.exchange (server redirects) type payload).request.isSome = true → good) ∧
        Preserved (sendLoop encode server redirects type payload s).trace := by
  obtain ⟨later, htrace, hnone⟩ := sendLoop_first encode server redirects type payload s
  have hwritten := (exchange_spec (s := s) (server redirects) type payload).1
  rw [htrace]
  generalize s.exchange (server redirects) type payload = turn at hnone hwritten
  unfold Turn.record
  cases hrequest : turn.request with
  | none =>
    rw [hnone hrequest]
    exact iff_of_true trivial ⟨fun h => (nomatch h), trivial⟩
  | some next =>
    have hnext := hgood next (hwritten next hrequest)
    constructor
    · rintro ⟨hstep, hrest⟩
      exact ⟨fun _ => hnext.mp hstep, hrest⟩
    · rintro ⟨hstep, hrest⟩
      exact ⟨hnext.mpr (hstep rfl), hrest⟩

theorem preserved_single (record : Sent × Option Response) : Preserved [record] := by
  obtain ⟨request, response⟩ := record
  cases response <;> exact trivial

theorem preserved_record (turn : Turn) : Preserved turn.record := by
  unfold Turn.record
  cases turn.request with
  | none => exact trivial
  | some request => exact preserved_single _

theorem sendLoop_preserved (encode : Encode) (server : Nat → Exchange) (redirects : Nat)
    (type payload : List UInt8) (s : HTTPClient) :
    Preserved (sendLoop encode server redirects type payload s).trace ↔
      Intact encode server redirects type payload s := by
  induction redirects generalizing type payload s with
  | zero => exact iff_of_true (preserved_record _) trivial
  | succ redirects ih =>
    unfold sendLoop Intact
    dsimp only
    cases hfollow : (s.exchange (server (redirects + 1)) type payload).follow
        s.followRedirects type with
    | none =>
      exact iff_of_true (preserved_record _) fun _ _ h => absurd h.symm (Option.some_ne_none _)
    | some followed =>
      obtain ⟨redirect, location⟩ := followed
      obtain ⟨request, response, hrecord, hrequest, hfound, hlocation, hstate⟩ :=
        follow_spec hfollow
      dsimp only
      split
      · rename_i hmoved
        refine iff_of_true (preserved_record _) fun _ _ h hother => ?_
        cases h
        rw [hmoved] at hother
        cases hother
      · rename_i hmoved
        have hmoved := Bool.of_not_eq_false hmoved
        obtain ⟨hheaders, hthere⟩ := setURL_spec hmoved
        rw [hstate.protocol, hstate.target] at hthere
        rw [hrecord, List.singleton_append]
        refine (preserved_cons fun next hnext =>
          redirected_iff hrequest hnext hfound hheaders hlocation hthere).trans ?_
        rw [ih]
        constructor
        · intro h _ _ hsame _
          cases hsame
          exact h
        · intro h
          exact h redirect location rfl hmoved

end HTTPClient

/-- `sendRequest` sends no more requests than the limit allows and preserves what it has to
preserve, if and only if no header was added to a request that is sent again, and every location
that is followed is plain. -/
theorem sendRequest_preserves_iff (encode : Encode) (server : Nat → Exchange)
    (type payload : List UInt8) (s : HTTPClient) :
    ((s.sendRequest encode server type payload).trace.length ≤ s.redirectLimit.toNat + 1 ∧
        Preserved (s.sendRequest encode server type payload).trace) ↔
      s.Intact encode server s.redirectLimit.toNat type payload := by
  refine Iff.trans ⟨And.right, fun h => ⟨?_, h⟩⟩
    (HTTPClient.sendLoop_preserved encode server s.redirectLimit.toNat type payload s)
  exact HTTPClient.sendLoop_length encode server s.redirectLimit.toNat type payload s

def ownHeader : List UInt8 := ascii ['X', ':', ' ', '1'] ++ newline

def movedPermanently : Exchange :=
  answering [status ['3', '0', '1'], locationName ++ separator ++ ascii ['/', 'b'] ++ [13], [13]]

def ownGet : HTTPClient :=
  { HTTPClient.new.beginHost ⟨.given 0, false⟩ [104] 80 [47] false with
    headers := ownHeader, followRedirects := .strict, redirectLimit := 1 }

theorem addedHeader_lost : ¬ ∀ (encode : Encode) (server : Nat → Exchange)
    (type payload : List UInt8) (s : HTTPClient),
    (s.sendRequest encode server type payload).trace.length ≤ s.redirectLimit.toNat + 1 ∧
      Preserved (s.sendRequest encode server type payload).trace := by
  intro hall
  have hintact := (HTTPClient.sendLoop_preserved id (fun _ => movedPermanently) 1 get [] ownGet).mp
    (hall id (fun _ => movedPermanently) get [] ownGet).2
  have hfollow : (ownGet.exchange movedPermanently get []).follow ownGet.followRedirects get =
      some (.same, [47, 98]) := by
    decide +kernel
  have hnext := (hintact .same [47, 98] hfollow (by decide +kernel)).1 (by decide +kernel)
  exact absurd (hnext.1 rfl) (by decide +kernel)

end Esp8266.Http
