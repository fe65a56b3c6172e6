import Esp8266.Http.Client

/-! Which connection a request is written to. A `begin` that keeps what it is handed may find a
connection there that was opened to another port. -/
namespace Esp8266.Http
open Esp8266.Web Esp8266.Ctype Esp8266.Numeral

namespace Net
variable {net : Net} {cell : Cell}

theorem context_change (f : Context → Context) :
    (net.change cell f).context cell = (net.context cell).map f := by
  unfold change
  cases hcell : net.cells cell with
  | none => simp [context, hcell]
  | some id => simp [context, hcell, List.getElem?_modify]

theorem context_open (host : List UInt8) (port : UInt16) :
    (net.open cell host port .established).context cell = some ⟨⟨visible host, port⟩, true, false⟩ := by
  simp [Net.open, context, assign]

end Net

namespace HTTPClient
variable {s : HTTPClient}

def Reaches (s : HTTPClient) (target : Target) : Prop :=
  ∀ context, s.context = some context → context.counts = true → context.target = target

def target (s : HTTPClient) : Target := ⟨visible s.host, s.port⟩

def Right (s : HTTPClient) : Prop := s.reuse = true → s.canReuse = true → s.Reaches s.target

structure Keeps (s t : HTTPClient) : Prop where
  reaches : ∀ target, s.Reaches target → t.Reaches target
  host : t.host = s.host
  port : t.port = s.port
  reuse : t.reuse = s.reuse

theorem Keeps.refl (s : HTTPClient) : Keeps s s := ⟨fun _ h => h, rfl, rfl, rfl⟩

theorem Keeps.trans {t u : HTTPClient} (h : Keeps s t) (h' : Keeps t u) : Keeps s u where
  reaches target hreaches := h'.reaches target (h.reaches target hreaches)
  host := h'.host.trans h.host
  port := h'.port.trans h.port
  reuse := h'.reuse.trans h.reuse

theorem Keeps.onTarget {t : HTTPClient} (h : Keeps s t) (hreaches : s.Reaches s.target) :
    t.Reaches t.target := by
  have htarget : t.target = s.target := by
    unfold target
    rw [h.host, h.port]
  rw [htarget]
  exact h.reaches _ hreaches

theorem keeps_of_context {t : HTTPClient} (hcontext : t.context = s.context) (hhost : t.host = s.host)
    (hport : t.port = s.port) (hreuse : t.reuse = s.reuse) : Keeps s t where
  reaches target hreaches context hthere := hreaches context (hcontext ▸ hthere)
  host := hhost
  port := hport
  reuse := hreuse

theorem context_net {cell : Cell} (h : s.client = some cell) (net : Net) :
    context { s with net := net } = net.context cell := by
  simp [context, h]

theorem change_of_client {cell : Cell} (h : s.client = some cell) (f : Context → Context) :
    s.change f = { s with net := s.net.change cell f } := by
  simp [change, h]

theorem keeps_change {f : Context → Context}
    (htarget : ∀ context, (f context).target = context.target)
    (hcounts : ∀ context, (f context).counts = true → context.counts = true) :
    Keeps s (s.change f) := by
  cases hclient : s.client with
  | none =>
    unfold change
    rw [hclient]
    exact Keeps.refl s
  | some cell =>
    rw [change_of_client hclient]
    refine ⟨fun target hreaches context hthere hcount => ?_, rfl, rfl, rfl⟩
    rw [context_net hclient, Net.context_change] at hthere
    obtain ⟨before, hbefore, rfl⟩ := Option.map_eq_some_iff.mp hthere
    rw [htarget before]
    exact hreaches before ((context_net hclient s.net).trans hbefore) (hcounts before hcount)

theorem keeps_close : Keeps s (s.change Context.close) :=
  keeps_change (fun _ => rfl) fun context hcount => by
    simp only [Context.close, Context.counts, Bool.false_or] at hcount
    simp [Context.counts, hcount]

theorem keeps_read : Keeps s (s.change fun context => { context with unread := false }) :=
  keeps_change (fun _ => rfl) fun context hcount => by
    simp only [Context.counts, Bool.or_false] at hcount
    simp [Context.counts, hcount]

theorem observe_eq (seen : Seen) : s.observe seen = s.change fun context =>
    { context with
      established := context.established && !seen.lost
      unread := context.counts && seen.unread } := by
  unfold observe change Net.observe
  cases s.client <;> rfl

theorem keeps_observe (seen : Seen) : Keeps s (s.observe seen) := by
  rw [observe_eq]
  refine keeps_change (fun context => ?_) fun context hcount => ?_
  · rfl
  · simp only [Context.counts, Bool.or_eq_true, Bool.and_eq_true] at hcount ⊢
    exact hcount.elim (fun h => Or.inl h.1) And.left

theorem keeps_clear : Keeps s s.clear := keeps_of_context rfl rfl rfl rfl

theorem keeps_forget : Keeps s { s with client := none } where
  reaches _ _ _ hthere := nomatch hthere
  host := rfl
  port := rfl
  reuse := rfl

theorem keeps_disconnect (preserveClient : Bool) : Keeps s (s.disconnect preserveClient) := by
  unfold disconnect
  dsimp only
  split
  · split
    · exact keeps_read
    · have hstopped := keeps_read.trans (keeps_close (s := s.change fun context =>
        { context with unread := false }))
      split
      · exact hstopped
      · exact hstopped.trans keeps_forget
  · split
    · exact Keeps.refl s
    · exact keeps_forget

theorem keeps_addHeader (name value : List UInt8) (first : Bool) :
    Keeps s (s.addHeader name value first) := by
  unfold addHeader
  dsimp only
  split
  · exact keeps_of_context rfl rfl rfl rfl
  · exact Keeps.refl s

theorem keeps_returnError (error : Int) : Keeps s (s.returnError error) := by
  unfold returnError
  split
  · exact keeps_close
  · exact Keeps.refl s

theorem keeps_statusLine (line : List UInt8) : Keeps s (s.statusLine line) :=
  keeps_of_context rfl rfl rfl rfl

theorem keeps_headerField (name value : List UInt8) : Keeps s (s.headerField name value) :=
  keeps_of_context rfl rfl rfl rfl

theorem keeps_readHeader (lost : Bool) (lines : List (List UInt8)) (encoding : List UInt8)
    (s : HTTPClient) : Keeps s (readHeader lost lines encoding s).2 := by
  induction lines generalizing encoding s with
  | nil => exact Keeps.refl s
  | cons line rest ih =>
    unfold readHeader
    dsimp only
    split
    · exact (keeps_statusLine line).trans (ih encoding (s.statusLine line))
    · split
      · exact (keeps_headerField _ _).trans (ih _ (s.headerField _ _))
      · split
        · unfold headerEnd
          split <;> exact keeps_of_context rfl rfl rfl rfl
        · exact ih encoding s

theorem keeps_handleHeaderResponse (lines : List (List UInt8)) (lost : Bool) :
    Keeps s (s.handleHeaderResponse lines lost).2 := by
  unfold handleHeaderResponse
  split
  · have hcleared : Keeps s { s.clear with canReuse := s.reuse, transferEncoding := .identity } :=
      keeps_of_context rfl rfl rfl rfl
    exact hcleared.trans (keeps_readHeader lost lines [] _)
  · exact Keeps.refl s

theorem Right.keeps {t : HTTPClient} (hright : s.Right) (h : Keeps s t)
    (hflag : t.canReuse = true → s.canReuse = true) : t.Right := by
  intro hreuse hcan
  exact h.onTarget (hright (h.reuse ▸ hreuse) (hflag hcan))

theorem canReuse_change (f : Context → Context) : (s.change f).canReuse = s.canReuse := by
  unfold change
  cases s.client <;> rfl

theorem canReuse_disconnect (preserveClient : Bool) :
    (s.disconnect preserveClient).canReuse = s.canReuse := by
  unfold disconnect
  dsimp only
  split
  · split
    · exact canReuse_change _
    · split <;> exact (canReuse_change _).trans (canReuse_change _)
  · split <;> rfl

theorem canReuse_returnError (error : Int) : (s.returnError error).canReuse = s.canReuse := by
  unfold returnError
  split
  · exact canReuse_change _
  · rfl

theorem canReuse_observe (seen : Seen) : (s.observe seen).canReuse = s.canReuse := by
  rw [observe_eq]
  exact canReuse_change _

theorem openNew_reaches {cell : Cell} (hclient : s.client = some cell) (attempt : Attempt)
    (opened : Seen) :
    (attempt = .unknownName → s.Reaches s.target) →
      (s.openNew cell attempt opened).2.Reaches (s.openNew cell attempt opened).2.target := by
  intro hnone
  cases attempt with
  | unknownName =>
    intro context hthere
    have hkept := (context_net hclient s.net).trans ((context_net hclient _).symm.trans hthere)
    exact hnone rfl context hkept
  | refused =>
    intro context hthere
    have hcontext := (context_net hclient _).symm.trans hthere
    simp [Net.open, Net.assign, Net.context] at hcontext
  | established =>
    have hopen : Reaches { s with net := s.net.open cell s.host s.port .established } s.target := by
      intro context hthere _
      rw [context_net hclient, Net.context_open] at hthere
      cases hthere
      rfl
    exact (keeps_observe opened).onTarget hopen

theorem connect_right (hright : s.Right) (kept : Seen) (attempt : Attempt) (opened : Seen) :
    (s.connect kept attempt opened).2.Right ∧
      ((s.connect kept attempt opened).1 = true →
        (s.connect kept attempt opened).2.Reaches (s.connect kept attempt opened).2.target) := by
  have hseen : (s.observe kept).Right :=
    hright.keeps (keeps_observe kept) fun h => (canReuse_observe kept).symm.trans h
  unfold connect
  generalize s.observe kept = t at hseen
  dsimp only
  split
  · rename_i hkept
    rw [Bool.and_eq_true, Bool.and_eq_true] at hkept
    have hreaches := keeps_read.onTarget (hseen hkept.1.1 hkept.1.2)
    exact ⟨fun _ _ => hreaches, fun _ => hreaches⟩
  · cases hclient : t.client with
    | none => exact ⟨hseen, fun h => nomatch h⟩
    | some cell =>
      by_cases hname : attempt = .unknownName
      · subst hname
        refine ⟨fun hreuse hcan => ?_, fun h => nomatch h⟩
        exact openNew_reaches hclient _ opened fun _ => hseen hreuse hcan
      · have hreaches := openNew_reaches hclient attempt opened fun h => absurd h hname
        exact ⟨fun _ _ => hreaches, fun _ => hreaches⟩

def Sent.Directed (request : Sent) : Prop := request.connection = some request.target

theorem sent_directed (hreaches : s.Reaches s.target) (hconnected : s.connected = true)
    (type payload : List UInt8) : Sent.Directed (s.sent type payload) := by
  unfold connected at hconnected
  cases hcontext : s.context with
  | none =>
    rw [hcontext] at hconnected
    cases hconnected
  | some context =>
    rw [hcontext] at hconnected
    have htarget := hreaches context hcontext hconnected
    simp [Sent.Directed, sent, hcontext, htarget, target]

theorem Keeps.right {t : HTTPClient} (h : Keeps s t) (hreaches : s.Reaches s.target) : t.Right :=
  fun _ _ => h.onTarget hreaches

theorem exchange_right (hright : s.Right) (x : Exchange) (type payload : List UInt8) :
    (s.exchange x type payload).state.Right ∧
      ∀ request ∈ (s.exchange x type payload).request, Sent.Directed request := by
  unfold exchange
  dsimp only
  have hwiped : Right { s with currentHeaders := s.currentHeaders.map fun entry => (entry.1, []) } :=
    hright
  obtain ⟨hconnect, hreaches⟩ := connect_right hwiped x.kept x.attempt x.opened
  generalize connect x.kept x.attempt x.opened _ = opened at hconnect hreaches
  split
  · exact ⟨hconnect, fun _ h => nomatch h⟩
  · rename_i hopened
    have hwrite := (keeps_addHeader contentLength (numeral 10 payload.length) false).trans
      (keeps_observe (s := opened.2.addHeader _ _ false) x.headerSeen)
    have hreaches := hreaches (Bool.of_not_eq_false hopened)
    generalize (opened.2.addHeader _ _ false).observe x.headerSeen = written at hwrite
    split
    · exact ⟨hwrite.right hreaches, fun _ h => nomatch h⟩
    · rename_i hconnected
      have hdirected : ∀ request ∈ some (written.sent type payload), Sent.Directed request := by
        intro request hrequest
        cases hrequest
        exact sent_directed (hwrite.onTarget hreaches) (Bool.of_not_eq_false hconnected) type payload
      split
      · exact ⟨hwrite.right hreaches, hdirected⟩
      · split
        · exact ⟨hwrite.right hreaches, hdirected⟩
        · have hanswered := (hwrite.trans (keeps_observe x.responseSeen)).trans
            ((keeps_handleHeaderResponse x.lines x.lost).trans (keeps_observe x.after))
          exact ⟨hanswered.right hreaches, hdirected⟩

theorem right_of_cleared (h : s.canReuse = false) : s.Right := by
  intro _ hcan
  rw [h] at hcan
  cases hcan

theorem retarget_right (host : List UInt8) (port : UInt16) (uri : List UInt8)
    (h : s.reuse = true → s.canReuse = true → s.host = [] ∨ equals host s.host = true →
      s.Reaches ⟨visible host, port⟩) : (s.retarget host port uri).Right := by
  unfold retarget
  dsimp only
  split
  · exact right_of_cleared (canReuse_disconnect true)
  · rename_i hsame
    intro hreuse hcan
    refine h hreuse hcan ?_
    by_cases hhost : s.host = []
    · exact Or.inl hhost
    · exact Or.inr (Bool.of_not_eq_false fun hother => hsame ⟨hhost, hother⟩)

theorem canReuse_retarget (host : List UInt8) (port : UInt16) (uri : List UInt8)
    (h : s.canReuse = false) : (s.retarget host port uri).canReuse = false := by
  unfold retarget
  dsimp only
  split
  · exact canReuse_disconnect true
  · exact h

theorem canReuse_authorize (encode : Encode) (auth : Option (List UInt8)) :
    (s.authorize encode auth).canReuse = s.canReuse := by
  cases auth <;> rfl

theorem keeps_authorize (encode : Encode) (auth : Option (List UInt8)) :
    Keeps s (s.authorize encode auth) := by
  cases auth <;> exact keeps_of_context rfl rfl rfl rfl

theorem canReuse_beginInternal (encode : Encode) (url : List UInt8) (h : s.canReuse = false) :
    (beginInternal encode url s).2.canReuse = false := by
  unfold beginInternal
  dsimp only
  split
  · exact h
  · split
    · apply canReuse_retarget
      exact (canReuse_authorize encode _).trans h
    · exact h

theorem setURL_right (hright : s.Right) (encode : Encode) (url : List UInt8) :
    (s.setURL encode url).2.Right := by
  unfold setURL
  split
  · exact hright
  · split
    · exact right_of_cleared (canReuse_beginInternal encode url (canReuse_disconnect true))
    · exact hright

theorem returnError_right (hright : s.Right) (error : Int) : (s.returnError error).Right :=
  hright.keeps (keeps_returnError error) fun h => (canReuse_returnError error).symm.trans h

theorem record_directed {turn : Turn} (h : ∀ request ∈ turn.request, Sent.Directed request) :
    ∀ entry ∈ turn.record, Sent.Directed entry.1 := by
  intro entry hentry
  obtain ⟨request, hrequest, rfl⟩ := List.mem_map.mp hentry
  exact h request (Option.mem_toList.mp hrequest)

theorem sendLoop_right (encode : Encode) (server : Nat → Exchange) (redirects : Nat)
    (type payload : List UInt8) (hright : s.Right) :
    (sendLoop encode server redirects type payload s).state.Right ∧
      ∀ entry ∈ (sendLoop encode server redirects type payload s).trace, Sent.Directed entry.1 := by
  induction redirects generalizing type payload s with
  | zero =>
    obtain ⟨hstate, hsent⟩ := exchange_right hright (server 0) type payload
    exact ⟨returnError_right hstate _, record_directed hsent⟩
  | succ redirects ih =>
    obtain ⟨hstate, hsent⟩ := exchange_right hright (server (redirects + 1)) type payload
    unfold sendLoop
    dsimp only
    generalize s.exchange (server (redirects + 1)) type payload = turn at hstate hsent
    cases turn.follow s.followRedirects type with
    | none => exact ⟨returnError_right hstate _, record_directed hsent⟩
    | some followed =>
      have hmoved := setURL_right hstate encode followed.2
      dsimp only
      split
      · exact ⟨returnError_right hmoved _, record_directed hsent⟩
      · obtain ⟨hrest, hlater⟩ := ih (followed.1.request type payload).1
          (followed.1.request type payload).2 hmoved
        refine ⟨hrest, fun entry hentry => ?_⟩
        exact (List.mem_append.mp hentry).elim (record_directed hsent entry) (hlater entry)

end HTTPClient

theorem Net.context_clone (net : Net) (client : WiFiClient) :
    (net.clone client).2.context (net.clone client).1 = net.context client.cell := by
  unfold Net.clone
  split
  · rfl
  · simp [Net.context, Net.assign]

def urlTarget (url : List UInt8) : Option Target :=
  (strchr 58 url).map fun index =>
    (authority (defaultPort ((url.take index).map tolower)) (before 47 (url.drop (index + 3)))).2

/-- The calls on an `HTTPClient`, with what a server answers, and what a peer does in between. -/
inductive Call where
  | beginUrl (client : WiFiClient) (url : List UInt8)
  | beginHost (client : WiFiClient) (host : List UInt8) (port : UInt16) (uri : List UInt8)
      (secure : Bool)
  | setURL (url : List UInt8)
  | addHeader (name value : List UInt8) (first : Bool)
  | sendRequest (type payload : List UInt8) (server : Nat → Exchange)
  | writeToStream (value : Int)
  | done
  | network (seen : Seen)

def HTTPClient.step (encode : Encode) (s : HTTPClient) : Call → List Sent × HTTPClient
  | .beginUrl client url => ([], (s.beginUrl encode client url).2)
  | .beginHost client host port uri secure => ([], s.beginHost client host port uri secure)
  | .setURL url => ([], (s.setURL encode url).2)
  | .addHeader name value first => ([], s.addHeader name value first)
  | .sendRequest type payload server =>
    let run := s.sendRequest encode server type payload
    (run.trace.map Prod.fst, run.state)
  | .writeToStream value => ([], s.writeToStream value)
  | .done => ([], s.end)
  | .network seen => ([], s.observe seen)

def requests (encode : Encode) : HTTPClient → List Call → List Sent
  | _, [] => []
  | s, call :: rest => (s.step encode call).1 ++ requests encode (s.step encode call).2 rest

/-- `begin` is handed a client whose connection would be kept for another target: the host was
not set or is the same, and the flags say that the connection is to be kept. -/
def Misled (s : HTTPClient) (client : WiFiClient) (target : Target) : Prop :=
  s.reuse = true ∧ s.canReuse = true ∧ (s.host = [] ∨ equals target.host s.host = true) ∧
    ∃ context, s.net.context client.cell = some context ∧ context.counts = true ∧
      context.target ≠ ⟨visible target.host, target.port⟩

/-- No connection to another target is handed over by a `begin` that would keep it. -/
def Sound (s : HTTPClient) : Call → Prop
  | .beginUrl client url => ∀ target, urlTarget url = some target → ¬ Misled s client target
  | .beginHost client host port _ _ => ¬ Misled s client ⟨host, port⟩
  | _ => True

def SoundRun (encode : Encode) : HTTPClient → List Call → Prop
  | _, [] => True
  | s, call :: rest => Sound s call ∧ SoundRun encode (s.step encode call).2 rest

namespace HTTPClient
variable {s : HTTPClient}

theorem reaches_of_sound {client : WiFiClient} {target : Target} (h : ¬ Misled s client target)
    (hreuse : s.reuse = true) (hcan : s.canReuse = true)
    (hhost : s.host = [] ∨ equals target.host s.host = true) {t : HTTPClient}
    (ht : t.context = s.net.context client.cell) : t.Reaches ⟨visible target.host, target.port⟩ := by
  intro context hthere hcount
  exact Classical.not_not.mp fun hother =>
    h ⟨hreuse, hcan, hhost, context, ht.symm.trans hthere, hcount, hother⟩

theorem beginInternal_right (encode : Encode) {url : List UInt8} {index : Nat}
    (hindex : strchr 58 url = some index) (hprotocol : (url.take index).map tolower = http ∨
      (url.take index).map tolower = https)
    (h : ∀ target, urlTarget url = some target → s.reuse = true → s.canReuse = true →
      s.host = [] ∨ equals target.host s.host = true →
        s.Reaches ⟨visible target.host, target.port⟩) :
    (beginInternal encode url s).2.Right := by
  have htarget := h _ (congrArg (Option.map _) hindex)
  unfold beginInternal
  simp only [hindex, if_pos hprotocol]
  apply retarget_right
  have hkeeps := keeps_authorize (s := { s.clear with protocol := (url.take index).map tolower })
    encode (authority (defaultPort ((url.take index).map tolower)) (before 47 (url.drop (index + 3)))).1
  intro hreuse hcan hhost
  rw [canReuse_authorize] at hcan
  rw [hkeeps.host] at hhost
  exact hkeeps.reaches _ (htarget (hkeeps.reuse ▸ hreuse) hcan hhost)

theorem beginUrl_right (encode : Encode) {client : WiFiClient} {url : List UInt8} (hright : s.Right)
    (hsound : ∀ target, urlTarget url = some target → ¬ Misled s client target) :
    (s.beginUrl encode client url).2.Right := by
  unfold beginUrl
  cases hindex : strchr 58 url with
  | none => exact hright
  | some index =>
    dsimp only
    split
    · rename_i hprotocol
      apply beginInternal_right encode hindex hprotocol
      intro target htarget hreuse hcan hhost
      exact reaches_of_sound (hsound target htarget) hreuse hcan hhost
        (Net.context_clone s.net client)
    · exact hright

theorem equals_comm (a b : List UInt8) : equals a b = equals b a := by
  simp only [equals, eq_comm]

theorem beginHost_right {client : WiFiClient} {host : List UInt8} {port : UInt16}
    (uri : List UInt8) (secure : Bool) (hsound : ¬ Misled s client ⟨host, port⟩) :
    (s.beginHost client host port uri secure).Right := by
  unfold beginHost
  dsimp only
  split
  · exact right_of_cleared (canReuse_disconnect true)
  · rename_i hsame
    intro hreuse hcan
    refine reaches_of_sound hsound hreuse hcan ?_ (Net.context_clone s.net client)
    by_cases hhost : s.host = []
    · exact Or.inl hhost
    · refine Or.inr ((equals_comm host s.host).trans ?_)
      exact Bool.of_not_eq_false fun hother => hsame ⟨hhost, hother⟩

theorem writeToStream_right (hright : s.Right) (value : Int) : (s.writeToStream value).Right := by
  unfold writeToStream
  split
  · exact returnError_right hright value
  · exact hright.keeps (keeps_disconnect true) fun h => (canReuse_disconnect true).symm.trans h

theorem step_right (encode : Encode) {call : Call} (hright : s.Right) (hsound : Sound s call) :
    (s.step encode call).2.Right ∧ ∀ request ∈ (s.step encode call).1, Sent.Directed request := by
  cases call with
  | beginUrl client url => exact ⟨beginUrl_right encode hright hsound, fun _ h => nomatch h⟩
  | beginHost client host port uri secure =>
    exact ⟨beginHost_right uri secure hsound, fun _ h => nomatch h⟩
  | setURL url => exact ⟨setURL_right hright encode url, fun _ h => nomatch h⟩
  | addHeader name value first =>
    refine ⟨hright.keeps (keeps_addHeader name value first) ?_, fun _ h => nomatch h⟩
    unfold step HTTPClient.addHeader
    dsimp only
    split <;> exact id
  | sendRequest type payload server =>
    obtain ⟨hstate, hsent⟩ :=
      sendLoop_right encode server s.redirectLimit.toNat type payload hright
    refine ⟨hstate, fun request hrequest => ?_⟩
    obtain ⟨entry, hentry, rfl⟩ := List.mem_map.mp hrequest
    exact hsent entry hentry
  | writeToStream value => exact ⟨writeToStream_right hright value, fun _ h => nomatch h⟩
  | done =>
    refine ⟨?_, fun _ h => nomatch h⟩
    exact hright.keeps ((keeps_disconnect false).trans keeps_clear) fun h =>
      (canReuse_disconnect false).symm.trans h
  | network seen =>
    refine ⟨hright.keeps (keeps_observe seen) fun h => ?_, fun _ h => nomatch h⟩
    exact (canReuse_observe seen).symm.trans h

theorem requests_directed (encode : Encode) (calls : List Call) (hright : s.Right)
    (hsound : SoundRun encode s calls) :
    ∀ request ∈ requests encode s calls, Sent.Directed request := by
  induction calls generalizing s with
  | nil => exact fun _ h => nomatch h
  | cons call rest ih =>
    obtain ⟨hstate, hsent⟩ := step_right encode hright hsound.1
    intro request hrequest
    exact (List.mem_append.mp hrequest).elim (hsent request) (ih hstate hsound.2 request)

end HTTPClient

def Fresh (s : HTTPClient) : Prop := s.client = none ∧ s.canReuse = false ∧ s.reuse = true

/-- Every request of a run from a fresh object goes over a connection to host and port of the URL
in force, if every `begin` is sound. -/
theorem keepAlive_along (encode : Encode) (s : HTTPClient) (hfresh : Fresh s) (calls : List Call)
    (hsound : SoundRun encode s calls) :
    ∀ request ∈ requests encode s calls, request.connection = some request.target :=
  HTTPClient.requests_directed encode calls (HTTPClient.right_of_cleared hfresh.2.1) hsound

def answering (lines : List (List UInt8)) : Exchange where
  kept := ⟨false, false⟩
  attempt := .established
  opened := ⟨false, false⟩
  headerSeen := ⟨false, false⟩
  headerSent := true
  payloadSent := true
  responseSeen := ⟨false, true⟩
  lines := lines
  lost := false
  after := ⟨false, false⟩

def status (code : List Char) : List UInt8 := version ++ [49, 32] ++ ascii code ++ [32, 13]

def okay : Exchange := answering [status ['2', '0', '0'], [13]]

/-- Two requests over one connection that is kept, and one to another host. -/
def threeGets : List Call :=
  [.beginHost ⟨.given 0, true⟩ [104] 443 [47] true, .sendRequest get [] fun _ => okay,
    .writeToStream 0, .done,
    .beginHost ⟨.given 0, true⟩ [104] 443 [47] true, .sendRequest get [] fun _ => okay,
    .writeToStream 0, .done,
    .beginHost ⟨.given 0, true⟩ [105] 443 [47] true, .sendRequest get [] fun _ => okay]

theorem threeGets_directed :
    (∀ request ∈ requests id HTTPClient.new threeGets,
      request.connection = some request.target) ∧
    (requests id HTTPClient.new threeGets).length = 3 := by
  refine ⟨keepAlive_along id HTTPClient.new ⟨rfl, rfl, rfl⟩ threeGets ?_, by decide +kernel⟩
  refine ⟨fun h => Bool.false_ne_true h.2.1, trivial, trivial, trivial, ?_, trivial, trivial, trivial,
    ?_, trivial, trivial⟩
  · rintro ⟨-, -, -, context, hthere, -, hother⟩
    cases hthere
    exact hother rfl
  · rintro ⟨-, -, hhost, -⟩
    exact absurd hhost (by decide +kernel)

theorem otherPort_reused : ¬ ∀ (encode : Encode) (s : HTTPClient), Fresh s → ∀ calls,
    ∀ request ∈ requests encode s calls, request.connection = some request.target := by
  intro hall
  have hrun : ¬ ∀ request ∈ requests id HTTPClient.new
      [.beginHost ⟨.given 0, true⟩ [104] 443 [47] true, .sendRequest get [] fun _ => okay,
        .writeToStream 0, .done,
        .beginHost ⟨.given 0, true⟩ [104] 8443 [47] true, .sendRequest get [] fun _ => okay],
      request.connection = some request.target := by
    decide +kernel
  exact hrun (hall id HTTPClient.new ⟨rfl, rfl, rfl⟩ _)

end Esp8266.Http
