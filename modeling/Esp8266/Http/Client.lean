import Esp8266.Http.WriteToStream
import Esp8266.Library.Substring
import Esp8266.Web.Text

/-! `HTTPClient`: the URL in force, the connection that is kept, the headers of the request, and
the loop that follows redirects. -/
namespace Esp8266.Http
open Esp8266.Ctype Esp8266.Numeral Esp8266.Substring Esp8266.Web

def ascii (text : List Char) : List UInt8 := text.map Char.toUInt8

structure Target where
  host : List UInt8
  port : UInt16
  deriving DecidableEq

structure Context where
  target : Target
  established : Bool
  unread : Bool
  deriving DecidableEq

/-- `HTTPClient::connected`, on the connection of its client -/
def Context.counts (context : Context) : Bool := context.established || context.unread

def Context.close (context : Context) : Context := { context with established := false }

/-- What a client object refers to its connection through: the object itself, or for a
`WiFiClientSecure` what all its copies share. -/
inductive Cell where
  | given (client : Nat)
  | cloned (client : Nat)
  deriving DecidableEq

structure Net where
  contexts : List Context
  cells : Cell → Option Nat
  /-- How many plain clients were cloned. -/
  clones : Nat

/-- A client object that is handed to `begin`. -/
structure WiFiClient where
  cell : Cell
  secure : Bool

def Net.context (net : Net) (cell : Cell) : Option Context :=
  (net.cells cell).bind (net.contexts[·]?)

def Net.assign (net : Net) (cell : Cell) (id : Option Nat) : Net :=
  { net with cells := fun other => if other = cell then id else net.cells other }

def Net.change (net : Net) (cell : Cell) (f : Context → Context) : Net :=
  match net.cells cell with
  | none => net
  | some id => { net with contexts := net.contexts.modify id f }

def Net.clone (net : Net) (client : WiFiClient) : Cell × Net :=
  if client.secure then (client.cell, net)
  else
    let copy := Cell.cloned net.clones
    (copy, { net.assign copy (net.cells client.cell) with clones := net.clones + 1 })

structure Seen where
  lost : Bool
  unread : Bool
  deriving DecidableEq

def Net.observe (net : Net) (cell : Cell) (seen : Seen) : Net :=
  net.change cell fun context =>
    { context with
      established := context.established && !seen.lost
      unread := context.counts && seen.unread }

/-- How `WiFiClient::connect` ends. -/
inductive Attempt where
  | unknownName
  | refused
  | established
  deriving DecidableEq

def Net.open (net : Net) (cell : Cell) (host : List UInt8) (port : UInt16) : Attempt → Net
  | .unknownName => net
  | .refused => (net.change cell Context.close).assign cell none
  | .established =>
    let closed := net.change cell Context.close
    { closed.assign cell (some closed.contexts.length) with
      contexts := closed.contexts ++ [⟨⟨visible host, port⟩, true, false⟩] }

inductive FollowRedirects where
  | disable
  | strict
  | force
  deriving DecidableEq

structure HTTPClient where
  net : Net
  client : Option Cell
  host : List UInt8
  port : UInt16
  reuse : Bool
  useHTTP10 : Bool
  uri : List UInt8
  protocol : List UInt8
  headers : List UInt8
  base64Authorization : List UInt8
  userAgent : List UInt8
  /-- The headers of a response that are collected. -/
  currentHeaders : List (List UInt8 × List UInt8)
  returnCode : Int
  size : Int
  canReuse : Bool
  followRedirects : FollowRedirects
  redirectLimit : UInt16
  location : List UInt8
  transferEncoding : TransferEncoding

def errorConnectionFailed : Int := -1
def errorSendHeaderFailed : Int := -2
def errorSendPayloadFailed : Int := -3
def errorNoHttpServer : Int := -7
def errorEncoding : Int := -9

def atol (text : List UInt8) : Int :=
  let signed := sign (text.dropWhile isspace)
  let n := (readDigits 10 signed.2 0).1
  if signed.1 then max (-(2 ^ 31)) (-(n : Int)) else min (2 ^ 31 - 1) n

/-- The text in front of a character, which `indexOf` finds and `substring` takes, or all of it. -/
def before (ch : UInt8) (text : List UInt8) : List UInt8 :=
  match strchr ch text with
  | none => text
  | some index => text.take index

/-- What `remove` leaves from the position that `indexOf` finds. -/
def since (ch : UInt8) (text : List UInt8) : List UInt8 :=
  match strchr ch text with
  | none => []
  | some index => text.drop index

def contains (sub text : List UInt8) : Bool := (firstIndex sub (visible text)).isSome

def removeLine (headerLine headers : List UInt8) : List UInt8 :=
  match firstIndex headerLine (visible headers) with
  | none => headers
  | some start =>
    match strchr 10 (headers.drop start) with
    | none => headers.take start ++ headers
    | some stop => headers.take start ++ headers.drop (start + stop + 1)

def separator : List UInt8 := ascii [':', ' ']
def newline : List UInt8 := [13, 10]
def http : List UInt8 := ascii ['h', 't', 't', 'p']
def https : List UInt8 := ascii ['h', 't', 't', 'p', 's']
def get : List UInt8 := ascii ['G', 'E', 'T']
def head : List UInt8 := ascii ['H', 'E', 'A', 'D']
def hostName : List UInt8 := ascii ['H', 'o', 's', 't']
def connectionName : List UInt8 := ascii ['C', 'o', 'n', 'n', 'e', 'c', 't', 'i', 'o', 'n']
def userAgentName : List UInt8 := ascii ['U', 's', 'e', 'r', '-', 'A', 'g', 'e', 'n', 't']
def locationName : List UInt8 := ascii ['L', 'o', 'c', 'a', 't', 'i', 'o', 'n']
def authorizationName : List UInt8 :=
  ascii ['A', 'u', 't', 'h', 'o', 'r', 'i', 'z', 'a', 't', 'i', 'o', 'n']
def contentLength : List UInt8 :=
  ascii ['C', 'o', 'n', 't', 'e', 'n', 't', '-', 'L', 'e', 'n', 'g', 't', 'h']
def transferEncodingName : List UInt8 :=
  ascii ['T', 'r', 'a', 'n', 's', 'f', 'e', 'r', '-', 'E', 'n', 'c', 'o', 'd', 'i', 'n', 'g']
def keepAlive : List UInt8 := ascii ['k', 'e', 'e', 'p', '-', 'a', 'l', 'i', 'v', 'e']
def close : List UInt8 := ascii ['c', 'l', 'o', 's', 'e']
def chunked : List UInt8 := ascii ['c', 'h', 'u', 'n', 'k', 'e', 'd']
def version : List UInt8 := ascii ['H', 'T', 'T', 'P', '/', '1', '.']
def acceptEncoding : List UInt8 :=
  ascii ['A', 'c', 'c', 'e', 'p', 't', '-', 'E', 'n', 'c', 'o', 'd', 'i', 'n', 'g', ':', ' ',
    'i', 'd', 'e', 'n', 't', 'i', 't', 'y', ';', 'q', '=', '1', ',',
    'c', 'h', 'u', 'n', 'k', 'e', 'd', ';', 'q', '=', '0', '.', '1', ',', '*', ';', 'q', '=', '0']

def defaultPort (protocol : List UInt8) : UInt16 := if protocol = http then 80 else 443

/-- `host` and `port` from the part of a URL in front of the path, and the user information. -/
def authority (port : UInt16) (host : List UInt8) : Option (List UInt8) × Target :=
  let auth := (strchr 64 host).map host.take
  let host := match strchr 64 host with
    | none => host
    | some index => host.drop (index + 1)
  match strchr 58 host with
  | none => (auth, ⟨host, port⟩)
  | some index =>
    (auth, ⟨host.take index, UInt16.ofNat (atol (host.drop (index + 1)) % 2 ^ 16).toNat⟩)

abbrev Encode := List UInt8 → List UInt8

namespace HTTPClient

def new : HTTPClient where
  net := ⟨[], fun _ => none, 0⟩
  client := none
  host := []
  port := 0
  reuse := true
  useHTTP10 := false
  uri := []
  protocol := []
  headers := []
  base64Authorization := []
  userAgent := ascii ['E', 'S', 'P', '8', '2', '6', '6', 'H', 'T', 'T', 'P', 'C', 'l', 'i', 'e', 'n', 't']
  currentHeaders := []
  returnCode := 0
  size := -1
  canReuse := false
  followRedirects := .disable
  redirectLimit := 10
  location := []
  transferEncoding := .identity

def context (s : HTTPClient) : Option Context := s.client.bind s.net.context

def connected (s : HTTPClient) : Bool := s.context.any Context.counts

/-- Apply `f` to what the client refers to. -/
def change (s : HTTPClient) (f : Context → Context) : HTTPClient :=
  match s.client with
  | none => s
  | some cell => { s with net := s.net.change cell f }

def observe (s : HTTPClient) (seen : Seen) : HTTPClient :=
  match s.client with
  | none => s
  | some cell => { s with net := s.net.observe cell seen }

def clear (s : HTTPClient) : HTTPClient :=
  { s with returnCode := 0, size := -1, headers := [], location := [] }

def disconnect (preserveClient : Bool) (s : HTTPClient) : HTTPClient :=
  if s.connected then
    let read := s.change fun context => { context with unread := false }
    if read.reuse && read.canReuse then read
    else
      let stopped := read.change Context.close
      if preserveClient then stopped else { stopped with client := none }
  else if preserveClient then s else { s with client := none }

def retarget (host : List UInt8) (port : UInt16) (uri : List UInt8) (s : HTTPClient) : HTTPClient :=
  let moved := { s with host := host, port := port }
  let checked :=
    if s.host ≠ [] ∧ equals host s.host = false then disconnect true { moved with canReuse := false }
    else moved
  { checked with uri := uri }

def authorize (encode : Encode) (auth : Option (List UInt8)) (s : HTTPClient) : HTTPClient :=
  match auth with
  | none => s
  | some auth => { s with base64Authorization := encode auth }

def beginInternal (encode : Encode) (url : List UInt8) (s : HTTPClient) : Bool × HTTPClient :=
  let s := s.clear
  match strchr 58 url with
  | none => (false, s)
  | some index =>
    let protocol := (url.take index).map tolower
    let s := { s with protocol := protocol }
    let rest := url.drop (index + 3)
    if protocol = http ∨ protocol = https then
      let host := authority (defaultPort protocol) (before 47 rest)
      (true, (s.authorize encode host.1).retarget host.2.host host.2.port (since 47 rest))
    else (false, s)

def beginUrl (encode : Encode) (client : WiFiClient) (url : List UInt8) (s : HTTPClient) :
    Bool × HTTPClient :=
  match strchr 58 url with
  | none => (false, s)
  | some index =>
    let protocol := (url.take index).map tolower
    if protocol = http ∨ protocol = https then
      let cloned := s.net.clone client
      beginInternal encode url
        { s with
          port := if protocol = https then 443 else 80
          client := some cloned.1
          net := cloned.2 }
    else (false, s)

def beginHost (client : WiFiClient) (host : List UInt8) (port : UInt16) (uri : List UInt8)
    (secure : Bool) (s : HTTPClient) : HTTPClient :=
  let checked :=
    if s.host ≠ [] ∧ equals s.host host = false then disconnect true { s with canReuse := false }
    else s
  let cloned := checked.net.clone client
  { clear { checked with client := some cloned.1, net := cloned.2 } with
    host := host, port := port, uri := uri, protocol := if secure then https else http }

def «end» (s : HTTPClient) : HTTPClient := (s.disconnect false).clear

def setURL (encode : Encode) (url : List UInt8) (s : HTTPClient) : Bool × HTTPClient :=
  if url.head? = some 47 then (true, clear { s with uri := url })
  else if startsWith url (s.protocol ++ [58]) then
    beginInternal encode url (disconnect true { s with canReuse := false })
  else (false, s)

def addHeader (name value : List UInt8) (first : Bool) (s : HTTPClient) : HTTPClient :=
  if !equalsIgnoreCase name connectionName && !equalsIgnoreCase name userAgentName &&
      !equalsIgnoreCase name hostName &&
      !(equalsIgnoreCase name authorizationName && s.base64Authorization ≠ []) then
    let line := name ++ separator
    let headers := removeLine line s.headers
    { s with headers :=
        if first then line ++ value ++ newline ++ headers
        else headers ++ (line ++ value ++ newline) }
  else s

def openNew (cell : Cell) (attempt : Attempt) (opened : Seen) (s : HTTPClient) : Bool × HTTPClient :=
  let s := { s with net := s.net.open cell s.host s.port attempt }
  if attempt = .established then ((s.observe opened).connected, s.observe opened) else (false, s)

def connect (kept : Seen) (attempt : Attempt) (opened : Seen) (s : HTTPClient) :
    Bool × HTTPClient :=
  let s := s.observe kept
  if s.reuse && s.canReuse && s.connected then
    (true, s.change fun context => { context with unread := false })
  else
    match s.client with
    | none => (false, s)
    | some cell => s.openNew cell attempt opened

/-- What `sendHeader` writes. -/
def requestText (type : List UInt8) (s : HTTPClient) : List UInt8 :=
  type ++ [32] ++ (if s.uri = [] then [47] else s.uri) ++ [32] ++ version ++
    (if s.useHTTP10 then [48] else [49]) ++ newline ++ hostName ++ separator ++ s.host ++
    (if s.port ≠ 80 ∧ s.port ≠ 443 then 58 :: numeral 10 s.port.toNat else []) ++
    (if s.userAgent = [] then [] else newline ++ userAgentName ++ separator ++ s.userAgent) ++
    (if s.useHTTP10 then [] else newline ++ acceptEncoding) ++
    (if s.base64Authorization = [] then []
      else newline ++ authorizationName ++ separator ++ ascii ['B', 'a', 's', 'i', 'c', ' '] ++
        s.base64Authorization) ++
    newline ++ connectionName ++ separator ++ (if s.reuse then keepAlive else close) ++ newline ++
    s.headers ++ newline

def returnError (error : Int) (s : HTTPClient) : HTTPClient :=
  if error < 0 ∧ s.connected = true then s.change Context.close else s

def statusLine (line : List UInt8) (s : HTTPClient) : HTTPClient :=
  let code := atol (substring line 9 (unsigned (indexOf line 32 9)))
  { s with
    returnCode := code
    canReuse := s.canReuse && charAt line 7 ≠ 48 && (0 < code && code < 500) }

def collect (name value : List UInt8) :
    List (List UInt8 × List UInt8) → List (List UInt8 × List UInt8)
  | [] => []
  | entry :: rest =>
    if equalsIgnoreCase entry.1 name then
      (entry.1, if entry.2 = [] then value else entry.2 ++ 44 :: value) :: rest
    else entry :: collect name value rest

def headerField (name value : List UInt8) (s : HTTPClient) : HTTPClient :=
  { s with
    size := if equalsIgnoreCase name contentLength then atol value else s.size
    canReuse := s.canReuse && !(equalsIgnoreCase name connectionName &&
      contains close value && !contains keepAlive value)
    location := if equalsIgnoreCase name locationName then value else s.location
    currentHeaders := collect name value s.currentHeaders }

def headerEnd (encoding : List UInt8) (s : HTTPClient) : HTTPClient :=
  if encoding ≠ [] ∧ equalsIgnoreCase encoding chunked = false then
    { s with returnCode := errorEncoding }
  else
    { s with
      transferEncoding := if encoding ≠ [] then .chunked else .identity
      returnCode := if s.returnCode ≤ 0 then errorNoHttpServer else s.returnCode }

/-- The loop of `handleHeaderResponse` over the lines that arrive; behind them the connection is
lost, or nothing arrives until the timeout. -/
def readHeader (lost : Bool) : List (List UInt8) → List UInt8 → HTTPClient → Int × HTTPClient
  | [], _, s => (if lost then errorConnectionLost else errorReadTimeout, s)
  | line :: rest, encoding, s =>
    if startsWith line version then readHeader lost rest encoding (s.statusLine line)
    else
      match strchr 58 line with
      | some (index + 1) =>
        let name := line.take (index + 1)
        let value := trim (line.drop (index + 2))
        let encoding := if equalsIgnoreCase name transferEncodingName then value else encoding
        readHeader lost rest encoding (s.headerField name value)
      | _ =>
        if trim line = [] then ((s.headerEnd encoding).returnCode, s.headerEnd encoding)
        else readHeader lost rest encoding s

def handleHeaderResponse (lines : List (List UInt8)) (lost : Bool) (s : HTTPClient) :
    Int × HTTPClient :=
  if s.connected then
    readHeader lost lines [] { s.clear with canReuse := s.reuse, transferEncoding := .identity }
  else (errorNotConnected, s)

end HTTPClient

structure Exchange where
  kept : Seen
  attempt : Attempt
  opened : Seen
  headerSeen : Seen
  headerSent : Bool
  payloadSent : Bool
  responseSeen : Seen
  lines : List (List UInt8)
  lost : Bool
  /-- The connection behind the header -/
  after : Seen

structure Sent where
  method : List UInt8
  uri : List UInt8
  protocol : List UInt8
  target : Target
  headers : List UInt8
  body : List UInt8
  text : List UInt8
  connection : Option Target
  deriving DecidableEq

structure Response where
  code : Int
  location : List UInt8
  deriving DecidableEq

namespace HTTPClient

def sent (type payload : List UInt8) (s : HTTPClient) : Sent where
  method := type
  uri := if s.uri = [] then [47] else s.uri
  protocol := s.protocol
  target := ⟨visible s.host, s.port⟩
  headers := s.headers
  body := payload
  text := s.requestText type ++ payload
  connection := s.context.map Context.target

structure Turn where
  request : Option Sent
  response : Option Response
  value : Int
  state : HTTPClient

def exchange (x : Exchange) (type payload : List UInt8) (s : HTTPClient) : Turn :=
  let wiped := s.currentHeaders.map fun entry => (entry.1, [])
  let s := { s with currentHeaders := wiped }
  let opened := s.connect x.kept x.attempt x.opened
  if opened.1 = false then ⟨none, none, errorConnectionFailed, opened.2⟩
  else
    let s := opened.2.addHeader contentLength (numeral 10 payload.length) false
    let s := s.observe x.headerSeen
    if s.connected = false then ⟨none, none, errorSendHeaderFailed, s⟩
    else
      let request := some (s.sent type payload)
      if x.headerSent = false then ⟨request, none, errorSendHeaderFailed, s⟩
      else if payload ≠ [] ∧ x.payloadSent = false then ⟨request, none, errorSendPayloadFailed, s⟩
      else
        let answered := (s.observe x.responseSeen).handleHeaderResponse x.lines x.lost
        let s := answered.2.observe x.after
        ⟨request, some ⟨answered.1, s.location⟩, answered.1, s⟩

inductive Redirect where
  | same
  | dropped
  deriving DecidableEq

def redirection (follow : FollowRedirects) (type : List UInt8) (response : Response) :
    Option Redirect :=
  if follow = .disable ∨ response.location = [] then none
  else if response.code = 301 ∨ response.code = 307 then
    if follow = .force ∨ visible type = get ∨ visible type = head then some .same else none
  else if response.code = 302 ∨ response.code = 303 then some .dropped
  else none

def Redirect.request (type payload : List UInt8) : Redirect → List UInt8 × List UInt8
  | .same => (type, payload)
  | .dropped => (get, [])

def Turn.record (turn : Turn) : List (Sent × Option Response) :=
  turn.request.toList.map fun request => (request, turn.response)

def Turn.follow (turn : Turn) (follow : FollowRedirects) (type : List UInt8) :
    Option (Redirect × List UInt8) :=
  turn.response.bind fun response =>
    (redirection follow type response).map fun redirect => (redirect, response.location)

structure Run where
  trace : List (Sent × Option Response)
  value : Int
  state : HTTPClient

/-- The loop of `sendRequest`, which may follow some more redirects. -/
def sendLoop (encode : Encode) (server : Nat → Exchange) :
    Nat → List UInt8 → List UInt8 → HTTPClient → Run
  | 0, type, payload, s =>
    let turn := s.exchange (server 0) type payload
    ⟨turn.record, turn.value, turn.state.returnError turn.value⟩
  | redirects + 1, type, payload, s =>
    let turn := s.exchange (server (redirects + 1)) type payload
    match turn.follow s.followRedirects type with
    | none => ⟨turn.record, turn.value, turn.state.returnError turn.value⟩
    | some (redirect, location) =>
      let moved := turn.state.setURL encode location
      if moved.1 = false then ⟨turn.record, turn.value, moved.2.returnError turn.value⟩
      else
        let request := redirect.request type payload
        let rest := sendLoop encode server redirects request.1 request.2 moved.2
        { rest with trace := turn.record ++ rest.trace }

/-- `sendRequest`, whose server is asked by how many redirects may still be followed. -/
def sendRequest (encode : Encode) (server : Nat → Exchange) (type payload : List UInt8)
    (s : HTTPClient) : Run :=
  sendLoop encode server s.redirectLimit.toNat type payload s

def writeToStream (value : Int) (s : HTTPClient) : HTTPClient :=
  if value < 0 then s.returnError value else s.disconnect true

end HTTPClient

end Esp8266.Http
