import Esp8266.Library.PathNames

/-! The handlers of `serveStatic`: the path that a request is mapped to, the tests for other names,
and the ETag that a 304 needs. -/
namespace Esp8266.StaticFiles
open Esp8266.PathNames

/-- What lies at a place of the file system. -/
inductive Node where
  | file (content : List UInt8)
  | directory

abbrev Tree := Location → Option Node

inductive Method where
  | get
  | head
  | other
  deriving DecidableEq

structure Request where
  method : Method
  uri : Text
  ifNoneMatch : Option Text

structure Server where
  eTagEnabled : Bool
  eTagFunction : Option (Tree → Text → Text)

structure Handler where
  uri : Text
  path : Text
  cacheHeader : Text
  filter : Option (Request → Bool)

structure Sent where
  file : Text
  contentType : Text
  cacheControl : Option Text
  eTag : Option Text
  contentLength : Nat
  content : Option (List UInt8)
  deriving DecidableEq

inductive Response where
  | notHandled
  | notModified
  | sent (s : Sent)
  deriving DecidableEq

def gz : Text := ['.', 'g', 'z']

def htm : Text := ['.', 'h', 't', 'm']

def indexHtm : Text := ['i', 'n', 'd', 'e', 'x', '.', 'h', 't', 'm']

def mimeTable : List (Text × Text) :=
  [(".html", "text/html"), (".htm", "text/html"), (".txt", "text/plain"), (".css", "text/css"),
    (".js", "application/javascript"), (".json", "application/json"), (".png", "image/png"),
    (".gif", "image/gif"), (".jpg", "image/jpeg"), (".jpeg", "image/jpeg"),
    (".ico", "image/x-icon"), (".svg", "image/svg+xml"), (".ttf", "application/x-font-ttf"),
    (".otf", "application/x-font-opentype"), (".woff", "application/font-woff"),
    (".woff2", "application/font-woff2"), (".eot", "application/vnd.ms-fontobject"),
    (".sfnt", "application/font-sfnt"), (".xml", "text/xml"), (".pdf", "application/pdf"),
    (".zip", "application/zip"), (".appcache", "text/cache-manifest"),
    (".gz", "application/x-gzip"), ("", "application/octet-stream")].map
      fun entry => (entry.1.toList, entry.2.toList)

def getContentType (path : Text) : Text :=
  ((mimeTable.find? fun entry => entry.1.isSuffixOf path).map (·.2)).getD
    "application/octet-stream".toList

def present (tree : Tree) (path : Text) : Bool := (tree (locate path)).isSome

def openFile (tree : Tree) (path : Text) : Option (List UInt8) :=
  match tree (locate path) with
  | some (.file content) => some content
  | _ => none

def calcETag (checksum : List UInt8 → Text) (tree : Tree) (path : Text) : Text :=
  '"' :: (checksum ((openFile tree path).getD []) ++ ['"'])

def Request.header (request : Request) : Text := request.ifNoneMatch.getD []

namespace Handler

def validMethod (method : Method) : Bool := method = .get || method = .head

def takesBelow (h : Handler) (request : Request) : Bool :=
  validMethod request.method && h.uri.isPrefixOf request.uri &&
    (h.filter.map (· request)).getD true

def takesExactly (h : Handler) (request : Request) : Bool :=
  validMethod request.method && request.uri = h.uri && (h.filter.map (· request)).getD true

def behind (h : Handler) (uri : Text) : Text := uri.drop h.uri.length

def requestPath (h : Handler) (uri : Text) : Text :=
  let path := h.path ++ h.behind uri
  if ['/'].isSuffixOf path then path ++ indexHtm else path

def streamFile (h : Handler) (server : Server) (request : Request) (file contentType eTag : Text)
    (content : List UInt8) : Sent :=
  { file
    contentType
    cacheControl := if h.cacheHeader.length ≠ 0 then some h.cacheHeader else none
    eTag := if server.eTagEnabled && decide (0 < eTag.length) then some eTag else none
    contentLength := content.length
    content := if request.method = .get then some content else none }

end Handler

def orHtml (tree : Tree) (path : Text) : Text :=
  if !present tree path && !present tree (path ++ gz) && htm.isSuffixOf path then path ++ ['l']
  else path

def orGz (tree : Tree) (path : Text) : Text :=
  if !gz.isSuffixOf path && !present tree path then
    if present tree (path ++ gz) then path ++ gz else path
  else path

section
variable (checksum : List UInt8 → Text)

def Server.eTag (server : Server) (tree : Tree) (path : Text) : Text :=
  match server.eTagFunction with
  | some eTagFunction => eTagFunction tree path
  | none => calcETag checksum tree path

def Handler.handleDirectory (h : Handler) (server : Server) (tree : Tree) (request : Request) :
    Response :=
  if h.takesBelow request then
    let path := orHtml tree (h.requestPath request.uri)
    let contentType := getContentType path
    let path := orGz tree path
    match openFile tree path with
    | none => .notHandled
    | some content =>
      let eTagCode := if server.eTagEnabled then server.eTag checksum tree path else []
      if server.eTagEnabled && decide (request.header = eTagCode) then .notModified
      else .sent (h.streamFile server request path contentType eTagCode content)
  else .notHandled

def Handler.nextCode (h : Handler) (server : Server) (held : Text) (tree : Tree) : Text :=
  if server.eTagEnabled then
    match server.eTagFunction with
    | some eTagFunction => eTagFunction tree h.path
    | none => if held.isEmpty then calcETag checksum tree h.path else held
  else held

def Handler.handleFile (h : Handler) (server : Server) (held : Text) (tree : Tree)
    (request : Request) : Text × Response :=
  if h.takesExactly request then
    let eTagCode := h.nextCode checksum server held tree
    if server.eTagEnabled && decide (request.header = eTagCode) then (eTagCode, .notModified)
    else
      match openFile tree h.path with
      | none => (eTagCode, .notHandled)
      | some content =>
        (eTagCode, .sent (h.streamFile server request h.path (getContentType h.path) eTagCode
          content))
  else (held, .notHandled)

end

end Esp8266.StaticFiles
