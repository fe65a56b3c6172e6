import Esp8266.Library.Heap
import Esp8266.Library.LinkedList
import Esp8266.Library.Machine

/-! `WiFiClient` objects, the `ClientContext` objects they share, and the contexts that servers keep
until they are claimed. -/
namespace Esp8266.Connections
open Esp8266.Heaps Esp8266.LinkedList Esp8266.Runs

def int8 (n : Int) : Int := (n + 128) % 256 - 128

structure ClientContext where
  pcb : Bool
  refcnt : Int
  next : Option Nat
  server : Option Nat

structure WiFiClient where
  client : Option Nat
  timeout : Nat
  owned : Option Nat

structure Net where
  contexts : Heap ClientContext
  clients : Heap WiFiClient
  unclaimed : Nat → Option Nat
  args : List Nat
  misused : Bool

def Net.next (s : Net) (c : Nat) : Option Nat := (s.contexts.read c).bind ClientContext.next

def Net.holders (s : Net) : Nat → Nat := Heaps.holders WiFiClient.client s.clients

section Contexts
variable (s : Net)

def change (c : Nat) (f : ClientContext → ClientContext) : Net :=
  match s.contexts.read c with
  | some context => { s with contexts := s.contexts.write c (some (f context)) }
  | none => { s with misused := true }

def use (c : Nat) : Net := change s c id

def ref (c : Nat) : Net :=
  change s c fun context => { context with refcnt := int8 (context.refcnt + 1) }

def hangUp (c : Nat) : Net :=
  match s.contexts.read c with
  | some context =>
    if context.pcb = true then
      { s with
        contexts := s.contexts.write c (some { context with pcb := false })
        args := s.args.filter (· ≠ c) }
    else s
  | none => { s with misused := true }

/-- `unref`; what `_discard` is called for is nothing. -/
def unref (c : Nat) : Net :=
  let s := change s c fun context => { context with refcnt := int8 (context.refcnt - 1) }
  match s.contexts.read c with
  | some context =>
    if context.refcnt = 0 then
      let s := hangUp s c
      { s with contexts := s.contexts.write c none }
    else s
  | none => s

def newContext (server : Option Nat) : Nat × Net :=
  (s.contexts.length,
    { s with
      contexts := s.contexts.alloc ⟨true, 0, none, server⟩
      args := s.contexts.length :: s.args })

def lastOf (contexts : Heap ClientContext) : Nat → Nat → Option Nat
  | 0, _ => none
  | fuel + 1, c =>
    match contexts.read c with
    | none => none
    | some context =>
      match context.next with
      | none => some c
      | some next => lastOf contexts fuel next

def appendTail (server item : Nat) : Net :=
  match s.unclaimed server with
  | none => { s with unclaimed := link s.unclaimed server (some item) }
  | some head =>
    match lastOf s.contexts s.contexts.length head with
    | some last => change s last fun context => { context with next := some item }
    | none => { s with misused := true }

end Contexts

section Clients
variable (s : Net)

def setClient (i : Nat) (object : Option WiFiClient) : Net :=
  { s with clients := s.clients.write i object }

def onClient (operation : Net → Nat → Net) (client : Option Nat) : Net :=
  match client with
  | some c => operation s c
  | none => s

def create : Net := { s with clients := s.clients.alloc ⟨none, 5000, none⟩ }

def copy (other : WiFiClient) : Net :=
  onClient { s with clients := s.clients.alloc other } ref other.client

def assign (i : Nat) (this other : WiFiClient) : Net :=
  onClient (setClient (onClient s unref this.client) i (some other)) ref other.client

def stop (this : WiFiClient) : Net :=
  onClient s (fun s c => hangUp (use s c) c) this.client

/-- How `ClientContext::connect` ends: refused at once, `_error` while it waits, or not in time. -/
inductive Outcome where
  | established
  | refused
  | lost
  | late
  deriving DecidableEq

/-- `connect`; `pcb` is whether lwIP has a new one. What the servers accept while it waits comes
before or after. -/
def connect (i : Nat) (this : WiFiClient) (pcb : Bool) (outcome : Outcome) : Net :=
  let released := onClient (stop s this) unref this.client
  let s := setClient released i (some { this with client := none })
  if pcb = false then s
  else
    let new := newContext s none
    let s := use (ref (setClient new.2 i (some { this with client := some new.1 })) new.1) new.1
    match outcome with
    | .established => use s new.1
    | .refused => setClient (unref s new.1) i (some { this with client := none })
    | _ => setClient (unref (hangUp s new.1) new.1) i (some { this with client := none })

def destroy (i : Nat) (this : WiFiClient) : Net :=
  setClient (onClient s unref this.client) i none

def arrive (server : Nat) : Net :=
  let new := newContext s (some server)
  appendTail new.2 server new.1

/-- `WiFiServer::accept`; the context that was claimed. -/
def accept (server : Nat) : Option Nat × Net :=
  match s.unclaimed server with
  | none => (none, create s)
  | some c =>
    let s := use (ref { s with clients := s.clients.alloc ⟨some c, 5000, none⟩ } c) c
    (some c, use { s with unclaimed := link s.unclaimed server (s.next c) } c)

end Clients

/-- What the program does with an object, and what comes from lwIP: a connection at a server, or for
a context data and the like, the end of the stream or an error. -/
inductive Action where
  | create
  | copy (i : Nat)
  | assign (i j : Nat)
  | connect (i : Nat) (pcb : Bool) (outcome : Outcome)
  | stop (i : Nat)
  | call (i : Nat)
  | destroy (i : Nat)
  | accept (server : Nat)
  | arrive (server : Nat)
  | data (c : Nat)
  | closed (c : Nat) (left : Bool)
  | error (c : Nat)

structure Session where
  net : Net
  arrived : List (Nat × Nat)
  returned : List (Nat × Nat)

def ofServer (server : Nat) (entries : List (Nat × Nat)) : List Nat :=
  (entries.filter fun entry => entry.1 = server).map Prod.snd

def Session.arrivedAt (s : Session) (server : Nat) : List Nat := ofServer server s.arrived

def Session.returnedBy (s : Session) (server : Nat) : List Nat := ofServer server s.returned

def Session.waiting (s : Session) (server : Nat) : List Nat :=
  (s.arrivedAt server).drop (s.returnedBy server).length

def withClient (s : Net) (i : Nat) (f : WiFiClient → Net) : Net :=
  match s.clients.read i with
  | some this => f this
  | none => s

def callback (s : Net) (c : Nat) (f : Net → Nat → Net) : Net :=
  if c ∈ s.args then f s c else s

def act (s : Net) : Action → Net
  | .create => create s
  | .copy i => withClient s i (copy s)
  | .assign i j => withClient s i fun this => withClient s j (assign s i this)
  | .connect i pcb outcome => withClient s i fun this => connect s i this pcb outcome
  | .stop i => withClient s i (stop s)
  | .call i => withClient s i fun this => onClient s use this.client
  | .destroy i => withClient s i (destroy s i)
  | .accept server => (accept s server).2
  | .arrive server => arrive s server
  | .data c => callback s c use
  | .closed c left => callback s c fun s c => if left = true then use s c else hangUp s c
  | .error c => callback s c hangUp

def step (s : Session) (action : Action) : Session × Unit :=
  let net := act s.net action
  match action with
  | .arrive server => (⟨net, s.arrived ++ [(server, s.net.contexts.length)], s.returned⟩, ())
  | .accept server =>
    match (accept s.net server).1 with
    | some c => (⟨net, s.arrived, s.returned ++ [(server, c)]⟩, ())
    | none => (⟨net, s.arrived, s.returned⟩, ())
  | _ => (⟨net, s.arrived, s.returned⟩, ())

def netMachine : Machine Session Action Unit := ⟨step⟩

def started : Session := ⟨⟨[], [], fun _ => none, [], false⟩, [], []⟩

/-- Every count is that of the objects that point to the context, a context is deleted as soon as
there are none and it does not wait, no operation is on a deleted one, and what a server returned is
the beginning of what arrived, once each, while its list is the rest. -/
structure Exact (s : Session) : Prop where
  count : ∀ c context, s.net.contexts.read c = some context → context.refcnt = s.net.holders c
  unclaimed : ∀ c context, s.net.contexts.read c = some context →
    (context.refcnt = 0 ↔ ∃ server, c ∈ s.waiting server)
  deleted : ∀ c, c < s.net.contexts.length → (s.net.contexts.read c = none ↔
    s.net.holders c = 0 ∧ ∀ server, c ∉ s.waiting server)
  used : s.net.misused = false
  order : ∀ server, s.arrivedAt server = s.returnedBy server ++ s.waiting server
  once : ∀ server, (s.arrivedAt server).Nodup
  list : ∀ server, Path s.net.next (s.net.unclaimed server) (s.waiting server) none

def Action.Served (s : Session) : Action → Prop
  | .copy i => ∀ other c, s.net.clients.read i = some other → other.client = some c →
    s.net.holders c < 127
  | .assign i j => ∀ this other c, s.net.clients.read i = some this →
    s.net.clients.read j = some other → other.client = some c →
    if this.client = some c then 1 < s.net.holders c else s.net.holders c < 127
  | _ => True

end Esp8266.Connections
