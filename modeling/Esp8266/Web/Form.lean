import Esp8266.Web.Arguments
import Esp8266.Web.Upload

/-! `_parseForm` on a client that sends finitely many bytes and disconnects behind them, when
reads time out. -/
namespace Esp8266.Web
open Esp8266.Delimiter

def webserverMaxPostArgs : Nat := 32

def contentDisposition : List UInt8 :=
  [67, 111, 110, 116, 101, 110, 116, 45, 68, 105, 115, 112, 111, 115, 105, 116, 105, 111, 110]

def contentType : List UInt8 := [67, 111, 110, 116, 101, 110, 116, 45, 84, 121, 112, 101]

def textPlain : List UInt8 := [116, 101, 120, 116, 47, 112, 108, 97, 105, 110]

def blob : List UInt8 := [98, 108, 111, 98]

def filenameArg : List UInt8 := [102, 105, 108, 101, 110, 97, 109, 101]

def firstLine : Nat → List UInt8 → List UInt8 × List UInt8
  | 0, client => ([], client)
  | tries + 1, client =>
    let line := readStringUntil 13 client
    if line.1.length = 0 && tries ≠ 0 then firstLine tries line.2 else line

def partStart (line : List UInt8) : Option Int :=
  if line.length > 19 && equalsIgnoreCase (substring line 0 19) contentDisposition then
    if indexOf line 61 0 ≠ -1 then some (indexOf line 61 0) else none
  else none

def partNames (s : CurrentArgs) (line : List UInt8) (nameStart : Int) :
    List UInt8 × Option (List UInt8) :=
  let argName := substring line (unsigned (nameStart + 2)) (2 ^ 32 - 1)
  let nameStart := indexOf argName 61 0
  let last := unsigned ((argName.length : Int) - 1)
  if nameStart = -1 then (substring argName 0 last, none)
  else
    let argFilename := substring argName (unsigned (nameStart + 2)) last
    let argFilename :=
      if equals argFilename blob && s.hasArg filenameArg = some true then
        (s.arg filenameArg).getD []
      else argFilename
    (substring argName 0 (unsigned (indexOf argName 34 0)), some argFilename)

def partType (client : List UInt8) : List UInt8 × List UInt8 :=
  let line := readLine client
  if line.1.length > 12 && equalsIgnoreCase (substring line.1 0 12) contentType then
    (substring line.1 (unsigned (indexOf line.1 58 0 + 2)) (2 ^ 32 - 1), (readLine line.2).2)
  else (textPlain, line.2)

def dashBoundary (boundary : List UInt8) : List UInt8 := [45, 45] ++ boundary

def valueLoop (boundary : List UInt8) :
    Nat → List UInt8 → List UInt8 → Option (List UInt8 × List UInt8 × List UInt8)
  | 0, _, _ => none
  | fuel + 1, client, argValue =>
    let line := readLine client
    if startsWith line.1 (dashBoundary boundary) then some (argValue, line.1, line.2)
    else
      let argValue := if argValue.length > 0 then argValue ++ [10] else argValue
      valueLoop boundary fuel line.2 (argValue ++ line.1)

structure FormData where
  postArgs : List RequestArgument
  accesses : List Nat
  calls : List HTTPUpload

def FormData.store (d : FormData) (arg : RequestArgument) : FormData :=
  { d with postArgs := d.postArgs ++ [arg], accesses := d.accesses ++ [d.postArgs.length] }

def formLoop (boundary : List UInt8) (stack : Nat → UInt8) (s : CurrentArgs) (len : UInt32) :
    Nat → List UInt8 → FormData → Option (FormData × Bool)
  | 0, _, _ => none
  | fuel + 1, client, d =>
    let line := readLine client
    match partStart line.1 with
    | none => formLoop boundary stack s len fuel line.2 d
    | some nameStart =>
      let names := partNames s line.1 nameStart
      let typed := partType line.2
      match names.2 with
      | none =>
        match valueLoop boundary fuel typed.2 [] with
        | none => none
        | some (argValue, line, client) =>
          let d := d.store ⟨names.1, argValue⟩
          if equals line (dashBoundary boundary ++ [45, 45]) then some (d, true)
          else formLoop boundary stack s len fuel client d
      | some argFilename =>
        let r := uploadFile boundary stack names.1 argFilename typed.1 len typed.2
        match r.2 with
        | none => some ({ d with calls := d.calls ++ r.1.calls }, false)
        | some client =>
          -- `connected()` is false once everything is read
          if client = [] then
            some ({ d with calls := d.calls ++ (parseFormUploadAborted r.1).calls }, false)
          else
            let d := { d with calls := d.calls ++ r.1.calls }
            let line := readLine client
            if equalsCstr line.1 [45, 45] then some (d, true)
            else formLoop boundary stack s len fuel line.2 d

/-- What `_parseForm` returns and leaves. -/
structure FormResult where
  success : Bool
  args : CurrentArgs
  accesses : List Nat
  calls : List HTTPUpload

def mergeArgs (s : CurrentArgs) (d : FormData) : FormResult :=
  let room : Int := (webserverMaxPostArgs : Int) - d.postArgs.length
  let totalArgs := (if room < s.currentArgCount then room else s.currentArgCount).toNat
  let postArgs := d.postArgs ++ s.elements.take totalArgs
  { success := true,
    args := ⟨some postArgs, postArgs.length, s.currentArgsHavePlain⟩,
    accesses := d.accesses ++ List.range' d.postArgs.length totalArgs ++ List.range postArgs.length,
    calls := d.calls }

def parseForm (boundary : List UInt8) (stack : Nat → UInt8) (s : CurrentArgs) (len : UInt32)
    (fuel : Nat) (client : List UInt8) : Option FormResult :=
  let line := firstLine 3 client
  let rest := (readStringUntil 10 line.2).2
  if equals line.1 (dashBoundary boundary) then
    match formLoop boundary stack s len fuel rest ⟨[], [], []⟩ with
    | none => none
    | some (d, false) => some ⟨false, s, d.accesses, d.calls⟩
    | some (d, true) => some (mergeArgs s d)
  else some ⟨false, s, [], []⟩

end Esp8266.Web
