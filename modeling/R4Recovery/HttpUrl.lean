import R4Recovery.WebUrl
/-!
# HttpUrl — addresses and where a redirect leads

`parseUrl` and `resolveRedirect` of `http.zig`.
-/
namespace R4
namespace Http

inductive Scheme where
  | http
  | https
  deriving DecidableEq, Repr

def Scheme.defaultPort : Scheme → Nat
  | .http => 80
  | .https => 443

def Scheme.text : Scheme → Bytes
  | .http => ascii "http"
  | .https => ascii "https"

inductive UrlError where
  | empty
  | unsupportedScheme
  | missingHost
  | userinfoForbidden
  | ipv6NotSupported
  | badPort
  | fragmentForbidden
  | outputTooSmall
  | invalidTarget
  deriving DecidableEq, Repr

structure ParsedUrl where
  scheme : Scheme
  host : Bytes
  port : Nat
  path : Bytes
  explicitPort : Bool
  queryOnly : Bool
  deriving DecidableEq, Repr

inductive UrlResult where
  | value (url : ParsedUrl)
  | failure (e : UrlError)
  deriving DecidableEq, Repr

def isHex (byte : UInt8) : Bool :=
  isDigit byte || (decide (97 ≤ byte) && decide (byte ≤ 102)) || (decide (65 ≤ byte) && decide (byte ≤ 70))

/-- The bytes of a request target. -/
def targetBytes : Bytes → Bool
  | [] => true
  | 37 :: a :: b :: rest => isHex a && isHex b && targetBytes rest
  | byte :: rest => !(decide (byte ≤ 0x20) || byte == 0x7f || byte == 35 || byte == 37) && targetBytes rest

def validRequestTarget (path : Bytes) (queryOnly : Bool) : Bool :=
  path.head? == some (if queryOnly then 63 else 47) && targetBytes path

def parsePort (value : Bytes) : Option Nat :=
  match parseDecimal value with
  | none => none
  | some parsed => if parsed = 0 ∨ parsed > 65535 then none else some parsed

def parseScheme (text : Bytes) : Option Scheme :=
  if eqlIgnoreCase text (ascii "http") then some .http
  else if eqlIgnoreCase text (ascii "https") then some .https
  else none

/-- Host and port of an authority. -/
def parseAuthority (scheme : Scheme) (authority : Bytes) : Except UrlError (Bytes × Nat × Bool) :=
  match lastIndexOfByte authority 58 with
  | some colon =>
    match parsePort (authority.drop (colon + 1)) with
    | none => .error .badPort
    | some port => .ok (authority.take colon, port, true)
  | none => .ok (authority, scheme.defaultPort, false)

def parseUrl (rawInput : Bytes) : UrlResult :=
  let raw := trimAscii rawInput
  if raw.length = 0 then .failure .empty
  else if (indexOfByte raw 35).isSome then .failure .fragmentForbidden
  else match indexOf raw (ascii "://") with
  | none => .failure .unsupportedScheme
  | some schemeEnd =>
    match parseScheme (raw.take schemeEnd) with
    | none => .failure .unsupportedScheme
    | some scheme =>
      let authorityStart := schemeEnd + 3
      if authorityStart ≥ raw.length then .failure .missingHost
      else
        let authority := (raw.drop authorityStart).takeWhile (fun c => c != 47 && c != 63)
        let authorityEnd := authorityStart + authority.length
        if authority.length = 0 then .failure .missingHost
        else if (indexOfByte authority 64).isSome then .failure .userinfoForbidden
        else if authority.head? = some 91 ∨ (indexOfByte authority 93).isSome then .failure .ipv6NotSupported
        else match parseAuthority scheme authority with
        | .error e => .failure e
        | .ok (host, port, explicitPort) =>
          if host.length = 0 then .failure .missingHost
          else if !host.all isHostByte then .failure .missingHost
          else
            let queryOnly := raw[authorityEnd]? == some 63
            let path := if authorityEnd = raw.length then ascii "/" else raw.drop authorityEnd
            if !validRequestTarget path queryOnly then .failure .invalidTarget
            else .value {
              scheme := scheme
              host := host
              port := port
              path := path
              explicitPort := explicitPort
              queryOnly := queryOnly }

inductive RedirectResult where
  | url (text : Bytes)
  | invalid (e : UrlError)
  | outputTooSmall
  deriving DecidableEq, Repr

/-- `append` of `http.zig`; `none` where the bytes do not fit. -/
def append (out : Bytes) (pos : Nat) (value : Bytes) : Option (Bytes × Nat) :=
  if value.length > out.length - pos then none else some (put out pos value, pos + value.length)

def appendByte (out : Bytes) (pos : Nat) (value : UInt8) : Option (Bytes × Nat) :=
  if pos ≥ out.length then none else some (out.set pos value, pos + 1)

def appendUnsigned (out : Bytes) (pos value : Nat) : Option (Bytes × Nat) := append out pos (decimal value)

/-- The origin of the base, at the start of the buffer. -/
def appendOrigin (base : ParsedUrl) (out : Bytes) : Option (Bytes × Nat) := do
  let (out, pos) ← append out 0 base.scheme.text
  let (out, pos) ← append out pos (ascii "://")
  let (out, pos) ← append out pos base.host
  if base.explicitPort ∨ base.port ≠ base.scheme.defaultPort then
    let (out, pos) ← appendByte out pos 58
    appendUnsigned out pos base.port
  else some (out, pos)

def resolveRedirect (base : ParsedUrl) (locationInput out : Bytes) : Access RedirectResult :=
  let location := trimAscii locationInput
  if location.length = 0 then .ok (.invalid .missingHost)
  else if (indexOfByte location 35).isSome then .ok (.invalid .fragmentForbidden)
  else if !validRequestTarget base.path base.queryOnly then .ok (.invalid .invalidTarget)
  else match appendOrigin base out with
  | none => .ok .outputTooSmall
  | some (out, pos) =>
    match WebUrl.resolveReference pos base.path location out with
    | .error (.fail .tooLong) => .ok .outputTooSmall
    | .error (.fail .invalidUrl) => .ok (.invalid .missingHost)
    | .error .bounds => .error .bounds
    | .error .overflow => .error .overflow
    | .ok (out, len) =>
      match parseUrl (out.take len) with
      | .value _ => .ok (.url (out.take len))
      | .failure e => .ok (.invalid e)

end Http
end R4
