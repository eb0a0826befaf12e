import Mathlib.Algebra.Ring.Nat
import Mathlib.Data.List.Basic

/-! # Channel URIs

The parser of `channel.rs` for URIs such as `aeron:udp?endpoint=127.0.0.1:40123|ttl=4`. The query is
split at the bars and every part at its first equals sign; a part without one is skipped, and a name
that stands twice has its last value. Only `endpoint` is required. Unknown names are kept with the
others, so a URI may carry any text.

Names, values and addresses are read as lists of characters. What the standard library and the system
know about addresses is a **`Resolver`**. -/

namespace AeronRs

/-! ## Addresses -/

inductive IpAddr
  | v4 (octets : BitVec 32)
  | v6 (octets : BitVec 128)
  deriving DecidableEq, Repr

inductive SocketAddr
  | v4 (octets : BitVec 32) (port : BitVec 16)
  | v6 (octets : BitVec 128) (port : BitVec 16) (flowinfo scopeId : BitVec 32)
  deriving DecidableEq, Repr

/-- `is_multicast`: the blocks `224.0.0.0/4` and `ff00::/8`. -/
def IpAddr.isMulticast : IpAddr → Bool
  | .v4 octets => octets >>> 28 = 0xe
  | .v6 octets => octets >>> 120 = 0xff

def SocketAddr.ip : SocketAddr → IpAddr
  | .v4 octets _ => .v4 octets
  | .v6 octets _ _ _ => .v6 octets

/-- `UNSPECIFIED_V4` or `UNSPECIFIED_V6`, by the family of an address. -/
def SocketAddr.unspecified : SocketAddr → SocketAddr
  | .v4 _ _ => .v4 0 0
  | .v6 _ _ _ _ => .v6 0 0 0 0

/-- How addresses are read: `SocketAddr::from_str`, `IpAddr::from_str`, and `to_socket_addrs`, which
asks the system and fails with an error message. -/
structure Resolver where
  parseSocketAddr : List Char → Option SocketAddr
  parseIpAddr : List Char → Option IpAddr
  toSocketAddrs : List Char → Except String (List SocketAddr)

/-! ## Texts -/

def isWhitespace (c : Char) : Bool :=
  let n := c.toNat
  (9 ≤ n && n ≤ 13) || n == 0x20 || n == 0x85 || n == 0xa0 || n == 0x1680 ||
    (0x2000 ≤ n && n ≤ 0x200a) || n == 0x2028 || n == 0x2029 || n == 0x202f || n == 0x205f ||
    n == 0x3000

def trim (text : List Char) : List Char :=
  ((text.dropWhile isWhitespace).reverse.dropWhile isWhitespace).reverse

def splitOnce (sep : Char) : List Char → Option (List Char × List Char)
  | [] => none
  | c :: text =>
      if c = sep then some ([], text)
      else (splitOnce sep text).map fun parts => (c :: parts.1, parts.2)

/-- The value of at least one decimal digit. -/
def parseDigits (text : List Char) : Option Nat :=
  if text = [] then none
  else text.foldlM (fun n c => if c.isDigit then some (n * 10 + (c.toNat - 48)) else none) 0

def parseU8 (text : List Char) : Option Nat :=
  (parseDigits (match text with | '+' :: digits => digits | digits => digits)).filter (· < 2 ^ 8)

def parseI64 : List Char → Option Int
  | '-' :: digits => ((parseDigits digits).filter (· ≤ 2 ^ 63)).map fun n => -n
  | '+' :: digits => ((parseDigits digits).filter (· < 2 ^ 63)).map Int.ofNat
  | digits => ((parseDigits digits).filter (· < 2 ^ 63)).map Int.ofNat

/-! ## Channels -/

/-- The map of `parse_params`, without a name twice. -/
abbrev Params := List (List Char × List Char)

def Params.insert (params : Params) (name value : List Char) : Params :=
  (name, value) :: params.filter fun param => param.1 ≠ name

def Params.get (params : Params) (name : String) : Option (List Char) := params.lookup name.toList

structure UdpChannel where
  remoteData : SocketAddr
  localData : SocketAddr
  remoteControl : SocketAddr
  localControl : SocketAddr
  interfaceAddr : Option IpAddr
  multicastTtl : Option Nat
  isMulticast : Bool
  isManualControlMode : Bool
  isDynamicControlMode : Bool
  isResponse : Bool
  tag : Option Int
  params : Params
  deriving DecidableEq, Repr

inductive ChannelError
  | invalidUri (uri : String)
  | missingParam (name : String)
  | resolve (message : String)
  deriving DecidableEq, Repr

namespace UdpChannel

/-- The start of every URI. -/
def scheme : String := "aeron:udp?"

def parseParams (query : List Char) : Params :=
  (query.splitOn '|').foldl (fun params part =>
    match splitOnce '=' part with
    | some (name, value) => params.insert (trim name) (trim value)
    | none => params) []

def resolveAddr (resolver : Resolver) (text : List Char) : Except ChannelError SocketAddr :=
  match resolver.parseSocketAddr text with
  | some addr => .ok addr
  | none =>
      match resolver.toSocketAddrs text with
      | .error e => .error (.resolve (String.ofList text ++ ": " ++ e))
      | .ok [] => .error (.resolve ("no addresses for " ++ String.ofList text))
      | .ok (addr :: _) => .ok addr

def parse (resolver : Resolver) (uri : String) : Except ChannelError UdpChannel :=
  if ¬ scheme.toList <+: uri.toList then .error (.invalidUri uri)
  else do
    let params := parseParams (uri.toList.drop scheme.length)
    let endpoint ←
      match params.get "endpoint" with
      | some endpoint => .ok endpoint
      | none => .error (.missingParam "endpoint")
    let remoteData ← resolveAddr resolver endpoint
    let remoteControl ←
      match params.get "control" with
      | some control => resolveAddr resolver control
      | none => .ok remoteData
    let controlMode := params.get "control-mode"
    return {
      remoteData
      localData := remoteData.unspecified
      remoteControl
      localControl := remoteData.unspecified
      interfaceAddr := (params.get "interface").bind resolver.parseIpAddr
      multicastTtl := (params.get "ttl").bind parseU8
      isMulticast := remoteData.ip.isMulticast
      isManualControlMode := controlMode = some "manual".toList
      isDynamicControlMode := controlMode = some "dynamic".toList
      isResponse := params.get "response" = some "true".toList
      tag := (params.get "tag").bind parseI64
      params }

def paramsOf (uri : String) : Params := parseParams (uri.toList.drop scheme.length)

/-- **The URIs that are accepted** have the scheme and an endpoint, and their addresses can be
resolved; all other parameters are free. -/
theorem exists_parse_eq_ok_iff {resolver : Resolver} {uri : String} :
    (∃ channel, parse resolver uri = .ok channel) ↔ scheme.toList <+: uri.toList ∧
      (∃ endpoint addr, (paramsOf uri).get "endpoint" = some endpoint ∧
        resolveAddr resolver endpoint = .ok addr) ∧
      ∀ control, (paramsOf uri).get "control" = some control →
        ∃ addr, resolveAddr resolver control = .ok addr := by
  unfold parse
  rw [← paramsOf]
  by_cases hscheme : scheme.toList <+: uri.toList
  · rw [if_neg (not_not.mpr hscheme)]
    cases hendpoint : (paramsOf uri).get "endpoint" with
    | none => simp [bind, Except.bind, hendpoint]
    | some endpoint =>
        cases haddr : resolveAddr resolver endpoint with
        | error e => simp [bind, Except.bind, hendpoint, haddr]
        | ok addr =>
            cases hcontrol : (paramsOf uri).get "control" with
            | none => simp [bind, Except.bind, pure, Except.pure, hendpoint, haddr, hcontrol, hscheme]
            | some control =>
                cases hresolve : resolveAddr resolver control with
                | error e => simp [bind, Except.bind, hendpoint, haddr, hcontrol, hresolve]
                | ok addr' =>
                    simp [bind, Except.bind, pure, Except.pure, hendpoint, haddr, hcontrol, hresolve,
                      hscheme]
  · rw [if_pos hscheme]
    simp [hscheme]

end UdpChannel

end AeronRs
