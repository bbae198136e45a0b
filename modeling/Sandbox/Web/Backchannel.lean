import Sandbox.Whatwg.Setters

/-!
# Back-Channel URLs

A service calls the authorization server at an internal address. The endpoints
of Discovery are public URLs, so each is rewritten by assigning the scheme and
the host of the internal URL to it. The port is part of what is read from `host`
only if there is one, so an internal URL without a port leaves the port of the
endpoint in place, unless that is the default of the new scheme.

## Main definitions

* `toBackchannel`: The URL that is called.

## Theorems

* `toBackchannel_origin`: Where it points.
* `toBackchannel_iff`: When it points to the internal address.
* `toBackchannel_other_port`: A port of the endpoint that stays.
-/

namespace Sandbox.Web

open Whatwg

section Rewriting

variable {hosts : HostParser}

/-- `toBackchannel` of `OidcProvider`, for a URL that has been parsed. -/
def toBackchannel (backchannelBaseUrl : Option (ParsedUrl hosts)) (url : Url) : Url :=
  match backchannelBaseUrl with
  | none => url
  | some base => (url.setProtocol base.origin.scheme).setHost hosts base.host

variable (base endpoint : ParsedUrl hosts)

/-- Scheme and host are those of the base, the port only if the base has one. -/
theorem toBackchannel_origin :
    (toBackchannel (some base) endpoint.toUrl).origin =
      ⟨base.origin.scheme, base.origin.host, base.origin.port.or
        (if endpoint.origin.port = defaultPort base.origin.scheme then none
          else endpoint.origin.port)⟩ :=
  setHost_host _ base rfl

theorem toBackchannel_target :
    (toBackchannel (some base) endpoint.toUrl).target = endpoint.target := by
  unfold toBackchannel
  rw [setHost_target, setProtocol_target]

/-- A call goes to the internal address, at the path of the endpoint, just if
    that address has a port of its own or the endpoint has none that the scheme
    of the address would keep. -/
theorem toBackchannel_iff :
    ((toBackchannel (some base) endpoint.toUrl).origin = base.origin ∧
        (toBackchannel (some base) endpoint.toUrl).target = endpoint.target) ↔
      base.origin.port ≠ none ∨ endpoint.origin.port = none ∨
        endpoint.origin.port = defaultPort base.origin.scheme := by
  -- The origins differ in the port at most.
  have hport : (toBackchannel (some base) endpoint.toUrl).origin = base.origin ↔
      base.origin.port.or (if endpoint.origin.port = defaultPort base.origin.scheme then none
        else endpoint.origin.port) = base.origin.port := by
    rw [toBackchannel_origin]
    constructor
    · exact fun h => congrArg Origin.port h
    · intro h
      rw [h]
  rw [hport]
  refine ⟨fun h => ?_, fun h => ⟨?_, toBackchannel_target base endpoint⟩⟩
  -- Without a port in the base, the endpoint's own stays unless it is the default.
  · by_cases hbase : base.origin.port = none
    · have hleft := h.1
      rw [hbase, Option.none_or] at hleft
      by_cases hdefault : endpoint.origin.port = defaultPort base.origin.scheme
      · exact .inr (.inr hdefault)
      · rw [if_neg hdefault] at hleft
        exact .inr (.inl hleft)
    · exact .inl hbase
  · cases hbase : base.origin.port with
    | some port => exact Option.some_or
    | none =>
        rw [Option.none_or]
        rcases h with h | h | h
        · exact absurd hbase h
        · rw [h]
          exact ite_self none
        · rw [if_pos h]

end Rewriting

section Example

/-- Hosts that are plain names. -/
def plainHosts : HostParser where
  parse text := if text ≠ [] ∧ text.all isPlain = true then some (String.ofList text) else none
  isHost {text host} h := by
    split at h
    · next hplain =>
        rw [← Option.some.inj h, String.toList_ofList]
        exact ⟨hplain.1, .inl hplain.2⟩
    · cases h
  reparse {text host} h := by
    split at h
    · next hplain =>
        rw [← Option.some.inj h, String.toList_ofList, if_pos hplain]
    · cases h

/-- `http://auth-api` -/
def internalUrl : ParsedUrl plainHosts where
  origin := ⟨"http", "auth-api", none⟩
  target := ['/']
  http := .inl rfl
  parsed := ⟨"auth-api".toList, by decide⟩
  bound _ h := nomatch h
  notDefault _ h := nomatch h

/-- `https://auth.example.com:8443/token` -/
def tokenEndpoint : ParsedUrl plainHosts where
  origin := ⟨"https", "auth.example.com", some 8443⟩
  target := "/token".toList
  http := .inr rfl
  parsed := ⟨"auth.example.com".toList, by decide⟩
  bound p h := by
    rw [Option.mem_some.mp h |>.symm]
    decide
  notDefault p h := by
    rw [Option.mem_some.mp h |>.symm]
    decide

/-- The port of the public URL stays: the call goes to `http://auth-api:8443`. -/
theorem toBackchannel_other_port :
    (toBackchannel (some internalUrl) tokenEndpoint.toUrl).origin =
        ⟨"http", "auth-api", some 8443⟩ ∧
      ¬((toBackchannel (some internalUrl) tokenEndpoint.toUrl).origin = internalUrl.origin ∧
        (toBackchannel (some internalUrl) tokenEndpoint.toUrl).target = tokenEndpoint.target) := by
  have horigin : (toBackchannel (some internalUrl) tokenEndpoint.toUrl).origin =
      ⟨"http", "auth-api", some 8443⟩ := by
    rw [toBackchannel_origin]
    decide
  refine ⟨horigin, fun h => ?_⟩
  rw [horigin] at h
  exact absurd h.1 (by decide)

end Example

end Sandbox.Web
