import TowerRateLimiter.Common.Ip
import TowerRateLimiter.Limiter.Policy

/-!
# Key extractors for IP addresses

`limiter/key_extractor.rs`: the three built-in extractors, over the functions of the crate
`http_extract` that they call. All of them show the address they find as the client key.

`TrustedProxyClientIpKeyExtractor.extract_eq_ok_iff` says where the address of a request can come
from. With nobody trusted the extractor is `IpKeyExtractor`, and for a trusted peer it is
`ClientIpKeyExtractor`.
-/

namespace TowerRateLimiter

open Rust

/-- The functions of `http_extract` that the extractors call, on the head of a request. Errors are
given by their text. -/
structure HttpExtract (Head : Type) where
  /-- `extract_socket_ip`: the address of the socket peer, from the extensions. -/
  extractSocketIp : Head → Option IpAddr
  /-- `extract_client_ip` on the headers. -/
  extractClientIp : Head → Except String (Option IpAddr)
  /-- `extract_proxy_client_ip`. -/
  extractProxyClientIp : Head → Except String (Option IpAddr)

/-- The proxy's client address is that of the headers, and the socket peer without any. -/
def HttpExtract.FallsBack {Head : Type} (x : HttpExtract Head) : Prop :=
  ∀ head, x.extractProxyClientIp head = (x.extractClientIp head).map (·.or (x.extractSocketIp head))

variable {Head Body : Type}

/-- The error of a request without a socket peer. -/
def socketIpUnavailable : RateLimitError :=
  .key "socket_ip_unavailable" "request extensions do not contain a socket ip address"

/-- The error of a request with a malformed header. -/
def invalidClientIp (error : String) : RateLimitError := .key "invalid_client_ip" error

/-- The error of a request without any address. -/
def clientIpUnavailable : RateLimitError :=
  .key "client_ip_unavailable" "request does not contain a client or socket IP address"

/-- `IpKeyExtractor::extract`. -/
def IpKeyExtractor.extract (x : HttpExtract Head) (request : Request Head Body) :
    Except RateLimitError IpAddr :=
  match x.extractSocketIp request.head with
  | some peer => .ok peer
  | none => .error socketIpUnavailable

/-- `ClientIpKeyExtractor::extract`. -/
def ClientIpKeyExtractor.extract (x : HttpExtract Head) (request : Request Head Body) :
    Except RateLimitError IpAddr :=
  match x.extractProxyClientIp request.head with
  | .error error => .error (invalidClientIp error)
  | .ok (some clientIp) => .ok clientIp
  | .ok none => .error clientIpUnavailable

/-- `TrustedProxyClientIpKeyExtractor`. -/
structure TrustedProxyClientIpKeyExtractor where
  isTrustedProxy : IpAddr → Bool

namespace TrustedProxyClientIpKeyExtractor

variable (k : TrustedProxyClientIpKeyExtractor) (x : HttpExtract Head)

/-- `TrustedProxyClientIpKeyExtractor::extract`. -/
def extract (request : Request Head Body) : Except RateLimitError IpAddr :=
  match x.extractSocketIp request.head with
  | none => .error socketIpUnavailable
  | some peer =>
      if !k.isTrustedProxy peer then .ok peer
      else
        match x.extractClientIp request.head with
        | .ok clientIp => .ok (clientIp.getD peer)
        | .error error => .error (invalidClientIp error)

variable {k x} {request : Request Head Body}

/-- Without trusted proxies only the socket peer counts. -/
theorem extract_of_untrusting (hnobody : ∀ ip, k.isTrustedProxy ip = false) :
    k.extract x request = IpKeyExtractor.extract x request := by
  unfold extract IpKeyExtractor.extract
  cases x.extractSocketIp request.head with
  | none => rfl
  | some peer => simp [hnobody peer]

/-- A trusted peer is read as `ClientIpKeyExtractor` reads it. -/
theorem extract_of_trusted (hx : x.FallsBack) {peer : IpAddr}
    (hpeer : x.extractSocketIp request.head = some peer) (htrusted : k.isTrustedProxy peer = true) :
    k.extract x request = ClientIpKeyExtractor.extract x request := by
  unfold extract ClientIpKeyExtractor.extract
  rw [hx, hpeer]
  simp only [htrusted]
  rcases x.extractClientIp request.head with error | _ | clientIp
  · rfl
  · rfl
  · rfl

variable {peer : IpAddr} (hpeer : x.extractSocketIp request.head = some peer)

include hpeer

theorem extract_of_untrusted (h : k.isTrustedProxy peer = false) :
    k.extract x request = .ok peer := by
  simp [extract, hpeer, h]

theorem extract_of_clientIp (h : k.isTrustedProxy peer = true) {clientIp : Option IpAddr}
    (hclient : x.extractClientIp request.head = .ok clientIp) :
    k.extract x request = .ok (clientIp.getD peer) := by
  simp [extract, hpeer, h, hclient]

omit hpeer

/-- The address of a request is that of its peer, or it is asserted by a trusted peer. -/
theorem extract_eq_ok_iff {ip : IpAddr} :
    k.extract x request = .ok ip ↔
      ∃ peer, x.extractSocketIp request.head = some peer ∧
        ((k.isTrustedProxy peer = false ∧ ip = peer) ∨
          (k.isTrustedProxy peer = true ∧ ∃ clientIp, x.extractClientIp request.head = .ok clientIp ∧
            ip = clientIp.getD peer)) := by
  constructor
  · intro h
    cases hpeer : x.extractSocketIp request.head with
    | none => simp [extract, hpeer] at h
    | some peer =>
      refine ⟨peer, rfl, ?_⟩
      cases htrusted : k.isTrustedProxy peer with
      | false =>
        rw [extract_of_untrusted hpeer htrusted] at h
        exact .inl ⟨rfl, (Except.ok.inj h).symm⟩
      | true =>
        cases hclient : x.extractClientIp request.head with
        | error error => simp [extract, hpeer, htrusted, hclient] at h
        | ok clientIp =>
          rw [extract_of_clientIp hpeer htrusted hclient] at h
          exact .inr ⟨rfl, clientIp, rfl, (Except.ok.inj h).symm⟩
  · rintro ⟨peer, hpeer, ⟨htrusted, rfl⟩ | ⟨htrusted, clientIp, hclient, rfl⟩⟩
    · exact extract_of_untrusted hpeer htrusted
    · exact extract_of_clientIp hpeer htrusted hclient

end TrustedProxyClientIpKeyExtractor

/-- `key.to_string()`: the client key that an extracted address gives. -/
def clientKey (result : Except RateLimitError IpAddr) : Except RateLimitError String :=
  result.map IpAddr.display

/-- The key is that of the address, and of no other. -/
theorem clientKey_eq_ok_iff {result : Except RateLimitError IpAddr} {ip : IpAddr} :
    clientKey result = .ok ip.display ↔ result = .ok ip := by
  cases result with
  | error e => simp [clientKey, Except.map]
  | ok ip' =>
    refine ⟨fun h => ?_, fun h => congrArg clientKey h⟩
    exact congrArg _ (IpAddr.display_inj (Except.ok.inj h))

end TowerRateLimiter
