import TowerRateLimiter.Limiter.KeyExtractor
import TowerRateLimiter.System.Isolation

/-!
# Clients by IP address

Runs of limiters that identify their clients with `TrustedProxyClientIpKeyExtractor`, over one
in-memory store. An address is charged by its own peer, or by a trusted proxy that names it
(`charges_attributed`). Peers that are not trusted have no way to reach the counter of another
address: whatever they send, and whenever, the other client's requests do and get the same
(`outsiders_without_effect`).

`IpKeyExtractor` is the case in which no proxy is trusted.
-/

namespace TowerRateLimiter

open Rust

variable {Head ReqBody ResBody E : Type}

/-- All limiters use one extractor and no key encoder. -/
structure ByClientIp (k : TrustedProxyClientIpKeyExtractor) (x : HttpExtract Head)
    (jobs : ℕ → Job memory Head ReqBody ResBody) : Prop where
  extract : ∀ id request, (jobs id).limiter.extract request = clientKey (k.extract x request)
  encode : ∀ id, (jobs id).limiter.encode = none

namespace System

variable {k : TrustedProxyClientIpKeyExtractor} {x : HttpExtract Head}
  {jobs jobs' : ℕ → Job memory Head ReqBody ResBody}

/-! ## Attribution -/

/-- **Every charge belongs to an address.** A charge is made under the scoped key of the address of
the request's peer, or of an address that the headers of a trusted peer name. The key belongs to no
other address and no other policy, and a request without a peer is never charged. -/
theorem charges_attributed (k : TrustedProxyClientIpKeyExtractor) (x : HttpExtract Head)
    (jobs : ℕ → Job memory Head ReqBody ResBody) (hjobs : ByClientIp k x jobs)
    (events : List (Event memory ResBody E)) :
    ∀ id charge, (id, Act.charge charge) ∈ (start.after jobs events).history →
      ∃ peer ip, x.extractSocketIp (jobs id).request.head = some peer ∧
        charge.key = makeKey (jobs id).limiter.policyName ip.display ∧
        (ip = peer ∨ k.isTrustedProxy peer = true ∧
          x.extractClientIp (jobs id).request.head = .ok (some ip)) ∧
        ∀ p ip', charge.key = makeKey p ip'.display →
          p = (jobs id).limiter.policyName ∧ ip' = ip := by
  intro id charge hmem
  obtain ⟨text, hextract, hkey, -⟩ := (told_start.after events).charges hmem
  rw [Job.storedKey_of_encode (hjobs.encode id)] at hkey
  rw [hjobs.extract] at hextract
  cases hip : k.extract x (jobs id).request with
  | error e =>
    rw [hip] at hextract
    exact absurd hextract (by simp [clientKey, Except.map])
  | ok ip =>
    rw [hip] at hextract
    obtain rfl : ip.display = text := Except.ok.inj hextract
    obtain ⟨peer, hpeer, hsource⟩ := TrustedProxyClientIpKeyExtractor.extract_eq_ok_iff.mp hip
    refine ⟨peer, ip, hpeer, hkey, ?_, fun p ip' hkey' => ?_⟩
    · rcases hsource with ⟨-, rfl⟩ | ⟨htrusted, _ | clientIp, hclient, rfl⟩
      · exact .inl rfl
      · exact .inl rfl
      · exact .inr ⟨htrusted, hclient⟩
    · obtain ⟨rfl, hdisplay⟩ := makeKey_inj.mp (hkey'.symm.trans hkey)
      exact ⟨rfl, IpAddr.display_inj hdisplay⟩

/-! Three addresses, and requests whose heads are the peer and the address their headers name. -/

/-- An address of the network 192.0.2.0/24. -/
def testNet (host : UInt8) : IpAddr := .v4 ⟨[192, 0, 2, host], rfl⟩

/-- The peer and the header of such a head. -/
def pairExtract : HttpExtract (IpAddr × Option IpAddr) where
  extractSocketIp head := some head.1
  extractClientIp head := .ok head.2
  extractProxyClientIp head := .ok (head.2.or (some head.1))

/-- Only 192.0.2.1 is a proxy. -/
def oneProxy : TrustedProxyClientIpKeyExtractor := ⟨fun ip => ip = testNet 1⟩

/-- A request to a limiter of one request per window. -/
def requestFrom (peer : IpAddr) (named : Option IpAddr) :
    Job memory (IpAddr × Option IpAddr) Unit Unit where
  limiter :=
    { policyName := "p", window := Duration.ofSecs 1, storeFailureMode := .reject
      rateLimitFields := .disabled, skip := none
      extract := fun request => clientKey (oneProxy.extract pairExtract request), encode := none
      build := fun _ reason => ⟨reason.statusCode, [], ()⟩ }
  store := ()
  request := ⟨(peer, named), none, ()⟩

/-- A client, a proxy that names the client, and another client that names whom it likes. -/
def threeRequests (named : Option IpAddr) : ℕ → Job memory (IpAddr × Option IpAddr) Unit Unit
  | 0 => requestFrom (testNet 2) none
  | 1 => requestFrom (testNet 1) (some (testNet 2))
  | _ => requestFrom (testNet 3) named

theorem byClientIp_threeRequests (named : Option IpAddr) :
    ByClientIp oneProxy pairExtract (threeRequests named) := by
  refine ⟨fun id request => ?_, fun id => ?_⟩
  · unfold threeRequests
    split <;> rfl
  · unfold threeRequests
    split <;> rfl

/-- A turn in which the limit resolves to one and the inner service answers. -/
def clientTurn : Turn memory Unit Unit where
  limit := .ready (.ok 1)
  inner := .ready (.ok ⟨200, [], ()⟩)
  store := ⟨⟨false, .ofMillis 5, .ofMillis 5, .ofMillis 5, false⟩, .ofMillis 5⟩

/-- A client that names another one is charged itself. -/
theorem charges_attributed_three :
    let s := (start.after (threeRequests (some (testNet 2)))
      [.call 1, .call 2, .poll 1 clientTurn, .poll 2 clientTurn] : System memory _ _ _ Unit)
    ByClientIp oneProxy pairExtract (threeRequests (some (testNet 2))) ∧
      ∃ charge ip, (2, Act.charge charge) ∈ s.history ∧
        charge.key = makeKey "p" ip.display ∧ ip = testNet 3 := by
  intro s
  have hjobs := byClientIp_threeRequests (some (testNet 2))
  have hcharge : (2, _) ∈ s.history := List.mem_of_getElem? (i := 3) rfl
  obtain ⟨peer, ip, hpeer, hkey, hsource, -⟩ :=
    charges_attributed oneProxy pairExtract _ hjobs _ 2 _ hcharge
  refine ⟨hjobs, _, ip, hcharge, hkey, ?_⟩
  obtain rfl : testNet 3 = peer := Option.some.inj hpeer
  rcases hsource with heq | ⟨htrusted, -⟩
  · exact heq
  · exact absurd htrusted (by decide)

/-! ## Outsiders -/

variable (k x) in
/-- The request is one of an untrusted peer with another address than `ip`, or of none. -/
def outsider (ip : IpAddr) (job : Job memory Head ReqBody ResBody) : Bool :=
  match x.extractSocketIp job.request.head with
  | some peer => !k.isTrustedProxy peer && decide (peer ≠ ip)
  | none => true

/-- An outsider's request does not have the address. -/
theorem mine_of_outsider (hjobs : ByClientIp k x jobs) {ip : IpAddr} {id : ℕ}
    (h : outsider k x ip (jobs id) = true) (p : String) : mine jobs p ip.display id = false := by
  have hne : (jobs id).pair ≠ some (p, ip.display) := by
    intro hpair
    rw [Job.pair, hjobs.extract] at hpair
    split at hpair
    · rename_i text htext
      obtain ⟨-, rfl⟩ := Prod.mk.inj (Option.some.inj hpair)
      obtain ⟨peer, hpeer, hsource⟩ :=
        TrustedProxyClientIpKeyExtractor.extract_eq_ok_iff.mp (clientKey_eq_ok_iff.mp htext)
      simp only [outsider, hpeer, Bool.and_eq_true, Bool.not_eq_true', decide_eq_true_eq] at h
      rcases hsource with ⟨-, rfl⟩ | ⟨htrusted, -⟩
      · exact h.2 rfl
      · exact absurd (h.1.symm.trans htrusted) (by decide)
    · exact absurd hpair (by simp)
  exact decide_eq_false hne

variable (k x) in
/-- The events that are not an outsider's, and what the cache does to the counter of the address. -/
def concerns (jobs : ℕ → Job memory Head ReqBody ResBody) (p : String) (ip : IpAddr) :
    Event memory ResBody E → Bool
  | .call id | .poll id _ | .drop id => !outsider k x ip (jobs id)
  | .evict key _ => key = makeKey p ip.display

theorem concerns_of_keep (hjobs : ByClientIp k x jobs) {p : String} {ip : IpAddr}
    {event : Event memory ResBody E} (h : keep jobs p ip.display event = true) :
    concerns k x jobs p ip event = true := by
  have hrequest : ∀ id, mine jobs p ip.display id = true → (!outsider k x ip (jobs id)) = true := by
    intro id hmine
    cases houtsider : outsider k x ip (jobs id) with
    | false => rfl
    | true => exact absurd (hmine.symm.trans (mine_of_outsider hjobs houtsider p)) (by decide)
  cases event with
  | call id => exact hrequest id h
  | poll id turn => exact hrequest id h
  | drop id => exact hrequest id h
  | move removal => exact h

/-- The requests of the address are among the events that are not an outsider's. -/
theorem filter_concerns (hjobs : ByClientIp k x jobs) {p : String} {ip : IpAddr}
    (events : List (Event memory ResBody E)) :
    (events.filter (concerns k x jobs p ip)).filter (keep jobs p ip.display) =
      events.filter (keep jobs p ip.display) := by
  rw [List.filter_filter]
  refine List.filter_congr fun event _ => ?_
  cases h : keep jobs p ip.display event with
  | false => rfl
  | true => exact concerns_of_keep hjobs h

/-- A run agrees with the run of the address alone. -/
theorem agrees_alone (hjobs : ByClientIp k x jobs) (p : String) (ip : IpAddr)
    (events : List (Event memory ResBody E)) :
    Agrees jobs p ip.display ((start : System memory Head ReqBody ResBody E).after jobs events)
      (start.after jobs (events.filter (keep jobs p ip.display))) := by
  have hstart : Agrees jobs p ip.display (start : System memory Head ReqBody ResBody E) start :=
    ⟨fun _ _ => rfl, rfl, rfl⟩
  exact hstart.after hjobs.encode events told_start

/-- A run depends on the requests that are sent in it only. -/
theorem after_congr (events : List (Event memory ResBody E))
    (s : System memory Head ReqBody ResBody E)
    (h : ∀ id, Event.call id ∈ events → jobs id = jobs' id) :
    s.after jobs events = s.after jobs' events := by
  induction events generalizing s with
  | nil => rfl
  | cons event events ih =>
    have hstep : s.step jobs event = s.step jobs' event := by
      cases event with
      | call id => simp only [step, h id List.mem_cons_self]
      | poll id turn => rfl
      | drop id => rfl
      | move removal => rfl
    show (s.step jobs event).after jobs events = (s.step jobs' event).after jobs' events
    rw [hstep]
    exact ih _ fun id hid => h id (List.mem_cons_of_mem _ hid)

/-- **Outsiders have no effect.** Take two runs that differ in the requests of outsiders: in what they
send, headers included, in how many they are and in when they send, poll and drop them. The requests
of the address do the same in both runs, are in the same phases and get the same responses. -/
theorem outsiders_without_effect (k : TrustedProxyClientIpKeyExtractor) (x : HttpExtract Head)
    (jobs jobs' : ℕ → Job memory Head ReqBody ResBody) (hjobs : ByClientIp k x jobs)
    (hjobs' : ByClientIp k x jobs') (p : String) (ip : IpAddr)
    (hsame : ∀ id, jobs id = jobs' id ∨
      outsider k x ip (jobs id) = true ∧ outsider k x ip (jobs' id) = true)
    (events events' : List (Event memory ResBody E))
    (hevents : events.filter (concerns k x jobs p ip) = events'.filter (concerns k x jobs' p ip)) :
    let s := start.after jobs events
    let s' := start.after jobs' events'
    s.history.filter (fun y => mine jobs p ip.display y.1) =
        s'.history.filter (fun y => mine jobs' p ip.display y.1) ∧
      ∀ id, mine jobs p ip.display id = true → s.phases id = s'.phases id := by
  intro s s'
  have hmine : ∀ id, mine jobs p ip.display id = mine jobs' p ip.display id := by
    intro id
    rcases hsame id with heq | ⟨hout, hout'⟩
    · rw [mine, mine, heq]
    · rw [mine_of_outsider hjobs hout, mine_of_outsider hjobs' hout']
  have hkeep : keep (E := E) jobs p ip.display = keep jobs' p ip.display := by
    funext event
    cases event with
    | call id => exact hmine id
    | poll id turn => exact hmine id
    | drop id => exact hmine id
    | move removal => rfl
  have halone : events.filter (keep jobs p ip.display) = events'.filter (keep jobs' p ip.display) := by
    rw [← filter_concerns hjobs, ← filter_concerns hjobs', hevents, hkeep]
  -- both runs agree with the run of the address alone
  have hagrees := agrees_alone hjobs p ip events
  have hagrees' := agrees_alone hjobs' p ip events'
  have hrun : start.after jobs (events.filter (keep jobs p ip.display)) =
      (start : System memory Head ReqBody ResBody E).after jobs'
        (events'.filter (keep jobs' p ip.display)) := by
    rw [← halone]
    refine after_congr _ _ fun id hid => ?_
    rcases hsame id with heq | ⟨hout, -⟩
    · exact heq
    · have hkept : mine jobs p ip.display id = true := (List.mem_filter.mp hid).2
      exact absurd (hkept.symm.trans (mine_of_outsider hjobs hout p)) (by decide)
  refine ⟨?_, fun id hid => ?_⟩
  · rw [hagrees.history, hagrees'.history, hrun]
  · rw [hagrees.phases id hid, hagrees'.phases id (hmine id ▸ hid), hrun]

/-- The client's request does the same whether another peer charges first, in its name, or is
charged later without naming anyone. -/
theorem outsiders_without_effect_three :
    let s := (start.after (threeRequests (some (testNet 2)))
      [.call 2, .call 0, .poll 2 clientTurn, .poll 0 clientTurn] : System memory _ _ _ Unit)
    let s' := (start.after (threeRequests none) [.call 0, .poll 0 clientTurn, .call 2] :
      System memory _ _ _ Unit)
    ByClientIp oneProxy pairExtract (threeRequests (some (testNet 2))) ∧
      mine (threeRequests (some (testNet 2))) "p" (testNet 2).display 0 = true ∧
      s.phases 0 = s'.phases 0 := by
  have hmine : mine (threeRequests (some (testNet 2))) "p" (testNet 2).display 0 = true := by decide
  have hsame : ∀ id, threeRequests (some (testNet 2)) id = threeRequests none id ∨
      outsider oneProxy pairExtract (testNet 2) (threeRequests (some (testNet 2)) id) = true ∧
        outsider oneProxy pairExtract (testNet 2) (threeRequests none id) = true := by
    intro id
    rcases id with _ | _ | id
    · exact .inl rfl
    · exact .inl rfl
    · exact .inr ⟨rfl, rfl⟩
  exact ⟨byClientIp_threeRequests _, hmine, (outsiders_without_effect oneProxy pairExtract _ _
    (byClientIp_threeRequests (some (testNet 2))) (byClientIp_threeRequests none) "p" (testNet 2)
    hsame _ _ rfl).2 0 hmine⟩

end System

end TowerRateLimiter
