/-
# `Wshttp.Endpoint.Dial` — the host and the port an outbound session connects to

`extract` fills the `uri` from the getters of the URL, `connect` moves it into the
node, and the session's constructor reads `get_uri().host()` back.  That string is
`get_host` of the URL, which has the port in it if the URL has one; the port that is
handed to libevent next to it is `HTTPS_PORT`, whatever the URL says.  Nothing reads
`uri::port`.

**Proved here.**  A call of `connect` that gets as far as libevent asks for the
string `get_host` and port 443 (`connect_asks`), which is the URL's host name and
its effective port exactly if the URL has no port of its own
(`connects_to_effective_iff`).
-/
import Wshttp.Endpoint

namespace Wshttp

/-! ## Host name and effective port -/

/-- What the URL library says of the host: `get_host` is the host name, then a colon
and the port if there is one; a NUL is a forbidden host code point. -/
structure Ada.HostAndPort {U : Type} (ada : Ada U) (hostname : U → Bytes) : Prop where
  getHost : ∀ url u, accepted ada url = some u →
    ada.getHost u = hostname u ++ if ada.getPort u = [] then [] else chars ":" ++ ada.getPort u
  noNul : ∀ url u, accepted ada url = some u → 0 ∉ ada.getHost u

/-- The number that decimal digits denote. -/
def portNumber (digits : Bytes) : UInt16 :=
  digits.foldl (fun n d => 10 * n + (d - 0x30).toUInt16) 0

/-- The explicit port, or that of `https`. -/
def effectivePort {U : Type} (ada : Ada U) (u : U) : UInt16 :=
  if ada.getPort u = [] then 443 else portNumber (ada.getPort u)

/-! ## What libevent is asked for -/

/-- What else has to succeed before the session's constructor gets to
`bufferevent_socket_connect_hostname`. -/
structure ConnectOutcome.ReachesConnect (bigEndian : Bool) (o : ConnectOutcome)
    (localAddr : Option IpAddress) : Prop where
  binds : o.Binds bigEndian localAddr
  sslNew : o.sslNew = true
  bufferevent : o.bufferevent = true

namespace Endpoint

section
variable {U : Type} (ada : Ada U) (bigEndian : Bool) (o : ConnectOutcome) (url : Bytes)
  (localAddr : Option IpAddress) (ep : Endpoint U)

/-- The call asks libevent for this host and port: whatever libevent may answer to
requests, the answer to this one decides what becomes of the call. -/
def AsksFor (host : Bytes) (port : UInt16) : Prop :=
  ∀ answer : Bytes → UInt16 → Int,
    (ep.connect ada bigEndian { o with connectHostname := answer } url localAddr).1 = .ok true ↔
      answer host port = 0

end

section
variable {U : Type} {ada : Ada U} {bigEndian : Bool} {o : ConnectOutcome} {url : Bytes}
  {localAddr : Option IpAddress} {ep : Endpoint U}

/-- There is at most one pair that the call asks for. -/
theorem asksFor_unique {host host' : Bytes} {port port' : UInt16}
    (h : AsksFor ada bigEndian o url localAddr ep host port)
    (h' : AsksFor ada bigEndian o url localAddr ep host' port') : host = host' ∧ port = port' := by
  let answer (asked : Bytes) (p : UInt16) : Int := if asked = host ∧ p = port then 0 else -1
  have hok := (h answer).mpr (if_pos ⟨rfl, rfl⟩)
  have hzero : answer host' port' = 0 := (h' answer).mp hok
  by_contra hne
  have hother : answer host' port' = -1 :=
    if_neg fun heq => hne ⟨heq.1.symm, heq.2.symm⟩
  rw [hother] at hzero
  cases hzero

/-- Every call that reaches libevent asks for the stored host, and for port 443. -/
theorem connect_asks (hnew : (uriOf ada url).host ∉ ep.nodes)
    (ho : o.ReachesConnect bigEndian localAddr) :
    AsksFor ada bigEndian o url localAddr ep (cString (uriOf ada url).host) HTTPS_PORT := by
  intro answer
  constructor
  · intro hok
    by_contra hrefused
    have hfails : ¬ ConnectOutcome.Connects bigEndian { o with connectHostname := answer }
        localAddr (uriOf ada url).host := fun hconn => hrefused hconn.connectHostname
    obtain ⟨e, hthrows⟩ := connect_throws hnew hfails
    rw [hthrows] at hok
    cases hok
  · intro hanswer
    have hconn : ConnectOutcome.Connects bigEndian { o with connectHostname := answer }
        localAddr (uriOf ada url).host := ⟨ho.binds, ho.sslNew, ho.bufferevent, hanswer⟩
    obtain ⟨n, hreturns⟩ := connect_returns hnew hconn
    rw [hreturns]

theorem uriOf_accepted {u : U} (hurl : accepted ada url = some u) :
    uriOf ada url = UrlParser.componentsOf ada u := by
  rw [uriOf, hurl]
  rfl

/-- **The session connects to the URL's host name and effective port exactly if the URL
has no port of its own.**  For every URL the parser accepts, and every endpoint, local
address and outcome with which the session's constructor gets to libevent. -/
theorem connects_to_effective_iff {hostname : U → Bytes} (hada : ada.HostAndPort hostname)
    {u : U} (hurl : accepted ada url = some u) (hnew : (uriOf ada url).host ∉ ep.nodes)
    (ho : o.ReachesConnect bigEndian localAddr) :
    AsksFor ada bigEndian o url localAddr ep (hostname u) (effectivePort ada u) ↔
      ada.getPort u = [] := by
  have hhost : cString (uriOf ada url).host = ada.getHost u := by
    rw [uriOf_accepted hurl]
    exact cString_of_noNul (hada.noNul url u hurl)
  have hasks : AsksFor ada bigEndian o url localAddr ep (ada.getHost u) HTTPS_PORT :=
    hhost ▸ connect_asks hnew ho
  have hget := hada.getHost url u hurl
  constructor
  · intro heffective
    obtain ⟨hsame, -⟩ := asksFor_unique hasks heffective
    by_contra hport
    -- the port would have to be part of the host name
    rw [if_neg hport, hsame, List.self_eq_append_right] at hget
    cases hget
  · intro hport
    rw [if_pos hport, List.append_nil] at hget
    have heffective : effectivePort ada u = HTTPS_PORT := if_pos hport
    rw [heffective, ← hget]
    exact hasks

end

end Endpoint

/-! ## A library for URLs with a port -/

namespace Ada.withPort

def authority (u : Bytes) : Bytes := u.takeWhile (· ∉ chars "/?#")

def hostname (u : Bytes) : Bytes := (authority u).takeWhile (· ∉ chars ":")

/-- The default port is dropped. -/
def port (u : Bytes) : Bytes :=
  let port := ((authority u).dropWhile (· ∉ chars ":")).drop 1
  if port = chars "443" then [] else port

end Ada.withPort

/-- It knows `https://host:port/…`, without anything else that needs normalising. -/
def Ada.withPort : Ada Bytes where
  parse := fun s => if (chars "https://").isPrefixOf s && 0 ∉ s then some (s.drop 8) else none
  setProtocol := fun _ u => (true, u)
  validate := fun _ => true
  getProtocol := fun _ => chars "https:"
  getUsername := fun _ => []
  getHost := fun u =>
    withPort.hostname u ++ if withPort.port u = [] then [] else chars ":" ++ withPort.port u
  getPort := withPort.port
  getPathname := fun _ => chars "/"
  getSearch := fun _ => []
  getHash := fun _ => []
  getHref := fun u => chars "https://" ++ u

theorem Ada.withPort.zero_notMem_port {u : Bytes} (hu : 0 ∉ u) : 0 ∉ withPort.port u := by
  intro hmem
  unfold port at hmem
  dsimp only at hmem
  split at hmem
  · cases hmem
  · have hauthority := (List.dropWhile_sublist _).subset (List.mem_of_mem_drop hmem)
    exact hu ((List.takeWhile_sublist _).subset hauthority)

theorem Ada.withPort_hostAndPort : Ada.withPort.HostAndPort withPort.hostname where
  getHost := fun _ _ _ => rfl
  noNul := by
    intro url u hurl
    have hu : 0 ∉ u := by
      obtain ⟨v, hparse, hset, -⟩ := accepted_eq_some hurl
      obtain rfl : v = u := congrArg Prod.snd hset
      change (if _ then some _ else none) = some v at hparse
      split at hparse
      case isFalse => cases hparse
      next hgood =>
      obtain rfl := Option.some.inj hparse
      simp only [Bool.and_eq_true, decide_eq_true_eq] at hgood
      exact fun hmem => hgood.2 (List.mem_of_mem_drop hmem)
    show 0 ∉ withPort.hostname u ++ ite _ _ _
    rw [List.mem_append, not_or]
    constructor
    · intro hmem
      have hauthority := (List.takeWhile_sublist _).subset hmem
      exact hu ((List.takeWhile_sublist _).subset hauthority)
    · split
      · exact List.not_mem_nil
      · rw [List.mem_append, not_or]
        exact ⟨by decide, withPort.zero_notMem_port hu⟩

theorem ConnectOutcome.succeeds_reachesConnect :
    ConnectOutcome.succeeds.ReachesConnect false none :=
  ⟨(by intro a ha; cases ha), rfl, rfl⟩

namespace Endpoint

theorem connects_to_effective_iff_plain :
    AsksFor .withPort false .succeeds (chars "https://localhost/index.html") none (new {})
        (chars "localhost") 443 ↔
      Ada.withPort.getPort (chars "localhost/index.html") = [] :=
  connects_to_effective_iff (u := chars "localhost/index.html") Ada.withPort_hostAndPort rfl
    Finmap.notMem_empty ConnectOutcome.succeeds_reachesConnect

/-- With a port in the URL the name that is looked up is `localhost:5544`, at port 443. -/
theorem explicit_port_in_host_name : Ada.withPort.HostAndPort Ada.withPort.hostname ∧
    Ada.withPort.hostname (chars "localhost:5544") = chars "localhost" ∧
    effectivePort .withPort (chars "localhost:5544") = 5544 ∧
    AsksFor .withPort false .succeeds (chars "https://localhost:5544") none (new {})
      (chars "localhost:5544") 443 ∧
    ¬ AsksFor .withPort false .succeeds (chars "https://localhost:5544") none (new {})
      (chars "localhost") 5544 := by
  have hasks : AsksFor .withPort false .succeeds (chars "https://localhost:5544") none (new {})
      (chars "localhost:5544") 443 :=
    connect_asks Finmap.notMem_empty ConnectOutcome.succeeds_reachesConnect
  refine ⟨Ada.withPort_hostAndPort, by decide, by decide, hasks, fun heffective => ?_⟩
  obtain ⟨-, hport⟩ := asksFor_unique hasks heffective
  revert hport
  decide

end Endpoint

end Wshttp
