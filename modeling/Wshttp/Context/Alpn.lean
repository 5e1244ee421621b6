/-
# `Wshttp.Context.Alpn` — who gets as far as HTTP/2

A client offers protocols in its ClientHello; `server_select_alpn_proto_cb` picks one with
nghttp2; and when the handshake is over `event_cb` looks at what was picked.  The callback is
installed with the credentials only, and picks `h2` or nothing.

| the client offers        | the server picks | `event_cb`               |
| :----------------------- | :--------------- | :----------------------- |
| nothing                  | nothing          | starts the session       |
| protocols without `h2`   | nothing          | starts the session       |
| protocols with `h2`      | `h2`             | rejects it               |

The last line is the comparison with the literal of `Wshttp.Literals`.  nghttp2 and OpenSSL
are parameters, with what their documentation says.

**Proved here.**  An inbound session is started exactly for the clients that do not offer
`h2` to a server with credentials (`inbound_starts_iff`).
-/
import Wshttp.Context
import Wshttp.Lib.Prefixed
import Wshttp.Literals

namespace Wshttp

/-- What the ALPN callback answers: `SSL_TLSEXT_ERR_OK` with the protocol it has put into its
out-parameters, or `SSL_TLSEXT_ERR_NOACK`. -/
inductive AlpnAnswer where
  | ok (proto : Bytes)
  | noack
  deriving DecidableEq

/-- `server_select_alpn_proto_cb`.  `select` is `nghttp2_select_alpn`: its result, and what it
puts into its out-parameters. -/
def serverSelectAlpnProtoCb (select : Bytes → Int × Bytes) (offer : Bytes) : AlpnAnswer :=
  if (select offer).1 ≠ 1 then .noack else .ok (select offer).2

/-! ## What the libraries promise -/

/-- `nghttp2_select_alpn` returns `1`, with the protocol `h2`, exactly if the offer has it. -/
structure SelectsH2 (select : Bytes → Int × Bytes) : Prop where
  offered : ∀ offer names, Prefixed.decode offer = some names → chars "h2" ∈ names →
    select offer = (1, chars "h2")
  notOffered : ∀ offer names, Prefixed.decode offer = some names → chars "h2" ∉ names →
    (select offer).1 ≠ 1

/-- `SSL_get0_alpn_selected` after a handshake, on the server: empty without an offer or
without a callback, and otherwise what the callback has answered. -/
structure NegotiatesAlpn (select : Bytes → Int × Bytes)
    (selected : SslCtx → Option Bytes → Bytes) : Prop where
  noOffer : ∀ ctx, selected ctx none = []
  noCallback : ∀ ctx offer, ctx.selectsAlpn = false → selected ctx offer = []
  answered : ∀ ctx offer, ctx.selectsAlpn = true → selected ctx (some offer) =
    match serverSelectAlpnProtoCb select offer with
    | .ok proto => proto
    | .noack => []

/-- The same on the client: nothing is selected that has not been offered, and what is offered
has been set with `SSL_CTX_set_alpn_protos`. -/
def OffersWhatIsSet (selected : SslCtx → Bytes) : Prop :=
  ∀ ctx, ctx.alpnProtos = none → selected ctx = []

/-! ## What is selected -/

/-- The client offers `h2`. -/
def OffersH2 (offer : Option Bytes) : Prop :=
  ∃ wire names, offer = some wire ∧ Prefixed.decode wire = some names ∧ chars "h2" ∈ names

section
variable {select : Bytes → Int × Bytes} {selected : SslCtx → Option Bytes → Bytes}

theorem selected_offered (hsel : SelectsH2 select) (htls : NegotiatesAlpn select selected)
    {ctx : SslCtx} (hctx : ctx.selectsAlpn = true) {offer : Option Bytes}
    (hoffer : OffersH2 offer) : selected ctx offer = chars "h2" := by
  obtain ⟨wire, names, rfl, hdecode, hmem⟩ := hoffer
  rw [htls.answered ctx wire hctx, serverSelectAlpnProtoCb, hsel.offered wire names hdecode hmem]
  rfl

theorem selected_notOffered (hsel : SelectsH2 select) (htls : NegotiatesAlpn select selected)
    (ctx : SslCtx) {offer : Option Bytes} (hvalid : ∀ wire ∈ offer, (Prefixed.decode wire).isSome)
    (hoffer : ¬ OffersH2 offer) : selected ctx offer = [] := by
  cases hctx : ctx.selectsAlpn with
  | false => exact htls.noCallback ctx offer hctx
  | true =>
      cases offer with
      | none => exact htls.noOffer ctx
      | some wire =>
          obtain ⟨names, hdecode⟩ := Option.isSome_iff_exists.mp (hvalid wire rfl)
          have hno : chars "h2" ∉ names := fun hmem => hoffer ⟨wire, names, rfl, hdecode, hmem⟩
          rw [htls.answered ctx wire hctx, serverSelectAlpnProtoCb,
            if_pos (hsel.notOffered wire names hdecode hno)]

end

/-! ## Who is let in -/

/-- What becomes of a connection whose handshake is over: `event_cb` starts the session, or
enqueues one close job and does nothing else. -/
structure Admission (admitted : Prop) (s : SessionBase) (started called : Outcome SessionBase) :
    Prop where
  starts : called = started ↔ admitted
  closes : ¬ admitted → called = (.ok (), s.closeSession)

section
variable {bigEndian : Bool} {events : UInt16} {alpn : Bytes} {i : InitOutcome} {o : SendOutcome}
  {s : SessionBase}

theorem admission_of_alpn (hconn : events &&& BEV_EVENT_CONNECTED ≠ 0) {admitted : Prop}
    (halpn : SessionBase.alpnAccepted alpn = true ↔ admitted) :
    Admission admitted s (s.configSendInitial bigEndian i o)
      (s.eventCb bigEndian events alpn i o) where
  starts := (eventCb_eq_config_iff hconn).trans halpn
  closes := by
    intro hno
    have hrejected : SessionBase.alpnAccepted alpn = false :=
      Bool.eq_false_iff.mpr fun hacc => hno (halpn.mp hacc)
    rw [SessionBase.eventCb, hrejected, Bool.and_false, if_neg Bool.false_ne_true]

theorem alpnAccepted_h2 : SessionBase.alpnAccepted (chars "h2") = false := by
  decide

/-- **A server with credentials starts a session exactly for the clients that do not offer
`h2`**, one without credentials for all of them, and every outbound session is started.  For
all credentials the contexts can be made with, all offers that OpenSSL lets through, and every
session. -/
theorem inbound_starts_iff {select : Bytes → Int × Bytes}
    {selected : SslCtx → Option Bytes → Bytes} {selectedByServer : SslCtx → Bytes}
    (hsel : SelectsH2 select) (htls : NegotiatesAlpn select selected)
    (hclient : OffersWhatIsSet selectedByServer) {ssl : SslOutcome} {creds : Option SslCreds}
    {ctx : AppContext} {made : Nat} (hmake : AppContext.make ssl creds = (.ok ctx, made))
    {offer : Option Bytes} (hvalid : ∀ wire ∈ offer, (Prefixed.decode wire).isSome)
    (hconn : events &&& BEV_EVENT_CONNECTED ≠ 0) :
    ∃ inbound outbound, ctx.i = some inbound ∧ ctx.o = some outbound ∧
      Admission (creds = none ∨ ¬ OffersH2 offer) s (s.configSendInitial bigEndian i o)
        (s.eventCb bigEndian events (selected inbound offer) i o) ∧
      Admission True s (s.configSendInitial bigEndian i o)
        (s.eventCb bigEndian events (selectedByServer outbound) i o) := by
  have hctx := AppContext.configured_of_make hmake
  have houtbound : selectedByServer (.outbound creds) = [] := by
    refine hclient _ ?_
    cases creds <;> rfl
  refine ⟨.inbound creds, .outbound creds, congrArg AppContext.i hctx, congrArg AppContext.o hctx,
    admission_of_alpn hconn ?_, admission_of_alpn hconn (iff_of_true (by rw [houtbound]; rfl) ?_)⟩
  case refine_2 => trivial
  cases creds with
  | none =>
      rw [htls.noCallback _ offer rfl]
      exact iff_of_true rfl (.inl rfl)
  | some c =>
      have hcallback : (SslCtx.inbound (some c)).selectsAlpn = true := rfl
      rw [or_iff_right (Option.some_ne_none c)]
      by_cases hoffer : OffersH2 offer
      · rw [selected_offered hsel htls hcallback hoffer, alpnAccepted_h2]
        exact iff_of_false Bool.false_ne_true (not_not.mpr hoffer)
      · rw [selected_notOffered hsel htls _ hvalid hoffer]
        exact iff_of_true rfl hoffer

end

/-! ## A browser -/

/-- `nghttp2_select_alpn`: the records are scanned for `h2`, and then for `http/1.1`. -/
def nghttp2SelectAlpn (offer : Bytes) : Int × Bytes :=
  match Prefixed.scan (2 :: chars "h2") offer with
  | some proto => (1, proto)
  | none =>
      match Prefixed.scan (8 :: chars "http/1.1") offer with
      | some proto => (0, proto)
      | none => (-1, [])

theorem selectsH2_nghttp2 : SelectsH2 nghttp2SelectAlpn where
  offered := by
    intro offer names hdecode hmem
    have hscan := Prefixed.scan_decoded (v := chars "h2") (by decide) hdecode
    rw [if_pos hmem] at hscan
    have hkey : Prefixed.scan (2 :: chars "h2") offer = some (chars "h2") := hscan
    rw [nghttp2SelectAlpn, hkey]
  notOffered := by
    intro offer names hdecode hno
    have hscan := Prefixed.scan_decoded (v := chars "h2") (by decide) hdecode
    rw [if_neg hno] at hscan
    have hkey : Prefixed.scan (2 :: chars "h2") offer = none := hscan
    rw [nghttp2SelectAlpn, hkey]
    dsimp only
    split
    · show (0 : Int) ≠ 1
      decide
    · show (-1 : Int) ≠ 1
      decide

/-- `SSL_get0_alpn_selected` on the server. -/
def sslAlpnSelected (ctx : SslCtx) (offer : Option Bytes) : Bytes :=
  match ctx.selectsAlpn, offer with
  | true, some wire =>
      match serverSelectAlpnProtoCb nghttp2SelectAlpn wire with
      | .ok proto => proto
      | .noack => []
  | _, _ => []

theorem negotiatesAlpn_ssl : NegotiatesAlpn nghttp2SelectAlpn sslAlpnSelected where
  noOffer := by
    intro ctx
    unfold sslAlpnSelected
    split
    · next h => cases h
    · rfl
  noCallback := by
    intro ctx offer hctx
    simp only [sslAlpnSelected, hctx]
  answered := by
    intro ctx offer hctx
    simp only [sslAlpnSelected, hctx]

/-- What a browser offers. -/
def browserOffer : Bytes := Prefixed.encode [chars "h2", chars "http/1.1"]

theorem decode_browserOffer :
    Prefixed.decode browserOffer = some [chars "h2", chars "http/1.1"] :=
  Prefixed.decode_encode (by decide)

/-- A browser's connection to a server with credentials is closed after the handshake. -/
theorem inbound_starts_iff_browser :
    ∃ inbound outbound, (AppContext.configured (some ⟨[107], [99]⟩)).i = some inbound ∧
      (AppContext.configured (some ⟨[107], [99]⟩)).o = some outbound ∧
      Admission (some (⟨[107], [99]⟩ : SslCreds) = none ∨ ¬ OffersH2 (some browserOffer))
        (.initialized false 7 ⟨.ofPort 443, .ofPort 50000⟩)
        ((SessionBase.initialized false 7 ⟨.ofPort 443, .ofPort 50000⟩).configSendInitial false
          .succeeds .sendAll)
        ((SessionBase.initialized false 7 ⟨.ofPort 443, .ofPort 50000⟩).eventCb false
          BEV_EVENT_CONNECTED (sslAlpnSelected inbound (some browserOffer)) .succeeds .sendAll) ∧
      Admission True
        (.initialized false 7 ⟨.ofPort 443, .ofPort 50000⟩)
        ((SessionBase.initialized false 7 ⟨.ofPort 443, .ofPort 50000⟩).configSendInitial false
          .succeeds .sendAll)
        ((SessionBase.initialized false 7 ⟨.ofPort 443, .ofPort 50000⟩).eventCb false
          BEV_EVENT_CONNECTED [] .succeeds .sendAll) :=
  inbound_starts_iff selectsH2_nghttp2 negotiatesAlpn_ssl
    (show OffersWhatIsSet fun _ => [] from fun _ _ => rfl)
    (show AppContext.make .succeeds (some ⟨[107], [99]⟩) = (.ok _, 2) from rfl)
    (by
      intro wire hwire
      obtain rfl := Option.some.inj hwire
      rw [decode_browserOffer]
      rfl)
    (by decide)

end Wshttp
