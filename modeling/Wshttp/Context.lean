/-
# `Wshttp.Context` — the two TLS contexts of an endpoint

`app_context` has a context for the connections it accepts and one for those it makes.  With
credentials both are given the key and the certificate; without, both trust the system's
certificates.  OpenSSL's answers are a parameter, and an `SSL_CTX` is what has been set on it.

| source                        | with credentials             | without                        |
| :---------------------------- | :--------------------------- | :----------------------------- |
| `_init_inbound`               | options, key, ALPN callback  | default paths, verifies        |
| `_init_outbound`              | options, key, verifies       | options, default paths, verifies |

**Proved here.**  The constructor goes through a list of checks, the same whatever fails: it
throws the error of the first one that does not pass, with everything made before freed, and
otherwise returns these two contexts (`make_exact`).
-/
import Wshttp.Session.Io

namespace Wshttp

structure SslCreds where
  keyfile : Bytes
  certfile : Bytes
  deriving DecidableEq

/-- `TLS_server_method` and `TLS_client_method`. -/
inductive TlsMethod where
  | server
  | client
  deriving DecidableEq

/-- The bits of `SSL_CTX_set_options`. -/
inductive SslOp where
  | all
  | noSslV2
  | noSslV3
  | noCompression
  | noSessionResumptionOnRenegotiation
  | singleEcdhUse
  | noTicket
  | cipherServerPreference
  deriving DecidableEq

/-- An `SSL_CTX`, as what the calls have set on it. -/
structure SslCtx where
  method : TlsMethod
  options : List SslOp := []
  defaultPaths : Bool := false
  verifyPeer : Bool := false
  privateKey : Option Bytes := none
  certificate : Option Bytes := none
  keyChecked : Bool := false
  /-- `server_select_alpn_proto_cb` is installed -/
  selectsAlpn : Bool := false
  /-- the argument of `SSL_CTX_set_alpn_protos` -/
  alpnProtos : Option Bytes := none
  deriving DecidableEq

structure SslOutcome where
  ctxNew : TlsMethod → Bool
  /-- `X509_STORE_set_default_paths`, `SSL_CTX_set_default_verify_paths` -/
  setDefaultPaths : TlsMethod → Int
  usePrivateKeyFile : TlsMethod → Bytes → Int
  useCertificateFile : TlsMethod → Bytes → Int
  checkPrivateKey : TlsMethod → Int

/-- Every call succeeds. -/
def SslOutcome.succeeds : SslOutcome where
  ctxNew := fun _ => true
  setDefaultPaths := fun _ => 1
  usePrivateKeyFile := fun _ _ => 1
  useCertificateFile := fun _ _ => 1
  checkPrivateKey := fun _ => 1

/-- `_i` and `_o` are null until they are reset.  The contexts made so far are history. -/
structure AppContext where
  creds : Option SslCreds
  i : Option SslCtx := none
  o : Option SslCtx := none
  made : Nat := 0
  deriving DecidableEq

namespace AppContext

/-- The options that all but the inbound context without credentials are given. -/
def commonOptions : List SslOp :=
  [.all, .noSslV2, .noSslV3, .noCompression, .noSessionResumptionOnRenegotiation, .singleEcdhUse,
    .noTicket]

/-! ## The constructor -/

/-- A call that has to return `1`, and what it sets. -/
def require (rv : Int) (what : String) (next : AppContext) (s : AppContext) : Outcome AppContext :=
  if rv ≠ 1 then (.error (.throws (runtimeError what)), s) else (.ok (), next)

/-- `_i.reset(SSL_CTX_new(TLS_server_method()))`, and the test of `_i`. -/
def newInbound (ssl : SslOutcome) (s : AppContext) : Outcome AppContext :=
  if ssl.ctxNew .server then
    (.ok (), { s with i := some { method := .server }, made := s.made + 1 })
  else
    (.error (.throws (runtimeError "Failed to create SSL context: {}")), { s with i := none })

/-- The same for `_o`. -/
def newOutbound (ssl : SslOutcome) (s : AppContext) : Outcome AppContext :=
  if ssl.ctxNew .client then
    (.ok (), { s with o := some { method := .client }, made := s.made + 1 })
  else
    (.error (.throws (runtimeError "Failed to create SSL context: {}")), { s with o := none })

/-- A call on the inbound context. -/
def onInbound (f : SslCtx → SslCtx) (s : AppContext) : AppContext := { s with i := s.i.map f }

/-- A call on the outbound context. -/
def onOutbound (f : SslCtx → SslCtx) (s : AppContext) : AppContext := { s with o := s.o.map f }

/-- `_init_inbound()`. -/
def initInboundSystem (ssl : SslOutcome) (s : AppContext) : Outcome AppContext :=
  (s.newInbound ssl).andThen fun s =>
  (require (ssl.setDefaultPaths .server) "Call to X509_STORE_set_default_paths failed: {}"
    (s.onInbound fun c => { c with defaultPaths := true }) s).andThen fun s =>
  (.ok (), s.onInbound fun c => { c with verifyPeer := true })

/-- `_init_inbound(_keyfile, _certfile)`. -/
def initInbound (ssl : SslOutcome) (keyfile certfile : Bytes) (s : AppContext) :
    Outcome AppContext :=
  (s.newInbound ssl).andThen fun s =>
  let s := s.onInbound fun c => { c with options := commonOptions ++ [.cipherServerPreference] }
  (require (ssl.usePrivateKeyFile .server keyfile) "Failed to read private key file!"
    (s.onInbound fun c => { c with privateKey := some keyfile }) s).andThen fun s =>
  (require (ssl.useCertificateFile .server certfile) "Failed to read certificate file!"
    (s.onInbound fun c => { c with certificate := some certfile }) s).andThen fun s =>
  (require (ssl.checkPrivateKey .server) "Failed to check private key!"
    (s.onInbound fun c => { c with keyChecked := true }) s).andThen fun s =>
  (.ok (), s.onInbound fun c => { c with selectsAlpn := true })

/-- `_init_outbound()`. -/
def initOutboundSystem (ssl : SslOutcome) (s : AppContext) : Outcome AppContext :=
  (s.newOutbound ssl).andThen fun s =>
  let s := s.onOutbound fun c => { c with options := commonOptions }
  (require (ssl.setDefaultPaths .client) "Call to SSL_CTX_set_default_verify_paths failed: {}"
    (s.onOutbound fun c => { c with defaultPaths := true }) s).andThen fun s =>
  (.ok (), s.onOutbound fun c => { c with verifyPeer := true })

/-- `_init_outbound(_keyfile, _certfile)`. -/
def initOutbound (ssl : SslOutcome) (keyfile certfile : Bytes) (s : AppContext) :
    Outcome AppContext :=
  (s.newOutbound ssl).andThen fun s =>
  let s := s.onOutbound fun c => { c with options := commonOptions }
  (require (ssl.usePrivateKeyFile .client keyfile) "Failed to read private key file!"
    (s.onOutbound fun c => { c with privateKey := some keyfile }) s).andThen fun s =>
  (require (ssl.useCertificateFile .client certfile) "Failed to read certificate file!"
    (s.onOutbound fun c => { c with certificate := some certfile }) s).andThen fun s =>
  (require (ssl.checkPrivateKey .client) "Failed to check private key!"
    (s.onOutbound fun c => { c with keyChecked := true }) s).andThen fun s =>
  (.ok (), s.onOutbound fun c => { c with verifyPeer := true })

/-- `_init`.  The files are named by `c_str`. -/
def init (ssl : SslOutcome) (s : AppContext) : Outcome AppContext :=
  match s.creds with
  | some c =>
      (s.initInbound ssl (cString c.keyfile) (cString c.certfile)).andThen fun s =>
        s.initOutbound ssl (cString c.keyfile) (cString c.certfile)
  | none => (s.initInboundSystem ssl).andThen fun s => s.initOutboundSystem ssl

/-- The contexts a value holds. -/
def held (s : AppContext) : Nat := s.i.toList.length + s.o.toList.length

/-- `make`: the value, or the exception and the number of contexts that unwinding its members
frees; and the number of contexts made. -/
def make (ssl : SslOutcome) (creds : Option SslCreds) : Except (Fault × Nat) AppContext × Nat :=
  match init ssl { creds } with
  | (.ok (), s) => (.ok s, s.made)
  | (.error f, s) => (.error (f, s.held), s.made)

end AppContext

/-! ## The checks, and the contexts -/

/-- The error of the first check that does not pass. -/
def firstFailure (checks : List (Bool × String)) : Option String :=
  checks.findSome? fun c => if c.1 then none else some c.2

/-- What has to succeed, in the order of the calls. -/
def SslOutcome.checks (ssl : SslOutcome) : Option SslCreds → List (Bool × String)
  | some c =>
      [TlsMethod.server, .client].flatMap fun m =>
        [(ssl.ctxNew m, "Failed to create SSL context: {}"),
          (ssl.usePrivateKeyFile m (cString c.keyfile) == 1, "Failed to read private key file!"),
          (ssl.useCertificateFile m (cString c.certfile) == 1, "Failed to read certificate file!"),
          (ssl.checkPrivateKey m == 1, "Failed to check private key!")]
  | none =>
      [(ssl.ctxNew .server, "Failed to create SSL context: {}"),
        (ssl.setDefaultPaths .server == 1, "Call to X509_STORE_set_default_paths failed: {}"),
        (ssl.ctxNew .client, "Failed to create SSL context: {}"),
        (ssl.setDefaultPaths .client == 1, "Call to SSL_CTX_set_default_verify_paths failed: {}")]

/-- The inbound context: it asks clients for a certificate only without credentials, and
selects an ALPN only with them. -/
def SslCtx.inbound : Option SslCreds → SslCtx
  | some c => {
      method := .server
      options := AppContext.commonOptions ++ [.cipherServerPreference]
      privateKey := some (cString c.keyfile)
      certificate := some (cString c.certfile)
      keyChecked := true
      selectsAlpn := true }
  | none => { method := .server, defaultPaths := true, verifyPeer := true }

/-- The outbound context: it always asks the server for a certificate, and it never offers
an ALPN. -/
def SslCtx.outbound : Option SslCreds → SslCtx
  | some c => {
      method := .client
      options := AppContext.commonOptions
      verifyPeer := true
      privateKey := some (cString c.keyfile)
      certificate := some (cString c.certfile)
      keyChecked := true }
  | none => {
      method := .client
      options := AppContext.commonOptions
      defaultPaths := true
      verifyPeer := true }

/-! ## One check after the other -/

namespace AppContext

/-- As many contexts have been made as are held. -/
def Balanced (s : AppContext) : Prop := s.made = s.held

/-- `r` goes through `checks`: to `s'` if all of them pass, and otherwise it throws the error
of the first that does not, holding all that has been made. -/
def GoesThrough (checks : List (Bool × String)) (r : Outcome AppContext) (s' : AppContext) :
    Prop :=
  match firstFailure checks with
  | none => r = (.ok (), s')
  | some what => ∃ t, r = (.error (.throws (runtimeError what)), t) ∧ t.Balanced

theorem GoesThrough.returns (s : AppContext) : GoesThrough [] (.ok (), s) s := rfl

theorem GoesThrough.andThen {checks checks' : List (Bool × String)} {r : Outcome AppContext}
    {s s' : AppContext} {k : AppContext → Outcome AppContext} (hr : GoesThrough checks r s)
    (hk : GoesThrough checks' (k s) s') : GoesThrough (checks ++ checks') (r.andThen k) s' := by
  unfold GoesThrough firstFailure at *
  rw [List.findSome?_append]
  cases hfirst : checks.findSome? fun c => if c.1 then none else some c.2 with
  | none =>
      rw [hfirst] at hr
      rw [show r = (.ok (), s) from hr]
      exact hk
  | some what =>
      rw [hfirst] at hr
      obtain ⟨t, rfl, ht⟩ := hr
      exact ⟨t, rfl, ht⟩

/-- The same, for one check at a time. -/
theorem GoesThrough.cons {check : Bool × String} {checks : List (Bool × String)}
    {r : Outcome AppContext} {s s' : AppContext} {k : AppContext → Outcome AppContext}
    (hr : GoesThrough [check] r s) (hk : GoesThrough checks (k s) s') :
    GoesThrough (check :: checks) (r.andThen k) s' := hr.andThen hk

theorem goesThrough_require {s : AppContext} (hs : s.Balanced) (rv : Int) (what : String)
    (next : AppContext) : GoesThrough [(rv == 1, what)] (require rv what next s) next := by
  by_cases hrv : rv = 1
  · simp [GoesThrough, firstFailure, require, hrv]
  · simp [GoesThrough, firstFailure, require, hrv, hs]

theorem goesThrough_newInbound {s : AppContext} (ssl : SslOutcome) (hs : s.Balanced)
    (hi : s.i = none) :
    GoesThrough [(ssl.ctxNew .server, "Failed to create SSL context: {}")] (s.newInbound ssl)
      { s with i := some { method := .server }, made := s.made + 1 } := by
  cases hnew : ssl.ctxNew .server with
  | true => simp [GoesThrough, firstFailure, newInbound, hnew]
  | false =>
      have hsame : ({ s with i := none } : AppContext) = s := by rw [← hi]
      simp [GoesThrough, firstFailure, newInbound, hnew, hsame, hs]

theorem goesThrough_newOutbound {s : AppContext} (ssl : SslOutcome) (hs : s.Balanced)
    (ho : s.o = none) :
    GoesThrough [(ssl.ctxNew .client, "Failed to create SSL context: {}")] (s.newOutbound ssl)
      { s with o := some { method := .client }, made := s.made + 1 } := by
  cases hnew : ssl.ctxNew .client with
  | true => simp [GoesThrough, firstFailure, newOutbound, hnew]
  | false =>
      have hsame : ({ s with o := none } : AppContext) = s := by rw [← ho]
      simp [GoesThrough, firstFailure, newOutbound, hnew, hsame, hs]

section
variable (ssl : SslOutcome) (creds : Option SslCreds) (inbound : SslCtx)

/-- After the inbound half. -/
def half : AppContext := { creds, i := some inbound, made := 1 }

theorem goesThrough_initInbound (c : SslCreds) :
    GoesThrough
      [(ssl.ctxNew .server, "Failed to create SSL context: {}"),
        (ssl.usePrivateKeyFile .server (cString c.keyfile) == 1,
          "Failed to read private key file!"),
        (ssl.useCertificateFile .server (cString c.certfile) == 1,
          "Failed to read certificate file!"),
        (ssl.checkPrivateKey .server == 1, "Failed to check private key!")]
      (initInbound ssl (cString c.keyfile) (cString c.certfile) { creds })
      (half creds (.inbound (some c))) := by
  refine .cons (goesThrough_newInbound ssl (by exact rfl) rfl) ?_
  refine .cons (goesThrough_require (by exact rfl) _ _ _) ?_
  refine .cons (goesThrough_require (by exact rfl) _ _ _) ?_
  refine .cons (goesThrough_require (by exact rfl) _ _ _) ?_
  exact .returns _

theorem goesThrough_initInboundSystem :
    GoesThrough
      [(ssl.ctxNew .server, "Failed to create SSL context: {}"),
        (ssl.setDefaultPaths .server == 1, "Call to X509_STORE_set_default_paths failed: {}")]
      (initInboundSystem ssl { creds }) (half creds (.inbound none)) := by
  refine .cons (goesThrough_newInbound ssl (by exact rfl) rfl) ?_
  refine .cons (goesThrough_require (by exact rfl) _ _ _) ?_
  exact .returns _

theorem goesThrough_initOutbound (c : SslCreds) :
    GoesThrough
      [(ssl.ctxNew .client, "Failed to create SSL context: {}"),
        (ssl.usePrivateKeyFile .client (cString c.keyfile) == 1,
          "Failed to read private key file!"),
        (ssl.useCertificateFile .client (cString c.certfile) == 1,
          "Failed to read certificate file!"),
        (ssl.checkPrivateKey .client == 1, "Failed to check private key!")]
      (initOutbound ssl (cString c.keyfile) (cString c.certfile) (half creds inbound))
      { half creds inbound with o := some (.outbound (some c)), made := 2 } := by
  refine .cons (goesThrough_newOutbound ssl (by exact rfl) rfl) ?_
  refine .cons (goesThrough_require (by exact rfl) _ _ _) ?_
  refine .cons (goesThrough_require (by exact rfl) _ _ _) ?_
  refine .cons (goesThrough_require (by exact rfl) _ _ _) ?_
  exact .returns _

theorem goesThrough_initOutboundSystem :
    GoesThrough
      [(ssl.ctxNew .client, "Failed to create SSL context: {}"),
        (ssl.setDefaultPaths .client == 1,
          "Call to SSL_CTX_set_default_verify_paths failed: {}")]
      (initOutboundSystem ssl (half creds inbound))
      { half creds inbound with o := some (.outbound none), made := 2 } := by
  refine .cons (goesThrough_newOutbound ssl (by exact rfl) rfl) ?_
  refine .cons (goesThrough_require (by exact rfl) _ _ _) ?_
  exact .returns _

end

/-- The contexts of a value that was made. -/
def configured (creds : Option SslCreds) : AppContext :=
  { creds, i := some (.inbound creds), o := some (.outbound creds), made := 2 }

theorem goesThrough_init (ssl : SslOutcome) (creds : Option SslCreds) :
    GoesThrough (ssl.checks creds) (init ssl { creds }) (configured creds) := by
  cases creds with
  | none =>
      exact (goesThrough_initInboundSystem ssl none).andThen
        (goesThrough_initOutboundSystem ssl none _)
  | some c =>
      exact (goesThrough_initInbound ssl (some c) c).andThen
        (goesThrough_initOutbound ssl (some c) _ c)

/-- There is only one value that `make` can return. -/
theorem configured_of_make {ssl : SslOutcome} {creds : Option SslCreds} {ctx : AppContext}
    {made : Nat} (h : make ssl creds = (.ok ctx, made)) : ctx = configured creds := by
  have hinit := goesThrough_init ssl creds
  unfold GoesThrough at hinit
  rw [make] at h
  split at h
  · next t ht =>
    obtain rfl := Except.ok.inj (Prod.mk.inj h).1
    split at hinit
    · exact congrArg Prod.snd (ht.symm.trans hinit)
    · obtain ⟨u, hu, -⟩ := hinit
      cases congrArg Prod.fst (ht.symm.trans hu)
  · cases (Prod.mk.inj h).1

/-- How `make` ends. -/
structure MakesExactly (ssl : SslOutcome) (creds : Option SslCreds)
    (result : Except (Fault × Nat) AppContext × Nat) : Prop where
  /-- all checks pass: both contexts, as the table says, and no third one -/
  returns : firstFailure (ssl.checks creds) = none → result = (.ok (configured creds), 2)
  /-- some do not: the error of the first, and every context that was made is freed -/
  throws : ∀ what, firstFailure (ssl.checks creds) = some what →
    ∃ made, result = (.error (.throws (runtimeError what), made), made)

/-- **`app_context::make` throws the error of the first check that does not pass, and leaks
nothing.**  With and without credentials, for every answer of OpenSSL. -/
theorem make_exact (ssl : SslOutcome) (creds : Option SslCreds) :
    MakesExactly ssl creds (make ssl creds) := by
  have hinit := goesThrough_init ssl creds
  unfold GoesThrough at hinit
  refine ⟨fun hpass => ?_, fun what hfail => ?_⟩
  · rw [hpass] at hinit
    rw [make, show init ssl { creds } = (.ok (), configured creds) from hinit]
    rfl
  · rw [hfail] at hinit
    obtain ⟨t, ht, hbalanced⟩ := hinit
    have hfreed : t.held = t.made := hbalanced.symm
    exact ⟨t.made, by simp only [make, ht, hfreed]⟩

/-- The key does not belong to the certificate: the one context made so far is freed. -/
example :
    make { SslOutcome.succeeds with checkPrivateKey := fun _ => 0 } (some ⟨[107], [99]⟩)
      = (.error (.throws (runtimeError "Failed to check private key!"), 1), 1) := by
  rfl

end AppContext

end Wshttp
