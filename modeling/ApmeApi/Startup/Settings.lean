import ApmeApi.Service.Auth
import ApmeApi.Transport.Listener
import ApmeApi.Transport.Nats

/-!
# The settings of the process

What `from_env` of each part reads: trimmed variables that are not blank (`optionalEnv`), required
ones, and whole numbers within bounds (`boundedEnv`). A setting that is there is never replaced by
its default: one that does not parse or lies out of bounds is refused (`boundedEnv_eq_ok_iff`), and
so are its avenue and, with it, the process.
-/

namespace ApmeApi

/-- The variables of the environment that are Unicode. -/
abbrev Environment := String → Option String

/-! ### Variables -/

/-- A variable, trimmed, when it is not blank. -/
def optionalEnv (env : Environment) (name : String) : Option String :=
  ((env name).map Text.trim).filter fun value => !value.isEmpty

/-- A variable that has to be there. -/
def requiredEnv (env : Environment) (name message : String) : Except String String :=
  match optionalEnv env name with
  | some value => .ok value
  | none => .error message

theorem requiredEnv_eq_ok {env : Environment} {name message value : String} :
    requiredEnv env name message = .ok value ↔ optionalEnv env name = some value := by
  rw [requiredEnv]
  cases optionalEnv env name with
  | none => exact ⟨fun h => (by cases h), fun h => (by cases h)⟩
  | some v => rw [Except.ok.injEq, Option.some.injEq]

/-- The number that decimal digits denote. -/
def ofDigits (digits : List Char) : ℕ :=
  digits.foldl (fun n c => n * 10 + (c.toNat - '0'.toNat)) 0

/-- `str::parse::<usize>` on a 64-bit machine: decimal digits, with or without a plus sign. -/
def parseUsize (value : String) : Option ℕ :=
  let digits := match value.toList with
    | '+' :: rest => rest
    | all => all
  if digits ≠ [] ∧ digits.all Char.isDigit ∧ ofDigits digits < 2 ^ 64 then some (ofDigits digits)
  else none

/-- `bounded_env`. -/
def boundedEnv (env : Environment) (name : String) (default minimum maximum : ℕ) :
    Except String ℕ := do
  let value ← match optionalEnv env name with
    | some value =>
      match parseUsize value with
      | some n => .ok n
      | none => .error s!"{name} must be an integer"
    | none => .ok default
  if minimum ≤ value ∧ value ≤ maximum then return value
  else .error s!"{name} is out of bounds"

/-- **A bounded setting** is the number that the variable denotes, or the default where the variable
is unset or blank, when it lies within the bounds. -/
theorem boundedEnv_eq_ok_iff {env : Environment} {name : String} {default minimum maximum n : ℕ} :
    boundedEnv env name default minimum maximum = .ok n ↔
      (optionalEnv env name).elim (some default) parseUsize = some n ∧
        minimum ≤ n ∧ n ≤ maximum := by
  have hbounds : ∀ value : ℕ, (if minimum ≤ value ∧ value ≤ maximum then .ok value
      else .error s!"{name} is out of bounds" : Except String ℕ) = .ok n ↔
        value = n ∧ minimum ≤ n ∧ n ≤ maximum := by
    intro value
    split
    · rename_i hin
      constructor
      · intro h
        obtain rfl := Except.ok.inj h
        exact ⟨rfl, hin⟩
      · rintro ⟨rfl, -⟩
        rfl
    · rename_i hout
      constructor
      · exact fun h => by cases h
      · rintro ⟨rfl, hin⟩
        exact absurd hin hout
  rw [boundedEnv]
  cases optionalEnv env name with
  | none => exact (hbounds default).trans (by rw [Option.elim_none, Option.some.injEq])
  | some value =>
    cases hparse : parseUsize value with
    | none => simp [bind, Except.bind, hparse]
    | some k =>
      simp only [hparse]
      exact (hbounds k).trans (by rw [Option.elim_some, hparse, Option.some.injEq])

/-! ### Authentication and the database -/

/-- What `AuthService::from_env` reads. The guard and the introspection client are built from it. -/
structure AuthSettings where
  base : String
  issuer : String
  audience : String
  introspectionCredential : String
  loginUrl : String
  deriving DecidableEq

/-- `AuthConfigError::Missing`. -/
def missingSetting (name : String) : String :=
  s!"required authentication setting {name} is missing"

/-- The variables of `AuthService::from_env`. -/
def AuthSettings.fromEnv (env : Environment) : Except String AuthSettings := do
  let required := fun name => requiredEnv env name (missingSetting name)
  let base ← required "SHARED_AUTH_BASE_URL"
  let issuer ← required "SHARED_AUTH_ISSUER"
  let audience ← required "SHARED_AUTH_AUDIENCE"
  let introspectionCredential ← required "SHARED_AUTH_INTROSPECTION_CREDENTIAL"
  let loginUrl := (env "SHARED_AUTH_LOGIN_URL").getD "/auth/sign-in"
  return ⟨base, issuer, audience, introspectionCredential, loginUrl⟩

/-- The variable of `CaseService::from_env`. -/
def databaseUrl (env : Environment) : Except String String :=
  requiredEnv env "DATABASE_URL" "required persistence setting DATABASE_URL is missing"

/-! ### The framed transport -/

namespace Tcp

/-- `Config` of the transport. -/
structure Settings extends ListenerConfig where
  bind : String
  certificatePath : String
  privateKeyPath : String
  clientCaPath : String
  deriving DecidableEq

def requiredPath (env : Environment) (name : String) : Except String String :=
  requiredEnv env name s!"{name} is required when mTLS is enabled"

/-- `Config::from_env`: none when there is no address to bind. -/
def Settings.fromEnv (env : Environment) : Except String (Option Settings) :=
  match optionalEnv env "APME_API_TCP_BIND" with
  | none => .ok none
  | some bind => do
    let certificatePath ← requiredPath env "APME_API_TCP_TLS_CERT_FILE"
    let privateKeyPath ← requiredPath env "APME_API_TCP_TLS_KEY_FILE"
    let clientCaPath ← requiredPath env "APME_API_TCP_CLIENT_CA_FILE"
    let maxConnections ← boundedEnv env "APME_API_TCP_MAX_CONNECTIONS" 128 1 4096
    let maxRequestsPerConnection ←
      boundedEnv env "APME_API_TCP_MAX_REQUESTS_PER_CONNECTION" 64 1 4096
    let idleTimeout ← boundedEnv env "APME_API_TCP_IDLE_TIMEOUT_SECONDS" 15 1 300
    return some ⟨⟨⟨maxRequestsPerConnection⟩, maxConnections, idleTimeout⟩, bind, certificatePath,
      privateKeyPath, clientCaPath⟩

/-- The bounds of the transport. -/
structure Bounded (config : ListenerConfig) : Prop where
  connections : 1 ≤ config.maxConnections ∧ config.maxConnections ≤ 4096
  requests : 1 ≤ config.maxRequestsPerConnection ∧ config.maxRequestsPerConnection ≤ 4096
  idle : 1 ≤ config.idleTimeout ∧ config.idleTimeout ≤ 300

/-- **Settings that were read** are within the bounds. -/
theorem Settings.bounded {env : Environment} {s : Settings}
    (h : Settings.fromEnv env = .ok (some s)) : Bounded s.toListenerConfig := by
  rw [fromEnv] at h
  cases hbind : optionalEnv env "APME_API_TCP_BIND" with
  | none =>
    rw [hbind] at h
    cases h
  | some bind =>
    simp only [hbind, Bind.bind, Except.bind] at h
    split at h
    · cases h
    split at h
    · cases h
    split at h
    · cases h
    split at h
    · cases h
    rename_i hconnections
    split at h
    · cases h
    rename_i hrequests
    split at h
    · cases h
    rename_i hidle
    obtain rfl := Option.some.inj (Except.ok.inj h)
    exact ⟨(boundedEnv_eq_ok_iff.mp hconnections).2, (boundedEnv_eq_ok_iff.mp hrequests).2,
      (boundedEnv_eq_ok_iff.mp hidle).2⟩

end Tcp

/-! ### The durable status avenue -/

namespace Nats

/-- `Config` of the avenue, with the file of its credentials. -/
structure Settings extends Config where
  credentialsPath : String
  deriving DecidableEq

/-- `Config::from_env`: none when there is no broker. -/
def Settings.fromEnv (env : Environment) : Except String (Option Settings) :=
  match optionalEnv env "APME_NATS_URL" with
  | none => .ok none
  | some url => do
    let credentialsPath ← requiredEnv env "APME_NATS_CREDENTIALS_FILE"
      "APME_NATS_CREDENTIALS_FILE is required when JetStream is enabled"
    let config : Config := {
      url := url
      requestStream := (optionalEnv env "APME_NATS_REQUEST_STREAM").getD "APME_STATUS_OUTBOX"
      responseStream := (optionalEnv env "APME_NATS_RESPONSE_STREAM").getD "APME_STATUS_INBOX"
      consumer := (optionalEnv env "APME_NATS_CONSUMER").getD "apme-api-status" }
    config.validate
    return some ⟨config, credentialsPath⟩

/-- The URL of a broker that is spoken to over TLS and whose authority names no user. -/
def TlsUrl (url : String) : Prop :=
  ∃ authority rest : List Char, url.toList = "tls://".toList ++ (authority ++ rest) ∧
    authority ≠ [] ∧ '@' ∉ authority ∧ ∀ c ∈ rest.head?, c = '/'

/-- Valid settings name a broker that is spoken to over TLS. -/
theorem Config.tlsUrl {config : Config} (h : config.validate = .ok ()) : TlsUrl config.url := by
  rw [validate] at h
  cases hstrip : Text.stripPrefix "tls://" config.url with
  | none =>
    rw [hstrip] at h
    cases h
  | some rest =>
    obtain ⟨l, hl, rfl⟩ := Option.map_eq_some_iff.mp hstrip
    rw [hstrip] at h
    simp only [String.toList_ofList, bind, Except.bind] at h
    split at h
    · cases h
    rename_i hauthority
    obtain ⟨hne, huser⟩ := ensure_eq_ok.mp hauthority
    refine ⟨l.takeWhile (· ≠ '/'), l.dropWhile (· ≠ '/'), ?_, hne, huser, fun c hc => ?_⟩
    · rw [List.takeWhile_append_dropWhile]
      exact Text.stripPrefixList_eq_some_iff.mp hl
    · have hnot := List.head?_dropWhile_not (fun c : Char => decide (c ≠ '/')) l
      rw [Option.mem_def.mp hc] at hnot
      simpa using hnot

/-- A worker of valid settings is the one that the checks of `connect` give. -/
theorem Worker.connect_eq_ok {config : Config} (hvalid : config.validate = .ok ())
    (worker : Worker) (hname : worker.name = config.consumer) :
    Worker.connect config worker.requestStream worker.responseStream worker.consumer =
      .ok worker := by
  obtain ⟨request, response, consumer, name, hrequest, hresponse, hconsumer⟩ := worker
  obtain rfl : name = config.consumer := hname
  rw [connect, hvalid]
  dsimp only
  split
  · rename_i h
    cases hrequest.symm.trans h
  split
  · rename_i h
    cases hresponse.symm.trans h
  split
  · rename_i h
    cases hconsumer.symm.trans h
  · rfl

end Nats

end ApmeApi
