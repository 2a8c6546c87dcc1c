import IronTraffic.Policy.Syntax

/-! # The attribute schema

The closed set of attributes and maps an expression may read, each with its
static type and the earliest phase in which it has a value.
-/

namespace IronTraffic.Policy

inductive Phase where
  | streamStart
  | requestHeaders
  | requestBody
  | requestTrailers
  | routeSelected
  | upstreamRequestHeaders
  | responseHeaders
  | responseBody
  | responseTrailers
  | log

def Phase.index : Phase → Nat
  | streamStart => 0
  | requestHeaders => 1
  | requestBody => 2
  | requestTrailers => 3
  | routeSelected => 4
  | upstreamRequestHeaders => 5
  | responseHeaders => 6
  | responseBody => 7
  | responseTrailers => 8
  | log => 9

inductive AttrId where
  | requestMethod
  | requestPath
  | requestQuery
  | requestScheme
  | requestAuthority
  | requestHost
  | requestPort
  | requestProtocol
  | requestSize
  | requestId
  | requestHeaderCount
  | connectionRemoteAddr
  | connectionRemotePort
  | connectionLocalAddr
  | connectionTls
  | connectionSni
  | connectionAlpn
  | connectionMtlsVerified
  | connectionListener
  | routeId
  | routeCluster
  | responseStatus
  | responseSize
  | streamId
  | streamDurationMs
  deriving DecidableEq

inductive MapId where
  | requestHeaders
  | requestQuery
  | responseHeaders
  deriving DecidableEq

/-- Static types. `null` is absent, `map` is an attribute map not yet indexed. -/
inductive Ty where
  | bool
  | int
  | str
  | list
  | null
  | map
  deriving DecidableEq

namespace AttrId

def ty : AttrId → Ty
  | requestMethod | requestPath | requestQuery | requestScheme | requestAuthority
  | requestHost | requestProtocol | requestId | connectionRemoteAddr
  | connectionLocalAddr | connectionSni | connectionAlpn => .str
  | requestPort | requestSize | requestHeaderCount | connectionRemotePort
  | connectionListener | routeId | routeCluster | responseStatus | responseSize
  | streamId | streamDurationMs => .int
  | connectionTls | connectionMtlsVerified => .bool

def fromPhase : AttrId → Phase
  | requestMethod | requestPath | requestQuery | requestScheme | requestAuthority
  | requestHost | requestPort | requestSize | requestId | requestHeaderCount =>
    .requestHeaders
  | requestProtocol | connectionRemoteAddr | connectionRemotePort | connectionLocalAddr
  | connectionTls | connectionSni | connectionAlpn | connectionMtlsVerified
  | connectionListener | streamId => .streamStart
  | routeId | routeCluster => .routeSelected
  | responseStatus | responseSize => .responseHeaders
  | streamDurationMs => .log

def availableIn (attr : AttrId) (phase : Phase) : Bool :=
  attr.fromPhase.index ≤ phase.index

lemma ty_scalar (attr : AttrId) : attr.ty = .bool ∨ attr.ty = .int ∨ attr.ty = .str := by
  cases attr <;> simp [ty]

end AttrId

namespace MapId

def fromPhase : MapId → Phase
  | requestHeaders | requestQuery => .requestHeaders
  | responseHeaders => .responseHeaders

def lowercaseKeys : MapId → Bool
  | requestHeaders | responseHeaders => true
  | requestQuery => false

end MapId

/-- One row of the schema: a scalar attribute or one of the three maps. -/
structure AttrEntry where
  path : Bytes
  attr : Option AttrId
  map : Option MapId

namespace AttrEntry

def scalar (path : String) (attr : AttrId) : AttrEntry := ⟨ascii path, some attr, none⟩

def indexed (path : String) (map : MapId) : AttrEntry := ⟨ascii path, none, some map⟩

end AttrEntry

def attrs : List AttrEntry :=
  [ .scalar "connection.alpn" .connectionAlpn
  , .scalar "connection.listener" .connectionListener
  , .scalar "connection.local_addr" .connectionLocalAddr
  , .scalar "connection.mtls_verified" .connectionMtlsVerified
  , .scalar "connection.remote_addr" .connectionRemoteAddr
  , .scalar "connection.remote_port" .connectionRemotePort
  , .scalar "connection.sni" .connectionSni
  , .scalar "connection.tls" .connectionTls
  , .scalar "request.authority" .requestAuthority
  , .scalar "request.header_count" .requestHeaderCount
  , .indexed "request.headers" .requestHeaders
  , .scalar "request.host" .requestHost
  , .scalar "request.id" .requestId
  , .scalar "request.method" .requestMethod
  , .scalar "request.path" .requestPath
  , .scalar "request.port" .requestPort
  , .scalar "request.protocol" .requestProtocol
  , .scalar "request.query" .requestQuery
  , .indexed "request.query_params" .requestQuery
  , .scalar "request.scheme" .requestScheme
  , .scalar "request.size" .requestSize
  , .indexed "response.headers" .responseHeaders
  , .scalar "response.size" .responseSize
  , .scalar "response.status" .responseStatus
  , .scalar "route.cluster" .routeCluster
  , .scalar "route.id" .routeId
  , .scalar "stream.duration_ms" .streamDurationMs
  , .scalar "stream.id" .streamId ]

def namespaces : List Bytes :=
  [ascii "request", ascii "connection", ascii "route", ascii "response", ascii "stream"]

def maxPathBytes : Nat := 64

/-- The source searches the sorted table by bisection; its paths are distinct,
so the row found is the one with that path. -/
def resolvePath (path : Bytes) : Option AttrEntry :=
  attrs.find? fun entry => entry.path == path

/-- A resolved attribute reference occupying one evaluation slot. The key of a
map lookup is a range of the decoded-string arena. -/
inductive AttrRef where
  | scalar (attr : AttrId)
  | field (map : MapId) (key : Span)

end IronTraffic.Policy
