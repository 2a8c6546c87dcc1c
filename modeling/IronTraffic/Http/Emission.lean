import IronTraffic.Foundation.Fallible
import IronTraffic.Http.AddressText
import IronTraffic.Http.Authority
import IronTraffic.Http.Peer
import IronTraffic.Http.Quoting

/-! # The emitted element

One `Forwarded` element is written for the upstream: who the client is, the local address, the
scheme and the host. Values are quoted where the writer takes them to need it.
-/

namespace IronTraffic.Http

open ForwardedChain

open List

/-! ## Writing -/

def Scheme.asBytes : Scheme → Bytes
  | .http => ascii "http"
  | .https => ascii "https"

def clientNeedsQuote (identity : PeerIdentity) : Bool :=
  identity.client.isIpv6 || identity.clientPort.isSome

def authorityNeedsQuote (authority : Authority) : Bool :=
  authority.isIpv6Literal || authority.port.isSome

def quotedIf (needsQuote : Bool) (text : Bytes) : Bytes :=
  if needsQuote then quote :: (text ++ [quote]) else text

def writeForValue (identity : PeerIdentity) : Bytes :=
  quotedIf (clientNeedsQuote identity) (writeNode identity.client identity.clientPort)

def writeByValue (localAddr : SocketAddr) : Bytes :=
  quotedIf true (writeNode localAddr.ip (some localAddr.port))

def writeHostValue (authority : Authority) : Bytes :=
  quotedIf (authorityNeedsQuote authority) authority.writeTo

def writeForwardedElement (identity : PeerIdentity) (localAddr : SocketAddr) (scheme : Scheme)
    (authority : Authority) : Bytes :=
  ascii "for=" ++ writeForValue identity ++ ascii ";by=" ++ writeByValue localAddr ++
    ascii ";proto=" ++ scheme.asBytes ++ ascii ";host=" ++ writeHostValue authority

/-! ## Bytes of values -/

def isValueByte (byte : UInt8) : Bool :=
  byte != quote && byte != backslash && !isOws byte

lemma isValueByte_of_hostByteOk :
    ∀ byte : UInt8, hostByteOk byte = true → isValueByte byte = true :=
  of_hostByteOk (by decide)

lemma isValueByte_node :
    ∀ byte : UInt8, isNodeByte byte = true ∨ byte = 91 ∨ byte = 93 →
      isValueByte byte = true ∧ byte ≠ comma ∧ byte ≠ semicolon :=
  forall_byte (by decide +kernel)

lemma isValueByte_iff :
    isValueByte byte = true ↔ byte ≠ quote ∧ byte ≠ backslash ∧ isOws byte = false := by
  simp [isValueByte, and_assoc]

variable {text name value : Bytes} {reader : TextReader} {limits : ClampedLimits}
  {chain : ForwardedChain} {pieces : List Bytes} {state : ElementState}

section

variable (plain : ∀ byte ∈ text, isValueByte byte = true)

include plain

lemma quotedIf_notOws (needsQuote : Bool) :
    ∀ byte ∈ quotedIf needsQuote text, isOws byte = false := by
  have inside : ∀ byte ∈ text, isOws byte = false := fun byte mem =>
    (isValueByte_iff.mp (plain byte mem)).2.2
  unfold quotedIf
  split
  · rw [forall_mem_cons, forall_mem_append, forall_mem_singleton]
    exact ⟨rfl, inside, rfl⟩
  · exact inside

lemma quotedIf_closed (noDelim : needsQuote = true ∨ delim ∉ text) :
    Closed delim (quotedIf needsQuote text) := by
  cases needsQuote with
  | true =>
    refine .quoted (fun byte mem => ?_) .nil
    have isPlain := isValueByte_iff.mp (plain byte mem)
    exact ⟨isPlain.1, isPlain.2.1⟩
  | false =>
    refine .of_plain fun byte mem => ⟨(isValueByte_iff.mp (plain byte mem)).1, ?_⟩
    rintro rfl
    exact noDelim.resolve_left nofun mem

lemma unquoted_quotedIf (needsQuote : Bool) : unquoted (quotedIf needsQuote text) = text := by
  have noBackslash : ∀ byte ∈ text, byte ≠ backslash := fun byte mem =>
    (isValueByte_iff.mp (plain byte mem)).2.1
  unfold unquoted quotedIf
  cases needsQuote with
  | true =>
    simp only [↓reduceIte, isQuoted_quoted, interiorOf_quoted]
    exact unescape_of_plain noBackslash
  | false =>
    have notQuoted : isQuoted text = false := by
      rw [← Bool.not_eq_true]
      intro isQuote
      simp only [isQuoted, Bool.and_eq_true, beq_iff_eq] at isQuote
      have mem := mem_of_mem_head? isQuote.1.2
      exact (isValueByte_iff.mp (plain _ mem)).1 rfl
    simp [notQuoted]

end

lemma writeNode_values (addr : IpAddr) (port) :
    ∀ byte ∈ writeNode addr port, isValueByte byte = true ∧ byte ≠ comma ∧ byte ≠ semicolon :=
  fun byte mem => isValueByte_node byte (writeNode_bytes addr port byte mem)

lemma writeTo_values (authority : Authority) :
    ∀ byte ∈ authority.writeTo, isValueByte byte = true := by
  rw [Authority.writeTo, forall_mem_append]
  refine ⟨fun byte mem => isValueByte_of_hostByteOk byte (authority.bytes byte mem), ?_⟩
  cases authority.port with
  | none => exact nofun
  | some port =>
    have small : port.toNat < 10 ^ 5 := lt_trans port.toNat_lt (by decide)
    have digits : ((divisionDigits 10 5 port.toNat).map
        fun digit => (48 + digit).toUInt8).reverse = decimalText port.toNat := by
      rw [divisionDigits_eq (by decide) (by decide) small, map_reverse, reverse_reverse]
      rfl
    simp only [digits, forall_mem_cons]
    refine ⟨rfl, fun byte mem => ?_⟩
    exact (isValueByte_node byte (.inl (writePort_bytes port byte mem))).1

/-! ## Reading one parameter -/

def pairText (name value : Bytes) : Bytes := name ++ 61 :: value

section Pairs

variable (reader : TextReader)

lemma takePair_pairText (state) (plainName : ∀ byte ∈ name, isOws byte = false ∧ byte ≠ 61)
    (plainValue : ∀ byte ∈ value, isOws byte = false) :
    takePair reader state (pairText name value) =
      takeParam reader state (name.map toAsciiLowercase) value := by
  have plain : ∀ byte ∈ pairText name value, isOws byte = false := by
    rw [pairText, forall_mem_append, forall_mem_cons]
    exact ⟨fun byte mem => (plainName byte mem).1, rfl, plainValue⟩
  have notEquals : ∀ byte ∈ name, (byte == 61) = false := fun byte mem =>
    beq_eq_false_iff_ne.mpr (plainName byte mem).2
  have hit : (pairText name value).findIdx? (· == 61) = some name.length :=
    findIdx?_append_cons notEquals rfl value
  have past : (pairText name value).drop (name.length + 1) = value := by
    rw [pairText, ← drop_drop, drop_left, drop_one, tail_cons]
  have upTo : (pairText name value).take name.length = name := take_left
  simp only [takePair, trimOws_of_plain plain, hit, upTo, past, trimOws_of_plain plainValue,
    trimOws_of_plain fun byte mem => (plainName byte mem).1]

variable {reader}

/-- The client is read back from the `for` value. -/
lemma parseNodeName_writeForValue (standard : reader.Standard) (identity)
    (notZero : identity.clientPort ≠ some 0) :
    parseNodeName reader (writeForValue identity) = .addr identity.client identity.clientPort := by
  have classified := classifyUnquoted_writeNode standard identity.client notZero
  have values := writeNode_values identity.client identity.clientPort
  unfold parseNodeName writeForValue quotedIf
  cases clientNeedsQuote identity with
  | true =>
    have text : unescape false (writeNode identity.client identity.clientPort) =
        writeNode identity.client identity.clientPort :=
      unescape_of_plain fun byte mem => (isValueByte_iff.mp (values byte mem).1).2.1
    simp only [↓reduceIte, head?_cons, isQuoted_quoted, Bool.not_true, Bool.false_eq_true,
      interiorOf_quoted, unescapeInto, text, length_writeNode_le, classified]
  | false =>
    have notQuote : (writeNode identity.client identity.clientPort).head? ≠ some quote := by
      intro isHead
      have mem := mem_of_mem_head? isHead
      exact (isValueByte_iff.mp (values _ mem).1).1 rfl
    simp only [Bool.false_eq_true, ↓reduceIte, notQuote, classified]

lemma parseProto_asBytes (scheme : Scheme) : parseProto scheme.asBytes = some scheme := by
  cases scheme <;> decide

/-- What the parameters before `host` say. -/
def statedBefore (identity : PeerIdentity) (scheme : Scheme) : ElementState where
  node := .addr identity.client identity.clientPort
  proto := some scheme
  seenFor := true
  seenProto := true
  seenBy := true

lemma takeParam_for (state) (value : Bytes) (fresh : state.seenFor = false) :
    takeParam reader state ((ascii "for").map toAsciiLowercase) value =
      .ok { state with seenFor := true, node := parseNodeName reader value } := by
  rw [takeParam, if_neg (by decide), if_pos (by decide), if_neg (by simp [fresh])]

lemma takeParam_by (state) (value : Bytes) (fresh : state.seenBy = false) :
    takeParam reader state ((ascii "by").map toAsciiLowercase) value =
      .ok { state with seenBy := true } := by
  rw [takeParam, if_neg (by decide), if_neg (by decide), if_neg (by decide), if_neg (by decide),
    if_pos (by decide), if_neg (by simp [fresh])]

lemma takeParam_proto (state) (value : Bytes) (fresh : state.seenProto = false) :
    takeParam reader state ((ascii "proto").map toAsciiLowercase) value =
      .ok { state with seenProto := true, proto := parseProto value } := by
  unfold takeParam
  rw [if_neg (by decide), if_neg (by decide), if_pos (by decide), if_neg (by simp [fresh])]

lemma takeParam_host (state) (value : Bytes) (fresh : state.seenHost = false) :
    takeParam reader state ((ascii "host").map toAsciiLowercase) value =
      .ok { state with seenHost := true, hostRaw := some value } := by
  rw [takeParam, if_neg (by decide), if_neg (by decide), if_neg (by decide), if_pos (by decide),
    if_neg (by simp [fresh])]

end Pairs

/-! ## Reading the element -/

def elementText (identity : PeerIdentity) (localAddr : SocketAddr) (scheme : Scheme)
    (host : Bytes) : Bytes :=
  pairText (ascii "for") (writeForValue identity) ++ semicolon ::
    (pairText (ascii "by") (writeByValue localAddr) ++ semicolon ::
      (pairText (ascii "proto") scheme.asBytes ++ semicolon :: pairText (ascii "host") host))

lemma writeForwardedElement_eq (identity localAddr) (scheme : Scheme) (authority) :
    writeForwardedElement identity localAddr scheme authority =
      elementText identity localAddr scheme (writeHostValue authority) := by
  have names : ascii "for=" = ascii "for" ++ [61] ∧
      ascii ";by=" = semicolon :: (ascii "by" ++ [61]) ∧
      ascii ";proto=" = semicolon :: (ascii "proto" ++ [61]) ∧
      ascii ";host=" = semicolon :: (ascii "host" ++ [61]) := by decide
  rcases names with ⟨forText, byText, protoText, hostText⟩
  unfold writeForwardedElement elementText pairText
  rw [forText, byText, protoText, hostText]
  simp

lemma pairText_notOws (plainName : ∀ byte ∈ name, isOws byte = false)
    (plainValue : ∀ byte ∈ value, isOws byte = false) :
    ∀ byte ∈ pairText name value, isOws byte = false := by
  rw [pairText, forall_mem_append, forall_mem_cons]
  exact ⟨plainName, rfl, plainValue⟩

abbrev paramNames : List Bytes := [ascii "for", ascii "by", ascii "proto", ascii "host"]

lemma isValueByte_name (isName : name ∈ paramNames) :
    ∀ byte ∈ name, isOws byte = false ∧ byte ≠ 61 ∧ byte ≠ quote ∧ byte ≠ comma ∧
      byte ≠ semicolon := by
  have names : paramNames.all fun name => name.all fun byte =>
      !isOws byte && byte != 61 && byte != quote && byte != comma && byte != semicolon := by decide
  intro byte mem
  have holds := all_eq_true.mp (all_eq_true.mp names name isName) byte mem
  simpa [and_assoc] using holds

lemma pairText_closed (isName : name ∈ paramNames) (isDelim : delim = comma ∨ delim = semicolon)
    (closed : Closed delim value) : Closed delim (pairText name value) := by
  have plainName : ∀ byte ∈ name, byte ≠ quote ∧ byte ≠ delim := by
    intro byte mem
    have plain := isValueByte_name isName byte mem
    rcases isDelim with rfl | rfl
    · exact ⟨plain.2.2.1, plain.2.2.2.1⟩
    · exact ⟨plain.2.2.1, plain.2.2.2.2⟩
  have notEquals : 61 ≠ delim := by rcases isDelim with rfl | rfl <;> decide
  exact (Closed.of_plain plainName).append (.plain (by decide) notEquals closed)

section Element

variable (identity : PeerIdentity) (localAddr : SocketAddr) (scheme : Scheme)
  (authority : Authority)

lemma writeForValue_notOws : ∀ byte ∈ writeForValue identity, isOws byte = false :=
  quotedIf_notOws (fun byte mem => (writeNode_values _ _ byte mem).1) _

lemma writeByValue_notOws : ∀ byte ∈ writeByValue localAddr, isOws byte = false :=
  quotedIf_notOws (fun byte mem => (writeNode_values _ _ byte mem).1) _

lemma writeHostValue_notOws : ∀ byte ∈ writeHostValue authority, isOws byte = false :=
  quotedIf_notOws (writeTo_values authority) _

lemma asBytes_plain :
    ∀ byte ∈ scheme.asBytes, isOws byte = false ∧ byte ≠ quote ∧ byte ≠ comma ∧
      byte ≠ semicolon := by
  have bytes : scheme.asBytes.all fun byte => !isOws byte && byte != quote && byte != comma &&
      byte != semicolon := by cases scheme <;> decide
  intro byte mem
  simpa [and_assoc] using all_eq_true.mp bytes byte mem

/-- The pairs before `host` are closed for both delimiters. -/
lemma pairs_closed (isDelim : delim = comma ∨ delim = semicolon) :
    Closed delim (pairText (ascii "for") (writeForValue identity)) ∧
      Closed delim (pairText (ascii "by") (writeByValue localAddr)) ∧
      Closed delim (pairText (ascii "proto") scheme.asBytes) := by
  have node : ∀ addr port, delim ∉ writeNode addr port := by
    intro addr port mem
    have plain := writeNode_values addr port delim mem
    rcases isDelim with rfl | rfl
    · exact plain.2.1 rfl
    · exact plain.2.2 rfl
  have schemeClosed : Closed delim scheme.asBytes := .of_plain fun byte mem => by
    have plain := asBytes_plain scheme byte mem
    rcases isDelim with rfl | rfl
    · exact ⟨plain.2.1, plain.2.2.1⟩
    · exact ⟨plain.2.1, plain.2.2.2⟩
  refine ⟨?_, ?_, ?_⟩
  · exact pairText_closed (by simp) isDelim
      (quotedIf_closed (fun byte mem => (writeNode_values _ _ byte mem).1) (.inr (node _ _)))
  · exact pairText_closed (by simp) isDelim
      (quotedIf_closed (fun byte mem => (writeNode_values _ _ byte mem).1) (.inl rfl))
  · exact pairText_closed (by simp) isDelim schemeClosed

lemma writeForwardedElement_notOws :
    ∀ byte ∈ writeForwardedElement identity localAddr scheme authority, isOws byte = false := by
  have name : ∀ name ∈ paramNames, ∀ byte ∈ name, isOws byte = false := fun name isName byte mem =>
    (isValueByte_name isName byte mem).1
  rw [writeForwardedElement_eq, elementText]
  simp only [forall_mem_append, forall_mem_cons]
  refine ⟨?_, rfl, ?_, rfl, ?_, rfl, ?_⟩
  · exact pairText_notOws (name _ (by simp)) (writeForValue_notOws identity)
  · exact pairText_notOws (name _ (by simp)) (writeByValue_notOws localAddr)
  · exact pairText_notOws (name _ (by simp)) fun byte mem =>
    (asBytes_plain scheme byte mem).1
  · exact pairText_notOws (name _ (by simp)) (writeHostValue_notOws authority)

/-- The element is read up to its `host` parameter. -/
lemma parseElement_written (standard : reader.Standard) (notZero : identity.clientPort ≠ some 0) :
    parseElement reader (writeForwardedElement identity localAddr scheme authority) =
      (topLevelSplit semicolon (pairText (ascii "host") (writeHostValue authority))).foldlM
        (takePair reader) (statedBefore identity scheme) := by
  have trimmed :=
    trimOws_of_plain (writeForwardedElement_notOws identity localAddr scheme authority)
  have some : writeForwardedElement identity localAddr scheme authority ≠ [] :=
    cons_ne_nil _ _
  rcases pairs_closed identity localAddr scheme (.inr rfl) with ⟨forPair, byPair, protoPair⟩
  have name : ∀ name ∈ paramNames, ∀ byte ∈ name, isOws byte = false ∧ byte ≠ 61 :=
    fun name isName byte mem =>
      ⟨(isValueByte_name isName byte mem).1, (isValueByte_name isName byte mem).2.1⟩
  unfold parseElement
  rw [trimmed, if_neg some, writeForwardedElement_eq, elementText,
    topLevelSplit_cons (by decide) forPair,
    topLevelSplit_cons (by decide) byPair, topLevelSplit_cons (by decide) protoPair]
  simp only [foldlM_cons]
  rw [takePair_pairText reader _ (name _ (by simp)) (writeForValue_notOws identity),
    takeParam_for _ _ rfl, parseNodeName_writeForValue standard identity notZero]
  simp only [bind, Except.bind]
  rw [takePair_pairText reader _ (name _ (by simp)) (writeByValue_notOws localAddr),
    takeParam_by _ _ rfl]
  simp only
  rw [takePair_pairText reader _ (name _ (by simp)) fun byte mem =>
      (asBytes_plain scheme byte mem).1, takeParam_proto _ _ rfl, parseProto_asBytes]
  rfl

end Element

/-! ## Reading the line -/

/-- A single `Forwarded` line is read element by element. -/
lemma parseInto_single (room : line.length ≤ limits.maxForwardedBytes) :
    ForwardedChain.parseInto reader [line] [] [] limits =
      (topLevelSplit comma line).foldlM (takeForwarded reader limits)
        ⟨[], none, [], line.length⟩ := by
  have ceiling := limits.forwardedBytes
  have charged : chargeBytes limits 0 line.length = .ok line.length := by
    have sum : min (0 + toU32 line.length) (2 ^ 32 - 1) = line.length := by
      unfold toU32
      omega
    simp only [chargeBytes, sum, not_lt.mpr room, ↓reduceIte]
  have once : takeLine (takeForwarded reader limits) limits ⟨[], none, [], 0⟩ line =
      (topLevelSplit comma line).foldlM (takeForwarded reader limits)
        ⟨[], none, [], line.length⟩ := by
    simp only [takeLine, charged, bind, Except.bind]
  rw [ForwardedChain.parseInto, foldlM_cons, once]
  cases (topLevelSplit comma line).foldlM (takeForwarded reader limits)
    ⟨[], none, [], line.length⟩ <;> rfl

lemma takeForwarded_eq_ok {next} {span : Bytes}
    (taken : takeForwarded reader limits chain span = .ok next) :
    ∃ state, parseElement reader span = .ok state ∧
      next.elements = chain.elements ++ [⟨state.node, state.proto, false⟩] ∧
      ∀ hostRaw, state.hostRaw = some hostRaw →
        next.hostClaim = some (toU32 chain.hostBuf.length, toU16 (unquoted hostRaw).length) ∧
        next.hostBuf = chain.hostBuf ++ unquoted hostRaw := by
  rcases bind_eq_ok_iff.mp (of_ite_error taken).2 with ⟨state, parsed, built⟩
  refine ⟨state, parsed, ?_⟩
  cases isHost : state.hostRaw with
  | none =>
    simp only [isHost] at built
    cases built
    exact ⟨rfl, nofun⟩
  | some hostRaw =>
    simp only [isHost] at built
    cases built
    refine ⟨rfl, fun other same => ?_⟩
    cases same
    exact ⟨rfl, rfl⟩

lemma length_foldlM_takeForwarded
    (taken : pieces.foldlM (takeForwarded reader limits) chain = .ok final) :
    final.elements.length = chain.elements.length + pieces.length := by
  induction pieces generalizing chain with
  | nil =>
    cases taken
    rfl
  | cons piece pieces induction =>
    rcases bind_eq_ok_iff.mp taken with ⟨next, first, rest⟩
    rcases takeForwarded_eq_ok first with ⟨state, _, elements, _⟩
    rw [induction rest, elements]
    simp only [length_append, length_cons, length_nil]
    omega

lemma takeParam_keeps_host {next} (seen : state.seenHost = true)
    (taken : takeParam reader state nameLower value = .ok next) :
    next.seenHost = true ∧ next.hostRaw = state.hostRaw := by
  unfold takeParam at taken
  grind

/-- After the first `host` parameter the host stays. -/
lemma foldlM_takePair_keeps_host (seen : state.seenHost = true)
    (taken : pieces.foldlM (takePair reader) state = .ok final) :
    final.hostRaw = state.hostRaw := by
  induction pieces generalizing state with
  | nil =>
    cases taken
    rfl
  | cons piece pieces induction =>
    rcases bind_eq_ok_iff.mp taken with ⟨next, first, rest⟩
    have kept : next.seenHost = true ∧ next.hostRaw = state.hostRaw := by
      unfold takePair at first
      simp only at first
      split at first
      · cases first
      · exact takeParam_keeps_host seen first
    rw [induction kept.1 rest, kept.2]

/-! ## What the upstream reads -/

/-- The emitted line says exactly who the client is, its scheme and its host. -/
def EmitsFaithfully (reader : TextReader) (limits : ClampedLimits) (identity : PeerIdentity)
    (localAddr : SocketAddr) (scheme : Scheme) (authority : Authority) : Prop :=
  ∃ chain, ForwardedChain.parseInto reader
      [writeForwardedElement identity localAddr scheme authority] [] [] limits = .ok chain ∧
    chain.elements = [⟨.addr identity.client identity.clientPort, some scheme, false⟩] ∧
    chain.hostClaimBytes = some authority.writeTo

lemma length_writeTo_le (authority : Authority) : authority.writeTo.length ≤ 1030 := by
  have short := authority.short
  rw [Authority.writeTo, length_append]
  cases authority.port with
  | none =>
    simp only [length_nil]
    omega
  | some port =>
    have digits : ∀ value room, (divisionDigits 10 room value).length ≤ room := by
      intro value room
      induction room generalizing value with
      | zero => exact le_refl 0
      | succ room induction =>
        unfold divisionDigits
        have rest := induction (value / 10)
        split <;> simp only [length_cons, length_nil] <;> omega
    have few := digits port.toNat 5
    simp only [length_cons, length_reverse, length_map]
    omega

section Line

variable (standard : reader.Standard) {identity : PeerIdentity}
  (notZero : identity.clientPort ≠ some 0) {localAddr : SocketAddr} {scheme : Scheme}
  {authority : Authority}

/-- The host's bytes are safe in the line: in quotes, or without delimiters. -/
def HostSafe (authority : Authority) : Prop :=
  authorityNeedsQuote authority = true ∨ comma ∉ authority.host ∧ semicolon ∉ authority.host

lemma writeTo_of_not_quoted (notQuoted : authorityNeedsQuote authority ≠ true) :
    authority.writeTo = authority.host := by
  have noPort : authority.port = none := by
    cases isPort : authority.port with
    | none => rfl
    | some port => exact absurd (by simp [authorityNeedsQuote, isPort]) notQuoted
  simp [Authority.writeTo, noPort]

lemma hostPair_closed (isDelim : delim = comma ∨ delim = semicolon)
    (noDelim : authorityNeedsQuote authority = true ∨ delim ∉ authority.host) :
    Closed delim (pairText (ascii "host") (writeHostValue authority)) := by
  refine pairText_closed (by simp) isDelim (quotedIf_closed (writeTo_values authority) ?_)
  by_cases quoted : authorityNeedsQuote authority = true
  case pos => exact .inl quoted
  case neg =>
    rw [writeTo_of_not_quoted quoted]
    exact .inr (noDelim.resolve_left quoted)

lemma elementText_closed (closed : Closed comma (pairText (ascii "host") host)) :
    Closed comma (elementText identity localAddr scheme host) := by
  rcases pairs_closed identity localAddr scheme (.inl rfl) with ⟨forPair, byPair, protoPair⟩
  exact forPair.append (.plain (by decide) (by decide) (byPair.append (.plain (by decide)
    (by decide) (protoPair.append (.plain (by decide) (by decide) closed)))))

lemma element_closed (noComma : authorityNeedsQuote authority = true ∨ comma ∉ authority.host) :
    Closed comma (writeForwardedElement identity localAddr scheme authority) := by
  rw [writeForwardedElement_eq]
  exact elementText_closed (hostPair_closed (.inl rfl) noComma)

lemma takePair_host (plain : ∀ byte ∈ value, isOws byte = false) :
    takePair reader (statedBefore identity scheme) (pairText (ascii "host") value) =
      .ok { statedBefore identity scheme with seenHost := true, hostRaw := some value } := by
  rw [takePair_pairText reader _ (fun byte mem =>
    ⟨(isValueByte_name (by simp) byte mem).1, (isValueByte_name (by simp) byte mem).2.1⟩)
    plain]
  exact takeParam_host _ _ rfl

lemma hostClaimBytes_of_written (claim : chain.hostClaim = some (toU32 0, toU16 text.length))
    (buffer : chain.hostBuf = text) (short : text.length ≤ 1030) :
    chain.hostClaimBytes = some text := by
  have len : toU16 text.length = text.length := min_eq_left (by omega)
  rw [hostClaimBytes, claim, buffer, len]
  exact slice_append [] text

lemma not_emitsFaithfully_of_comma (notQuoted : authorityNeedsQuote authority ≠ true)
    (hasComma : comma ∈ authority.host)
    (room : (writeForwardedElement identity localAddr scheme authority).length ≤
      limits.maxForwardedBytes) :
    ¬ EmitsFaithfully reader limits identity localAddr scheme authority := by
  rintro ⟨chain, parsed, elements, _⟩
  rcases eq_append_cons_of_mem hasComma with ⟨first, rest, isHost, noComma⟩
  have written : authority.writeTo = first ++ comma :: rest :=
    (writeTo_of_not_quoted notQuoted).trans isHost
  have plainFirst : ∀ byte ∈ first, byte ≠ quote ∧ byte ≠ comma := by
    intro byte mem
    have isValue := writeTo_values authority byte (written ▸ mem_append_left _ mem)
    exact ⟨(isValueByte_iff.mp isValue).1, fun same => noComma (same ▸ mem)⟩
  have closed : Closed comma (elementText identity localAddr scheme first) :=
    elementText_closed (pairText_closed (by simp) (.inl rfl) (.of_plain plainFirst))
  have split : writeForwardedElement identity localAddr scheme authority =
      elementText identity localAddr scheme first ++ comma :: rest := by
    rw [writeForwardedElement_eq]
    simp [elementText, pairText, writeHostValue, quotedIf, notQuoted, written]
  rw [parseInto_single room, split, topLevelSplit_cons (by decide) closed] at parsed
  have count := length_foldlM_takeForwarded parsed
  have more : 0 < (topLevelSplit comma rest).length :=
    length_pos_iff.mpr (topLevelSplitFrom_ne_nil comma false false rest)
  rw [elements, length_singleton, length_nil, length_cons] at count
  omega

include standard notZero

lemma emitsFaithfully_of_hostSafe (safe : HostSafe authority)
    (room : (writeForwardedElement identity localAddr scheme authority).length ≤
      limits.maxForwardedBytes) (oneElement : 1 ≤ limits.maxForwardedElements) :
    EmitsFaithfully reader limits identity localAddr scheme authority := by
  have parsed : parseElement reader (writeForwardedElement identity localAddr scheme authority) =
      .ok { statedBefore identity scheme with
        seenHost := true, hostRaw := some (writeHostValue authority) } := by
    rw [parseElement_written identity localAddr scheme authority standard notZero,
      topLevelSplit_of_closed (hostPair_closed (.inr rfl) (safe.imp_right And.right)),
      foldlM_cons, takePair_host (writeHostValue_notOws authority)]
    rfl
  have text : unquoted (writeHostValue authority) = authority.writeTo :=
    unquoted_quotedIf (writeTo_values authority) _
  have notFull : ¬ limits.maxForwardedElements ≤ 0 := by omega
  unfold EmitsFaithfully
  rw [parseInto_single room, topLevelSplit_of_closed (element_closed (safe.imp_right And.left)),
    foldlM_cons]
  simp only [takeForwarded, length_nil, notFull, ↓reduceIte, parsed, bind, Except.bind, text]
  exact ⟨_, rfl, rfl, hostClaimBytes_of_written rfl rfl (length_writeTo_le authority)⟩

lemma not_emitsFaithfully_of_semicolon (notQuoted : authorityNeedsQuote authority ≠ true)
    (noComma : comma ∉ authority.host) (hasSemicolon : semicolon ∈ authority.host)
    (room : (writeForwardedElement identity localAddr scheme authority).length ≤
      limits.maxForwardedBytes) :
    ¬ EmitsFaithfully reader limits identity localAddr scheme authority := by
  rintro ⟨chain, parsed, _, claim⟩
  rcases eq_append_cons_of_mem hasSemicolon with ⟨first, rest, isHost, noSemicolon⟩
  have written : authority.writeTo = first ++ semicolon :: rest :=
    (writeTo_of_not_quoted notQuoted).trans isHost
  have values : ∀ byte ∈ first, isValueByte byte = true := fun byte mem =>
    writeTo_values authority byte (written ▸ mem_append_left _ mem)
  have notOws : ∀ byte ∈ first, isOws byte = false := fun byte mem =>
    (isValueByte_iff.mp (values byte mem)).2.2
  have pieces : topLevelSplit semicolon (pairText (ascii "host") (writeHostValue authority)) =
      pairText (ascii "host") first :: topLevelSplit semicolon rest := by
    have split : pairText (ascii "host") (writeHostValue authority) =
        pairText (ascii "host") first ++ semicolon :: rest := by
      simp [pairText, writeHostValue, quotedIf, notQuoted, written]
    have closed : Closed semicolon (pairText (ascii "host") first) :=
      pairText_closed (by simp) (.inr rfl) (.of_plain fun byte mem =>
        ⟨(isValueByte_iff.mp (values byte mem)).1, fun same => noSemicolon (same ▸ mem)⟩)
    rw [split, topLevelSplit_cons (by decide) closed]
  rw [parseInto_single room, topLevelSplit_of_closed (element_closed (.inr noComma)),
    foldlM_cons] at parsed
  rcases bind_eq_ok_iff.mp parsed with ⟨next, taken, ended⟩
  cases ended
  rcases takeForwarded_eq_ok taken with ⟨state, element, _, hosts⟩
  rw [parseElement_written identity localAddr scheme authority standard notZero, pieces,
    foldlM_cons, takePair_host notOws] at element
  have kept : state.hostRaw = some first := foldlM_takePair_keeps_host rfl element
  have unchanged : unquoted first = first := unquoted_quotedIf values false
  rcases hosts first kept with ⟨claimed, buffer⟩
  rw [unchanged] at claimed buffer
  have short : first.length ≤ 1030 := by
    have whole := length_writeTo_le authority
    rw [written, length_append, length_cons] at whole
    omega
  rw [hostClaimBytes_of_written claimed buffer short, written, Option.some.injEq] at claim
  have lengths := congrArg length claim
  rw [length_append, length_cons] at lengths
  omega

end Line

/-- The emitted element is read back exactly if the host is safe. -/
theorem emitsFaithfully_iff_hostSafe (reader : TextReader) (standard : reader.Standard)
    (limits : ClampedLimits) (identity : PeerIdentity) (notZero : identity.clientPort ≠ some 0)
    (localAddr : SocketAddr) (scheme : Scheme) (authority : Authority)
    (room : (writeForwardedElement identity localAddr scheme authority).length ≤
      limits.maxForwardedBytes) (oneElement : 1 ≤ limits.maxForwardedElements) :
    EmitsFaithfully reader limits identity localAddr scheme authority ↔
      authorityNeedsQuote authority = true ∨
        comma ∉ authority.host ∧ semicolon ∉ authority.host := by
  constructor
  · intro faithful
    by_cases quoted : authorityNeedsQuote authority = true
    · exact .inl quoted
    · have noComma : comma ∉ authority.host := fun hasComma =>
        not_emitsFaithfully_of_comma quoted hasComma room faithful
      refine .inr ⟨noComma, fun hasSemicolon => ?_⟩
      exact not_emitsFaithfully_of_semicolon standard notZero quoted noComma hasSemicolon room
        faithful
  · intro safe
    exact emitsFaithfully_of_hostSafe standard notZero safe room oneElement

/-- An IPv6 client of a host with a port. -/
theorem quotedClient_emitted :
    let identity : PeerIdentity :=
      ⟨.v6 #v[0x2001, 0xdb8, 0, 0, 0, 0, 0, 1], some 4711, .socket, none, 0, false⟩
    let authority : Authority :=
      ⟨ascii "a,b.example", some 8080, by decide +kernel, by decide +kernel⟩
    EmitsFaithfully lenientReader Limits.default.clamped identity ⟨.v4 #v[10, 0, 0, 1], 80⟩ .http
      authority := by
  intro identity authority
  exact (emitsFaithfully_iff_hostSafe lenientReader lenientReader_standard Limits.default.clamped
    identity (by decide) ⟨.v4 #v[10, 0, 0, 1], 80⟩ .http authority (by decide +kernel)
    (by decide +kernel)).mpr (.inl rfl)

/-- A host with a comma, which is accepted, adds an element of the client's choice. -/
theorem commaHost_injects :
    let identity : PeerIdentity := ⟨.v4 #v[192, 0, 2, 1], none, .socket, none, 0, false⟩
    let localAddr : SocketAddr := ⟨.v4 #v[10, 0, 0, 1], 80⟩
    ∃ authority, Authority.parseInto (ascii "a,for=6.6.6.6") .http Limits.default.clamped =
        .ok authority ∧
      (ForwardedChain.parseInto lenientReader
          [writeForwardedElement identity localAddr .http authority] [] []
          Limits.default.clamped).map elements =
        .ok [⟨.addr (.v4 #v[192, 0, 2, 1]) none, some .http, false⟩,
          ⟨.addr (.v4 #v[6, 6, 6, 6]) none, none, false⟩] ∧
      ¬ EmitsFaithfully lenientReader Limits.default.clamped identity localAddr .http
        authority := by
  intro identity localAddr
  refine ⟨⟨ascii "a,for=6.6.6.6", none, by decide +kernel, by decide +kernel⟩,
    by decide +kernel, by decide +kernel, ?_⟩
  exact not_emitsFaithfully_of_comma (by decide +kernel) (by decide +kernel) (by decide +kernel)

/-- From the line a proxy writes, the next one reads the client that this one saw, if it counts one
hop or trusts the address it is connected to. -/
theorem identity_crosses_hop (reader : TextReader) (standard : reader.Standard)
    (limits : ClampedLimits) (identity : PeerIdentity) (notZero : identity.clientPort ≠ some 0)
    (localAddr : SocketAddr) (scheme : Scheme) (authority : Authority) (safe : HostSafe authority)
    (room : (writeForwardedElement identity localAddr scheme authority).length ≤
      limits.maxForwardedBytes) (oneElement : 1 ≤ limits.maxForwardedElements) :
    ∃ chain, ForwardedChain.parseInto reader
        [writeForwardedElement identity localAddr scheme authority] [] [] limits = .ok chain ∧
      chain.hostClaimBytes = some authority.writeTo ∧ ∀ socketPeer proxyProto,
        resolveIdentity socketPeer proxyProto chain (.hopCount 1) =
          ⟨identity.client, identity.clientPort, .forwardedChain, some scheme, 1, false⟩ ∧
        ∀ cidrs, (∃ cidr ∈ cidrs, cidr.Covers (proxyProto.getD socketPeer).ip) →
          ∃ hops, resolveIdentity socketPeer proxyProto chain (.trustedCidrs cidrs) =
            ⟨identity.client, identity.clientPort, .forwardedChain, some scheme, hops, true⟩ := by
  rcases emitsFaithfully_of_hostSafe standard notZero safe room oneElement with
    ⟨chain, parsed, elements, host⟩
  have oneFamily : chainMixesFamilies chain.elements = false := by
    rw [elements]
    rfl
  have split : chain.elements = [] ++ _ :: [] := elements
  refine ⟨chain, parsed, host, fun socketPeer proxyProto => ⟨?_, fun cidrs covered => ?_⟩⟩
  · rw [resolveIdentity_hop oneFamily split rfl, failClosedIdentity_eq]
    rfl
  · have peerTrusted := peerTrusted_iff.mpr covered
    have trusted :
        TrustPolicy.trusts (.trustedCidrs cidrs) (proxyProto.getD socketPeer).ip = true :=
      trusts_iff.mpr ⟨cidrs, rfl, covered⟩
    by_cases inside : ForwardedElement.Inside cidrs
        ⟨.addr identity.client identity.clientPort, some scheme, false⟩
    · rw [resolveIdentity_leftmost oneFamily peerTrusted elements (by simp) inside,
        failClosedIdentity_eq, trusted]
      exact ⟨_, rfl⟩
    · rw [resolveIdentity_stops oneFamily peerTrusted split (by simp) inside,
        failClosedIdentity_eq, trusted]
      exact ⟨_, rfl⟩

/-- A client is named to the next server through a host that needs quotes, whichever of the two
policies that server has. -/
theorem quotedClient_crosses_hop :
    let client : IpAddr := .v6 #v[0x2001, 0xdb8, 0, 0, 0, 0, 0, 1]
    let range : IpCidr := ⟨.v4 #v[10, 0, 0, 0], 8, by decide⟩
    let proxy : SocketAddr := ⟨.v4 #v[10, 0, 0, 1], 443⟩
    let line := ascii "for=\"[2001:db8::1]:4711\";by=\"10.0.0.1:80\";proto=http;" ++
      ascii "host=\"a,b.example:8080\""
    ∃ chain hops, ForwardedChain.parseInto lenientReader [line] [] [] Limits.default.clamped =
        .ok chain ∧
      resolveIdentity proxy none chain (.hopCount 1) =
        ⟨client, some 4711, .forwardedChain, some .http, 1, false⟩ ∧
      resolveIdentity proxy none chain (.trustedCidrs [range]) =
        ⟨client, some 4711, .forwardedChain, some .http, hops, true⟩ := by
  intro client range proxy line
  rcases identity_crosses_hop lenientReader lenientReader_standard Limits.default.clamped
    ⟨client, some 4711, .socket, none, 0, false⟩ (by decide) ⟨.v4 #v[10, 0, 0, 1], 80⟩ .http
    ⟨ascii "a,b.example", some 8080, by decide +kernel, by decide +kernel⟩ (.inl rfl)
    (by decide +kernel) (by decide +kernel) with ⟨chain, parsed, _, resolves⟩
  rcases resolves proxy none with ⟨byCount, byRange⟩
  have covers : range.Covers proxy.ip := (range.contains_iff _).mp (by decide +kernel)
  rcases byRange [range] ⟨range, mem_singleton_self _, covers⟩ with ⟨hops, resolved⟩
  refine ⟨chain, hops, ?_, byCount, resolved⟩
  rw [← parsed]
  decide +kernel

end IronTraffic.Http
