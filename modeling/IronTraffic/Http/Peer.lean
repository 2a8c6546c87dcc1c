import IronTraffic.Foundation.Split
import IronTraffic.Http.Forwarded

/-! # The client of a request

The client is the socket peer, unless the trust policy finds it in the forwarding chain. The
chain is read from the right, where the trusted hops are, so what a client puts in front of it
does not count.
-/

namespace IronTraffic.Http

open List

inductive TrustPolicy where
  | hopCount (hops : UInt8)
  | trustedCidrs (cidrs : List IpCidr)
  | none

inductive IdentitySource where
  | socket | proxyProtocol | forwardedChain
  deriving DecidableEq

structure PeerIdentity where
  client : IpAddr
  clientPort : Option UInt16
  source : IdentitySource
  forwardedProto : Option Scheme
  trustedHops : Nat
  peerTrusted : Bool
  deriving DecidableEq

def nearestProto (elements : List ForwardedElement) (start : Nat) : Option Scheme :=
  (elements.drop start).findSome? (·.proto)

def chainMixesFamilies (elements : List ForwardedElement) : Bool :=
  elements.any (!·.fromXff) && elements.any (·.fromXff)

def saturateHops (hops : Nat) : Nat := min hops 255

inductive WalkOutcome where
  | failClosed
  | client (index : Nat) (addr : IpAddr) (port : Option UInt16) (trustedHops : Nat)

def walkFrom (elements : List ForwardedElement) (cidrs : List IpCidr) :
    (remaining trustedHops : Nat) → WalkOutcome
  | 0, _ => .failClosed
  | index + 1, trustedHops =>
    match elements[index]? with
    | none => .failClosed
    | some element =>
      match element.node with
      | .addr addr port =>
        if cidrs.any (·.contains addr) then
          let trustedHops := min (trustedHops + 1) (2 ^ 32 - 1)
          if index = 0 then .client 0 addr port (saturateHops trustedHops)
          else walkFrom elements cidrs index trustedHops
        else .client index addr port (saturateHops trustedHops)
      | .unknown | .obfuscated | .absent => .failClosed

def walkTrustedCidrs (elements : List ForwardedElement) (cidrs : List IpCidr) : WalkOutcome :=
  walkFrom elements cidrs elements.length 0

def TrustPolicy.trusts (policy : TrustPolicy) (addr : IpAddr) : Bool :=
  match policy with
  | .trustedCidrs cidrs => cidrs.any (·.contains addr)
  | .hopCount _ | .none => false

def failClosedIdentity (socketPeer : SocketAddr) (proxyProto : Option SocketAddr)
    (policy : TrustPolicy) : PeerIdentity :=
  let (base, source) :=
    match proxyProto with
    | some declared => (declared, IdentitySource.proxyProtocol)
    | none => (socketPeer, IdentitySource.socket)
  ⟨base.ip, some base.port, source, none, 0, policy.trusts base.ip⟩

def resolveIdentity (socketPeer : SocketAddr) (proxyProto : Option SocketAddr)
    (chain : ForwardedChain) (policy : TrustPolicy) : PeerIdentity :=
  let failClosed := failClosedIdentity socketPeer proxyProto policy
  let elements := chain.elements
  match policy with
  | .none => failClosed
  | .hopCount hops =>
    if chainMixesFamilies elements then failClosed
    else if elements.length < hops.toNat then failClosed
    else
      let index := elements.length - hops.toNat
      match elements[index]? with
      | none => failClosed
      | some element =>
        match element.node with
        | .addr addr port =>
          { failClosed with
            client := addr
            clientPort := port
            source := .forwardedChain
            forwardedProto := nearestProto elements index
            trustedHops := hops.toNat }
        | .unknown | .obfuscated | .absent => failClosed
  | .trustedCidrs cidrs =>
    if !failClosed.peerTrusted || elements.isEmpty then failClosed
    else if chainMixesFamilies elements then failClosed
    else
      match walkTrustedCidrs elements cidrs with
      | .failClosed => failClosed
      | .client index addr port trustedHops =>
        { failClosed with
          client := addr
          clientPort := port
          source := .forwardedChain
          forwardedProto := nearestProto elements index
          trustedHops }

/-! ## Reading from the right -/

def ForwardedElement.Inside (cidrs : List IpCidr) (element : ForwardedElement) : Prop :=
  ∃ addr port, element.node = .addr addr port ∧ ∃ cidr ∈ cidrs, cidr.Covers addr

/-- How the policy finds an element with an address in a chain: the elements before it, the
element, the elements after it, and the hops that it counts. -/
inductive Chooses (base : IpAddr) : TrustPolicy → (before : List ForwardedElement) →
    ForwardedElement → (after : List ForwardedElement) → (hops : Nat) → Prop
  | hop {hops : UInt8} {before after : List ForwardedElement} {element : ForwardedElement}
      (distance : after.length + 1 = hops.toNat) :
      Chooses base (.hopCount hops) before element after hops.toNat
  | outside {cidrs : List IpCidr} {before after : List ForwardedElement}
      {element : ForwardedElement} (trusted : ∃ cidr ∈ cidrs, cidr.Covers base)
      (passed : ∀ hop ∈ after, hop.Inside cidrs) (stops : ¬ element.Inside cidrs) :
      Chooses base (.trustedCidrs cidrs) before element after (min after.length 255)
  | leftmost {cidrs : List IpCidr} {after : List ForwardedElement}
      {element : ForwardedElement} (trusted : ∃ cidr ∈ cidrs, cidr.Covers base)
      (passed : ∀ hop ∈ after, hop.Inside cidrs) (inside : element.Inside cidrs) :
      Chooses base (.trustedCidrs cidrs) [] element after (min (after.length + 1) 255)

def PeerIdentity.named (base : PeerIdentity) (addr : IpAddr) (port : Option UInt16)
    (proto : Option Scheme) (hops : Nat) : PeerIdentity :=
  { base with
    client := addr
    clientPort := port
    source := .forwardedChain
    forwardedProto := proto
    trustedHops := hops }

variable {cidrs : List IpCidr} {addr : IpAddr} {hops : Nat} {element : ForwardedElement}
  {before after elements : List ForwardedElement} {socketPeer : SocketAddr}
  {proxyProto : Option SocketAddr} {chain : ForwardedChain} {policy : TrustPolicy}

lemma any_contains_iff : cidrs.any (·.contains addr) = true ↔ ∃ cidr ∈ cidrs, cidr.Covers addr := by
  simp only [any_eq_true, IpCidr.contains_iff]

/-! ## The walk -/

section Walk

lemma walkFrom_inside (hit : elements[index]? = some element) (inside : element.Inside cidrs)
    (notLeftmost : index ≠ 0) :
    walkFrom elements cidrs (index + 1) hops =
      walkFrom elements cidrs index (min (hops + 1) (2 ^ 32 - 1)) := by
  rcases inside with ⟨addr, port, isAddr, covered⟩
  simp only [walkFrom, hit, isAddr, any_contains_iff.mpr covered, ↓reduceIte, notLeftmost]

lemma walkFrom_passes (notLeftmost : start ≠ 0) (count : Nat) (few : hops ≤ 2 ^ 32 - 1)
    (inside : ∀ index < count, ∃ element, elements[start + index]? = some element ∧
      element.Inside cidrs) :
    walkFrom elements cidrs (start + count) hops =
      walkFrom elements cidrs start (min (hops + count) (2 ^ 32 - 1)) := by
  induction count generalizing hops with
  | zero => rw [add_zero, add_zero, min_eq_left few]
  | succ count induction =>
    rcases inside count (Nat.lt_succ_self count) with ⟨element, hit, isInside⟩
    rw [← add_assoc, walkFrom_inside hit isInside (by omega),
      induction (min_le_right _ _) fun index early => inside index (by omega)]
    congr 1
    omega

lemma walkTrustedCidrs_passes (some : before ≠ []) (passed : ∀ hop ∈ after, hop.Inside cidrs) :
    walkTrustedCidrs (before ++ after) cidrs =
      walkFrom (before ++ after) cidrs before.length (min after.length (2 ^ 32 - 1)) := by
  unfold walkTrustedCidrs
  rw [length_append, walkFrom_passes (by simpa using some) _ (by decide), zero_add]
  intro index early
  refine ⟨after[index], ?_, passed _ (getElem_mem early)⟩
  rw [getElem?_append_right (by omega), Nat.add_sub_cancel_left, getElem?_eq_getElem early]

lemma walkTrustedCidrs_stops (passed : ∀ hop ∈ after, hop.Inside cidrs)
    (stops : ¬ element.Inside cidrs) :
    walkTrustedCidrs (before ++ element :: after) cidrs =
      match element.node with
      | .addr addr port => .client before.length addr port (min after.length 255)
      | .unknown | .obfuscated | .absent => .failClosed := by
  have whole : before ++ element :: after = (before ++ [element]) ++ after := by simp
  have hit : ((before ++ [element]) ++ after)[before.length]? = some element := by simp
  rw [whole, walkTrustedCidrs_passes (by simp) passed, length_append, length_singleton]
  simp only [walkFrom, hit]
  cases isNode : element.node with
  | addr addr port =>
    have outside : cidrs.any (·.contains addr) ≠ true := by
      rw [Ne, any_contains_iff]
      exact fun covered => stops ⟨addr, port, isNode, covered⟩
    have hops : saturateHops (min after.length (2 ^ 32 - 1)) = min after.length 255 := by
      unfold saturateHops
      omega
    simp only [outside, Bool.false_eq_true, ↓reduceIte, hops]
  | unknown | obfuscated | absent => rfl

lemma walkTrustedCidrs_leftmost (passed : ∀ hop ∈ after, hop.Inside cidrs)
    (inside : element.Inside cidrs) (isNode : element.node = .addr addr port) :
    walkTrustedCidrs (element :: after) cidrs =
      .client 0 addr port (min (after.length + 1) 255) := by
  rcases inside with ⟨addr', port', isAddr, covered⟩
  cases isNode.symm.trans isAddr
  have hops : saturateHops (min (min after.length (2 ^ 32 - 1) + 1) (2 ^ 32 - 1)) =
      min (after.length + 1) 255 := by
    unfold saturateHops
    omega
  have hit : ([element] ++ after)[0]? = some element := rfl
  rw [← singleton_append, walkTrustedCidrs_passes (by simp) passed]
  simp only [length_singleton, walkFrom, hit, isNode, any_contains_iff.mpr covered,
    ↓reduceIte, hops]

end Walk

/-! ## The resolution -/

section Resolution

lemma chainMixesFamilies_eq_false (oneFamily : ∀ element ∈ elements, element.fromXff = family) :
    chainMixesFamilies elements = false := by
  unfold chainMixesFamilies
  cases family with
  | false =>
    rw [Bool.and_eq_false_iff, any_eq_false, any_eq_false]
    exact .inr fun element mem => by simp [oneFamily element mem]
  | true =>
    rw [Bool.and_eq_false_iff, any_eq_false, any_eq_false]
    exact .inl fun element mem => by simp [oneFamily element mem]

lemma nearestProto_append (before) :
    nearestProto (before ++ element :: after) before.length =
      (element :: after).findSome? (·.proto) := by
  rw [nearestProto, drop_left]

def identityAt (base : PeerIdentity) (element : ForwardedElement)
    (after : List ForwardedElement) (hops : Nat) : PeerIdentity :=
  match element.node with
  | .addr addr port => base.named addr port ((element :: after).findSome? (·.proto)) hops
  | .unknown | .obfuscated | .absent => base

section

variable (oneFamily : chainMixesFamilies chain.elements = false)

include oneFamily

lemma resolveIdentity_hop {hops : UInt8} (split : chain.elements = before ++ element :: after)
    (distance : after.length + 1 = hops.toNat) :
    resolveIdentity socketPeer proxyProto chain (.hopCount hops) =
      identityAt (failClosedIdentity socketPeer proxyProto (.hopCount hops)) element after
        hops.toNat := by
  have long : ¬ chain.elements.length < hops.toNat := by
    rw [split, length_append, length_cons]
    omega
  have index : chain.elements.length - hops.toNat = before.length := by
    rw [split, length_append, length_cons]
    omega
  simp only [resolveIdentity, identityAt, oneFamily, Bool.false_eq_true, ↓reduceIte, long, index]
  simp only [split, nearestProto_append, getElem?_append_right (le_refl _),
    Nat.sub_self, getElem?_cons_zero]
  rfl

section

variable (trusted : (failClosedIdentity socketPeer proxyProto (.trustedCidrs cidrs)).peerTrusted)

include trusted

lemma resolveIdentity_walk (some : chain.elements ≠ []) :
    resolveIdentity socketPeer proxyProto chain (.trustedCidrs cidrs) =
      match walkTrustedCidrs chain.elements cidrs with
      | .failClosed => failClosedIdentity socketPeer proxyProto (.trustedCidrs cidrs)
      | .client index addr port hops =>
        (failClosedIdentity socketPeer proxyProto (.trustedCidrs cidrs)).named addr port
          (nearestProto chain.elements index) hops := by
  unfold resolveIdentity
  simp only [trusted, Bool.not_true, Bool.false_or, List.isEmpty_iff, some, ↓reduceIte,
    oneFamily, Bool.false_eq_true, PeerIdentity.named]

lemma resolveIdentity_stops (split : chain.elements = before ++ element :: after)
    (passed : ∀ hop ∈ after, hop.Inside cidrs) (stops : ¬ element.Inside cidrs) :
    resolveIdentity socketPeer proxyProto chain (.trustedCidrs cidrs) =
      identityAt (failClosedIdentity socketPeer proxyProto (.trustedCidrs cidrs)) element after
        (min after.length 255) := by
  rw [resolveIdentity_walk oneFamily trusted (by rw [split]; simp), split,
    walkTrustedCidrs_stops passed stops]
  unfold identityAt
  cases element.node with
  | addr addr port => simp only [nearestProto_append]
  | unknown | obfuscated | absent => rfl

lemma resolveIdentity_leftmost (split : chain.elements = element :: after)
    (passed : ∀ hop ∈ after, hop.Inside cidrs) (inside : element.Inside cidrs) :
    resolveIdentity socketPeer proxyProto chain (.trustedCidrs cidrs) =
      identityAt (failClosedIdentity socketPeer proxyProto (.trustedCidrs cidrs)) element after
        (min (after.length + 1) 255) := by
  rcases id inside with ⟨addr, port, isNode, _⟩
  rw [resolveIdentity_walk oneFamily trusted (by rw [split]; simp), split,
    walkTrustedCidrs_leftmost passed inside isNode]
  simp only [identityAt, isNode, nearestProto, drop_zero]

end

end

/-- The base identity: the address that the PROXY header declares, else the socket's. -/
lemma failClosedIdentity_eq :
    failClosedIdentity socketPeer proxyProto policy =
      ⟨(proxyProto.getD socketPeer).ip, some (proxyProto.getD socketPeer).port,
        if proxyProto.isSome then .proxyProtocol else .socket, none, 0,
        policy.trusts (proxyProto.getD socketPeer).ip⟩ := by
  cases proxyProto <;> rfl

lemma trusts_iff :
    policy.trusts addr ↔
      ∃ cidrs, policy = .trustedCidrs cidrs ∧ ∃ cidr ∈ cidrs, cidr.Covers addr := by
  cases policy <;> simp [TrustPolicy.trusts, IpCidr.contains_iff]

lemma peerTrusted_iff :
    (failClosedIdentity socketPeer proxyProto (.trustedCidrs cidrs)).peerTrusted ↔
      ∃ cidr ∈ cidrs, cidr.Covers (proxyProto.getD socketPeer).ip := by
  rw [failClosedIdentity_eq]
  exact any_contains_iff

end Resolution

/-- What a chain needs for a policy to decide inside it: enough elements, or one at which the
walk ends. -/
def TrustPolicy.DecidesWithin (policy : TrustPolicy) (elements : List ForwardedElement) : Prop :=
  match policy with
  | .hopCount hops => hops.toNat ≤ elements.length
  | .trustedCidrs cidrs => ∃ element ∈ elements, ¬ element.Inside cidrs
  | .none => True

lemma resolveIdentity_of_chooses (split : chain.elements = before ++ element :: after)
    (oneFamily : chainMixesFamilies chain.elements = false)
    (chooses : Chooses (proxyProto.getD socketPeer).ip policy before element after hops) :
    resolveIdentity socketPeer proxyProto chain policy =
      identityAt (failClosedIdentity socketPeer proxyProto policy) element after hops := by
  cases chooses with
  | hop distance => exact resolveIdentity_hop oneFamily split distance
  | outside trusted passed stops =>
    exact resolveIdentity_stops oneFamily (peerTrusted_iff.mpr trusted) split passed stops
  | leftmost trusted passed inside =>
    exact resolveIdentity_leftmost oneFamily (peerTrusted_iff.mpr trusted) split passed inside

lemma exists_split_of_le (some : hops ≠ 0) (long : hops ≤ elements.length) :
    ∃ before element after, elements = before ++ element :: after ∧ after.length + 1 = hops := by
  refine ⟨elements.take (elements.length - hops), elements[elements.length - hops],
    elements.drop (elements.length - hops + 1), ?_, ?_⟩
  · rw [getElem_cons_drop, take_append_drop]
  · rw [length_drop]
    omega

lemma resolveIdentity_of_not_chooses (oneFamily : chainMixesFamilies chain.elements = false)
    (none : ¬ ∃ before element after hops addr port, chain.elements = before ++ element :: after ∧
      Chooses (proxyProto.getD socketPeer).ip policy before element after hops ∧
      element.node = .addr addr port) :
    resolveIdentity socketPeer proxyProto chain policy =
      failClosedIdentity socketPeer proxyProto policy := by
  -- An element that the policy chooses has no address.
  have atChosen : ∀ {before after : List ForwardedElement} {element : ForwardedElement}
      {hops : Nat}, chain.elements = before ++ element :: after →
      Chooses (proxyProto.getD socketPeer).ip policy before element after hops →
      resolveIdentity socketPeer proxyProto chain policy =
        failClosedIdentity socketPeer proxyProto policy := by
    intro before after element hops split chooses
    rw [resolveIdentity_of_chooses split oneFamily chooses]
    unfold identityAt
    cases isNode : element.node with
    | addr addr port => exact absurd ⟨_, _, _, _, addr, port, split, chooses, isNode⟩ none
    | unknown | obfuscated | absent => rfl
  cases policy with
  | none => rfl
  | hopCount hops =>
    by_cases short : chain.elements.length < hops.toNat
    · simp only [resolveIdentity, oneFamily, short, Bool.false_eq_true, ↓reduceIte]
    · by_cases zero : hops.toNat = 0
      case pos => simp [resolveIdentity, zero]
      case neg =>
        rcases exists_split_of_le zero (not_lt.mp short) with
          ⟨before, element, after, split, distance⟩
        exact atChosen split (.hop distance)
  | trustedCidrs cidrs =>
    by_cases trusted :
        (failClosedIdentity socketPeer proxyProto (.trustedCidrs cidrs)).peerTrusted = true
    · have covered := peerTrusted_iff.mp trusted
      rcases forall_or_exists_last (·.Inside cidrs) chain.elements with
        all | ⟨before, element, after, split, stops, passed⟩
      · cases split : chain.elements with
        | nil => simp only [resolveIdentity, split, isEmpty_nil, Bool.or_true, ↓reduceIte]
        | cons element after =>
          rw [split, forall_mem_cons] at all
          exact atChosen split (.leftmost covered all.2 all.1)
      · exact atChosen split (.outside covered passed stops)
    · simp only [resolveIdentity, trusted, Bool.not_false, Bool.true_or, ↓reduceIte]

lemma resolveIdentity_padded (isPadded : padded.elements = padding ++ chain.elements)
    (oneFamily : chainMixesFamilies chain.elements = false)
    (paddedFamily : chainMixesFamilies padded.elements = false)
    (decides : policy.DecidesWithin chain.elements) :
    resolveIdentity socketPeer proxyProto padded policy =
      resolveIdentity socketPeer proxyProto chain policy := by
  cases policy with
  | none => rfl
  | hopCount hops =>
    by_cases zero : hops.toNat = 0
    · simp [resolveIdentity, zero]
    · rcases exists_split_of_le zero decides with ⟨before, element, after, split, distance⟩
      have paddedSplit : padded.elements = (padding ++ before) ++ element :: after := by
        rw [isPadded, split, append_assoc]
      rw [resolveIdentity_hop oneFamily split distance,
        resolveIdentity_hop paddedFamily paddedSplit distance]
  | trustedCidrs cidrs =>
    by_cases trusted :
        (failClosedIdentity socketPeer proxyProto (.trustedCidrs cidrs)).peerTrusted = true
    · rcases forall_or_exists_last (·.Inside cidrs) chain.elements with
        all | ⟨before, element, after, split, stops, passed⟩
      · rcases decides with ⟨element, mem, stops⟩
        exact absurd (all element mem) stops
      · have paddedSplit : padded.elements = (padding ++ before) ++ element :: after := by
          rw [isPadded, split, append_assoc]
        rw [resolveIdentity_stops oneFamily trusted split passed stops,
          resolveIdentity_stops paddedFamily trusted paddedSplit passed stops]
    · simp only [resolveIdentity, trusted, Bool.not_false, Bool.true_or, ↓reduceIte]

/-- Identity resolution reads the chain from the right: it answers with the element that the
policy chooses, else with the address the PROXY header declares or, without one, the socket's.
Elements in front of a chain in which the policy decides change nothing. -/
theorem resolveIdentity_rightToLeft (socketPeer : SocketAddr) (proxyProto : Option SocketAddr)
    (chain : ForwardedChain) (policy : TrustPolicy) (family : Bool)
    (oneFamily : ∀ element ∈ chain.elements, element.fromXff = family) :
    ∃ peerTrusted : Bool,
      (peerTrusted ↔ ∃ cidrs, policy = .trustedCidrs cidrs ∧
        ∃ cidr ∈ cidrs, cidr.Covers (proxyProto.getD socketPeer).ip) ∧
      (∀ before element after hops addr port, chain.elements = before ++ element :: after →
        Chooses (proxyProto.getD socketPeer).ip policy before element after hops →
        element.node = .addr addr port →
        resolveIdentity socketPeer proxyProto chain policy =
          ⟨addr, port, .forwardedChain, (element :: after).findSome? (·.proto), hops,
            peerTrusted⟩) ∧
      ((¬ ∃ before element after hops addr port, chain.elements = before ++ element :: after ∧
          Chooses (proxyProto.getD socketPeer).ip policy before element after hops ∧
          element.node = .addr addr port) →
        resolveIdentity socketPeer proxyProto chain policy =
          ⟨(proxyProto.getD socketPeer).ip, some (proxyProto.getD socketPeer).port,
            if proxyProto.isSome then .proxyProtocol else .socket, none, 0, peerTrusted⟩) ∧
      ∀ (padding : List ForwardedElement) (padded : ForwardedChain),
        padded.elements = padding ++ chain.elements →
        (∀ element ∈ padding, element.fromXff = family) → policy.DecidesWithin chain.elements →
        resolveIdentity socketPeer proxyProto padded policy =
          resolveIdentity socketPeer proxyProto chain policy := by
  have notMixed := chainMixesFamilies_eq_false oneFamily
  refine ⟨_, trusts_iff, ?_, ?_, ?_⟩
  · intro before element after hops addr port split chooses isNode
    rw [resolveIdentity_of_chooses split notMixed chooses, failClosedIdentity_eq]
    simp only [identityAt, isNode, PeerIdentity.named]
  · intro none
    rw [resolveIdentity_of_not_chooses notMixed none, failClosedIdentity_eq]
  · intro padding padded isPadded sameFamily decides
    have paddedFamily : ∀ element ∈ padded.elements, element.fromXff = family := by
      rw [isPadded]
      exact forall_mem_append.mpr ⟨sameFamily, oneFamily⟩
    exact resolveIdentity_padded isPadded notMixed (chainMixesFamilies_eq_false paddedFamily)
      decides

/-- A client behind one trusted proxy, and what it claims in front. -/
theorem trustedProxy_resolved :
    let client : ForwardedElement := ⟨.addr (.v4 #v[203, 0, 113, 9]) none, none, true⟩
    let proxy : ForwardedElement := ⟨.addr (.v4 #v[10, 0, 0, 1]) none, some .https, true⟩
    let claimed : ForwardedElement := ⟨.addr (.v4 #v[127, 0, 0, 1]) none, none, true⟩
    let peer : SocketAddr := ⟨.v4 #v[192, 0, 2, 1], 443⟩
    let declared : SocketAddr := ⟨.v4 #v[10, 0, 0, 2], 443⟩
    let range : IpCidr := ⟨.v4 #v[10, 0, 0, 0], 8, by decide⟩
    resolveIdentity peer declared ⟨[claimed, client, proxy], none, [], 0⟩ (.trustedCidrs [range]) =
      ⟨.v4 #v[203, 0, 113, 9], none, .forwardedChain, some .https, 1, true⟩ := by
  intro client proxy claimed peer declared range
  have covered : ∀ addr, range.contains addr = true → ∃ cidr ∈ [range], cidr.Covers addr :=
    fun addr holds => ⟨range, mem_singleton_self _, (range.contains_iff addr).mp holds⟩
  have outside : ¬ client.Inside [range] := by
    rintro ⟨addr, port, isAddr, cidr, mem, covers⟩
    cases isAddr
    rw [mem_singleton] at mem
    subst mem
    exact absurd ((range.contains_iff _).mpr covers) (by decide +kernel)
  have passed : ∀ hop ∈ [proxy], hop.Inside [range] := by
    intro hop mem
    rw [mem_singleton] at mem
    subst mem
    exact ⟨_, _, rfl, covered _ (by decide +kernel)⟩
  rcases resolveIdentity_rightToLeft peer declared ⟨[client, proxy], none, [], 0⟩
    (.trustedCidrs [range]) true (by decide) with ⟨peerTrusted, isTrusted, chosen, _, padded⟩
  have declaredInside : ∃ cidr ∈ [range], cidr.Covers declared.ip := covered _ (by decide +kernel)
  have trusted : peerTrusted = true := isTrusted.mpr ⟨_, rfl, declaredInside⟩
  rw [padded [claimed] ⟨[claimed, client, proxy], none, [], 0⟩ rfl (by decide)
    ⟨client, mem_cons_self, outside⟩]
  rw [chosen [] client [proxy] _ _ _ rfl (.outside declaredInside passed outside) rfl, trusted]
  decide +kernel

end IronTraffic.Http
