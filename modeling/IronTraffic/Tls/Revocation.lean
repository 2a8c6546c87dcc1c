import IronTraffic.Tls.Flushing
import IronTraffic.Tls.Ocsp

/-! # Revoked certificates

A response that reports a credential revoked makes the updater return the removal of the
names in its certificate. The removal takes the credential out of service if it is accepted,
and it is accepted only if all those names are plain ones.
-/

namespace IronTraffic.Tls

open List hiding after

open CertUpdateCoalescer CertIndexBuilder

variable {hashing : Hashing} {heap : Heap}

/-! ## The updater -/

variable {tracked : Tracked} {positions : List Nat} {updater : OcspUpdater}
  {certs : CertIndexBuilder} {names : List Bytes} {coalescer : CertUpdateCoalescer}

namespace OcspUpdater

/-- A tracked entry describes its credential, which may have got new staples since. -/
structure Describes (heap : Heap) (tracked : Tracked) : Prop where
  fingerprint : tracked.fingerprint = (heap tracked.cred).fingerprint
  names : tracked.names = (heap tracked.cred).sanDnsNames

def Faithful (heap : Heap) (entries : List Tracked) : Prop :=
  ∀ tracked ∈ entries, Describes heap tracked

variable {responder : Responder heap} {cfg : OcspConfig} {now draws : Nat}

lemma validateStaple_of_ask (answered : ask responder now draws tracked = .stapled response info) :
    ∃ nonce, responder.validateStaple response (heap tracked.cred) nonce now = .ok info := by
  unfold ask at answered
  split at answered
  case h_1 => cases answered
  case h_2 =>
    simp only at answered
    split at answered
    case h_1 => cases answered
    case h_2 =>
      split at answered
      · cases answered
      split at answered
      case h_1 => cases answered
      case h_2 =>
        split at answered
        case h_1 checked =>
          cases answered
          exact ⟨_, checked⟩
        case h_2 => cases answered
        case h_3 => cases answered

lemma describes_settle (describes : Describes heap tracked) (turn : Nat) :
    Describes heap (settle responder cfg now turn tracked (ask responder now draws tracked)) := by
  cases answered : ask responder now draws tracked with
  | stapled response info =>
    rcases validateStaple_of_ask answered with ⟨nonce, checked⟩
    have stapled := responder.restaple_spec tracked.cred response nonce now info checked
    refine ⟨?_, ?_⟩
    · show tracked.fingerprint = (heap (responder.restaple tracked.cred response)).fingerprint
      rw [stapled]
      exact describes.fingerprint
    · show tracked.names = (heap (responder.restaple tracked.cred response)).sanDnsNames
      rw [stapled]
      exact describes.names
  | noUrl => exact describes
  | hopeless | failure | revoked => exact ⟨describes.fingerprint, describes.names⟩

lemma faithful_attempt (faithful : Faithful heap state.tracked) (spot : Nat) :
    Faithful heap (attempt responder cfg now state spot).tracked := by
  unfold attempt
  cases hit : state.tracked[spot]? with
  | none => exact faithful
  | some tracked =>
    intro other mem
    rcases mem_or_eq_of_mem_set mem with old | new
    · exact faithful other old
    · rw [new]
      exact describes_settle (faithful tracked (mem_of_getElem? hit)) _

lemma faithful_attempts :
    ∀ {state : TickState}, Faithful heap state.tracked →
      Faithful heap (positions.foldl (attempt responder cfg now) state).tracked := by
  induction positions with
  | nil => exact fun faithful => faithful
  | cons spot positions induction =>
    exact fun faithful => induction (faithful_attempt faithful spot)

lemma updates_attempts :
    ∀ {state : TickState}, ∀ update ∈ state.updates,
      update ∈ (positions.foldl (attempt responder cfg now) state).updates := by
  induction positions with
  | nil => exact fun update mem => mem
  | cons spot positions induction =>
    intro state update mem
    refine induction update ?_
    unfold attempt
    cases state.tracked[spot]? with
    | none => exact mem
    | some tracked => exact mem_append_left _ mem

inductive Reachable (heap : Heap) : OcspUpdater → Prop where
  | new (cfg : OcspConfig) : Reachable heap (.new cfg)
  | track {updater : OcspUpdater} (cred : Address) (aiaUrl : Option Bytes) (now : Nat) :
      Reachable heap updater → Reachable heap (updater.track heap cred aiaUrl now)
  | untrack {updater : OcspUpdater} (fingerprint : CertFingerprint) :
      Reachable heap updater → Reachable heap (updater.untrack fingerprint)
  | tick {updater : OcspUpdater} (responder : Responder heap) (now : Nat) :
      Reachable heap updater → Reachable heap (updater.tick responder now).1

lemma Reachable.faithful (reachable : Reachable heap updater) : Faithful heap updater.tracked := by
  induction reachable with
  | new cfg =>
    intro tracked mem
    cases mem
  | @track updater cred aiaUrl now _ induction =>
    unfold OcspUpdater.track
    simp only
    split
    · exact induction
    · intro tracked mem
      rcases mem_append.mp mem with old | new
      · exact induction tracked old
      · rw [mem_singleton.mp new]
        exact ⟨rfl, rfl⟩
  | untrack fingerprint _ induction =>
    intro tracked mem
    exact induction tracked (mem_filter.mp mem).1
  | tick responder now _ induction =>
    intro tracked mem
    rcases mem_map.mp mem with ⟨before, inside, rfl⟩
    have describes := faithful_attempts induction before inside
    unfold sweep
    split
    · exact ⟨describes.fingerprint, describes.names⟩
    · exact describes

/-- In this tick a validated response reports the credential revoked. -/
def Reports (responder : Responder heap) (updater : OcspUpdater) (now : Nat) (cred : Address) :
    Prop :=
  ∃ earlier spot later, updater.due now = earlier ++ spot :: later ∧
    let state := earlier.foldl (attempt responder updater.cfg now) ⟨updater.tracked, [], 0⟩
    ∃ tracked, state.tracked[spot]? = some tracked ∧
      tracked.fingerprint = (heap cred).fingerprint ∧
      ask responder now state.draws tracked = .revoked

lemma remove_mem_of_reports
    (digest : ∀ left right, (heap left).fingerprint = (heap right).fingerprint →
      (heap left).sanDnsNames = (heap right).sanDnsNames) (reachable : Reachable heap updater)
    (reports : Reports responder updater now cred) :
    CertUpdate.remove (heap cred).sanDnsNames ∈ (updater.tick responder now).2 := by
  rcases reports with ⟨earlier, spot, later, isDue, tracked, hit, isCred, revoked⟩
  have describes := faithful_attempts reachable.faithful tracked (mem_of_getElem? hit)
  have names : tracked.names = (heap cred).sanDnsNames :=
    describes.names.trans (digest _ _ (describes.fingerprint.symm.trans isCred))
  refine mem_append_left _ ?_
  rw [isDue, foldl_append, foldl_cons]
  refine updates_attempts _ ?_
  generalize earlier.foldl (attempt responder updater.cfg now) ⟨updater.tracked, [], 0⟩ =
    state at hit revoked
  rw [attempt, hit]
  simp only
  rw [revoked, ← names]
  exact mem_append_right _ mem_cons_self

end OcspUpdater

/-! ## The store -/

/-- A builder whose entries of a credential are all allowed, and whose default it is not. -/
structure Confined (cred : Address) (Allowed : PendingEntry → Prop) (certs : CertIndexBuilder) :
    Prop where
  entries : ∀ entry ∈ certs.entries, entry.cred = cred → Allowed entry
  default : certs.defaultCred ≠ some cred

variable {cred : Address} {Allowed : PendingEntry → Prop}

lemma Confined.append (confined : Confined cred Allowed certs)
    (others : ∀ entry ∈ added, entry.cred ≠ cred) :
    Confined cred Allowed { certs with entries := certs.entries ++ added } where
  entries := by
    intro entry mem isCred
    rcases mem_append.mp mem with old | new
    · exact confined.entries entry old isCred
    · exact absurd isCred (others entry new)
  default := confined.default

lemma Confined.remove (confined : Confined cred Allowed certs) (name : Bytes) :
    Confined cred Allowed (certs.remove heap name) where
  entries := fun entry mem => confined.entries entry (mem_remove.mp mem).1
  default := by
    unfold CertIndexBuilder.remove
    cases normalize name with
    | error error => exact confined.default
    | ok normalized =>
      intro isCred
      exact confined.default (Option.filter_eq_some_iff.mp isCred).1

lemma Confined.remove_all :
    ∀ {certs : CertIndexBuilder}, Confined cred Allowed certs →
      Confined cred Allowed (certs.removeAll heap names) := by
  induction names with
  | nil => exact fun confined => confined
  | cons name names induction => exact fun confined => induction (confined.remove name)

lemma Confined.apply (confined : Confined cred Allowed builders.certs)
    (other : update.publishedCred ≠ some cred) (applied : apply heap builders update = .ok after) :
    Confined cred Allowed after.certs := by
  cases applied_of_ok applied with
  | install exact wildcard published =>
    have apart : published ≠ cred := fun same => other (congrArg some same)
    exact confined.append fun entry new same => apart ((mem_installedEntries new).1 ▸ same)
  | replace fingerprint published =>
    have apart : published ≠ cred := fun same => other (congrArg some same)
    refine ⟨?_, confined.default⟩
    intro entry mem isCred
    rcases mem_map.mp mem with ⟨old, present, rfl⟩
    by_cases replaced : (heap old.cred).fingerprint = fingerprint
    · rw [if_pos replaced] at isCred
      exact absurd isCred apart
    · rw [if_neg replaced] at isCred ⊢
      exact confined.entries old present isCred
  | remove names => exact confined.remove_all
  | setDefault published => exact ⟨confined.entries, other⟩
  | _ => exact confined

lemma Confined.foldlM {updates : List CertUpdate} (confined : Confined cred Allowed builders.certs)
    (others : ∀ update ∈ updates, update.publishedCred ≠ some cred)
    (gave : updates.foldlM (CertUpdateCoalescer.apply heap) builders = .ok after) :
    Confined cred Allowed after.certs := by
  refine foldlM_keeps gave ?_ confined
  exact fun update mem _ _ before applied => before.apply (others update mem) applied

lemma resolve_ne_of_confined
    (built : builder.buildWithGeneration hashing heap entropy generation = .ok index)
    (confined : Confined cred (fun _ => False) builder) (sni : Bytes) (caps) :
    index.resolve hashing sni caps ≠ some cred := by
  rw [resolve_of_build built]
  intro answered
  rcases selection_eq_some answered with isDefault | ⟨entry, mem, isCred⟩
  · exact confined.default isDefault
  · exact confined.entries entry mem isCred

/-! ## The names of a certificate -/

/-- The entries that `upsert_from_sans` makes of a credential. -/
def sanEntries (heap : Heap) (cred : Address) : List PendingEntry :=
  ((new []).upsertFromSans heap cred).1.entries

lemma normalize_starDot (wild : startsWithStarDot raw) (name : Bytes) :
    normalize raw ≠ .ok name := by
  unfold startsWithStarDot at wild
  split at wild
  case h_2 => cases wild
  case h_1 rest =>
    have first : ∃ others, stripDot (42 :: 46 :: rest) = 42 :: others := by
      unfold stripDot
      split
      · exact ⟨_, rfl⟩
      · exact ⟨_, rfl⟩
    rcases first with ⟨others, first⟩
    intro accepted
    unfold normalize at accepted
    rw [first] at accepted
    cases (of_ite_error (of_ite_error accepted).2).2

lemma name_of_mem_sanEntries
    (plain : ∀ san ∈ (heap cred).sanDnsNames, ∃ name, normalize san = .ok name)
    (mem : entry ∈ sanEntries heap cred) :
    ∃ san ∈ (heap cred).sanDnsNames, normalize san = .ok entry.name := by
  have loop : ∀ (names : List Bytes)
      (state : CertIndexBuilder × SanIndexReport),
      (∀ san ∈ names, san ∈ (heap cred).sanDnsNames) →
      (∀ entry ∈ state.1.entries, ∃ san ∈ (heap cred).sanDnsNames, normalize san = .ok entry.name) →
      ∀ entry ∈ (names.foldl (upsertSan cred) state).1.entries,
        ∃ san ∈ (heap cred).sanDnsNames, normalize san = .ok entry.name := by
    intro names
    induction names with
    | nil => exact fun _ _ before => before
    | cons san names induction =>
      intro state within before
      refine induction _ (fun other mem => within other (mem_cons_of_mem _ mem)) ?_
      have here := within san mem_cons_self
      rcases plain san here with ⟨name, accepted⟩
      have notWild : startsWithStarDot san = false :=
        Bool.eq_false_of_not_eq_true fun wild => normalize_starDot wild name accepted
      have valid : normalizeName san = .ok name := by
        rw [normalizeName, accepted]
        rfl
      unfold upsertSan
      rw [notWild, if_neg Bool.false_ne_true, upsertExact_of_normalize valid]
      intro entry inside
      rcases mem_append.mp inside with old | new
      · exact before entry old
      · rw [mem_singleton.mp new]
        exact ⟨san, here, accepted⟩
  exact loop _ (.new [], _) (fun _ inside => inside) (by simp [CertIndexBuilder.new]) entry
    mem

lemma submit_remove_iff :
    (∃ accepted, coalescer.submit heap (.remove names) = .ok accepted) ↔
      ∀ raw ∈ names, ∃ name, normalize raw = .ok name := by
  have checks : (CertUpdate.remove names).validate = .ok () ↔
      ∀ raw ∈ names, ∃ name, normalize raw = .ok name := by
    rw [CertUpdate.validate, forM_eq_ok_iff]
    refine forall₂_congr fun raw _ => ?_
    unfold normalizeName
    cases normalize raw with
    | ok name => exact iff_of_true rfl ⟨name, rfl⟩
    | error error => simp [Except.mapError, Except.map]
  rw [← checks]
  constructor
  · rintro ⟨accepted, gave⟩
    exact (submit_inv gave).1
  · intro valid
    rw [submit, valid]
    exact ⟨_, rfl⟩

lemma submitAll_subset (gave : submitAll heap updates coalescer = .ok after) :
    ∀ update ∈ after.pending, update ∈ coalescer.pending ++ updates := by
  refine foldlM_keeps gave ?_ (fun _ mem => mem_append_left _ mem)
  intro update mem state next before accepted other inside
  rcases submit_inv accepted with ⟨_, rfl⟩
  rcases mem_append.mp ((pendingAfter_sublist state update).subset inside) with old | new
  · exact before other old
  · rw [mem_singleton.mp new]
    exact mem_append_right _ mem

/-- A credential that is in the published store under the names of its certificate only,
and is reported revoked, leaves the store with the next flush exactly when all those names
are plain: with any other name the removal is refused. -/
theorem revocation_effective_iff {coalescer : CertUpdateCoalescer}
    {startCerts : CertIndexBuilder} {entropy : Nat → Option HashKey} {generation now : Nat}
    {updater : OcspUpdater} {responder : Responder heap}
    (builtCerts : startCerts.buildWithGeneration hashing heap entropy generation =
      .ok coalescer.material.certs)
    (fromSans : ∀ entry ∈ startCerts.entries, entry.cred = cred → entry ∈ sanEntries heap cred)
    (notDefault : startCerts.defaultCred ≠ some cred)
    (notPending : ∀ update ∈ coalescer.pending, update.publishedCred ≠ some cred)
    (digest : ∀ left right, (heap left).fingerprint = (heap right).fingerprint →
      (heap left).sanDnsNames = (heap right).sanDnsNames)
    (reachable : OcspUpdater.Reachable heap updater)
    (reports : OcspUpdater.Reports responder updater now cred) :
    CertUpdate.remove (heap cred).sanDnsNames ∈ (updater.tick responder now).2 ∧
    ((∃ accepted, coalescer.submit heap (.remove (heap cred).sanDnsNames) = .ok accepted ∧
        ∀ later collected around flushed, (∀ update ∈ later, update.publishedCred ≠ some cred) →
          submitAll heap later accepted = .ok collected →
          collected.flushNow hashing heap around = .ok flushed →
          ∀ sni caps, flushed.material.certs.resolve hashing sni caps ≠ some cred) ↔
      ∀ san ∈ (heap cred).sanDnsNames, ∃ name, normalize san = .ok name) := by
  refine ⟨OcspUpdater.remove_mem_of_reports digest reachable reports, ?_⟩
  constructor
  · rintro ⟨accepted, submitted, _⟩
    exact submit_remove_iff.mp ⟨accepted, submitted⟩
  intro plain
  rcases submit_remove_iff.mpr plain with ⟨accepted, submitted⟩
  refine ⟨accepted, submitted, ?_⟩
  intro later collected around flushed others submittedLater gave
  have submittedAll : submitAll heap (.remove (heap cred).sanDnsNames :: later) coalescer =
      .ok collected := by
    unfold submitAll at submittedLater ⊢
    rw [foldlM_cons, submitted]
    exact submittedLater
  rcases submitAll_keeps submittedAll rfl (nil_append _).symm with
    ⟨before, behind, isPending, within⟩
  have othersBefore : ∀ update ∈ before, update.publishedCred ≠ some cred := by
    intro update mem
    have inside : update ∈ collected.pending := by
      rw [isPending]
      exact mem_append_left _ mem
    rcases mem_append.mp (submitAll_subset submittedAll update inside) with old | new
    · exact notPending update old
    · rcases mem_cons.mp new with isRemoval | isLater
      · rw [isRemoval]
        exact nofun
      · exact others update isLater
  have pending : collected.pending ≠ [] := by
    rw [isPending]
    simp
  rcases (flushNow_ok_iff pending).mp gave with
    ⟨builders, certs, challenge, applied, built, _, equal⟩
  rw [submitAll_material submittedAll, isPending, foldlM_append] at applied
  rcases bind_eq_ok_iff.mp applied with ⟨middle, appliedBefore, applied⟩
  rcases bind_eq_ok_iff.mp applied with ⟨removed, isRemoved, appliedBehind⟩
  have start : Confined cred (fun entry => entry ∈ sanEntries heap cred)
      (startBuilders coalescer.material around.now).certs := by
    rcases built_of_build builtCerts with ⟨index, default⟩
    refine ⟨?_, ?_⟩
    · intro entry mem isCred
      have rebuilt : entry ∈ coalescer.material.certs.rebuildEntries := mem
      rw [index.rebuildEntries] at rebuilt
      exact fromSans entry (mem_of_mem_groupsOf rebuilt) isCred
    · show coalescer.material.certs.defaultCred ≠ some cred
      rw [default]
      exact notDefault
  have confined := start.foldlM othersBefore appliedBefore
  have gone : Confined cred (fun _ => False) removed.certs := by
    cases isRemoved
    refine ⟨?_, confined.remove_all.default⟩
    intro entry mem isCred
    rcases mem_remove_all.mp mem with ⟨inMiddle, notNamed⟩
    rcases name_of_mem_sanEntries plain (confined.entries entry inMiddle isCred) with
      ⟨san, inSans, accepted⟩
    exact notNamed san inSans entry.name accepted rfl
  have after := gone.foldlM (fun update mem => others update (within update mem))
    appliedBehind
  subst equal
  exact resolve_ne_of_confined built after

/-! ## Wildcard certificates -/

def namedHeap (names : List Bytes) : Heap := fun _ => { renewalHeap 0 with sanDnsNames := names }

def revokingResponder (names : List Bytes) : Responder (namedHeap names) where
  random := fun _ => 0
  buildRequest := fun _ _ => some []
  validateAiaUrl := fun _ => true
  fetch := fun _ _ _ => some []
  validateStaple := fun _ _ _ _ => .error (.certificateRevoked 0)
  restaple := fun _ _ => 0
  restaple_spec := nofun

def trackingUpdater (names : List Bytes) : OcspUpdater :=
  (OcspUpdater.new .default).track (namedHeap names) 0 (some (ascii "http://responder")) 0

lemma revokingResponder_reports (names) :
    OcspUpdater.Reports (revokingResponder names) (trackingUpdater names) 1000 0 :=
  ⟨[], 0, [], rfl, _, rfl, rfl, rfl⟩

/-- A wildcard certificate is indexed from its names and reported revoked, and the removal is
refused, so that it stays in service. -/
theorem wildcard_stays_in_service :
    ∃ certs,
      ((new []).upsertFromSans (namedHeap [ascii "*.example.com"]) 0).1.buildWithGeneration
        constantHashing (namedHeap [ascii "*.example.com"]) (fun _ => none) 0 = .ok certs ∧
      OcspUpdater.Reports (revokingResponder [ascii "*.example.com"])
        (trackingUpdater [ascii "*.example.com"]) 1000 0 ∧
      ((trackingUpdater [ascii "*.example.com"]).tick
        (revokingResponder [ascii "*.example.com"]) 1000).2 = [.remove [ascii "*.example.com"]] ∧
      (CertUpdateCoalescer.new ⟨certs, emptyMaterial.challenge, 0⟩).submit
        (namedHeap [ascii "*.example.com"]) (.remove [ascii "*.example.com"]) =
        .error (.name .illegalByte) ∧
      certs.resolve constantHashing (ascii "www.example.com") ⟨true, true, true, true⟩ = some 0 :=
  ⟨_, rfl, revokingResponder_reports _, rfl, rfl, by decide⟩

/-- A certificate for a plain name leaves service. -/
theorem plainName_leaves_service :
    ∃ certs accepted flushed,
      ((new []).upsertFromSans (namedHeap [ascii "a.example"]) 0).1.buildWithGeneration
        constantHashing (namedHeap [ascii "a.example"]) (fun _ => none) 0 = .ok certs ∧
      CertUpdate.remove [ascii "a.example"] ∈ ((trackingUpdater [ascii "a.example"]).tick
        (revokingResponder [ascii "a.example"]) 1000).2 ∧
      (CertUpdateCoalescer.new ⟨certs, emptyMaterial.challenge, 0⟩).submit
        (namedHeap [ascii "a.example"]) (.remove [ascii "a.example"]) = .ok accepted ∧
      accepted.flushNow constantHashing (namedHeap [ascii "a.example"]) plainSurroundings =
        .ok flushed ∧
      ∀ sni caps, flushed.material.certs.resolve constantHashing sni caps ≠ some 0 := by
  have built : ∃ certs, ((new []).upsertFromSans (namedHeap [ascii "a.example"])
        0).1.buildWithGeneration constantHashing (namedHeap [ascii "a.example"])
        (fun _ => none) 0 = .ok certs ∧
      ∀ accepted, (CertUpdateCoalescer.new ⟨certs, emptyMaterial.challenge, 0⟩).submit
        (namedHeap [ascii "a.example"]) (.remove [ascii "a.example"]) = .ok accepted →
        ∃ flushed, accepted.flushNow constantHashing (namedHeap [ascii "a.example"])
          plainSurroundings = .ok flushed := by
    refine ⟨_, rfl, ?_⟩
    intro accepted gave
    cases gave
    exact ⟨_, rfl⟩
  rcases built with ⟨certs, built, flushes⟩
  rcases @revocation_effective_iff constantHashing (namedHeap [ascii "a.example"]) 0
    (.new ⟨certs, emptyMaterial.challenge, 0⟩) _ _ _ 1000 (trackingUpdater [ascii "a.example"])
    (revokingResponder [ascii "a.example"]) built (fun _ mem _ => mem) nofun nofun
    (fun _ _ _ => rfl) (.track 0 _ 0 (.new .default))
    (revokingResponder_reports _) with ⟨gave, effective⟩
  have plain : ∀ san ∈ (namedHeap [ascii "a.example"] 0).sanDnsNames,
      ∃ name, normalize san = .ok name := by
    intro san mem
    cases mem_singleton.mp mem
    exact ⟨_, rfl⟩
  rcases effective.mpr plain with ⟨accepted, submitted, leaves⟩
  rcases flushes accepted submitted with ⟨flushed, flushedOk⟩
  exact ⟨certs, accepted, flushed, built, gave, submitted, flushedOk,
    leaves [] accepted plainSurroundings flushed nofun rfl flushedOk⟩

end IronTraffic.Tls
