import IronTraffic.Tls.Revocation

/-! # What an update puts into service

A flush applies its updates in order, and the store that it publishes answers from the
entries and the default that are left. So the effect of an update is read off the builders
before it: a replacement leaves the default alone, an installation has to win against the
credentials its names already have, and a removal takes every credential of a name.
-/

namespace IronTraffic.Tls

open List

open CertUpdateCoalescer

variable {hashing : Hashing} {heap : Heap} {around : Surroundings} {cred : Address}
  {coalescer after : CertUpdateCoalescer} {earlier : List CertUpdate} {before : Builders}
  {exact wildcard : List Bytes} {name : Bytes} {caps : ClientCaps}

lemma flush_last (pending : coalescer.pending = earlier ++ [update])
    (flushed : coalescer.flushNow hashing heap around = .ok after) :
    ∃ before builders, earlier.foldlM (apply heap) (startBuilders coalescer.material around.now) =
        .ok before ∧ apply heap before update = .ok builders ∧
      Built hashing (groupsOf heap builders.certs.entries) after.material.certs ∧
      after.material.certs.defaultCred = builders.certs.defaultCred := by
  rcases (flushNow_ok_iff (by simp [pending])).mp flushed with
    ⟨builders, certs, _, all, built, _, rfl⟩
  rw [pending, foldlM_append] at all
  rcases bind_eq_ok_iff.mp all with ⟨before, applied, last⟩
  rcases bind_eq_ok_iff.mp last with ⟨_, updated, same⟩
  cases same
  exact ⟨before, builders, applied, updated, built_of_build built⟩

/-! ## Replacing -/

/-- An answer that is no other credential of the certificate. -/
def Renewed (heap : Heap) (cred : Address) (answer : Option Address) : Prop :=
  ∀ hit, answer = some hit → (heap hit).fingerprint = (heap cred).fingerprint → hit = cred

/-- After a replacement every answer is renewed, unless the default was another credential of
the certificate: the default is not replaced. -/
theorem replace_effective_iff
    (pending : coalescer.pending = earlier ++ [.replace (heap cred).fingerprint cred])
    (applied : earlier.foldlM (apply heap) (startBuilders coalescer.material around.now) =
      .ok before)
    (flushed : coalescer.flushNow hashing heap around = .ok after) :
    ((∀ sni caps, Renewed heap cred (after.material.certs.resolve hashing sni caps)) ∧
        Renewed heap cred after.material.certs.defaultCred) ↔
      Renewed heap cred before.certs.defaultCred := by
  rcases flush_last pending flushed with ⟨_, builders, started, updated, built, default⟩
  cases applied.symm.trans started
  cases applied_of_ok updated
  rw [default]
  constructor
  · exact fun renewed => renewed.2
  intro renewed
  refine ⟨?_, renewed⟩
  intro sni caps hit answered same
  rw [built.resolve, default, entries_replaced] at answered
  rcases selection_eq_some answered with isDefault | ⟨entry, mem, rfl⟩
  · exact renewed hit isDefault same
  · rcases mem_map.mp mem with ⟨old, _, rfl⟩
    unfold restapledEntry restapled at same ⊢
    by_cases replaced : (heap old.cred).fingerprint = (heap cred).fingerprint
    · exact if_pos replaced
    · simp only [if_neg replaced] at same
      exact absurd same replaced

def batchOf (updates : List CertUpdate) : CertUpdateCoalescer := ⟨emptyMaterial, updates, 16, 1⟩

/-- The default keeps its old staple. -/
theorem default_keeps_staple :
    ∃ after, (batchOf [.setDefault 0, .replace [0] 1]).flushNow constantHashing stapleHeap
        plainSurroundings = .ok after ∧
      ¬Renewed stapleHeap 1 after.material.certs.defaultCred ∧
      ¬Renewed stapleHeap 1 (after.material.certs.resolve constantHashing (ascii "a.example")
        ⟨true, true, true, true⟩) :=
  ⟨_, rfl, fun renewed => absurd (renewed 0 rfl rfl) (by decide),
    fun renewed => absurd (renewed 0 rfl rfl) (by decide)⟩

def renewal : CertUpdateCoalescer := batchOf [.install [ascii "a.example"] [] 0, .replace [0] 1]

/-- Where the certificate is not the default, its new staple is the only one left. -/
theorem renewal_effective :
    ∃ after, renewal.flushNow constantHashing stapleHeap plainSurroundings = .ok after ∧
      ∀ sni caps, Renewed stapleHeap 1 (after.material.certs.resolve constantHashing sni caps) := by
  have flushed : ∃ after, renewal.flushNow constantHashing stapleHeap plainSurroundings =
      .ok after := ⟨_, rfl⟩
  rcases flushed with ⟨after, flushed⟩
  have started : ∃ before, [.install [ascii "a.example"] [] 0].foldlM (apply stapleHeap)
      (startBuilders renewal.material plainSurroundings.now) = .ok before ∧
      before.certs.defaultCred = none := ⟨_, rfl, rfl⟩
  rcases started with ⟨before, applied, noDefault⟩
  have renewed : Renewed stapleHeap 1 before.certs.defaultCred := by
    rw [noDefault]
    exact fun _ => nofun
  exact ⟨after, flushed, ((replace_effective_iff rfl applied flushed).mpr renewed).1⟩

/-! ## Installing -/

lemma argmin_append_const [LinearOrder Rank] {items more} {item : Item} {rank : Item → Rank}
    (all : ∀ other ∈ more, other = item) (present : more ≠ []) :
    (items ++ more).argmin rank = some item ↔
      ∀ old, items.argmin rank = some old → old = item ∨ rank item < rank old := by
  have last : more.argmin rank = some item := by
    cases hit : more.argmin rank with
    | none => exact absurd (argmin_eq_none.mp hit) present
    | some other => rw [all other (argmin_mem hit)]
  cases first : items.argmin rank with
  | none =>
    rw [argmin_eq_none.mp first, nil_append]
    exact iff_of_true last nofun
  | some old =>
    have same : items.argmin rank = [old].argmin rank := first
    rw [argmin_append_congr same, singleton_append, argmin_cons, last]
    by_cases better : rank item < rank old
    · exact iff_of_true (if_pos better) fun _ isOld => .inr (Option.some.inj isOld ▸ better)
    · simp [better]

/-- The credential is preferred to the one that its key type had under the name. -/
def Outranks (heap : Heap) (entries : List PendingEntry) (isWild : Bool) (name : Bytes)
    (cred : Address) : Prop :=
  ∀ old, best heap entries isWild name (· = (heap cred).keyType) = some old →
    old = cred ∨ preference heap cred < preference heap old

lemma best_installed (present : ⟨name, isWild, cred⟩ ∈ installedEntries exact wildcard cred)
    (only : ∀ keyType, caps.admits keyType = decide (keyType = (heap cred).keyType)) :
    (best heap (entries ++ installedEntries exact wildcard cred) isWild name caps.admits).or
        defaultCred = some cred ↔
      Outranks heap entries isWild name cred := by
  have all : ∀ other ∈ eligible heap (installedEntries exact wildcard cred) isWild name
      caps.admits, other = cred := by
    intro other mem
    rcases mem_map.mp mem with ⟨entry, inside, rfl⟩
    exact (mem_installedEntries (mem_filter.mp (mem_filter.mp inside).1).1).1
  have inside : cred ∈ eligible heap (installedEntries exact wildcard cred) isWild name
      caps.admits := by
    refine mem_map.mpr ⟨_, mem_filter.mpr ⟨mem_filter.mpr ⟨present, ?_⟩, ?_⟩, rfl⟩
    · exact ofName_iff.mpr ⟨rfl, rfl⟩
    · exact (only _).trans (decide_eq_true rfl)
  have some : best heap (entries ++ installedEntries exact wildcard cred) isWild name
      caps.admits ≠ none := by
    unfold best
    rw [eligible_append, ne_eq, argmin_eq_none]
    exact ne_nil_of_mem (mem_append_right _ inside)
  rw [Option.or_eq_some_iff, or_iff_left fun none => some none.1]
  unfold Outranks best
  rw [eligible_append, argmin_append_const all (ne_nil_of_mem inside), funext only]

lemma mem_installed_exact (mem : raw ∈ exact) (isName : normalize raw = .ok name) :
    ⟨name, false, cred⟩ ∈ installedEntries exact wildcard cred :=
  mem_append_left _ (mem_filterMap.mpr ⟨raw, mem, by rw [exactEntry, isName]; rfl⟩)

lemma Built.filter_of_probe (built : Built hashing (groupsOf heap entries) index)
    (lacks : index.probe hashing (NameMaps.of ⟨index.exact, index.wild⟩ isWild) name = none) :
    entries.filter (ofName isWild name) = [] := by
  by_contra notEmpty
  rcases exists_group_iff.mpr notEmpty with ⟨group, mem, hit⟩
  rcases getElem?_of_mem mem with ⟨spot, here⟩
  rw [built.probe_eq_some_iff.mpr ⟨group, here, hit⟩] at lacks
  cases lacks

/-- A peer that verifies one key type only gets the installed credential of that type exactly
if it is preferred to the one that the name had before: the later expiry wins, not the later
installation. -/
theorem install_effective_iff
    (pending : coalescer.pending = earlier ++ [.install exact wildcard cred])
    (applied : earlier.foldlM (apply heap) (startBuilders coalescer.material around.now) =
      .ok before)
    (flushed : coalescer.flushNow hashing heap around = .ok after)
    (only : ∀ keyType, caps.admits keyType = decide (keyType = (heap cred).keyType))
    (accepted : normalize sni = .ok name) :
    ((∃ raw ∈ exact, normalize raw = .ok name) →
      (after.material.certs.resolve hashing sni caps = some cred ↔
        Outranks heap before.certs.entries false name cred)) ∧
    ∀ domain, parent name = some domain →
      (∃ raw ∈ wildcard, ∃ suffix, wildcardParent raw = .ok suffix ∧
        normalize suffix = .ok domain) →
      after.material.certs.probe hashing after.material.certs.exact name = none →
      (after.material.certs.resolve hashing sni caps = some cred ↔
        Outranks heap before.certs.entries true domain cred) := by
  rcases flush_last pending flushed with ⟨_, builders, started, updated, built, _⟩
  cases applied.symm.trans started
  cases applied_of_ok updated
  rw [built.resolve, selection_of_ok accepted]
  constructor
  · rintro ⟨raw, mem, isName⟩
    have present : ⟨name, false, cred⟩ ∈ installedEntries exact wildcard cred :=
      mem_installed_exact mem isName
    rw [if_pos]
    · exact best_installed present only
    · exact ne_nil_of_mem (mem_filter.mpr
        ⟨mem_append_right _ present, ofName_iff.mpr ⟨rfl, rfl⟩⟩)
  · rintro domain isParent ⟨raw, mem, suffix, isSuffix, isDomain⟩ lacks
    have present : ⟨domain, true, cred⟩ ∈ installedEntries exact wildcard cred :=
      mem_append_right _ (mem_filterMap.mpr ⟨raw, mem, by
        rw [wildcardEntry, isSuffix, Except.toOption, Option.bind_some, isDomain]
        rfl⟩)
    have empty := @Built.filter_of_probe hashing heap name _ _ false built lacks
    rw [if_neg (not_not.mpr empty), isParent, Option.bind_some]
    exact best_installed present only

def onlyP256 : ClientCaps := ⟨true, false, false, false⟩

def installations (first second : Address) : CertUpdateCoalescer :=
  batchOf [.install [ascii "a.example"] [] first, .install [ascii "a.example"] [] second]

/-- A certificate that expires earlier does not replace the one that is there. -/
theorem earlier_expiry_ineffective :
    ∃ after, (installations 1 0).flushNow constantHashing renewalHeap plainSurroundings =
        .ok after ∧ (renewalHeap 0).keyType = .ecdsaP256 ∧
      after.material.certs.resolve constantHashing (ascii "a.example") onlyP256 = some 1 :=
  ⟨_, rfl, rfl, by decide⟩

/-- One that expires later does. -/
theorem later_expiry_effective :
    ∃ after, (installations 0 1).flushNow constantHashing renewalHeap plainSurroundings =
        .ok after ∧
      after.material.certs.resolve constantHashing (ascii "a.example") onlyP256 = some 1 := by
  have flushed : ∃ after, (installations 0 1).flushNow constantHashing renewalHeap
      plainSurroundings = .ok after := ⟨_, rfl⟩
  rcases flushed with ⟨after, flushed⟩
  have started : ∃ before, [.install [ascii "a.example"] [] 0].foldlM (apply renewalHeap)
      (startBuilders emptyMaterial plainSurroundings.now) = .ok before ∧
      Outranks renewalHeap before.certs.entries false (ascii "a.example") 1 := by
    refine ⟨_, rfl, ?_⟩
    rintro old hit
    cases hit
    exact .inr (by decide)
  rcases started with ⟨before, applied, outranks⟩
  have only : ∀ keyType, onlyP256.admits keyType = decide (keyType = (renewalHeap 1).keyType) := by
    intro keyType
    cases keyType <;> rfl
  exact ⟨after, flushed, ((install_effective_iff rfl applied flushed only rfl).1
    ⟨_, mem_cons_self, rfl⟩).mpr outranks⟩

/-! ## Removing -/

/-- A removal of these names leaves the entries of this one. -/
def Spares (names : List Bytes) (name : Bytes) : Prop := ∀ raw ∈ names, normalize raw ≠ .ok name

lemma filter_remove_all (spared : Spares names name) : ∀ {certs : CertIndexBuilder},
    (certs.removeAll heap names).entries.filter (ofName isWild name) =
      certs.entries.filter (ofName isWild name) := by
  induction names with
  | nil => exact rfl
  | cons raw names induction =>
    intro certs
    rcases forall_mem_cons.mp spared with ⟨other, later⟩
    rw [CertIndexBuilder.removeAll, foldl_cons, induction later, CertIndexBuilder.remove]
    cases isName : normalize raw with
    | error => rfl
    | ok removed =>
      have apart : name ≠ removed := fun same => other (same ▸ isName)
      exact (filter_ofName_removed certs.entries removed isWild name).trans (if_neg apart)

lemma filter_remove_all_of_removed {certs : CertIndexBuilder} (removed : ¬Spares names name) :
    (certs.removeAll heap names).entries.filter (ofName isWild name) = [] := by
  simp only [Spares, not_forall, not_not] at removed
  rcases removed with ⟨raw, mem, named⟩
  refine filter_eq_nil_iff.mpr fun entry left isName => ?_
  exact (mem_remove_all.mp left).2 raw mem name named (ofName_iff.mp isName).2

lemma best_remove_all {certs : CertIndexBuilder} :
    best heap (certs.removeAll heap names).entries isWild name property = some cred ↔
      Spares names name ∧ best heap certs.entries isWild name property = some cred := by
  unfold best eligible
  by_cases spared : Spares names name
  · rw [filter_remove_all spared, and_iff_right spared]
  · rw [filter_remove_all_of_removed spared]
    exact iff_of_false (Option.some_ne_none cred).symm fun holds => spared holds.1

/-- The default is withdrawn with a name that it has. -/
lemma default_remove_all (removed : ¬Spares names name) : ∀ {certs : CertIndexBuilder},
    ⟨name, isWild, cred⟩ ∈ certs.entries →
      (certs.removeAll heap names).defaultCred ≠ some cred := by
  induction names with
  | nil => exact absurd (fun _ mem => absurd mem not_mem_nil) removed
  | cons raw names induction =>
    intro certs mem
    by_cases named : normalize raw = .ok name
    · -- the entry's own fingerprint withdraws it here, and no later removal brings it back
      have confined : Confined cred (fun _ => True) (certs.remove heap raw) := by
        refine ⟨fun _ _ _ => trivial, fun isDefault => ?_⟩
        rw [CertIndexBuilder.remove, named] at isDefault
        have kept := (Option.filter_eq_some_iff.mp isDefault).2
        simp only [CertIndexBuilder.withdrawn, Bool.not_eq_true', any_eq_false] at kept
        exact kept _ mem (by simp)
      exact confined.remove_all.default
    · refine induction (fun spared => removed (forall_mem_cons.mpr ⟨named, spared⟩))
        (mem_remove.mpr ⟨mem, fun other isOther same => named ?_⟩)
      exact isOther.trans (congrArg _ same.symm)

lemma or_eq_some_left (other : second ≠ some item) :
    Option.or first second = some item ↔ first = some item := by
  rw [Option.or_eq_some_iff, or_iff_left fun late => other late.2]

lemma best_ne_none {entries : List PendingEntry} (present : ⟨name, isWild, cred⟩ ∈ entries)
    (admitted : property (heap cred).keyType) : best heap entries isWild name property ≠ none := by
  rw [best, ne_eq, argmin_eq_none]
  refine ne_nil_of_mem (mem_map.mpr ⟨_, mem_filter.mpr ⟨mem_filter.mpr ⟨present, ?_⟩, ?_⟩, rfl⟩)
  · exact ofName_iff.mpr ⟨rfl, rfl⟩
  · exact admitted

/-- What a group with this credential and the default behind it answer after a removal. -/
lemma answer_remove_all {certs : CertIndexBuilder} (present : ⟨name, isWild, cred⟩ ∈ certs.entries)
    (admitted : property (heap cred).keyType) :
    (best heap (certs.removeAll heap names).entries isWild name property).or
        (certs.removeAll heap names).defaultCred = some cred ↔
      Spares names name ∧ best heap certs.entries isWild name property = some cred := by
  by_cases spared : Spares names name
  · rcases Option.ne_none_iff_exists'.mp (best_ne_none present admitted) with ⟨served, isServed⟩
    rw [best_remove_all.mpr ⟨spared, isServed⟩, isServed, Option.some_or, and_iff_right spared]
  · rw [or_eq_some_left (default_remove_all spared present), best_remove_all]

/-- A removal takes the credentials of every key type. A sibling of the withdrawn one is still
served exactly if its name is not removed, or the wildcard of the parent domain leads to it and is
not removed either. -/
theorem withdrawal_keeps_iff {names : List Bytes}
    (pending : coalescer.pending = earlier ++ [.remove names])
    (applied : earlier.foldlM (apply heap) (startBuilders coalescer.material around.now) =
      .ok before)
    (flushed : coalescer.flushNow hashing heap around = .ok after)
    (accepted : normalize sni = .ok name) (admitted : caps.admits (heap sibling).keyType) :
    (⟨name, false, sibling⟩ ∈ before.certs.entries →
      (after.material.certs.resolve hashing sni caps = some sibling ↔
        Spares names name ∧ best heap before.certs.entries false name caps.admits = some sibling ∨
        ¬Spares names name ∧ ∃ domain, parent name = some domain ∧ Spares names domain ∧
          best heap before.certs.entries true domain caps.admits = some sibling)) ∧
    ∀ domain, parent name = some domain → before.certs.entries.filter (ofName false name) = [] →
      ⟨domain, true, sibling⟩ ∈ before.certs.entries →
      (after.material.certs.resolve hashing sni caps = some sibling ↔
        Spares names domain ∧
          best heap before.certs.entries true domain caps.admits = some sibling) := by
  rcases flush_last pending flushed with ⟨_, builders, started, updated, built, default⟩
  cases applied.symm.trans started
  cases applied_of_ok updated
  rw [built.resolve, selection_of_ok accepted, default]
  constructor
  · intro present
    by_cases spared : Spares names name
    · rw [if_pos, answer_remove_all present admitted]
      · simp [spared]
      · rw [filter_remove_all spared]
        exact ne_nil_of_mem (mem_filter.mpr ⟨present, ofName_iff.mpr ⟨rfl, rfl⟩⟩)
    · rw [if_neg (not_not.mpr (filter_remove_all_of_removed spared)),
        or_eq_some_left (default_remove_all spared present), Option.bind_eq_some_iff]
      simp only [best_remove_all, spared, false_and, not_false_eq_true, true_and, false_or]
  · intro domain isParent noExact present
    have none : (before.certs.removeAll heap names).entries.filter (ofName false name) = [] := by
      refine filter_eq_nil_iff.mpr fun entry mem => ?_
      exact filter_eq_nil_iff.mp noExact entry (mem_remove_all.mp mem).1
    rw [if_neg (not_not.mpr none), isParent, Option.bind_some, answer_remove_all present admitted]

def siblingHeap : Heap := fun address =>
  { renewalHeap address with
    keyType := if address = 0 then .ecdsaP256 else .rsa
    sanDnsNames := [ascii "a.example.com"] }

def onlyRsa : ClientCaps := ⟨false, false, true, false⟩

def siblings (wildcard : List Bytes) (more : List CertUpdate) : CertUpdateCoalescer :=
  batchOf ([.install [ascii "a.example.com"] [] 0, .install [ascii "a.example.com"] wildcard 1] ++
    more)

def siblingResponder : Responder siblingHeap := { revokingResponder [] with restaple_spec := nofun }

/-- One of two siblings is revoked, and its removal takes the other one out of service too. -/
theorem siblings_withdrawn :
    ∃ store accepted flushed,
      (siblings [] []).flushNow constantHashing siblingHeap plainSurroundings = .ok store ∧
      store.material.certs.resolve constantHashing (ascii "a.example.com") onlyRsa = some 1 ∧
      ((trackingUpdater [ascii "a.example.com"]).tick siblingResponder 1000).2 =
        [.remove [ascii "a.example.com"]] ∧
      store.submit siblingHeap (.remove [ascii "a.example.com"]) = .ok accepted ∧
      accepted.flushNow constantHashing siblingHeap plainSurroundings = .ok flushed ∧
      flushed.material.certs.resolve constantHashing (ascii "a.example.com") onlyRsa = none :=
  ⟨_, _, _, rfl, by decide, rfl, rfl, rfl, by decide⟩

/-- A sibling that also has the wildcard of the parent domain stays. -/
theorem sibling_of_wildcard_stays :
    ∃ after, (siblings [ascii "*.example.com"] [.remove [ascii "a.example.com"]]).flushNow
        constantHashing siblingHeap plainSurroundings = .ok after ∧
      after.material.certs.resolve constantHashing (ascii "a.example.com") onlyRsa = some 1 := by
  have flushed : ∃ after, (siblings [ascii "*.example.com"]
      [.remove [ascii "a.example.com"]]).flushNow constantHashing siblingHeap plainSurroundings =
      .ok after := ⟨_, rfl⟩
  rcases flushed with ⟨after, flushed⟩
  have started : ∃ before, (siblings [ascii "*.example.com"] []).pending.foldlM (apply siblingHeap)
      (startBuilders emptyMaterial plainSurroundings.now) = .ok before ∧
      ⟨ascii "a.example.com", false, 1⟩ ∈ before.certs.entries ∧
      best siblingHeap before.certs.entries true (ascii "example.com") onlyRsa.admits = some 1 :=
    ⟨_, rfl, by decide, by decide⟩
  rcases started with ⟨before, applied, present, wildcard⟩
  have spared : Spares [ascii "a.example.com"] (ascii "example.com") := by
    intro raw mem
    rw [mem_singleton.mp mem]
    decide
  have removed : ¬Spares [ascii "a.example.com"] (ascii "a.example.com") :=
    fun spares => spares _ mem_cons_self rfl
  refine ⟨after, flushed, ((withdrawal_keeps_iff rfl applied flushed rfl rfl).1 present).mpr ?_⟩
  exact .inr ⟨removed, ascii "example.com", rfl, spared, wildcard⟩

end IronTraffic.Tls
