import IronTraffic.Foundation.Fallible
import IronTraffic.Router.Authority

/-! # Host keys and wildcards

A host matches a wildcard if it ends with the labels of the wildcard. In the keys this is the
order of the prefixes.
-/

namespace IronTraffic.Router

open List

/-! ## The shape of a normalized authority -/

lemma bracketByte_dot (flag : Bool) (byte : UInt8) :
    (bracketByte flag byte).toOption.map Prod.fst = some dot → byte = dot := by
  revert byte
  cases flag <;> decide +kernel

lemma plainByte_dot (flag : Bool) (byte : UInt8) :
    (plainByte flag byte).toOption.map Prod.fst = some dot → byte = dot := by
  revert byte
  cases flag <;> decide +kernel

variable {hostSpan host label suffix : Bytes}

section Writing

variable {writeByte : Bool → UInt8 → Except AuthorityError (UInt8 × Bool)}

lemma writeHost_append (written : writeHost writeByte hostSpan flag buf = .ok host) :
    ∃ more, host = buf ++ more ∧ more.length = hostSpan.length := by
  induction hostSpan generalizing flag buf with
  | nil =>
    cases written
    exact ⟨[], by simp⟩
  | cons byte rest induction =>
    simp only [writeHost, bind_eq_ok_iff] at written
    rcases written with ⟨out, _, written⟩
    split at written
    · rcases induction written with ⟨more, isHost, length⟩
      refine ⟨out.1 :: more, ?_, ?_⟩
      · rw [isHost, append_assoc]
        rfl
      · rw [length_cons, length_cons, length]
    · cases written

lemma writeHost_head
    (dots : ∀ flag byte, (writeByte flag byte).toOption.map Prod.fst = some dot → byte = dot)
    (written : writeHost writeByte hostSpan false [] = .ok host)
    (proper : hostSpan.head? ≠ some dot) : host.head? ≠ some dot := by
  cases hostSpan with
  | nil =>
    cases written
    exact nofun
  | cons byte rest =>
    simp only [writeHost, bind_eq_ok_iff] at written
    rcases written with ⟨out, isOut, written⟩
    split at written
    · rcases writeHost_append written with ⟨more, rfl, _⟩
      intro isDot
      have outDot : out.1 = dot := Option.some.inj isDot
      have byteDot := dots false byte (by rw [isOut, ← outDot]; rfl)
      exact proper (congrArg some byteDot)
    · cases written

end Writing

structure Shaped (host : Bytes) : Prop where
  short : host.length ≤ maxAuthorityBytes
  proper : host.head? ≠ some dot

lemma shaped_nil : Shaped [] := ⟨Nat.zero_le _, nofun⟩

lemma trimAndCheckShape_shaped (checked : trimAndCheckShape hostSpan = .ok trimmed) :
    Shaped trimmed := by
  rcases of_ite_error checked with ⟨_, checked⟩
  rcases of_ite_error checked with ⟨proper, checked⟩
  rcases of_ite_error checked with ⟨short, checked⟩
  cases checked
  exact ⟨Nat.le_of_not_lt short, proper⟩

lemma shaped_of_writeHost
    (dots : ∀ flag byte, (writeByte flag byte).toOption.map Prod.fst = some dot → byte = dot)
    (shaped : Shaped hostSpan) (written : writeHost writeByte hostSpan false [] = .ok host) :
    Shaped host := by
  rcases writeHost_append written with ⟨more, isHost, length⟩
  refine ⟨?_, writeHost_head dots written shaped.proper⟩
  rw [isHost, nil_append, length]
  exact shaped.short

lemma normalizeAuthority_shaped (normal : normalizeAuthority raw = .ok host) : Shaped host := by
  have written := (of_ite_error (of_ite_error normal).2).2
  simp only [bind_eq_ok_iff] at written
  rcases written with ⟨span, _, trimmed, checked, written⟩
  have shaped := trimAndCheckShape_shaped checked
  split at written
  · exact shaped_of_writeHost bracketByte_dot shaped written
  · exact shaped_of_writeHost plainByte_dot shaped written

/-! ## The bytes of a key -/

def keyLabels (host : Bytes) : Bytes :=
  if host = [] then [] else endParts dot (host.splitOn dot).reverse

lemma writeKeyBytes_eq (room : out.length + bytes.length ≤ hostKeyBufBytes) :
    writeKeyBytes out bytes = .ok (out ++ bytes) := by
  unfold writeKeyBytes
  induction bytes generalizing out with
  | nil =>
    rw [append_nil]
    rfl
  | cons byte bytes induction =>
    rw [length_cons] at room
    have one : writeKeyByte out byte = .ok (out ++ [byte]) := if_pos (by omega)
    have rest := @induction (out ++ [byte]) (by
      rw [length_append, length_singleton]
      omega)
    rw [foldlM_cons, one]
    refine rest.trans ?_
    rw [append_assoc]
    rfl

inductive LastLabel (rest : Bytes) : Prop where
  | only (free : dot ∉ rest) (isLast : lastLabel rest = (rest, []))
  | more (before label : Bytes) (isRest : rest = before ++ dot :: label) (free : dot ∉ label)
      (isLast : lastLabel rest = (label, before))

lemma lastLabel_cases (rest : Bytes) : LastLabel rest := by
  cases hit : rposition (· == dot) rest with
  | none =>
    have free : dot ∉ rest := by
      intro mem
      have notDot := rposition_eq_none hit dot mem
      cases notDot
    refine .only free ?_
    rw [lastLabel, hit]
  | some index =>
    rcases rposition_eq_some hit with ⟨separator, isDot, isRest, others⟩
    have isSeparator : separator = dot := beq_iff_eq.mp isDot
    rw [isSeparator] at isRest
    have free : dot ∉ rest.drop (index + 1) := by
      intro mem
      have notDot := others dot mem
      cases notDot
    refine .more (rest.take index) (rest.drop (index + 1)) isRest free ?_
    rw [lastLabel, hit]

lemma keyLabels_only (some : label ≠ []) (free : dot ∉ label) :
    keyLabels label = label ++ [dot] := by
  rw [keyLabels, if_neg some, splitOn_eq_singleton free]
  simp [endParts]

lemma keyLabels_append (some : before ≠ []) (free : dot ∉ label) :
    keyLabels (before ++ dot :: label) = label ++ dot :: keyLabels before := by
  unfold keyLabels
  rw [if_neg (by simp), if_neg some, splitOn_append_cons_self,
    splitOn_eq_singleton free, reverse_append, reverse_singleton]
  exact endParts_cons _ _

lemma writeLabels_nil (fuel : Nat) (out : Bytes) : writeLabels fuel [] out = .ok out := by
  cases fuel <;> rfl

lemma writeLabels_eq (enough : rest.length ≤ fuel) (proper : rest.head? ≠ some dot)
    (room : out.length + rest.length + 1 ≤ hostKeyBufBytes) :
    writeLabels fuel rest out = .ok (out ++ keyLabels rest) := by
  induction fuel generalizing rest out with
  | zero =>
    rw [length_eq_zero_iff.mp (Nat.le_zero.mp enough)]
    simp [keyLabels, writeLabels]
    rfl
  | succ fuel induction =>
    by_cases none : rest = []
    · rw [none, writeLabels_nil]
      simp [keyLabels]
    rw [writeLabels, if_neg none]
    have labelled : ∀ label : Bytes, label.length ≤ rest.length →
        writeKeyBytes out label = .ok (out ++ label) ∧
          writeKeyByte (out ++ label) dot = .ok (out ++ label ++ [dot]) := by
      intro label short
      refine ⟨writeKeyBytes_eq (by omega), if_pos ?_⟩
      rw [length_append]
      omega
    cases lastLabel_cases rest with
    | only free isLast =>
      rw [isLast, (labelled rest (le_refl _)).1]
      simp only [bind, Except.bind]
      rw [(labelled rest (le_refl _)).2, keyLabels_only none free]
      simp only
      rw [writeLabels_nil, append_assoc]
    | more before label isRest free isLast =>
      have length : rest.length = before.length + (label.length + 1) := by
        rw [isRest, length_append, length_cons]
      have some : before ≠ [] := by
        rintro rfl
        rw [isRest] at proper
        exact proper rfl
      have stillProper : before.head? ≠ Option.some dot := by
        rw [isRest, head?_append_of_ne_nil _ some] at proper
        exact proper
      have later := @induction before (out ++ label ++ [dot]) (by omega) stillProper (by
        rw [length_append, length_append, length_singleton]
        omega)
      rw [isLast, (labelled label (by omega)).1]
      simp only [bind, Except.bind]
      rw [(labelled label (by omega)).2]
      simp only
      rw [later, isRest, keyLabels_append some free]
      simp

lemma Shaped.hostKey_eq (shaped : Shaped host) (listener) :
    hostKey listener host = .ok (toBeBytes listener.index ++ keyLabels host) := by
  have two : (toBeBytes listener.index).length = 2 := rfl
  have listens : writeKeyBytes [] (toBeBytes listener.index) = .ok (toBeBytes listener.index) :=
    writeKeyBytes_eq (by rw [two]; decide)
  have short := shaped.short
  unfold maxAuthorityBytes at short
  rw [hostKey, listens]
  simp only [bind, Except.bind]
  by_cases none : host = []
  · rw [if_pos none, none]
    rfl
  · rw [if_neg none, if_neg (not_lt.mpr shaped.short)]
    apply writeLabels_eq (le_refl _) shaped.proper
    unfold hostKeyBufBytes
    omega

/-! ## The order of the keys -/

lemma toBeBytes_inj (same : toBeBytes left = toBeBytes right) : left = right := by
  have high := congrArg UInt8.toNat (head_eq_of_cons_eq same)
  have low := congrArg UInt8.toNat (head_eq_of_cons_eq (tail_eq_of_cons_eq same))
  simp only [UInt16.toNat_toUInt8, UInt16.toNat_shiftRight] at high low
  have leftSmall := left.toNat_lt
  have rightSmall := right.toNat_lt
  apply UInt16.toNat_inj.mp
  have shift : UInt16.toNat 8 % 16 = 8 := rfl
  rw [shift, Nat.shiftRight_eq_div_pow, Nat.shiftRight_eq_div_pow] at high
  omega

lemma keyLabels_isPrefix_iff :
    keyLabels suffix <+: keyLabels host ↔ suffix = [] ∨ host = suffix ∨ dot :: suffix <:+ host := by
  have free : ∀ bytes : Bytes, ∀ part ∈ (bytes.splitOn dot).reverse, dot ∉ part := by
    intro bytes part mem
    exact not_mem_of_mem_splitOn (mem_reverse.mp mem)
  unfold keyLabels
  by_cases none : suffix = []
  · simp [none]
  rw [if_neg none]
  by_cases noHost : host = []
  · rw [if_pos noHost, noHost, prefix_nil]
    have nonempty : endParts dot (suffix.splitOn dot).reverse ≠ [] := by
      cases parts : (suffix.splitOn dot).reverse with
      | nil => exact absurd (reverse_eq_nil_iff.mp parts) (splitOn_ne_nil _ _)
      | cons part rest => simp [endParts]
    simp [nonempty, none, Ne.symm none]
  · rw [if_neg noHost, endParts_isPrefix_iff (free suffix) (free host), reverse_prefix,
      splitOn_isSuffix_iff]
    simp [none]

/-- A host that is empty, or the normal form of an authority. -/
structure NormalHost where
  bytes : Bytes
  normal : bytes = [] ∨ ∃ raw, normalizeAuthority raw = .ok bytes

lemma NormalHost.shaped (host : NormalHost) : Shaped host.bytes := by
  rcases host.normal with isEmpty | ⟨raw, isNormal⟩
  · rw [isEmpty]
    exact shaped_nil
  · exact normalizeAuthority_shaped isNormal

lemma key_isPrefix_iff {left right : ListenerId} :
    toBeBytes left.index ++ keyLabels suffix <+: toBeBytes right.index ++ keyLabels host ↔
      left = right ∧ (suffix = [] ∨ host = suffix ∨ dot :: suffix <:+ host) := by
  have listener : toBeBytes left.index ++ keyLabels suffix <+:
      toBeBytes right.index ++ keyLabels host ↔
        toBeBytes left.index = toBeBytes right.index ∧ keyLabels suffix <+: keyLabels host := by
    simp only [toBeBytes, cons_append, nil_append, cons_prefix_cons, List.cons.injEq, and_true,
      and_assoc]
  rw [listener, keyLabels_isPrefix_iff]
  refine and_congr_left fun _ => ⟨?_, ?_⟩
  · intro same
    exact congrArg ListenerId.mk (toBeBytes_inj same)
  · rintro rfl
    rfl

/-- Every normalized host has a key. The key of a suffix begins the key of a host exactly if they
are of one listener and the suffix is empty, or the host itself, or the host ends with it after a
dot; so different hosts have different keys. -/
theorem hostKey_orders_wildcards (left right : ListenerId) (host suffix : NormalHost) :
    ∃ key suffixKey, hostKey right host.bytes = .ok key ∧
      hostKey left suffix.bytes = .ok suffixKey ∧ (suffixKey <+: key ↔ left = right ∧
        (suffix.bytes = [] ∨ host.bytes = suffix.bytes ∨ dot :: suffix.bytes <:+ host.bytes)) ∧
      (suffixKey = key ↔ left = right ∧ suffix.bytes = host.bytes) := by
  refine ⟨_, _, host.shaped.hostKey_eq right, suffix.shaped.hostKey_eq left, key_isPrefix_iff, ?_⟩
  constructor
  · intro same
    have forth := key_isPrefix_iff.mp ⟨[], (append_nil _).trans same⟩
    have back := key_isPrefix_iff.mp ⟨[], (append_nil _).trans same.symm⟩
    refine ⟨forth.1, ?_⟩
    -- Neither of the two can be longer than the other one.
    rcases forth.2 with noSuffix | sameHost | longer
    · rcases back.2 with noHost | sameHost | longer
      · rw [noSuffix, noHost]
      · exact sameHost
      · have length := longer.length_le
        rw [noSuffix] at length
        cases length
    · exact sameHost.symm
    · have length := longer.length_le
      rw [length_cons] at length
      rcases back.2 with noHost | sameHost | shorter
      · rw [noHost] at length
        cases length
      · exact sameHost
      · have otherLength := shorter.length_le
        rw [length_cons] at otherLength
        omega
  · rintro ⟨rfl, sameHost⟩
    rw [sameHost]

def exampleHost : NormalHost :=
  ⟨ascii "a.example.com", .inr ⟨ascii "A.Example.com:8080", by decide +kernel⟩⟩

def exampleSuffix : NormalHost :=
  ⟨ascii "example.com", .inr ⟨ascii "example.com.", by decide +kernel⟩⟩

/-- The key of a wildcard's suffix starts the key of a host below it. -/
theorem suffixKey_starts_hostKey :
    ∃ key suffixKey, hostKey ⟨7⟩ exampleHost.bytes = .ok key ∧
      hostKey ⟨7⟩ exampleSuffix.bytes = .ok suffixKey ∧ suffixKey <+: key ∧ suffixKey ≠ key := by
  rcases hostKey_orders_wildcards ⟨7⟩ ⟨7⟩ exampleHost exampleSuffix with
    ⟨key, suffixKey, isKey, isSuffixKey, starts, same⟩
  have below : dot :: exampleSuffix.bytes <:+ exampleHost.bytes := ⟨ascii "a", by decide⟩
  exact ⟨key, suffixKey, isKey, isSuffixKey, starts.mpr ⟨rfl, .inr (.inr below)⟩,
    fun equal => absurd (same.mp equal).2 (by decide)⟩

end IronTraffic.Router
