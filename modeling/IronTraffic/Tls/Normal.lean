import IronTraffic.Tls.Name

/-! # Normalized names

What `normalize` returns is its input in lower case, and normalizing it again changes
nothing.
-/

namespace IronTraffic.Tls

open List

def lowerByte (byte : UInt8) : UInt8 := if isAsciiUppercase byte then byte ||| 32 else byte

def isLabelByte (byte : UInt8) : Bool :=
  isAsciiUppercase byte || isAsciiLowercase byte || isAsciiDigit byte || byte == hyphen

lemma lowerByte_spec (byte : UInt8) :
    (lowerByte byte = dot ↔ byte = dot) ∧ (lowerByte byte = hyphen ↔ byte = hyphen) ∧
      isAsciiUppercase (lowerByte byte) = false ∧ isLabelByte (lowerByte byte) = isLabelByte byte ∧
      lowerByte (lowerByte byte) = lowerByte byte := by
  revert byte
  exact forall_byte (by decide +kernel)

lemma map_lowerByte_eq_hyphen (byte : Option UInt8) :
    byte.map lowerByte = some hyphen ↔ byte = some hyphen := by
  rw [Option.map_eq_some_iff]
  constructor
  · rintro ⟨hit, rfl, isHyphen⟩
    rw [(lowerByte_spec hit).2.1.mp isHyphen]
  · intro hit
    exact ⟨hyphen, hit, (lowerByte_spec hyphen).2.1.mpr rfl⟩

lemma validateLabel_map (label : Bytes) :
    validateLabel (label.map lowerByte) = validateLabel label := by
  simp only [validateLabel, isEmpty_map, length_map, head?_map, getLast?_map,
    map_lowerByte_eq_hyphen]

lemma endLabel_map (label : Bytes) (labelCount : Nat) :
    endLabel (label.map lowerByte) labelCount = endLabel label labelCount := by
  unfold endLabel
  rw [validateLabel_map]

lemma normalizeFrom_cons (notDot : byte ≠ dot) (rest label : Bytes) (labelCount : Nat)
    (out : Bytes) :
    normalizeFrom (byte :: rest) label labelCount out =
      if isLabelByte byte then
        normalizeFrom rest (label ++ [byte]) labelCount (out ++ [lowerByte byte])
      else .error .illegalByte := by
  rw [normalizeFrom, if_neg notDot]
  unfold isLabelByte lowerByte
  cases isAsciiUppercase byte with
  | true | false => simp

lemma normalizeFrom_ok {labelCount : Nat}
    (gave : normalizeFrom bytes label labelCount out = .ok result) :
    result = out ++ bytes.map lowerByte ∧ (bytes = [] → label ≠ []) ∧ bytes.getLast? ≠ some dot ∧
    ∀ out',
      normalizeFrom (bytes.map lowerByte) (label.map lowerByte) labelCount out' =
        .ok (out' ++ bytes.map lowerByte) := by
  induction bytes generalizing label labelCount out result with
  | nil =>
    rcases bind_eq_ok_iff.mp gave with ⟨_, accepted, equal⟩
    cases equal
    refine ⟨by simp, ?_, by simp, ?_⟩
    · rintro _ rfl
      cases accepted
    · intro out'
      rw [map_nil, normalizeFrom, endLabel_map, accepted, append_nil]
      rfl
  | cons byte rest induction =>
    by_cases isDot : byte = dot
    · subst isDot
      rcases bind_eq_ok_iff.mp gave with ⟨_, accepted, gave⟩
      rcases induction gave with ⟨written, notEmpty, last, again⟩
      have lowerDot : lowerByte dot = dot := rfl
      refine ⟨?_, by simp, ?_, ?_⟩
      · rw [written, map_cons, lowerDot, append_assoc]
        rfl
      · cases rest with
        | nil => exact absurd rfl (notEmpty rfl)
        | cons next rest =>
          exact last
      · intro out'
        rw [map_cons, lowerDot, normalizeFrom, if_pos rfl, endLabel_map, accepted]
        show normalizeFrom (rest.map lowerByte) [] (labelCount + 1) (out' ++ [dot]) = _
        have next := again (out' ++ [dot])
        rw [map_nil] at next
        rw [next, append_assoc]
        rfl
    · rcases lowerByte_spec byte with ⟨dots, _, _, labels, twice⟩
      rw [normalizeFrom_cons isDot] at gave
      cases inLabel : isLabelByte byte with
      | false =>
        rw [inLabel] at gave
        cases gave
      | true =>
        rw [inLabel, if_pos rfl] at gave
        rcases induction gave with ⟨written, notEmpty, last, again⟩
        refine ⟨?_, by simp, ?_, ?_⟩
        · rw [written, map_cons, append_assoc]
          rfl
        · cases rest with
          | nil => simpa using isDot
          | cons next rest =>
            exact last
        · intro out'
          have next := again (out' ++ [lowerByte byte])
          rw [map_append, map_singleton] at next
          rw [map_cons, normalizeFrom_cons (fun same => isDot (dots.mp same)), labels,
            inLabel, if_pos rfl, twice, next, append_assoc]
          rfl

lemma normalize_ok (gave : normalize raw = .ok name) :
    normalize name = .ok name ∧ name.length ≤ maxNameLen := by
  unfold normalize at gave
  rcases of_ite_error gave with ⟨notEmpty, gave⟩
  rcases of_ite_error gave with ⟨short, gave⟩
  rcases normalizeFrom_ok gave with ⟨written, _, last, again⟩
  rw [nil_append] at written
  have length : name.length = (stripDot raw).length := by rw [written, length_map]
  have bound : name.length ≤ maxNameLen := length ▸ not_lt.mp short
  refine ⟨?_, bound⟩
  have lastName : name.getLast? ≠ some dot := by
    rw [written, getLast?_map, ne_eq, Option.map_eq_some_iff]
    rintro ⟨byte, hit, isDot⟩
    rw [(lowerByte_spec byte).1.mp isDot] at hit
    exact last hit
  have stripped : stripDot name = name := if_neg lastName
  have notEmptyName : name.isEmpty = false := by
    rw [written, isEmpty_map]
    exact Bool.eq_false_of_not_eq_true notEmpty
  unfold normalize
  simp only
  rw [stripped, notEmptyName, if_neg (by simp), if_neg (not_lt.mpr bound)]
  have same := again []
  rw [map_nil, nil_append, ← written] at same
  exact same

end IronTraffic.Tls
