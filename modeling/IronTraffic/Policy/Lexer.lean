import IronTraffic.Policy.Syntax

/-! # The lexer

The raw tokens are found by a generated scanner, which is a parameter here:
for each token or unreadable position it yields the kind and the source range.
The lexer decodes string literals, reads integers, separates keywords from
identifiers and enforces the limits.
-/

namespace IronTraffic.Policy

inductive LexError where
  | unexpectedByte (spot : Nat) (byte : UInt8)
  | unterminatedString (spot : Nat)
  | badEscape (spot : Nat)
  | badUnicodeEscape (spot : Nat)
  | intOverflow (spot : Nat)
  | sourceTooLong (len max : Nat)
  | tooManyTokens (max : Nat)
  | stringTooLong (spot max : Nat)
  | notUtf8 (spot : Nat)

inductive Punct where
  | lParen
  | rParen
  | lBracket
  | rBracket
  | comma
  | dot
  | question
  | colon
  | bangEq
  | bang
  | andAnd
  | orOr
  | eqEq
  | le
  | lt
  | ge
  | gt

inductive RawTok where
  | rawStr
  | rawInt
  | ident
  | punct (punct : Punct)

/-- `raw_to_tok`, for the kinds that carry no text. -/
def Punct.toTok : Punct → Tok
  | lParen => .lParen
  | rParen => .rParen
  | lBracket => .lBracket
  | rBracket => .rBracket
  | comma => .comma
  | dot => .dot
  | question => .question
  | colon => .colon
  | bangEq => .bangEq
  | bang => .bang
  | andAnd => .andAnd
  | orOr => .orOr
  | eqEq => .eqEq
  | le => .le
  | lt => .lt
  | ge => .ge
  | gt => .gt

/-- The generated scanner: kinds and ranges in source order, `none` where no
token starts. -/
abbrev Scanner := Bytes → List (Option RawTok × Span)

def keywordOrIdent (source : Bytes) (span : Span) : Tok :=
  let text := span.slice source
  if text = some (ascii "true") then .bool true
  else if text = some (ascii "false") then .bool false
  else if text = some (ascii "null") then .null
  else if text = some (ascii "in") then .isIn
  else .ident span

def digitsValue (digits : Bytes) : Option Nat :=
  if digits = [] then none
  else digits.foldlM
    (fun value byte =>
      if 48 ≤ byte ∧ byte ≤ 57 then some (value * 10 + (byte.toNat - 48)) else none) 0

/-- `str::parse::<i64>`. -/
def parseI64 (text : Bytes) : Option Int :=
  match text with
  | 45 :: digits => (digitsValue digits).bind fun value =>
    if value ≤ 9223372036854775808 then some (-(value : Int)) else none
  | 43 :: digits => (digitsValue digits).bind fun value =>
    if value ≤ 9223372036854775807 then some (value : Int) else none
  | digits => (digitsValue digits).bind fun value =>
    if value ≤ 9223372036854775807 then some (value : Int) else none

def hexDigit (byte : UInt8) : Option Nat :=
  if 48 ≤ byte ∧ byte ≤ 57 then some (byte.toNat - 48)
  else if 97 ≤ byte ∧ byte ≤ 102 then some (byte.toNat - 97 + 10)
  else if 65 ≤ byte ∧ byte ≤ 70 then some (byte.toNat - 65 + 10)
  else none

def hexValue (digits : Bytes) : Option Nat :=
  digits.foldlM (fun value byte => (hexDigit byte).map fun digit => value * 16 + digit) 0

/-- `char::encode_utf8` below `0x10000`. -/
def encodeUtf8 (code : Nat) : Bytes :=
  if code < 128 then [code.toUInt8]
  else if code < 2048 then [(192 + code / 64).toUInt8, (128 + code % 64).toUInt8]
  else
    [(224 + code / 4096).toUInt8, (128 + code / 64 % 64).toUInt8, (128 + code % 64).toUInt8]

def simpleEscape (escape : UInt8) : Option UInt8 :=
  if escape = 110 then some 10
  else if escape = 114 then some 13
  else if escape = 116 then some 9
  else if escape = 92 ∨ escape = 34 ∨ escape = 39 then some escape
  else if escape = 48 then some 0
  else none

def pushDecoded (quote max : Nat) : Bytes → Bytes → Except LexError Bytes
  | decoded, [] => .ok decoded
  | decoded, byte :: rest =>
    if max ≤ decoded.length then .error (.stringTooLong quote max)
    else pushDecoded quote max (decoded ++ [byte]) rest

/-- Decodes the content of a string literal from `spot` on; `decoded` holds
the bytes of this literal so far, and `quote` is its opening quote. -/
def decodeFrom (quote max : Nat) :
    Nat → Bytes → Bytes → Except LexError Bytes
  | _, decoded, [] => .ok decoded
  | spot, decoded, byte :: rest =>
    if max ≤ decoded.length then .error (.stringTooLong quote max)
    else if byte ≠ 92 then decodeFrom quote max (spot + 1) (decoded ++ [byte]) rest
    else
      match rest with
      | [] => .error (.badEscape (quote + 1 + spot))
      | 120 :: rest =>
        match rest with
        | high :: low :: rest =>
          match hexValue [high, low] with
          | some code => decodeFrom quote max (spot + 4) (decoded ++ [code.toUInt8]) rest
          | none => .error (.badEscape (quote + 1 + spot))
        | _ => .error (.badEscape (quote + 1 + spot))
      | 117 :: rest =>
        match rest with
        | a :: b :: c :: d :: rest =>
          match hexValue [a, b, c, d] with
          | some code =>
            if 0xD800 ≤ code ∧ code ≤ 0xDFFF then
              .error (.badUnicodeEscape (quote + 1 + spot))
            else do
              let decoded ← pushDecoded quote max decoded (encodeUtf8 code)
              decodeFrom quote max (spot + 6) decoded rest
          | none => .error (.badEscape (quote + 1 + spot))
        | _ => .error (.badEscape (quote + 1 + spot))
      | escape :: rest =>
        match simpleEscape escape with
        | some plain => decodeFrom quote max (spot + 2) (decoded ++ [plain]) rest
        | none => .error (.badEscape (quote + 1 + spot))

def decodeString (source : Bytes) (span : Span) (max : Nat) : Except LexError Bytes :=
  match span.slice source with
  | none => .error (.unterminatedString span.start)
  | some text =>
    if text.length < 2 then .error (.unterminatedString span.start)
    else decodeFrom span.start max 0 [] ((text.drop 1).take (text.length - 2))

def lexToken (source : Bytes) (limits : PolicyLimits) (out : TokenStream)
    (raw : Option RawTok) (span : Span) : Except LexError TokenStream :=
  if limits.maxTokens.toNat ≤ out.toks.length then
    .error (.tooManyTokens limits.maxTokens.toNat)
  else
    match raw with
    | none =>
      let byte := source[span.start]?.getD 0
      if byte = 34 ∨ byte = 39 then .error (.unterminatedString span.start)
      else .error (.unexpectedByte span.start byte)
    | some .rawStr => do
      let decoded ← decodeString source span limits.maxStringBytes.toNat
      let text : Span := ⟨out.strings.length, out.strings.length + decoded.length⟩
      .ok ⟨out.toks ++ [⟨.str text, span⟩], out.strings ++ decoded⟩
    | some .rawInt =>
      match (span.slice source).bind parseI64 with
      | some value => .ok { out with toks := out.toks ++ [⟨.int value, span⟩] }
      | none => .error (.intOverflow span.start)
    | some .ident =>
      .ok { out with toks := out.toks ++ [⟨keywordOrIdent source span, span⟩] }
    | some (.punct punct) => .ok { out with toks := out.toks ++ [⟨punct.toTok, span⟩] }

def lex (scan : Scanner) (source : Bytes) (limits : PolicyLimits) :
    Except LexError TokenStream :=
  if limits.maxSourceBytes.toNat < source.length then
    .error (.sourceTooLong source.length limits.maxSourceBytes.toNat)
  else
    match utf8Error source with
    | some spot => .error (.notUtf8 spot)
    | none =>
      (scan source).foldlM (fun out raw => lexToken source limits out raw.1 raw.2) ⟨[], []⟩

end IronTraffic.Policy
