import IronTraffic.Http.Field

/-! # Field sections

The header fields of a message: one arena of name and value bytes, and a flat index of
slots with a mask of the known headers among them. A builder writes a section; every
section can be read back at all of its slots.
-/

namespace IronTraffic.Http

open List

/-! ## Known headers -/

/-- The header names that are interpreted, in the order of their tags. -/
inductive KnownHeader where
  | unknown | host | contentLength | transferEncoding | connection | proxyConnection
  | keepAlive | upgrade | http2Settings | trailer | te | proxyAuthenticate
  | proxyAuthorization | expect | contentType | contentEncoding | accept | acceptEncoding
  | acceptLanguage | authorization | cookie | setCookie | userAgent | referer | origin | date
  | server | location | cacheControl | pragma | vary | age | etag | ifNoneMatch
  | ifModifiedSince | ifMatch | ifUnmodifiedSince | range | ifRange | maxForwards | forwarded
  | xForwardedFor | xForwardedProto | xForwardedHost | xForwardedPort | xRealIp | priority
  | via | warning | allow | retryAfter | wwwAuthenticate
  deriving DecidableEq

namespace KnownHeader

def asBytes : KnownHeader → Bytes
  | .unknown => []
  | .host => ascii "host"
  | .contentLength => ascii "content-length"
  | .transferEncoding => ascii "transfer-encoding"
  | .connection => ascii "connection"
  | .proxyConnection => ascii "proxy-connection"
  | .keepAlive => ascii "keep-alive"
  | .upgrade => ascii "upgrade"
  | .http2Settings => ascii "http2-settings"
  | .trailer => ascii "trailer"
  | .te => ascii "te"
  | .proxyAuthenticate => ascii "proxy-authenticate"
  | .proxyAuthorization => ascii "proxy-authorization"
  | .expect => ascii "expect"
  | .contentType => ascii "content-type"
  | .contentEncoding => ascii "content-encoding"
  | .accept => ascii "accept"
  | .acceptEncoding => ascii "accept-encoding"
  | .acceptLanguage => ascii "accept-language"
  | .authorization => ascii "authorization"
  | .cookie => ascii "cookie"
  | .setCookie => ascii "set-cookie"
  | .userAgent => ascii "user-agent"
  | .referer => ascii "referer"
  | .origin => ascii "origin"
  | .date => ascii "date"
  | .server => ascii "server"
  | .location => ascii "location"
  | .cacheControl => ascii "cache-control"
  | .pragma => ascii "pragma"
  | .vary => ascii "vary"
  | .age => ascii "age"
  | .etag => ascii "etag"
  | .ifNoneMatch => ascii "if-none-match"
  | .ifModifiedSince => ascii "if-modified-since"
  | .ifMatch => ascii "if-match"
  | .ifUnmodifiedSince => ascii "if-unmodified-since"
  | .range => ascii "range"
  | .ifRange => ascii "if-range"
  | .maxForwards => ascii "max-forwards"
  | .forwarded => ascii "forwarded"
  | .xForwardedFor => ascii "x-forwarded-for"
  | .xForwardedProto => ascii "x-forwarded-proto"
  | .xForwardedHost => ascii "x-forwarded-host"
  | .xForwardedPort => ascii "x-forwarded-port"
  | .xRealIp => ascii "x-real-ip"
  | .priority => ascii "priority"
  | .via => ascii "via"
  | .warning => ascii "warning"
  | .allow => ascii "allow"
  | .retryAfter => ascii "retry-after"
  | .wwwAuthenticate => ascii "www-authenticate"

def all : List KnownHeader := (List.range 52).map KnownHeader.ofNat

/-- The known header with that spelling. The source compares the spellings of the
name's length and first byte only. -/
def classify (name : Bytes) : KnownHeader :=
  (all.find? fun known => known != .unknown && known.asBytes == name).getD .unknown

/-- `known_mask_bit`. -/
def maskBit (known : KnownHeader) : BitVec 64 := BitVec.twoPow 64 known.ctorIdx

lemma ctorIdx_inj {left right : KnownHeader} (same : left.ctorIdx = right.ctorIdx) :
    left = right := by
  have back := congrArg KnownHeader.ofNat same
  rwa [ofNat_ctorIdx, ofNat_ctorIdx] at back

lemma ctorIdx_lt (known : KnownHeader) : known.ctorIdx < 64 := by
  cases known <;> decide

lemma and_maskBit_or (mask : BitVec 64) (known added : KnownHeader) :
    (mask ||| added.maskBit) &&& known.maskBit ≠ 0 ↔
      mask &&& known.maskBit ≠ 0 ∨ added = known := by
  have bit : ∀ mask : BitVec 64, mask &&& known.maskBit ≠ 0 ↔ mask.getLsbD known.ctorIdx := by
    intro mask
    rw [maskBit, BitVec.and_twoPow]
    split
    case isTrue set =>
      refine iff_of_true (fun zero => ?_) set
      have bits := congrArg (·.getLsbD known.ctorIdx) zero
      simp [known.ctorIdx_lt] at bits
    case isFalse unset => exact iff_of_false (fun set => set rfl) unset
  rw [bit, bit, BitVec.getLsbD_or, Bool.or_eq_true]
  apply or_congr_right
  rw [maskBit, BitVec.getLsbD_twoPow]
  simp only [Bool.and_eq_true, decide_eq_true_eq, added.ctorIdx_lt, true_and]
  exact ⟨ctorIdx_inj, congrArg _⟩

end KnownHeader

/-! ## Sections -/

abbrev FieldFlags := UInt8

/-- One field line's index entry, with offsets into the arena. -/
structure FieldSlot where
  nameOff : Nat
  valueOff : Nat
  nameLen : Nat
  valueLen : Nat
  known : KnownHeader
  flags : FieldFlags

def slotBytes (arena : Bytes) (off len : Nat) : Option Bytes := slice arena off (off + len)

def Masked (mask : BitVec 64) (slots : List FieldSlot) : Prop :=
  ∀ known, known ≠ .unknown → (mask &&& known.maskBit ≠ 0 ↔ ∃ slot ∈ slots, slot.known = known)

/-- A slot's name and value lie in the arena, and the name has the slot's class. -/
structure FieldSlot.Reads (arena : Bytes) (slot : FieldSlot) : Prop where
  name : ∃ name, slotBytes arena slot.nameOff slot.nameLen = some name ∧
    KnownHeader.classify name = slot.known
  value : ∃ value, slotBytes arena slot.valueOff slot.valueLen = some value

variable {slot : FieldSlot}

lemma FieldSlot.Reads.append (reads : slot.Reads arena) (more : Bytes) :
    slot.Reads (arena ++ more) where
  name := by
    rcases reads.name with ⟨name, hit, known⟩
    exact ⟨name, slice_append_of_eq_some hit more, known⟩
  value := by
    rcases reads.value with ⟨value, hit⟩
    exact ⟨value, slice_append_of_eq_some hit more⟩

lemma Masked.append (masked : Masked mask slots) (slot) :
    Masked (if slot.known ≠ .unknown then mask ||| slot.known.maskBit else mask)
      (slots ++ [slot]) := by
  intro known isKnown
  have old := masked known isKnown
  simp only [mem_append, mem_singleton, or_and_right, exists_or, exists_eq_left]
  split
  case isTrue => rw [KnownHeader.and_maskBit_or, old]
  case isFalse isUnknown =>
    have other : slot.known ≠ known := fun same => isUnknown (same ▸ isKnown)
    simp only [old, other, or_false]

structure FieldSection where
  arena : Bytes
  slots : List FieldSlot
  knownMask : BitVec 64
  masked : Masked knownMask slots
  reads : ∀ slot ∈ slots, slot.Reads arena

namespace FieldSection

def nameBytes (fields : FieldSection) (slot : FieldSlot) : Option Bytes :=
  slotBytes fields.arena slot.nameOff slot.nameLen

section

variable (fields : FieldSection)

end

end FieldSection

/-! ## Building -/

def validateName (name : Bytes) : Except RejectReason Unit :=
  if name = [] then .error .fieldNameEmpty
  else
    name.forM fun byte =>
      if isAsciiUppercase byte then .error .fieldNameUppercase
      else if byte = 95 then .error .fieldNameUnderscore
      else if nameByteOk byte then .ok ()
      else .error .fieldNameInvalidByte

def validateValue (value : Bytes) (version : WireVersion) : Except RejectReason Unit :=
  if !value.all valueByteOk then .error .fieldValueInvalidByte
  else if version.isMultiplexed && value.head?.any isOws then .error .fieldValueLeadingWhitespace
  else if version.isMultiplexed && value.getLast?.any isOws then
    .error .fieldValueTrailingWhitespace
  else .ok ()

/-- A section under construction. The arena holds what was written since the builder
was made. -/
structure FieldSectionBuilder where
  arena : Bytes
  slots : List FieldSlot
  knownMask : BitVec 64
  limits : ClampedLimits
  listBytes : Nat
  anyUnderscoreMapped : Bool
  masked : Masked knownMask slots
  reads : ∀ slot ∈ slots, slot.Reads arena
  charged : arena.length ≤ listBytes
  within : listBytes ≤ limits.maxHeaderListBytes

namespace FieldSectionBuilder

def new (limits : ClampedLimits) : FieldSectionBuilder where
  arena := []
  slots := []
  knownMask := 0
  limits
  listBytes := 0
  anyUnderscoreMapped := false
  masked := by
    intro known _
    refine iff_of_false (fun set => set ?_) ?_
    · exact BitVec.zero_and
    · simp
  reads := nofun
  charged := le_refl _
  within := Nat.zero_le _

/-- What a field of these lengths makes of the list size. -/
structure Admitted (builder : FieldSectionBuilder) (nameLen valueLen : Nat) where
  next : Nat
  nameShort : nameLen < 2 ^ 16
  valueShort : valueLen < 2 ^ 16
  charges : builder.listBytes + (nameLen + valueLen) ≤ next
  fits : next ≤ builder.limits.maxHeaderListBytes

def admitField (builder : FieldSectionBuilder) (nameLen valueLen : Nat) :
    Except RejectReason (builder.Admitted nameLen valueLen) :=
  if builder.limits.maxFieldCount ≤ builder.slots.length then .error .fieldCountExceeded
  else if short : nameLen < 2 ^ 16 ∧ valueLen < 2 ^ 16 then
    if builder.limits.maxFieldLineBytes < nameLen + valueLen then .error .fieldLineTooLong
    else
      let next := builder.listBytes + nameLen + valueLen + 32
      if small : next ≤ builder.limits.maxHeaderListBytes then
        .ok ⟨next, short.1, short.2, by simp only [next]; omega, small⟩
      else .error .headerListTooLarge
  else .error .fieldLineTooLong

def nextSlot (builder : FieldSectionBuilder) (name value : Bytes) (flags : FieldFlags) :
    FieldSlot where
  nameOff := toU32 builder.arena.length
  valueOff := toU32 (builder.arena ++ name).length
  nameLen := toU16 name.length
  valueLen := toU16 value.length
  known := KnownHeader.classify name
  flags

lemma nextSlot_reads (builder : FieldSectionBuilder) (flags)
    (admitted : builder.Admitted name.length value.length) :
    (builder.nextSlot name value flags).Reads (builder.arena ++ name ++ value) := by
  have charged := builder.charged
  have charges := admitted.charges
  have fits := admitted.fits
  have ceiling := builder.limits.headerListBytes
  have nameOff : toU32 builder.arena.length = builder.arena.length :=
    min_eq_left (by omega)
  have valueOff : toU32 (builder.arena ++ name).length = (builder.arena ++ name).length :=
    min_eq_left (by rw [length_append]; omega)
  have nameLen : toU16 name.length = name.length :=
    min_eq_left (by have short := admitted.nameShort; omega)
  have valueLen : toU16 value.length = value.length :=
    min_eq_left (by have short := admitted.valueShort; omega)
  constructor
  case name =>
    refine ⟨name, ?_, rfl⟩
    simp only [nextSlot, slotBytes, nameOff, nameLen]
    exact slice_append_of_eq_some (slice_append _ _) value
  case value =>
    refine ⟨value, ?_⟩
    simp only [nextSlot, slotBytes, valueOff, valueLen]
    exact slice_append _ _

def write (builder : FieldSectionBuilder) (name value : Bytes) (flags : FieldFlags)
    (admitted : builder.Admitted name.length value.length) (mapped : Bool) :
    FieldSectionBuilder where
  arena := builder.arena ++ name ++ value
  slots := builder.slots ++ [builder.nextSlot name value flags]
  knownMask :=
    let known := KnownHeader.classify name
    if known ≠ .unknown then builder.knownMask ||| known.maskBit else builder.knownMask
  limits := builder.limits
  listBytes := admitted.next
  anyUnderscoreMapped := builder.anyUnderscoreMapped || mapped
  masked := builder.masked.append (builder.nextSlot name value flags)
  reads := by
    intro slot mem
    rcases mem_append.mp mem with old | new
    case inl =>
      rw [append_assoc]
      exact (builder.reads slot old).append _
    case inr =>
      rw [mem_singleton.mp new]
      exact builder.nextSlot_reads flags admitted
  charged := by
    have charged := builder.charged
    have charges := admitted.charges
    simp only [length_append]
    omega
  within := admitted.fits

def pushWithFlags (builder : FieldSectionBuilder) (name value : Bytes) (flags : FieldFlags) :
    Except RejectReason FieldSectionBuilder := do
  let admitted ← builder.admitField name.length value.length
  validateName name
  validateValue value .h2
  return builder.write name value flags admitted false

def push (builder : FieldSectionBuilder) (name value : Bytes) :
    Except RejectReason FieldSectionBuilder :=
  builder.pushWithFlags name value 0

def finish (builder : FieldSectionBuilder) : FieldSection where
  arena := builder.arena
  slots := builder.slots
  knownMask := builder.knownMask
  masked := builder.masked
  reads := builder.reads

end FieldSectionBuilder

end IronTraffic.Http
