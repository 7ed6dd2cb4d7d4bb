import Daemonseed.Dm.Store
import Daemonseed.Lib.Bytes
import Daemonseed.Lib.Stamped

/-! # A correspondent's route and handle

The reach a correspondent issues under a rising serial, the two records of a
correspondence it is kept in, and the sections that take a reach in and forget a
route. Here byte strings are lists of bytes, the route record is its encoding,
and a record can be left scrubbed by a stopped delete, or not read at all. -/
namespace Daemonseed.Dm.Routes
open Daemonseed.Lib.Bytes Daemonseed.Lib.Stamped Daemonseed.Lib.Results Daemonseed.Dm.Store

abbrev U64 := Fin (2 ^ 64)

/-! ## Handles -/

def hashPrefixBytes : Nat := 6

def hashPrefixHexChars : Nat := hashPrefixBytes * 2

/-- `<display-name>#<12 hex>`, or `#<12 hex>` with no name. -/
structure Handle where
  displayName : Option String
  hashPrefix : Octets
  deriving DecidableEq

inductive DisplayMode
  | default | verify | collision | anonymous

inductive HandleParseError
  | missingHashSeparator
  | invalidHashLength (found expected : Nat)
  | invalidHashHex
  | displayNameHasHash
  | displayNameHasUnsafeChar
  deriving DecidableEq, Repr

/-- `char::is_control`. -/
def isControl (c : Char) : Bool :=
  c.toNat < 0x20 ∨ 0x7f ≤ c.toNat ∧ c.toNat < 0xa0

def isUnsafeDisplayNameChar (c : Char) : Bool :=
  isControl c = true ∨ c.toNat = 0x061c ∨ c.toNat = 0x200e ∨ c.toNat = 0x200f ∨
    0x202a ≤ c.toNat ∧ c.toNat ≤ 0x202e ∨ 0x2066 ≤ c.toNat ∧ c.toNat ≤ 0x2069

def hexDigit (n : Nat) : Char := if n < 10 then Char.ofNat (48 + n) else Char.ofNat (87 + n)

def hexValue (c : Char) : Option Nat :=
  if '0' ≤ c ∧ c ≤ '9' then some (c.toNat - 48)
  else if 'a' ≤ c ∧ c ≤ 'f' then some (c.toNat - 87)
  else if 'A' ≤ c ∧ c ≤ 'F' then some (c.toNat - 55)
  else none

/-- `hex::encode`. -/
def hexEncode (bytes : Octets) : String :=
  String.ofList (bytes.flatMap fun b => [hexDigit (b.toNat / 16), hexDigit (b.toNat % 16)])

/-- `hex::decode_to_slice`, over as many bytes as the digits make. -/
def hexDecode : List Char → Option Octets
  | [] => some []
  | hi :: lo :: rest => do
    let hi ← hexValue hi
    let lo ← hexValue lo
    return UInt8.ofNat (hi * 16 + lo) :: (← hexDecode rest)
  | [_] => none

namespace Handle

/-- `FromStr for Handle`: the last `#` parts the name from the digits. -/
def parse (s : String) : Except HandleParseError Handle :=
  match s.toList.reverse.span (· ≠ '#') with
  | (_, []) => .error .missingHashSeparator
  | (hexRev, _ :: nameRev) =>
    let hex := hexRev.reverse
    let name := nameRev.reverse
    if (String.ofList hex).utf8ByteSize ≠ hashPrefixHexChars then
      .error (.invalidHashLength (String.ofList hex).utf8ByteSize hashPrefixHexChars)
    else
      match hexDecode hex with
      | none => .error .invalidHashHex
      | some hashPrefix =>
        if '#' ∈ name then .error .displayNameHasHash
        else if name.any isUnsafeDisplayNameChar then .error .displayNameHasUnsafeChar
        else .ok ⟨if name = [] then none else some (String.ofList name), hashPrefix⟩

/-- The digest is refused before its self-test passed. -/
def fromPubkey (sha384 : Octets → Option Octets) (displayName : Option String)
    (pubkey : Octets) : Option Handle :=
  (sha384 pubkey).map fun digest => ⟨displayName, digest.take hashPrefixBytes⟩

def format (self : Handle) (mode : DisplayMode) : String :=
  let hex := hexEncode self.hashPrefix
  match mode, self.displayName with
  | .default, some name => name
  | .default, none => "#" ++ hex
  | .verify, some name | .collision, some name => name ++ "#" ++ hex
  | .verify, none | .collision, none => "#" ++ hex
  | .anonymous, _ => "#" ++ hex

end Handle

/-! ## The reach -/

def reachRouteMaxLen : Nat := 4096

/-- How a correspondent says it can be reached directly. -/
structure Reach where
  route : Option Octets
  handle : Option String
  deriving DecidableEq

namespace Reach

/-- The handle in its canonical form, where its hash part names the writer. -/
def verifiedHandle (sha384 : Octets → Option Octets) (self : Reach) (writerIdentityPk : Octets) :
    Option String := do
  let handle ← self.handle
  let claimed ← (Handle.parse handle).toOption
  let actual ← Handle.fromPubkey sha384 none writerIdentityPk
  if claimed.hashPrefix = actual.hashPrefix then some (claimed.format .verify) else none

/-- The route a take may keep: not empty, and within the record's field. -/
def usableRoute (self : Reach) : Option Octets :=
  self.route.filter fun route => !route.isEmpty && decide (route.length ≤ reachRouteMaxLen)

end Reach

/-! ## The records -/

def magic (text : String) : Octets := text.toList.map (UInt8.ofNat ·.toNat) ++ [0]

def routeMagic : Octets := magic "daemonseed/dm/store/rout/v1"

def routeRecordVersion : UInt8 := 2

def handleMagic : Octets := magic "daemonseed/dm/store/hndl/v1"

def handleRecordVersion : UInt8 := 1

def handleMaxLen : Nat := 256

namespace Reader

/-- The next field of a record. -/
def take (n : Nat) (bytes : Octets) : Except StoreError (Octets × Octets) :=
  match takeFront n bytes with
  | none => .error (.corrupt "the record ended inside a field")
  | some field => .ok field

def headerVersion (magic : Octets) (version : UInt8) (bytes : Octets) :
    Except StoreError Octets := do
  let (head, bytes) ← take magic.length bytes
  if head ≠ magic then .error (.corrupt "the record does not begin with its magic")
  else
    let (found, bytes) ← take 1 bytes
    if found ≠ [version] then .error (.corrupt "the record carries an unknown version")
    else .ok bytes

def finish (bytes : Octets) : Except StoreError Unit :=
  if bytes = [] then .ok () else .error (.corrupt "the record is not its kind's fixed width")

end Reader

/-- The route's field, and the reach serial applied. -/
def encodeRoute (route : Octets) (serial : U64) : Octets :=
  let route := route.take reachRouteMaxLen
  routeMagic ++ ([routeRecordVersion] ++ (toBe 2 route.length ++
    (padded route reachRouteMaxLen ++ (toBe 8 serial.val ++ []))))

def decodeRoute (bytes : Octets) : Except StoreError (Option Octets × U64) := do
  let bytes ← Reader.headerVersion routeMagic routeRecordVersion bytes
  let (len, bytes) ← Reader.take 2 bytes
  let (field, bytes) ← Reader.take reachRouteMaxLen bytes
  if field.length < fromBe len then
    .error (.corrupt "the route's length runs past its field")
  else
    let route := field.take (fromBe len)
    let (serial, bytes) ← Reader.take 8 bytes
    Reader.finish bytes
    .ok (if route = [] then none else some route, Fin.ofNat _ (fromBe serial))

/-- Cut to the longest run of whole characters within the bound. -/
def cutHandle (handle : String) : String :=
  String.ofList (go handleMaxLen handle.toList)
where
  go : Nat → List Char → List Char
    | _, [] => []
    | room, c :: rest => if room < c.utf8Size then [] else c :: go (room - c.utf8Size) rest

def encodeHandle (handle : String) : Octets :=
  let bytes := (cutHandle handle).toUTF8.toList
  handleMagic ++ ([handleRecordVersion] ++ (toBe 2 bytes.length ++ padded bytes handleMaxLen))

def decodeHandle (bytes : Octets) : Except StoreError String := do
  let bytes ← Reader.headerVersion handleMagic handleRecordVersion bytes
  let (len, bytes) ← Reader.take 2 bytes
  let (field, bytes) ← Reader.take handleMaxLen bytes
  if field.length < fromBe len then
    .error (.corrupt "the handle's length runs past its field")
  else
    match String.fromUTF8? ⟨(field.take (fromBe len)).toArray⟩ with
    | none => .error (.corrupt "the handle is not UTF-8")
    | some handle => do
      Reader.finish bytes
      .ok handle

inductive RecordKind
  | conversation
  | correspondentHandle
  | correspondentRoute
  deriving DecidableEq, Repr

/-- What one record holds. -/
inductive Held (α : Type)
  | absent
  /-- A stopped delete had scrubbed it. -/
  | scrubbed
  | payload (value : α)
  /-- It does not authenticate, or is not the record's size. -/
  | unreadable
  deriving DecidableEq

/-- The records of one correspondence a reach is taken against. -/
structure Correspondent where
  conv : Held (ConvState Octets)
  handle : Held Octets
  route : Held Octets
  deriving DecidableEq

/-- Which records refuse a write or a removal during a section. -/
structure Faults where
  conv : Bool
  handle : Bool
  route : Bool

inductive TakeError
  /-- The record store refused, or could not read or write. -/
  | store (kind : RecordKind)
  | refused (error : StoreError)
  deriving DecidableEq, Repr

variable {α : Type}

/-- A record left by a stopped delete is removed, and reads as none. -/
def readFinishingDelete (kind : RecordKind) (faulty : Bool) :
    Held α → Except TakeError (Option α) × Held α
  | .absent => (.ok none, .absent)
  | .scrubbed => if faulty then (.error (.store kind), .scrubbed) else (.ok none, .absent)
  | .payload value => (.ok (some value), .payload value)
  | .unreadable => (.error (.store kind), .unreadable)

def readConv (faults : Faults) (c : Correspondent) :
    Except TakeError (Option (ConvState Octets)) × Correspondent :=
  match readFinishingDelete .conversation faults.conv c.conv with
  | (.error e, conv) => (.error e, { c with conv })
  | (.ok none, conv) => (.ok none, { c with conv })
  | (.ok (some state), conv) =>
    match decodeConv state with
    | .error e => (.error (.refused e), { c with conv })
    | .ok state => (.ok (some state), { c with conv })

/-- No route and serial 0 where there is no record or it does not decode. -/
def readRouteRecord (faults : Faults) (c : Correspondent) :
    Except TakeError (Option Octets × U64) × Correspondent :=
  match readFinishingDelete .correspondentRoute faults.route c.route with
  | (.error e, route) => (.error e, { c with route })
  | (.ok none, route) => (.ok (none, 0), { c with route })
  | (.ok (some bytes), route) =>
    (.ok ((decodeRoute bytes).toOption.getD (none, 0)), { c with route })

def readHandle (faults : Faults) (c : Correspondent) :
    Except TakeError (Option String) × Correspondent :=
  match readFinishingDelete .correspondentHandle faults.handle c.handle with
  | (.error e, handle) => (.error e, { c with handle })
  | (.ok none, handle) => (.ok none, { c with handle })
  | (.ok (some bytes), handle) => (.ok (decodeHandle bytes).toOption, { c with handle })

/-- One write of the route record, and what the section goes on with. -/
def replaceRoute (faults : Faults) (payload : Octets) (done : α) (c : Correspondent) :
    Except TakeError α × Correspondent :=
  if faults.route then (.error (.store .correspondentRoute), c)
  else (.ok done, { c with route := .payload payload })

namespace Correspondent

/-- The route kept and the serial applied, as a section reads them. -/
def register (c : Correspondent) : Register U64 Octets :=
  match c.route with
  | .payload bytes =>
    let held := (decodeRoute bytes).toOption.getD (none, 0)
    ⟨held.1, held.2⟩
  | _ => ⟨none, 0⟩

end Correspondent

/-! ## The sections -/

/-- How a reach stood against the highest serial applied. -/
inductive ReachTake
  | newer
  | same
  | older
  deriving DecidableEq, Repr

/-- Whether the reach is the one applied now. -/
def ReachTake.applied : ReachTake → Bool
  | .newer | .same => true
  | .older => false

/-- What a take did. -/
structure ReachApplied where
  take : ReachTake
  handleChanged : Bool
  handleError : Option TakeError
  deriving DecidableEq

/-- The serial is compared, and the route and serial are written together. -/
def landRoute (faults : Faults) (serial : U64) (route : Option Octets)
    (held : Option Octets × U64) (c : Correspondent) : Except TakeError ReachTake × Correspondent :=
  if serial < held.2 then (.ok .older, c)
  else if serial = held.2 then
    match held.1, route with
    | none, some route => replaceRoute faults (encodeRoute route serial) .same c
    | _, _ => (.ok .same, c)
  else replaceRoute faults (encodeRoute ((route.or held.1).getD []) serial) .newer c

/-- The verified handle of the reach applied, where it differs from the one
recorded. -/
def keepHandle (faults : Faults) (handle : Option String) (c : Correspondent) :
    Except TakeError Bool × Correspondent :=
  match handle with
  | none => (.ok false, c)
  | some handle =>
    let handle := cutHandle handle
    match readHandle faults c with
    | (.error e, c) => (.error e, c)
    | (.ok held, c) =>
      if held = some handle then (.ok false, c)
      else if faults.handle then (.error (.store .correspondentHandle), c)
      else (.ok true, { c with handle := .payload (encodeHandle handle) })

/-- `Store::take_reach`. -/
def takeReach (sha384 : Octets → Option Octets) (faults : Faults) (serial : U64) (reach : Reach)
    (c : Correspondent) : Except TakeError ReachApplied × Correspondent :=
  match readConv faults c with
  | (.error e, c) => (.error e, c)
  | (.ok none, c) => (.error (.refused .missingConversation), c)
  | (.ok (some state), c) =>
    match readRouteRecord faults c with
    | (.error e, c) => (.error e, c)
    | (.ok held, c) =>
      match landRoute faults serial reach.usableRoute held c with
      | (.error e, c) => (.error e, c)
      | (.ok take, c) =>
        let handle := if take.applied then reach.verifiedHandle sha384 state.peerIdentityPk else none
        match keepHandle faults handle c with
        | (.error e, c) => (.ok ⟨take, false, some e⟩, c)
        | (.ok changed, c) => (.ok ⟨take, changed, none⟩, c)

/-- `Store::forget_route`. -/
def forgetRoute (faults : Faults) (route : Octets) (c : Correspondent) :
    Except TakeError Bool × Correspondent :=
  match readRouteRecord faults c with
  | (.error e, c) => (.error e, c)
  | (.ok (held, serial), c) =>
    if held = some route then
      if serial = 0 then
        if faults.route then (.error (.store .correspondentRoute), c)
        else (.ok true, { c with route := .absent })
      else replaceRoute faults (encodeRoute [] serial) true c
    else (.ok false, c)

/-! ## What the records read back -/

theorem take_append (front rest : Octets) : Reader.take front.length (front ++ rest) =
    .ok (front, rest) := by
  rw [Reader.take, takeFront_append]

theorem take_eq {n : Nat} {front rest : Octets} (h : front.length = n) :
    Reader.take n (front ++ rest) = .ok (front, rest) := by
  subst h
  exact take_append front rest

theorem headerVersion_append (magic : Octets) (version : UInt8) (rest : Octets) :
    Reader.headerVersion magic version (magic ++ ([version] ++ rest)) = .ok rest := by
  rw [Reader.headerVersion, take_append]
  simp only [bind, Except.bind, ne_eq, not_true, if_false]
  rw [take_eq (n := 1) rfl]
  simp only [not_true, if_false]

/-- A route within its field is read back with its serial. -/
theorem decodeRoute_encodeRoute {route : Octets} {serial : U64}
    (h : route.length ≤ reachRouteMaxLen) :
    decodeRoute (encodeRoute route serial) =
      .ok (if route = [] then none else some route, serial) := by
  have hlen : fromBe (toBe 2 route.length) = route.length := by
    rw [fromBe_toBe, Nat.mod_eq_of_lt]
    exact Nat.lt_of_le_of_lt h (by decide)
  have hserial : Fin.ofNat (2 ^ 64) (fromBe (toBe 8 serial.val)) = serial := by
    apply Fin.ext
    rw [fromBe_toBe, Fin.val_ofNat]
    have := serial.isLt
    omega
  rw [encodeRoute, List.take_of_length_le h, decodeRoute, headerVersion_append]
  simp only [bind, Except.bind]
  rw [take_eq (toBe_length 2 _)]
  simp only
  rw [take_eq (padded_length h)]
  simp only [hlen, padded_length h, if_neg (Nat.not_lt_of_le h), take_padded]
  rw [take_eq (toBe_length 8 _)]
  simp only [Reader.finish, if_true, hserial]

theorem take_field {n : Nat} {bytes : Octets} {taken : Octets × Octets}
    (h : Reader.take n bytes = .ok taken) : taken.1.length = n := by
  rw [Reader.take, takeFront] at h
  split at h
  · cases h
  · rename_i field eq
    split at eq
    · cases eq
    · cases h
      cases eq
      rw [List.splitAt_eq, List.length_take]
      omega

/-- A route read back fits its field and is not empty. -/
theorem decodeRoute_route {bytes route : Octets} {serial : U64}
    (h : decodeRoute bytes = .ok (some route, serial)) :
    route ≠ [] ∧ route.length ≤ reachRouteMaxLen := by
  obtain ⟨_, -, h⟩ := bind_ok.1 h
  obtain ⟨len, -, h⟩ := bind_ok.1 h
  obtain ⟨field, hfield, h⟩ := bind_ok.1 h
  dsimp only at h
  split at h
  · cases h
  · obtain ⟨_, -, h⟩ := bind_ok.1 h
    obtain ⟨_, -, h⟩ := bind_ok.1 h
    simp only [Except.ok.injEq, Prod.mk.injEq, ite_eq_iff, reduceCtorEq, and_false, false_or,
      Option.some.injEq] at h
    obtain ⟨⟨hne, rfl⟩, -⟩ := h
    refine ⟨hne, ?_⟩
    rw [List.length_take, take_field hfield]
    exact Nat.min_le_right _ _

/-! ## What a section does to the register -/

namespace Correspondent

theorem register_payload (c : Correspondent) {route : Octets} {serial : U64}
    (h : route.length ≤ reachRouteMaxLen) :
    register { c with route := .payload (encodeRoute route serial) } =
      ⟨if route = [] then none else some route, serial⟩ := by
  simp only [register, decodeRoute_encodeRoute h]
  rfl

theorem register_value {c : Correspondent} {route : Octets} (h : c.register.value = some route) :
    route ≠ [] ∧ route.length ≤ reachRouteMaxLen := by
  rw [register] at h
  split at h
  · rename_i bytes _
    cases hd : decodeRoute bytes with
    | error e => rw [hd] at h; cases h
    | ok held =>
      obtain ⟨_, _⟩ := held
      rw [hd] at h
      cases h
      exact decodeRoute_route hd
  · cases h

end Correspondent

theorem readConv_frame (faults : Faults) (c : Correspondent) :
    (readConv faults c).2.route = c.route ∧ (readConv faults c).2.handle = c.handle := by
  unfold readConv
  split
  · exact ⟨rfl, rfl⟩
  · exact ⟨rfl, rfl⟩
  · split <;> exact ⟨rfl, rfl⟩

/-- A read of the route record reads the register and leaves it. -/
theorem readRouteRecord_ok {faults : Faults} {c c' : Correspondent} {held : Option Octets × U64}
    (h : readRouteRecord faults c = (.ok held, c')) :
    held = (c.register.value, c.register.stamp) ∧ c'.register = c.register := by
  obtain ⟨conv, handle, route⟩ := c
  cases route with
  | absent => cases h; exact ⟨rfl, rfl⟩
  | scrubbed =>
    cases hf : faults.route with
    | true => simp [readRouteRecord, readFinishingDelete, hf] at h
    | false =>
      simp only [readRouteRecord, readFinishingDelete, hf, Bool.false_eq_true, if_false] at h
      cases h
      exact ⟨rfl, rfl⟩
  | payload bytes => cases h; exact ⟨rfl, rfl⟩
  | unreadable => cases h

/-- A record with a serial applied is read as it is. -/
theorem readRouteRecord_applied (faults : Faults) {c : Correspondent}
    (h : c.register.stamp ≠ 0) :
    readRouteRecord faults c = (.ok (c.register.value, c.register.stamp), c) := by
  obtain ⟨conv, handle, route⟩ := c
  cases route with
  | payload bytes => rfl
  | absent => exact absurd rfl h
  | scrubbed => exact absurd rfl h
  | unreadable => exact absurd rfl h

theorem replaceRoute_ok {faults : Faults} {route : Octets} {serial : U64} {done done' : α}
    {c c' : Correspondent} (hlen : route.length ≤ reachRouteMaxLen)
    (h : replaceRoute faults (encodeRoute route serial) done c = (.ok done', c')) :
    c'.register = ⟨if route = [] then none else some route, serial⟩ := by
  unfold replaceRoute at h
  split at h
  · cases h
  · cases h
    exact c.register_payload hlen

/-- A comparison that goes through is one offer to the register. -/
theorem landRoute_ok {faults : Faults} {serial : U64} {route : Option Octets} {c c' : Correspondent}
    {take : ReachTake} (fits : ∀ r, route = some r → r ≠ [] ∧ r.length ≤ reachRouteMaxLen)
    (h : landRoute faults serial route (c.register.value, c.register.stamp) c = (.ok take, c')) :
    c'.register = c.register.offer serial route := by
  unfold landRoute at h
  dsimp only at h
  split at h
  · rename_i hlt
    cases h
    exact (Register.offer_below hlt).symm
  · split at h
    · rename_i heq
      subst heq
      rw [Register.offer_at]
      cases hv : c.register.value with
      | some held =>
        rw [hv] at h
        cases h
        rw [Option.some_or, ← hv]
      | none =>
        rw [hv] at h
        cases route with
        | none =>
          cases h
          rw [Option.none_or, ← hv]
        | some r =>
          obtain ⟨hne, hlen⟩ := fits r rfl
          rw [replaceRoute_ok hlen h, if_neg hne, Option.none_or]
    · rename_i hnot hne
      rw [Register.offer_above (lt_of_le_of_ne (not_lt.mp hnot) (Ne.symm hne))]
      cases hr : route.or c.register.value with
      | none =>
        rw [hr] at h
        exact replaceRoute_ok (Nat.zero_le _) h
      | some r =>
        have hfit : r ≠ [] ∧ r.length ≤ reachRouteMaxLen := by
          cases route with
          | some r' => exact fits r (by simpa using hr)
          | none => exact Correspondent.register_value (by simpa using hr)
        rw [hr] at h
        rw [replaceRoute_ok hfit.2 h, if_neg hfit.1]

theorem readHandle_frame (faults : Faults) (c : Correspondent) :
    (readHandle faults c).2.route = c.route ∧ (readHandle faults c).2.conv = c.conv := by
  unfold readHandle
  split <;> exact ⟨rfl, rfl⟩

theorem keepHandle_frame (faults : Faults) (handle : Option String) (c : Correspondent) :
    (keepHandle faults handle c).2.route = c.route ∧
      (keepHandle faults handle c).2.conv = c.conv := by
  have frame := readHandle_frame faults c
  unfold keepHandle
  split
  · exact ⟨rfl, rfl⟩
  · dsimp only
    split
    · rename_i eq
      rwa [eq] at frame
    · rename_i eq
      rw [eq] at frame
      split
      · exact frame
      · split <;> exact frame

theorem register_congr {c c' : Correspondent} (h : c.route = c'.route) :
    c.register = c'.register := by
  simp only [Correspondent.register, h]

theorem usableRoute_fits {reach : Reach} {route : Octets} (h : reach.usableRoute = some route) :
    route ≠ [] ∧ route.length ≤ reachRouteMaxLen := by
  simpa [Reach.usableRoute, Option.filter_eq_some_iff] using (Option.filter_eq_some_iff.1 h).2

/-- A take that stands is one offer of the reach's usable route. -/
theorem takeReach_ok {sha384 : Octets → Option Octets} {faults : Faults} {serial : U64}
    {reach : Reach} {c : Correspondent} {applied : ReachApplied}
    (h : (takeReach sha384 faults serial reach c).1 = .ok applied) :
    (takeReach sha384 faults serial reach c).2.register =
      c.register.offer serial reach.usableRoute := by
  have hconv := register_congr (readConv_frame faults c).1
  unfold takeReach at h ⊢
  split at h
  · cases h
  · cases h
  · rename_i state c₁ eq₁
    rw [eq₁] at hconv
    dsimp only at h hconv ⊢
    split at h
    · cases h
    · rename_i held c₂ eq₂
      obtain ⟨rfl, hreg⟩ := readRouteRecord_ok eq₂
      rw [← hreg] at h ⊢
      split at h
      · cases h
      · rename_i take c₃ eq₃
        have hland := landRoute_ok (fun _ => usableRoute_fits) eq₃
        have hkeep := keepHandle_frame faults (if take.applied then
          reach.verifiedHandle sha384 state.peerIdentityPk else none) c₃
        rw [← hconv, ← hreg, ← hland]
        split <;> (rename_i eq₄; rw [eq₄] at hkeep; exact register_congr hkeep.1)

/-- A reach below the serial applied leaves the route record and the handle as
they are, whatever else is wrong. -/
theorem takeReach_older {sha384 : Octets → Option Octets} {faults : Faults} {serial : U64}
    {reach : Reach} {c : Correspondent} (h : serial < c.register.stamp) :
    (takeReach sha384 faults serial reach c).2.route = c.route ∧
      (takeReach sha384 faults serial reach c).2.handle = c.handle := by
  have frame := readConv_frame faults c
  unfold takeReach
  split
  · rename_i eq
    rwa [eq] at frame
  · rename_i eq
    rwa [eq] at frame
  · rename_i state c₁ eq
    rw [eq] at frame
    have hstamp : serial < c₁.register.stamp := by rwa [register_congr frame.1]
    rw [readRouteRecord_applied faults (ne_of_gt (lt_of_le_of_lt (Fin.zero_le _) hstamp))]
    simp only [landRoute, if_pos hstamp, ReachTake.applied, Bool.false_eq_true, if_false,
      keepHandle]
    exact frame

/-- A route forgotten keeps its serial, and one recorded since is kept. -/
theorem forgetRoute_ok {faults : Faults} {route : Octets} {c c' : Correspondent} {removed : Bool}
    (h : forgetRoute faults route c = (.ok removed, c')) :
    c'.register = if c.register.value = some route then ⟨none, c.register.stamp⟩
      else c.register := by
  unfold forgetRoute at h
  split at h
  · cases h
  · rename_i held serial c₁ eq
    obtain ⟨hheld, hreg⟩ := readRouteRecord_ok eq
    obtain ⟨rfl, rfl⟩ := Prod.mk.inj hheld
    rw [← hreg] at h ⊢
    split at h
    · rename_i hroute
      rw [if_pos hroute]
      split at h
      · rename_i hzero
        split at h
        · cases h
        · cases h
          rw [hzero]
          rfl
      · rw [replaceRoute_ok (Nat.zero_le _) h, if_pos rfl]
    · rename_i hroute
      cases h
      rw [if_neg hroute]

end Daemonseed.Dm.Routes
