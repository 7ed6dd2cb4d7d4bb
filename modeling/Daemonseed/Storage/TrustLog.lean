import Daemonseed.Lib.Lines
import Daemonseed.Lib.Readers
import Daemonseed.Storage.Suites

/-! # The audit log at rest

The log of trust events as its body: a count, then one entry after another with
neither a length nor an end of its own. A reader knows where an entry ends only by
reading it, and steps over one whose key it does not know. -/
namespace Daemonseed.Storage.TrustLog
open Daemonseed.Lib.Bytes Daemonseed.Lib.Lines Daemonseed.Lib.Readers Daemonseed.Storage.Suites

/-! ## Events -/

inductive TrustEventClass
  | blocking
  | persistentNonBlocking
  | transient
  | logOnly
  deriving DecidableEq, Repr

inductive TrustEventKey
  | serverKeyRotated
  | serverKeyMismatch
  | suiteDeprecationPending
  | suiteDeprecationCutoffHit
  | circleContentBelowMinSuite
  | circleCrossFamilyDeprecated
  | noCommonVersion
  | updateVerificationFailed
  | emergencySecurityUpdateAvailable
  | unsupportedIdentityProofSuite
  | serverDeprecationPolicyUnreadable
  | serverDeprecationPolicyRollback
  | updateRelayFallbackUsed
  | serverDeprecationPolicyExpiredOffline
  | federationPeerKeyDivergence
  | serverSourceUnverified
  | dmChannelTornDownOnRestart
  | dmProvisionalHandshakeLost
  | dmProvisionalRecordUnreadable
  | dmRecordErasureBlocked
  | dmCorrespondentStateLost
  | dmPeerStateRegressed
  | dmReestablishmentFailed
  | dmReestablishmentUnconfirmed
  | dmReestablishmentBackoffEngaged
  deriving DecidableEq, Repr

open TrustEventKey

def allEventKeys : List TrustEventKey :=
  [serverKeyRotated, serverKeyMismatch, suiteDeprecationPending, suiteDeprecationCutoffHit,
   circleContentBelowMinSuite, circleCrossFamilyDeprecated, noCommonVersion,
   updateVerificationFailed, emergencySecurityUpdateAvailable,
   unsupportedIdentityProofSuite, serverDeprecationPolicyUnreadable,
   serverDeprecationPolicyRollback, updateRelayFallbackUsed,
   serverDeprecationPolicyExpiredOffline, federationPeerKeyDivergence,
   serverSourceUnverified, dmChannelTornDownOnRestart, dmProvisionalHandshakeLost,
   dmProvisionalRecordUnreadable, dmRecordErasureBlocked, dmCorrespondentStateLost,
   dmPeerStateRegressed, dmReestablishmentFailed, dmReestablishmentUnconfirmed,
   dmReestablishmentBackoffEngaged]

/-- The class of a key; nothing remaps it. -/
def classOf : TrustEventKey → TrustEventClass
  | serverKeyRotated => .persistentNonBlocking
  | serverKeyMismatch => .blocking
  | suiteDeprecationPending => .persistentNonBlocking
  | suiteDeprecationCutoffHit => .blocking
  | circleContentBelowMinSuite => .blocking
  | circleCrossFamilyDeprecated => .persistentNonBlocking
  | noCommonVersion => .blocking
  | updateVerificationFailed => .blocking
  | emergencySecurityUpdateAvailable => .blocking
  | unsupportedIdentityProofSuite => .blocking
  | serverDeprecationPolicyUnreadable => .persistentNonBlocking
  | serverDeprecationPolicyRollback => .blocking
  | updateRelayFallbackUsed => .transient
  | serverDeprecationPolicyExpiredOffline => .persistentNonBlocking
  | federationPeerKeyDivergence => .persistentNonBlocking
  | serverSourceUnverified => .logOnly
  | dmChannelTornDownOnRestart => .persistentNonBlocking
  | dmProvisionalHandshakeLost => .persistentNonBlocking
  | dmProvisionalRecordUnreadable => .persistentNonBlocking
  | dmRecordErasureBlocked => .persistentNonBlocking
  | dmCorrespondentStateLost => .persistentNonBlocking
  | dmPeerStateRegressed => .persistentNonBlocking
  | dmReestablishmentFailed => .persistentNonBlocking
  | dmReestablishmentUnconfirmed => .persistentNonBlocking
  | dmReestablishmentBackoffEngaged => .persistentNonBlocking

/-- The text a key is kept as. -/
def eventKeyString : TrustEventKey → String
  | serverKeyRotated => "server-key-rotated"
  | serverKeyMismatch => "server-key-mismatch"
  | suiteDeprecationPending => "suite-deprecation-pending"
  | suiteDeprecationCutoffHit => "suite-deprecation-cutoff-hit"
  | circleContentBelowMinSuite => "circle-content-below-min-suite"
  | circleCrossFamilyDeprecated => "circle-cross-family-deprecated"
  | noCommonVersion => "no-common-version"
  | updateVerificationFailed => "update-verification-failed"
  | emergencySecurityUpdateAvailable => "emergency-security-update-available"
  | unsupportedIdentityProofSuite => "unsupported-identity-proof-suite"
  | serverDeprecationPolicyUnreadable => "server-deprecation-policy-unreadable"
  | serverDeprecationPolicyRollback => "server-deprecation-policy-rollback"
  | updateRelayFallbackUsed => "update-relay-fallback-used"
  | serverDeprecationPolicyExpiredOffline => "server-deprecation-policy-expired-offline"
  | federationPeerKeyDivergence => "federation-peer-key-divergence"
  | serverSourceUnverified => "server-source-unverified"
  | dmChannelTornDownOnRestart => "dm-channel-torn-down-on-restart"
  | dmProvisionalHandshakeLost => "dm-provisional-handshake-lost"
  | dmProvisionalRecordUnreadable => "dm-provisional-record-unreadable"
  | dmRecordErasureBlocked => "dm-record-erasure-blocked"
  | dmCorrespondentStateLost => "dm-correspondent-state-lost"
  | dmPeerStateRegressed => "dm-peer-state-regressed"
  | dmReestablishmentFailed => "dm-reestablishment-failed"
  | dmReestablishmentUnconfirmed => "dm-reestablishment-unconfirmed"
  | dmReestablishmentBackoffEngaged => "dm-reestablishment-backoff-engaged"

/-- The key of a text; none where it is from a newer build. -/
def eventKeyFromStr (s : String) : Option TrustEventKey := allEventKeys.find? (eventKeyString · = s)

inductive RecordKind
  | resume
  | provisional
  | outbox
  | receiveCursor
  | contactCache
  | blockList
  | advertKeys
  | conversation
  | conversationOutbox
  | correspondentHandle
  | correspondentRoute
  | reachSerial
  deriving DecidableEq, Repr

namespace RecordKind

def all : List RecordKind :=
  [resume, provisional, outbox, receiveCursor, contactCache, blockList, advertKeys,
   conversation, conversationOutbox, correspondentHandle, correspondentRoute, reachSerial]

def stableStr : RecordKind → String
  | resume => "resume"
  | provisional => "provisional"
  | outbox => "outbox"
  | receiveCursor => "receive-cursor"
  | contactCache => "contact-cache"
  | blockList => "block-list"
  | advertKeys => "advert-keys"
  | conversation => "conversation"
  | conversationOutbox => "conversation-outbox"
  | correspondentHandle => "correspondent-handle"
  | correspondentRoute => "correspondent-route"
  | reachSerial => "reach-serial"

def fromStableStr (s : String) : Option RecordKind := all.find? (·.stableStr = s)

end RecordKind

theorem eventKeyFromStr_string (key : TrustEventKey) :
    eventKeyFromStr (eventKeyString key) = some key := by
  cases key <;> decide

theorem fromStableStr_stableStr (kind : RecordKind) :
    RecordKind.fromStableStr kind.stableStr = some kind := by
  cases kind <;> decide

inductive ResolutionStatus
  | unresolved
  | resolved
  deriving DecidableEq, Repr

structure TrustEvent where
  timestampUnixMs : Int64
  key : TrustEventKey
  serverId : Option String
  suiteId : Option SuiteId
  recordKind : Option RecordKind
  resolution : ResolutionStatus
  dismissedAtUnixMs : Option Int64
  deriving DecidableEq

/-- What a dismissal is for; no field of it stands for any value. -/
structure DismissalScope where
  serverId : Option String
  suiteId : Option SuiteId
  recordKind : Option RecordKind

def defaultLogCap : Nat := 10000

structure TrustEventLog where
  entries : List TrustEvent
  cap : Nat
  /-- Entries of a newer build that were stepped over. -/
  unreadable : Nat
  deriving DecidableEq

namespace TrustEventLog

def new (cap : Nat) : TrustEventLog := ⟨[], cap, 0⟩

/-- Keeps the newest. -/
def pruneTo (self : TrustEventLog) (cap : Nat) : TrustEventLog :=
  { self with cap, entries := self.entries.drop (self.entries.length - cap) }

def append (self : TrustEventLog) (event : TrustEvent) : TrustEventLog :=
  if classOf event.key = .transient then self
  else pruneTo { self with entries := self.entries ++ [event] } self.cap

def dismiss (self : TrustEventLog) (key : TrustEventKey) (scope : DismissalScope)
    (atUnixMs : Int64) : TrustEventLog :=
  { self with
    entries := self.entries.map fun e =>
      if e.key = key ∧ e.serverId = scope.serverId ∧ e.suiteId = scope.suiteId
        ∧ e.recordKind = scope.recordKind then { e with dismissedAtUnixMs := some atUnixMs }
      else e }

end TrustEventLog

inductive Op
  | append (event : TrustEvent)
  | pruneTo (cap : Nat)
  | dismiss (key : TrustEventKey) (scope : DismissalScope) (atUnixMs : Int64)

def step (log : TrustEventLog) : Op → TrustEventLog
  | .append event => log.append event
  | .pruneTo cap => log.pruneTo cap
  | .dismiss key scope atUnixMs => log.dismiss key scope atUnixMs

def run (log : TrustEventLog) (ops : List Op) : TrustEventLog := ops.foldl step log

/-! ## Writing -/

inductive BodyVersion
  | v1
  | v2
  deriving DecidableEq

namespace Writer

def u8 (v : BitVec 8) : Octets := le 1 v

def u16 (v : BitVec 16) : Octets := le 2 v

def u32 (v : BitVec 32) : Octets := le 4 v

def i64 (v : Int64) : Octets := le 8 v.toBitVec

/-- Bytes after their length, of which two bytes are kept. -/
def sized (bytes : Octets) : Octets := u16 (BitVec.ofNat 16 bytes.length) ++ bytes

/-- A presence byte, then what is present. -/
def opt {α : Type} (write : α → Octets) (v : Option α) : Octets :=
  v.elim (u8 0) fun a => u8 1 ++ write a

def suite (id : SuiteId) : Octets := u16 id.raw.toBitVec

def resolution : ResolutionStatus → Octets
  | .unresolved => u8 0
  | .resolved => u8 1

end Writer

def encodeEntry (e : TrustEvent) : Octets :=
  Writer.i64 e.timestampUnixMs ++ Writer.sized (utf8 (eventKeyString e.key))
    ++ Writer.opt (fun s => Writer.sized (utf8 s)) e.serverId ++ Writer.opt Writer.suite e.suiteId
    ++ Writer.resolution e.resolution ++ Writer.opt Writer.i64 e.dismissedAtUnixMs
    ++ Writer.opt (fun k => Writer.sized (utf8 (RecordKind.stableStr k))) e.recordKind

def encodeLog (log : TrustEventLog) : Octets :=
  Writer.u32 (BitVec.ofNat 32 log.entries.length) ++ log.entries.flatMap encodeEntry

/-! ## Reading -/

namespace Cursor

def u8 : Reader Unit (BitVec 8) := wordLe () 1

def u16 : Reader Unit (BitVec 16) := wordLe () 2

def u32 : Reader Unit (BitVec 32) := wordLe () 4

def i64 : Reader Unit Int64 := do return Int64.ofBitVec (← wordLe () 8)

def sized : Reader Unit Octets := do
  let len ← u16
  take () len.toNat

/-- Present after a one, and absent after any other byte. -/
def opt {α : Type} (read : Reader Unit α) : Reader Unit (Option α) := do
  let b ← u8
  if b = 1 then return some (← read) else return none

def text : Reader Unit String := do
  let bytes ← sized
  given ((ofUtf8 bytes).elim (.error ()) .ok)

def suite : Reader Unit SuiteId := do
  let raw ← u16
  given ((SuiteId.tryNew (UInt16.ofBitVec raw)).mapError fun _ => ())

def resolutionOf (b : BitVec 8) : Except Unit ResolutionStatus :=
  if b = 0 then .ok .unresolved else if b = 1 then .ok .resolved else .error ()

/-- A word this build does not know is no kind. -/
def kindOf (raw : Octets) : Option RecordKind := (ofUtf8 raw).bind RecordKind.fromStableStr

def keyOf (raw : Octets) : Option TrustEventKey := (ofUtf8 raw).bind eventKeyFromStr

def kind : BodyVersion → Reader Unit (Option RecordKind)
  | .v1 => return none
  | .v2 => do return (← opt sized).bind kindOf

end Cursor

/-- An entry, and none where its key is not known: every field is read all the same, since
nothing else tells where the next one begins. -/
def decodeEntry (version : BodyVersion) : Reader Unit (Option TrustEvent) := do
  let timestampUnixMs ← Cursor.i64
  let keyStr ← Cursor.sized
  let serverId ← Cursor.opt Cursor.text
  let suiteId ← Cursor.opt Cursor.suite
  let b ← Cursor.u8
  let resolution ← given (Cursor.resolutionOf b)
  let dismissedAtUnixMs ← Cursor.opt Cursor.i64
  let recordKind ← Cursor.kind version
  return (Cursor.keyOf keyStr).map fun key =>
    { timestampUnixMs, key, serverId, suiteId, recordKind, resolution, dismissedAtUnixMs }

/-- The entries that are kept, and how many are not. -/
def decodeEntries (version : BodyVersion) : Nat → Reader Unit (List TrustEvent × Nat)
  | 0 => return ([], 0)
  | count + 1 => do
    let entry ← decodeEntry version
    let (entries, unreadable) ← decodeEntries version count
    return entry.elim (entries, unreadable + 1) fun e => (e :: entries, unreadable)

def body (version : BodyVersion) : Reader Unit (List TrustEvent × Nat) := do
  let count ← Cursor.u32
  decodeEntries version count.toNat

def decodeLog (bytes : Octets) (version : BodyVersion) : Option TrustEventLog :=
  ((body version).run' bytes).toOption.map fun (entries, unreadable) =>
    { entries, cap := max entries.length defaultLogCap, unreadable }

def minEntryLen : Nat := 8 + 2 + 1 + 5

/-- The entries room is made for before any is read: the count a body says, but no more than
could stand in it. -/
def reserved (bytes : Octets) : Nat :=
  ((Cursor.u32.run' bytes).toOption.map fun count =>
    min count.toNat (bytes.length / minEntryLen)).getD 0

/-! ## What each field is read back from -/

theorem reads_u8 (v : BitVec 8) : Reads Cursor.u8 (Writer.u8 v) v := reads_wordLe (n := 1) v

theorem reads_u16 (v : BitVec 16) : Reads Cursor.u16 (Writer.u16 v) v := reads_wordLe (n := 2) v

theorem reads_i64 (v : Int64) : Reads Cursor.i64 (Writer.i64 v) v := by
  have read := (reads_wordLe (e := ()) (n := 8) v.toBitVec).last (g := Int64.ofBitVec)
  rwa [Int64.ofBitVec_toBitVec] at read

/-- The length of a field fits its two bytes. -/
def Short (bytes : Octets) : Prop := bytes.length < 2 ^ 16

instance {bytes : Octets} : Decidable (Short bytes) := inferInstanceAs (Decidable (_ < _))

theorem sized_len {bytes : Octets} (short : Short bytes) :
    (BitVec.ofNat 16 bytes.length).toNat = bytes.length := Nat.mod_eq_of_lt short

theorem reads_sized {bytes : Octets} (short : Short bytes) :
    Reads Cursor.sized (Writer.sized bytes) bytes := by
  refine (reads_u16 _).bind ?_
  rw [sized_len short]
  exact reads_take bytes

theorem reads_opt {α : Type} {read : Reader Unit α} {write : α → Octets} {v : Option α}
    (h : ∀ a ∈ v, Reads read (write a) a) : Reads (Cursor.opt read) (Writer.opt write v) v := by
  cases v with
  | none =>
    intro rest
    rw [Cursor.opt, Writer.opt, Option.elim_none, (reads_u8 0).run_bind]
    rfl
  | some a =>
    intro rest
    rw [Cursor.opt, Writer.opt, Option.elim_some, List.append_assoc, (reads_u8 1).run_bind]
    exact (h a rfl).last rest

theorem reads_given {ε α : Type} {x : Except ε α} {a : α} (h : x = .ok a) :
    Reads (given x) [] a := fun _ => given_ok.2 ⟨h, rfl⟩

theorem reads_text {s : String} (short : Short (utf8 s)) :
    Reads Cursor.text (Writer.sized (utf8 s)) s := by
  have last : Reads (given ((ofUtf8 (utf8 s)).elim (.error ()) .ok)) [] s :=
    reads_given (by rw [ofUtf8_utf8, Option.elim_some])
  have read : Reads Cursor.text (Writer.sized (utf8 s) ++ []) s := (reads_sized short).bind last
  rwa [List.append_nil] at read

theorem reads_suite (id : SuiteId) : Reads Cursor.suite (Writer.suite id) id := by
  have back : (SuiteId.tryNew (UInt16.ofBitVec id.raw.toBitVec)).mapError (fun _ => ()) = .ok id := by
    rw [UInt16.ofBitVec_toBitVec, SuiteId.tryNew, dif_pos id.plain]
    rfl
  have read : Reads Cursor.suite (Writer.suite id ++ []) id :=
    (reads_u16 id.raw.toBitVec).bind (reads_given back)
  rwa [List.append_nil] at read

theorem reads_resolution {α : Type} {f : ResolutionStatus → Reader Unit α} {bytes : Octets}
    {a : α}
    (r : ResolutionStatus) (next : Reads (f r) bytes a) :
    Reads (do
      let b ← Cursor.u8
      let resolution ← given (Cursor.resolutionOf b)
      f resolution) (Writer.resolution r ++ bytes) a := by
  cases r with
  | unresolved => exact (reads_u8 0).bind ((reads_given rfl).pass next)
  | resolved => exact (reads_u8 1).bind ((reads_given rfl).pass next)

/-! ## Bodies that a build may have written -/

/-- An entry as some build laid it out: the texts of its key and of its kind of record are any. -/
structure Written where
  timestampUnixMs : Int64
  key : Octets
  serverId : Option String
  suiteId : Option SuiteId
  kind : Option Octets
  resolution : ResolutionStatus
  dismissedAtUnixMs : Option Int64

namespace Written

/-- Its texts fit their lengths. -/
structure Fits (e : Written) : Prop where
  key : Short e.key
  serverId : ∀ s ∈ e.serverId, Short (utf8 s)
  kind : ∀ k ∈ e.kind, Short k

/-- The kind ends an entry of the second version; the first has none. -/
def encodeKind (e : Written) : BodyVersion → Octets
  | .v1 => []
  | .v2 => Writer.opt Writer.sized e.kind

def encode (version : BodyVersion) (e : Written) : Octets :=
  Writer.i64 e.timestampUnixMs ++ Writer.sized e.key
    ++ Writer.opt (fun s => Writer.sized (utf8 s)) e.serverId ++ Writer.opt Writer.suite e.suiteId
    ++ Writer.resolution e.resolution ++ Writer.opt Writer.i64 e.dismissedAtUnixMs
    ++ e.encodeKind version

def readKind (e : Written) : BodyVersion → Option RecordKind
  | .v1 => none
  | .v2 => e.kind.bind Cursor.kindOf

/-- What this build reads of it: nothing where it does not know the key. -/
def known (version : BodyVersion) (e : Written) : Option TrustEvent :=
  (Cursor.keyOf e.key).map fun key =>
    ⟨e.timestampUnixMs, key, e.serverId, e.suiteId, e.readKind version, e.resolution,
      e.dismissedAtUnixMs⟩

end Written

def encodeBody (version : BodyVersion) (es : List Written) : Octets :=
  Writer.u32 (BitVec.ofNat 32 es.length) ++ es.flatMap (Written.encode version)

theorem reads_kind {e : Written} (fits : e.Fits) (version : BodyVersion) :
    Reads (Cursor.kind version) (e.encodeKind version) (e.readKind version) := by
  cases version with
  | v1 => exact Reads.pure
  | v2 => exact (reads_opt fun k held => reads_sized (fits.kind k held)).last

theorem reads_entry {e : Written} (fits : e.Fits) (version : BodyVersion) :
    Reads (decodeEntry version) (e.encode version) (e.known version) := by
  simp only [Written.encode, List.append_assoc]
  refine (reads_i64 _).bind <| (reads_sized fits.key).bind <|
    (reads_opt fun s held => reads_text (fits.serverId s held)).bind <|
    (reads_opt fun id _ => reads_suite id).bind <| reads_resolution e.resolution <|
    (reads_opt fun t _ => reads_i64 t).bind (reads_kind fits version).last

theorem reads_entries {es : List Written} (fits : ∀ e ∈ es, e.Fits) (version : BodyVersion) :
    Reads (decodeEntries version es.length) (es.flatMap (Written.encode version))
      (es.filterMap (Written.known version), es.countP fun e => (e.known version).isNone) := by
  induction es with
  | nil => exact Reads.pure
  | cons e es ih =>
    obtain ⟨first, others⟩ := List.forall_mem_cons.1 fits
    rw [List.length_cons, List.flatMap_cons]
    refine (reads_entry first version).bind ?_
    cases known : e.known version with
    | none =>
      rw [List.filterMap_cons_none known, List.countP_cons_of_pos (by rw [known]; rfl)]
      exact (ih others).last
    | some e' =>
      rw [List.filterMap_cons_some known,
        List.countP_cons_of_neg (by rw [known]; exact Bool.false_ne_true)]
      exact (ih others).last

theorem decodeLog_some {bytes : Octets} {version : BodyVersion} {log : TrustEventLog} :
    decodeLog bytes version = some log ↔ ∃ entries unreadable rest,
      (body version).run bytes = .ok ((entries, unreadable), rest) ∧
        log = ⟨entries, max entries.length defaultLogCap, unreadable⟩ := by
  have whole : decodeLog bytes version = some log ↔ ∃ x, (body version).run' bytes = .ok x ∧
      log = ⟨x.1, max x.1.length defaultLogCap, x.2⟩ := by
    unfold decodeLog
    cases (body version).run' bytes with
    | error e =>
      refine iff_of_false (fun h => by cases h) ?_
      rintro ⟨x, h, -⟩
      cases h
    | ok x =>
      constructor
      · intro h
        exact ⟨x, rfl, (Option.some.inj h).symm⟩
      · rintro ⟨x', h, rfl⟩
        obtain rfl := Except.ok.inj h
        rfl
  rw [whole]
  constructor
  · rintro ⟨⟨entries, unreadable⟩, h, rfl⟩
    obtain ⟨rest, h⟩ := run'_ok.1 h
    exact ⟨entries, unreadable, rest, h, rfl⟩
  · rintro ⟨entries, unreadable, rest, h, rfl⟩
    exact ⟨(entries, unreadable), run'_ok.2 ⟨rest, h⟩, rfl⟩

theorem reserved_le (bytes : Octets) : reserved bytes * minEntryLen ≤ bytes.length := by
  unfold reserved
  cases (Cursor.u32.run' bytes).toOption with
  | none => simp
  | some count =>
    rw [Option.map_some, Option.getD_some]
    exact (Nat.mul_le_mul_right _ (Nat.min_le_right _ _)).trans (Nat.div_mul_le_self ..)

/-- What this build makes of a body. -/
def readBack (version : BodyVersion) (es : List Written) : TrustEventLog where
  entries := es.filterMap (Written.known version)
  cap := max (es.filterMap (Written.known version)).length defaultLogCap
  unreadable := es.countP fun e => (e.known version).isNone

/-- A body that is laid out well is read entry for entry, whatever stands behind it. -/
theorem decodeLog_encodeBody {es : List Written} (fits : ∀ e ∈ es, e.Fits)
    (few : es.length < 2 ^ 32) (version : BodyVersion) (rest : Octets) :
    decodeLog (encodeBody version es ++ rest) version = some (readBack version es) := by
  have count : (BitVec.ofNat 32 es.length).toNat = es.length := Nat.mod_eq_of_lt few
  have read : Reads (body version) (encodeBody version es)
      (es.filterMap (Written.known version), es.countP fun e => (e.known version).isNone) := by
    refine (reads_wordLe (n := 4) _).bind ?_
    rw [count]
    exact reads_entries fits version
  exact decodeLog_some.2 ⟨_, _, rest, read rest, rfl⟩

/-! ## The entries of this build -/

/-- The event as it is laid out. -/
def TrustEvent.written (e : TrustEvent) : Written where
  timestampUnixMs := e.timestampUnixMs
  key := utf8 (eventKeyString e.key)
  serverId := e.serverId
  suiteId := e.suiteId
  kind := e.recordKind.map fun k => utf8 (RecordKind.stableStr k)
  resolution := e.resolution
  dismissedAtUnixMs := e.dismissedAtUnixMs

theorem encodeEntry_written (e : TrustEvent) : encodeEntry e = e.written.encode .v2 := by
  have kind : Writer.opt (fun k => Writer.sized (utf8 (RecordKind.stableStr k))) e.recordKind =
      Writer.opt Writer.sized (e.recordKind.map fun k => utf8 (RecordKind.stableStr k)) := by
    cases e.recordKind <;> rfl
  rw [encodeEntry, kind]
  rfl

theorem keyOf_string (key : TrustEventKey) : Cursor.keyOf (utf8 (eventKeyString key)) = some key := by
  rw [Cursor.keyOf, ofUtf8_utf8, Option.bind_some, eventKeyFromStr_string]

theorem readKind_written (e : TrustEvent) : e.written.readKind .v2 = e.recordKind := by
  unfold TrustEvent.written Written.readKind
  dsimp only
  cases e.recordKind with
  | none => rfl
  | some k =>
    rw [Option.map_some, Option.bind_some, Cursor.kindOf, ofUtf8_utf8, Option.bind_some,
      fromStableStr_stableStr]

/-- What this build writes of an event is the event. -/
theorem known_written (e : TrustEvent) : e.written.known .v2 = some e := by
  unfold Written.known
  rw [readKind_written, TrustEvent.written, keyOf_string, Option.map_some]

theorem eventKeyString_short (key : TrustEventKey) : Short (utf8 (eventKeyString key)) := by
  rw [Short, utf8_length]
  cases key <;> decide

theorem stableStr_short (kind : RecordKind) : Short (utf8 kind.stableStr) := by
  rw [Short, utf8_length]
  cases kind <;> decide

/-- No server id is longer than its length can say. -/
def TrustEvent.Fits (e : TrustEvent) : Prop := ∀ s ∈ e.serverId, s.utf8ByteSize < 2 ^ 16

theorem TrustEvent.Fits.written {e : TrustEvent} (h : e.Fits) : e.written.Fits where
  key := eventKeyString_short e.key
  serverId s held := by
    rw [Short, utf8_length]
    exact h s held
  kind k held := by
    obtain ⟨kind, -, rfl⟩ := Option.map_eq_some_iff.1 held
    exact stableStr_short kind

/-- Every server id of the log fits, and so does the count. -/
structure Fits (log : TrustEventLog) : Prop where
  entries : ∀ e ∈ log.entries, e.Fits
  count : log.entries.length < 2 ^ 32

/-- The log is read back: its entries in order, and none stepped over. -/
def ReadBack (log : TrustEventLog) : Prop :=
  ∃ back, decodeLog (encodeLog log) .v2 = some back ∧ back.entries = log.entries ∧
    back.unreadable = 0

theorem encodeLog_written (log : TrustEventLog) :
    encodeLog log = encodeBody .v2 (log.entries.map TrustEvent.written) := by
  have entries : log.entries.flatMap encodeEntry =
      (log.entries.map TrustEvent.written).flatMap (Written.encode .v2) := by
    rw [List.flatMap_map]
    exact List.flatMap_congr fun e _ => encodeEntry_written e
  rw [encodeLog, encodeBody, List.length_map, entries]

theorem Fits.readBack {log : TrustEventLog} (h : Fits log) : ReadBack log := by
  have fits : ∀ e ∈ log.entries.map TrustEvent.written, e.Fits := by
    intro e mem
    obtain ⟨event, held, rfl⟩ := List.mem_map.1 mem
    exact (h.entries event held).written
  have read := decodeLog_encodeBody fits (by simpa using h.count) .v2 []
  rw [List.append_nil, ← encodeLog_written] at read
  refine ⟨_, read, ?_, ?_⟩
  · rw [TrustLog.readBack, List.filterMap_map]
    exact (List.filterMap_congr fun e _ => known_written e).trans List.filterMap_some
  · rw [TrustLog.readBack, List.countP_eq_zero]
    intro e mem
    obtain ⟨event, -, rfl⟩ := List.mem_map.1 mem
    rw [known_written]
    exact Bool.false_ne_true

/-! ## What any body is read as -/

section

variable {bytes rest : Octets}

/-- Takes a value off the front of the input, and at least so many bytes for it. -/
def Takes {α : Type} (r : Reader Unit α) (least : α → Nat) : Prop :=
  ∀ bytes a rest, r.run bytes = .ok (a, rest) →
    ∃ used, bytes = used ++ rest ∧ least a ≤ used.length

theorem Takes.bind {α β : Type} {r : Reader Unit α} {f : α → Reader Unit β} {m : α → Nat}
    {n : β → Nat} (h : Takes r m) (next : ∀ a, Takes (f a) fun b => n b - m a) :
    Takes (r >>= f) n := by
  intro bytes b rest read
  obtain ⟨a, left, first, second⟩ := bind_ok.1 read
  obtain ⟨used', rfl, enough'⟩ := next a _ _ _ second
  obtain ⟨used, rfl, enough⟩ := h _ _ _ first
  refine ⟨used ++ used', (List.append_assoc ..).symm, ?_⟩
  rw [List.length_append]
  dsimp only at enough'
  omega

theorem Takes.pure {α : Type} {a : α} {m : α → Nat} (h : m a = 0) :
    Takes (pure a) m := by
  intro bytes a' rest read
  obtain ⟨rfl, rfl⟩ := pure_ok.1 read
  exact ⟨[], rfl, h ▸ Nat.le_refl _⟩

theorem Takes.mono {α : Type} {r : Reader Unit α} {m n : α → Nat} (h : Takes r m)
    (le : ∀ a, n a ≤ m a) : Takes r n := by
  intro bytes a rest read
  obtain ⟨used, rfl, enough⟩ := h _ _ _ read
  exact ⟨used, rfl, (le a).trans enough⟩

theorem takes_wordLe {n : Nat} : Takes (wordLe () n) fun _ => n := by
  intro bytes v rest read
  exact ⟨_, wordLe_ok.1 read, (le_length).ge⟩

theorem takes_take {n : Nat} : Takes (take () n) fun held => held.length := by
  intro bytes held rest read
  exact ⟨held, (take_ok.1 read).2, Nat.le_refl _⟩

theorem takes_given {α : Type} {x : Except Unit α} {m : α → Nat}
    (h : ∀ a, x = .ok a → m a = 0) : Takes (given x) m := by
  intro bytes a rest read
  obtain ⟨same, rfl⟩ := given_ok.1 read
  exact ⟨[], rfl, (h a same).le⟩

theorem takes_sized : Takes Cursor.sized fun held => 2 + held.length :=
  takes_wordLe.bind fun _ => takes_take.mono fun held => by omega

theorem takes_opt {α : Type} {read : Reader Unit α} {m : α → Nat} (h : Takes read m) :
    Takes (Cursor.opt read) fun v => 1 + v.elim 0 m := by
  refine takes_wordLe.bind fun b => ?_
  by_cases here : b = 1
  · rw [if_pos here]
    refine h.bind fun a => Takes.pure ?_
    rw [Option.elim_some]
    omega
  · rw [if_neg here]
    exact Takes.pure (by rw [Option.elim_none])

theorem takes_text : Takes Cursor.text fun s => s.utf8ByteSize := by
  refine takes_sized.bind fun bytes => takes_given fun s same => ?_
  cases read : ofUtf8 bytes with
  | none =>
    rw [read] at same
    cases same
  | some s' =>
    rw [read] at same
    obtain rfl := Except.ok.inj same
    have size : bytes.length = s'.utf8ByteSize := by rw [← utf8_length, utf8_ofUtf8 read]
    omega

theorem takes_kind (version : BodyVersion) : Takes (Cursor.kind version) fun _ => 0 := by
  cases version with
  | v1 => exact Takes.pure rfl
  | v2 => exact (takes_opt takes_sized).bind fun _ => Takes.pure (Nat.zero_sub _)

/-- The bytes of a server id. -/
def idLen (e : TrustEvent) : Nat := e.serverId.elim 0 (·.utf8ByteSize)

/-- The least bytes an entry that is kept was read from. -/
def entryLen (e : TrustEvent) : Nat := 15 + idLen e

theorem keyOf_some {raw : Octets} {key : TrustEventKey} (h : Cursor.keyOf raw = some key) :
    1 ≤ raw.length := by
  have named : ∀ key : TrustEventKey, eventKeyString key ≠ "" := by
    intro key
    cases key <;> decide
  obtain ⟨s, read, found⟩ := Option.bind_eq_some_iff.1 h
  rw [Nat.one_le_iff_ne_zero]
  intro none
  have same : eventKeyString key = s := by simpa using List.find?_some found
  have bytes := utf8_ofUtf8 read
  have size := utf8_length s
  rw [bytes, none] at size
  exact named key (same ▸ String.utf8ByteSize_eq_zero_iff.1 size.symm)

theorem takes_entry (version : BodyVersion) :
    Takes (decodeEntry version) fun r => r.elim 0 entryLen := by
  unfold decodeEntry
  refine Takes.bind (m := fun _ => 8) (takes_wordLe.bind fun _ => Takes.pure (by omega)) fun time => ?_
  refine takes_sized.bind fun raw => (takes_opt takes_text).bind fun serverId => ?_
  refine Takes.bind (m := fun _ => 1) ((takes_opt (m := fun _ => 0) ?_).mono fun _ => by omega)
    fun suiteId => ?_
  · exact takes_wordLe.bind fun _ => takes_given fun _ _ => Nat.zero_sub _
  refine takes_wordLe.bind fun b => ?_
  refine Takes.bind (m := fun _ => 0) (takes_given fun _ _ => rfl) fun resolution => ?_
  refine Takes.bind (m := fun _ => 1) ((takes_opt (m := fun _ => 0) ?_).mono fun _ => by omega)
    fun dismissed => ?_
  · exact (takes_wordLe (n := 8)).bind fun _ => Takes.pure (Nat.zero_sub _)
  refine (takes_kind version).bind fun recordKind => Takes.pure ?_
  cases key : Cursor.keyOf raw with
  | none => rw [Option.map_none, Option.elim_none]; omega
  | some k =>
    have some_ := keyOf_some key
    rw [Option.map_some, Option.elim_some, entryLen, idLen]
    dsimp only
    omega

theorem takes_entries (version : BodyVersion) (count : Nat) :
    Takes (decodeEntries version count) fun x => (x.1.map entryLen).sum := by
  induction count with
  | zero => exact Takes.pure rfl
  | succ count ih =>
    refine (takes_entry version).bind fun entry => ih.bind fun x => Takes.pure ?_
    cases entry with
    | none =>
      rw [Option.elim_none, Option.elim_none]
      dsimp only
      omega
    | some e =>
      rw [Option.elim_some, Option.elim_some, List.map_cons, List.sum_cons]
      omega

/-- Every value read has `P`. -/
def Gives {α : Type} (r : Reader Unit α) (P : α → Prop) : Prop :=
  ∀ bytes a rest, r.run bytes = .ok (a, rest) → P a

theorem Gives.bind {α β : Type} {r : Reader Unit α} {f : α → Reader Unit β} {P : α → Prop}
    {Q : β → Prop} (h : Gives r P) (next : ∀ a, P a → Gives (f a) Q) : Gives (r >>= f) Q := by
  intro bytes b rest read
  obtain ⟨a, left, first, second⟩ := bind_ok.1 read
  exact next a (h _ _ _ first) _ _ _ second

theorem Gives.pure {α : Type} {a : α} {P : α → Prop} (h : P a) : Gives (pure a) P := by
  intro bytes a' rest read
  obtain ⟨rfl, rfl⟩ := pure_ok.1 read
  exact h

theorem Gives.any {α : Type} {r : Reader Unit α} : Gives r fun _ => True := fun _ _ _ _ => trivial

theorem gives_sized : Gives Cursor.sized Short := by
  refine Gives.any.bind fun len _ bytes held rest read => ?_
  rw [Short, (take_ok.1 read).1]
  exact len.isLt

theorem gives_text : Gives Cursor.text fun s => s.utf8ByteSize < 2 ^ 16 := by
  refine gives_sized.bind fun held short bytes s rest read => ?_
  obtain ⟨same, -⟩ := given_ok.1 read
  cases text : ofUtf8 held with
  | none =>
    rw [text] at same
    cases same
  | some s' =>
    rw [text] at same
    obtain rfl := Except.ok.inj same
    rwa [Short, ← utf8_ofUtf8 text, utf8_length] at short

theorem gives_opt {α : Type} {read : Reader Unit α} {P : α → Prop} (h : Gives read P) :
    Gives (Cursor.opt read) fun v => ∀ a ∈ v, P a := by
  refine Gives.any.bind fun b _ => ?_
  by_cases here : b = 1
  · rw [if_pos here]
    refine h.bind fun a ha => Gives.pure ?_
    rintro _ ⟨⟩
    exact ha
  · rw [if_neg here]
    exact Gives.pure (by rintro _ ⟨⟩)

theorem gives_entry (version : BodyVersion) :
    Gives (decodeEntry version) fun entry => ∀ e ∈ entry, e.Fits := by
  refine Gives.any.bind fun time _ => Gives.any.bind fun raw _ =>
    (gives_opt gives_text).bind fun serverId small => Gives.any.bind fun suiteId _ =>
    Gives.any.bind fun b _ => Gives.any.bind fun resolution _ => Gives.any.bind fun dismissed _ =>
    Gives.any.bind fun kind _ => Gives.pure ?_
  intro e held
  obtain ⟨key, -, rfl⟩ := Option.map_eq_some_iff.1 held
  exact small

theorem gives_entries (version : BodyVersion) (count : Nat) :
    Gives (decodeEntries version count) fun x =>
      (∀ e ∈ x.1, e.Fits) ∧ x.1.length + x.2 = count := by
  induction count with
  | zero =>
    refine Gives.pure ⟨?_, rfl⟩
    rintro e ⟨⟩
  | succ count ih =>
    refine (gives_entry version).bind fun entry fits => ih.bind fun x held => Gives.pure ?_
    obtain ⟨others, counted⟩ := held
    cases entry with
    | none =>
      rw [Option.elim_none]
      exact ⟨others, by dsimp only; omega⟩
    | some e =>
      rw [Option.elim_some]
      exact ⟨List.forall_mem_cons.2 ⟨fits e rfl, others⟩, by rw [List.length_cons]; omega⟩

theorem gives_body (version : BodyVersion) :
    Gives (body version) fun x => (∀ e ∈ x.1, e.Fits) ∧ x.1.length < 2 ^ 32 := by
  refine Gives.any.bind fun count _ bytes x rest read => ?_
  obtain ⟨fits, counted⟩ := gives_entries version count.toNat _ _ _ read
  exact ⟨fits, by have := count.isLt; omega⟩

theorem takes_body (version : BodyVersion) :
    Takes (body version) fun x => 4 + (x.1.map entryLen).sum :=
  takes_wordLe.bind fun _ => (takes_entries version _).mono fun _ => by omega

/-! ## The log -/

/-- No reader returns an entry that does not fit. -/
theorem ReadBack.fits {log : TrustEventLog} (h : ReadBack log) : Fits log := by
  obtain ⟨back, decoded, same, -⟩ := h
  obtain ⟨entries, unreadable, rest, read, rfl⟩ := decodeLog_some.1 decoded
  obtain ⟨fits, few⟩ := gives_body .v2 _ _ _ read
  exact ⟨same ▸ fits, same ▸ few⟩

/-- A log that is written out is read back exactly where its server ids and its count fit the
fields they stand in. A body of any build that is laid out well is read entry for entry, and
whatever a body says, no more is read or kept than stands in it. -/
theorem audit_log_read_back (cap : Nat) (ops : List Op) (version : BodyVersion) (es : List Written)
    (bytes : Octets) :
    (ReadBack (run (.new cap) ops) ↔ Fits (run (.new cap) ops))
    ∧ ((∀ e ∈ es, Written.Fits e) → es.length < 2 ^ 32 →
        decodeLog (encodeBody version es) version = some (readBack version es))
    ∧ reserved bytes * minEntryLen ≤ bytes.length ∧ ∀ log,
        decodeLog bytes version = some log → ∃ used rest, bytes = used ++ rest ∧
          4 + (log.entries.map entryLen).sum ≤ used.length := by
  refine ⟨⟨ReadBack.fits, Fits.readBack⟩, fun fits few => ?_, reserved_le bytes, fun log decoded => ?_⟩
  · have read := decodeLog_encodeBody fits few version []
    rwa [List.append_nil] at read
  · obtain ⟨entries, unreadable, rest, read, rfl⟩ := decodeLog_some.1 decoded
    obtain ⟨used, rfl, enough⟩ := takes_body version _ _ _ read
    exact ⟨used, rest, rfl, enough⟩

end

/-- An entry of a key that is not known here. -/
def newer : Written := ⟨0, [120], none, none, none, .unresolved, none⟩

theorem newer_fits : ∀ e ∈ [newer], e.Fits := by
  intro e mem
  obtain rfl := List.mem_singleton.1 mem
  exact ⟨by decide, (by rintro _ ⟨⟩), by rintro _ ⟨⟩⟩

theorem audit_log_read_back_newer :
    decodeLog (encodeBody .v2 [newer]) .v2 = some (readBack .v2 [newer]) :=
  (audit_log_read_back defaultLogCap [] .v2 [newer] []).2.1 newer_fits (by decide)

/-- A server id of as many bytes as two bytes can no longer count. -/
def longId : String := .ofList (.replicate 65536 'a')

theorem longId_size : longId.utf8ByteSize = 65536 := by
  have size : ∀ n, (String.ofList (.replicate n 'a')).utf8ByteSize = n := by
    intro n
    induction n with
    | zero => rfl
    | succ n ih =>
      rw [List.replicate_succ, String.ofList_cons, String.utf8ByteSize_append, ih,
        String.utf8ByteSize_singleton]
      exact Nat.add_comm 1 n
  exact size _

theorem long_id_not_read_back :
    ¬ ReadBack (run (.new defaultLogCap)
      [.append ⟨0, .serverKeyMismatch, some longId, none, none, .unresolved, none⟩]) := by
  intro read
  have fits := read.fits.entries _ (List.mem_singleton_self _) longId rfl
  rw [longId_size] at fits
  omega

end Daemonseed.Storage.TrustLog
