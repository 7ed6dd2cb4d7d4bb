import Daemonseed.Dm.Routes
import Daemonseed.Storage.Blob

/-! # The unlocked profile

The calls of the client that change what the profile remembers and write `seeds.blob`
again, each with its own answer to a write that fails. The blob is written in place: it
is truncated first, and then filled. -/
namespace Daemonseed.Gui.Unlocked
open Daemonseed.Lib.Bytes Daemonseed.Lib.Lines Daemonseed.Storage.Suites
  Daemonseed.Storage.Profile Daemonseed.Storage.Blob
open Daemonseed.Dm.Routes (isUnsafeDisplayNameChar)

def maxDisplayNameBytes : Nat := 64

def isValidDisplayName (s : String) : Bool :=
  !s.isEmpty && !contains s ['#'] && decide (s.utf8ByteSize ≤ maxDisplayNameBytes) &&
    !s.toList.any isUnsafeDisplayNameChar

/-- What becomes of a write of the blob: it is refused before the file is truncated, or it ends
once so many bytes are in. -/
inductive Write
  | whole
  | refused
  | torn (n : Nat)
  deriving DecidableEq

/-- What the system gives one save. -/
structure Attempt where
  nonce : Except String Nonce
  write : Write

inductive SaveError
  | reseal (e : BlobError)
  | write
  | invalidDisplayName
  | rejectedDisplayName
  | markerWhitespace

/-- Whether the write succeeded, and the file after it. -/
def writeSeedsBlob (write : Write) (bytes blob : Octets) : Except SaveError Unit × Octets :=
  match write with
  | .whole => (.ok (), bytes)
  | .refused => (.error .write, blob)
  | .torn n => (.error .write, bytes.take n)

inductive Call
  | persistCircle (phrase label : String)
  | forgetCircle (phrase : String)
  | persistPublished (root : String) (name : Option String)
  | unpersistPublished (root : String)
  | persistAnnounceSeen (serverId marker : String)
  | persistCircleSeen (entropy : String) (ms : Int64)
  | rename (newName : String)

variable {K M : Type} (crypto : Crypto K) {bip39 : Bip39 M}

/-- The profile of an unlocked client. -/
structure Profile (bip39 : Bip39 M) where
  seeds : Seeds bip39
  displayHandle : String

/-- What a call returns, the profile after it and the blob. -/
abbrev Outcome (bip39 : Bip39 M) := Except SaveError Bool × Profile bip39 × Octets

/-- The cached key's seal; a registry without a suite to write under panics. -/
def sealBytes (key : Octets) (nonce : Except String Nonce) (seeds : Seeds bip39) :
    Option (Except BlobError Octets) :=
  Registry.defaultWriteSuite.map fun suiteId => sealWithKey crypto nonce seeds key suiteId

namespace Profile

/-- The Seeds sealed, and the blob overwritten. -/
def reseal (self : Profile bip39) (key : Octets) (attempt : Attempt) (blob : Octets) :
    Except SaveError Unit × Octets :=
  match sealBytes crypto key attempt.nonce self.seeds with
  | some (.ok bytes) => writeSeedsBlob attempt.write bytes blob
  | some (.error e) => (.error (.reseal e), blob)
  | none => (.error .write, blob)

/-- What the mutator changed is saved; a change whose save fails stays in memory. -/
def persist (self : Profile bip39) (key : Octets) (attempt : Attempt) (blob : Octets)
    (mutated : Bool × Seeds bip39) : Outcome bip39 :=
  match mutated with
  | (false, seeds) => (.ok false, { self with seeds }, blob)
  | (true, seeds) =>
    let self := { self with seeds }
    match self.reseal crypto key attempt blob with
    | (.ok _, blob) => (.ok true, self, blob)
    | (.error e, blob) => (.error e, self, blob)

/-- The marker before it, or none. -/
def restoreMarker (seeds : Seeds bip39) (serverId : String) : Option String → Seeds bip39
  | some previous => (seeds.setAnnounceSeen serverId previous).2
  | none => (seeds.clearAnnounceSeen serverId).2

/-- A marker with a blank is reported, and one whose save fails is taken back. -/
def persistAnnounceSeen (self : Profile bip39) (key : Octets) (attempt : Attempt) (blob : Octets)
    (serverId marker : String) : Outcome bip39 :=
  if contains marker [' ', '\t', '\n', '\r'] then (.error .markerWhitespace, self, blob)
  else
    let previous := self.seeds.announceSeen.lookup serverId
    match self.persist crypto key attempt blob (self.seeds.setAnnounceSeen serverId marker) with
    | (.error e, self, blob) =>
      (.error e, { self with seeds := restoreMarker self.seeds serverId previous }, blob)
    | saved => saved

/-- The handle follows the name whether or not it is saved. -/
def rename (self : Profile bip39) (key : Octets) (attempt : Attempt) (blob : Octets)
    (newName : String) : Outcome bip39 :=
  if !isValidDisplayName newName then (.error .invalidDisplayName, self, blob)
  else match self.seeds.setDisplayName (some newName) with
    | (false, seeds) => (.error .rejectedDisplayName, { self with seeds }, blob)
    | renamed => { self with displayHandle := newName }.persist crypto key attempt blob renamed

def persistCircle (self : Profile bip39) (key : Octets) (attempt : Attempt) (blob : Octets)
    (phrase label : String) : Outcome bip39 :=
  self.persist crypto key attempt blob (self.seeds.addCircle phrase label)

def forgetCircle (self : Profile bip39) (key : Octets) (attempt : Attempt) (blob : Octets)
    (phrase : String) : Outcome bip39 :=
  self.persist crypto key attempt blob (self.seeds.removeCircle phrase)

def persistPublished (self : Profile bip39) (key : Octets) (attempt : Attempt) (blob : Octets)
    (root : String) (name : Option String) : Outcome bip39 :=
  self.persist crypto key attempt blob (self.seeds.addPublished root name)

def unpersistPublished (self : Profile bip39) (key : Octets) (attempt : Attempt) (blob : Octets)
    (root : String) : Outcome bip39 :=
  self.persist crypto key attempt blob (self.seeds.removePublished root)

def persistCircleSeen (self : Profile bip39) (key : Octets) (attempt : Attempt) (blob : Octets)
    (entropy : String) (ms : Int64) : Outcome bip39 :=
  self.persist crypto key attempt blob (self.seeds.setCircleSeen entropy ms)

def call (self : Profile bip39) (key : Octets) (attempt : Attempt) (blob : Octets) :
    Call → Outcome bip39
  | .persistCircle phrase label => self.persistCircle crypto key attempt blob phrase label
  | .forgetCircle phrase => self.forgetCircle crypto key attempt blob phrase
  | .persistPublished root name => self.persistPublished crypto key attempt blob root name
  | .unpersistPublished root => self.unpersistPublished crypto key attempt blob root
  | .persistAnnounceSeen serverId marker =>
    self.persistAnnounceSeen crypto key attempt blob serverId marker
  | .persistCircleSeen entropy ms => self.persistCircleSeen crypto key attempt blob entropy ms
  | .rename newName => self.rename crypto key attempt blob newName

end Profile

end Daemonseed.Gui.Unlocked
