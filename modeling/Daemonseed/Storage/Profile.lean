import Daemonseed.Lib.Lines
import Daemonseed.Lib.Sorted
import Daemonseed.Storage.Suites

/-! # The profile's payload

What a profile remembers, the calls that change it, and the lines it is written
as and read from. The phrase of the mnemonic is a third party's. -/
namespace Daemonseed.Storage.Profile
open Daemonseed.Lib.Lines Daemonseed.Lib.Sorted Daemonseed.Storage.Suites

/-! ## The mnemonic -/

def wordCount : Nat := 24

def maxWordLen : Nat := 8

def maxPhraseLen : Nat := wordCount * (maxWordLen + 1) - 1

/-- The phrases of the mnemonic library. -/
structure Bip39 (M : Type) where
  parse : String → Except String M
  wordCount : M → Nat
  english : M → Bool
  display : M → String

inductive MnemonicError
  | invalidPhrase (e : String)
  | wrongWordCount (found expected : Nat)
  | notEnglish
  deriving DecidableEq, Repr

/-- A phrase of 24 English words. -/
structure Mnemonic {M : Type} (bip39 : Bip39 M) where
  phrase : M
  words : bip39.wordCount phrase = wordCount
  english : bip39.english phrase = true

namespace Mnemonic

variable {M : Type} {bip39 : Bip39 M}

def fromPhrase (bip39 : Bip39 M) (phrase : String) : Except MnemonicError (Mnemonic bip39) :=
  match bip39.parse phrase with
  | .error e => .error (.invalidPhrase e)
  | .ok m =>
    if words : bip39.wordCount m = wordCount then
      if english : bip39.english m = true then .ok ⟨m, words, english⟩ else .error .notEnglish
    else .error (.wrongWordCount (bip39.wordCount m) wordCount)

def toPhrase (self : Mnemonic bip39) : String := bip39.display self.phrase

end Mnemonic

/-! ## The payload -/

structure CounterState where
  sendCounter : UInt64
  seen : SortedMap String UInt64
  deriving DecidableEq

namespace CounterState

def default : CounterState := ⟨0, ∅⟩

/-- The next counter; none where the addition overflows, which panics. -/
def nextSend (self : CounterState) : Option (UInt64 × CounterState) :=
  if self.sendCounter.toNat + 1 < 2 ^ 64 then
    some (self.sendCounter + 1, { self with sendCounter := self.sendCounter + 1 })
  else none

/-- The highest counter of the target. -/
def recordSeen (self : CounterState) (target : String) (counter : UInt64) : CounterState :=
  let entry := (self.seen.lookup target).getD 0
  { self with seen := self.seen.insert target (if counter > entry then counter else entry) }

end CounterState

structure PersistedCircle where
  entropy : String
  label : String
  deriving DecidableEq

structure PersistedShare where
  root : String
  label : Option String
  deriving DecidableEq

structure PublishedShare where
  root : String
  name : Option String
  deriving DecidableEq

structure Seeds {M : Type} (bip39 : Bip39 M) where
  mnemonic : Mnemonic bip39
  counters : CounterState
  muted : Finset String
  hiddenShares : Finset String
  displayName : Option String
  circles : List PersistedCircle
  shares : List PersistedShare
  published : List PublishedShare
  announceSeen : SortedMap String String
  circleSeen : SortedMap String Int64

/-- One of the characters stands in the string. -/
def contains (s : String) (chars : List Char) : Bool := s.toList.any (chars.contains ·)

namespace Seeds

variable {M : Type} {bip39 : Bip39 M}

def new (mnemonic : Mnemonic bip39) : Seeds bip39 where
  mnemonic := mnemonic
  counters := .default
  muted := ∅
  hiddenShares := ∅
  displayName := none
  circles := []
  shares := []
  published := []
  announceSeen := ∅
  circleSeen := ∅

def addMute (self : Seeds bip39) (handle : String) : Bool × Seeds bip39 :=
  if contains handle ['\n', '\r'] then (false, self)
  else (handle ∉ self.muted, { self with muted := insert handle self.muted })

def removeMute (self : Seeds bip39) (handle : String) : Bool × Seeds bip39 :=
  (handle ∈ self.muted, { self with muted := self.muted.erase handle })

def addHiddenShare (self : Seeds bip39) (handle : String) : Bool × Seeds bip39 :=
  if contains handle ['\n', '\r'] then (false, self)
  else (handle ∉ self.hiddenShares,
    { self with hiddenShares := insert handle self.hiddenShares })

def removeHiddenShare (self : Seeds bip39) (handle : String) : Bool × Seeds bip39 :=
  (handle ∈ self.hiddenShares, { self with hiddenShares := self.hiddenShares.erase handle })

def setDisplayName (self : Seeds bip39) (name : Option String) : Bool × Seeds bip39 :=
  if name.any (contains · ['\n', '\r']) then (false, self)
  else if self.displayName = name then (false, self)
  else (true, { self with displayName := name })

def addCircle (self : Seeds bip39) (entropy label : String) : Bool × Seeds bip39 :=
  if self.circles.any (·.entropy = entropy) then (false, self)
  else (true, { self with circles := self.circles ++ [⟨entropy, label⟩] })

def removeCircle (self : Seeds bip39) (entropy : String) : Bool × Seeds bip39 :=
  let left := self.circles.filter (·.entropy ≠ entropy)
  (left.length ≠ self.circles.length, { self with circles := left })

/-- The label of the first circle of that entropy. -/
def relabel (entropy newLabel : String) : List PersistedCircle → Bool × List PersistedCircle
  | [] => (false, [])
  | c :: rest =>
    if c.entropy = entropy then
      if c.label = newLabel then (false, c :: rest) else (true, { c with label := newLabel } :: rest)
    else
      let (changed, rest) := relabel entropy newLabel rest
      (changed, c :: rest)

def renameCircle (self : Seeds bip39) (entropy newLabel : String) : Bool × Seeds bip39 :=
  let (changed, circles) := relabel entropy newLabel self.circles
  (changed, { self with circles })

def addShare (self : Seeds bip39) (root : String) (label : Option String) : Bool × Seeds bip39 :=
  if self.shares.any (·.root = root) then (false, self)
  else (true, { self with shares := self.shares ++ [⟨root, label⟩] })

def removeShare (self : Seeds bip39) (root : String) : Bool × Seeds bip39 :=
  let left := self.shares.filter (·.root ≠ root)
  (left.length ≠ self.shares.length, { self with shares := left })

def addPublished (self : Seeds bip39) (root : String) (name : Option String) :
    Bool × Seeds bip39 :=
  if self.published.any (·.root = root) then (false, self)
  else (true, { self with published := self.published ++ [⟨root, name⟩] })

def removePublished (self : Seeds bip39) (root : String) : Bool × Seeds bip39 :=
  let left := self.published.filter (·.root ≠ root)
  (left.length ≠ self.published.length, { self with published := left })

def clearAnnounceSeen (self : Seeds bip39) (serverId : String) : Bool × Seeds bip39 :=
  ((self.announceSeen.lookup serverId).isSome,
    { self with announceSeen := self.announceSeen.erase serverId })

def setAnnounceSeen (self : Seeds bip39) (serverId marker : String) : Bool × Seeds bip39 :=
  if contains serverId [' ', '\t', '\n', '\r'] || contains marker [' ', '\t', '\n', '\r'] then
    (false, self)
  else if self.announceSeen.lookup serverId = some marker then (false, self)
  else (true, { self with announceSeen := self.announceSeen.insert serverId marker })

def setCircleSeen (self : Seeds bip39) (entropy : String) (ms : Int64) : Bool × Seeds bip39 :=
  if (self.circleSeen.lookup entropy).any (·.toInt ≥ ms.toInt) then (false, self)
  else (true, { self with circleSeen := self.circleSeen.insert entropy ms })

end Seeds

/-! ## The lines -/

namespace Line

def sendCounter : Text := "\nsend-counter ".toList

def seen : Text := "\nseen ".toList

def mute : Text := "\nmute ".toList

def hide : Text := "\nhide ".toList

def name : Text := "\nname ".toList

def circle : Text := "\ncircle ".toList

def share : Text := "\nshare ".toList

def publish : Text := "\npublish ".toList

def announceSeen : Text := "\nannounce-seen ".toList

def circleSeen : Text := "\ncircle-seen ".toList

end Line

def maxU64Digits : Nat := 20

def maxI64Digits : Nat := 20

def hexOf (s : String) : Text := showHex (utf8 s)

def decodeHex (t : Text) : Option String := (parseHex t).bind ofUtf8

inductive BlobError
  | argon2 (e : String)
  | hkdf (e : String)
  | aesKeyInit (e : String)
  | aesMode (e : String)
  | entropySource (e : String)
  | malformed (what : String)
  | authenticationFailed
  | suiteIdSentinel (e : SuiteIdError)
  | unknownSuite (id : SuiteId)
  | writeRefused (r : WriteRefusal)
  | invalidPlaintext
  | utf8
  | mnemonic (e : MnemonicError)
  deriving DecidableEq

/-- What is left of a line split at two blanks at most. -/
def splitn3 (line : Text) : List Text :=
  match splitOnce ' ' line with
  | none => [line]
  | some (first, rest) =>
    match splitOnce ' ' rest with
    | none => [first, rest]
    | some (second, rest) => [first, second, rest]

def orInvalid {α : Type} (x : Option α) : Except BlobError α :=
  match x with
  | some a => .ok a
  | none => .error .invalidPlaintext

namespace Seeds

variable {M : Type} {bip39 : Bip39 M}

def nameCapacity : Option String → Nat
  | some name => Line.name.length + name.utf8ByteSize
  | none => 0

def secondCapacity : Option String → Nat
  | some name => 1 + 2 * name.utf8ByteSize
  | none => 0

/-- A bound on the bytes of `toPlaintext`. -/
def plaintextCapacity (self : Seeds bip39) : Nat :=
  maxPhraseLen +
  (if self.counters.sendCounter ≠ 0 then Line.sendCounter.length + maxU64Digits else 0) +
  ((SortedMap.entries self.counters.seen).map fun (target, _) =>
    Line.seen.length + target.utf8ByteSize + 1 + maxU64Digits).sum +
  ((ordered self.muted).map fun handle => Line.mute.length + handle.utf8ByteSize).sum +
  ((ordered self.hiddenShares).map fun handle => Line.hide.length + handle.utf8ByteSize).sum +
  nameCapacity self.displayName +
  (self.circles.map fun c =>
    Line.circle.length + 2 * c.entropy.utf8ByteSize + 1 + 2 * c.label.utf8ByteSize).sum +
  (self.shares.map fun sh =>
    Line.share.length + 2 * sh.root.utf8ByteSize + 1 + 2 * (sh.label.getD "").utf8ByteSize).sum +
  (self.published.map fun ps =>
    Line.publish.length + 2 * ps.root.utf8ByteSize + secondCapacity ps.name).sum +
  ((SortedMap.entries self.announceSeen).map fun (serverId, marker) =>
    Line.announceSeen.length + serverId.utf8ByteSize + 1 + marker.utf8ByteSize).sum +
  ((SortedMap.entries self.circleSeen).map fun (entropy, _) =>
    Line.circleSeen.length + 2 * entropy.utf8ByteSize + 1 + maxI64Digits).sum

def nameLine : Option String → Text
  | some name => Line.name ++ name.toList
  | none => []

/-- The name of a published share, which may be missing. -/
def secondField : Option String → Text
  | some name => ' ' :: hexOf name
  | none => []

def toPlaintext (self : Seeds bip39) : String :=
  String.ofList <|
    self.mnemonic.toPhrase.toList ++
    (if self.counters.sendCounter ≠ 0 then
      Line.sendCounter ++ showNat self.counters.sendCounter.toNat else []) ++
    ((SortedMap.entries self.counters.seen).flatMap fun (target, counter) =>
      Line.seen ++ target.toList ++ ' ' :: showNat counter.toNat) ++
    ((ordered self.muted).flatMap fun handle => Line.mute ++ handle.toList) ++
    ((ordered self.hiddenShares).flatMap fun handle => Line.hide ++ handle.toList) ++
    nameLine self.displayName ++
    (self.circles.flatMap fun c => Line.circle ++ hexOf c.entropy ++ ' ' :: hexOf c.label) ++
    (self.shares.flatMap fun sh => Line.share ++ hexOf sh.root ++ ' ' :: hexOf (sh.label.getD "")) ++
    (self.published.flatMap fun ps => Line.publish ++ hexOf ps.root ++ secondField ps.name) ++
    ((SortedMap.entries self.announceSeen).flatMap fun (serverId, marker) =>
      Line.announceSeen ++ serverId.toList ++ ' ' :: marker.toList) ++
    (SortedMap.entries self.circleSeen).flatMap fun (entropy, ms) =>
      Line.circleSeen ++ hexOf entropy ++ ' ' :: showInt ms.toInt

/-- A line of one of the two kinds that are split at blanks. -/
def readCounters (self : Seeds bip39) (line : Text) : Except BlobError (Seeds bip39) :=
  match splitn3 line with
  | [] => .error .invalidPlaintext
  | first :: args =>
    if first = "send-counter".toList then
      match args with
      | [] => .error .invalidPlaintext
      | n :: _ => do
        let n ← orInvalid (parseU64 n)
        return { self with counters := { self.counters with sendCounter := n } }
    else if first = "seen".toList then
      match args with
      | [target, n] => do
        let n ← orInvalid (parseU64 n)
        return { self with counters :=
          { self.counters with seen := self.counters.seen.insert (String.ofList target) n } }
      | _ => .error .invalidPlaintext
    else .error .invalidPlaintext

def readCircle (self : Seeds bip39) (rest : Text) : Except BlobError (Seeds bip39) := do
  let (entropyHex, labelHex) ← orInvalid (splitOnce ' ' rest)
  let entropy ← orInvalid (decodeHex entropyHex)
  let label ← orInvalid (decodeHex labelHex)
  return { self with circles := self.circles ++ [⟨entropy, label⟩] }

/-- An empty field stands for none. -/
def unlessEmpty (s : String) : Option String := if s.isEmpty then none else some s

def readShare (self : Seeds bip39) (rest : Text) : Except BlobError (Seeds bip39) := do
  let (rootHex, labelHex) ← orInvalid (splitOnce ' ' rest)
  let root ← orInvalid (decodeHex rootHex)
  let label ← orInvalid (decodeHex labelHex)
  return { self with shares := self.shares ++ [⟨root, unlessEmpty label⟩] }

def readPublish (self : Seeds bip39) (rest : Text) : Except BlobError (Seeds bip39) := do
  let (rootHex, name) ← match splitOnce ' ' rest with
    | some (rootHex, nameHex) => do
      let name ← orInvalid (decodeHex nameHex)
      pure (rootHex, unlessEmpty name)
    | none => pure (rest, none)
  let root ← orInvalid (decodeHex rootHex)
  return { self with published := self.published ++ [⟨root, name⟩] }

/-- A malformed line is skipped. -/
def readAnnounceSeen (self : Seeds bip39) (rest : Text) : Seeds bip39 :=
  match splitOnce ' ' rest with
  | some (serverId, marker) =>
    { self with
      announceSeen := self.announceSeen.insert (String.ofList serverId) (String.ofList marker) }
  | none => self

/-- A malformed line is skipped. -/
def readCircleSeen (self : Seeds bip39) (rest : Text) : Seeds bip39 :=
  match splitOnce ' ' rest with
  | some (entropyHex, msText) =>
    match decodeHex entropyHex, parseI64 msText with
    | some entropy, some ms => { self with circleSeen := self.circleSeen.insert entropy ms }
    | _, _ => self
  | none => self

/-- One line after the phrase. -/
def readLine (self : Seeds bip39) (line : Text) : Except BlobError (Seeds bip39) :=
  if let some handle := stripPrefix "mute ".toList line then
    .ok { self with muted := insert (String.ofList handle) self.muted }
  else if let some handle := stripPrefix "hide ".toList line then
    .ok { self with hiddenShares := insert (String.ofList handle) self.hiddenShares }
  else if let some name := stripPrefix "name ".toList line then
    .ok { self with displayName := some (String.ofList name) }
  else if let some rest := stripPrefix "circle ".toList line then self.readCircle rest
  else if let some rest := stripPrefix "share ".toList line then self.readShare rest
  else if let some rest := stripPrefix "publish ".toList line then self.readPublish rest
  else if let some rest := stripPrefix "announce-seen ".toList line then
    .ok (self.readAnnounceSeen rest)
  else if let some rest := stripPrefix "circle-seen ".toList line then .ok (self.readCircleSeen rest)
  else self.readCounters line

def fromPlaintext (bip39 : Bip39 M) (s : String) : Except BlobError (Seeds bip39) :=
  match lines s.toList with
  | [] => .error .invalidPlaintext
  | phrase :: rest => do
    let mnemonic ← (Mnemonic.fromPhrase bip39 (String.ofList phrase)).mapError .mnemonic
    rest.foldlM readLine (new mnemonic)

end Seeds

end Daemonseed.Storage.Profile
