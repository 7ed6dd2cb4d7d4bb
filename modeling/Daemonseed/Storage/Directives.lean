import Daemonseed.Lib.Results
import Daemonseed.Storage.Profile

/-! # The lines of a payload

A payload as the phrase and the directives that follow it, what each of them
sets, and what a payload of such directives is read as, whichever of the kinds
it has and in whatever order. -/
namespace Daemonseed.Storage.Directives
open Daemonseed.Lib.Lines Daemonseed.Lib.Sorted Daemonseed.Lib.Results
open Daemonseed.Storage.Profile

variable {M : Type} {bip39 : Bip39 M}

/-! ## Directives -/

inductive Kind
  | sendCounter | seen | mute | hide | name | circle | share | publish | announceSeen | circleSeen
  deriving DecidableEq

def Kind.word : Kind → Text
  | sendCounter => "send-counter".toList
  | seen => "seen".toList
  | mute => "mute".toList
  | hide => "hide".toList
  | name => "name".toList
  | circle => "circle".toList
  | share => "share".toList
  | publish => "publish".toList
  | announceSeen => "announce-seen".toList
  | circleSeen => "circle-seen".toList

/-- A published share without a name is the line of one field. -/
inductive Directive
  | sendCounter (n : UInt64)
  | seen (target : String) (n : UInt64)
  | mute (handle : String)
  | hide (handle : String)
  | name (chosen : String)
  | circle (entropy label : String)
  | share (root label : String)
  | publish (root : String) (shown : Option String)
  | announceSeen (serverId marker : String)
  | circleSeen (entropy : String) (ms : Int64)
  deriving DecidableEq

namespace Directive

def kind : Directive → Kind
  | sendCounter _ => .sendCounter
  | seen .. => .seen
  | mute _ => .mute
  | hide _ => .hide
  | name _ => .name
  | circle .. => .circle
  | share .. => .share
  | publish .. => .publish
  | announceSeen .. => .announceSeen
  | circleSeen .. => .circleSeen

def args : Directive → Text
  | sendCounter n => showNat n.toNat
  | seen target n => target.toList ++ ' ' :: showNat n.toNat
  | mute handle => handle.toList
  | hide handle => handle.toList
  | name chosen => chosen.toList
  | circle entropy label => hexOf entropy ++ ' ' :: hexOf label
  | share root label => hexOf root ++ ' ' :: hexOf label
  | publish root none => hexOf root
  | publish root (some shown) => hexOf root ++ ' ' :: hexOf shown
  | announceSeen serverId marker => serverId.toList ++ ' ' :: marker.toList
  | circleSeen entropy ms => hexOf entropy ++ ' ' :: showInt ms.toInt

def text (d : Directive) : Text := d.kind.word ++ ' ' :: d.args

/-- A name that stands before a blank on its line. -/
structure Spaceless (t : Text) : Prop where
  unbroken : '\n' ∉ t
  spaceless : ' ' ∉ t

/-- A directive that no other line is read for. -/
def Clean : Directive → Prop
  | seen target _ => Spaceless target.toList
  | mute handle => Whole handle.toList
  | hide handle => Whole handle.toList
  | name chosen => Whole chosen.toList
  | announceSeen serverId marker => Spaceless serverId.toList ∧ Whole marker.toList
  | _ => True

/-- What the directive sets. -/
def take (s : Seeds bip39) : Directive → Seeds bip39
  | sendCounter n => { s with counters := { s.counters with sendCounter := n } }
  | seen target n => { s with counters := { s.counters with seen := s.counters.seen.insert target n } }
  | mute handle => { s with muted := insert handle s.muted }
  | hide handle => { s with hiddenShares := insert handle s.hiddenShares }
  | name chosen => { s with displayName := some chosen }
  | circle entropy label => { s with circles := s.circles ++ [⟨entropy, label⟩] }
  | share root label => { s with shares := s.shares ++ [⟨root, Seeds.unlessEmpty label⟩] }
  | publish root shown => { s with published := s.published ++ [⟨root, shown.bind Seeds.unlessEmpty⟩] }
  | announceSeen serverId marker => { s with announceSeen := s.announceSeen.insert serverId marker }
  | circleSeen entropy ms => { s with circleSeen := s.circleSeen.insert entropy ms }

end Directive

open Directive

/-! ## A line read back -/

theorem digit_absent {c : Char} (notDigit : c.isDigit = false) (n : Nat) : c ∉ showNat n := by
  intro mem
  rw [showNat_digits n c mem] at notDigit
  cases notDigit

theorem showInt_absent {c : Char} (notDigit : c.isDigit = false) (notSign : c ≠ '-') (i : Int) :
    c ∉ showInt i := by
  cases i with
  | ofNat n => exact digit_absent notDigit n
  | negSucc n =>
    intro mem
    rcases List.mem_cons.1 mem with e | mem
    · exact notSign e
    · exact digit_absent notDigit _ mem

theorem hex_absent {c : Char} (notHex : ∀ n < 16, c ≠ Nat.digitChar n) (s : String) :
    c ∉ hexOf s := by
  intro mem
  obtain ⟨n, small, e⟩ := showHex_digits mem
  exact notHex n small e

theorem blank_hex (s : String) : ' ' ∉ hexOf s := hex_absent (by decide) s

theorem decodeHex_hexOf (s : String) : decodeHex (hexOf s) = some s := by
  rw [decodeHex, hexOf, parseHex_showHex, Option.bind_some, ofUtf8_utf8]

variable {s : Seeds bip39}

theorem readCircle_hex (entropy label : String) :
    s.readCircle (hexOf entropy ++ ' ' :: hexOf label) = .ok (take s (.circle entropy label)) := by
  rw [Seeds.readCircle, splitOnce_append (blank_hex entropy)]
  show orInvalid (decodeHex (hexOf entropy)) >>= _ = _
  rw [decodeHex_hexOf]
  show orInvalid (decodeHex (hexOf label)) >>= _ = _
  rw [decodeHex_hexOf]
  rfl

theorem readShare_hex (root label : String) :
    s.readShare (hexOf root ++ ' ' :: hexOf label) = .ok (take s (.share root label)) := by
  rw [Seeds.readShare, splitOnce_append (blank_hex root)]
  show orInvalid (decodeHex (hexOf root)) >>= _ = _
  rw [decodeHex_hexOf]
  show orInvalid (decodeHex (hexOf label)) >>= _ = _
  rw [decodeHex_hexOf]
  rfl

theorem readPublish_hex (root : String) (name : Option String) :
    s.readPublish (Directive.publish root name).args = .ok (take s (.publish root name)) := by
  cases name with
  | none =>
    show s.readPublish (hexOf root) = _
    rw [Seeds.readPublish, splitOnce_none (blank_hex root)]
    show orInvalid (decodeHex (hexOf root)) >>= _ = _
    rw [decodeHex_hexOf]
    rfl
  | some name =>
    show s.readPublish (hexOf root ++ ' ' :: hexOf name) = _
    rw [Seeds.readPublish, splitOnce_append (blank_hex root)]
    simp only [decodeHex_hexOf name]
    show orInvalid (decodeHex (hexOf root)) >>= _ = _
    rw [decodeHex_hexOf]
    rfl

theorem readCircleSeen_hex (entropy : String) (ms : Int64) :
    s.readCircleSeen (hexOf entropy ++ ' ' :: showInt ms.toInt) = take s (.circleSeen entropy ms) := by
  rw [Seeds.readCircleSeen, splitOnce_append (blank_hex entropy)]
  simp only [decodeHex_hexOf, parseI64_showInt]
  rfl

theorem readAnnounceSeen_text {serverId : String} (clean : ' ' ∉ serverId.toList) (marker : String) :
    s.readAnnounceSeen (serverId.toList ++ ' ' :: marker.toList) =
      take s (.announceSeen serverId marker) := by
  rw [Seeds.readAnnounceSeen, splitOnce_append clean]
  simp only [String.ofList_toList]
  rfl

theorem splitn3_two {line first second : Text} (h : splitOnce ' ' line = some (first, second))
    (last : splitOnce ' ' second = none) : splitn3 line = [first, second] := by
  simp only [splitn3, h, last]

theorem splitn3_three {line first second third rest : Text}
    (h : splitOnce ' ' line = some (first, rest))
    (last : splitOnce ' ' rest = some (second, third)) : splitn3 line = [first, second, third] := by
  simp only [splitn3, h, last]

theorem readCounters_sendCounter (n : UInt64) :
    s.readCounters (Directive.sendCounter n).text = .ok (take s (.sendCounter n)) := by
  have fields : splitn3 (Directive.sendCounter n).text = ["send-counter".toList, showNat n.toNat] :=
    splitn3_two rfl (splitOnce_none (digit_absent rfl _))
  rw [Seeds.readCounters, fields]
  show orInvalid (parseU64 (showNat n.toNat)) >>= _ = _
  rw [parseU64_showNat]
  rfl

theorem readCounters_seen {target : String} (clean : ' ' ∉ target.toList) (n : UInt64) :
    s.readCounters (Directive.seen target n).text = .ok (take s (.seen target n)) := by
  have fields : splitn3 (Directive.seen target n).text =
      ["seen".toList, target.toList, showNat n.toNat] :=
    splitn3_three rfl (splitOnce_append clean)
  rw [Seeds.readCounters, fields]
  show orInvalid (parseU64 (showNat n.toNat)) >>= _ = _
  rw [parseU64_showNat]
  show Except.ok (take s (.seen (String.ofList target.toList) n)) = _
  rw [String.ofList_toList]

/-- A clean directive is read as what it sets. -/
theorem readLine_text {d : Directive} (clean : d.Clean) : s.readLine d.text = .ok (take s d) := by
  cases d with
  | sendCounter n => exact readCounters_sendCounter n
  | seen target n => exact readCounters_seen clean.spaceless n
  | mute handle =>
    show Except.ok (take s (.mute (String.ofList handle.toList))) = _
    rw [String.ofList_toList]
  | hide handle =>
    show Except.ok (take s (.hide (String.ofList handle.toList))) = _
    rw [String.ofList_toList]
  | name name =>
    show Except.ok (take s (.name (String.ofList name.toList))) = _
    rw [String.ofList_toList]
  | circle entropy label => exact readCircle_hex entropy label
  | share root label => exact readShare_hex root label
  | publish root name => exact readPublish_hex root name
  | announceSeen serverId marker =>
    exact congrArg Except.ok (readAnnounceSeen_text clean.1.spaceless marker)
  | circleSeen entropy ms => exact congrArg Except.ok (readCircleSeen_hex entropy ms)

/-! ## The lines of a text -/

theorem whole_cons {c : Char} {t : Text} (plain : c ≠ '\n' ∧ c ≠ '\r') (whole : Whole t) :
    Whole (c :: t) where
  unbroken mem := by
    rcases List.mem_cons.1 mem with e | mem
    · exact plain.1 e.symm
    · exact whole.unbroken mem
  ended e := by
    cases t with
    | nil => exact plain.2 (Option.some.inj e)
    | cons x t =>
      rw [List.getLast?_cons_cons] at e
      exact whole.ended e

/-- A line is whole where its last field is. -/
theorem whole_append {front back : Text} (unbroken : '\n' ∉ front) (whole : Whole back)
    (some_ : back ≠ []) : Whole (front ++ back) where
  unbroken mem := by
    rcases List.mem_append.1 mem with mem | mem
    · exact unbroken mem
    · exact whole.unbroken mem
  ended e := by
    rw [List.getLast?_append_of_ne_nil _ some_] at e
    exact whole.ended e

theorem whole_of_absent {t : Text} (feed : '\n' ∉ t) (ret : '\r' ∉ t) : Whole t :=
  ⟨feed, fun e => ret (List.mem_of_getLast? e)⟩

theorem whole_showNat (n : Nat) : Whole (showNat n) :=
  whole_of_absent (digit_absent rfl n) (digit_absent rfl n)

theorem whole_hex (s : String) : Whole (hexOf s) :=
  whole_of_absent (hex_absent (by decide) s) (hex_absent (by decide) s)

/-- Two fields and the blank between them. -/
theorem whole_fields {front back : Text} (unbroken : '\n' ∉ front) (whole : Whole back) :
    Whole (front ++ ' ' :: back) :=
  whole_append unbroken (whole_cons (by decide) whole) (List.cons_ne_nil _ _)

theorem args_whole {d : Directive} (clean : d.Clean) : Whole d.args := by
  cases d with
  | sendCounter n => exact whole_showNat _
  | seen target n => exact whole_fields clean.unbroken (whole_showNat _)
  | mute handle => exact clean
  | hide handle => exact clean
  | name chosen => exact clean
  | circle entropy label => exact whole_fields (whole_hex entropy).unbroken (whole_hex label)
  | share root label => exact whole_fields (whole_hex root).unbroken (whole_hex label)
  | publish root shown =>
    cases shown with
    | none => exact whole_hex root
    | some shown => exact whole_fields (whole_hex root).unbroken (whole_hex shown)
  | announceSeen serverId marker => exact whole_fields clean.1.unbroken clean.2
  | circleSeen entropy ms =>
    refine whole_fields (whole_hex entropy).unbroken (whole_of_absent ?_ ?_)
    · exact showInt_absent rfl (by decide) _
    · exact showInt_absent rfl (by decide) _

theorem word_unbroken (k : Kind) : '\n' ∉ k.word := by cases k <;> decide

theorem text_whole {d : Directive} (clean : d.Clean) : Whole d.text ∧ d.text ≠ [] :=
  ⟨whole_fields (word_unbroken d.kind) (args_whole clean),
    List.append_ne_nil_of_right_ne_nil _ (List.cons_ne_nil _ _)⟩

/-! ## A payload read back -/

/-- The mnemonic library reads a phrase it wrote, on one line that the words
bound the length of. -/
structure Lawful (bip39 : Bip39 M) : Prop where
  parses : ∀ {m}, bip39.wordCount m = wordCount → bip39.english m = true →
    bip39.parse (bip39.display m) = .ok m
  line : ∀ {m}, bip39.wordCount m = wordCount → bip39.english m = true →
    Whole (bip39.display m).toList
  some_ : ∀ {m}, bip39.wordCount m = wordCount → bip39.english m = true →
    (bip39.display m).toList ≠ []
  short : ∀ {m}, bip39.wordCount m = wordCount → bip39.english m = true →
    (bip39.display m).utf8ByteSize ≤ maxPhraseLen

theorem fromPhrase_toPhrase (lawful : Lawful bip39) (m : Mnemonic bip39) :
    Mnemonic.fromPhrase bip39 m.toPhrase = .ok m := by
  rw [Mnemonic.fromPhrase, Mnemonic.toPhrase, lawful.parses m.words m.english]
  simp only [dif_pos m.words, dif_pos m.english]

/-- A phrase and the directives after it, each on its line. -/
def payload (m : Mnemonic bip39) (ds : List Directive) : String :=
  String.ofList (m.toPhrase.toList ++ ds.flatMap fun d => '\n' :: d.text)

/-- What the directives set of a new profile. -/
def profileOf (m : Mnemonic bip39) (ds : List Directive) : Seeds bip39 :=
  ds.foldl take (Seeds.new m)

/-- Lines that are whole are read one after another. -/
theorem fromPlaintext_lines (lawful : Lawful bip39) {m : Mnemonic bip39} {ds : List Directive}
    (all : ∀ d ∈ ds, Whole d.text ∧ d.text ≠ []) :
    Seeds.fromPlaintext bip39 (payload m ds) =
      ds.foldlM (fun s d => s.readLine d.text) (Seeds.new m) := by
  have each : ∀ l ∈ ds.map text, Whole l ∧ l ≠ [] := by
    intro l mem
    obtain ⟨d, held, rfl⟩ := List.mem_map.1 mem
    exact all d held
  have split := lines_join (lawful.line m.words m.english) (lawful.some_ m.words m.english) each
  have body : (ds.map text).flatMap (fun l => '\n' :: l) = ds.flatMap fun d => '\n' :: d.text :=
    List.flatMap_map ..
  rw [body] at split
  have phrase : Mnemonic.fromPhrase bip39 (String.ofList (bip39.display m.phrase).toList) = .ok m := by
    rw [String.ofList_toList]
    exact fromPhrase_toPhrase lawful m
  rw [Seeds.fromPlaintext, payload, String.toList_ofList, Mnemonic.toPhrase, split]
  simp only [phrase]
  rw [show (Except.ok m : Except MnemonicError (Mnemonic bip39)).mapError BlobError.mnemonic
    = .ok m from rfl, ok_bind]
  show (ds.map text).foldlM Seeds.readLine (Seeds.new m) = _
  rw [List.foldlM_map]

theorem fromPlaintext_payload (lawful : Lawful bip39) {m : Mnemonic bip39} {ds : List Directive}
    (clean : ∀ d ∈ ds, d.Clean) :
    Seeds.fromPlaintext bip39 (payload m ds) = .ok (profileOf m ds) := by
  rw [fromPlaintext_lines lawful fun d mem => text_whole (clean d mem)]
  have steps : ∀ d ∈ ds, ∀ s : Seeds bip39, s.readLine d.text = .ok (take s d) := by
    intro d mem s
    exact readLine_text (clean d mem)
  exact foldlM_ok steps (Seeds.new m)

/-! ## Parts that no directive sets -/

/-- Two profiles with the same part of that kind. -/
def Kind.Same (s s' : Seeds bip39) : Kind → Prop
  | sendCounter => s.counters.sendCounter = s'.counters.sendCounter
  | seen => s.counters.seen = s'.counters.seen
  | mute => s.muted = s'.muted
  | hide => s.hiddenShares = s'.hiddenShares
  | name => s.displayName = s'.displayName
  | circle => s.circles = s'.circles
  | share => s.shares = s'.shares
  | publish => s.published = s'.published
  | announceSeen => s.announceSeen = s'.announceSeen
  | circleSeen => s.circleSeen = s'.circleSeen

theorem Kind.Same.trans {k : Kind} {s t u : Seeds bip39} (h : k.Same s t) (h' : k.Same t u) :
    k.Same s u := by cases k <;> exact Eq.trans h h'

theorem take_same {k : Kind} {d : Directive} (other : d.kind ≠ k) : k.Same (take s d) s := by
  cases d <;> cases k <;> first | rfl | exact absurd rfl other

/-- A kind that is missing leaves its part at its default. -/
theorem profileOf_same {k : Kind} {m : Mnemonic bip39} {ds : List Directive}
    (missing : ∀ d ∈ ds, d.kind ≠ k) : k.Same (profileOf m ds) (Seeds.new m) := by
  have fold (s : Seeds bip39) : k.Same (ds.foldl take s) s := by
    induction ds generalizing s with
    | nil => cases k <;> rfl
    | cons d ds ih =>
      obtain ⟨first, others⟩ := List.forall_mem_cons.1 missing
      exact (ih others (take s d)).trans (take_same first)
  exact fold (Seeds.new m)

theorem profileOf_mnemonic {m : Mnemonic bip39} {ds : List Directive} :
    (profileOf m ds).mnemonic = m := by
  have fold (s : Seeds bip39) : (ds.foldl take s).mnemonic = s.mnemonic := by
    induction ds generalizing s with
    | nil => rfl
    | cons d ds ih => exact (ih (take s d)).trans (by cases d <;> rfl)
  exact fold (Seeds.new m)

end Daemonseed.Storage.Directives
