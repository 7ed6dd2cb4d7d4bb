import Daemonseed.Storage.Directives

/-! # A profile as it is written

The directives a profile is written as, the profile they are read as, and the
bytes they take. -/
namespace Daemonseed.Storage.Written
open Daemonseed.Lib.Lines Daemonseed.Lib.Sorted
open Daemonseed.Storage.Profile Daemonseed.Storage.Directives Daemonseed.Storage.Directives.Directive

variable {M : Type} {bip39 : Bip39 M}

/-! ## The directives of a profile -/

def counterDirectives (counters : CounterState) : List Directive :=
  (if counters.sendCounter ≠ 0 then [Directive.sendCounter counters.sendCounter] else []) ++
  (SortedMap.entries counters.seen).map fun e => Directive.seen e.1 e.2

def directives (s : Seeds bip39) : List Directive :=
  counterDirectives s.counters ++
  (ordered s.muted).map Directive.mute ++
  (ordered s.hiddenShares).map Directive.hide ++
  s.displayName.toList.map Directive.name ++
  (s.circles.map fun c => Directive.circle c.entropy c.label) ++
  (s.shares.map fun sh => Directive.share sh.root (sh.label.getD "")) ++
  (s.published.map fun ps => Directive.publish ps.root ps.name) ++
  ((SortedMap.entries s.announceSeen).map fun e => Directive.announceSeen e.1 e.2) ++
  (SortedMap.entries s.circleSeen).map fun e => Directive.circleSeen e.1 e.2

/-- A profile is written as its phrase and its directives. -/
theorem toPlaintext_eq (s : Seeds bip39) : s.toPlaintext = payload s.mnemonic (directives s) := by
  have named (name : Option String) :
      Seeds.nameLine name = (name.toList.map Directive.name).flatMap fun d => '\n' :: d.text := by
    cases name with
    | none => rfl
    | some name => exact (List.flatMap_singleton ..).symm
  have published (ps : PublishedShare) : Line.publish ++ hexOf ps.root ++ Seeds.secondField ps.name =
      '\n' :: (Directive.publish ps.root ps.name).text := by
    cases ps with
    | mk root name =>
      cases name with
      | none => exact List.append_nil _
      | some name => exact List.append_assoc ..
  have counter :
      (if s.counters.sendCounter ≠ 0 then
        Line.sendCounter ++ showNat s.counters.sendCounter.toNat else []) =
      (if s.counters.sendCounter ≠ 0 then [Directive.sendCounter s.counters.sendCounter]
        else []).flatMap fun d => '\n' :: d.text := by
    split
    · exact (List.flatMap_singleton ..).symm
    · rfl
  unfold Seeds.toPlaintext payload
  simp only [named, counter]
  simp only [directives, counterDirectives, List.flatMap_append, List.flatMap_map, published]
  simp only [List.append_assoc]
  rfl

/-! ## The profile they are read as -/

/-- A profile whose empty labels and published names are none. -/
def normal (s : Seeds bip39) : Seeds bip39 where
  mnemonic := s.mnemonic
  counters := s.counters
  muted := s.muted
  hiddenShares := s.hiddenShares
  displayName := s.displayName
  circles := s.circles
  shares := s.shares.map fun sh => ⟨sh.root, sh.label.bind Seeds.unlessEmpty⟩
  published := s.published.map fun ps => ⟨ps.root, ps.name.bind Seeds.unlessEmpty⟩
  announceSeen := s.announceSeen
  circleSeen := s.circleSeen

theorem unlessEmpty_getD (label : Option String) :
    Seeds.unlessEmpty (label.getD "") = label.bind Seeds.unlessEmpty := by cases label <;> rfl

/-- The directives of one kind fold into the part they set. -/
theorem foldl_part {α β : Type} (f : α → Directive) (put : β → Seeds bip39) (next : β → α → β)
    (step : ∀ b a, Directive.take (put b) (f a) = put (next b a)) (l : List α) (b : β) :
    (l.map f).foldl Directive.take (put b) = put (l.foldl next b) := by
  induction l generalizing b with
  | nil => rfl
  | cons a l ih => rw [List.map_cons, List.foldl_cons, step, ih, List.foldl_cons]

theorem foldl_concat {α β : Type} (g : α → β) (l : List α) (acc : List β) :
    l.foldl (fun acc a => acc ++ [g a]) acc = acc ++ l.map g := by
  induction l generalizing acc with
  | nil => exact (List.append_nil _).symm
  | cons a l ih => rw [List.foldl_cons, ih, List.map_cons, List.append_assoc, List.singleton_append]

section Parts
variable (s : Seeds bip39)

theorem take_counters (counters : CounterState) (h : s.counters = .default) :
    (counterDirectives counters).foldl Directive.take s = { s with counters := counters } := by
  have sent : (if counters.sendCounter ≠ 0 then [Directive.sendCounter counters.sendCounter]
      else []).foldl Directive.take s =
      { s with counters := { sendCounter := counters.sendCounter, seen := ∅ } } := by
    split
    · show { s with counters := { s.counters with sendCounter := counters.sendCounter } } = _
      rw [h]
      rfl
    · rename_i zero
      show s = _
      rw [not_not.1 zero]
      cases s
      cases h
      rfl
  have seen := foldl_part (fun e : String × UInt64 => Directive.seen e.1 e.2)
    (fun m => { s with counters := ⟨counters.sendCounter, m⟩ }) (fun m e => m.insert e.1 e.2)
    (fun _ _ => rfl) (SortedMap.entries counters.seen) ∅
  rw [counterDirectives, List.foldl_append, sent, seen, SortedMap.foldl_entries]

theorem take_muted (muted : Finset String) (h : s.muted = ∅) :
    ((ordered muted).map Directive.mute).foldl Directive.take s = { s with muted := muted } := by
  have fold := foldl_part Directive.mute (fun m => { s with muted := m })
    (fun m handle => insert handle m) (fun _ _ => rfl) (ordered muted) s.muted
  exact fold.trans (by rw [h, foldl_insert_set])

theorem take_hidden (hidden : Finset String) (h : s.hiddenShares = ∅) :
    ((ordered hidden).map Directive.hide).foldl Directive.take s =
      { s with hiddenShares := hidden } := by
  have fold := foldl_part Directive.hide (fun m => { s with hiddenShares := m })
    (fun m handle => insert handle m) (fun _ _ => rfl) (ordered hidden) s.hiddenShares
  exact fold.trans (by rw [h, foldl_insert_set])

theorem take_name (name : Option String) (h : s.displayName = none) :
    (name.toList.map Directive.name).foldl Directive.take s = { s with displayName := name } := by
  cases name with
  | none =>
    show s = _
    rw [← h]
  | some name => rfl

theorem take_circles (circles : List PersistedCircle) (h : s.circles = []) :
    (circles.map fun c => Directive.circle c.entropy c.label).foldl Directive.take s =
      { s with circles := circles } := by
  have fold := foldl_part (fun c : PersistedCircle => Directive.circle c.entropy c.label)
    (fun l => { s with circles := l }) (fun l c => l ++ [⟨c.entropy, c.label⟩])
    (fun _ _ => rfl) circles s.circles
  exact fold.trans (by rw [foldl_concat, h, List.nil_append, List.map_id'])

theorem take_shares (shares : List PersistedShare) (h : s.shares = []) :
    (shares.map fun sh => Directive.share sh.root (sh.label.getD "")).foldl Directive.take s =
      { s with shares := shares.map fun sh => ⟨sh.root, sh.label.bind Seeds.unlessEmpty⟩ } := by
  have fold := foldl_part (fun sh : PersistedShare => Directive.share sh.root (sh.label.getD ""))
    (fun l => { s with shares := l })
    (fun l sh => l ++ [⟨sh.root, Seeds.unlessEmpty (sh.label.getD "")⟩])
    (fun _ _ => rfl) shares s.shares
  refine fold.trans ?_
  rw [foldl_concat, h, List.nil_append]
  simp only [unlessEmpty_getD]

theorem take_published (published : List PublishedShare) (h : s.published = []) :
    (published.map fun ps => Directive.publish ps.root ps.name).foldl Directive.take s =
      { s with published := published.map fun ps => ⟨ps.root, ps.name.bind Seeds.unlessEmpty⟩ } := by
  have fold := foldl_part (fun ps : PublishedShare => Directive.publish ps.root ps.name)
    (fun l => { s with published := l })
    (fun l ps => l ++ [⟨ps.root, ps.name.bind Seeds.unlessEmpty⟩])
    (fun _ _ => rfl) published s.published
  exact fold.trans (by rw [foldl_concat, h, List.nil_append])

theorem take_announceSeen (seen : SortedMap String String) (h : s.announceSeen = ∅) :
    ((SortedMap.entries seen).map fun e => Directive.announceSeen e.1 e.2).foldl Directive.take s =
      { s with announceSeen := seen } := by
  have fold := foldl_part (fun e : String × String => Directive.announceSeen e.1 e.2)
    (fun m => { s with announceSeen := m }) (fun m e => m.insert e.1 e.2)
    (fun _ _ => rfl) (SortedMap.entries seen) s.announceSeen
  exact fold.trans (by rw [h, SortedMap.foldl_entries])

theorem take_circleSeen (seen : SortedMap String Int64) (h : s.circleSeen = ∅) :
    ((SortedMap.entries seen).map fun e => Directive.circleSeen e.1 e.2).foldl Directive.take s =
      { s with circleSeen := seen } := by
  have fold := foldl_part (fun e : String × Int64 => Directive.circleSeen e.1 e.2)
    (fun m => { s with circleSeen := m }) (fun m e => m.insert e.1 e.2)
    (fun _ _ => rfl) (SortedMap.entries seen) s.circleSeen
  exact fold.trans (by rw [h, SortedMap.foldl_entries])

end Parts

/-- The directives of a profile are read as the profile. -/
theorem profileOf_directives (s : Seeds bip39) : profileOf s.mnemonic (directives s) = normal s := by
  have counters := take_counters (Seeds.new s.mnemonic) s.counters rfl
  have muted := take_muted ⟨s.mnemonic, s.counters, ∅, ∅, none, [], [], [], ∅, ∅⟩ s.muted rfl
  have hidden := take_hidden ⟨s.mnemonic, s.counters, s.muted, ∅, none, [], [], [], ∅, ∅⟩
    s.hiddenShares rfl
  have named := take_name
    ⟨s.mnemonic, s.counters, s.muted, s.hiddenShares, none, [], [], [], ∅, ∅⟩ s.displayName rfl
  have circles := take_circles
    ⟨s.mnemonic, s.counters, s.muted, s.hiddenShares, s.displayName, [], [], [], ∅, ∅⟩ s.circles rfl
  have shares := take_shares
    ⟨s.mnemonic, s.counters, s.muted, s.hiddenShares, s.displayName, s.circles, [], [], ∅, ∅⟩
    s.shares rfl
  have published := take_published ⟨s.mnemonic, s.counters, s.muted, s.hiddenShares, s.displayName,
    s.circles, (normal s).shares, [], ∅, ∅⟩ s.published rfl
  have announced := take_announceSeen ⟨s.mnemonic, s.counters, s.muted, s.hiddenShares,
    s.displayName, s.circles, (normal s).shares, (normal s).published, ∅, ∅⟩ s.announceSeen rfl
  have seen := take_circleSeen ⟨s.mnemonic, s.counters, s.muted, s.hiddenShares, s.displayName,
    s.circles, (normal s).shares, (normal s).published, s.announceSeen, ∅⟩ s.circleSeen rfl
  unfold profileOf directives
  rw [List.foldl_append, List.foldl_append, List.foldl_append, List.foldl_append,
    List.foldl_append, List.foldl_append, List.foldl_append, List.foldl_append]
  refine Eq.trans (congrArg (List.foldl _ · _) ?_) seen
  refine Eq.trans (congrArg (List.foldl _ · _) ?_) announced
  refine Eq.trans (congrArg (List.foldl _ · _) ?_) published
  refine Eq.trans (congrArg (List.foldl _ · _) ?_) shares
  refine Eq.trans (congrArg (List.foldl _ · _) ?_) circles
  refine Eq.trans (congrArg (List.foldl _ · _) ?_) named
  refine Eq.trans (congrArg (List.foldl _ · _) ?_) hidden
  exact Eq.trans (congrArg (List.foldl _ · _) counters) muted

/-! ## The size -/

theorem utf8Len_plain {t : Text} (ascii : ∀ c ∈ t, c.utf8Size = 1) : String.utf8Len t = t.length := by
  induction t with
  | nil => rfl
  | cons c t ih =>
    obtain ⟨first, others⟩ := List.forall_mem_cons.1 ascii
    rw [String.utf8Len_cons, ih others, first, List.length_cons]

theorem digitChar_utf8Size : ∀ n < 16, (Nat.digitChar n).utf8Size = 1 := by decide

theorem utf8Len_hexOf (s : String) : String.utf8Len (hexOf s) = 2 * s.utf8ByteSize := by
  have ascii : ∀ c ∈ hexOf s, c.utf8Size = 1 := by
    intro c mem
    obtain ⟨n, small, rfl⟩ := showHex_digits mem
    exact digitChar_utf8Size n small
  have length (bytes : List UInt8) : (showHex bytes).length = 2 * bytes.length := by
    induction bytes with
    | nil => rfl
    | cons b bytes ih =>
      show (showHex bytes).length + 1 + 1 = _
      rw [ih, List.length_cons]
      omega
  rw [utf8Len_plain ascii, hexOf, length]
  rfl

theorem digit_utf8Size {c : Char} (digit : c.isDigit = true) : c.utf8Size = 1 := by
  rw [Char.isDigit, Bool.and_eq_true, decide_eq_true_iff, decide_eq_true_iff] at digit
  have small : c.val ≤ 0x7F := UInt32.le_trans digit.2 (by decide)
  exact if_pos small

theorem utf8Len_showNat {n digits : Nat} (small : n < 10 ^ digits) (some_ : 0 < digits) :
    String.utf8Len (showNat n) ≤ digits := by
  rw [utf8Len_plain fun c mem => digit_utf8Size (showNat_digits n c mem)]
  exact (Nat.length_toDigits_le_iff (by decide) some_).2 small

theorem utf8Len_u64 (n : UInt64) : String.utf8Len (showNat n.toNat) ≤ maxU64Digits :=
  utf8Len_showNat (n.toNat_lt.trans (by decide)) (by decide)

theorem utf8Len_i64 (i : Int64) : String.utf8Len (showInt i.toInt) ≤ maxI64Digits := by
  have low := i.le_toInt
  have high := i.toInt_lt
  cases value : i.toInt with
  | ofNat n =>
    rw [value] at high
    refine utf8Len_showNat ?_ (by decide)
    have bound : n < 2 ^ 63 := by simpa using high
    exact bound.trans (by decide)
  | negSucc n =>
    rw [value] at low
    show String.utf8Len (showNat (n + 1)) + 1 ≤ 19 + 1
    have bound : n + 1 ≤ 2 ^ 63 := by omega
    exact Nat.add_le_add_right (utf8Len_showNat (bound.trans_lt (by decide)) (by decide)) 1

theorem size_flatMap {α : Type} {f : α → Text} {g : α → Nat} {l : List α}
    (each : ∀ a, String.utf8Len (f a) ≤ g a) : String.utf8Len (l.flatMap f) ≤ (l.map g).sum := by
  induction l with
  | nil => exact le_rfl
  | cons a l ih =>
    rw [List.flatMap_cons, String.utf8Len_append, List.map_cons, List.sum_cons]
    exact Nat.add_le_add (each a) ih

/-- No more is written than was reserved. -/
theorem toPlaintext_size (lawful : Lawful bip39) (s : Seeds bip39) :
    s.toPlaintext.utf8ByteSize ≤ s.plaintextCapacity := by
  have text (t : String) : String.utf8Len t.toList = t.utf8ByteSize := String.utf8Len_toList t
  have phrase : String.utf8Len s.mnemonic.toPhrase.toList ≤ maxPhraseLen := by
    rw [text]
    exact lawful.short s.mnemonic.words s.mnemonic.english
  have blank : ' '.utf8Size = 1 := rfl
  unfold Seeds.toPlaintext Seeds.plaintextCapacity
  rewrite [String.utf8ByteSize_ofList]
  simp only [String.utf8Len_append]
  refine Nat.add_le_add (Nat.add_le_add (Nat.add_le_add (Nat.add_le_add (Nat.add_le_add
    (Nat.add_le_add (Nat.add_le_add (Nat.add_le_add (Nat.add_le_add (Nat.add_le_add phrase
    ?counter) ?seen) ?muted) ?hidden) ?name) ?circles) ?shares) ?published) ?announceSeen) ?circleSeen
  case counter =>
    split
    · rw [String.utf8Len_append]
      exact Nat.add_le_add le_rfl (utf8Len_u64 _)
    · exact le_rfl
  case seen =>
    refine size_flatMap ?_
    rintro ⟨target, n⟩
    have number := utf8Len_u64 n
    have word : String.utf8Len Line.seen = Line.seen.length := rfl
    simp only [String.utf8Len_append, String.utf8Len_cons, text, blank, word]
    omega
  case muted =>
    refine size_flatMap fun handle => ?_
    rw [String.utf8Len_append, text]
    exact le_rfl
  case hidden =>
    refine size_flatMap fun handle => ?_
    rw [String.utf8Len_append, text]
    exact le_rfl
  case name =>
    cases s.displayName with
    | none => exact le_rfl
    | some name =>
      show String.utf8Len (Line.name ++ name.toList) ≤ Line.name.length + name.utf8ByteSize
      rw [String.utf8Len_append, text]
      exact le_rfl
  case circles =>
    refine size_flatMap fun c => ?_
    have word : String.utf8Len Line.circle = Line.circle.length := rfl
    simp only [String.utf8Len_append, String.utf8Len_cons, utf8Len_hexOf, blank, word]
    omega
  case shares =>
    refine size_flatMap fun sh => ?_
    have word : String.utf8Len Line.share = Line.share.length := rfl
    simp only [String.utf8Len_append, String.utf8Len_cons, utf8Len_hexOf, blank, word]
    omega
  case published =>
    refine size_flatMap fun ps => ?_
    have word : String.utf8Len Line.publish = Line.publish.length := rfl
    have second (name : Option String) :
        String.utf8Len (Seeds.secondField name) ≤ Seeds.secondCapacity name := by
      cases name with
      | none => exact le_rfl
      | some name =>
        show String.utf8Len (hexOf name) + ' '.utf8Size ≤ 1 + 2 * name.utf8ByteSize
        rw [utf8Len_hexOf, blank, Nat.add_comm]
    simp only [String.utf8Len_append, utf8Len_hexOf, word]
    exact Nat.add_le_add_left (second ps.name) _
  case announceSeen =>
    refine size_flatMap ?_
    rintro ⟨serverId, marker⟩
    have word : String.utf8Len Line.announceSeen = Line.announceSeen.length := rfl
    simp only [String.utf8Len_append, String.utf8Len_cons, text, blank, word]
    omega
  case circleSeen =>
    refine size_flatMap ?_
    rintro ⟨entropy, ms⟩
    have number := utf8Len_i64 ms
    have word : String.utf8Len Line.circleSeen = Line.circleSeen.length := rfl
    simp only [String.utf8Len_append, String.utf8Len_cons, utf8Len_hexOf, blank, word]
    omega

end Daemonseed.Storage.Written
