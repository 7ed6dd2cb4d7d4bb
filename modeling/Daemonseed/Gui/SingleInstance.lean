import Daemonseed.Lib.Lines
import Daemonseed.Lib.Runs

/-! # One client for a profile root

The lockfile of the resolved root holds the process id of the client that runs
there. It is created exclusively, stamped in a second step, judged by what is read
from it and removed by its name, so what is removed need not be what was judged. -/
namespace Daemonseed.Gui.SingleInstance
open Daemonseed.Lib.Bytes Daemonseed.Lib.Lines Daemonseed.Lib.Runs

/-! ## The process id in the file -/

/-- A character of the Unicode property White_Space. -/
def whiteSpace (c : Char) : Bool :=
  let n := c.toNat
  (9 ≤ n && n ≤ 13) || n == 0x20 || n == 0x85 || n == 0xA0 || n == 0x1680 ||
    (0x2000 ≤ n && n ≤ 0x200A) || n == 0x2028 || n == 0x2029 || n == 0x202F || n == 0x205F ||
    n == 0x3000

def trim (t : Text) : Text := ((t.dropWhile whiteSpace).reverse.dropWhile whiteSpace).reverse

/-- The digits after a sign. -/
def unsigned : Text → Text
  | '+' :: digits => digits
  | digits => digits

def parseU32 (t : Text) : Option UInt32 :=
  (parseDigits (unsigned t)).bind fun n => if n < 2 ^ 32 then some (UInt32.ofNat n) else none

/-- What is written of an id. -/
def pidText (pid : UInt32) : Octets := utf8 (String.ofList (showNat pid.toNat))

/-- What an empty or an unparseable file says is nothing. -/
def readPid (content : Octets) : Option UInt32 :=
  (ofUtf8 content).bind fun s => parseU32 (trim s.toList)

theorem digit_not_whiteSpace {c : Char} (digit : c.isDigit = true) : whiteSpace c = false := by
  have range : 48 ≤ c.toNat ∧ c.toNat ≤ 57 := by
    simp only [Char.isDigit, Bool.and_eq_true, decide_eq_true_eq] at digit
    exact ⟨UInt32.le_iff_toNat_le.1 digit.1, UInt32.le_iff_toNat_le.1 digit.2⟩
  unfold whiteSpace
  simp only [Bool.or_eq_false_iff, Bool.and_eq_false_iff, decide_eq_false_iff_not, beq_eq_false_iff_ne]
  omega

theorem dropWhile_digits {t : Text} (digits : ∀ c ∈ t, c.isDigit = true) :
    t.dropWhile whiteSpace = t := by
  cases t with
  | nil => rfl
  | cons c rest =>
    rw [List.dropWhile_cons_of_neg]
    rw [digit_not_whiteSpace (digits c List.mem_cons_self)]
    exact Bool.false_ne_true

theorem trim_digits {t : Text} (digits : ∀ c ∈ t, c.isDigit = true) : trim t = t := by
  unfold trim
  rw [dropWhile_digits digits,
    dropWhile_digits fun c mem => digits c (List.mem_reverse.1 mem), List.reverse_reverse]

theorem unsigned_showNat (n : Nat) : unsigned (showNat n) = showNat n := by
  obtain ⟨c, rest, e, digit⟩ := showNat_head n
  rw [e]
  unfold unsigned
  split
  · rename_i h
    cases h
    cases digit
  · rfl

theorem readPid_pidText (pid : UInt32) : readPid (pidText pid) = some pid := by
  unfold readPid pidText
  rw [ofUtf8_utf8, Option.bind_some, String.toList_ofList, trim_digits (showNat_digits _), parseU32,
    unsigned_showNat, parseDigits_showNat, Option.bind_some, if_pos pid.toNat_lt, UInt32.ofNat_toNat]

theorem readPid_nil : readPid [] = none := by
  have empty : ofUtf8 [] = some "" := ofUtf8_utf8 ""
  unfold readPid
  rw [empty]
  rfl

/-! ## Processes, files and the calls of `acquire` -/

structure Process where
  pid : UInt32
  live : Bool

/-- Where a call of `acquire` is: the file-system call it makes next, or how it ended. -/
inductive Phase
  | idle
  | creating
  | stamping (file : Nat)
  | opening
  | reading (file : Nat)
  | testing (pid : UInt32)
  | removing
  | holding (file : Nat)
  | dropped
  | alreadyRunning
  | failed
  deriving DecidableEq

namespace Phase

/-- The call has not returned. -/
def acquiring : Phase → Bool
  | creating | stamping _ | opening | reading _ | testing _ | removing => true
  | _ => false

/-- The file the call has created and whose lock it has not dropped. -/
def owns : Phase → Option Nat
  | stamping file | holding file => some file
  | _ => none

end Phase

/-- A file stays open to who created it when its name is removed or stands for another one. -/
structure World where
  processes : List Process
  entry : Option Nat
  created : Nat
  content : Nat → Octets
  owner : Nat → Nat
  phase : Nat → Phase

namespace World

def live (w : World) (p : Nat) : Bool := w.processes[p]?.any (·.live)

/-- There is a directory of the process in `/proc`. -/
def pidAlive (w : World) (pid : UInt32) : Bool := w.processes.any fun p => p.live && p.pid == pid

/-- The id of the process the call was made in. -/
def pidOf (w : World) (c : Nat) : UInt32 := (w.processes[w.owner c]?.map (·.pid)).getD 0

def turns (w : World) (c : Nat) (phase : Phase) : World :=
  { w with phase := Function.update w.phase c phase }

/-- The call's next file-system call, and what it does with its result. A file that does not
open, or is not read, has no holder. -/
def call (w : World) (c : Nat) (ok : Bool) : World :=
  match w.phase c with
  | .creating =>
    if ok then
      match w.entry with
      | some _ => w.turns c .opening
      | none =>
        { w.turns c (.stamping w.created) with
          entry := some w.created
          created := w.created + 1
          content := Function.update w.content w.created [] }
    else w.turns c .failed
  | .stamping file =>
    -- the stamp is best effort
    { w.turns c (.holding file) with
      content := if ok then Function.update w.content file (pidText (w.pidOf c)) else w.content }
  | .opening =>
    match w.entry with
    | some file => w.turns c (if ok then .reading file else .removing)
    | none => w.turns c .removing
  | .reading file =>
    match if ok then readPid (w.content file) else none with
    | none => w.turns c .removing
    | some pid => w.turns c (if pid = w.pidOf c then .alreadyRunning else .testing pid)
  | .testing pid => w.turns c (if w.pidAlive pid then .alreadyRunning else .removing)
  | .removing =>
    -- whatever has the name now goes, and nothing there is no error
    if ok then { w.turns c .creating with entry := none } else w.turns c .failed
  | _ => w

end World

inductive Act
  | spawn (pid : UInt32)
  | dies (p : Nat)
  | acquire (c p : Nat)
  | call (c : Nat) (ok : Bool)
  | drop (c : Nat) (ok : Bool)

namespace World

/-- The kernel gives no id a second time while the process that has it lives. -/
def Enabled (w : World) : Act → Prop
  | .spawn pid => w.pidAlive pid = false
  | .dies p => w.live p = true
  | .acquire c p => w.phase c = .idle ∧ w.live p = true
  | .call c _ => (w.phase c).acquiring = true ∧ w.live (w.owner c) = true
  | .drop c _ => (∃ file, w.phase c = .holding file) ∧ w.live (w.owner c) = true

def next (w : World) : Act → World
  | .spawn pid => { w with processes := w.processes ++ [⟨pid, true⟩] }
  | .dies p => { w with processes := w.processes.modify p fun q => { q with live := false } }
  | .acquire c p => { w.turns c .creating with owner := Function.update w.owner c p }
  | .call c ok => w.call c ok
  | .drop c ok => { w.turns c .dropped with entry := if ok then none else w.entry }

def Step (w : World) (a : Act) (w' : World) : Prop := w.Enabled a ∧ w' = w.next a

end World

/-- What a client that died has left: nothing that reads as an id, or its own. -/
structure Leftover where
  holder : UInt32
  content : Octets
  stale : readPid content = none ∨ readPid content = some holder

/-- The processes there are before the first call, and the lock of a dead one where it left one. -/
def start (others : List Process) : Option Leftover → World
  | none => ⟨others, none, 0, fun _ => [], fun _ => 0, fun _ => .idle⟩
  | some left =>
    ⟨⟨left.holder, false⟩ :: others, some 0, 1, fun _ => left.content, fun _ => 0,
      fun c => if c = 0 then .holding 0 else .idle⟩

end Daemonseed.Gui.SingleInstance
