import Daemonseed.Dm.Places

/-! # What an attacker can compute

`Derives` closes a set of terms under every public operation: hashing,
encapsulating, decapsulating under a secret half it has, sealing and opening
envelopes, and writing and reading encodings. A hash runs forwards only.
`Exposed` says the same by the shape of the term alone, so that a secret is
kept by looking at what it was made from. -/
namespace Daemonseed.Dm.Attacker
open Daemonseed.Dm.Primitives Daemonseed.Dm.Channel Daemonseed.Dm.Chain Daemonseed.Dm.Places
open Daemonseed.Dm.Symbolic

/-- What can be computed from the terms `K`. -/
inductive Derives (K : Term → Prop) : Term → Prop
  | known {t : Term} (h : K t) : Derives K t
  | label (l : Label) : Derives K (.label l)
  | data (i : Nat) : Derives K (.data i)
  | nil : Derives K .nil
  | hkdf {s i l : Term} : Derives K s → Derives K i → Derives K l → Derives K (.hkdf s i l)
  | ek {d z : Term} : Derives K d → Derives K z → Derives K (.ek d z)
  | dk {d z : Term} : Derives K d → Derives K z → Derives K (.dk d z)
  | ss {pk m : Term} : Derives K pk → Derives K m → Derives K (.ss pk m)
  | ct {pk m : Term} : Derives K pk → Derives K m → Derives K (.ct pk m)
  | decapsulate {k c : Term} : Derives K k → Derives K c → Derives K (decapsulate k c)
  | aead {k n a b : Term} :
      Derives K k → Derives K n → Derives K a → Derives K b → Derives K (.aead k n a b)
  /-- The nonce travels in front of the sealed bytes. -/
  | nonce {k n a b : Term} : Derives K (.aead k n a b) → Derives K n
  | body {k n a b : Term} : Derives K (.aead k n a b) → Derives K k → Derives K b
  | be32 {v : Nat} {rest : Term} : Derives K rest → Derives K (.be32 v rest)
  | be32Rest {v : Nat} {rest : Term} : Derives K (.be32 v rest) → Derives K rest
  | be64 {v : Nat} {rest : Term} : Derives K rest → Derives K (.be64 v rest)
  | be64Rest {v : Nat} {rest : Term} : Derives K (.be64 v rest) → Derives K rest
  | raw {b rest : Term} : Derives K b → Derives K rest → Derives K (.raw b rest)
  | rawHead {b rest : Term} : Derives K (.raw b rest) → Derives K b
  | rawRest {b rest : Term} : Derives K (.raw b rest) → Derives K rest
  | lp {b rest : Term} : Derives K b → Derives K rest → Derives K (.lp b rest)
  | lpHead {b rest : Term} : Derives K (.lp b rest) → Derives K b
  | lpRest {b rest : Term} : Derives K (.lp b rest) → Derives K rest
  | lpEmpty {rest : Term} : Derives K rest → Derives K (.lpEmpty rest)
  | lpEmptyRest {rest : Term} : Derives K (.lpEmpty rest) → Derives K rest

/-- What an attacker given the secrets `S` can have, by shape. A public key
and a ciphertext are had by everyone; a shared secret is had from itself,
from the draw that made it, or from the secret half it was made for. -/
def Exposed (S : Term → Prop) : Term → Prop
  | .label _ | .data _ | .nil | .ek _ _ | .ct _ _ | .reject _ _ => True
  | .rand i => S (.rand i)
  | .hkdf s i l => S (.hkdf s i l) ∨ Exposed S s ∧ Exposed S i ∧ Exposed S l
  | .dk d z => S (.dk d z) ∨ Exposed S d ∧ Exposed S z
  | .ss (.ek d z) m =>
    S (.ss (.ek d z) m) ∨ Exposed S m ∨ S (.dk d z) ∨ Exposed S d ∧ Exposed S z
  | .ss pk m => S (.ss pk m) ∨ Exposed S m
  | .aead _ n _ b => Exposed S n ∧ Exposed S b
  | .be32 _ rest | .be64 _ rest | .lpEmpty rest => Exposed S rest
  | .raw b rest | .lp b rest => Exposed S b ∧ Exposed S rest

variable {S K : Term → Prop}

theorem exposed_ss {pk m : Term} (h : Exposed S m) : Exposed S (.ss pk m) := by
  cases pk with
  | ek d z => exact .inr (.inl h)
  | _ => exact .inr h

theorem exposed_decapsulate {k c : Term} (h : Exposed S k) :
    Exposed S (Symbolic.decapsulate k c) := by
  cases k with
  | dk d z =>
    cases c with
    | ct pk m =>
      simp only [Symbolic.decapsulate]
      split
      · rename_i hpk
        subst hpk
        exact .inr (.inr h)
      · trivial
    | _ => trivial
  | _ => trivial

/-- **Nothing is computed that its shape does not expose.** -/
theorem exposed_of_derives (known : ∀ t, K t → Exposed S t) {t : Term} (h : Derives K t) :
    Exposed S t := by
  induction h with
  | known h => exact known _ h
  | label | data | nil | ek | ct => trivial
  | hkdf _ _ _ hs hi hl => exact .inr ⟨hs, hi, hl⟩
  | dk _ _ hd hz => exact .inr ⟨hd, hz⟩
  | ss _ _ _ hm => exact exposed_ss hm
  | decapsulate _ _ hk _ => exact exposed_decapsulate hk
  | aead _ _ _ _ _ hn _ hb => exact ⟨hn, hb⟩
  | nonce _ ih => exact ih.1
  | body _ _ ih => exact ih.2
  | be32 _ ih | be32Rest _ ih | be64 _ ih | be64Rest _ ih | lpEmpty _ ih | lpEmptyRest _ ih =>
    exact ih
  | raw _ _ hb hr | lp _ _ hb hr => exact ⟨hb, hr⟩
  | rawHead _ ih | lpHead _ ih => exact ih.1
  | rawRest _ ih | lpRest _ ih => exact ih.2

/-! ## The key schedule, computed forwards -/

theorem derives_chainAt {root : Term} (h : Derives K root) :
    ∀ j, Derives K (chainAt symbolic root j)
  | 0 => .hkdf (.label _) (.raw h .nil) (.label _)
  | j + 1 => .hkdf (.label _) (.raw (derives_chainAt h j) .nil) (.label _)

/-- A root is every message key of its turn. -/
theorem derives_keyAt {root : Term} (h : Derives K root) (j : Nat) :
    Derives K (keyAt symbolic root j) :=
  .hkdf (.label _) (.raw (derives_chainAt h j) .nil) (.label _)

theorem derives_advanceRoot {root own : Term} {peer : Option Term} (h : Derives K root)
    (hp : ∀ s, peer = some s → Derives K s) (ho : Derives K own) :
    Derives K (advanceRoot symbolic root peer own) := by
  cases peer with
  | none => exact .hkdf h (.lpEmpty (.lp ho .nil)) (.label _)
  | some s => exact .hkdf h (.lp (hp s rfl) (.lp ho .nil)) (.label _)

/-! ## The key schedule, looked at backwards -/

theorem exposed_seedRoot {s : Term} (h : Exposed S (seedRoot symbolic s)) :
    S (seedRoot symbolic s) ∨ Exposed S s :=
  h.imp id fun h => h.2.1.1

theorem exposed_advanceRoot {root own : Term} {peer : Option Term}
    (h : Exposed S (advanceRoot symbolic root peer own)) :
    S (advanceRoot symbolic root peer own) ∨ Exposed S root ∧ Exposed S own := by
  cases peer with
  | none => exact h.imp id fun h => ⟨h.1, h.2.1.1⟩
  | some s => exact h.imp id fun h => ⟨h.1, h.2.1.2.1⟩

theorem exposed_chainAt {root : Term} (hS : ∀ j, S (chainAt symbolic root j) → Exposed S root) :
    ∀ {j : Nat}, Exposed S (chainAt symbolic root j) → Exposed S root
  | 0, h => h.elim (hS 0) fun h => h.2.1.1
  | j + 1, h => h.elim (hS (j + 1)) fun h => exposed_chainAt hS h.2.1.1

/-- A message key is had with a chain key of its turn or with its root. -/
theorem exposed_keyAt {root : Term} {j : Nat} (hkey : ¬ S (keyAt symbolic root j))
    (hS : ∀ j, S (chainAt symbolic root j) → Exposed S root)
    (h : Exposed S (keyAt symbolic root j)) : Exposed S root :=
  h.elim (fun h => absurd h hkey) fun h => exposed_chainAt hS h.2.1.1

end Daemonseed.Dm.Attacker
